import Mathlib.Logic.Function.Basic
import Mathlib.Tactic.Ring
import Mathlib.Data.Nat.ModEq

/-!
# Memory as bytes

`Bytes` is a memory that holds a byte at every address.  `read n b a` is the number
whose little-endian notation are the `n` bytes from the address `a` on, and
`write n b a v` stores the `n` low bytes of `v` there.  A number read back after it
was stored is the number modulo `256 ^ n`, and bytes outside the written range are
unchanged.  `Frame P b b'` says that the memories `b` and `b'` agree on all addresses
that do not satisfy `P`.
-/

/-- A memory of bytes. -/
abbrev Bytes : Type := ℕ → UInt8

namespace Bytes

/-- A memory of zeros. -/
def zero : Bytes := fun _ => 0

/-- The number in the `n` bytes from `a` on, least significant byte first. -/
def read : ℕ → Bytes → ℕ → ℕ
  | 0, _, _ => 0
  | n + 1, b, a => (b a).toNat + 256 * read n b (a + 1)

/-- Store the `n` low bytes of `v` from `a` on, least significant byte first. -/
def write : ℕ → Bytes → ℕ → ℕ → Bytes
  | 0, b, _, _ => b
  | n + 1, b, a, v => write n (Function.update b a (UInt8.ofNat v)) (a + 1) (v / 256)

/-- A read depends only on the bytes it reads. -/
theorem read_congr {b b' : Bytes} :
  ∀ {n a : ℕ}, (∀ x, a ≤ x → x < a + n → b' x = b x) → read n b' a = read n b a
  | 0, _, _ => rfl
  | n + 1, a, h => by
      have hrest : read n b' (a + 1) = read n b (a + 1) := by
        apply read_congr
        intro x hx hlt
        apply h x (by omega) (by omega)
      rw [read, read, hrest, h a (le_refl a) (by omega)]

/-- Reads at two addresses give the same number when the bytes from there on are the same. -/
theorem read_shift {b b' : Bytes} :
  ∀ {n a a' : ℕ}, (∀ o, o < n → b' (a' + o) = b (a + o)) → read n b' a' = read n b a
  | 0, _, _, _ => rfl
  | n + 1, a, a', h => by
      have hfirst : b' a' = b a := h 0 (Nat.succ_pos n)
      have hrest : read n b' (a' + 1) = read n b (a + 1) := by
        apply read_shift
        intro o ho
        rw [Nat.add_right_comm, Nat.add_right_comm a]
        exact h (o + 1) (Nat.succ_lt_succ ho)
      rw [read, read, hfirst, hrest]

/-- A number inside of areas that hold the same bytes. -/
theorem read_inside {b b' : Bytes} {a a' n o size : ℕ}
    (h : ∀ o, o < size → b' (a' + o) = b (a + o)) (hle : o + n ≤ size) :
  read n b' (a' + o) = read n b (a + o)
  := by
  apply read_shift
  intro x hx
  rw [Nat.add_assoc, Nat.add_assoc]
  exact h (o + x) (by omega)

/-- A number is read in two parts, the low bytes first. -/
theorem read_add (n : ℕ) {b : Bytes} :
  ∀ (m : ℕ) {a : ℕ}, read (m + n) b a = read m b a + 256 ^ m * read n b (a + m)
  | 0, _ => by
      rw [Nat.zero_add, read, pow_zero, Nat.one_mul, Nat.zero_add, Nat.add_zero]
  | m + 1, a => by
      rw [Nat.succ_add, read, read, read_add n m, pow_succ', Nat.add_right_comm a, Nat.mul_add,
        Nat.mul_assoc]
      exact (Nat.add_assoc _ _ _).symm

theorem read_lt :
  ∀ (n : ℕ) (b : Bytes) (a : ℕ), read n b a < 256 ^ n
  | 0, _, _ => Nat.one_pos
  | n + 1, b, a => by
      have hrest := read_lt n b (a + 1)
      have hbyte : (b a).toNat < 256 := (b a).toNat_lt
      rw [read, pow_succ]
      omega

/-- A byte outside the written range is unchanged. -/
theorem write_of_outside :
  ∀ {n : ℕ} {b : Bytes} {a v x : ℕ}, x < a ∨ a + n ≤ x → write n b a v x = b x
  | 0, _, _, _, _, _ => rfl
  | n + 1, b, a, v, x, h => by
      have hne : x ≠ a := by omega
      rw [write, write_of_outside (by omega), Function.update_of_ne hne]

/-- Reading what was written gives the written number modulo `256 ^ n`. -/
theorem read_write_self :
  ∀ (n : ℕ) (b : Bytes) (a v : ℕ), read n (write n b a v) a = v % 256 ^ n
  | 0, _, _, v => (Nat.mod_one v).symm
  | n + 1, b, a, v => by
      have hrest := read_write_self n (Function.update b a (UInt8.ofNat v)) (a + 1) (v / 256)
      have hbyte : write n (Function.update b a (UInt8.ofNat v)) (a + 1) (v / 256) a
          = UInt8.ofNat v := by
        rw [write_of_outside (Or.inl (Nat.lt_succ_self a)), Function.update_self]
      rw [read, write, hrest, hbyte, pow_succ', Nat.mod_mul]
      simp

/-- A read of bytes outside the written range is unchanged. -/
theorem read_write_of_disjoint {n m a a' v : ℕ} {b : Bytes} (h : a + n ≤ a' ∨ a' + m ≤ a) :
  read n (write m b a' v) a = read n b a
  := by
  apply read_congr
  intro x hx hlt
  apply write_of_outside
  omega

/-- A read of zero bytes gives zero. -/
theorem read_eq_zero {b : Bytes} :
  ∀ {n a : ℕ}, (∀ x, a ≤ x → x < a + n → b x = 0) → read n b a = 0
  | 0, _, _ => rfl
  | n + 1, a, h => by
      have hrest : read n b (a + 1) = 0 := by
        apply read_eq_zero
        intro x hx hlt
        apply h x (by omega) (by omega)
      rw [read, hrest, h a (le_refl a) (by omega)]
      rfl

/-! ### Words of eight bytes -/

/-- The 64-bit word at `a`. -/
def readWord (b : Bytes) (a : ℕ) : ℕ := read 8 b a

/-- Store the 64-bit word `v` at `a`. -/
def writeWord (b : Bytes) (a v : ℕ) : Bytes := write 8 b a v

theorem readWord_lt (b : Bytes) (a : ℕ) :
  readWord b a < 2 ^ 64
  := read_lt 8 b a

theorem readWord_congr {b b' : Bytes} {a : ℕ}
    (h : ∀ x, a ≤ x → x < a + 8 → b' x = b x) :
  readWord b' a = readWord b a
  := read_congr h

theorem readWord_writeWord_self (b : Bytes) (a : ℕ) {v : ℕ} (hv : v < 2 ^ 64) :
  readWord (writeWord b a v) a = v
  := (read_write_self 8 b a v).trans (Nat.mod_eq_of_lt hv)

theorem readWord_writeWord_of_disjoint {b : Bytes} {a a' v : ℕ}
    (h : a + 8 ≤ a' ∨ a' + 8 ≤ a) :
  readWord (writeWord b a' v) a = readWord b a
  := read_write_of_disjoint h

theorem writeWord_of_outside {b : Bytes} {a v x : ℕ} (h : x < a ∨ a + 8 ≤ x) :
  writeWord b a v x = b x
  := write_of_outside h

/-! ### Tables of words -/

/-- The words of the table of `n` words at `a`. -/
def Words (b : Bytes) (a n : ℕ) (f : ℕ → ℕ) : Prop :=
  ∀ i, i < n → b.readWord (a + 8 * i) = f i

/-- A store of four bytes fills in a word that was zero. -/
theorem Words.write {b : Bytes} {a n j v : ℕ} {f : ℕ → ℕ} (h : Words b a n f) (hzero : f j = 0)
    (hv : v < 2 ^ 32) :
  Words (b.write 4 (a + 8 * j) v) a n (Function.update f j v)
  := by
  intro i hi
  by_cases hij : i = j
  · subst hij
    have hword : read (4 + 4) b (a + 8 * i) = 0 := (h i hi).trans hzero
    rw [read_add] at hword
    have hhigh : read 4 (b.write 4 (a + 8 * i) v) (a + 8 * i + 4) = read 4 b (a + 8 * i + 4) :=
      read_write_of_disjoint (Or.inr (le_refl _))
    have hlow : read 4 (b.write 4 (a + 8 * i) v) (a + 8 * i) = v % 256 ^ 4 :=
      read_write_self 4 b (a + 8 * i) v
    rw [Function.update_self]
    show read (4 + 4) _ _ = v
    rw [read_add, hlow, hhigh]
    omega
  · rw [Function.update_of_ne hij, ← h i hi]
    apply read_write_of_disjoint
    omega

/-! ### Areas -/

/-- Replace the `n` bytes from `a` on by the first bytes of `f`. -/
def put (b : Bytes) (a n : ℕ) (f : ℕ → UInt8) : Bytes :=
  fun x => if a ≤ x ∧ x < a + n then f (x - a) else b x

theorem put_inside {b : Bytes} {a n i : ℕ} {f : ℕ → UInt8} (h : i < n) :
  put b a n f (a + i) = f i
  := by
  unfold put
  rw [if_pos ⟨Nat.le_add_right a i, Nat.add_lt_add_left h a⟩, Nat.add_sub_cancel_left]

theorem put_of_outside {b : Bytes} {a n x : ℕ} {f : ℕ → UInt8} (h : x < a ∨ a + n ≤ x) :
  put b a n f x = b x
  := by
  apply if_neg
  omega

/-! ### Tables of entries -/

/-- Replace the `n` entries of `size` bytes from `a` on by the first bytes of `f 0`, `f 1`, and
so on. -/
def putEntries (b : Bytes) (a size n : ℕ) (f : ℕ → Bytes) : Bytes :=
  put b a (size * n) (fun o => f (o / size) (o % size))

/-- A byte of an entry. -/
theorem putEntries_inside {b : Bytes} {a size n i o : ℕ} {f : ℕ → Bytes} (hi : i < n)
    (ho : o < size) :
  putEntries b a size n f (a + size * i + o) = f i o
  := by
  have hlt : size * i + o < size * n := by
    have hle := Nat.mul_le_mul_left size (Nat.succ_le_of_lt hi)
    rw [Nat.mul_succ] at hle
    omega
  have hdiv : (size * i + o) / size = i := by
    rw [Nat.mul_add_div (Nat.zero_lt_of_lt ho), Nat.div_eq_of_lt ho, Nat.add_zero]
  have hmod : (size * i + o) % size = o := by
    rw [Nat.mul_add_mod, Nat.mod_eq_of_lt ho]
  rw [putEntries, Nat.add_assoc, put_inside hlt, hdiv, hmod]

theorem putEntries_of_outside {b : Bytes} {a size n x : ℕ} {f : ℕ → Bytes}
    (h : x < a ∨ a + size * n ≤ x) :
  putEntries b a size n f x = b x
  := put_of_outside h

/-! ### Frames -/

/-- The memories `b` and `b'` agree on all addresses that do not satisfy `P`. -/
def Frame (P : ℕ → Prop) (b b' : Bytes) : Prop :=
  ∀ x, ¬ P x → b' x = b x

namespace Frame

variable {P Q : ℕ → Prop} {b b' b'' : Bytes}

theorem refl (P : ℕ → Prop) (b : Bytes) :
  Frame P b b
  := fun _ _ => rfl

theorem trans (h : Frame P b b') (h' : Frame P b' b'') :
  Frame P b b''
  := fun x hx => (h' x hx).trans (h x hx)

theorem mono (h : Frame P b b') (hPQ : ∀ x, P x → Q x) :
  Frame Q b b'
  := fun x hx => h x (fun hP => hx (hPQ x hP))

/-- A word is unchanged when no byte of it satisfies `P`. -/
theorem readWord {a : ℕ} (h : Frame P b b') (ha : ∀ x, a ≤ x → x < a + 8 → ¬ P x) :
  b'.readWord a = b.readWord a
  := readWord_congr (fun x hx hlt => h x (ha x hx hlt))

end Frame

end Bytes
