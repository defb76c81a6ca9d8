import LarvaOS.Library.Bytes

/-!
# A stack of words

A stack of 64-bit words in memory grows downwards: `pushWord` moves the stack pointer down by
eight bytes and stores a word there.  `b.words a n` are the `n` words from the address `a` on.
The words that were pushed lie in memory in reverse order, the last one at the stack pointer.
-/

namespace Bytes

/-- The word at an address. -/
def wordAt (b : Bytes) (a : ℕ) : UInt64 := UInt64.ofNat (b.readWord a)

/-- The `n` words from an address on. -/
def words (b : Bytes) (a n : ℕ) : List UInt64 := (List.range n).map (fun i => b.wordAt (a + 8 * i))

/-- Push a word. -/
def pushWord (s : Bytes × UInt64) (v : UInt64) : Bytes × UInt64 :=
  (s.1.writeWord (s.2 - 8).toNat v.toNat, s.2 - 8)

/-- Push words, the first one first. -/
def pushWords (s : Bytes × UInt64) (vs : List UInt64) : Bytes × UInt64 := vs.foldl pushWord s

variable {b b' : Bytes} {a x n : ℕ} {sp v : UInt64} {vs : List UInt64}

@[simp]
theorem wordAt_writeWord_self :
  (b.writeWord a v.toNat).wordAt a = v
  := by
  rw [wordAt, readWord_writeWord_self b a v.toNat_lt, UInt64.ofNat_toNat]

theorem wordAt_congr (h : ∀ x, a ≤ x → x < a + 8 → b' x = b x) :
  b'.wordAt a = b.wordAt a
  := congrArg UInt64.ofNat (readWord_congr h)

theorem words_congr (h : ∀ x, a ≤ x → x < a + 8 * n → b' x = b x) :
  b'.words a n = b.words a n
  := by
  apply List.map_congr_left
  intro i hi
  have hlt := List.mem_range.mp hi
  apply wordAt_congr
  intro x hx hx'
  exact h x (by omega) (by omega)

theorem words_succ_last :
  b.words a (n + 1) = b.words a n ++ [b.wordAt (a + 8 * n)]
  := by
  rw [words, List.range_succ, List.map_append]
  rfl

/-- The stack pointer after one push. -/
theorem ofNat_sub_eight (a : ℕ) :
  UInt64.ofNat (a + 8) - 8 = UInt64.ofNat a
  := by
  rw [UInt64.ofNat_add]
  exact UInt64.add_sub_cancel _ _

/-- Pushed words end at the old stack pointer, in reverse order, and change nothing else. -/
theorem pushWords_spec (h : a + 8 * vs.length ≤ 2 ^ 64) :
  (pushWords (b, UInt64.ofNat (a + 8 * vs.length)) vs).2 = UInt64.ofNat a
    ∧ (pushWords (b, UInt64.ofNat (a + 8 * vs.length)) vs).1.words a vs.length = vs.reverse
    ∧ ∀ x, x < a ∨ a + 8 * vs.length ≤ x →
      (pushWords (b, UInt64.ofNat (a + 8 * vs.length)) vs).1 x = b x
  := by
  induction vs generalizing b with
  | nil => exact ⟨rfl, rfl, fun _ _ => rfl⟩
  | cons v vs ih =>
      rw [List.length_cons] at h
      have hlt : a + 8 * vs.length < 2 ^ 64 := by omega
      have hsp : UInt64.ofNat (a + 8 * (v :: vs).length) - 8 = UInt64.ofNat (a + 8 * vs.length) :=
        ofNat_sub_eight (a + 8 * vs.length)
      have hpush : pushWords (b, UInt64.ofNat (a + 8 * (v :: vs).length)) (v :: vs)
          = pushWords (b.writeWord (a + 8 * vs.length) v.toNat, UInt64.ofNat (a + 8 * vs.length))
            vs := by
        rw [pushWords, List.foldl_cons, pushWord, hsp, UInt64.toNat_ofNat_of_lt' hlt]
        rfl
      obtain ⟨hlast, hwords, houtside⟩ := ih (b := b.writeWord (a + 8 * vs.length) v.toNat) (by omega)
      rw [hpush]
      refine ⟨hlast, ?_, ?_⟩
      · rw [List.length_cons, words_succ_last, hwords, List.reverse_cons]
        rw [wordAt_congr (fun x hx _ => houtside x (Or.inr hx)), wordAt_writeWord_self]
      · intro x hx
        rw [List.length_cons] at hx
        rw [houtside x (by omega)]
        apply writeWord_of_outside
        omega

/-- Store words, the first one at the address `a`. -/
def storeWords (b : Bytes) (a : ℕ) : List UInt64 → Bytes
  | [] => b
  | v :: vs => storeWords (b.writeWord a v.toNat) (a + 8) vs

/-- Stored words lie in memory in order, and nothing else is changed. -/
theorem storeWords_spec :
  (storeWords b a vs).words a vs.length = vs
    ∧ ∀ x, x < a ∨ a + 8 * vs.length ≤ x → storeWords b a vs x = b x
  := by
  induction vs generalizing b a with
  | nil => exact ⟨rfl, fun _ _ => rfl⟩
  | cons v vs ih =>
      obtain ⟨hwords, houtside⟩ := ih (b := b.writeWord a v.toNat) (a := a + 8)
      have hfirst : (storeWords b a (v :: vs)).wordAt a = v := by
        have hcongr := wordAt_congr (fun x (_ : a ≤ x) hx => houtside x (Or.inl hx))
        exact hcongr.trans wordAt_writeWord_self
      constructor
      · have hshift : (fun i => (storeWords b a (v :: vs)).wordAt (a + 8 * i)) ∘ Nat.succ
            = fun i => (storeWords b a (v :: vs)).wordAt (a + 8 + 8 * i) := by
          funext i
          rw [Function.comp_apply, Nat.mul_succ, Nat.add_right_comm, Nat.add_assoc]
        rw [List.length_cons, words, List.range_succ_eq_map, List.map_cons, List.map_map,
          Nat.mul_zero, Nat.add_zero, hfirst, hshift]
        exact congrArg (v :: ·) hwords
      · intro x hx
        rw [List.length_cons] at hx
        rw [storeWords, houtside x (by omega)]
        apply writeWord_of_outside
        omega

/-- A word of a list of words. -/
theorem wordAt_of_words {i : ℕ} (h : b.words a n = vs) (hi : i < n) :
  vs[i]? = some (b.wordAt (a + 8 * i))
  := by
  rw [← h, words, List.getElem?_map, List.getElem?_range hi]
  rfl

end Bytes
