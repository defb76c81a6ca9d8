import LarvaOS.Libc.String
import Mathlib.Data.Set.Defs

/-!
# The order of `memcmp`

`memcmp` compares two areas of memory as sequences of bytes, up to the first position where they
differ.  The difference of the two bytes there is between -255 and 255 and is stored in a
`signed char`, which changes its sign when it is not between -128 and 127.  It is not zero
afterwards, so that `memcmp` always finds out whether the areas are equal, but it orders them only
when the difference fits.
-/

namespace LarvaOS

/-- The `n` bytes from an address on. -/
def bytesAt (b : Bytes) : ℕ → ℕ → List UInt8
  | 0, _ => []
  | n + 1, a => b a :: bytesAt b n (a + 1)

/-- What `string.h` says about the result of a comparison; the order of the lists is the
lexicographic one, with the bytes as unsigned numbers. -/
structure Compares (res : Int) (s t : List UInt8) : Prop where
  equal : res = 0 ↔ s = t
  less : res < 0 ↔ s < t
  greater : 0 < res ↔ t < s

/-- `memcmp` orders the areas of `n` bytes that begin at the addresses of `S`. -/
structure OrdersAreas (b : Bytes) (n : ℕ) (S : Set ℕ) : Prop where
  compares : ∀ p ∈ S, ∀ q ∈ S, Compares (memcmp n b p q) (bytesAt b n p) (bytesAt b n q)
  opposite : ∀ p ∈ S, ∀ q ∈ S, (memcmp n b q p).sign = -(memcmp n b p q).sign
  trans_lt : ∀ p ∈ S, ∀ q ∈ S, ∀ r ∈ S,
    memcmp n b p q < 0 → memcmp n b q r < 0 → memcmp n b p r < 0
  trans_le : ∀ p ∈ S, ∀ q ∈ S, ∀ r ∈ S,
    memcmp n b p q ≤ 0 → memcmp n b q r ≤ 0 → memcmp n b p r ≤ 0

/-- At the first position where the areas differ, the difference of the bytes is a
`signed char`. -/
def NarrowDifference (b : Bytes) (n p q : ℕ) : Prop :=
  ∀ i, i < n → (∀ j, j < i → b (p + j) = b (q + j)) →
    -128 ≤ ((b (p + i)).toNat : Int) - (b (q + i)).toNat
      ∧ ((b (p + i)).toNat : Int) - (b (q + i)).toNat ≤ 127

/-! ### The first difference -/

/-- The difference of the bytes at the first position where two sequences differ. -/
def firstDifference : List UInt8 → List UInt8 → Int
  | c :: s, d :: t => if c = d then firstDifference s t else (c.toNat : Int) - d.toNat
  | _, _ => 0

theorem firstDifference_cons_self (c : UInt8) (s t : List UInt8) :
  firstDifference (c :: s) (c :: t) = firstDifference s t
  := if_pos rfl

theorem firstDifference_cons_ne {c d : UInt8} (h : c ≠ d) (s t : List UInt8) :
  firstDifference (c :: s) (d :: t) = (c.toNat : Int) - d.toNat
  := if_neg h

variable {b : Bytes} {n p q : ℕ}

theorem length_bytesAt :
  ∀ {n a : ℕ}, (bytesAt b n a).length = n
  | 0, _ => rfl
  | n + 1, _ => by rw [bytesAt, List.length_cons, length_bytesAt]

theorem firstDifference_bounds :
  ∀ (s t : List UInt8), -255 ≤ firstDifference s t ∧ firstDifference s t ≤ 255
  | [], _ => by simp [firstDifference]
  | _ :: _, [] => by simp [firstDifference]
  | c :: s, d :: t => by
      by_cases h : c = d
      · subst h
        rw [firstDifference_cons_self]
        exact firstDifference_bounds s t
      · have hc := c.toNat_lt
        have hd := d.toNat_lt
        rw [firstDifference_cons_ne h]
        omega

theorem firstDifference_swap :
  ∀ (s t : List UInt8), firstDifference t s = -firstDifference s t
  | [], [] => rfl
  | [], _ :: _ => rfl
  | _ :: _, [] => rfl
  | c :: s, d :: t => by
      by_cases h : c = d
      · subst h
        rw [firstDifference_cons_self, firstDifference_cons_self]
        exact firstDifference_swap s t
      · rw [firstDifference_cons_ne h, firstDifference_cons_ne (Ne.symm h), neg_sub]

/-- The first difference is zero for equal sequences only. -/
theorem firstDifference_eq_zero :
  ∀ {s t : List UInt8}, s.length = t.length → (firstDifference s t = 0 ↔ s = t)
  | [], [], _ => iff_of_true rfl rfl
  | c :: s, d :: t, hlength => by
      by_cases h : c = d
      · subst h
        rw [firstDifference_cons_self, firstDifference_eq_zero (Nat.succ.inj hlength),
          List.cons_inj_right]
      · have hnat : c.toNat ≠ d.toNat := UInt8.toNat_inj.not.mpr h
        rw [firstDifference_cons_ne h]
        apply iff_of_false
        · omega
        · rintro ⟨⟩
          exact h rfl

/-- The first difference is negative when the first sequence is smaller. -/
theorem firstDifference_neg :
  ∀ {s t : List UInt8}, s.length = t.length → (firstDifference s t < 0 ↔ s < t)
  | [], [], _ => iff_of_false (lt_irrefl 0) (List.not_lt_nil [])
  | c :: s, d :: t, hlength => by
      rw [List.cons_lt_cons_iff]
      by_cases h : c = d
      · subst h
        rw [firstDifference_cons_self, firstDifference_neg (Nat.succ.inj hlength)]
        simp
      · rw [firstDifference_cons_ne h, UInt8.lt_iff_toNat_lt]
        simp only [h, false_and, or_false]
        omega

/-- The areas agree up to the first byte, and up to a later one when the first bytes are equal. -/
theorem narrowDifference_succ :
  NarrowDifference b (n + 1) p q
    ↔ (-128 ≤ ((b p).toNat : Int) - (b q).toNat ∧ ((b p).toNat : Int) - (b q).toNat ≤ 127)
      ∧ (b p = b q → NarrowDifference b n (p + 1) (q + 1))
  := by
  constructor
  · intro h
    constructor
    · exact h 0 (Nat.succ_pos n) (fun j hj => absurd hj (Nat.not_lt_zero j))
    · intro hfirst i hi hbefore
      have hp : p + 1 + i = p + (i + 1) := by omega
      have hq : q + 1 + i = q + (i + 1) := by omega
      rw [hp, hq]
      apply h (i + 1) (Nat.succ_lt_succ hi)
      intro j hj
      cases j with
      | zero => exact hfirst
      | succ j =>
          have hnext := hbefore j (Nat.lt_of_succ_lt_succ hj)
          rwa [Nat.add_right_comm p, Nat.add_right_comm q] at hnext
  · intro ⟨hfirst, hrest⟩ i hi hbefore
    cases i with
    | zero => exact hfirst
    | succ i =>
        have hstep := hrest (hbefore 0 (Nat.succ_pos i)) i (Nat.lt_of_succ_lt_succ hi)
        rw [Nat.add_right_comm p, Nat.add_right_comm q] at hstep
        apply hstep
        intro j hj
        have hnext := hbefore (j + 1) (Nat.succ_lt_succ hj)
        rwa [Nat.add_right_comm p, Nat.add_right_comm q]

/-- The condition speaks of the first difference. -/
theorem narrowDifference_iff :
  ∀ {n p q : ℕ}, NarrowDifference b n p q
    ↔ -128 ≤ firstDifference (bytesAt b n p) (bytesAt b n q)
      ∧ firstDifference (bytesAt b n p) (bytesAt b n q) ≤ 127
  | 0, _, _ => by simp [NarrowDifference, bytesAt, firstDifference]
  | n + 1, p, q => by
      rw [bytesAt, bytesAt, narrowDifference_succ, narrowDifference_iff]
      by_cases h : b p = b q
      · rw [h, firstDifference_cons_self, forall_prop_of_true rfl, sub_self]
        exact and_iff_right (by decide)
      · rw [firstDifference_cons_ne h]
        exact and_iff_left (fun heq => absurd heq h)

/-! ### The result in a `signed char` -/

/-- The difference of two bytes is not zero in a `signed char` when the bytes differ. -/
theorem bmod_byte_sub (c d : UInt8) :
  Int.bmod ((c.toNat : Int) - d.toNat) (2 ^ 8) = 0 ↔ c = d
  := by
  rw [← Int.dvd_iff_bmod_eq_zero, ← UInt8.toNat_inj]
  have hc := c.toNat_lt
  have hd := d.toNat_lt
  omega

/-- The result of `memcmp` is the first difference in a `signed char`. -/
theorem memcmp_eq :
  ∀ {n p q : ℕ}, memcmp n b p q
    = Int.bmod (firstDifference (bytesAt b n p) (bytesAt b n q)) (2 ^ 8)
  | 0, _, _ => rfl
  | n + 1, p, q => by
      rw [memcmp, bytesAt, bytesAt]
      by_cases h : b p = b q
      · rw [h, firstDifference_cons_self, sub_self, if_neg (by decide), memcmp_eq]
      · have hres := (bmod_byte_sub (b p) (b q)).not.mpr h
        rw [firstDifference_cons_ne h, if_pos hres]

/-- A difference of bytes that is not a `signed char` changes its sign. -/
theorem bmod_byte_cases {d : Int} (hlo : -255 ≤ d) (hhi : d ≤ 255) :
  (-128 ≤ d ∧ d ≤ 127 ∧ Int.bmod d (2 ^ 8) = d)
    ∨ (d < -128 ∧ 0 < Int.bmod d (2 ^ 8)) ∨ (127 < d ∧ Int.bmod d (2 ^ 8) < 0)
  := by
  rw [Int.bmod_def]
  split <;> omega

/-- The result says how the areas compare exactly when the difference fits. -/
theorem compares_iff :
  Compares (memcmp n b p q) (bytesAt b n p) (bytesAt b n q) ↔ NarrowDifference b n p q
  := by
  have hlength : (bytesAt b n p).length = (bytesAt b n q).length := by
    rw [length_bytesAt, length_bytesAt]
  have hequal := firstDifference_eq_zero hlength
  have hless := firstDifference_neg hlength
  have hgreater := firstDifference_neg hlength.symm
  rw [firstDifference_swap, neg_neg_iff_pos] at hgreater
  obtain ⟨hlo, hhi⟩ := firstDifference_bounds (bytesAt b n p) (bytesAt b n q)
  rw [narrowDifference_iff, memcmp_eq]
  constructor
  · intro ⟨_, h, h'⟩
    rw [← hless] at h
    rw [← hgreater] at h'
    have := bmod_byte_cases hlo hhi
    omega
  · intro ⟨hlow, hhigh⟩
    obtain ⟨_, _, hres⟩ | hover | hover := bmod_byte_cases hlo hhi
    · rw [hres]
      exact ⟨hequal, hless, hgreater⟩
    · omega
    · omega

/-- `memcmp` finds out whether the areas are equal, whatever the bytes are. -/
theorem memcmp_eq_zero_iff :
  memcmp n b p q = 0 ↔ bytesAt b n p = bytesAt b n q
  := by
  have hlength : (bytesAt b n p).length = (bytesAt b n q).length := by
    rw [length_bytesAt, length_bytesAt]
  obtain ⟨hlo, hhi⟩ := firstDifference_bounds (bytesAt b n p) (bytesAt b n q)
  rw [memcmp_eq, ← firstDifference_eq_zero hlength]
  have := bmod_byte_cases hlo hhi
  omega

/-- Results that say how the areas compare order them. -/
theorem OrdersAreas.of_compares {S : Set ℕ}
    (h : ∀ p ∈ S, ∀ q ∈ S, Compares (memcmp n b p q) (bytesAt b n p) (bytesAt b n q)) :
  OrdersAreas b n S
  := by
  constructor
  · exact h
  · intro p hp q hq
    have hpq := h p hp q hq
    have hqp := h q hq p hp
    obtain hlt | heq | hgt := lt_trichotomy (memcmp n b p q) 0
    · have hswap := hqp.greater.mpr (hpq.less.mp hlt)
      rw [Int.sign_eq_one_of_pos hswap, Int.sign_eq_neg_one_of_neg hlt, neg_neg]
    · have hswap := hqp.equal.mpr (hpq.equal.mp heq).symm
      rw [hswap, heq, Int.sign_zero, neg_zero]
    · have hswap := hqp.less.mpr (hpq.greater.mp hgt)
      rw [Int.sign_eq_neg_one_of_neg hswap, Int.sign_eq_one_of_pos hgt]
  · intro p hp q hq r hr hpq hqr
    rw [(h p hp q hq).less] at hpq
    rw [(h q hq r hr).less] at hqr
    rw [(h p hp r hr).less]
    exact List.lt_trans hpq hqr
  · intro p hp q hq r hr hpq hqr
    rw [← not_lt, (h p hp q hq).greater] at hpq
    rw [← not_lt, (h q hq r hr).greater] at hqr
    rw [← not_lt, (h p hp r hr).greater]
    intro hrp
    exact hpq (List.lt_of_le_of_lt (List.not_lt.mp hqr) hrp)

/-- `memcmp` orders two areas exactly when the bytes at the first position where they differ are
less than 128 apart, or the first byte is 128 below the other, and it orders any areas exactly when
that is so for all of them. -/
theorem memcmp_orders_iff (b : Bytes) (n p q : ℕ) (S : Set ℕ) :
  (Compares (memcmp n b p q) (bytesAt b n p) (bytesAt b n q) ↔ NarrowDifference b n p q)
    ∧ (OrdersAreas b n S ↔ ∀ p ∈ S, ∀ q ∈ S, NarrowDifference b n p q)
  := by
  constructor
  · exact compares_iff
  · constructor
    · intro h p hp q hq
      exact compares_iff.mp (h.compares p hp q hq)
    · intro h
      apply OrdersAreas.of_compares
      intro p hp q hq
      exact compares_iff.mpr (h p hp q hq)

/-- Four areas of one byte that `memcmp` does not order. -/
def fourBytes : Bytes := fun a => [0, 100, 200, 128].getD a 0

/-- The byte 0 is smaller than 200 and is reported as greater; 0 and 128 are reported as smaller
than each other; 0 is reported as smaller than 100 and 100 as smaller than 200. -/
theorem not_memcmp_orders :
  ¬ Compares (memcmp 1 fourBytes 0 2) (bytesAt fourBytes 1 0) (bytesAt fourBytes 1 2)
    ∧ memcmp 1 fourBytes 0 3 < 0 ∧ memcmp 1 fourBytes 3 0 < 0
    ∧ memcmp 1 fourBytes 0 1 < 0 ∧ memcmp 1 fourBytes 1 2 < 0 ∧ 0 < memcmp 1 fourBytes 0 2
  := by
  refine ⟨fun h => ?_, by decide, by decide, by decide, by decide, by decide⟩
  exact absurd (h.greater.mp (by decide)) (by decide)

end LarvaOS
