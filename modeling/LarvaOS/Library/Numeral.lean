import Mathlib.Data.Nat.Digits.Lemmas
import Mathlib.Tactic.Ring

/-!
# Numerals

`numeral b n` is the list of the digits of `n` in base `b`, from the highest one on, and that of
zero is the digit zero; `lowDigits b n` is the same list from the lowest digit on.  `value b ds`
is the number that the digits `ds` denote.  A list of digits is canonical when it is not empty and
does not begin with zero, unless it is the digit zero alone.
-/

namespace Numeral

/-- The number that the digits `ds` denote. -/
def value (b : ℕ) (ds : List ℕ) : ℕ := ds.foldl (fun v d => v * b + d) 0

/-- The digits of `n` from the lowest one on. -/
def lowDigits (b n : ℕ) : List ℕ := if n = 0 then [0] else Nat.digits b n

/-- The digits of `n` from the highest one on. -/
def numeral (b n : ℕ) : List ℕ := (lowDigits b n).reverse

/-- The digits are a numeral in base `b`, without leading zeros. -/
structure Canonical (b : ℕ) (ds : List ℕ) : Prop where
  nonempty : ds ≠ []
  digit : ∀ d ∈ ds, d < b
  leading : ds.head? = some 0 → ds = [0]

variable {b n : ℕ}

/-- The lowest digit, and the digits of the quotient when it is not zero. -/
theorem lowDigits_eq (hb : 1 < b) (n : ℕ) :
  lowDigits b n = n % b :: if n / b ≠ 0 then lowDigits b (n / b) else []
  := by
  unfold lowDigits
  by_cases hn : n = 0
  · rw [if_pos hn, hn, Nat.zero_div, if_neg (not_not.mpr rfl), Nat.zero_mod]
  · rw [if_neg hn, Nat.digits_def' hb (Nat.pos_of_ne_zero hn)]
    by_cases hdiv : n / b = 0
    · rw [if_neg (not_not.mpr hdiv), hdiv, Nat.digits_zero]
    · rw [if_pos hdiv, if_neg hdiv]

theorem lowDigits_lt (hb : 1 < b) {d : ℕ} (hd : d ∈ lowDigits b n) :
  d < b
  := by
  unfold lowDigits at hd
  split at hd
  · rw [List.mem_singleton.mp hd]
    exact Nat.zero_lt_of_lt hb
  · exact Nat.digits_lt_base hb hd

/-- The numeral denotes the number. -/
theorem value_numeral (b n : ℕ) :
  value b (numeral b n) = n
  := by
  have hfold : ∀ ds : List ℕ, value b ds.reverse = Nat.ofDigits b ds := by
    intro ds
    rw [value, List.foldl_reverse, Nat.ofDigits_eq_foldr]
    congr
    funext d v
    rw [Nat.cast_id]
    ring
  rw [numeral, hfold, lowDigits]
  split
  · rename_i hn
    rw [hn, Nat.ofDigits_singleton]
  · exact Nat.ofDigits_digits b n

theorem canonical_numeral (hb : 1 < b) (n : ℕ) :
  Canonical b (numeral b n)
  := by
  constructor
  · rw [numeral, Ne, List.reverse_eq_nil_iff, lowDigits_eq hb]
    exact List.cons_ne_nil _ _
  · intro d hd
    exact lowDigits_lt hb (List.mem_reverse.mp hd)
  · intro hhead
    rw [numeral, List.head?_reverse] at hhead
    by_cases hn : n = 0
    · rw [numeral, lowDigits, if_pos hn]
      rfl
    · rw [lowDigits, if_neg hn,
        List.getLast?_eq_getLast_of_ne_nil (Nat.digits_ne_nil_iff_ne_zero.mpr hn)] at hhead
      exact absurd (Option.some.inj hhead) (Nat.getLast_digit_ne_zero b hn)

theorem length_numeral (hb : 1 < b) (n : ℕ) :
  (numeral b n).length = Nat.log b n + 1
  := by
  rw [numeral, List.length_reverse, lowDigits]
  split
  · rename_i hn
    rw [hn, Nat.log_zero_right]
    rfl
  · rename_i hn
    exact Nat.length_digits b n hb hn

theorem length_numeral_le (hb : 1 < b) {k : ℕ} (hk : 0 < k) (h : n < b ^ k) :
  (numeral b n).length ≤ k
  := by
  rw [length_numeral hb]
  exact Nat.log_lt_of_lt_pow' hk.ne' h

end Numeral
