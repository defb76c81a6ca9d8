import LarvaOS.Libc.String

/-!
# Copies between areas that overlap

`AreaCopied b b' dest src n` says that `b'` is the memory `b` with the `n` bytes from `src` on copied to
`dest`: they are the bytes that `b` had there, and all other bytes are unchanged.  The loop of
`memcpy` goes up and has overwritten the addresses from `dest` on, so it keeps the part of the
source that it still has to read when `dest` is not above `src`.  The second loop of `memmove` goes
down and keeps it when `dest` is not below `src`.
-/

namespace LarvaOS

/-- The `n` bytes at `dest` are those that were at `src`, and nothing else changed. -/
structure AreaCopied (b b' : Bytes) (dest src n : ℕ) : Prop where
  inside : ∀ i, i < n → b' (dest + i) = b (src + i)
  outside : ∀ x, x < dest ∨ dest + n ≤ x → b' x = b x

variable {b : Bytes} {dest src n : ℕ}

/-- A copy to lower addresses carries the bytes of the source over, also when the ranges overlap. -/
theorem memcpy_forward :
  ∀ {n : ℕ} {b : Bytes} {dest src i : ℕ}, dest ≤ src → i < n →
    memcpy n b dest src (dest + i) = b (src + i)
  | n + 1, b, dest, src, 0, _, _ => by
      rw [memcpy, memcpy_of_outside (by omega), Nat.add_zero, Nat.add_zero, Function.update_self]
  | n + 1, b, dest, src, i + 1, h, hi => by
      have hdest : dest + (i + 1) = dest + 1 + i := by omega
      have hsrc : src + 1 + i ≠ dest := by omega
      have hsrc' : src + 1 + i = src + (i + 1) := by omega
      rw [memcpy, hdest, memcpy_forward (by omega) (by omega), Function.update_of_ne hsrc, hsrc']

/-- The loop that goes up copies when the areas are disjoint or `dest` is not above `src`. -/
theorem memcpy_copied (h : (dest + n ≤ src ∨ src + n ≤ dest) ∨ dest ≤ src) :
  AreaCopied b (memcpy n b dest src) dest src n
  := by
  constructor
  · intro i hi
    rcases h with hdisjoint | hbelow
    · exact memcpy_of_inside hdisjoint hi
    · exact memcpy_forward hbelow hi
  · intro x hx
    exact memcpy_of_outside hx

/-- The loop that goes down stores inside of the area that ends at `dest`. -/
theorem memmoveDown_of_outside {x : ℕ} (hx : x < dest ∨ dest + n ≤ x) :
  memmoveDown n b (dest + n) (src + n) x = b x
  := by
  induction n generalizing b with
  | zero => rfl
  | succ n ih =>
      have hne : x ≠ dest + n := by omega
      rw [memmoveDown, Nat.add_succ_sub_one, Nat.add_succ_sub_one, ih (by omega),
        Function.update_of_ne hne]

/-- The last byte is copied first, and its place is above all bytes that are read after it. -/
theorem memmoveDown_of_inside (h : src ≤ dest) {i : ℕ} (hi : i < n) :
  memmoveDown n b (dest + n) (src + n) (dest + i) = b (src + i)
  := by
  induction n generalizing b with
  | zero => exact absurd hi (Nat.not_lt_zero i)
  | succ n ih =>
      rw [memmoveDown, Nat.add_succ_sub_one, Nat.add_succ_sub_one]
      rcases Nat.lt_succ_iff_lt_or_eq.mp hi with hlt | rfl
      · have hne : src + i ≠ dest + n := by omega
        rw [ih hlt, Function.update_of_ne hne]
      · rw [memmoveDown_of_outside (Or.inr (le_refl _)), Function.update_self]

/-- `memmove` chooses the loop that keeps the source. -/
theorem memmove_copied (b : Bytes) (dest src n : ℕ) :
  AreaCopied b (memmove n b dest src) dest src n
  := by
  unfold memmove
  split
  · rename_i hlt
    exact memcpy_copied (Or.inr (Nat.le_of_lt hlt))
  · rename_i hle
    constructor
    · intro i hi
      exact memmoveDown_of_inside (Nat.not_lt.mp hle) hi
    · intro x hx
      exact memmoveDown_of_outside hx

end LarvaOS
