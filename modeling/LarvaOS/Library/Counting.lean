import Mathlib.Algebra.BigOperators.Group.Finset.Basic
import Mathlib.Data.List.Count
import Mathlib.Data.List.Nodup
import Mathlib.Data.List.Perm.Basic
import Mathlib.Data.List.Perm.Subperm

/-!
# Sequences without repetition, by counting

A sequence in which every element occurs at most as often as in a sequence without
repetition has no repetition itself.  Occurrences in concatenations are sums, so the
inequalities are linear arithmetic.
-/

namespace List

variable {α : Type*} [DecidableEq α]

/-- A sequence without repetition, compared by counting. -/
theorem Nodup.of_count_le {xs : List α} (h : xs.Nodup) (ys : List α)
    (hle : ∀ a, ys.count a ≤ xs.count a) :
  ys.Nodup
  := by
  rw [nodup_iff_count_le_one] at h ⊢
  intro a
  exact Nat.le_trans (hle a) (h a)

/-- An element of one part of a sequence without repetition is not in another part. -/
theorem Nodup.not_mem_of_count_add_le {xs : List α} (h : xs.Nodup) (ys zs : List α)
    (hle : ∀ a, ys.count a + zs.count a ≤ xs.count a) {a : α} (ha : a ∈ ys) :
  a ∉ zs
  := by
  intro ha'
  have hone := nodup_iff_count_le_one.mp h a
  have hys := count_pos_iff.mpr ha
  have hzs := count_pos_iff.mpr ha'
  have := hle a
  omega

/-- Occurrences in a concatenation over indices, when one index contributes something
else. -/
theorem count_flatMap_update {ι : Type*} [DecidableEq ι] {f g : ι → List α} {i : ι} (a : α) :
  ∀ {is : List ι}, is.Nodup → i ∈ is → (∀ j, j ≠ i → g j = f j) →
    (is.flatMap g).count a + (f i).count a = (is.flatMap f).count a + (g i).count a
  | j :: is, hnodup, hmem, hf => by
      obtain ⟨hj, hnodup⟩ := nodup_cons.mp hnodup
      rw [flatMap_cons, flatMap_cons, count_append, count_append]
      by_cases hji : j = i
      · subst hji
        have hrest : is.flatMap g = is.flatMap f := by
          apply flatMap_congr
          intro k hk
          apply hf
          rintro rfl
          exact hj hk
        rw [hrest]
        omega
      · have hmem' : i ∈ is := (mem_cons.mp hmem).resolve_left (Ne.symm hji)
        have hrest := count_flatMap_update a hnodup hmem' hf
        rw [hf j hji]
        omega

/-- A partial map that changes in one point: the occurrences change by those of the old
and of the new value. -/
theorem count_filterMap_update {ι : Type*} [DecidableEq ι] (f : ι → Option α) {i : ι} (v : Option α)
    (a : α) {is : List ι} (hnodup : is.Nodup) (hi : i ∈ is) :
  (is.filterMap (Function.update f i v)).count a + (f i).toList.count a
    = (is.filterMap f).count a + v.toList.count a
  := by
  have hcount := count_flatMap_update (f := fun j => (f j).toList)
    (g := fun j => (Function.update f i v j).toList) (i := i) a hnodup hi (by
      intro j hj
      rw [Function.update_of_ne hj])
  rw [Function.update_self] at hcount
  rw [filterMap_eq_flatMap_toList, filterMap_eq_flatMap_toList]
  exact hcount

/-- The occurrences of the elements that satisfy a predicate, added up. -/
theorem sum_count_filter (l : List α) (s : Finset α) (p : α → Bool) (hl : ∀ a ∈ l, a ∈ s) :
  ∑ a ∈ s.filter (fun a => p a), l.count a = l.countP p
  := by
  have hsum := Multiset.sum_count_eq_card (s := s.filter (fun a => p a)) (m := ↑(l.filter p)) (by
    intro a ha
    obtain ⟨hmem, hp⟩ := mem_filter.mp (Multiset.mem_coe.mp ha)
    exact Finset.mem_filter.mpr ⟨hl a hmem, hp⟩)
  rw [Multiset.coe_card, ← countP_eq_length_filter] at hsum
  rw [← hsum]
  apply Finset.sum_congr rfl
  intro a ha
  rw [Multiset.coe_count, count_filter (Finset.mem_filter.mp ha).2]

end List
