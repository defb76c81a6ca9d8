import Mathlib.Algebra.Group.Fin.Basic
import Mathlib.Algebra.GroupWithZero.Nat
import Mathlib.Data.List.Basic

/-!
# Ring buffers

A ring buffer of `n` slots holds a sequence of at most `n - 1` elements, from the slot `front` up to
the slot `back`, in cyclic order.  A push appends an element to this sequence, and is ignored when
the buffer is full; `pop` takes the first element away.
-/

universe u

/-- A ring buffer of `n` slots. -/
structure RingBuffer (α : Type u) (n : ℕ) where
  slots : Fin n → α
  front : Fin n
  back : Fin n

namespace RingBuffer

variable {α : Type u} {n : ℕ} [NeZero n]

/-- The next push finds no room. -/
def Full (r : RingBuffer α n) : Prop := r.back + 1 = r.front

instance (r : RingBuffer α n) : Decidable r.Full := inferInstanceAs (Decidable (_ = _))

/-- The elements in `k` slots from the slot `i` on. -/
def segment (slots : Fin n → α) : ℕ → Fin n → List α
  | 0, _ => []
  | k + 1, i => slots i :: segment slots k (i + 1)

/-- The sequence that the buffer holds. -/
def contents (r : RingBuffer α n) : List α := segment r.slots (r.back - r.front).val r.front

/-- Append an element, unless the buffer is full. -/
def push (r : RingBuffer α n) (a : α) : RingBuffer α n :=
  if r.Full then r else { r with slots := Function.update r.slots r.back a, back := r.back + 1 }

/-- Take the first element away. -/
def pop (r : RingBuffer α n) : RingBuffer α n := { r with front := r.front + 1 }

variable {r : RingBuffer α n}

theorem val_sub_add_one {i j : Fin n} {k : ℕ} (h : (j - i).val = k + 1) :
  (j - (i + 1)).val = k
  := by
  have hne : j - i ≠ 0 := by
    intro e
    rw [e, Fin.val_zero] at h
    cases h
  rw [← sub_sub, Fin.val_sub_one_of_ne_zero hne, h]
  rfl

theorem val_add_one {i : Fin n} (h : i + 1 ≠ 0) :
  (i + 1).val = i.val + 1
  := by
  have hval := Fin.val_sub_one_of_ne_zero h
  rw [add_sub_cancel_right] at hval
  have hpos : (i + 1).val ≠ 0 := fun e => h (Fin.val_eq_zero_iff.mp e)
  rw [hval]
  exact (Nat.sub_one_add_one hpos).symm

/-- One more element after a segment. -/
theorem segment_update (slots : Fin n → α) (j : Fin n) (a : α) :
  ∀ (k : ℕ) (i : Fin n), (j - i).val = k →
    segment (Function.update slots j a) (k + 1) i = segment slots k i ++ [a]
  | 0, i, h => by
      have hij : j = i := sub_eq_zero.mp (Fin.val_eq_zero_iff.mp h)
      rw [segment, segment, hij, Function.update_self]
      rfl
  | k + 1, i, h => by
      have hne : i ≠ j := by
        rintro rfl
        rw [sub_self, Fin.val_zero] at h
        cases h
      rw [segment, segment_update slots j a k (i + 1) (val_sub_add_one h),
        Function.update_of_ne hne, segment]
      rfl

/-- A push appends the element. -/
theorem contents_push (h : ¬ r.Full) (a : α) :
  (r.push a).contents = r.contents ++ [a]
  := by
  have hne : r.back - r.front + 1 ≠ 0 := by
    intro e
    apply h
    rw [sub_add_eq_add_sub] at e
    exact sub_eq_zero.mp e
  rw [push, if_neg h, contents, contents, add_sub_right_comm, val_add_one hne]
  exact segment_update r.slots r.back a _ r.front rfl

/-- A push to a full buffer is ignored. -/
theorem push_full (h : r.Full) (a : α) :
  r.push a = r
  := if_pos h

/-- The first element is in the slot `front`, and `pop` takes it away. -/
theorem contents_cons (h : r.front ≠ r.back) :
  r.contents = r.slots r.front :: r.pop.contents
  := by
  have hne : (r.back - r.front).val ≠ 0 := by
    intro e
    apply h
    exact (sub_eq_zero.mp (Fin.val_eq_zero_iff.mp e)).symm
  obtain ⟨k, hk⟩ := Nat.exists_eq_succ_of_ne_zero hne
  have hpop : (r.back - (r.front + 1)).val = k := val_sub_add_one hk
  rw [contents, hk, contents, pop, hpop]
  rfl

end RingBuffer
