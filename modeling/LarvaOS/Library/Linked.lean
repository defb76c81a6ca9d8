import Mathlib.Data.List.Nodup
import Mathlib.Logic.Function.Basic

/-!
# Linked sequences in a memory of links

`Links α` is a memory of links: every address of `α` holds a `next` pointer, and a
list head holds a `tail` pointer besides.  `Linked next a xs` says that the pointers
`next` lead from the address `a` through the addresses `xs`, in this order, to the
null pointer.  `Represents l h xs` says that the list with head `h` holds the
sequence `xs`: the head is linked to `xs`, its tail pointer points to the last
address of `xs`, and no address occurs twice.  Two updates of the links act on
represented sequences: a push appends an address, and an unlinking removes one.
-/

namespace Linked

variable {α : Type*}

/-- A memory of links. -/
structure Links (α : Type*) where
  next : α → Option α
  tail : α → Option α

namespace Links

variable [DecidableEq α]

/-- Store `v` in the `next` field of `a`. -/
def setNext (l : Links α) (a : α) (v : Option α) : Links α :=
  { l with next := Function.update l.next a v }

/-- Store `v` in the `tail` field of `a`. -/
def setTail (l : Links α) (a : α) (v : Option α) : Links α :=
  { l with tail := Function.update l.tail a v }

@[simp]
theorem setNext_next (l : Links α) (a : α) (v : Option α) :
  (l.setNext a v).next = Function.update l.next a v
  := rfl

@[simp]
theorem setNext_tail (l : Links α) (a : α) (v : Option α) :
  (l.setNext a v).tail = l.tail
  := rfl

@[simp]
theorem setTail_next (l : Links α) (a : α) (v : Option α) :
  (l.setTail a v).next = l.next
  := rfl

@[simp]
theorem setTail_tail (l : Links α) (a : α) (v : Option α) :
  (l.setTail a v).tail = Function.update l.tail a v
  := rfl

end Links

/-! ### Paths -/

/-- The pointers `next` lead from `a` through `xs` to the null pointer. -/
def Path (next : α → Option α) : α → List α → Prop
  | a, [] => next a = none
  | a, x :: xs => next a = some x ∧ Path next x xs

/-- The last address of the path from `a` through `xs`. -/
def endpoint : α → List α → α
  | a, [] => a
  | _, x :: xs => endpoint x xs

@[simp]
theorem endpoint_nil (a : α) :
  endpoint a [] = a
  := rfl

@[simp]
theorem endpoint_cons (a x : α) (xs : List α) :
  endpoint a (x :: xs) = endpoint x xs
  := rfl

theorem endpoint_mem :
  ∀ (a : α) (xs : List α), endpoint a xs ∈ a :: xs
  | _, [] => List.mem_singleton_self _
  | _, x :: xs => List.mem_cons_of_mem _ (endpoint_mem x xs)

theorem endpoint_append :
  ∀ (a : α) (xs ys : List α), endpoint a (xs ++ ys) = endpoint (endpoint a xs) ys
  | _, [], _ => rfl
  | _, x :: xs, ys => endpoint_append x xs ys

/-- The last address of a nonempty sequence is the endpoint of the path through it. -/
theorem getLast?_eq_endpoint :
  ∀ (a x : α) (xs : List α), (x :: xs).getLast? = some (endpoint a (x :: xs))
  | _, _, [] => rfl
  | _, x, y :: ys => by
      rw [List.getLast?_cons_cons, getLast?_eq_endpoint x y ys]
      rfl

/-- A path depends only on the pointers of its addresses. -/
theorem Path.congr {next next' : α → Option α} :
  ∀ {a : α} {xs : List α}, Path next a xs → (∀ y ∈ a :: xs, next' y = next y) →
    Path next' a xs
  | a, [], h, heq => (heq a List.mem_cons_self).trans h
  | a, _ :: _, h, heq =>
      ⟨(heq a List.mem_cons_self).trans h.1,
        Path.congr h.2 (fun y hy => heq y (List.mem_cons_of_mem a hy))⟩

/-- The last address of a path points to null. -/
theorem Path.next_endpoint {next : α → Option α} :
  ∀ {a : α} {xs : List α}, Path next a xs → next (endpoint a xs) = none
  | _, [], h => h
  | _, x :: xs, h => by
      apply @Path.next_endpoint _ x xs h.2

/-- The part of a path after the addresses `ys` is a path from their last address. -/
theorem Path.drop {next : α → Option α} :
  ∀ {a : α} {ys zs : List α}, Path next a (ys ++ zs) → Path next (endpoint a ys) zs
  | _, [], _, h => h
  | _, y :: ys, zs, h => by
      apply @Path.drop _ y ys zs h.2

/-- The pointers determine the path from an address. -/
theorem Path.unique {next : α → Option α} :
  ∀ {a : α} {xs ys : List α}, Path next a xs → Path next a ys → xs = ys
  | _, [], [], _, _ => rfl
  | _, [], _ :: _, h, h' => by
      rw [Path, h'.1] at h
      cases h
  | _, _ :: _, [], h, h' => by
      rw [Path, h.1] at h'
      cases h'
  | _, x :: xs, y :: ys, h, h' => by
      obtain rfl : x = y := Option.some.inj (h.1.symm.trans h'.1)
      rw [Path.unique h.2 h'.2]

section Update

variable [DecidableEq α]

/-- Linking the last address of a path to an address outside it, which points to
null, appends that address. -/
theorem Path.push {next : α → Option α} {b : α} :
  ∀ {a : α} {xs : List α}, Path next a xs → (a :: xs).Nodup → b ∉ a :: xs →
    Path (Function.update (Function.update next b none) (endpoint a xs) (some b)) a
      (xs ++ [b])
  | a, [], _, _, hb => by
      have hba : b ≠ a := fun h => hb (h ▸ List.mem_cons_self)
      constructor
      · simp
      · simp [Path, hba]
  | a, x :: xs, h, hnodup, hb => by
      obtain ⟨ha, hrest⟩ := List.nodup_cons.mp hnodup
      have hend : endpoint x xs ∈ x :: xs := endpoint_mem x xs
      have hne : a ≠ endpoint x xs := fun e => ha (e ▸ hend)
      have hab : a ≠ b := fun e => hb (e ▸ List.mem_cons_self)
      constructor
      · simp [hne, hab, h.1]
      · apply Path.push h.2 hrest
        exact fun hmem => hb (List.mem_cons_of_mem a hmem)

/-- Linking the predecessor of an address of a path to its successor removes the
address. -/
theorem Path.unlink {next : α → Option α} {c : α} {zs : List α} :
  ∀ {a : α} {ys : List α}, Path next a (ys ++ c :: zs) → (a :: (ys ++ c :: zs)).Nodup →
    Path (Function.update next (endpoint a ys) (next c)) a (ys ++ zs)
  | a, [], h, hnodup => by
      have ha : a ∉ c :: zs := (List.nodup_cons.mp hnodup).1
      have htail : Path next c zs := h.2
      cases zs with
      | nil => simpa [Path] using htail
      | cons z zs =>
          constructor
          · simpa using htail.1
          · apply htail.2.congr
            intro y hy
            apply Function.update_of_ne
            rintro rfl
            exact ha (List.mem_cons_of_mem c hy)
  | a, y :: ys, h, hnodup => by
      obtain ⟨ha, hrest⟩ := List.nodup_cons.mp hnodup
      have hend : endpoint y ys ∈ y :: (ys ++ c :: zs) := by
        rw [← List.cons_append]
        apply List.mem_append_left _ (endpoint_mem y ys)
      have hne : a ≠ endpoint y ys := fun e => ha (e ▸ hend)
      constructor
      · simp [hne, h.1]
      · exact Path.unlink h.2 hrest

end Update

/-! ### Represented sequences -/

/-- The list with head `h` holds the sequence `xs`. -/
structure Represents (l : Links α) (h : α) (xs : List α) : Prop where
  path : Path l.next h xs
  tail : l.tail h = xs.getLast?
  nodup : (h :: xs).Nodup

namespace Represents

variable {l : Links α} {h : α} {xs : List α}

/-- A represented sequence depends only on the pointers of its addresses and on the
tail pointer of its head. -/
theorem congr {l' : Links α} (hl : Represents l h xs)
    (hnext : ∀ y ∈ h :: xs, l'.next y = l.next y) (htail : l'.tail h = l.tail h) :
  Represents l' h xs
  where
  path := hl.path.congr hnext
  tail := htail.trans hl.tail
  nodup := hl.nodup

/-- A head represents one sequence only. -/
theorem unique {ys : List α} (hx : Represents l h xs) (hy : Represents l h ys) :
  xs = ys
  := Path.unique hx.path hy.path

/-- The head of a list points to null exactly when the sequence is empty. -/
theorem next_eq_none_iff (hl : Represents l h xs) :
  l.next h = none ↔ xs = []
  := by
  cases xs with
  | nil => exact ⟨fun _ => rfl, fun _ => hl.path⟩
  | cons x xs => simp [hl.path.1]

theorem next_cons {x : α} (hl : Represents l h (x :: xs)) :
  l.next h = some x
  := hl.path.1

theorem tail_cons {x : α} (hl : Represents l h (x :: xs)) :
  l.tail h = some (endpoint h (x :: xs))
  := by
  rw [hl.tail, getLast?_eq_endpoint h]

/-- The last address of the list, `h` itself when it is empty, points to null. -/
theorem next_endpoint (hl : Represents l h xs) :
  l.next (endpoint h xs) = none
  := hl.path.next_endpoint

variable [DecidableEq α]

/-- Linking the last address to a new address that points to null, and pointing the
tail to it, appends the address. -/
theorem push {b : α} (hl : Represents l h xs) (hb : b ∉ h :: xs) :
  Represents (((l.setNext b none).setNext (endpoint h xs) (some b)).setTail h (some b)) h
    (xs ++ [b])
  where
  path := hl.path.push hl.nodup hb
  tail := by simp
  nodup := by
    rw [← List.cons_append, List.nodup_append]
    use hl.nodup, List.nodup_singleton b
    rintro y hy z hz rfl
    rw [List.mem_singleton] at hz
    exact hb (hz ▸ hy)

/-- Linking the predecessor of an address to its successor removes the address; the
tail then points to the predecessor when the address was the last one, to null when
it was the only one, and stays otherwise. -/
theorem unlink {c : α} {ys zs : List α} (hl : Represents l h (ys ++ c :: zs))
    {t : Option α} (ht : t = (ys ++ zs).getLast?) :
  Represents ((l.setNext (endpoint h ys) (l.next c)).setTail h t) h (ys ++ zs)
  where
  path := hl.path.unlink hl.nodup
  tail := by simp [ht]
  nodup := by
    refine List.Nodup.sublist ?_ hl.nodup
    apply List.Sublist.cons_cons
    apply List.Sublist.append_left
    apply List.sublist_cons_self

end Represents

end Linked
