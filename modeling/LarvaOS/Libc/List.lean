import LarvaOS.Library.Linked
import LarvaOS.Common

/-!
# Intrusive lists

The functions of `libc/list.c`, and the removal loop that `WaitListRemoveReadyProcess`
and `RemoveProcessWithPID` of `kernel/process.c` share.  A list is a head whose
`next` and `tail` fields point into a chain of nodes; a head may stand in the place of
a node because `next` is the first field of both, so both are addresses of one memory
of links.  On a represented sequence a push appends, a pop takes the first address,
and a removal takes the first address that matches.
-/

namespace LarvaOS

open Linked

variable {α : Type}

/-- `ListIsEmpty`. -/
def listIsEmpty (l : Links α) (list : α) : Prop := l.next list = none

instance (l : Links α) (list : α) : Decidable (listIsEmpty l list) :=
  decidable_of_iff (l.next list).isNone Option.isNone_iff_eq_none

section Operations

variable [DecidableEq α]

/-- `ListPushBack`. A nonempty list without a tail is a null dereference. -/
def listPushBack (l : Links α) (list item : α) : Option (Links α) :=
  let l := l.setNext item none
  if listIsEmpty l list then
    some ((l.setNext list (some item)).setTail list (some item))
  else
    match l.tail list with
    | none => none
    | some t => some ((l.setNext t (some item)).setTail list (some item))

/-- `ListPopFront`: the first item, or null when the list is empty. -/
def listPopFront (l : Links α) (list : α) : Option α × Links α :=
  match l.next list with
  | none => (none, l)
  | some item =>
      let l := l.setNext list (l.next item)
      (some item, if l.next list = none then l.setTail list none else l)

/-- The loop that searches a list for the first item satisfying `p` and unlinks it,
with `prev` the node before `current`. The recursion is on the number of items the
loop may visit; the outcome is `none` when there are more. -/
def removeLoop (p : α → Bool) (list : α) :
    ℕ → α → Option α → Links α → Option (Option α × Links α)
  | 0, _, _, _ => none
  | _ + 1, _, none, l => some (none, l)
  | n + 1, prev, some current, l =>
      if p current then
        let l := l.setNext prev (l.next current)
        if l.next list = none then
          some (some current, l.setTail list none)
        else if l.next current = none then
          some (some current, l.setTail list (some prev))
        else
          some (some current, l)
      else
        removeLoop p list n current (l.next current) l

/-- Search `list` for the first item satisfying `p` and unlink it. -/
def removeFirst (p : α → Bool) (bound : ℕ) (l : Links α) (list : α) :
    Option (Option α × Links α) :=
  removeLoop p list bound list (l.next list) l

end Operations

/-! ### The operations on represented sequences -/

/-- The links of all addresses outside the list with head `h` and items `xs` are
unchanged. -/
structure SameOutside (h : α) (xs : List α) (l l' : Links α) : Prop where
  next : ∀ y, y ∉ h :: xs → l'.next y = l.next y
  tail : ∀ y, y ≠ h → l'.tail y = l.tail y

theorem SameOutside.refl (h : α) (xs : List α) (l : Links α) :
  SameOutside h xs l l
  where
  next _ _ := rfl
  tail _ _ := rfl

/-- A list over addresses outside the changed list is unaffected. -/
theorem SameOutside.represents {h h' : α} {xs ys : List α} {l l' : Links α}
    (hs : SameOutside h xs l l') (hdisj : ∀ y ∈ h' :: ys, y ∉ h :: xs)
    (hr : Represents l h' ys) :
  Represents l' h' ys
  := by
  apply hr.congr
  · intro y hy
    apply hs.next y (hdisj y hy)
  · apply hs.tail
    rintro rfl
    apply hdisj _ List.mem_cons_self List.mem_cons_self

variable {l : Links α} {h : α} {xs : List α}

theorem listIsEmpty_iff (hl : Represents l h xs) :
  listIsEmpty l h ↔ xs = []
  := hl.next_eq_none_iff

variable [DecidableEq α]

/-- `ListPushBack` appends a new item. -/
theorem listPushBack_spec {item : α} (hl : Represents l h xs) (hitem : item ∉ h :: xs) :
  ∃ l', listPushBack l h item = some l' ∧ Represents l' h (xs ++ [item])
    ∧ SameOutside h (item :: xs) l l'
  := by
  have hne : h ≠ item := fun e => hitem (e ▸ List.mem_cons_self)
  have hnext : (l.setNext item none).next h = l.next h := by simp [hne]
  use ((l.setNext item none).setNext (endpoint h xs) (some item)).setTail h (some item)
  refine ⟨?_, hl.push hitem, ?_⟩
  · cases xs with
    | nil =>
        have hempty : listIsEmpty (l.setNext item none) h := hnext.trans hl.path
        rw [listPushBack, if_pos hempty]
        rfl
    | cons x xs =>
        have hfull : ¬ listIsEmpty (l.setNext item none) h := by
          rw [listIsEmpty, hnext, hl.next_cons]
          simp
        rw [listPushBack, if_neg hfull]
        simp [hl.tail_cons]
  · constructor
    · intro y hy
      have hy' : y ≠ item ∧ y ≠ endpoint h xs := by
        constructor
        · rintro rfl
          simp at hy
        · rintro rfl
          have hend := endpoint_mem h xs
          simp only [List.mem_cons, not_or] at hy hend
          tauto
      simp [hy'.1, hy'.2]
    · intro y hy
      simp [hy]

/-- `ListPopFront` of an empty list gives null and changes nothing. -/
theorem listPopFront_nil (hl : Represents l h []) :
  listPopFront l h = (none, l)
  := by
  have hnext : l.next h = none := hl.path
  rw [listPopFront, hnext]

/-- `ListPopFront` takes the first item. -/
theorem listPopFront_cons {x : α} (hl : Represents l h (x :: xs)) :
  ∃ l', listPopFront l h = (some x, l') ∧ Represents l' h xs ∧ SameOutside h (x :: xs) l l'
  := by
  have hsplit : Represents l h ([] ++ x :: xs) := hl
  have hrep := hsplit.unlink rfl
  simp only [endpoint_nil, List.nil_append] at hrep
  have hpop : listPopFront l h = (some x,
      if (l.setNext h (l.next x)).next h = none then
        (l.setNext h (l.next x)).setTail h none
      else l.setNext h (l.next x)) := by
    rw [listPopFront, hl.next_cons]
  rw [hpop]
  refine ⟨_, rfl, ?_, ?_⟩
  · cases xs with
    | nil =>
        have hx : l.next x = none := hl.path.2
        rw [if_pos (by simp [hx])]
        exact hrep
    | cons y ys =>
        have hx : l.next x = some y := hl.path.2.1
        rw [if_neg (by simp [hx])]
        apply hrep.congr
        · intro z _
          rfl
        · simp only [Links.setNext_tail, Links.setTail_tail, Function.update_self]
          rw [hl.tail, List.getLast?_cons_cons]
  · split <;> constructor <;> intro y hy <;> simp_all

/-- The removal loop, started at the item after the items `ys`, none of which
satisfies `p`, takes the first item of `zs` that satisfies `p`. -/
theorem removeLoop_spec {p : α → Bool} :
  ∀ (zs ys : List α) (n : ℕ), Represents l h (ys ++ zs) → zs.length < n →
    ∃ l', removeLoop p h n (endpoint h ys) (l.next (endpoint h ys)) l = some (zs.find? p, l')
      ∧ Represents l' h (ys ++ zs.eraseP p) ∧ SameOutside h (ys ++ zs) l l'
  | [], ys, n + 1, hl, _ => by
      have hend : l.next (endpoint h ys) = none := hl.path.drop
      use l
      rw [hend]
      exact ⟨rfl, hl, SameOutside.refl _ _ _⟩
  | c :: zs, ys, n + 1, hl, hn => by
      have hend : l.next (endpoint h ys) = some c := hl.path.drop.1
      rw [hend, removeLoop]
      by_cases hp : p c
      · rw [if_pos hp, List.find?_cons_of_pos hp, List.eraseP_cons_of_pos hp]
        have hrep := hl.unlink rfl
        have hnone : (l.setNext (endpoint h ys) (l.next c)).next h = none
            ↔ ys ++ zs = [] := hrep.next_eq_none_iff
        have hc : c ∉ h :: ys := by
          have := hl.nodup
          simp only [← List.cons_append, List.nodup_append] at this
          intro hmem
          exact this.2.2 c hmem c List.mem_cons_self rfl
        have hcne : c ≠ endpoint h ys := fun e => hc (e ▸ endpoint_mem h ys)
        have hcnext : (l.setNext (endpoint h ys) (l.next c)).next c = l.next c := by
          simp [hcne]
        have hsame : ∀ t, SameOutside h (ys ++ c :: zs) l
            ((l.setNext (endpoint h ys) (l.next c)).setTail h t) := by
          intro t
          constructor
          · intro y hy
            have hne : y ≠ endpoint h ys := by
              rintro rfl
              apply hy
              rw [← List.cons_append]
              apply List.mem_append_left _ (endpoint_mem h ys)
            simp [hne]
          · intro y hy
            simp [hy]
        simp only [hnone, hcnext]
        split_ifs with hempty hlast
        · rw [hempty, List.getLast?_nil] at hrep
          rw [hempty]
          exact ⟨_, rfl, hrep, hsame none⟩
        · have hzs : zs = [] := by
            cases zs with
            | nil => rfl
            | cons z zs => 
                have hnext : l.next c = some z := hl.path.drop.2.1
                rw [hnext] at hlast
                cases hlast
          subst hzs
          rw [List.append_nil] at hrep hempty ⊢
          refine ⟨_, rfl, ?_, hsame _⟩
          cases ys with
          | nil => exact absurd rfl hempty
          | cons y ys =>
              rw [getLast?_eq_endpoint h] at hrep
              exact hrep
        · have htail : (ys ++ zs).getLast? = l.tail h := by
            cases zs with
            | nil => exact absurd hl.path.drop.2 hlast
            | cons z zs =>
                rw [hl.tail]
                simp [List.getLast?_append]
          refine ⟨_, rfl, ?_, ?_⟩
          · apply hrep.congr
            · intro y _
              rfl
            · simp [htail]
          · have := hsame (l.tail h)
            constructor
            · exact this.next
            · intro y _
              rfl
      · rw [if_neg hp, List.find?_cons_of_neg hp, List.eraseP_cons_of_neg hp]
        have hl' : Represents l h ((ys ++ [c]) ++ zs) := by simpa using hl
        have hlen : zs.length < n := by simpa using hn
        obtain ⟨l', hrun, hrep, hsame⟩ := removeLoop_spec zs (ys ++ [c]) n hl' hlen
        have hendpoint : endpoint h (ys ++ [c]) = c := by
          rw [endpoint_append, endpoint_cons, endpoint_nil]
        rw [hendpoint] at hrun
        use l', hrun
        constructor
        · simpa using hrep
        · simpa using hsame

/-- The removal takes the first item that satisfies `p`, and none when no item does. -/
theorem removeFirst_spec {p : α → Bool} {bound : ℕ} (hl : Represents l h xs)
    (hbound : xs.length < bound) :
  ∃ l', removeFirst p bound l h = some (xs.find? p, l') ∧ Represents l' h (xs.eraseP p)
    ∧ SameOutside h xs l l'
  := removeLoop_spec xs [] bound hl hbound

end LarvaOS
