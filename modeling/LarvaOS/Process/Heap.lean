import LarvaOS.Process.Operations

/-!
# Lists of processes in a heap

`WaitListRemoveReadyProcess`, `RemoveProcessWithPID` and `Wakeup` on any heap of processes and list
heads, of any size.  A `ProcessHeap` has the links of all addresses, and the process at every
address that is not a list head.  On well-formed lists the functions of `libc/list.c` and the two
removal functions act as on sequences, and `Wakeup` moves the processes with an id from the one
sequence to the end of the other one.  The functions of the scheduler are those of the heap of
`s_process_manager` and the three list heads of `s_scheduler`.
-/

namespace LarvaOS

open Linked

variable {α : Type}

/-- A heap of processes and list heads. The fields of a process are those without `next`. -/
structure ProcessHeap (α : Type) where
  links : Links α
  process : α → Option Process

namespace ProcessHeap

/-- The process at an address satisfies `p`. -/
def satisfies (heap : ProcessHeap α) (p : Process → Bool) (a : α) : Bool := (heap.process a).any p

/-- The field `wait_id` of the process is `waitId`. -/
def waits (heap : ProcessHeap α) (waitId : Int) (a : α) : Bool :=
  heap.satisfies (fun p => p.waitId = waitId) a

/-- The field `pid` of the process is `pid`. -/
def hasPid (heap : ProcessHeap α) (pid : Int) (a : α) : Bool :=
  heap.satisfies (fun p => p.pid = pid) a

variable [DecidableEq α]

/-- Store a state in the process at an address. -/
def setState (heap : ProcessHeap α) (a : α) (state : ProcessState) : ProcessHeap α :=
  { heap with process :=
      Function.update heap.process a ((heap.process a).map (fun p => { p with state := state })) }

/-- Search a list for the first address satisfying `p` and unlink it; the loop visits at most
`bound` addresses. -/
def remove (p : α → Bool) (bound : ℕ) (list : α) (heap : ProcessHeap α) :
    Option (Option α × ProcessHeap α) :=
  (removeFirst p bound heap.links list).map (fun r => (r.1, { heap with links := r.2 }))

/-- `WaitListRemoveReadyProcess`. -/
def waitListRemoveReadyProcess (bound : ℕ) (list : α) (waitId : Int) (heap : ProcessHeap α) :
    Option (Option α × ProcessHeap α) :=
  heap.remove (heap.waits waitId) bound list

/-- `RemoveProcessWithPID`. -/
def removeProcessWithPID (bound : ℕ) (list : α) (pid : Int) (heap : ProcessHeap α) :
    Option (Option α × ProcessHeap α) :=
  heap.remove (heap.hasPid pid) bound list

/-- `ListPushBack(list, (List *)proc)`. -/
def pushBack (heap : ProcessHeap α) (list a : α) : Option (ProcessHeap α) :=
  (listPushBack heap.links list a).map (fun l => { heap with links := l })

/-- The loop of `Wakeup`: the recursion is on the number of processes it may wake. -/
def wakeupLoop (bound : ℕ) (waitList readyList : α) (waitId : Int) :
    ℕ → ProcessHeap α → Option (ProcessHeap α)
  | 0, _ => none
  | n + 1, heap => do
      let (proc, heap) ← heap.waitListRemoveReadyProcess bound waitList waitId
      match proc with
      | none => some heap
      | some a =>
          let heap ← (heap.setState a .ready).pushBack readyList a
          wakeupLoop bound waitList readyList waitId n heap

/-- `Wakeup`. -/
def wakeup (bound : ℕ) (waitList readyList : α) (waitId : Int) (heap : ProcessHeap α) :
    Option (ProcessHeap α) :=
  wakeupLoop bound waitList readyList waitId bound heap

end ProcessHeap

/-- The list with head `h` is well formed and holds the sequence `xs`: `next` and `tail` are null
exactly when it is empty, and `tail` points to the last address, whose `next` is null. -/
structure WellFormedList (l : Links α) (h : α) (xs : List α) : Prop where
  represents : Represents l h xs
  next_eq_none : l.next h = none ↔ xs = []
  tail_eq_none : l.tail h = none ↔ xs = []
  last : ∀ x, xs.getLast? = some x → l.tail h = some x ∧ l.next x = none

/-- Every list whose head and addresses are not among `xs` is the same in the links `l'`. -/
def Unaffected (l l' : Links α) (xs : List α) : Prop :=
  ∀ h ys, Represents l h ys → (∀ y ∈ h :: ys, y ∉ xs) → Represents l' h ys

variable {l l' : Links α} {h : α} {xs ys : List α}

/-- A list that holds a sequence is well formed. -/
theorem wellFormedList (hl : Represents l h xs) :
  WellFormedList l h xs
  := by
  refine ⟨hl, hl.next_eq_none_iff, ?_, ?_⟩
  · rw [hl.tail, List.getLast?_eq_none_iff]
  · intro x hx
    refine ⟨hl.tail.trans hx, ?_⟩
    cases xs with
    | nil => cases hx
    | cons y ys =>
        rw [getLast?_eq_endpoint h] at hx
        obtain rfl := Option.some.inj hx
        exact hl.next_endpoint

theorem unaffected (hs : SameOutside h xs l l') :
  Unaffected l l' (h :: xs)
  := fun _ _ hr hdisj => hs.represents hdisj hr

section Operations

variable [DecidableEq α]

/-- The removal loop changes nothing when no address satisfies `p`. -/
theorem removeLoop_of_forall_not {p : α → Bool} {list : α} :
  ∀ {a : α} {xs : List α} {n : ℕ}, Path l.next a xs → (∀ x ∈ xs, ¬ p x = true) → xs.length < n →
    removeLoop p list n a (l.next a) l = some (none, l)
  | a, [], n + 1, hpath, _, _ => by
      have hnone : l.next a = none := hpath
      rw [hnone, removeLoop]
  | a, x :: xs, n + 1, hpath, hnot, hn => by
      have hx : ¬ p x = true := hnot x List.mem_cons_self
      rw [hpath.1, removeLoop, if_neg hx]
      apply removeLoop_of_forall_not hpath.2
      · exact fun y hy => hnot y (List.mem_cons_of_mem x hy)
      · exact Nat.lt_of_succ_lt_succ hn

/-- A removal takes the first address that satisfies `p`, and changes nothing when none does. -/
theorem remove_spec {p : α → Bool} {heap : ProcessHeap α} {n : ℕ}
    (hl : Represents heap.links h xs) (hn : xs.length < n) :
  ∃ heap', heap.remove p n h = some (xs.find? p, heap') ∧ heap'.process = heap.process
    ∧ Represents heap'.links h (xs.eraseP p) ∧ (xs.find? p = none → heap' = heap)
    ∧ SameOutside h xs heap.links heap'.links
  := by
  obtain ⟨l', hrun, hrep, hsame⟩ := @removeFirst_spec _ heap.links h xs _ p n hl hn
  have hremove : heap.remove p n h = some (xs.find? p, { heap with links := l' }) := by
    rw [ProcessHeap.remove, hrun, Option.map_some]
  refine ⟨{ heap with links := l' }, hremove, rfl, hrep, ?_, hsame⟩
  intro hnone
  have hnot := List.find?_eq_none.mp hnone
  have hkeep : removeFirst p n heap.links h = some (none, heap.links) :=
    removeLoop_of_forall_not hl.path hnot hn
  rw [hrun] at hkeep
  obtain ⟨_, rfl⟩ := Prod.mk.inj (Option.some.inj hkeep)
  rfl

/-- `ListPopFront` returns the first address. -/
theorem listPopFront_spec (hl : Represents l h xs) :
  ∃ l', listPopFront l h = (xs.head?, l') ∧ Represents l' h xs.tail ∧ (xs = [] → l' = l)
    ∧ SameOutside h xs l l'
  := by
  cases xs with
  | nil => exact ⟨l, listPopFront_nil hl, hl, fun _ => rfl, SameOutside.refl _ _ _⟩
  | cons x xs =>
      obtain ⟨l', hpop, hrep, hsame⟩ := listPopFront_cons hl
      exact ⟨l', hpop, hrep, nofun, hsame⟩

/-- On a list that holds a sequence, `ListPushBack` of an address outside of it appends the
address, `ListPopFront` takes the first address, and `WaitListRemoveReadyProcess` and
`RemoveProcessWithPID` take the first process with the id; each of them returns null and changes
nothing when there is none. The list is well formed afterwards, and a list without common addresses,
and without the one that is pushed, is unaffected. -/
theorem lists_refine {heap : ProcessHeap α} (hl : Represents heap.links h xs) :
  (∀ item, item ∉ h :: xs → ∃ l', listPushBack heap.links h item = some l'
      ∧ WellFormedList l' h (xs ++ [item]) ∧ Unaffected heap.links l' (h :: item :: xs))
    ∧ (∃ l', listPopFront heap.links h = (xs.head?, l') ∧ WellFormedList l' h xs.tail
      ∧ (xs = [] → l' = heap.links) ∧ Unaffected heap.links l' (h :: xs))
    ∧ (∀ waitId n, xs.length < n → ∃ heap',
      heap.waitListRemoveReadyProcess n h waitId = some (xs.find? (heap.waits waitId), heap')
        ∧ heap'.process = heap.process
        ∧ WellFormedList heap'.links h (xs.eraseP (heap.waits waitId))
        ∧ (xs.find? (heap.waits waitId) = none → heap' = heap)
        ∧ Unaffected heap.links heap'.links (h :: xs))
    ∧ ∀ pid n, xs.length < n → ∃ heap',
      heap.removeProcessWithPID n h pid = some (xs.find? (heap.hasPid pid), heap')
        ∧ heap'.process = heap.process
        ∧ WellFormedList heap'.links h (xs.eraseP (heap.hasPid pid))
        ∧ (xs.find? (heap.hasPid pid) = none → heap' = heap)
        ∧ Unaffected heap.links heap'.links (h :: xs)
  := by
  refine ⟨?_, ?_, ?_, ?_⟩
  · intro item hitem
    obtain ⟨l', hpush, hrep, hsame⟩ := listPushBack_spec hl hitem
    exact ⟨l', hpush, wellFormedList hrep, unaffected hsame⟩
  · obtain ⟨l', hpop, hrep, hkeep, hsame⟩ := listPopFront_spec hl
    exact ⟨l', hpop, wellFormedList hrep, hkeep, unaffected hsame⟩
  · intro waitId n hn
    obtain ⟨heap', hrun, hprocess, hrep, hkeep, hsame⟩ := remove_spec hl hn
    exact ⟨heap', hrun, hprocess, wellFormedList hrep, hkeep, unaffected hsame⟩
  · intro pid n hn
    obtain ⟨heap', hrun, hprocess, hrep, hkeep, hsame⟩ := remove_spec hl hn
    exact ⟨heap', hrun, hprocess, wellFormedList hrep, hkeep, unaffected hsame⟩

end Operations

/-- A list that holds nothing, with head 0, and one that holds the addresses 2 and 3, with head
1. -/
def smallLinks : Links ℕ where
  next a := if a = 1 then some 2 else if a = 2 then some 3 else none
  tail a := if a = 1 then some 3 else none

theorem smallLinks_empty :
  Represents smallLinks 0 []
  := ⟨rfl, rfl, by decide⟩

theorem smallLinks_pair :
  Represents smallLinks 1 [2, 3]
  := ⟨⟨rfl, rfl, rfl⟩, rfl, by decide⟩

/-- The list with the addresses 2 and 3 in a heap of sleeping processes. -/
def smallHeap : ProcessHeap ℕ where
  links := smallLinks
  process a := if a < 2 then none else some { Process.zero with pid := a, state := .sleeping }

/-- The process 3 is taken from the list of 2 and 3. -/
theorem lists_refine_small :
  ∃ heap', smallHeap.removeProcessWithPID 3 1 3 = some (some 3, heap')
    ∧ WellFormedList heap'.links 1 [2]
  := by
  have hl : Represents smallHeap.links 1 [2, 3] := smallLinks_pair
  obtain ⟨heap', hrun, _, hwell, _⟩ := (lists_refine hl).2.2.2 3 3 (by decide)
  exact ⟨heap', hrun, hwell⟩

/-- Pushing an address onto a list destroys another list that holds the address: the lists with
the heads 0 and 1 are disjoint, and after 2 was pushed onto the first one, the second one does not
hold 2 and 3 anymore. -/
theorem not_unaffected_push :
  Represents smallLinks 0 [] ∧ Represents smallLinks 1 [2, 3] ∧ 2 ∉ [0]
    ∧ (∀ y ∈ [1, 2, 3], y ∉ [0])
    ∧ ∃ l', listPushBack smallLinks 0 2 = some l' ∧ ¬ Represents l' 1 [2, 3]
  := by
  refine ⟨smallLinks_empty, smallLinks_pair, by decide, by decide, _, rfl, ?_⟩
  intro h
  have hnext := h.path.2.1
  cases hnext

/-! ### Waking up -/

namespace ProcessHeap

variable {heap : ProcessHeap α} {a : α} {waitId : Int}

@[simp]
theorem setState_links [DecidableEq α] (heap : ProcessHeap α) (a : α) (state : ProcessState) :
  (heap.setState a state).links = heap.links
  := rfl

theorem setState_process_self [DecidableEq α] (heap : ProcessHeap α) (a : α)
    (state : ProcessState) :
  (heap.setState a state).process a = (heap.process a).map (fun p => { p with state := state })
  := Function.update_self _ _ _

theorem setState_process_of_ne [DecidableEq α] {b : α} (h : b ≠ a) (heap : ProcessHeap α)
    (state : ProcessState) :
  (heap.setState a state).process b = heap.process b
  := Function.update_of_ne h _ _

/-- A state that is stored in a process does not change the id for which it waits. -/
theorem waits_setState [DecidableEq α] (heap : ProcessHeap α) (a : α) (state : ProcessState)
    (waitId : Int) :
  (heap.setState a state).waits waitId = heap.waits waitId
  := by
  funext b
  unfold waits satisfies
  by_cases hb : b = a
  · rw [hb, setState_process_self, Option.any_map]
  · rw [setState_process_of_ne hb]

end ProcessHeap

/-- The process with the state `READY`. -/
def Process.woken (p : Process) : Process := { p with state := .ready }

/-- The effect of `Wakeup` on a heap whose wait list holds `xs` and whose ready list holds `ys`. -/
structure Woken (waitList readyList : α) (xs ys : List α) (waitId : Int)
    (heap heap' : ProcessHeap α) : Prop where
  waiting : Represents heap'.links waitList (xs.filter (fun a => !heap.waits waitId a))
  ready : Represents heap'.links readyList (ys ++ xs.filter (heap.waits waitId))
  process : ∀ a, a ∈ xs → heap.waits waitId a = true →
    heap'.process a = (heap.process a).map Process.woken
  same : ∀ a, ¬ (a ∈ xs ∧ heap.waits waitId a = true) → heap'.process a = heap.process a
  next : ∀ a, a ∉ waitList :: readyList :: (xs ++ ys) → heap'.links.next a = heap.links.next a
  tail : ∀ a, a ≠ waitList → a ≠ readyList → heap'.links.tail a = heap.links.tail a

section Wakeup

variable {waitList readyList : α} {waitId : Int} {heap : ProcessHeap α}

/-- Nothing happens when no process waits for the id. -/
theorem Woken.refl (hwait : Represents heap.links waitList xs)
    (hready : Represents heap.links readyList ys) (hnone : ∀ x ∈ xs, ¬ heap.waits waitId x = true) :
  Woken waitList readyList xs ys waitId heap heap
  := by
  have hfilter : xs.filter (heap.waits waitId) = [] := List.filter_eq_nil_iff.mpr hnone
  have hkeep : xs.filter (fun a => !heap.waits waitId a) = xs := by
    rw [List.filter_eq_self]
    intro x hx
    rw [Bool.eq_false_iff.mpr (hnone x hx)]
    rfl
  constructor
  · rw [hkeep]
    exact hwait
  · rw [hfilter, List.append_nil]
    exact hready
  · intro a ha hwaits
    exact absurd hwaits (hnone a ha)
  · exact fun _ _ => rfl
  · exact fun _ _ => rfl
  · exact fun _ _ _ => rfl

variable [DecidableEq α]

/-- What the loop does for the first process that waits for the id, and then for the rest. -/
theorem Woken.step {heap₁ heap₂ heap' : ProcessHeap α} {a : α} {as bs : List α}
    (hnone : ∀ x ∈ as, ¬ heap.waits waitId x = true) (ha : heap.waits waitId a = true)
    (hnodup : (as ++ a :: bs).Nodup) (hprocess₁ : heap₁.process = heap.process)
    (hprocess₂ : heap₂.process = (heap₁.setState a .ready).process)
    (hnext₁ : ∀ x, x ∉ waitList :: (as ++ a :: bs) → heap₁.links.next x = heap.links.next x)
    (htail₁ : ∀ x, x ≠ waitList → heap₁.links.tail x = heap.links.tail x)
    (hnext₂ : ∀ x, x ∉ readyList :: a :: ys → heap₂.links.next x = heap₁.links.next x)
    (htail₂ : ∀ x, x ≠ readyList → heap₂.links.tail x = heap₁.links.tail x)
    (h : Woken waitList readyList (as ++ bs) (ys ++ [a]) waitId heap₂ heap') :
  Woken waitList readyList (as ++ a :: bs) ys waitId heap heap'
  := by
  have hwaits₁ : heap₁.waits waitId = heap.waits waitId := by
    unfold ProcessHeap.waits ProcessHeap.satisfies
    rw [hprocess₁]
  have hwaits : heap₂.waits waitId = heap.waits waitId := by
    rw [← hwaits₁, ← heap₁.waits_setState a .ready waitId]
    unfold ProcessHeap.waits ProcessHeap.satisfies
    rw [hprocess₂]
  have hself : heap₂.process a = (heap.process a).map Process.woken := by
    rw [hprocess₂, ProcessHeap.setState_process_self, hprocess₁]
    rfl
  have hother : ∀ x, x ≠ a → heap₂.process x = heap.process x := by
    intro x hx
    rw [hprocess₂, ProcessHeap.setState_process_of_ne hx, hprocess₁]
  have hmiddle : a ∉ as ++ bs := List.nodup_middle.mp hnodup |> List.nodup_cons.mp |>.1
  have hmem : ∀ x, x ∈ as ++ a :: bs ↔ x = a ∨ x ∈ as ++ bs := by
    intro x
    rw [List.mem_append, List.mem_cons, List.mem_append]
    tauto
  constructor
  · have hfilter : (as ++ a :: bs).filter (fun x => !heap.waits waitId x)
        = (as ++ bs).filter (fun x => !heap.waits waitId x) := by
      rw [List.filter_append, List.filter_cons_of_neg (by rw [ha]; decide), List.filter_append]
    have hwaiting := h.waiting
    rw [hwaits] at hwaiting
    rw [hfilter]
    exact hwaiting
  · have hfilter : (as ++ a :: bs).filter (heap.waits waitId)
        = [a] ++ (as ++ bs).filter (heap.waits waitId) := by
      rw [List.filter_append, List.filter_cons_of_pos ha, List.filter_append,
        List.filter_eq_nil_iff.mpr hnone]
      rfl
    have hready := h.ready
    rw [hwaits, List.append_assoc, ← hfilter] at hready
    exact hready
  · intro x hx hwaiting
    rcases (hmem x).mp hx with rfl | hrest
    · rw [h.same x (fun hboth => hmiddle hboth.1), hself]
    · have hne : x ≠ a := fun e => hmiddle (e ▸ hrest)
      rw [h.process x hrest (hwaits ▸ hwaiting), hother x hne]
  · intro x hx
    have hne : x ≠ a := by
      rintro rfl
      exact hx ⟨(hmem x).mpr (Or.inl rfl), ha⟩
    rw [h.same x (fun hboth => hx ⟨(hmem x).mpr (Or.inr hboth.1), hwaits ▸ hboth.2⟩), hother x hne]
  · intro x hx
    simp only [List.mem_cons, List.mem_append, not_or] at hx
    obtain ⟨hxwait, hxready, ⟨hxas, hxa, hxbs⟩, hxys⟩ := hx
    rw [h.next x, hnext₂ x, hnext₁ x]
    · simp [hxwait, hxas, hxa, hxbs]
    · simp [hxready, hxa, hxys]
    · simp [hxwait, hxready, hxas, hxbs, hxys, hxa]
  · intro x hxwait hxready
    rw [h.tail x hxwait hxready, htail₂ x hxready, htail₁ x hxwait]

/-- The loop of `Wakeup`. -/
theorem wakeupLoop_spec {bound : ℕ} :
  ∀ {n : ℕ} {heap : ProcessHeap α} {xs ys : List α},
    Represents heap.links waitList xs → Represents heap.links readyList ys →
    (∀ y ∈ waitList :: xs, y ∉ readyList :: ys) → xs.length < bound → xs.length < n →
    ∃ heap', heap.wakeupLoop bound waitList readyList waitId n = some heap'
      ∧ Woken waitList readyList xs ys waitId heap heap'
  | n + 1, heap, xs, ys, hwait, hready, hdisj, hbound, hn => by
      obtain ⟨heap₁, hrun, hprocess₁, hrep, hkeep, hsame⟩ :=
        @remove_spec α waitList xs _ (heap.waits waitId) heap bound hwait hbound
      rw [ProcessHeap.wakeupLoop, ProcessHeap.waitListRemoveReadyProcess, hrun,
        Option.bind_eq_bind, Option.bind_some]
      rcases hfind : xs.find? (heap.waits waitId) with _ | a
      · obtain rfl := hkeep hfind
        exact ⟨heap₁, rfl, Woken.refl hwait hready (List.find?_eq_none.mp hfind)⟩
      · obtain ⟨ha, as, bs, rfl, hnone⟩ := List.find?_eq_some_iff_append.mp hfind
        have hnone : ∀ x ∈ as, ¬ heap.waits waitId x = true := by
          intro x hx
          simpa using hnone x hx
        have hnodup := (List.nodup_cons.mp hwait.nodup).2
        have herase : (as ++ a :: bs).eraseP (heap.waits waitId) = as ++ bs := by
          rw [List.eraseP_append_right _ hnone, List.eraseP_cons_of_pos ha]
        rw [herase] at hrep
        have hready₁ : Represents heap₁.links readyList ys := by
          apply hsame.represents _ hready
          exact fun y hy hmem => hdisj y hmem hy
        have hmem : a ∈ waitList :: (as ++ a :: bs) := by simp
        obtain ⟨l₂, hpush, hrep₂, hsame₂⟩ := listPushBack_spec hready₁ (hdisj a hmem)
        have hsub : ∀ y ∈ waitList :: (as ++ bs), y ∈ waitList :: (as ++ a :: bs) ∧ y ≠ a := by
          intro y hy
          have hne := List.nodup_cons.mp (List.nodup_middle.mp hnodup)
          rcases List.mem_cons.mp hy with rfl | hy
          · refine ⟨List.mem_cons_self, ?_⟩
            rintro rfl
            exact (List.nodup_cons.mp hwait.nodup).1 (by simp)
          · refine ⟨?_, fun e => hne.1 (e ▸ hy)⟩
            rcases List.mem_append.mp hy with hy | hy
            · simp [hy]
            · simp [hy]
        have hwait₂ : Represents l₂ waitList (as ++ bs) := by
          apply hsame₂.represents _ hrep
          intro y hy hin
          obtain ⟨hold, hne⟩ := hsub y hy
          rcases List.mem_cons.mp hin with rfl | hin
          · exact hdisj y hold List.mem_cons_self
          · rcases List.mem_cons.mp hin with rfl | hin
            · exact hne rfl
            · exact hdisj y hold (List.mem_cons_of_mem _ hin)
        have hdisj₂ : ∀ y ∈ waitList :: (as ++ bs), y ∉ readyList :: (ys ++ [a]) := by
          intro y hy hin
          obtain ⟨hold, hne⟩ := hsub y hy
          have hcases : y ∈ readyList :: ys ∨ y = a := by
            simpa [or_assoc] using hin
          rcases hcases with hin | hin
          · exact hdisj y hold hin
          · exact hne hin
        have hlength : (as ++ a :: bs).length = (as ++ bs).length + 1 := by
          simp [Nat.add_assoc]
        obtain ⟨heap', hloop, hwoken⟩ := @wakeupLoop_spec bound n
          { heap₁.setState a .ready with links := l₂ } (as ++ bs) (ys ++ [a]) hwait₂ hrep₂ hdisj₂
          (by omega) (by omega)
        refine ⟨heap', ?_, ?_⟩
        · dsimp only
          rw [ProcessHeap.pushBack, ProcessHeap.setState_links, hpush]
          exact hloop
        · have hprocess₂ : ({ heap₁.setState a .ready with links := l₂ } : ProcessHeap α).process
              = (heap₁.setState a .ready).process := rfl
          apply Woken.step hnone ha hnodup hprocess₁ hprocess₂ hsame.next hsame.tail _
            hsame₂.tail hwoken
          intro x hx
          apply hsame₂.next x
          simpa using hx

/-- `Wakeup` moves the processes that wait for the id from the wait list to the end of the ready
list, in their order, and stores the state `READY` in them. It changes nothing else of any process
but the links, both lists are well formed afterwards, and the other lists are unaffected. -/
theorem wakeup_partition {bound : ℕ} (hwait : Represents heap.links waitList xs)
    (hready : Represents heap.links readyList ys)
    (hdisj : ∀ y ∈ waitList :: xs, y ∉ readyList :: ys) (hbound : xs.length < bound) (waitId : Int) :
  ∃ heap', heap.wakeup bound waitList readyList waitId = some heap'
    ∧ WellFormedList heap'.links waitList (xs.filter (fun a => !heap.waits waitId a))
    ∧ WellFormedList heap'.links readyList (ys ++ xs.filter (heap.waits waitId))
    ∧ (∀ a, heap'.process a = if a ∈ xs ∧ heap.waits waitId a = true
        then (heap.process a).map Process.woken else heap.process a)
    ∧ Unaffected heap.links heap'.links (waitList :: readyList :: (xs ++ ys))
  := by
  obtain ⟨heap', hrun, h⟩ := @wakeupLoop_spec α waitList readyList waitId _ bound bound heap xs ys
    hwait hready hdisj hbound hbound
  refine ⟨heap', hrun, wellFormedList h.waiting, wellFormedList h.ready, ?_, ?_⟩
  · intro a
    split
    · rename_i hwoken
      exact h.process a hwoken.1 hwoken.2
    · rename_i hsame
      exact h.same a hsame
  · intro list zs hlist hother
    apply hlist.congr
    · exact fun y hy => h.next y (hother y hy)
    · have hhead := hother list List.mem_cons_self
      simp only [List.mem_cons, not_or] at hhead
      exact h.tail list hhead.1 hhead.2.1

end Wakeup

/-- The processes 2 and 3 of the small heap wait for 0, and are moved to the empty list. -/
theorem wakeup_partition_small :
  ∃ heap', smallHeap.wakeup 3 1 0 0 = some heap' ∧ WellFormedList heap'.links 1 []
    ∧ WellFormedList heap'.links 0 [2, 3]
  := by
  have hwait : Represents smallHeap.links 1 [2, 3] := smallLinks_pair
  have hready : Represents smallHeap.links 0 [] := smallLinks_empty
  obtain ⟨heap', hrun, hwaiting, hwoken, _⟩ :=
    @wakeup_partition ℕ [2, 3] [] 1 0 smallHeap _ 3 hwait hready (by decide) (by decide) 0
  exact ⟨heap', hrun, hwaiting, hwoken⟩

/-! ### The lists of the scheduler -/

/-- The heap of `s_process_manager` and the list heads of `s_scheduler`. -/
def Scheduler.heap (s : Scheduler) : ProcessHeap ListNode where
  links := s.links
  process a :=
    match a with
    | .head _ => none
    | .proc i => some (s.process i)

namespace Scheduler

variable {s : Scheduler}

theorem nodeSatisfies_heap (s : Scheduler) (p : Process → Bool) :
  s.nodeSatisfies p = s.heap.satisfies p
  := by
  funext a
  cases a with
  | head list => rfl
  | proc i => rfl

/-- A removal from a list of the scheduler is one from the list in the heap. -/
theorem removeProcess_heap (s : Scheduler) (p : Process → Bool) (list : ListHead) :
  (removeProcess p list s).map (fun r => (r.1, r.2.heap))
    = s.heap.remove (s.heap.satisfies p) (maximumNumberOfProcess + 1) (.head list)
  := by
  rw [removeProcess, ProcessHeap.remove, nodeSatisfies_heap, Option.map_map]
  rfl

theorem setState_heap (s : Scheduler) (i : Slot) (state : ProcessState) :
  (s.setState i state).heap = s.heap.setState (.proc i) state
  := by
  change ProcessHeap.mk s.links _ = ProcessHeap.mk s.links _
  congr 1
  funext a
  cases a with
  | head list =>
      rw [Function.update_of_ne (by simp)]
      rfl
  | proc j =>
      by_cases hj : j = i
      · rw [hj, Function.update_self]
        exact congrArg some (setProcess_self _ _ _)
      · rw [Function.update_of_ne (by simpa using hj)]
        exact congrArg some (setProcess_of_ne hj _ _)

theorem pushReady_heap (s : Scheduler) (i : Slot) :
  (s.pushReady i).map heap = s.heap.pushBack (.head .readyProcList) (.proc i)
  := by
  rw [pushReady, pushBack, ProcessHeap.pushBack, Option.map_map, Option.map_map]
  rfl

end Scheduler

/-- What a removal loop returns satisfies `p`. -/
theorem removeLoop_satisfies [DecidableEq α] {p : α → Bool} {list a : α} :
  ∀ {n : ℕ} {prev : α} {current : Option α} {l l' : Links α},
    removeLoop p list n prev current l = some (some a, l') → p a = true
  | n + 1, prev, none, l, l', h => by
      rw [removeLoop] at h
      cases h
  | n + 1, prev, some c, l, l', h => by
      rw [removeLoop] at h
      split at h
      · rename_i hp
        have hc : c = a := by
          dsimp only at h
          split_ifs at h <;> exact Option.some.inj (Prod.mk.inj (Option.some.inj h)).1
        exact hc ▸ hp
      · exact removeLoop_satisfies h

/-- The loop of `Wakeup` of the scheduler is that of the heap. -/
theorem wakeupLoop_heap (waitId : Int) (n : ℕ) (s : Scheduler) :
  (wakeupLoop waitId n s).map Scheduler.heap
    = s.heap.wakeupLoop (maximumNumberOfProcess + 1) (.head .waitProcList) (.head .readyProcList)
        waitId n
  := by
  induction n generalizing s with
  | zero => rfl
  | succ n ih =>
      have hwaits : s.heap.waits waitId = s.heap.satisfies (fun p => p.waitId = waitId) := rfl
      have hremove := s.removeProcess_heap (fun p => p.waitId = waitId) .waitProcList
      rw [wakeupLoop, ProcessHeap.wakeupLoop, waitListRemoveReadyProcess,
        ProcessHeap.waitListRemoveReadyProcess, hwaits, ← hremove]
      rcases hrun : removeProcess (fun p => p.waitId = waitId) .waitProcList s with _ | ⟨item, s₁⟩
      · rfl
      simp only [Option.map_some, Option.bind_eq_bind, Option.bind_some]
      rcases item with _ | (list | i)
      · rfl
      · obtain ⟨r, hfirst, heq⟩ := Option.map_eq_some_iff.mp hrun
        obtain ⟨hitem, _⟩ := Prod.mk.inj heq
        have hhead : s.nodeSatisfies (fun p => p.waitId = waitId) (.head list) = true := by
          have hfound : r = (some (.head list), r.2) := Prod.ext hitem rfl
          rw [hfound] at hfirst
          exact removeLoop_satisfies hfirst
        cases hhead
      · dsimp only
        rw [← Scheduler.setState_heap, ← Scheduler.pushReady_heap]
        rcases (s₁.setState i .ready).pushReady i with _ | s₂
        · rfl
        · exact ih s₂

/-- `Wakeup` of the scheduler is that of the heap. -/
theorem wakeup_heap (waitId : Int) (s : Scheduler) :
  (wakeup waitId s).map Scheduler.heap
    = s.heap.wakeup (maximumNumberOfProcess + 1) (.head .waitProcList) (.head .readyProcList) waitId
  := wakeupLoop_heap waitId (maximumNumberOfProcess + 1) s

end LarvaOS
