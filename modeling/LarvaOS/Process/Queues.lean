import LarvaOS.Process.Scheduler
import Mathlib.Data.Fintype.Card
import Mathlib.Data.Finset.Card

/-!
# The queues of the scheduler

The abstract scheduler has three queues, sequences of processes without repetition.
`Holds l q` says that the links `l` hold the queues `q`, and `Queued s q r` says that
besides the states of the processes agree with the queues: the processes on a list
have the state of the list, and apart from IDLE the running process is `r`.  The
operations of the scheduler act on the queues as on sequences.
-/

namespace LarvaOS

open Linked

/-- The sequences of processes on the three lists. -/
abbrev Queues : Type := ListHead → List Slot

/-- The state of the processes on a list. -/
def ListHead.state : ListHead → ProcessState
  | .readyProcList => .ready
  | .waitProcList => .sleeping
  | .killProcList => .killed

/-- The links hold the queues. -/
structure Holds (l : Links ListNode) (q : Queues) : Prop where
  represents : ∀ list, Represents l (.head list) ((q list).map .proc)
  disjoint : ∀ list list' i, i ∈ q list → i ∈ q list' → list = list'

namespace Holds

variable {l l' : Links ListNode} {q : Queues}

theorem nodup (hq : Holds l q) (list : ListHead) :
  (q list).Nodup
  := List.Nodup.of_map _ (List.nodup_cons.mp (hq.represents list).nodup).2

/-- A queue holds at most as many processes as there are slots. -/
theorem length_le (hq : Holds l q) (list : ListHead) :
  (q list).length ≤ maximumNumberOfProcess
  := by
  have h := (hq.nodup list).length_le_card
  rwa [Fintype.card_fin] at h

/-- A head is empty exactly when its queue is. -/
theorem listIsEmpty_iff (hq : Holds l q) (list : ListHead) :
  listIsEmpty l (.head list) ↔ q list = []
  := by
  rw [LarvaOS.listIsEmpty_iff (hq.represents list), List.map_eq_nil_iff]

/-- The addresses of different lists are different. -/
theorem separate (hq : Holds l q) {list list' : ListHead} (hne : list' ≠ list) {xs : List Slot}
    (hxs : ∀ i ∈ xs, i ∈ q list ∨ ∀ list, i ∉ q list) :
  ∀ y ∈ ListNode.head list' :: (q list').map .proc, y ∉ ListNode.head list :: xs.map .proc
  := by
  intro y hy hmem
  rcases List.mem_cons.mp hy with rfl | hy
  · simp [hne] at hmem
  · obtain ⟨i, hi, rfl⟩ := List.mem_map.mp hy
    have hix : i ∈ xs := by simpa using hmem
    rcases hxs i hix with h | h
    · exact hne (hq.disjoint list' list i hi h)
    · exact h list' hi

/-- A change of one list, whose items afterwards are old items or new processes. -/
theorem change (hq : Holds l q) {list : ListHead} {ys : List Slot} (xs : List Slot)
    (hrep : Represents l' (.head list) (ys.map .proc))
    (hsame : SameOutside (.head list) (xs.map .proc) l l')
    (hxs : ∀ i ∈ xs, i ∈ q list ∨ ∀ list, i ∉ q list)
    (hys : ∀ i ∈ ys, i ∈ q list ∨ ∀ list, i ∉ q list) :
  Holds l' (Function.update q list ys)
  where
  represents list' := by
    by_cases h : list' = list
    · subst h
      rw [Function.update_self]
      exact hrep
    · rw [Function.update_of_ne h]
      exact hsame.represents (hq.separate h hxs) (hq.represents list')
  disjoint list₁ list₂ i h₁ h₂ := by
    by_cases e₁ : list₁ = list
    · by_cases e₂ : list₂ = list
      · rw [e₁, e₂]
      · rw [e₁, Function.update_self] at h₁
        rw [Function.update_of_ne e₂] at h₂
        rcases hys i h₁ with h | h
        · exact absurd (hq.disjoint list₂ list i h₂ h) e₂
        · exact absurd h₂ (h list₂)
    · rw [Function.update_of_ne e₁] at h₁
      by_cases e₂ : list₂ = list
      · rw [e₂, Function.update_self] at h₂
        rcases hys i h₂ with h | h
        · exact absurd (hq.disjoint list₁ list i h₁ h) e₁
        · exact absurd h₁ (h list₁)
      · rw [Function.update_of_ne e₂] at h₂
        exact hq.disjoint list₁ list₂ i h₁ h₂

/-- A push appends a process that is on no list. -/
theorem push (hq : Holds l q) (list : ListHead) {i : Slot} (hi : ∀ list, i ∉ q list) :
  ∃ l', listPushBack l (.head list) (.proc i) = some l'
    ∧ Holds l' (Function.update q list (q list ++ [i]))
  := by
  have hnew : ListNode.proc i ∉ ListNode.head list :: (q list).map .proc := by
    simp [hi list]
  obtain ⟨l', hpush, hrep, hsame⟩ := listPushBack_spec (hq.represents list) hnew
  use l', hpush
  have hmem : ∀ j ∈ i :: q list, j ∈ q list ∨ ∀ list, j ∉ q list := by
    intro j hj
    rcases List.mem_cons.mp hj with rfl | hj
    · exact Or.inr hi
    · exact Or.inl hj
  apply hq.change (i :: q list)
  · simpa using hrep
  · simpa using hsame
  · exact hmem
  · intro j hj
    apply hmem j
    simpa [or_comm] using hj

/-- A pop takes the first process of a queue. -/
theorem pop (hq : Holds l q) {list : ListHead} {i : Slot} {rest : List Slot}
    (hlist : q list = i :: rest) :
  ∃ l', listPopFront l (.head list) = (some (.proc i), l')
    ∧ Holds l' (Function.update q list rest)
  := by
  have hrep := hq.represents list
  rw [hlist, List.map_cons] at hrep
  obtain ⟨l', hpop, hrep', hsame⟩ := listPopFront_cons hrep
  use l', hpop
  apply hq.change (i :: rest) hrep' hsame
  · intro j hj
    rw [hlist]
    exact Or.inl hj
  · intro j hj
    rw [hlist]
    exact Or.inl (List.mem_cons_of_mem i hj)

/-- A removal takes the first process of a queue that satisfies the condition. -/
theorem remove (hq : Holds l q) (list : ListHead) (p : ListNode → Bool) :
  ∃ l', removeFirst p (maximumNumberOfProcess + 1) l (.head list)
      = some (((q list).find? (fun i => p (.proc i))).map .proc, l')
    ∧ Holds l' (Function.update q list ((q list).eraseP (fun i => p (.proc i))))
  := by
  have hlen : ((q list).map ListNode.proc).length < maximumNumberOfProcess + 1 := by
    rw [List.length_map]
    exact Nat.lt_succ_of_le (hq.length_le list)
  obtain ⟨l', hrem, hrep, hsame⟩ := removeFirst_spec (p := p) (hq.represents list) hlen
  use l'
  rw [hrem]
  constructor
  · rw [List.find?_map]
    rfl
  · apply hq.change (q list)
    · rw [List.eraseP_map] at hrep
      exact hrep
    · exact hsame
    · intro i hi
      exact Or.inl hi
    · intro i hi
      exact Or.inl (List.mem_of_mem_eraseP hi)

/-- Clearing the `next` field of a process that is on no list keeps the queues. -/
theorem clear (hq : Holds l q) {i : Slot} (hi : ∀ list, i ∉ q list) :
  Holds (l.setNext (.proc i) none) q
  where
  represents list := by
    apply (hq.represents list).congr
    · intro y hy
      apply Function.update_of_ne
      rintro rfl
      simp [hi list] at hy
    · rfl
  disjoint := hq.disjoint

end Holds

end LarvaOS
