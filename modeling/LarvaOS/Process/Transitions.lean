import LarvaOS.Process.Queues

/-!
# The operations of the scheduler on queues

`Queued s q r d` says that the scheduler `s` holds the queues `q`: the processes on a
list have the state of the list, every process with such a state is on the list, and
apart from IDLE the running process is `r`.  Inside an operation one process `d` may
be detached: it is on no list, and nothing is said about its state.  The operations are
compositions of steps that detach a process, change it, attach it to a list, and
dispatch the next process, and each operation acts on the queues as on sequences.

A process that is not IDLE and has the pid of IDLE is not pushed by `Yield`.  The number
of pids handed out decides whether there is such a process, so `Queued` allows it.
-/

namespace LarvaOS

open Linked

/-- The queue that a history of pushes and dispatches leaves, if every dispatch takes
the front of the queue, and the IDLE process is never pushed and is dispatched when the
queue is empty. -/
def replay : List Slot → List SchedulerEvent → Option (List Slot)
  | q, [] => some q
  | q, .push i :: t => if i = idleSlot then none else replay (q ++ [i]) t
  | [], .dispatch i :: t => if i = idleSlot then replay [] t else none
  | i :: q, .dispatch j :: t => if i = j then replay q t else none

theorem replay_append :
  ∀ (q : List Slot) (t t' : List SchedulerEvent),
    replay q (t ++ t') = (replay q t).bind (fun q => replay q t')
  | q, [], t' => rfl
  | q, .push i :: t, t' => by
      rw [List.cons_append, replay, replay]
      split
      · rfl
      · rw [replay_append (q ++ [i]) t t']
  | [], .dispatch i :: t, t' => by
      rw [List.cons_append, replay, replay]
      split
      · rw [replay_append [] t t']
      · rfl
  | i :: q, .dispatch j :: t, t' => by
      rw [List.cons_append, replay, replay]
      split
      · rw [replay_append q t t']
      · rfl

namespace Queues

/-- Append a process to a queue. -/
def push (q : Queues) (list : ListHead) (i : Slot) : Queues :=
  Function.update q list (q list ++ [i])

/-- Take the first process of a queue that satisfies `p`. -/
def remove (q : Queues) (list : ListHead) (p : Slot → Bool) : Queues :=
  Function.update q list ((q list).eraseP p)

/-- Move the waiting processes that satisfy `p` to the ready queue, in their order. -/
def wake (q : Queues) (p : Slot → Bool) : Queues
  | .readyProcList => q .readyProcList ++ (q .waitProcList).filter p
  | .waitProcList => (q .waitProcList).filter (fun i => ! p i)
  | .killProcList => q .killProcList

/-- The process dispatched next. -/
def head (q : Queues) : Slot := (q .readyProcList).headD idleSlot

/-- The queues after the next process is dispatched. -/
def tail (q : Queues) : Queues :=
  Function.update q .readyProcList (q .readyProcList).tail

@[simp]
theorem push_of_ne {q : Queues} {list list' : ListHead} {i : Slot} (h : list' ≠ list) :
  q.push list i list' = q list'
  := Function.update_of_ne h _ _

@[simp]
theorem push_self (q : Queues) (list : ListHead) (i : Slot) :
  q.push list i list = q list ++ [i]
  := Function.update_self _ _ _

theorem remove_of_ne {q : Queues} {list list' : ListHead} {p : Slot → Bool} (h : list' ≠ list) :
  q.remove list p list' = q list'
  := Function.update_of_ne h _ _

theorem remove_self (q : Queues) (list : ListHead) (p : Slot → Bool) :
  q.remove list p list = (q list).eraseP p
  := Function.update_self _ _ _

@[simp]
theorem tail_of_ne {q : Queues} {list : ListHead} (h : list ≠ .readyProcList) :
  q.tail list = q list
  := Function.update_of_ne h _ _

@[simp]
theorem tail_ready (q : Queues) :
  q.tail .readyProcList = (q .readyProcList).tail
  := Function.update_self _ _ _

theorem mem_of_mem_push {q : Queues} {list list' : ListHead} {i j : Slot}
    (h : j ∈ q.push list i list') :
  j ∈ q list' ∨ (j = i ∧ list' = list)
  := by
  by_cases e : list' = list
  · subst e
    rw [push_self, List.mem_append, List.mem_singleton] at h
    rcases h with h | rfl
    · apply Or.inl h
    · apply Or.inr ⟨rfl, rfl⟩
  · rw [push_of_ne e] at h
    apply Or.inl h

theorem mem_push_of_mem {q : Queues} {list list' : ListHead} {i j : Slot} (h : j ∈ q list') :
  j ∈ q.push list i list'
  := by
  by_cases e : list' = list
  · subst e
    rw [push_self]
    apply List.mem_append_left _ h
  · rwa [push_of_ne e]

theorem mem_of_mem_remove {q : Queues} {list list' : ListHead} {p : Slot → Bool} {j : Slot}
    (h : j ∈ q.remove list p list') :
  j ∈ q list'
  := by
  by_cases e : list' = list
  · subst e
    rw [remove_self] at h
    apply List.mem_of_mem_eraseP h
  · rwa [remove_of_ne e] at h

theorem mem_tail_of_mem {q : Queues} {list : ListHead} {j : Slot} (h : j ∈ q list)
    (hj : j ≠ q.head) :
  j ∈ q.tail list
  := by
  cases list with
  | readyProcList =>
      rw [tail_ready]
      rw [head] at hj
      cases hready : q .readyProcList with
      | nil =>
          rw [hready] at h
          cases h
      | cons i rest =>
          rw [hready] at h hj
          exact (List.mem_cons.mp h).resolve_left hj
  | waitProcList => exact h
  | killProcList => exact h

theorem mem_of_mem_tail {q : Queues} {list : ListHead} {j : Slot} (h : j ∈ q.tail list) :
  j ∈ q list
  := by
  cases list with
  | readyProcList =>
      rw [tail_ready] at h
      apply List.mem_of_mem_tail h
  | waitProcList => exact h
  | killProcList => exact h

/-- A removal keeps every process but the one it takes. -/
theorem mem_remove_of_mem {q : Queues} {list list' : ListHead} {p : Slot → Bool} {j : Slot}
    (h : j ∈ q list') (hj : (q list).find? p ≠ some j) :
  j ∈ q.remove list p list'
  := by
  by_cases e : list' = list
  · subst e
    rw [remove_self]
    cases hfind : (q list').find? p with
    | none =>
        rw [List.eraseP_of_forall_not (by simpa using List.find?_eq_none.mp hfind)]
        exact h
    | some i =>
        obtain ⟨hp, ys, zs, hsplit, hys⟩ := List.find?_eq_some_iff_append.mp hfind
        have hne : j ≠ i := fun e => hj (hfind.trans (congrArg some e.symm))
        rw [hsplit, List.eraseP_append_right _ (by simpa using hys), List.eraseP_cons_of_pos hp]
        rw [hsplit] at h
        simpa [hne] using h
  · rwa [remove_of_ne e]

/-- A removal takes a process away from a queue without repetition. -/
theorem not_mem_remove_of_find {q : Queues} {list : ListHead} {p : Slot → Bool} {i : Slot}
    (hnodup : (q list).Nodup) (hi : (q list).find? p = some i) :
  i ∉ q.remove list p list
  := by
  obtain ⟨hp, ys, zs, hsplit, hys⟩ := List.find?_eq_some_iff_append.mp hi
  rw [remove_self, hsplit, List.eraseP_append_right _ (by simpa using hys),
    List.eraseP_cons_of_pos hp, List.mem_append]
  rw [hsplit, List.nodup_append] at hnodup
  rintro (hmem | hmem)
  · apply hnodup.2.2 i hmem i List.mem_cons_self rfl
  · apply (List.nodup_cons.mp hnodup.2.1).1 hmem

/-- Waking takes the first waiting process that satisfies `p`, and then the others. -/
theorem wake_remove {q : Queues} {p : Slot → Bool} {i : Slot}
    (h : (q .waitProcList).find? p = some i) :
  ((q.remove .waitProcList p).push .readyProcList i).wake p = q.wake p
  := by
  obtain ⟨hp, ys, zs, hsplit, hys⟩ := List.find?_eq_some_iff_append.mp h
  have herase : (q .waitProcList).eraseP p = ys ++ zs := by
    rw [hsplit, List.eraseP_append_right _ (by simpa using hys), List.eraseP_cons_of_pos hp]
  rw [hsplit] at herase
  have hfilter : ys.filter p = [] := by
    apply List.filter_eq_nil_iff.mpr
    simpa using hys
  funext list
  cases list with
  | readyProcList => simp [wake, remove, herase, hsplit, hfilter, hp]
  | waitProcList => simp [wake, remove, herase, hsplit, hp]
  | killProcList => simp [wake, remove, push]

/-- Waking does nothing when no waiting process satisfies `p`. -/
theorem wake_of_find_none {q : Queues} {p : Slot → Bool}
    (h : (q .waitProcList).find? p = none) :
  q.wake p = q
  := by
  have hnone : ∀ i ∈ q .waitProcList, ¬ p i = true := List.find?_eq_none.mp h
  funext list
  cases list with
  | readyProcList =>
      rw [wake, List.filter_eq_nil_iff.mpr hnone, List.append_nil]
  | waitProcList =>
      rw [wake, List.filter_eq_self]
      simpa using hnone
  | killProcList => rfl

end Queues

/-- The part of a process that scheduling does not change. -/
def Process.resources (p : Process) : Process := { p with state := .unused, waitId := 0 }

/-- The schedulers agree on everything but the states `READY`, `RUNNING`, `SLEEPING` and
`KILLED`, the wait ids, the lists, the current process and the registers. -/
structure SameResources (s s' : Scheduler) : Prop where
  resources : ∀ i, (s'.process i).resources = (s.process i).resources
  unused : ∀ i, (s'.process i).state = .unused ↔ (s.process i).state = .unused
  initialized : ∀ i, (s'.process i).state = .initialized ↔ (s.process i).state = .initialized
  pidNum : s'.pidNum = s.pidNum
  created : s'.created = s.created

namespace SameResources

variable {s s' s'' : Scheduler}

theorem refl (s : Scheduler) :
  SameResources s s
  where
  resources _ := rfl
  unused _ := Iff.rfl
  initialized _ := Iff.rfl
  pidNum := rfl
  created := rfl

theorem of_eq (hp : s'.processManager = s.processManager) (hn : s'.pidNum = s.pidNum)
    (hc : s'.created = s.created) :
  SameResources s s'
  where
  resources i := by rw [Scheduler.process, hp]
  unused i := by rw [Scheduler.process, hp]
  initialized i := by rw [Scheduler.process, hp]
  pidNum := hn
  created := hc

theorem trans (h : SameResources s s') (h' : SameResources s' s'') :
  SameResources s s''
  where
  resources i := (h'.resources i).trans (h.resources i)
  unused i := (h'.unused i).trans (h.unused i)
  initialized i := (h'.initialized i).trans (h.initialized i)
  pidNum := h'.pidNum.trans h.pidNum
  created := h'.created.trans h.created

/-- A change of the process of a slot that is neither `UNUSED` nor `INITIALIZED`. -/
theorem setProcess {i : Slot} {p : Process} (hp : p.resources = (s.process i).resources)
    (hu : (s.process i).state ≠ .unused) (hi : (s.process i).state ≠ .initialized)
    (hu' : p.state ≠ .unused) (hi' : p.state ≠ .initialized) :
  SameResources s (s.setProcess i p)
  where
  resources j := by
    by_cases e : j = i
    · subst e
      rw [Scheduler.setProcess_self, hp]
    · rw [Scheduler.setProcess_of_ne e]
  unused j := by
    by_cases e : j = i
    · subst e
      simp [hu, hu']
    · simp [e]
  initialized j := by
    by_cases e : j = i
    · subst e
      simp [hi, hi']
    · simp [e]
  pidNum := rfl
  created := rfl

theorem pid (h : SameResources s s') (i : Slot) :
  (s'.process i).pid = (s.process i).pid
  := congrArg (·.pid) (h.resources i)

theorem pageMap (h : SameResources s s') (i : Slot) :
  (s'.process i).pageMap = (s.process i).pageMap
  := congrArg (·.pageMap) (h.resources i)

theorem stack (h : SameResources s s') (i : Slot) :
  (s'.process i).stack = (s.process i).stack
  := congrArg (·.stack) (h.resources i)

theorem tf (h : SameResources s s') (i : Slot) :
  (s'.process i).tf = (s.process i).tf
  := congrArg (·.tf) (h.resources i)

theorem file (h : SameResources s s') (i : Slot) :
  (s'.process i).file = (s.process i).file
  := congrArg (·.file) (h.resources i)

end SameResources

/-! ### Scheduler and queues -/

/-- The scheduler `s` holds the queues `q`, the running process is `r`, and the process
`d` is detached. -/
structure Queued (s : Scheduler) (q : Queues) (r d : Option Slot) : Prop where
  holds : Holds s.links q
  state : ∀ list i, i ∈ q list → d ≠ some i → (s.process i).state = list.state
  mem : ∀ list i, i ≠ idleSlot → d ≠ some i → (s.process i).state = list.state →
    i ∈ q list ∨ (list = .readyProcList ∧ (s.process i).pid = idleProcessPid)
  running : ∀ i, i ≠ idleSlot → d ≠ some i → ((s.process i).state = .running ↔ r = some i)
  unused : ∀ i, d ≠ some i → (s.process i).state = .unused → s.process i = Process.zero
  detached : ∀ i, d = some i → i ≠ idleSlot ∧ r ≠ some i ∧ ∀ list, i ∉ q list
  idle : ∀ list, idleSlot ∉ q list
  idleState : (s.process idleSlot).state = .running ∨ (s.process idleSlot).state = .ready
  idlePid : (s.process idleSlot).pid = idleProcessPid
  pageMapRegister : s.cr3 = switchVM (s.process s.currentProc).pageMap
  history : replay [] s.trace = some (q .readyProcList)

/-- The states of the lists differ. -/
theorem ListHead.state_injective {list list' : ListHead} (h : list.state = list'.state) :
  list = list'
  := by
  cases list <;> cases list' <;> first | rfl | cases h

theorem ListHead.state_ne_running (list : ListHead) :
  list.state ≠ .running
  := by
  cases list <;> simp [ListHead.state]

theorem ListHead.state_ne_unused (list : ListHead) :
  list.state ≠ .unused
  := by
  cases list <;> simp [ListHead.state]

theorem ListHead.state_ne_initialized (list : ListHead) :
  list.state ≠ .initialized
  := by
  cases list <;> simp [ListHead.state]

namespace Queued

variable {s : Scheduler} {q : Queues} {r d : Option Slot} {i : Slot}

/-- A process whose state is not the state of a list is on no list. -/
theorem not_mem (h : Queued s q r none)
    (hi : ∀ list : ListHead, (s.process i).state ≠ list.state) :
  ∀ list, i ∉ q list
  := by
  intro list hmem
  apply hi list
  apply h.state list i hmem
  simp

/-- Detach a process that is on no list and not running. -/
theorem detach (h : Queued s q r none) (hidle : i ≠ idleSlot) (hr : r ≠ some i)
    (hi : ∀ list, i ∉ q list) :
  Queued s q r (some i)
  where
  holds := h.holds
  state list j hj _ := h.state list j hj (by simp)
  mem list j hj _ hstate := h.mem list j hj (by simp) hstate
  running j hj _ := h.running j hj (by simp)
  unused j _ := h.unused j (by simp)
  detached j hj := by
    obtain rfl := Option.some.inj hj
    exact ⟨hidle, hr, hi⟩
  idle := h.idle
  idleState := h.idleState
  idlePid := h.idlePid
  pageMapRegister := h.pageMapRegister
  history := h.history

/-- Detach the running process. -/
theorem detach_running (h : Queued s q (some i) none) (hidle : i ≠ idleSlot) :
  Queued s q none (some i)
  where
  holds := h.holds
  state list j hj _ := h.state list j hj (by simp)
  mem list j hj _ hstate := h.mem list j hj (by simp) hstate
  running j hj hji := by
    have hne : i ≠ j := fun e => hji (congrArg some e)
    rw [h.running j hj (by simp)]
    simp [hne]
  unused j _ := h.unused j (by simp)
  detached j hj := by
    obtain rfl := Option.some.inj hj
    refine ⟨hidle, by simp, ?_⟩
    apply h.not_mem
    intro list
    rw [(h.running i hidle (by simp)).mpr rfl]
    exact list.state_ne_running.symm
  idle := h.idle
  idleState := h.idleState
  idlePid := h.idlePid
  pageMapRegister := h.pageMapRegister
  history := h.history

/-- Detach the first process of a list that satisfies `p`. -/
theorem remove (h : Queued s q r none) (list : ListHead) (hlist : list ≠ .readyProcList)
    (p : Process → Bool) :
  ∃ s', removeProcess p list s
      = some (((q list).find? (fun i => p (s.process i))).map .proc, s')
    ∧ s'.processManager = s.processManager ∧ SameResources s s'
    ∧ s'.currentProc = s.currentProc
    ∧ Queued s' (q.remove list (fun i => p (s.process i))) r
        ((q list).find? (fun i => p (s.process i)))
  := by
  obtain ⟨l, hrun, hholds⟩ := h.holds.remove list (s.nodeSatisfies p)
  use { s with links := l }
  constructor
  · unfold removeProcess
    rw [hrun]
    rfl
  refine ⟨rfl, SameResources.of_eq rfl rfl rfl, rfl, ?_⟩
  exact {
    holds := hholds
    state := fun list' j hj _ => h.state list' j (Queues.mem_of_mem_remove hj) (by simp)
    mem := by
      intro list' j hj hjd hstate
      rcases h.mem list' j hj (by simp) hstate with hmem | hpid
      · left
        apply Queues.mem_remove_of_mem hmem hjd
      · apply Or.inr hpid
    running := fun j hj _ => h.running j hj (by simp)
    unused := fun j _ => h.unused j (by simp)
    detached := by
      intro j hj
      have hmem : j ∈ q list := List.mem_of_find?_eq_some hj
      have hidle : j ≠ idleSlot := fun e => h.idle list (e ▸ hmem)
      refine ⟨hidle, ?_, ?_⟩
      · intro hr
        have hstate := h.state list j hmem (by simp)
        rw [(h.running j hidle (by simp)).mpr hr] at hstate
        exact list.state_ne_running hstate.symm
      · intro list' hmem'
        obtain rfl := h.holds.disjoint list' list j (Queues.mem_of_mem_remove hmem') hmem
        apply Queues.not_mem_remove_of_find (h.holds.nodup list') hj hmem'
    idle := fun list' hmem => h.idle list' (Queues.mem_of_mem_remove hmem)
    idleState := h.idleState
    idlePid := h.idlePid
    pageMapRegister := h.pageMapRegister
    history := by
      rw [Queues.remove_of_ne hlist.symm]
      exact h.history }

/-- Replace the process of the detached slot. -/
theorem setProcess (h : Queued s q r (some i)) {p : Process}
    (hp : p.pageMap = (s.process i).pageMap ∨ i ≠ s.currentProc) :
  Queued (s.setProcess i p) q r (some i)
  where
  holds := h.holds
  state list j hj hji := by
    have hne : j ≠ i := fun e => hji (congrArg some e.symm)
    simpa [hne] using h.state list j hj hji
  mem list j hj hji := by
    have hne : j ≠ i := fun e => hji (congrArg some e.symm)
    simpa [hne] using h.mem list j hj hji
  running j hj hji := by
    have hne : j ≠ i := fun e => hji (congrArg some e.symm)
    simpa [hne] using h.running j hj hji
  unused j hji := by
    have hne : j ≠ i := fun e => hji (congrArg some e.symm)
    simpa [hne] using h.unused j hji
  detached := h.detached
  idle := h.idle
  idleState := by
    have hne : idleSlot ≠ i := (h.detached i rfl).1.symm
    simpa [hne] using h.idleState
  idlePid := by
    have hne : idleSlot ≠ i := (h.detached i rfl).1.symm
    simpa [hne] using h.idlePid
  pageMapRegister := by
    apply h.pageMapRegister.trans
    rw [Scheduler.setProcess_currentProc]
    by_cases e : s.currentProc = i
    · rcases hp with hp | hp
      · rw [e, Scheduler.setProcess_self, hp]
      · exact absurd e.symm hp
    · rw [Scheduler.setProcess_of_ne e]
  history := h.history

/-- The detached process is at the end of its list. -/
theorem attached {s' : Scheduler} (h : Queued s q r (some i)) {list : ListHead}
    (hstate : (s.process i).state = list.state) (hlinks : Holds s'.links (q.push list i))
    (hprocess : s'.processManager = s.processManager) (hcurrent : s'.currentProc = s.currentProc)
    (hcr3 : s'.cr3 = s.cr3)
    (hhistory : replay [] s'.trace = some (q.push list i .readyProcList)) :
  Queued s' (q.push list i) r none
  := by
  obtain ⟨hidle, hr, hnot⟩ := h.detached i rfl
  have hprocess' : ∀ j, s'.process j = s.process j := congrFun hprocess
  exact {
    holds := hlinks
    state := by
      intro list' j hj _
      rw [hprocess']
      rcases Queues.mem_of_mem_push hj with hmem | ⟨rfl, rfl⟩
      · apply h.state list' j hmem
        rintro e
        obtain rfl := Option.some.inj e
        exact hnot list' hmem
      · exact hstate
    mem := by
      intro list' j hj _ hj'
      rw [hprocess'] at hj' ⊢
      by_cases e : j = i
      · subst e
        obtain rfl := ListHead.state_injective (hstate.symm.trans hj')
        rw [Queues.push_self]
        apply Or.inl
        simp
      · rcases h.mem list' j hj (by simpa using Ne.symm e) hj' with hmem | hpid
        · apply Or.inl (Queues.mem_push_of_mem hmem)
        · apply Or.inr hpid
    running := by
      intro j hj _
      rw [hprocess']
      by_cases e : j = i
      · subst e
        rw [hstate]
        simp [list.state_ne_running, hr]
      · apply h.running j hj (by simpa using Ne.symm e)
    unused := by
      intro j _ hj
      rw [hprocess'] at hj ⊢
      by_cases e : j = i
      · subst e
        exact absurd (hstate.symm.trans hj) list.state_ne_unused
      · apply h.unused j (by simpa using Ne.symm e) hj
    detached := by simp
    idle := by
      intro list' hmem
      rcases Queues.mem_of_mem_push hmem with hmem | ⟨e, _⟩
      · exact h.idle list' hmem
      · exact hidle e.symm
    idleState := by
      rw [hprocess']
      exact h.idleState
    idlePid := by
      rw [hprocess']
      exact h.idlePid
    pageMapRegister := by
      rw [hprocess', hcr3, hcurrent]
      exact h.pageMapRegister
    history := hhistory }

/-- Attach the detached process to the wait list or the kill list. -/
theorem attach (h : Queued s q r (some i)) (list : ListHead)
    (hstate : (s.process i).state = list.state) (hlist : list ≠ .readyProcList) :
  ∃ s', s.pushBack list i = some s' ∧ s'.processManager = s.processManager
    ∧ SameResources s s' ∧ s'.currentProc = s.currentProc ∧ Queued s' (q.push list i) r none
  := by
  obtain ⟨l, hrun, hholds⟩ := h.holds.push list (h.detached i rfl).2.2
  use { s with links := l }
  constructor
  · unfold Scheduler.pushBack
    rw [hrun]
    rfl
  refine ⟨rfl, SameResources.of_eq rfl rfl rfl, rfl, ?_⟩
  refine @attached s q r i { s with links := l } h list hstate hholds rfl rfl rfl ?_
  rw [Queues.push_of_ne hlist.symm]
  exact h.history

/-- Attach the detached process to the ready list. -/
theorem attach_ready (h : Queued s q r (some i)) (hstate : (s.process i).state = .ready) :
  ∃ s', s.pushReady i = some s' ∧ s'.processManager = s.processManager
    ∧ SameResources s s' ∧ s'.currentProc = s.currentProc
    ∧ Queued s' (q.push .readyProcList i) r none
  := by
  obtain ⟨l, hrun, hholds⟩ := h.holds.push .readyProcList (h.detached i rfl).2.2
  use { s with links := l }.record (.push i)
  constructor
  · unfold Scheduler.pushReady Scheduler.pushBack
    rw [hrun]
    rfl
  refine ⟨rfl, SameResources.of_eq rfl rfl rfl, rfl, ?_⟩
  refine @attached s q r i ({ s with links := l }.record (.push i)) h .readyProcList hstate hholds
    rfl rfl rfl ?_
  have hrecord : ({ s with links := l }.record (.push i)).trace = s.trace ++ [.push i] := rfl
  rw [hrecord, replay_append, h.history, Queues.push_self, Option.bind_some, replay,
    if_neg (h.detached i rfl).1]
  rfl

/-- The process dispatched next is on no list afterwards. -/
theorem head_not_mem_tail (h : Queued s q r d) (list : ListHead) :
  q.head ∉ q.tail list
  := by
  intro hmem
  have hmem' := Queues.mem_of_mem_tail hmem
  cases hready : q .readyProcList with
  | nil =>
      rw [Queues.head, hready] at hmem'
      exact h.idle list hmem'
  | cons i rest =>
      have hhead : q.head = i := by rw [Queues.head, hready, List.headD_cons]
      rw [hhead] at hmem hmem'
      have hi : i ∈ q .readyProcList := by
        rw [hready]
        apply List.mem_cons_self
      obtain rfl := h.holds.disjoint list .readyProcList i hmem' hi
      have hnodup := h.holds.nodup .readyProcList
      rw [Queues.tail_ready, hready] at hmem
      rw [hready] at hnodup
      exact (List.nodup_cons.mp hnodup).1 hmem

/-- Dispatching the next process, which is taken from the ready queue. -/
theorem dispatched (h : Queued s q none none) {l : Links ListNode} (hl : Holds l q.tail) :
  Queued (dispatch q.head { s with links := l }) q.tail (some q.head) none
  := by
  have hself : ((dispatch q.head { s with links := l }).process q.head).state = .running :=
    congrArg Process.state (Scheduler.setProcess_self _ _ _)
  have hne : ∀ j, j ≠ q.head →
      (dispatch q.head { s with links := l }).process j = s.process j :=
    fun j hj => Scheduler.setProcess_of_ne hj _ _
  exact {
    holds := hl
    state := by
      intro list j hj _
      have hjne : j ≠ q.head := fun e => h.head_not_mem_tail list (e ▸ hj)
      rw [hne j hjne]
      apply h.state list j (Queues.mem_of_mem_tail hj) (by simp)
    mem := by
      intro list j hj _ hstate
      have hjne : j ≠ q.head := by
        rintro rfl
        exact list.state_ne_running (hstate.symm.trans hself)
      rw [hne j hjne] at hstate ⊢
      rcases h.mem list j hj (by simp) hstate with hmem | hpid
      · apply Or.inl (Queues.mem_tail_of_mem hmem hjne)
      · apply Or.inr hpid
    running := by
      intro j hj _
      by_cases e : j = q.head
      · simp [e, hself]
      · rw [hne j e, h.running j hj (by simp)]
        simp [Ne.symm e]
    unused := by
      intro j _ hstate
      have hjne : j ≠ q.head := by
        rintro rfl
        cases hself.symm.trans hstate
      rw [hne j hjne] at hstate ⊢
      apply h.unused j (by simp) hstate
    detached := by simp
    idle := fun list hmem => h.idle list (Queues.mem_of_mem_tail hmem)
    idleState := by
      by_cases e : idleSlot = q.head
      · rw [e]
        apply Or.inl hself
      · rw [hne _ e]
        exact h.idleState
    idlePid := by
      by_cases e : idleSlot = q.head
      · rw [e]
        apply (congrArg Process.pid (Scheduler.setProcess_self _ _ _)).trans
        rw [← e]
        exact h.idlePid
      · rw [hne _ e]
        exact h.idlePid
    pageMapRegister := rfl
    history := by
      have htrace : (dispatch q.head { s with links := l }).trace
          = s.trace ++ [.dispatch q.head] := rfl
      rw [htrace, replay_append, h.history, Queues.tail_ready, Queues.head]
      cases q .readyProcList with
      | nil => rfl
      | cons i rest => simp [replay] }

/-- The process dispatched next is ready or IDLE. -/
theorem head_state (h : Queued s q r none) :
  (s.process q.head).state = .running ∨ (s.process q.head).state = .ready
  := by
  cases hready : q .readyProcList with
  | nil =>
      rw [Queues.head, hready]
      exact h.idleState
  | cons i rest =>
      rw [Queues.head, hready]
      right
      apply h.state .readyProcList i _ (by simp)
      rw [hready]
      apply List.mem_cons_self

/-- The processes after a dispatch. -/
theorem dispatch_resources (h : Queued s q r none) (l : Links ListNode) :
  SameResources s (dispatch q.head { s with links := l })
    ∧ ∀ i, ((dispatch q.head { s with links := l }).process i).waitId = (s.process i).waitId
  := by
  constructor
  · have hset : SameResources s (s.setState q.head .running) := by
      rcases h.head_state with hstate | hstate
      · apply SameResources.setProcess <;> simp [hstate, Process.resources]
      · apply SameResources.setProcess <;> simp [hstate, Process.resources]
    exact hset.trans (SameResources.of_eq rfl rfl rfl)
  · intro i
    by_cases e : i = q.head
    · subst e
      apply congrArg Process.waitId (Scheduler.setProcess_self _ _ _)
    · apply congrArg Process.waitId (Scheduler.setProcess_of_ne e _ _)

/-- `Schedule` dispatches the first ready process, and IDLE when there is none. -/
theorem schedule (h : Queued s q none none) :
  ∃ s', LarvaOS.schedule s = some s' ∧ s'.currentProc = q.head ∧ SameResources s s'
    ∧ (∀ i, (s'.process i).waitId = (s.process i).waitId)
    ∧ Queued s' q.tail (some q.head) none
  := by
  cases hready : q .readyProcList with
  | nil =>
      have hempty : listIsEmpty s.links (.head .readyProcList) :=
        (h.holds.listIsEmpty_iff .readyProcList).mpr hready
      have hhead : q.head = idleSlot := by rw [Queues.head, hready, List.headD_nil]
      have htail : q.tail = q := by
        rw [Queues.tail, hready, List.tail_nil, ← hready, Function.update_eq_self]
      have hl : Holds s.links q.tail := by
        rw [htail]
        exact h.holds
      have hd := h.dispatched hl
      obtain ⟨hres, hwait⟩ := h.dispatch_resources s.links
      rw [hhead] at hd hres hwait
      use dispatch idleSlot s
      rw [LarvaOS.schedule, if_pos hempty, hhead]
      exact ⟨rfl, rfl, hres, hwait, hd⟩
  | cons i rest =>
      have hfull : ¬ listIsEmpty s.links (.head .readyProcList) := by
        rw [h.holds.listIsEmpty_iff .readyProcList, hready]
        simp
      have hhead : q.head = i := by rw [Queues.head, hready, List.headD_cons]
      obtain ⟨l, hpop, hl⟩ := h.holds.pop hready
      have htail : Holds l q.tail := by
        rw [Queues.tail, hready, List.tail_cons]
        exact hl
      have hd := h.dispatched htail
      obtain ⟨hres, hwait⟩ := h.dispatch_resources l
      rw [hhead] at hd hres hwait
      use dispatch i { s with links := l }
      rw [LarvaOS.schedule, if_neg hfull, hpop, hhead]
      exact ⟨rfl, rfl, hres, hwait, hd⟩

end Queued

end LarvaOS
