import LarvaOS.Process.Transitions

/-!
# The effect of the scheduler's functions

`Yield`, `Sleep`, `Wakeup` and `Exit` as operations on the queues.  None of them changes
the resources of a process, and none of them fails in a consistent scheduler.
-/

namespace LarvaOS

open Linked

namespace Queued

variable {s : Scheduler} {q : Queues} {r d : Option Slot} {i : Slot}

/-- A detached process whose state belongs to no list is not detached anymore. -/
theorem release (h : Queued s q r (some i)) (hrunning : (s.process i).state ≠ .running)
    (hlist : ∀ list : ListHead, (s.process i).state = list.state →
      list = .readyProcList ∧ (s.process i).pid = idleProcessPid)
    (hunused : (s.process i).state = .unused → s.process i = Process.zero) :
  Queued s q r none
  where
  holds := h.holds
  state list j hj _ := by
    apply h.state list j hj
    rintro e
    obtain rfl := Option.some.inj e
    exact (h.detached i rfl).2.2 list hj
  mem list j hj _ hstate := by
    by_cases e : j = i
    · subst e
      apply Or.inr (hlist list hstate)
    · apply h.mem list j hj (by simpa using Ne.symm e) hstate
  running j hj _ := by
    by_cases e : j = i
    · subst e
      simp [hrunning, (h.detached j rfl).2.1]
    · apply h.running j hj (by simpa using Ne.symm e)
  unused j _ hstate := by
    by_cases e : j = i
    · subst e
      exact hunused hstate
    · apply h.unused j (by simpa using Ne.symm e) hstate
  detached := by simp
  idle := h.idle
  idleState := h.idleState
  idlePid := h.idlePid
  pageMapRegister := h.pageMapRegister
  history := h.history

/-- The IDLE process leaves the processor. -/
theorem idle_ready (h : Queued s q (some idleSlot) none) :
  Queued (s.setState idleSlot .ready) q none none
  where
  holds := h.holds
  state list j hj _ := by
    have hne : j ≠ idleSlot := fun e => h.idle list (e ▸ hj)
    rw [Scheduler.setState, Scheduler.setProcess_of_ne hne]
    apply h.state list j hj (by simp)
  mem list j hj _ := by
    rw [Scheduler.setState, Scheduler.setProcess_of_ne hj]
    apply h.mem list j hj (by simp)
  running j hj _ := by
    rw [Scheduler.setState, Scheduler.setProcess_of_ne hj, h.running j hj (by simp)]
    simp [Ne.symm hj]
  unused j _ := by
    by_cases e : j = idleSlot
    · simp [e, Scheduler.setState]
    · rw [Scheduler.setState, Scheduler.setProcess_of_ne e]
      apply h.unused j (by simp)
  detached := by simp
  idle := h.idle
  idleState := by simp [Scheduler.setState]
  idlePid := by
    rw [Scheduler.setState, Scheduler.setProcess_self]
    exact h.idlePid
  pageMapRegister := by
    apply h.pageMapRegister.trans
    by_cases e : s.currentProc = idleSlot
    · rw [Scheduler.setState, Scheduler.setProcess_currentProc, e, Scheduler.setProcess_self]
    · rw [Scheduler.setState, Scheduler.setProcess_currentProc, Scheduler.setProcess_of_ne e]
  history := h.history

/-- The state of the current process is `RUNNING` unless it is IDLE. -/
theorem current_state (h : Queued s q (some s.currentProc) none) :
  (s.process s.currentProc).state = .running ∨ (s.process s.currentProc).state = .ready
  := by
  by_cases e : s.currentProc = idleSlot
  · rw [e]
    exact h.idleState
  · apply Or.inl ((h.running s.currentProc e (by simp)).mpr rfl)

/-- The IDLE process of a consistent scheduler is in use. -/
theorem idle_used (h : Queued s q r d) :
  (s.process idleSlot).state ≠ .unused
  := by
  rcases h.idleState with hstate | hstate
  · rw [hstate]
    simp
  · rw [hstate]
    simp

/-- The queues after the current process has left the processor in `Yield`. -/
def yielded (s : Scheduler) (q : Queues) : Queues :=
  if (s.process s.currentProc).pid = idleProcessPid then q
  else q.push .readyProcList s.currentProc

/-- `Yield` with no ready process. -/
theorem yield_nil (h : Queued s q r d) (hempty : q .readyProcList = []) :
  LarvaOS.yield s = some s
  := by
  have hlist : listIsEmpty s.links (.head .readyProcList) :=
    (h.holds.listIsEmpty_iff .readyProcList).mpr hempty
  rw [LarvaOS.yield, if_pos hlist]

/-- `Yield` appends the current process to the ready queue, unless it is IDLE, and
dispatches the first process of the ready queue. -/
theorem yield_cons (h : Queued s q (some s.currentProc) none) (hready : q .readyProcList ≠ []) :
  ∃ s', LarvaOS.yield s = some s' ∧ s'.currentProc = (yielded s q).head
    ∧ SameResources s s' ∧ (∀ i, (s'.process i).waitId = (s.process i).waitId)
    ∧ Queued s' (yielded s q).tail (some (yielded s q).head) none
  := by
  have hlist : ¬ listIsEmpty s.links (.head .readyProcList) := by
    rwa [h.holds.listIsEmpty_iff .readyProcList]
  have hset : SameResources s (s.setState s.currentProc .ready) := by
    rcases h.current_state with hstate | hstate
    · apply SameResources.setProcess <;> simp [hstate, Process.resources]
    · apply SameResources.setProcess <;> simp [hstate, Process.resources]
  have hwait : ∀ i, ((s.setState s.currentProc .ready).process i).waitId
      = (s.process i).waitId := by
    intro i
    by_cases e : i = s.currentProc
    · rw [e, Scheduler.setState, Scheduler.setProcess_self]
    · rw [Scheduler.setState, Scheduler.setProcess_of_ne e]
  have hpid : ((s.setState s.currentProc .ready).process s.currentProc).pid
      = (s.process s.currentProc).pid := hset.pid s.currentProc
  have hstate : ((s.setState s.currentProc .ready).process s.currentProc).state = .ready := by
    rw [Scheduler.setState, Scheduler.setProcess_self]
  unfold LarvaOS.yield yielded
  rw [if_neg hlist]
  simp only [hpid]
  by_cases hidle : (s.process s.currentProc).pid = idleProcessPid
  · rw [if_neg (not_not.mpr hidle), if_pos hidle]
    have hq : Queued (s.setState s.currentProc .ready) q none none := by
      by_cases e : s.currentProc = idleSlot
      · rw [e] at h ⊢
        exact h.idle_ready
      · have hset := (h.detach_running e).setProcess
          (p := { s.process s.currentProc with state := .ready }) (Or.inl rfl)
        apply hset.release
        · rw [Scheduler.setProcess_self]
          simp
        · intro list hlist
          rw [Scheduler.setProcess_self] at hlist ⊢
          exact ⟨ListHead.state_injective (hlist.symm.trans rfl), hidle⟩
        · rw [Scheduler.setProcess_self]
          simp
    obtain ⟨s', hrun, hcurrent, hres, hwait', hq'⟩ := hq.schedule
    use s'
    refine ⟨hrun, hcurrent, hset.trans hres, ?_, hq'⟩
    intro i
    rw [hwait', hwait]
  · rw [if_pos hidle, if_neg hidle]
    have hne : s.currentProc ≠ idleSlot := by
      intro e
      rw [e] at hidle
      exact hidle h.idlePid
    have hq := (h.detach_running hne).setProcess
      (p := { s.process s.currentProc with state := .ready }) (Or.inl rfl)
    obtain ⟨s₁, hpush, hprocess, hres₁, hcurrent₁, hq₁⟩ := hq.attach_ready hstate
    obtain ⟨s', hrun, hcurrent, hres, hwait', hq'⟩ := hq₁.schedule
    use s'
    refine ⟨?_, hcurrent, (hset.trans hres₁).trans hres, ?_, hq'⟩
    · rw [Scheduler.setState, hpush]
      exact hrun
    · intro i
      rw [hwait', Scheduler.process, hprocess]
      exact hwait i

/-- `Sleep` appends the current process to the wait queue and dispatches the first
process of the ready queue. -/
theorem sleep (h : Queued s q (some s.currentProc) none) (hidle : s.currentProc ≠ idleSlot)
    (waitId : Int) :
  ∃ s', LarvaOS.sleep waitId s = some s' ∧ s'.currentProc = q.head ∧ SameResources s s'
    ∧ (∀ i, (s'.process i).waitId = if i = s.currentProc then waitId else (s.process i).waitId)
    ∧ Queued s' (q.push .waitProcList s.currentProc).tail (some q.head) none
  := by
  have hstate := (h.running s.currentProc hidle (by simp)).mpr rfl
  have hq := (h.detach_running hidle).setProcess
    (p := { s.process s.currentProc with state := .sleeping, waitId := waitId }) (Or.inl rfl)
  have hset : SameResources s (s.setProcess s.currentProc
      { s.process s.currentProc with state := .sleeping, waitId := waitId }) := by
    apply SameResources.setProcess <;> simp [hstate, Process.resources]
  obtain ⟨s₁, hpush, hprocess, hres₁, hcurrent₁, hq₁⟩ := hq.attach .waitProcList
    (by rw [Scheduler.setProcess_self]; rfl) (by simp)
  obtain ⟨s', hrun, hcurrent, hres, hwait', hq'⟩ := hq₁.schedule
  use s'
  refine ⟨?_, hcurrent, (hset.trans hres₁).trans hres, ?_, hq'⟩
  · unfold LarvaOS.sleep
    simp only [hpush]
    exact hrun
  · intro i
    rw [hwait', Scheduler.process, hprocess]
    by_cases e : i = s.currentProc
    · rw [if_pos e, e]
      apply congrArg Process.waitId (Scheduler.setProcess_self _ _ _)
    · rw [if_neg e]
      apply congrArg Process.waitId (Scheduler.setProcess_of_ne e _ _)

/-- The processes that wait for `waitId`. -/
def waiting (s : Scheduler) (waitId : Int) (i : Slot) : Bool := (s.process i).waitId = waitId

/-- The loop of `Wakeup`, given that it may wake every process on the wait list. -/
theorem wakeupLoop (waitId : Int) {n : ℕ} (h : Queued s q r none)
    (hn : (q .waitProcList).length < n) :
  ∃ s', LarvaOS.wakeupLoop waitId n s = some s' ∧ s'.currentProc = s.currentProc
    ∧ SameResources s s' ∧ (∀ i, (s'.process i).waitId = (s.process i).waitId)
    ∧ Queued s' (q.wake (waiting s waitId)) r none
  := by
  induction n generalizing s q with
  | zero => cases hn
  | succ n ih =>
      obtain ⟨s₁, hrem, hprocess, hres₁, hcurrent₁, hq₁⟩ :=
        h.remove .waitProcList (by simp) (fun p => p.waitId = waitId)
      have hwaiting : (fun i => decide ((s.process i).waitId = waitId)) = waiting s waitId := rfl
      simp only [hwaiting] at hrem hq₁
      rw [LarvaOS.wakeupLoop, waitListRemoveReadyProcess, hrem]
      cases hfind : (q .waitProcList).find? (waiting s waitId) with
      | none =>
          use s₁
          refine ⟨rfl, hcurrent₁, hres₁, ?_, ?_⟩
          · intro i
            rw [Scheduler.process, hprocess]
          · rw [Queues.wake_of_find_none hfind]
            rw [hfind] at hq₁
            have hsame : q.remove .waitProcList (waiting s waitId) = q := by
              rw [Queues.remove, List.eraseP_of_forall_not, Function.update_eq_self]
              simpa using List.find?_eq_none.mp hfind
            rwa [hsame] at hq₁
      | some i =>
          rw [hfind] at hq₁
          have hmem : i ∈ q .waitProcList := List.mem_of_find?_eq_some hfind
          have hstate : (s.process i).state = .sleeping := h.state _ i hmem (by simp)
          have hstate₁ : (s₁.process i).state = .sleeping := by
            rw [Scheduler.process, hprocess]
            exact hstate
          have hset := hq₁.setProcess (p := { s₁.process i with state := .ready }) (Or.inl rfl)
          have hres₂ : SameResources s₁ (s₁.setState i .ready) := by
            apply SameResources.setProcess <;> simp [hstate₁, Process.resources]
          obtain ⟨s₂, hpush, hprocess₂, hres₃, hcurrent₂, hq₂⟩ :=
            hset.attach_ready (by rw [Scheduler.setProcess_self])
          have hwait : ∀ j, (s₂.process j).waitId = (s.process j).waitId := by
            intro j
            rw [Scheduler.process, hprocess₂]
            by_cases e : j = i
            · rw [e]
              apply (congrArg Process.waitId (Scheduler.setProcess_self _ _ _)).trans
              rw [Scheduler.process, hprocess]
            · apply (congrArg Process.waitId (Scheduler.setProcess_of_ne e _ _)).trans
              rw [Scheduler.process, hprocess]
          have hlen : ((q.remove .waitProcList (waiting s waitId)).push .readyProcList i
              .waitProcList).length < n := by
            rw [Queues.push_of_ne (by simp), Queues.remove_self]
            have hpos : 0 < (q .waitProcList).length := List.length_pos_of_mem hmem
            rw [List.length_eraseP_of_mem hmem (List.find?_some hfind)]
            omega
          obtain ⟨s', hrun, hcurrent, hres, hwait', hq'⟩ := ih hq₂ hlen
          use s'
          refine ⟨?_, ?_, ((hres₁.trans hres₂).trans hres₃).trans hres, ?_, ?_⟩
          · simp only [Option.map_some, Option.bind_eq_bind, Option.bind_some, Scheduler.setState,
              hpush]
            exact hrun
          · rw [hcurrent, hcurrent₂, Scheduler.setProcess_currentProc, hcurrent₁]
          · intro j
            rw [hwait', hwait]
          · have heq : waiting s₂ waitId = waiting s waitId := by
              funext j
              rw [waiting, waiting, hwait]
            rw [heq, Queues.wake_remove hfind] at hq'
            exact hq'

/-- `Wakeup` moves the processes that wait for the id to the ready queue, in their
order. -/
theorem wakeup (h : Queued s q r none) (waitId : Int) :
  ∃ s', LarvaOS.wakeup waitId s = some s' ∧ s'.currentProc = s.currentProc
    ∧ SameResources s s' ∧ (∀ i, (s'.process i).waitId = (s.process i).waitId)
    ∧ Queued s' (q.wake (waiting s waitId)) r none
  := wakeupLoop waitId h (Nat.lt_succ_of_le (h.holds.length_le .waitProcList))

/-- The queues after `Exit` has pushed the current process onto the kill list and woken
the processes in `Wait`. -/
def exited (s : Scheduler) (q : Queues) : Queues :=
  (q.push .killProcList s.currentProc).wake (waiting s initProcessWaitId)

/-- `Exit` appends the current process to the kill queue, wakes the processes that wait
for a killed process, and dispatches the first process of the ready queue. -/
theorem exit (h : Queued s q (some s.currentProc) none) (hidle : s.currentProc ≠ idleSlot) :
  ∃ s', LarvaOS.exit s = some s' ∧ s'.currentProc = (exited s q).head ∧ SameResources s s'
    ∧ (∀ i, (s'.process i).waitId = (s.process i).waitId)
    ∧ Queued s' (exited s q).tail (some (exited s q).head) none
  := by
  have hstate := (h.running s.currentProc hidle (by simp)).mpr rfl
  have hq := (h.detach_running hidle).setProcess
    (p := { s.process s.currentProc with state := .killed }) (Or.inl rfl)
  have hset : SameResources s (s.setState s.currentProc .killed) := by
    apply SameResources.setProcess <;> simp [hstate, Process.resources]
  obtain ⟨s₁, hpush, hprocess, hres₁, hcurrent₁, hq₁⟩ := hq.attach .killProcList
    (by rw [Scheduler.setProcess_self]; rfl) (by simp)
  have hwait₁ : ∀ i, (s₁.process i).waitId = (s.process i).waitId := by
    intro i
    rw [Scheduler.process, hprocess]
    by_cases e : i = s.currentProc
    · rw [e]
      apply congrArg Process.waitId (Scheduler.setProcess_self _ _ _)
    · apply congrArg Process.waitId (Scheduler.setProcess_of_ne e _ _)
  have hwaiting : waiting s₁ initProcessWaitId = waiting s initProcessWaitId := by
    funext i
    rw [waiting, waiting, hwait₁]
  obtain ⟨s₂, hwake, hcurrent₂, hres₂, hwait₂, hq₂⟩ := hq₁.wakeup initProcessWaitId
  rw [hwaiting] at hq₂
  obtain ⟨s', hrun, hcurrent, hres, hwait', hq'⟩ := hq₂.schedule
  use s'
  refine ⟨?_, hcurrent, ((hset.trans hres₁).trans hres₂).trans hres, ?_, hq'⟩
  · unfold LarvaOS.exit
    simp only [Scheduler.setState, hpush, Option.bind_eq_bind, Option.bind_some, hwake]
    exact hrun
  · intro i
    rw [hwait', hwait₂, hwait₁]

/-! ### Unused slots -/

/-- The history counters are not part of the queues. -/
theorem congr {s' : Scheduler} (h : Queued s q r d) (hprocess : s'.processManager = s.processManager)
    (hlinks : s'.links = s.links) (hcurrent : s'.currentProc = s.currentProc)
    (hcr3 : s'.cr3 = s.cr3) (htrace : s'.trace = s.trace) :
  Queued s' q r d
  := by
  have hprocess' : ∀ j, s'.process j = s.process j := congrFun hprocess
  constructor
  · rw [hlinks]
    exact h.holds
  · simpa only [hprocess'] using h.state
  · simpa only [hprocess'] using h.mem
  · simpa only [hprocess'] using h.running
  · simpa only [hprocess'] using h.unused
  · exact h.detached
  · exact h.idle
  · simpa only [hprocess'] using h.idleState
  · simpa only [hprocess'] using h.idlePid
  · simpa only [hprocess', hcr3, hcurrent] using h.pageMapRegister
  · rw [htrace]
    exact h.history

/-- An unused slot is not IDLE, not running and on no list. -/
theorem detach_unused (h : Queued s q r none) (hi : (s.process i).state = .unused) :
  Queued s q r (some i)
  := by
  have hidle : i ≠ idleSlot := by
    rintro rfl
    rcases h.idleState with hstate | hstate
    · cases hi.symm.trans hstate
    · cases hi.symm.trans hstate
  apply h.detach hidle
  · intro hr
    cases hi.symm.trans ((h.running i hidle (by simp)).mpr hr)
  · apply h.not_mem
    intro list hlist
    apply list.state_ne_unused
    rw [← hlist, hi]

/-- The detached process is cleared. -/
theorem clear (h : Queued s q r (some i)) (hi : i ≠ s.currentProc) :
  Queued (s.clearProcess i) q r none
  := by
  have hset := (h.setProcess (p := Process.zero) (Or.inr hi))
  have hself : (s.setProcess i Process.zero).process i = Process.zero :=
    Scheduler.setProcess_self s i Process.zero
  have hrelease : Queued (s.setProcess i Process.zero) q r none := by
    apply hset.release
    · rw [hself]
      simp [Process.zero]
    · intro list hlist
      rw [hself] at hlist
      exact absurd hlist.symm list.state_ne_unused
    · intro _
      exact hself
  exact {
    holds := hrelease.holds.clear (h.detached i rfl).2.2
    state := hrelease.state
    mem := hrelease.mem
    running := hrelease.running
    unused := hrelease.unused
    detached := hrelease.detached
    idle := hrelease.idle
    idleState := hrelease.idleState
    idlePid := hrelease.idlePid
    pageMapRegister := hrelease.pageMapRegister
    history := hrelease.history }

end Queued

/-- The slot that `FindFreeProcessSlot` finds is unused. -/
theorem state_of_findFreeProcessSlot {s : Scheduler} {i : Slot}
    (h : findFreeProcessSlot s = some i) :
  (s.process i).state = .unused
  := by
  simpa using List.find?_some h

/-- `FindFreeProcessSlot` finds an unused slot if there is one. -/
theorem findFreeProcessSlot_eq_none {s : Scheduler} :
  findFreeProcessSlot s = none ↔ ∀ i, (s.process i).state ≠ .unused
  := by
  unfold findFreeProcessSlot
  simp

end LarvaOS
