import LarvaOS.Kernel.Quiet

/-!
# Runs of the scheduler

What holds in every state of a run of the system: the states of the processes agree with
the lists, and the pids in use differ as long as the counter of pids does not overflow.
-/

namespace LarvaOS

open Linked

variable {image : Image}

/-! ### Pids -/

/-- The counter of pids and the pids in use. -/
structure Pids (s : Scheduler) : Prop where
  pidNum : s.pidNum = s.created + 1
  idle : (s.process idleSlot).pid = idleProcessPid
  bound : ∀ i, i ≠ idleSlot → (s.process i).state ≠ .unused →
    0 < (s.process i).pid ∧ (s.process i).pid ≤ s.created
  injective : ∀ i j, i ≠ idleSlot → j ≠ idleSlot → (s.process i).state ≠ .unused →
    (s.process j).state ≠ .unused → (s.process i).pid = (s.process j).pid → i = j

/-- The pids differ as long as fewer than `2 ^ 31 - 1` processes have been created. -/
def DistinctPids (s : Scheduler) : Prop := s.created < 2 ^ 31 - 1 → Pids s

/-- The processes of `s'` are processes of `s`. -/
structure OldPids (s s' : Scheduler) : Prop where
  pidNum : s'.pidNum = s.pidNum
  created : s'.created = s.created
  pid : ∀ i, (s'.process i).state ≠ .unused →
    (s.process i).state ≠ .unused ∧ (s'.process i).pid = (s.process i).pid

variable {s s' : Scheduler}

theorem SameResources.oldPids (h : SameResources s s') :
  OldPids s s'
  where
  pidNum := h.pidNum
  created := h.created
  pid i hi := ⟨fun hu => hi ((h.unused i).mpr hu), h.pid i⟩

theorem OnlyFiles.oldPids (h : OnlyFiles s s') :
  OldPids s s'
  where
  pidNum := h.pidNum
  created := h.created
  pid i hi := ⟨h.state i ▸ hi, h.pid i⟩

theorem OldPids.trans {s'' : Scheduler} (h : OldPids s s') (h' : OldPids s' s'') :
  OldPids s s''
  where
  pidNum := h'.pidNum.trans h.pidNum
  created := h'.created.trans h.created
  pid i hi := by
    obtain ⟨hi', hpid⟩ := h'.pid i hi
    obtain ⟨hi'', hpid'⟩ := h.pid i hi'
    exact ⟨hi'', hpid.trans hpid'⟩

theorem OldPids.distinct (h : OldPids s s') (hidle : (s'.process idleSlot).state ≠ .unused)
    (hd : DistinctPids s) :
  DistinctPids s'
  := by
  intro hlt
  rw [h.created] at hlt
  have hs := hd hlt
  constructor
  · rw [h.pidNum, h.created]
    exact hs.pidNum
  · rw [(h.pid idleSlot hidle).2]
    exact hs.idle
  · intro i hi hused
    obtain ⟨hused', hpid⟩ := h.pid i hused
    rw [hpid, h.created]
    exact hs.bound i hi hused'
  · intro i j hi hj hused hused' heq
    obtain ⟨hold, hpid⟩ := h.pid i hused
    obtain ⟨hold', hpid'⟩ := h.pid j hused'
    rw [hpid, hpid'] at heq
    exact hs.injective i j hi hj hold hold' heq

/-- A new process gets a new pid. -/
theorem Grown.distinct {new : Option Slot} (h : Grown s s' new)
    (hnew : ∀ i, new = some i → i ≠ idleSlot) (hd : DistinctPids s) :
  DistinctPids s'
  := by
  intro hlt
  have hidle : s'.process idleSlot = s.process idleSlot :=
    h.process idleSlot (fun e => hnew idleSlot e rfl)
  rcases h.counters with ⟨rfl, hpid, hcreated⟩ | ⟨hpid, hcreated⟩
  · have hprocess : ∀ i, s'.process i = s.process i := fun i => h.process i (by simp)
    rw [hcreated] at hlt
    have hs := hd hlt
    constructor
    · rw [hpid, hcreated]
      exact hs.pidNum
    · rw [hidle]
      exact hs.idle
    · intro i hi
      rw [hprocess, hcreated]
      exact hs.bound i hi
    · intro i j hi hj
      rw [hprocess, hprocess]
      exact hs.injective i j hi hj
  · rw [hcreated] at hlt
    have hs := hd (Nat.lt_of_succ_lt hlt)
    have hpidNum := hs.pidNum
    have hold : ∀ i, i ≠ idleSlot → (s'.process i).state ≠ .unused → new ≠ some i →
        0 < (s'.process i).pid ∧ (s'.process i).pid ≤ s.created := by
      intro i hi hused hne
      rw [h.process i hne] at hused ⊢
      exact hs.bound i hi hused
    have hfresh : ∀ i, new = some i → (s'.process i).pid = s.created + 1 := by
      intro i hi
      rw [h.pid i hi, hpidNum]
    constructor
    · rw [hpid, hpidNum, hcreated]
      rw [int32_of_range (by omega) (by omega)]
      push_cast
      ring
    · rw [hidle]
      exact hs.idle
    · intro i hi hused
      rw [hcreated]
      by_cases hne : new = some i
      · rw [hfresh i hne]
        omega
      · have hb := hold i hi hused hne
        omega
    · intro i j hi hj hused hused' heq
      by_cases hne : new = some i
      · by_cases hne' : new = some j
        · exact Option.some.inj (hne.symm.trans hne')
        · have hb := hold j hj hused' hne'
          rw [hfresh i hne] at heq
          omega
      · by_cases hne' : new = some j
        · have hb := hold i hi hused hne
          rw [hfresh j hne'] at heq
          omega
        · rw [h.process i hne] at hused heq
          rw [h.process j hne'] at hused' heq
          exact hs.injective i j hi hj hused hused' heq

/-- A step changes no pid, or makes a new process, or removes one. -/
theorem SchedulerStep.pids {k k' : Kernel} {q : Queues} {op : Operation} (h : SchedulerStep image op k k')
    (hq : Queued k.scheduler q (some k.currentProc) none) :
  OldPids k.scheduler k'.scheduler ∨ ∃ new, Grown k.scheduler k'.scheduler new
    ∧ ∀ i, new = some i → i ≠ idleSlot
  := by
  cases h with
  | yield h =>
      left
      by_cases hready : q .readyProcList = []
      · rw [← Option.some.inj ((hq.yield_nil hready).symm.trans h)]
        exact (SameResources.refl _).oldPids
      · obtain ⟨s', hrun, _, hres, _⟩ := hq.yield_cons hready
        obtain rfl := Option.some.inj (hrun.symm.trans h)
        exact hres.oldPids
  | wakeup waitId h =>
      left
      obtain ⟨s', hrun, _, hres, _⟩ := hq.wakeup waitId
      obtain rfl := Option.some.inj (hrun.symm.trans h)
      exact hres.oldPids
  | sleep waitId hop hidle h =>
      left
      obtain ⟨s', hrun, _, hres, _⟩ := hq.sleep hidle waitId
      obtain rfl := Option.some.inj (hrun.symm.trans h)
      exact hres.oldPids
  | files h => exact Or.inl h.oldPids
  | exit s hidle hs h =>
      left
      have hqs := hs.queued hq
      rw [Kernel.currentProc, ← hs.currentProc] at hqs
      obtain ⟨s', hrun, _, hres, _⟩ := hqs.exit (by rwa [hs.currentProc])
      obtain rfl := Option.some.inj (hrun.symm.trans h)
      exact hs.oldPids.trans hres.oldPids
  | wait pid hop hidle h =>
      left
      rcases hq.wait h with ⟨i, _, _, _, hzero, hothers, hpid, hcreated, _⟩ | ⟨_, s, hsleep, rfl⟩
      · refine ⟨hpid, hcreated, ?_⟩
        intro j hj
        by_cases e : j = i
        · rw [e] at hj
          exact absurd (congrArg Process.state hzero) hj
        · have hsame : k'.scheduler.process j = k.scheduler.process j := hothers j e
          rw [hsame] at hj ⊢
          exact ⟨hj, rfl⟩
      · obtain ⟨s', hrun, _, hres, _⟩ := hq.sleep hidle initProcessWaitId
        obtain rfl := Option.some.inj (hrun.symm.trans hsleep)
        exact hres.oldPids
  | fork ret hidle h =>
      right
      obtain ⟨new, hgrown, _⟩ := hq.fork h
      refine ⟨new, hgrown, ?_⟩
      rintro i hi rfl
      have hunused := hgrown.unused idleSlot hi
      rcases hq.idleState with hstate | hstate
      · rw [hstate] at hunused
        cases hunused
      · rw [hstate] at hunused
        cases hunused

/-- Every step keeps the pids apart. -/
theorem SchedulerStep.distinct {k k' : Kernel} {op : Operation} (h : SchedulerStep image op k k')
    (hq : Consistent k.scheduler) (hd : DistinctPids k.scheduler) :
  DistinctPids k'.scheduler
  := by
  obtain ⟨q', hq'⟩ := h.consistent hq
  obtain ⟨q, hq⟩ := hq
  rcases h.pids hq with hold | ⟨new, hgrown, hnew⟩
  · exact hold.distinct hq'.idle_used hd
  · exact hgrown.distinct hnew hd

/-- The pids differ when only IDLE runs. -/
theorem idle_distinct (cr3 : Fin (2 ^ 64)) :
  DistinctPids (Scheduler.idle cr3)
  := by
  intro _
  have hprocess : ∀ i, i ≠ idleSlot → ((Scheduler.idle cr3).process i).state = .unused := by
    intro i hi
    rw [idle_process_of_ne cr3 hi]
    rfl
  constructor
  · rfl
  · rw [idle_process_self]
  · exact fun i hi hused => absurd (hprocess i hi) hused
  · exact fun i j hi _ hused => absurd (hprocess i hi) hused

/-- The pids differ in every state of a run. -/
theorem Reachable.distinct {Ok : Operation → Kernel → Prop} {cr3 : Fin (2 ^ 64)} {m : Memory}
    {files : FileSystem} {k₀ k : Kernel} (hok : ∀ op k, Ok op k → Allowed op k)
    (h₀ : initProcess image ⟨m, files, Scheduler.initial cr3⟩ = some k₀)
    (h : Reachable (Kernel.step image) Ok k₀ k) :
  Consistent k.scheduler ∧ DistinctPids k.scheduler
  := by
  apply h.invariant (P := fun k => Consistent k.scheduler ∧ DistinctPids k.scheduler)
  · rintro op k₁ k₂ ⟨hq, hd⟩ hop hstep
    obtain ⟨q, hqueued⟩ := hq
    have hcases := Kernel.step_cases hqueued.current_used (hok op k₁ hop) hstep
    exact ⟨hcases.consistent ⟨q, hqueued⟩, hcases.distinct ⟨q, hqueued⟩ hd⟩
  · obtain ⟨i, hgrown, hq, _⟩ := initProcess_spec h₀
    refine ⟨initProcess_consistent h₀, hgrown.distinct ?_ (idle_distinct cr3)⟩
    rintro j hj rfl
    have hunused := hgrown.unused idleSlot hj
    rw [idle_process_self] at hunused
    cases hunused

/-! ### The states of the processes and the lists -/

/-- The states of the processes agree with the three lists. -/
structure SchedulerInvariant (s : Scheduler) (q : Queues) : Prop where
  lists : ∀ list, Represents s.links (.head list) ((q list).map .proc)
  ready : ∀ i, i ≠ idleSlot → ((s.process i).state = .ready ↔ i ∈ q .readyProcList)
  sleeping : ∀ i, i ≠ idleSlot → ((s.process i).state = .sleeping ↔ i ∈ q .waitProcList)
  killed : ∀ i, i ≠ idleSlot → ((s.process i).state = .killed ↔ i ∈ q .killProcList)
  running : ∀ i, i ≠ idleSlot → ((s.process i).state = .running ↔ i = s.currentProc)
  nodup : (q .readyProcList ++ (q .waitProcList ++ q .killProcList)).Nodup
  unused : ∀ i, (s.process i).state = .unused ∨ (s.process i).state = .initialized →
    ∀ list, i ∉ q list
  idle : (∀ list, idleSlot ∉ q list) ∧ (s.process idleSlot).state ≠ .unused
  pids : ∀ i j, i ≠ j → (s.process i).state ≠ .unused → (s.process j).state ≠ .unused →
    (s.process i).pid ≠ (s.process j).pid

/-- The lists have no process in common. -/
theorem Holds.nodup_lists {l : Links ListNode} {q : Queues} (h : Holds l q) :
  (q .readyProcList ++ (q .waitProcList ++ q .killProcList)).Nodup
  := by
  have hapart : ∀ list list', list ≠ list' → ∀ i ∈ q list, ∀ j ∈ q list', i ≠ j := by
    rintro list list' hne i hi j hj rfl
    exact hne (h.disjoint list list' i hi hj)
  rw [List.nodup_append, List.nodup_append]
  refine ⟨h.nodup _, ⟨h.nodup _, h.nodup _, hapart _ _ (by simp)⟩, ?_⟩
  intro i hi j hj
  rcases List.mem_append.mp hj with hj | hj
  · exact hapart _ _ (by simp) i hi j hj
  · exact hapart _ _ (by simp) i hi j hj

/-- In a consistent scheduler with distinct pids the states agree with the lists. -/
theorem Queued.invariant {q : Queues} (h : Queued s q (some s.currentProc) none) (hp : Pids s) :
  SchedulerInvariant s q
  := by
  have hlist : ∀ list : ListHead, ∀ i, i ≠ idleSlot →
      ((s.process i).state = list.state ↔ i ∈ q list) := by
    intro list i hi
    constructor
    · intro hstate
      rcases h.mem list i hi (by simp) hstate with hmem | ⟨rfl, hpid⟩
      · exact hmem
      · have hused : (s.process i).state ≠ .unused := by
          rw [hstate]
          exact ListHead.state_ne_unused _
        have hpos := (hp.bound i hi hused).1
        rw [hpid, idleProcessPid] at hpos
        omega
    · exact fun hmem => h.state list i hmem (by simp)
  constructor
  · exact h.holds.represents
  · exact hlist .readyProcList
  · exact hlist .waitProcList
  · exact hlist .killProcList
  · intro i hi
    rw [h.running i hi (by simp)]
    constructor
    · exact fun e => (Option.some.inj e).symm
    · exact fun e => congrArg some e.symm
  · exact h.holds.nodup_lists
  · intro i hi
    apply h.not_mem
    rintro list hstate
    rcases hi with hi | hi
    · rw [hi] at hstate
      exact list.state_ne_unused hstate.symm
    · rw [hi] at hstate
      exact list.state_ne_initialized hstate.symm
  · exact ⟨h.idle, h.idle_used⟩
  · intro i j hij hi hj heq
    have hidle : (s.process idleSlot).pid = 0 := hp.idle
    by_cases ei : i = idleSlot
    · have ej : j ≠ idleSlot := fun e => hij (ei.trans e.symm)
      have hpos := (hp.bound j ej hj).1
      rw [ei] at heq
      omega
    · by_cases ej : j = idleSlot
      · have hpos := (hp.bound i ei hi).1
        rw [ej] at heq
        omega
      · exact hij (hp.injective i j ei ej hi hj heq)

/-- The states agree with the lists in every state of a run. -/
theorem reachable_schedulerInvariant {cr3 : Fin (2 ^ 64)} {m : Memory} {files : FileSystem}
    {k₀ k : Kernel} (h₀ : initProcess image ⟨m, files, Scheduler.initial cr3⟩ = some k₀)
    (h : Reachable (Kernel.step image) Allowed k₀ k) (hcreated : k.scheduler.created < 2 ^ 31 - 1) :
  ∃ q, SchedulerInvariant k.scheduler q
  := by
  obtain ⟨⟨q, hq⟩, hd⟩ := Reachable.distinct (fun _ _ hop => hop) h₀ h
  exact ⟨q, hq.invariant (hd hcreated)⟩

/-- The states agree with the lists when the shell has made a child that exits, and reaped it. -/
theorem reachable_schedulerInvariant_small :
  ∃ k₀ k, kMain smallImage (smallMachine 64) = some k₀
    ∧ Run (Kernel.step smallImage) (Admitted smallImage) k₀
      [.yield, .fork, .yield, .exit, .wait 2] k
    ∧ k.currentProc = 1 ∧ ∃ q, SchedulerInvariant k.scheduler q
  := by
  obtain ⟨k₀, k, _, hboot, hrun, _, hcurrent, hcreated⟩ := smallMachine_reaps
  obtain ⟨m, files, cr3, h₀⟩ := kMain_initProcess hboot
  use k₀, k, hboot, hrun, hcurrent
  apply reachable_schedulerInvariant h₀ (hrun.reachable.mono fun _ _ hok => hok.1)
  rw [hcreated]
  decide

/-! ### The order of dispatches -/

/-- The process that an event pushes onto the ready list. -/
def SchedulerEvent.pushedSlot : SchedulerEvent → Option Slot
  | .push i => some i
  | .dispatch _ => none

/-- The process other than IDLE that an event dispatches. -/
def SchedulerEvent.dispatchedSlot : SchedulerEvent → Option Slot
  | .push _ => none
  | .dispatch i => if i = idleSlot then none else some i

/-- The pushes onto the ready list in a history. -/
def pushed (t : List SchedulerEvent) : List Slot := t.filterMap SchedulerEvent.pushedSlot

/-- The dispatches of processes other than IDLE in a history. -/
def dispatched (t : List SchedulerEvent) : List Slot := t.filterMap SchedulerEvent.dispatchedSlot

/-- The dispatches of a history, followed by the queue that it leaves, are the queue
before and the pushes. -/
theorem replay_eq_some {q q' : List Slot} {t : List SchedulerEvent} (hidle : idleSlot ∉ q)
    (h : replay q t = some q') :
  q ++ pushed t = dispatched t ++ q' ∧ idleSlot ∉ q'
  := by
  induction t generalizing q with
  | nil =>
      obtain rfl := Option.some.inj h
      exact ⟨List.append_nil q, hidle⟩
  | cons e t ih =>
      cases e with
      | push i =>
          rw [replay] at h
          split at h
          · cases h
          next hi =>
            obtain ⟨heq, hmem⟩ := ih (by simp [hidle, Ne.symm hi]) h
            refine ⟨?_, hmem⟩
            rw [List.append_assoc] at heq
            exact heq
      | dispatch i =>
          cases q with
          | nil =>
              rw [replay] at h
              split at h
              next hi =>
                obtain ⟨heq, hmem⟩ := ih hidle h
                refine ⟨?_, hmem⟩
                subst hi
                exact heq
              · cases h
          | cons j q =>
              rw [replay] at h
              split at h
              next hi =>
                subst hi
                obtain ⟨hj, hq⟩ := List.ne_and_not_mem_of_not_mem_cons hidle
                obtain ⟨heq, hmem⟩ := ih hq h
                refine ⟨?_, hmem⟩
                have hsome : (SchedulerEvent.dispatch j).dispatchedSlot = some j :=
                  if_neg (Ne.symm hj)
                rw [dispatched, List.filterMap_cons_some hsome, List.cons_append]
                exact congrArg (List.cons j) heq
              · cases h

/-- When a history dispatches IDLE, the queue is empty. -/
theorem replay_dispatch_idle {q q' : List Slot} {t t' : List SchedulerEvent} (hidle : idleSlot ∉ q)
    (h : replay q (t ++ .dispatch idleSlot :: t') = some q') :
  replay q t = some []
  := by
  rw [replay_append] at h
  obtain ⟨q₁, hq₁, h⟩ := Option.bind_eq_some_iff.mp h
  obtain ⟨_, hmem⟩ := replay_eq_some hidle hq₁
  cases q₁ with
  | nil => exact hq₁
  | cons i q₁ =>
      rw [replay] at h
      split at h
      next hi => exact absurd (hi ▸ List.mem_cons_self) hmem
      · cases h

/-- In every state of a run the processes dispatched so far and the ready list are the
pushes so far, and IDLE has been dispatched only when every push had been dispatched. -/
theorem reachable_roundRobin {cr3 : Fin (2 ^ 64)} {m : Memory} {files : FileSystem}
    {k₀ k : Kernel} (h₀ : initProcess image ⟨m, files, Scheduler.initial cr3⟩ = some k₀)
    (h : Reachable (Kernel.step image) Allowed k₀ k) :
  (∃ ready : List Slot, Represents k.scheduler.links (.head .readyProcList) (ready.map .proc)
      ∧ pushed k.scheduler.trace = dispatched k.scheduler.trace ++ ready)
    ∧ dispatched k.scheduler.trace <+: pushed k.scheduler.trace
    ∧ ∀ t t', k.scheduler.trace = t ++ .dispatch idleSlot :: t' → pushed t = dispatched t
  := by
  obtain ⟨⟨q, hq⟩, _⟩ := Reachable.distinct (fun _ _ hop => hop) h₀ h
  obtain ⟨heq, _⟩ := replay_eq_some List.not_mem_nil hq.history
  rw [List.nil_append] at heq
  refine ⟨⟨q .readyProcList, hq.holds.represents _, heq⟩, ⟨_, heq.symm⟩, ?_⟩
  intro t t' htrace
  have hhistory := hq.history
  rw [htrace] at hhistory
  obtain ⟨heq', _⟩ := replay_eq_some List.not_mem_nil
    (replay_dispatch_idle List.not_mem_nil hhistory)
  rwa [List.nil_append, List.append_nil] at heq'

/-- The processes are dispatched in the order of the pushes when the shell has made a child that
exits, and reaped it. -/
theorem reachable_roundRobin_small :
  ∃ k₀ k, kMain smallImage (smallMachine 64) = some k₀
    ∧ Run (Kernel.step smallImage) (Admitted smallImage) k₀
      [.yield, .fork, .yield, .exit, .wait 2] k
    ∧ k.currentProc = 1 ∧ dispatched k.scheduler.trace <+: pushed k.scheduler.trace
  := by
  obtain ⟨k₀, k, _, hboot, hrun, _, hcurrent, _⟩ := smallMachine_reaps
  obtain ⟨m, files, cr3, h₀⟩ := kMain_initProcess hboot
  exact ⟨k₀, k, hboot, hrun, hcurrent,
    (reachable_roundRobin h₀ (hrun.reachable.mono fun _ _ hok => hok.1)).2.1⟩

end LarvaOS
