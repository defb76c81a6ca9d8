import LarvaOS.Kernel.Steps
import LarvaOS.Library.Reachable

/-!
# Starting the scheduler

`InitProcess` makes the code that runs the IDLE process and puts the shell on the ready
list, so it leaves a consistent scheduler with two processes.
-/

namespace LarvaOS

open Linked

variable {image : Image}

/-- The scheduler after `InitIDLEProcess`. -/
def Scheduler.idle (cr3 : Fin (2 ^ 64)) : Scheduler :=
  { (Scheduler.initial cr3).setProcess idleSlot { Process.zero with
      pid := idleProcessPid
      pageMap := phyToVir cr3
      state := .running } with
    currentProc := idleSlot }

theorem initIDLEProcess_eq (cr3 : Fin (2 ^ 64)) :
  initIDLEProcess (Scheduler.initial cr3) = some (Scheduler.idle cr3)
  := by
  have hfind : findFreeProcessSlot (Scheduler.initial cr3) = some idleSlot := rfl
  unfold initIDLEProcess
  rw [hfind]
  rfl

theorem idle_process_self (cr3 : Fin (2 ^ 64)) :
  (Scheduler.idle cr3).process idleSlot
    = { Process.zero with
        pid := idleProcessPid
        pageMap := phyToVir cr3
        state := .running }
  := Scheduler.setProcess_self _ _ _

theorem idle_process_of_ne (cr3 : Fin (2 ^ 64)) {i : Slot} (hi : i ≠ idleSlot) :
  (Scheduler.idle cr3).process i = Process.zero
  := Scheduler.setProcess_of_ne hi _ _

/-- Empty lists hold empty queues. -/
theorem holds_initial (cr3 : Fin (2 ^ 64)) :
  Holds (Scheduler.initial cr3).links (fun _ => [])
  where
  represents _ := ⟨rfl, rfl, by simp⟩
  disjoint _ _ _ h := absurd h List.not_mem_nil

/-- The page map register holds the physical address of the page map. -/
theorem switchVM_phyToVir {p : ℕ} (hp : p < 2 ^ 64) :
  switchVM (phyToVir p) = p
  := by
  unfold switchVM virToPhy phyToVir
  rw [kernelVirtualAddressBase_eq]
  omega

/-- After `InitIDLEProcess` the IDLE process runs and the queues are empty. -/
theorem queued_idle (cr3 : Fin (2 ^ 64)) :
  Queued (Scheduler.idle cr3) (fun _ => []) (some idleSlot) none
  where
  holds := holds_initial cr3
  state _ _ h := absurd h List.not_mem_nil
  mem list i hi _ hstate := by
    rw [idle_process_of_ne cr3 hi] at hstate
    exact absurd hstate.symm list.state_ne_unused
  running i hi _ := by
    rw [idle_process_of_ne cr3 hi]
    constructor
    · intro h
      cases h
    · intro h
      exact absurd (Option.some.inj h).symm hi
  unused i _ hstate := by
    apply idle_process_of_ne
    rintro rfl
    rw [idle_process_self] at hstate
    cases hstate
  detached := by simp
  idle _ := List.not_mem_nil
  idleState := by
    rw [idle_process_self]
    exact Or.inl rfl
  idlePid := by
    rw [idle_process_self]
  pageMapRegister := by
    have hpage : ((Scheduler.idle cr3).process (Scheduler.idle cr3).currentProc).pageMap
        = phyToVir cr3 := congrArg Process.pageMap (idle_process_self cr3)
    rw [hpage, switchVM_phyToVir cr3.isLt]
    rfl
  history := rfl

/-- The steps of `InitShellProcess`. -/
theorem initShellProcess_cases {k k' : Kernel} (h : initShellProcess image k = some k') :
  ∃ i k₁ m s, createNewProcess image k = some (some i, k₁)
    ∧ setupUVM image (k₁.process i).pageMap (phyToVir userInitProcessAddressBase)
      sizeOfInitProccess k₁.memory = some (true, m)
    ∧ (k₁.scheduler.setState i .ready).pushReady i = some s
    ∧ k' = { k₁ with memory := m, scheduler := s }
  := by
  obtain ⟨⟨new, k₁⟩, hcreate, h⟩ := Option.bind_eq_some_iff.mp h
  obtain ⟨i, hi, h⟩ := Option.bind_eq_some_iff.mp h
  obtain ⟨⟨status, m⟩, hsetup, h⟩ := Option.bind_eq_some_iff.mp h
  obtain ⟨_, hstatus, h⟩ := Option.bind_eq_some_iff.mp h
  obtain ⟨s, hpush, h⟩ := Option.bind_eq_some_iff.mp h
  use i, k₁, m, s
  refine ⟨?_, ?_, hpush, (Option.some.inj h).symm⟩
  · rw [hcreate]
    exact congrArg (fun new => some (new, k₁)) hi
  · rw [hsetup]
    exact congrArg (fun status => some (status, m)) (assert_eq_some.mp hstatus)

/-- After `InitProcess` the shell is ready and the IDLE process runs. -/
theorem initProcess_spec {cr3 : Fin (2 ^ 64)} {m : Memory} {files : FileSystem} {k : Kernel}
    (h : initProcess image ⟨m, files, Scheduler.initial cr3⟩ = some k) :
  ∃ i, Grown (Scheduler.idle cr3) k.scheduler (some i)
    ∧ Queued k.scheduler (Queues.push (fun _ => []) .readyProcList i) (some idleSlot) none
    ∧ k.files = files ∧ (k.process i).state = .ready ∧ (k.process i).file = fun _ => none
  := by
  unfold initProcess at h
  rw [initIDLEProcess_eq, Option.bind_eq_bind, Option.bind_some] at h
  obtain ⟨i, k₁, m', s, hcreate, _, hpush, rfl⟩ := initShellProcess_cases h
  obtain ⟨hfiles, hgrown, hq₁, hnew⟩ :=
    Queued.createNewProcess (k := ⟨m, files, Scheduler.idle cr3⟩) (queued_idle cr3) hcreate
  have hset := hq₁.setProcess (p := { k₁.process i with state := .ready }) (Or.inl rfl)
  obtain ⟨s', hrun, hprocess, hres, hcurrent, hq'⟩ := hset.attach_ready
    (congrArg Process.state (Scheduler.setProcess_self _ _ _))
  obtain rfl := Option.some.inj (hpush.symm.trans hrun)
  have hself : s.process i = { k₁.process i with state := .ready } :=
    (congrFun hprocess i).trans (Scheduler.setProcess_self _ _ _)
  refine ⟨i, ⟨?_, ?_, ?_, ?_, ?_, ?_⟩, hq', hfiles, ?_, ?_⟩
  · exact hcurrent.trans hgrown.currentProc
  · intro j hj
    have hne : j ≠ i := fun e => hj (congrArg some e.symm)
    exact ((congrFun hprocess j).trans (Scheduler.setProcess_of_ne hne _ _)).trans
      (hgrown.process j hj)
  · exact hgrown.unused
  · intro j hj
    obtain rfl := Option.some.inj hj
    exact (congrArg Process.pid hself).trans (hgrown.pid i rfl)
  · intro j hj hstate
    obtain rfl := Option.some.inj hj
    cases (congrArg Process.state hself).symm.trans hstate
  · rcases hgrown.counters with ⟨hnone, _⟩ | ⟨hpid, hcreated⟩
    · cases hnone
    · exact Or.inr ⟨hres.pidNum.trans hpid, hres.created.trans hcreated⟩
  · exact congrArg Process.state hself
  · exact (congrArg Process.file hself).trans (hnew i rfl).2

/-- `InitProcess` leaves a consistent scheduler. -/
theorem initProcess_consistent {cr3 : Fin (2 ^ 64)} {m : Memory} {files : FileSystem}
    {k : Kernel} (h : initProcess image ⟨m, files, Scheduler.initial cr3⟩ = some k) :
  Consistent k.scheduler
  := by
  obtain ⟨i, hgrown, hq, _⟩ := initProcess_spec h
  exact hq.consistent (congrArg some hgrown.currentProc.symm)

/-- The scheduler is consistent in every state of a run. -/
theorem Reachable.consistent {Ok : Operation → Kernel → Prop} {k₀ k : Kernel}
    (hok : ∀ op k, Ok op k → Allowed op k) (h₀ : Consistent k₀.scheduler)
    (h : Reachable (Kernel.step image) Ok k₀ k) :
  Consistent k.scheduler
  := by
  apply h.invariant (P := fun k => Consistent k.scheduler) _ h₀
  intro op k k' hq hop hstep
  obtain ⟨q, hqueued⟩ := hq
  exact (Kernel.step_cases hqueued.current_used (hok op k hop) hstep).consistent ⟨q, hqueued⟩

end LarvaOS
