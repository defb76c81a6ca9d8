import LarvaOS.Kernel.Scheduling

/-!
# Waiting for processes

`Wait` looks for a killed process and sleeps when there is none, and `Exit` puts the
process on the kill list and wakes the waiting processes.  A run of the system is
observed together with a history: for every slot, whether the last call of `Sleep` or
`Wait` by its process was a `Wait`.
-/

namespace LarvaOS

open Linked

variable {image : Image}

/-- A state of the kernel and, for every slot, whether its process last called `Wait`. -/
structure WaitHistory where
  kernel : Kernel
  inWait : Slot → Bool

namespace WaitHistory

/-- The history after an operation of the current process. -/
def record (r : WaitHistory) : Operation → Slot → Bool
  | .sleep _ => Function.update r.inWait r.kernel.currentProc false
  | .wait _ => Function.update r.inWait r.kernel.currentProc true
  | _ => r.inWait

/-- A step of the system, observed. -/
def step (image : Image) (op : Operation) (r : WaitHistory) : Option WaitHistory :=
  (r.kernel.step image op).map (fun k => ⟨k, r.record op⟩)

/-- Processes on the wait list that sleep in `Wait` have the wait id of `Wait`, and
there is no killed process. -/
def WaitersClear (r : WaitHistory) (q : Queues) : Prop :=
  ∀ i ∈ q .waitProcList, r.inWait i = true →
    (r.kernel.process i).waitId = initProcessWaitId ∧ q .killProcList = []

/-- The invariant of observed runs. -/
def Clear (r : WaitHistory) : Prop :=
  ∃ q, Queued r.kernel.scheduler q (some r.kernel.currentProc) none ∧ r.WaitersClear q

end WaitHistory

/-- A step that keeps the wait ids, and adds no process to the wait list or the kill
list. -/
theorem waitersClear_of_subset {r r' : WaitHistory} {q q' : Queues} (h : r.WaitersClear q)
    (hflag : r'.inWait = r.inWait)
    (hwait : ∀ i ∈ q' .waitProcList, i ∈ q .waitProcList
      ∧ (r'.kernel.process i).waitId = (r.kernel.process i).waitId)
    (hkill : q .killProcList = [] → q' .killProcList = []) :
  r'.WaitersClear q'
  := by
  intro i hi hin
  obtain ⟨hmem, hid⟩ := hwait i hi
  rw [hflag] at hin
  obtain ⟨hid', hnil⟩ := h i hmem hin
  exact ⟨hid.trans hid', hkill hnil⟩

/-- The operations other than `Sleep` and `Wait` keep the wait list clear. -/
theorem SchedulerStep.clear {op : Operation} {k k' : Kernel} {f : Slot → Bool}
    (h : SchedulerStep image op k k') (hsleep : ∀ waitId, op ≠ .sleep waitId)
    (hwait : ∀ pid, op ≠ .wait pid) (hc : WaitHistory.Clear ⟨k, f⟩) :
  WaitHistory.Clear ⟨k', f⟩
  := by
  obtain ⟨q, hq, hclear⟩ := hc
  cases h with
  | yield h =>
      by_cases hready : q .readyProcList = []
      · have heq : k'.scheduler = k.scheduler :=
          (Option.some.inj ((hq.yield_nil hready).symm.trans h)).symm
        refine ⟨q, ?_, ?_⟩
        · rw [Kernel.currentProc, heq]
          exact hq
        · apply waitersClear_of_subset hclear
          · rfl
          · intro i hi
            rw [Kernel.process, heq]
            exact ⟨hi, rfl⟩
          · exact id
      · obtain ⟨s', hrun, hcurrent, _, hid, hq'⟩ := hq.yield_cons hready
        obtain rfl := Option.some.inj (hrun.symm.trans h)
        have hlists : ∀ list, list ≠ .readyProcList →
            (Queued.yielded k.scheduler q).tail list = q list := by
          intro list hlist
          rw [Queues.tail_of_ne hlist]
          unfold Queued.yielded
          split
          · rfl
          · exact Queues.push_of_ne hlist
        refine ⟨_, hcurrent ▸ hq', ?_⟩
        apply waitersClear_of_subset hclear
        · rfl
        · intro i hi
          rw [hlists _ (by simp)] at hi
          exact ⟨hi, hid i⟩
        · rw [hlists _ (by simp)]
          exact id
  | wakeup waitId h =>
      obtain ⟨s', hrun, hcurrent, _, hid, hq'⟩ := hq.wakeup waitId
      obtain rfl := Option.some.inj (hrun.symm.trans h)
      refine ⟨q.wake (Queued.waiting k.scheduler waitId), ?_, ?_⟩
      · exact (congrArg some hcurrent.symm) ▸ hq'
      · apply waitersClear_of_subset hclear
        · rfl
        · intro i hi
          exact ⟨List.mem_of_mem_filter hi, hid i⟩
        · exact id
  | sleep waitId hop _ _ => exact absurd hop (hsleep waitId)
  | files h =>
      refine ⟨q, (congrArg some h.currentProc.symm) ▸ h.queued hq, ?_⟩
      apply waitersClear_of_subset hclear
      · rfl
      · exact fun i hi => ⟨hi, h.waitId i⟩
      · exact id
  | exit s hidle hs h =>
      have hqs := hs.queued hq
      rw [Kernel.currentProc, ← hs.currentProc] at hqs
      obtain ⟨s', hrun, hcurrent, _, hid, hq'⟩ := hqs.exit (by rwa [hs.currentProc])
      obtain rfl := Option.some.inj (hrun.symm.trans h)
      refine ⟨_, hcurrent ▸ hq', ?_⟩
      intro i hi hin
      rw [Queues.tail_of_ne (by simp)] at hi
      obtain ⟨hmem, hother⟩ := List.mem_filter.mp hi
      rw [Queues.push_of_ne (by simp)] at hmem
      have hid' := (hclear i hmem hin).1
      rw [Kernel.process, ← hs.waitId i] at hid'
      simp [Queued.waiting, hid'] at hother
  | wait pid hop _ _ => exact absurd hop (hwait pid)
  | fork ret hidle h =>
      obtain ⟨new, hgrown, hcases⟩ := hq.fork h
      have hcurrent := congrArg some hgrown.currentProc
      have hsame : ∀ i ∈ q .waitProcList, (k'.process i).waitId = (k.process i).waitId := by
        intro i hi
        apply congrArg Process.waitId
        apply hgrown.process i
        intro hnew
        have hunused := hgrown.unused i hnew
        rw [hq.state _ i hi (by simp)] at hunused
        cases hunused
      rcases hcases with ⟨_, _, hq', _⟩ | ⟨j, _, _, _, hq', _⟩
      · refine ⟨q, hcurrent.symm ▸ hq', ?_⟩
        apply waitersClear_of_subset hclear
        · rfl
        · exact fun i hi => ⟨hi, hsame i hi⟩
        · exact id
      · refine ⟨_, hcurrent.symm ▸ hq', ?_⟩
        apply waitersClear_of_subset hclear
        · rfl
        · intro i hi
          rw [Queues.push_of_ne (by simp)] at hi
          exact ⟨hi, hsame i hi⟩
        · rw [Queues.push_of_ne (by simp)]
          exact id

/-- A sleeping process goes to the end of the wait list. -/
theorem Queued.sleep_clear {r : WaitHistory} {q : Queues} {k' : Kernel} {waitId : Int} {w : Bool}
    (hq : Queued r.kernel.scheduler q (some r.kernel.currentProc) none)
    (hidle : r.kernel.currentProc ≠ idleSlot) (hclear : r.WaitersClear q)
    (hw : w = true → waitId = initProcessWaitId ∧ q .killProcList = [])
    (hrun : LarvaOS.sleep waitId r.kernel.scheduler = some k'.scheduler) :
  WaitHistory.Clear ⟨k', Function.update r.inWait r.kernel.currentProc w⟩
  := by
  obtain ⟨s, hrun', hcurrent, _, hid, hq'⟩ := hq.sleep hidle waitId
  obtain rfl := Option.some.inj (hrun'.symm.trans hrun)
  refine ⟨_, hcurrent ▸ hq', ?_⟩
  intro i hi hin
  rw [Queues.tail_of_ne (by simp), Queues.push_of_ne (by simp)]
  rw [Queues.tail_of_ne (by simp), Queues.push_self] at hi
  have hid' := hid i
  by_cases e : i = r.kernel.currentProc
  · subst e
    rw [if_pos rfl] at hid'
    dsimp only at hin
    rw [Function.update_self] at hin
    obtain ⟨rfl, hnil⟩ := hw hin
    exact ⟨hid', hnil⟩
  · rw [if_neg e] at hid'
    dsimp only at hin
    rw [Function.update_of_ne e] at hin
    have hmem : i ∈ q .waitProcList := by
      rcases List.mem_append.mp hi with hi | hi
      · exact hi
      · exact absurd (List.mem_singleton.mp hi) e
    obtain ⟨hone, hnil⟩ := hclear i hmem hin
    exact ⟨hid'.trans hone, hnil⟩

/-- Every step keeps the wait list clear. -/
theorem WaitHistory.Clear.step {op : Operation} {r r' : WaitHistory} (hc : r.Clear)
    (hop : Allowed op r.kernel) (h : r.step image op = some r') :
  r'.Clear
  := by
  obtain ⟨k', hstep, rfl⟩ := Option.map_eq_some_iff.mp h
  obtain ⟨q, hq, hclear⟩ := hc
  by_cases hsleep : ∃ waitId, op = .sleep waitId
  · obtain ⟨waitId, rfl⟩ := hsleep
    obtain ⟨s, hrun, rfl⟩ := Kernel.schedule_eq_some.mp hstep
    exact Queued.sleep_clear hq (hop rfl) hclear (by simp) hrun
  by_cases hwait : ∃ pid, op = .wait pid
  · obtain ⟨pid, rfl⟩ := hwait
    rcases hq.wait hstep with ⟨i, hi, _, hcurrent, _, hothers, _, _, hq'⟩ | ⟨hnil, s, hrun, rfl⟩
    · refine ⟨_, hcurrent.symm ▸ hq', ?_⟩
      intro j hj hin
      rw [Queues.remove_of_ne (by simp)] at hj
      have hne : j ≠ r.kernel.currentProc := by
        rintro rfl
        rcases hq.current_state with hstate | hstate
        · rw [hq.state _ _ hj (by simp)] at hstate
          cases hstate
        · rw [hq.state _ _ hj (by simp)] at hstate
          cases hstate
      have hflag : r.record (.wait pid) j = r.inWait j := Function.update_of_ne hne _ _
      have hnil := (hclear j hj (hflag.symm.trans hin)).2
      rw [hnil] at hi
      cases hi
    · exact Queued.sleep_clear hq (hop rfl) hclear (fun _ => ⟨rfl, hnil⟩) hrun
  push Not at hsleep hwait
  have hrecord : r.record op = r.inWait := by
    cases op with
    | sleep waitId => exact absurd rfl (hsleep waitId)
    | wait pid => exact absurd rfl (hwait pid)
    | _ => rfl
  rw [hrecord]
  exact (Kernel.step_cases hq.current_used hop hstep).clear hsleep hwait ⟨q, hq, hclear⟩

/-- `Exit` makes the processes ready that sleep in `Wait`, and dispatches the first
ready process. -/
theorem Queued.exit_wakes {k k' : Kernel} {q : Queues} {i : Slot}
    (hq : Queued k.scheduler q (some k.currentProc) none) (hidle : k.currentProc ≠ idleSlot)
    (hi : i ∈ q .waitProcList) (hid : (k.process i).waitId = initProcessWaitId)
    (hrun : k.exit = some k') :
  (k'.process i).state = .ready ∨ i = k'.currentProc
  := by
  obtain ⟨s, hexit, rfl⟩ := Kernel.exit_eq_some.mp hrun
  obtain ⟨s', hexit', hcurrent, _, _, hq'⟩ := hq.exit hidle
  obtain rfl := Option.some.inj (hexit'.symm.trans hexit)
  have hmem : i ∈ Queued.exited k.scheduler q .readyProcList := by
    apply List.mem_append_right
    apply List.mem_filter.mpr
    rw [Queues.push_of_ne (by simp)]
    exact ⟨hi, decide_eq_true hid⟩
  by_cases e : i = (Queued.exited k.scheduler q).head
  · exact Or.inr (e.trans hcurrent.symm)
  · left
    exact hq'.state .readyProcList i (Queues.mem_tail_of_mem hmem e) (by simp)

/-- `Wait` sleeps only when no process is killed. -/
theorem Queued.slept_nil {k k' : Kernel} {q : Queues} {r : Option Slot} {pid : Int}
    (hq : Queued k.scheduler q r none) (hrun : waitIteration image pid k = some (.slept k')) :
  q .killProcList = []
  := by
  by_contra hfull
  obtain ⟨s, hiter, _⟩ := @Queued.waitIteration_cons image q _ k hq pid hfull
  rw [hiter] at hrun
  cases hi : k.awaited q pid with
  | none =>
      rw [hi] at hrun
      cases hrun
  | some i =>
      rw [hi] at hrun
      obtain ⟨_, _, hrun⟩ := Option.map_eq_some_iff.mp hrun
      cases hrun

/-- In every state of a run, if a process sleeps in `Wait` then no process is killed. So
an exiting process makes the waiting processes ready, and `Wait` sleeps only when no
process is killed. -/
theorem reachable_waitersClear {cr3 : Fin (2 ^ 64)} {m : Memory} {files : FileSystem}
    {k₀ : Kernel} {r : WaitHistory}
    (h₀ : initProcess image ⟨m, files, Scheduler.initial cr3⟩ = some k₀)
    (h : Reachable (WaitHistory.step image) (fun op r => Allowed op r.kernel)
      ⟨k₀, fun _ => false⟩ r) :
  ∃ q : Queues,
    (∀ list, Represents r.kernel.scheduler.links (.head list) ((q list).map .proc))
    ∧ (∀ i ∈ q .waitProcList, r.inWait i = true → q .killProcList = [])
    ∧ (∀ k', r.kernel.currentProc ≠ idleSlot → r.kernel.exit = some k' →
      ∀ i ∈ q .waitProcList, r.inWait i = true →
        (k'.process i).state = .ready ∨ i = k'.currentProc)
    ∧ ∀ pid k', waitIteration image pid r.kernel = some (.slept k') → q .killProcList = []
  := by
  have hclear : r.Clear := by
    apply h.invariant (P := WaitHistory.Clear)
    · exact fun op r r' hc hop hstep => hc.step hop hstep
    · obtain ⟨q, hq⟩ := initProcess_consistent h₀
      exact ⟨q, hq, fun i _ hin => absurd hin (by simp)⟩
  obtain ⟨q, hq, hclear⟩ := hclear
  refine ⟨q, hq.holds.represents, fun i hi hin => (hclear i hi hin).2, ?_, ?_⟩
  · intro k' hidle hexit i hi hin
    exact hq.exit_wakes hidle hi (hclear i hi hin).1 hexit
  · exact fun pid k' hrun => hq.slept_nil hrun

theorem reachable_waitersClear_small :
  ∃ k₀ r, kMain smallImage (smallMachine 64) = some k₀
    ∧ Reachable (WaitHistory.step smallImage) (fun op r => Allowed op r.kernel)
      ⟨k₀, fun _ => false⟩ r
    ∧ r.inWait 1 = true
    ∧ ∃ q : Queues,
      (∀ list, Represents r.kernel.scheduler.links (.head list) ((q list).map .proc))
      ∧ ∀ i ∈ q .waitProcList, r.inWait i = true → q .killProcList = []
  := by
  obtain ⟨k₀, L, hboot, hbooted⟩ := kMain_smallMachine (n := 64) (by decide) (by decide)
  obtain ⟨m, files, cr3, h₀⟩ := kMain_initProcess hboot
  obtain ⟨k, hyield, hcurrent, _, _, _, _, hq⟩ := hbooted.yield
  have hidle : k.currentProc ≠ idleSlot := by
    rw [hcurrent]
    decide
  have hq' : Queued k.scheduler (fun _ => []) (some k.scheduler.currentProc) none := by
    have hcurrent' : k.scheduler.currentProc = 1 := hcurrent
    rw [hcurrent']
    exact hq
  obtain ⟨s, hsleep, _⟩ := hq'.sleep hidle initProcessWaitId
  have hwait : k.step smallImage (.wait 0) = some { k with scheduler := s } := by
    rw [Kernel.step, Kernel.wait, hq.waitIteration_nil 0 rfl, hsleep]
    rfl
  have hreach : Reachable (WaitHistory.step smallImage) (fun op r => Allowed op r.kernel)
      ⟨k₀, fun _ => false⟩ ⟨{ k with scheduler := s }, Function.update (fun _ => false) 1 true⟩ := by
    apply Reachable.step (t := ⟨k, fun _ => false⟩) (.wait 0) _ (fun _ => hidle)
    · rw [WaitHistory.step, hwait, Option.map_some, WaitHistory.record, hcurrent]
    · apply Reachable.step .yield .refl
      · intro hp
        cases hp
      · rw [WaitHistory.step, hyield]
        rfl
  refine ⟨k₀, _, hboot, hreach, rfl, ?_⟩
  obtain ⟨q, hlists, hclear, _⟩ := reachable_waitersClear h₀ hreach
  exact ⟨q, hlists, hclear⟩

end LarvaOS
