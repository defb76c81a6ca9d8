import LarvaOS.Kernel.Rotation

/-!
# The turns of the processes

What the rota says about the runs of the system in bounds.  No process is lost or duplicated: a pid
that a `Fork` has returned belongs to one process until one `Wait` reaps it.  A ready
process is dispatched before the timer has interrupted nine times, whatever happens in
between, and a process sleeps exactly until its wait id is woken.
-/

namespace LarvaOS

variable {image : Image}

section

variable {k k' : Kernel} {q : Queues}

/-- A process that has the pid of a process before a step is that process. -/
theorem SchedulerStep.same_slot {op : Operation} {i j : Slot} (h : SchedulerStep image op k k')
    (hq : Queued k.scheduler q (some k.currentProc) none) (hp : Pids k.scheduler)
    (hi : i ≠ idleSlot) (hj : j ≠ idleSlot) (hused : (k.process i).state ≠ .unused)
    (hused' : (k'.process j).state ≠ .unused) (hpid : (k'.process j).pid = (k.process i).pid) :
  j = i
  := by
  rcases h.pids hq with hold | ⟨new, hgrown, _⟩
  · obtain ⟨hbefore, hsame⟩ := hold.pid j hused'
    exact hp.injective j i hj hi hbefore hused (hsame.symm.trans hpid)
  · by_cases e : new = some j
    · have hfresh : (k'.process j).pid = k.scheduler.pidNum := hgrown.pid j e
      have hle : (k.process i).pid ≤ k.scheduler.created := (hp.bound i hi hused).2
      rw [← hpid, hfresh, hp.pidNum] at hle
      omega
    · have hsame : k'.process j = k.process j := hgrown.process j e
      rw [hsame] at hused' hpid
      exact hp.injective j i hj hi hused' hused hpid

/-- A process on a list is the only process with its pid. -/
theorem Queued.slot_of_mem {list : ListHead} {i j : Slot}
    (hq : Queued k.scheduler q (some k.scheduler.currentProc) none) (hp : Pids k.scheduler)
    (hj : j ∈ q list) (hi : i ≠ idleSlot) (hused : (k.scheduler.process i).state ≠ .unused)
    (hpid : (k.scheduler.process j).pid = (k.scheduler.process i).pid) :
  j = i
  := by
  apply hp.injective j i _ hi _ hused hpid
  · rintro rfl
    exact hq.idle list hj
  · rw [hq.state list j hj (by simp)]
    exact ListHead.state_ne_unused _

/-- The process of a slot is a task of the rota. -/
structure IsTask (i : Slot) (p : Int) (k : Kernel) (r : Rota Int Int) : Prop where
  idle : i ≠ idleSlot
  used : (k.process i).state ≠ .unused
  pid : (k.process i).pid = p
  onRota : OnRota k.scheduler r

namespace IsTask

variable {i : Slot} {p : Int} {r : Rota Int Int}

/-- The task that runs is the current process. -/
theorem running (h : IsTask i p k r) (hr : r.running = some p) :
  k.currentProc = i
  := by
  obtain ⟨hidle, hused, rfl, q, hq, hp, rfl⟩ := h
  by_cases hcurrent : k.scheduler.currentProc = idleSlot
  · rw [Scheduler.rota, hcurrent, Queues.rota_idle] at hr
    cases hr
  · rw [Scheduler.rota, Queues.rota_running hcurrent] at hr
    exact hp.injective _ i hcurrent hidle hq.current_used hused (Option.some.inj hr)

/-- A task that is ready is a ready process. -/
theorem ready (h : IsTask i p k r) (hr : p ∈ r.ready) :
  (k.process i).state = .ready
  := by
  obtain ⟨hidle, hused, rfl, q, hq, hp, rfl⟩ := h
  obtain ⟨j, hj, hpid⟩ := List.mem_map.mp hr
  obtain rfl := hq.slot_of_mem hp hj hidle hused hpid
  exact hq.state .readyProcList j hj (by simp)

/-- A task that waits sleeps, and has its reason as wait id. -/
theorem sleeping {reason : Int} (h : IsTask i p k r) (hr : (p, reason) ∈ r.waiting) :
  (k.process i).state = .sleeping ∧ (k.process i).waitId = reason
  := by
  obtain ⟨hidle, hused, rfl, q, hq, hp, rfl⟩ := h
  obtain ⟨j, hj, hpair⟩ := List.mem_map.mp hr
  obtain ⟨hpid, rfl⟩ := Prod.mk.inj hpair
  obtain rfl := hq.slot_of_mem hp hj hidle hused hpid
  exact ⟨hq.state .waitProcList j hj (by simp), rfl⟩

/-- A step keeps a task as long as it does not take it away. -/
theorem step {op : Operation} (h : IsTask i p k r) (hok : Numbered image op k)
    (hstep : k.step image op = some k') :
  ∃ r', stutter Rota.step (k.rotaEvent image op) r = some r'
    ∧ (p ∈ r'.members → IsTask i p k' r')
  := by
  obtain ⟨hidle, hused, rfl, hr⟩ := h
  obtain ⟨r', he, hr'⟩ := simulation_rota.step op k k' r hr hok hstep
  refine ⟨r', he, ?_⟩
  intro hmem
  obtain ⟨q, hq, hp, rfl⟩ := hr
  obtain ⟨q', hq', _, rfl⟩ := id hr'
  obtain ⟨j, hj, hjused, hpid⟩ := hq'.exists_of_mem_members hmem
  have hcases := Kernel.step_cases hq.current_used hok.1.1 hstep
  obtain rfl := hcases.same_slot hq hp hidle hj hused hjused hpid
  exact ⟨hidle, hjused, hpid, hr'⟩

end IsTask

/-- The timer interrupt. -/
def Operation.isTimer : Operation → Bool
  | .yield => true
  | _ => false

/-- A step dispatches a ready process or moves it forward, and the timer interrupt moves it
forward. -/
theorem behind_step {op : Operation} {i : Slot} {p : Int} {n : ℕ}
    (h : ∃ r, IsTask i p k r ∧ Rota.Behind p n r) (hok : Numbered image op k)
    (hstep : k.step image op = some k') :
  (k'.currentProc = i ∧ (k'.process i).pid = p)
    ∨ ∃ m, (∃ r, IsTask i p k' r ∧ Rota.Behind p m r) ∧ m + (if op.isTimer then 1 else 0) ≤ n
  := by
  obtain ⟨r, htask, hbehind⟩ := h
  obtain ⟨r', he, hkeep⟩ := htask.step hok hstep
  cases hevent : k.rotaEvent image op with
  | none =>
      rw [hevent, stutter_none] at he
      obtain rfl := Option.some.inj he
      right
      refine ⟨n, ⟨r, hkeep (Rota.mem_members_of_ready hbehind.1), hbehind⟩, ?_⟩
      have htimer : op.isTimer = false := by
        cases op with
        | yield => cases hevent
        | _ => rfl
      rw [htimer]
      exact Nat.le_refl n
  | some e =>
      rw [hevent, stutter_some] at he
      rcases hbehind.step he with hrunning | ⟨m, hm, hle, htick⟩
      · have htask' := hkeep (Rota.mem_members_of_running hrunning)
        exact Or.inl ⟨htask'.running hrunning, htask'.pid⟩
      · right
        refine ⟨m, ⟨r', hkeep (Rota.mem_members_of_ready hm.1), hm⟩, ?_⟩
        by_cases htimer : op.isTimer
        · rw [if_pos htimer]
          apply htick
          cases op with
          | yield => exact (Option.some.inj hevent).symm
          | _ => cases htimer
        · rw [if_neg htimer]
          exact hle

/-- The operation wakes a wait id. -/
def Kernel.wakes (image : Image) (op : Operation) (k : Kernel) : Option Int :=
  (k.rotaEvent image op).bind Rota.Event.wakes

/-- A process sleeps until its wait id is woken, and is ready or runs then. -/
theorem asleep_step {op : Operation} {i : Slot} {p reason : Int}
    (h : ∃ r, IsTask i p k r ∧ (p, reason) ∈ r.waiting) (hok : Numbered image op k)
    (hstep : k.step image op = some k') :
  (k.wakes image op ≠ some reason → ∃ r, IsTask i p k' r ∧ (p, reason) ∈ r.waiting)
    ∧ (k.wakes image op = some reason →
      ∃ r, IsTask i p k' r ∧ (r.running = some p ∨ p ∈ r.ready))
  := by
  obtain ⟨r, htask, hwaiting⟩ := h
  obtain ⟨r', he, hkeep⟩ := htask.step hok hstep
  unfold Kernel.wakes
  cases hevent : k.rotaEvent image op with
  | none =>
      rw [hevent, stutter_none] at he
      obtain rfl := Option.some.inj he
      rw [Option.bind_none]
      refine ⟨fun _ => ⟨r, hkeep (Rota.mem_members_of_waiting hwaiting), hwaiting⟩, ?_⟩
      intro hnone
      cases hnone
  | some e =>
      rw [hevent, stutter_some] at he
      rw [Option.bind_some]
      constructor
      · intro hwakes
        have hwaiting' := Rota.step_waits hwaiting hwakes he
        exact ⟨r', hkeep (Rota.mem_members_of_waiting hwaiting'), hwaiting'⟩
      · intro hwakes
        have hrun := Rota.step_wakes hwaiting hwakes he
        refine ⟨r', hkeep ?_, hrun⟩
        rcases hrun with hrunning | hready
        · exact Rota.mem_members_of_running hrunning
        · exact Rota.mem_members_of_ready hready

/-- A run in which nothing wakes its wait id leaves a process asleep. -/
theorem asleep_run {ops : List Operation} {i : Slot} {p reason : Int}
    (h : ∃ r, IsTask i p k r ∧ (p, reason) ∈ r.waiting)
    (hrun : Run (Kernel.step image) (Numbered image) k ops k')
    (hwakes : ∀ e ∈ events (Kernel.step image) (fun op k => k.rotaEvent image op) ops k,
      e.wakes ≠ some reason) :
  ∃ r, IsTask i p k' r ∧ (p, reason) ∈ r.waiting
  := by
  induction hrun with
  | nil => exact h
  | @cons k k₁ k' ops op hok hstep _ ih =>
      rw [events, hstep, Option.elim_some] at hwakes
      apply ih
      · apply (asleep_step h hok hstep).1
        unfold Kernel.wakes
        cases hevent : k.rotaEvent image op with
        | none => simp
        | some e =>
            rw [Option.bind_some]
            apply hwakes
            rw [hevent]
            exact List.mem_append_left _ List.mem_cons_self
      · exact fun e he => hwakes e (List.mem_append_right _ he)

/-- The ready processes are fewer than the slots. -/
theorem Queued.length_ready {s : Scheduler} {r d : Option Slot} (hq : Queued s q r d) :
  (q .readyProcList).length < maximumNumberOfProcess
  := by
  have hnodup : (idleSlot :: q .readyProcList).Nodup :=
    List.nodup_cons.mpr ⟨hq.idle .readyProcList, hq.holds.nodup .readyProcList⟩
  have hle := hnodup.length_le_card
  rwa [Fintype.card_fin] at hle

/-- On the small machine the first timer interrupt dispatches the shell, and the others do
nothing. -/
theorem start_turns :
  ∃ k₀ k m files cr3, kMain smallImage (smallMachine 64) = some k₀
    ∧ initProcess smallImage ⟨m, files, Scheduler.initial cr3⟩ = some k₀
    ∧ (k₀.process 1).state = .ready ∧ k.currentProc = 1 ∧ k.scheduler.created = 1
    ∧ Queued k.scheduler (fun _ => []) (some k.currentProc) none
    ∧ ∀ n, Run (Kernel.step smallImage) (InBounds smallImage) k₀
      (.yield :: List.replicate n .yield) k
  := by
  obtain ⟨k₀, L, hboot, hbooted⟩ := kMain_smallMachine (n := 64) (by decide) (by decide)
  obtain ⟨m, files, cr3, h₀⟩ := kMain_initProcess hboot
  obtain ⟨k, hyield, hcurrent, _, hres, _, _, hq⟩ := hbooted.yield
  have hready : (k₀.process 1).state = .ready := by
    apply hbooted.queued.state .readyProcList 1 _ (by simp)
    simp
  have hbounds : ∀ k, InBounds smallImage .yield k :=
    fun _ => ⟨Bool.noConfusion, fun _ => trivial⟩
  have hloop : ∀ n, Run (Kernel.step smallImage) (InBounds smallImage) k
      (List.replicate n .yield) k := by
    intro n
    induction n with
    | zero => exact Run.nil k
    | succ n ih =>
        apply Run.cons .yield (hbounds k) _ ih
        exact Kernel.schedule_eq_some.mpr ⟨k.scheduler, hq.yield_nil rfl, rfl⟩
  have hcreated : k.scheduler.created = 1 := hres.created.trans hbooted.created
  refine ⟨k₀, k, m, files, cr3, hboot, h₀, hready, hcurrent, hcreated, ?_, ?_⟩
  · rw [hcurrent]
    exact hq
  · exact fun n => Run.cons .yield (hbounds k₀) hyield (hloop n)

/-- Every run of the system in bounds is a run of the rota on the events of its operations, and
the tasks are where the states of the processes say. -/
theorem run_rota {cr3 : Fin (2 ^ 64)} {m : Memory} {files : FileSystem} {k₀ : Kernel}
    {ops : List Operation} (h₀ : initProcess image ⟨m, files, Scheduler.initial cr3⟩ = some k₀)
    (h : Run (Kernel.step image) (InBounds image) k₀ ops k)
    (hcreated : k.scheduler.created < 2 ^ 31 - 1) :
  ∃ r q, Run Rota.step (fun _ _ => True) ⟨none, [1], [], []⟩
      (events (Kernel.step image) (fun op k => k.rotaEvent image op) ops k₀) r
    ∧ SchedulerInvariant k.scheduler q ∧ r = k.scheduler.rota q
  := by
  obtain ⟨_, hrun⟩ := Run.numbered h (initProcess_consistent h₀) hcreated
  obtain ⟨r, hr, q, hq, hp, hrota⟩ := simulation_rota.run (initProcess_onRota h₀) hrun
  exact ⟨r, q, hr, hq.invariant hp, hrota⟩

/-- The shell makes a child, which runs and exits, and reaps it. -/
theorem run_rota_small :
  ∃ k₀ k, kMain smallImage (smallMachine 64) = some k₀ ∧ k.scheduler.created = 2
    ∧ (k.process 2).state = .unused
    ∧ Run (Kernel.step smallImage) (InBounds smallImage) k₀ [.yield, .fork, .yield, .exit, .wait 2] k
    ∧ ∃ r q, Run Rota.step (fun _ _ => True) ⟨none, [1], [], []⟩
        (events (Kernel.step smallImage) (fun op k => k.rotaEvent smallImage op)
          [.yield, .fork, .yield, .exit, .wait 2] k₀) r
      ∧ SchedulerInvariant k.scheduler q ∧ r = k.scheduler.rota q
  := by
  obtain ⟨k₀, k, _, hboot, hrun, hquiet, _, hcreated⟩ := smallMachine_reaps
  obtain ⟨m, files, cr3, h₀⟩ := kMain_initProcess hboot
  have hbounds := hrun.mono fun _ _ => Admitted.inBounds
  refine ⟨k₀, k, hboot, hcreated, (hquiet.used 2).mpr (by decide), hbounds, run_rota h₀ hbounds ?_⟩
  rw [hcreated]
  decide

/-- A ready process other than IDLE is dispatched before the timer has interrupted nine times. -/
theorem run_ready {cr3 : Fin (2 ^ 64)} {m : Memory} {files : FileSystem} {k₀ : Kernel}
    {ops : List Operation} {i : Slot}
    (h₀ : initProcess image ⟨m, files, Scheduler.initial cr3⟩ = some k₀)
    (hk : Reachable (Kernel.step image) (InBounds image) k₀ k)
    (h : Run (Kernel.step image) (InBounds image) k ops k')
    (hcreated : k'.scheduler.created < 2 ^ 31 - 1)
    (hi : i ≠ idleSlot) (hready : (k.process i).state = .ready)
    (htimer : 9 ≤ ops.countP Operation.isTimer) :
  ∃ before after k₁, ops = before ++ after ∧ before.countP Operation.isTimer ≤ 9
    ∧ Run (Kernel.step image) (InBounds image) k before k₁
    ∧ Run (Kernel.step image) (InBounds image) k₁ after k'
    ∧ k₁.currentProc = i ∧ (k₁.process i).pid = (k.process i).pid
  := by
  obtain ⟨hconsistent, hdistinct⟩ := Reachable.distinct (fun _ _ hop => hop.1) h₀ hk
  obtain ⟨hbefore, hrun⟩ := Run.numbered h hconsistent hcreated
  obtain ⟨q, hq⟩ := hconsistent
  have hp := hdistinct hbefore
  have hmem : i ∈ q .readyProcList := ((hq.invariant hp).ready i hi).mp hready
  have hused : (k.process i).state ≠ .unused := by
    rw [hready]
    simp
  have hranked : ∃ r, IsTask i (k.process i).pid k r ∧ Rota.Behind (k.process i).pid 8 r := by
    refine ⟨_, ⟨hi, hused, rfl, q, hq, hp, rfl⟩, List.mem_map_of_mem hmem, ?_⟩
    have hlt := List.idxOf_lt_length_of_mem
      (List.mem_map_of_mem (f := fun i => (k.scheduler.process i).pid) hmem)
    rw [List.length_map] at hlt
    have hlength := hq.length_ready
    unfold maximumNumberOfProcess at hlength
    exact Nat.le_of_lt_succ (Nat.lt_of_lt_of_le hlt (Nat.le_of_lt_succ hlength))
  obtain ⟨before, after, k₁, hops, hcount, hrun₁, hrun₂, hcurrent, hpid⟩ := hrun.reaches
    (R := fun n k' => ∃ r, IsTask i (k.process i).pid k' r ∧ Rota.Behind (k.process i).pid n r)
    (G := fun k' => k'.currentProc = i ∧ (k'.process i).pid = (k.process i).pid)
    (fun n op k k' hranked hok hstep => behind_step hranked hok hstep) hranked htimer
  have hbounds : ∀ op k, Numbered image op k → InBounds image op k := fun _ _ hok => hok.1
  exact ⟨before, after, k₁, hops, hcount, hrun₁.mono hbounds, hrun₂.mono hbounds, hcurrent, hpid⟩

theorem run_ready_small :
  ∃ k₀ k, kMain smallImage (smallMachine 64) = some k₀ ∧ (k₀.process 1).state = .ready
    ∧ ∃ before after k₁, List.replicate 9 .yield = before ++ after
      ∧ before.countP Operation.isTimer ≤ 9
      ∧ Run (Kernel.step smallImage) (InBounds smallImage) k₀ before k₁
      ∧ Run (Kernel.step smallImage) (InBounds smallImage) k₁ after k
      ∧ k₁.currentProc = 1 ∧ (k₁.process 1).pid = (k₀.process 1).pid
  := by
  obtain ⟨k₀, k, m, files, cr3, hboot, h₀, hready, _, hcreated, _, hrun⟩ := start_turns
  refine ⟨k₀, k, hboot, hready, ?_⟩
  apply run_ready h₀ .refl (hrun 8) _ (by decide) hready (by decide)
  rw [hcreated]
  decide

/-- A process sleeps until its wait id is woken, and then it is ready or runs. -/
theorem run_sleeping {cr3 : Fin (2 ^ 64)} {m : Memory} {files : FileSystem} {k₀ : Kernel}
    {ops : List Operation} {i : Slot}
    (h₀ : initProcess image ⟨m, files, Scheduler.initial cr3⟩ = some k₀)
    (hk : Reachable (Kernel.step image) (InBounds image) k₀ k)
    (h : Run (Kernel.step image) (InBounds image) k ops k')
    (hcreated : k'.scheduler.created < 2 ^ 31 - 1)
    (hi : i ≠ idleSlot) (hsleeping : (k.process i).state = .sleeping)
    (hwakes : ∀ e ∈ events (Kernel.step image) (fun op k => k.rotaEvent image op) ops k,
      e.wakes ≠ some (k.process i).waitId) :
  ((k'.process i).state = .sleeping ∧ (k'.process i).waitId = (k.process i).waitId
      ∧ (k'.process i).pid = (k.process i).pid)
    ∧ ∀ op k₁, Numbered image op k' → k'.step image op = some k₁ →
      k'.wakes image op = some (k.process i).waitId →
      (k₁.process i).pid = (k.process i).pid
        ∧ ((k₁.process i).state = .ready ∨ k₁.currentProc = i)
  := by
  obtain ⟨hconsistent, hdistinct⟩ := Reachable.distinct (fun _ _ hop => hop.1) h₀ hk
  obtain ⟨hbefore, hrun⟩ := Run.numbered h hconsistent hcreated
  obtain ⟨q, hq⟩ := hconsistent
  have hp := hdistinct hbefore
  have hmem : i ∈ q .waitProcList := ((hq.invariant hp).sleeping i hi).mp hsleeping
  have hused : (k.process i).state ≠ .unused := by
    rw [hsleeping]
    simp
  have hasleep : ∃ r, IsTask i (k.process i).pid k r
      ∧ ((k.process i).pid, (k.process i).waitId) ∈ r.waiting :=
    ⟨_, ⟨hi, hused, rfl, q, hq, hp, rfl⟩, List.mem_map.mpr ⟨i, hmem, rfl⟩⟩
  obtain ⟨r, htask, hwaiting⟩ := asleep_run hasleep hrun hwakes
  obtain ⟨hstate, hwaitId⟩ := htask.sleeping hwaiting
  refine ⟨⟨hstate, hwaitId, htask.pid⟩, ?_⟩
  intro op k₁ hok hstep hwake
  obtain ⟨r', htask', hrunning | hready⟩ := (asleep_step ⟨r, htask, hwaiting⟩ hok hstep).2 hwake
  · exact ⟨htask'.pid, Or.inr (htask'.running hrunning)⟩
  · exact ⟨htask'.pid, Or.inl (htask'.ready hready)⟩

/-- The shell sleeps for the wait id 5: it stays asleep when 6 is woken, and then 5 is woken. -/
theorem run_sleeping_small :
  ∃ k k' k₁, Run (Kernel.step smallImage) (InBounds smallImage) k [.wakeup 6] k'
    ∧ (k.process 1).state = .sleeping ∧ (k.process 1).waitId = 5
    ∧ (k'.process 1).state = .sleeping ∧ k'.step smallImage (.wakeup 5) = some k₁
    ∧ (k₁.process 1).pid = (k.process 1).pid ∧ (k₁.process 1).state = .ready
  := by
  obtain ⟨k₀, k, m, files, cr3, hboot, h₀, _, hcurrent, hcreated, hq, hrun⟩ := start_turns
  have hidle : k.currentProc ≠ idleSlot := by
    rw [hcurrent]
    decide
  obtain ⟨s, hsleep, hidle₁, hres, hwait, hq'⟩ := hq.sleep hidle 5
  obtain ⟨s', hwakeup, hidle₂, hres', _, hq''⟩ := hq'.wakeup 6
  obtain ⟨s'', hwakeup', hidle₃, hres'', _⟩ := hq''.wakeup 5
  have hstep : k.step smallImage (.sleep 5) = some { k with scheduler := s } :=
    Kernel.schedule_eq_some.mpr ⟨s, hsleep, rfl⟩
  have hstep' : Kernel.step smallImage (.wakeup 6) { k with scheduler := s }
      = some { k with scheduler := s' } := Kernel.schedule_eq_some.mpr ⟨s', hwakeup, rfl⟩
  have hstep'' : Kernel.step smallImage (.wakeup 5) { k with scheduler := s' }
      = some { k with scheduler := s'' } := Kernel.schedule_eq_some.mpr ⟨s'', hwakeup', rfl⟩
  have hreach : Reachable (Kernel.step smallImage) (InBounds smallImage) k₀
      { k with scheduler := s } :=
    Reachable.step (.sleep 5) (hrun 0).reachable ⟨fun _ => hidle, fun _ => trivial⟩ hstep
  have hbounds : ∀ waitId k, InBounds smallImage (.wakeup waitId) k :=
    fun _ _ => ⟨Bool.noConfusion, fun _ => trivial⟩
  have hrun' : Run (Kernel.step smallImage) (InBounds smallImage) { k with scheduler := s }
      [.wakeup 6] { k with scheduler := s' } := Run.cons _ (hbounds 6 _) hstep' (Run.nil _)
  have hcurrent' : k.scheduler.currentProc = 1 := hcurrent
  have hsleeping : (s.process 1).state = .sleeping := by
    apply hq'.state .waitProcList 1 _ (by simp)
    rw [Queues.tail_of_ne (by simp), Queues.push_self, hcurrent']
    simp
  have hwaitId : (s.process 1).waitId = 5 := by
    rw [hwait, hcurrent', if_pos rfl]
  have hwaitId' : (({ k with scheduler := s } : Kernel).process 1).waitId = 5 := hwaitId
  have hcreated' : s'.created < 2 ^ 31 - 1 := by
    rw [hres'.created, hres.created, hcreated]
    decide
  have hsilent : ∀ e ∈ events (Kernel.step smallImage) (fun op k => k.rotaEvent smallImage op)
      [.wakeup 6] { k with scheduler := s },
      e.wakes ≠ some (({ k with scheduler := s } : Kernel).process 1).waitId := by
    simp only [events, Kernel.rotaEvent, hstep', Option.elim_some, Option.toList_some,
      List.append_nil, List.mem_singleton, forall_eq, Rota.Event.wakes]
    rw [hwaitId']
    decide
  obtain ⟨hasleep, hwoken⟩ := run_sleeping h₀ hreach hrun' hcreated' (by decide) hsleeping hsilent
  have hnumbered : Numbered smallImage (.wakeup 5) { k with scheduler := s' } := by
    refine ⟨hbounds 5 _, fun k₁ hk₁ => ?_⟩
    obtain rfl := Option.some.inj (hstep''.symm.trans hk₁)
    exact hres''.created.trans_lt hcreated'
  obtain ⟨hpid, hready | hcurrent''⟩ :=
    hwoken (.wakeup 5) _ hnumbered hstep'' (congrArg some hwaitId'.symm)
  · exact ⟨_, _, _, hrun', hsleeping, hwaitId, hasleep.1, hstep'', hpid, hready⟩
  · have hidle' : s''.currentProc = idleSlot := hidle₃.trans (hidle₂.trans hidle₁)
    exact absurd (hidle'.symm.trans hcurrent'') (by decide)

/-! ### The pids -/

/-- The pids of the processes. IDLE is not counted, nor a slot that a failed `Fork` has
left behind. -/
def Kernel.pids (k : Kernel) : List Int :=
  ((List.finRange maximumNumberOfProcess).filter (fun i => i ≠ idleSlot
    ∧ (k.process i).state ≠ .unused ∧ (k.process i).state ≠ .initialized)).map
      (fun i => (k.process i).pid)

/-- The tasks of the rota are the pids of the processes. -/
theorem SchedulerInvariant.members_perm (h : SchedulerInvariant k.scheduler q) :
  (k.scheduler.rota q).members.Perm k.pids
  := by
  have hslots : (k.scheduler.rota q).members
      = ((if k.currentProc = idleSlot then [] else [k.currentProc])
        ++ (q .readyProcList ++ (q .waitProcList ++ q .killProcList))).map
          (fun i => (k.process i).pid) := by
    unfold Rota.members Scheduler.rota Queues.rota
    split <;> simp_all
  rw [hslots, Kernel.pids]
  apply List.Perm.map
  have hstate : ∀ list : ListHead, ∀ i ∈ q list,
      i ≠ idleSlot ∧ (k.process i).state = list.state := by
    intro list i hi
    have hne : i ≠ idleSlot := by
      rintro rfl
      exact h.idle.1 list hi
    refine ⟨hne, ?_⟩
    cases list with
    | readyProcList => exact (h.ready i hne).mpr hi
    | waitProcList => exact (h.sleeping i hne).mpr hi
    | killProcList => exact (h.killed i hne).mpr hi
  have hcurrent : ∀ i, i ∈ (if k.currentProc = idleSlot then [] else [k.currentProc])
      ↔ i ≠ idleSlot ∧ (k.process i).state = .running := by
    intro i
    split
    next e =>
      constructor
      · intro hi
        cases hi
      · rintro ⟨hi, hrunning⟩
        exact absurd (((h.running i hi).mp hrunning).trans e) hi
    next e =>
      rw [List.mem_singleton]
      constructor
      · rintro rfl
        exact ⟨e, (h.running _ e).mpr rfl⟩
      · rintro ⟨hi, hrunning⟩
        exact (h.running i hi).mp hrunning
  apply (List.perm_ext_iff_of_nodup _ ((List.nodup_finRange _).filter _)).mpr
  · intro i
    rw [List.mem_append, hcurrent, List.mem_append, List.mem_append]
    constructor
    · have hlist : ∀ list : ListHead, i ∈ q list → i ∈ (List.finRange maximumNumberOfProcess).filter
          (fun i => i ≠ idleSlot ∧ (k.process i).state ≠ .unused
            ∧ (k.process i).state ≠ .initialized) := by
        intro list hi
        obtain ⟨hne, hi⟩ := hstate list i hi
        simp [hne, hi, list.state_ne_unused, list.state_ne_initialized]
      rintro (⟨hi, hrunning⟩ | hi | hi | hi)
      · simp [hi, hrunning]
      · exact hlist _ hi
      · exact hlist _ hi
      · exact hlist _ hi
    · intro hi
      obtain ⟨hne, hused, hinit⟩ : i ≠ idleSlot ∧ (k.process i).state ≠ .unused
          ∧ (k.process i).state ≠ .initialized := by simpa using hi
      cases hi : (k.process i).state with
      | unused => exact absurd hi hused
      | initialized => exact absurd hi hinit
      | ready => exact Or.inr (Or.inl ((h.ready i hne).mp hi))
      | running => exact Or.inl ⟨hne, rfl⟩
      | sleeping => exact Or.inr (Or.inr (Or.inl ((h.sleeping i hne).mp hi)))
      | killed => exact Or.inr (Or.inr (Or.inr ((h.killed i hne).mp hi)))
  · rw [List.nodup_append]
    refine ⟨?_, h.nodup, ?_⟩
    · split
      · exact List.nodup_nil
      · exact List.nodup_singleton _
    · rintro i hi j hj rfl
      obtain ⟨_, hrunning⟩ := (hcurrent i).mp hi
      have hapart : ∀ list : ListHead, i ∉ q list := by
        intro list hmem
        exact list.state_ne_running ((hstate list i hmem).2.symm.trans hrunning)
      simp only [List.mem_append] at hj
      rcases hj with hj | hj | hj
      · exact hapart _ hj
      · exact hapart _ hj
      · exact hapart _ hj

/-- The pids that the forks of a run have returned. -/
def forkedPids (image : Image) (ops : List Operation) (k : Kernel) : List Int :=
  (events (Kernel.step image) (fun op k => k.rotaEvent image op) ops k).flatMap Rota.Event.spawned

/-- The pids that `Wait` has reaped in a run. -/
def reapedPids (image : Image) (ops : List Operation) (k : Kernel) : List Int :=
  (events (Kernel.step image) (fun op k => k.rotaEvent image op) ops k).flatMap Rota.Event.reaped

/-- A `Fork` that succeeds returns the next pid. -/
theorem fork_spawned {op : Operation} {r : Rota Int Int} {e : Rota.Event Int Int} {p : Int}
    (h : OnRota k.scheduler r) (hstep : k.step image op = some k')
    (he : k.rotaEvent image op = some e) (hp : p ∈ e.spawned) :
  e.spawned = [(k.scheduler.created : Int) + 1]
    ∧ k'.scheduler.created = k.scheduler.created + 1
  := by
  have hkills : (if k.kills image op then some (Rota.Event.leave initProcessWaitId) else none)
      ≠ some e := by
    split
    · rintro hleave
      obtain rfl := Option.some.inj hleave
      cases hp
    · simp
  cases op with
  | exit | openFile | closeFile | readFile | lstat | exec | store | push => exact absurd he hkills
  | yield | sleep | wakeup =>
      obtain rfl := Option.some.inj he
      cases hp
  | wait pid =>
      simp only [Kernel.rotaEvent] at he
      split at he
      · obtain rfl := Option.some.inj he
        cases hp
      · obtain rfl := Option.some.inj he
        cases hp
  | fork =>
      obtain ⟨⟨ret, k₁⟩, hfork, rfl⟩ := Option.map_eq_some_iff.mp hstep
      simp only [Kernel.rotaEvent, hfork] at he
      obtain ⟨_, hfilter, rfl⟩ := Option.map_eq_some_iff.mp he
      obtain ⟨hret, hpos⟩ := Option.filter_eq_some_iff.mp hfilter
      obtain rfl := Option.some.inj hret
      obtain ⟨q, hq, hpids, rfl⟩ := h
      obtain ⟨new, hgrown, ⟨rfl, _⟩ | ⟨i, rfl, rfl, _⟩⟩ := hq.fork hfork
      · have hneg : ¬ (0 : Int) ≤ -enomem := by decide
        exact absurd (of_decide_eq_true hpos) hneg
      · rw [Rota.Event.spawned, ← hpids.pidNum]
        refine ⟨rfl, ?_⟩
        rcases hgrown.counters with ⟨hnone, _⟩ | ⟨_, hcreated⟩
        · cases hnone
        · exact hcreated

/-- The pids that the forks of a run return increase, and are new. -/
theorem forkedPids_pairwise {ops : List Operation} {r : Rota Int Int} (h : OnRota k.scheduler r)
    (hrun : Run (Kernel.step image) (Numbered image) k ops k') :
  ((k.scheduler.created : Int) :: forkedPids image ops k).Pairwise (· < ·)
  := by
  induction hrun generalizing r with
  | nil => simp [forkedPids, events]
  | @cons k k₁ k' ops op hok hstep _ ih =>
      obtain ⟨r', _, hr'⟩ := simulation_rota.step op k k₁ r h hok hstep
      have hrest := ih hr'
      have hle : (k.scheduler.created : Int) ≤ k₁.scheduler.created := by
        obtain ⟨q, hq, _⟩ := id h
        have hcases := Kernel.step_cases hq.current_used hok.1.1 hstep
        exact Int.ofNat_le.mpr (hcases.created_le ⟨q, hq⟩)
      have hsplit : forkedPids image (op :: ops) k
          = (k.rotaEvent image op).toList.flatMap Rota.Event.spawned ++ forkedPids image ops k₁ := by
        rw [forkedPids, events, hstep, Option.elim_some, List.flatMap_append]
        rfl
      have hlater : ((k.scheduler.created : Int) :: forkedPids image ops k₁).Pairwise (· < ·) := by
        rw [List.pairwise_cons] at hrest ⊢
        exact ⟨fun p hp => Int.lt_of_le_of_lt hle (hrest.1 p hp), hrest.2⟩
      rw [hsplit]
      cases hevent : k.rotaEvent image op with
      | none => exact hlater
      | some e =>
          rw [Option.toList_some, List.flatMap_cons, List.flatMap_nil, List.append_nil]
          cases hspawned : e.spawned with
          | nil => exact hlater
          | cons p ps =>
              obtain ⟨hpid, hcreated⟩ := fork_spawned h hstep hevent
                (p := p) (hspawned ▸ List.mem_cons_self)
              rw [← hspawned, hpid, List.singleton_append, List.pairwise_cons]
              rw [hcreated, Int.natCast_succ] at hrest
              refine ⟨?_, hrest⟩
              intro p' hp'
              rcases List.mem_cons.mp hp' with rfl | hp'
              · exact Int.lt_succ _
              · exact (List.pairwise_cons.mp hlater).1 p' hp'

/-- No process is lost or duplicated while the pids do not run out: the pids of the processes and
the pids that `Wait` has reaped are the pid of the shell and the pids that `Fork` has returned,
which increase. -/
theorem run_pids {cr3 : Fin (2 ^ 64)} {m : Memory} {files : FileSystem} {k₀ : Kernel}
    {ops : List Operation} (h₀ : initProcess image ⟨m, files, Scheduler.initial cr3⟩ = some k₀)
    (h : Run (Kernel.step image) (InBounds image) k₀ ops k)
    (hcreated : k.scheduler.created < 2 ^ 31 - 1) :
  (k.pids ++ reapedPids image ops k₀).Perm (1 :: forkedPids image ops k₀)
    ∧ (1 :: forkedPids image ops k₀).Pairwise (· < ·)
  := by
  obtain ⟨_, hrun⟩ := Run.numbered h (initProcess_consistent h₀) hcreated
  obtain ⟨r, hr, q, hq, hp, rfl⟩ := simulation_rota.run (initProcess_onRota h₀) hrun
  constructor
  · exact ((hq.invariant hp).members_perm.symm.append_right _).trans (Rota.run_members hr)
  · have hpairwise := forkedPids_pairwise (initProcess_onRota h₀) hrun
    rw [initProcess_created h₀] at hpairwise
    exact hpairwise

/-- The shell makes a child, which runs and exits, and reaps it. -/
theorem run_pids_small :
  ∃ (k₀ k : Kernel) (ops : List Operation), kMain smallImage (smallMachine 64) = some k₀
    ∧ ops = [.yield, .fork, .yield, .exit, .wait 2]
    ∧ Run (Kernel.step smallImage) (InBounds smallImage) k₀ ops k
    ∧ k.scheduler.created = 2 ∧ (k.process 2).state = .unused
    ∧ (k.pids ++ reapedPids smallImage ops k₀).Perm (1 :: forkedPids smallImage ops k₀)
    ∧ (1 :: forkedPids smallImage ops k₀).Pairwise (· < ·)
  := by
  obtain ⟨k₀, k, _, hboot, hrun, hquiet, _, hcreated⟩ := smallMachine_reaps
  obtain ⟨m, files, cr3, h₀⟩ := kMain_initProcess hboot
  have hbounds := hrun.mono fun _ _ => Admitted.inBounds
  refine ⟨k₀, k, _, hboot, rfl, hbounds, hcreated, (hquiet.used 2).mpr (by decide),
    run_pids h₀ hbounds ?_⟩
  rw [hcreated]
  decide

end

end LarvaOS
