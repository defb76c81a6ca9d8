import LarvaOS.Process.Rotation
import LarvaOS.Kernel.Scheduling

/-!
# The system as a rota

Every run of the system in bounds is a run of a rota whose tasks are the pids.  The timer interrupt
is a tick, `Sleep` waits for its wait id and `Wakeup` wakes it, `Exit` leaves and wakes
the processes in `Wait`, a `Fork` that succeeds spawns the pid that it returns, and a
`Wait` that finds the killed process reaps its pid.  The other system calls are nothing,
unless they end in `Exit`.
-/

namespace LarvaOS

variable (image : Image)

/-- The operation kills the current process. -/
def Kernel.kills (op : Operation) (k : Kernel) : Bool :=
  (k.step image op).any (fun k' => (k'.process k.currentProc).state = .killed)

/-- What an operation is on the rota. -/
def Kernel.rotaEvent (op : Operation) (k : Kernel) : Option (Rota.Event Int Int) :=
  match op with
  | .yield => some .tick
  | .sleep waitId => some (.wait waitId)
  | .wakeup waitId => some (.wake waitId)
  | .wait pid =>
      if listIsEmpty k.scheduler.links (.head .killProcList) then some (.wait initProcessWaitId)
      else some (.reap pid)
  | .fork => ((fork image k).filter (fun r => 0 ≤ r.1)).map (fun r => .spawn r.1)
  | _ => if k.kills image op then some (.leave initProcessWaitId) else none

/-- The transfers stay in bounds, and fewer than `2 ^ 31 - 1` processes are created. -/
def Numbered (op : Operation) (k : Kernel) : Prop :=
  InBounds image op k ∧ ∀ k', k.step image op = some k' → k'.scheduler.created < 2 ^ 31 - 1

variable {image}

/-- The processes are the tasks of the rota. -/
def OnRota (s : Scheduler) (r : Rota Int Int) : Prop :=
  ∃ q, Queued s q (some s.currentProc) none ∧ Pids s ∧ r = s.rota q

namespace Queued

variable {s s' : Scheduler} {q q' : Queues}

/-- The current process is IDLE exactly when it has the pid of IDLE. -/
theorem pid_current (hq : Queued s q (some s.currentProc) none) (hp : Pids s) :
  (s.process s.currentProc).pid = idleProcessPid ↔ s.currentProc = idleSlot
  := by
  constructor
  · intro hpid
    by_contra hidle
    have hpos := (hp.bound s.currentProc hidle hq.current_used).1
    rw [hpid, idleProcessPid] at hpos
    omega
  · intro hidle
    rw [hidle]
    exact hp.idle

/-- The current process is on no list. -/
theorem current_not_mem (hq : Queued s q (some s.currentProc) none)
    (hidle : s.currentProc ≠ idleSlot) (list : ListHead) :
  s.currentProc ∉ q list
  := by
  intro hmem
  have hstate := hq.state list _ hmem (by simp)
  rw [(hq.running _ hidle (by simp)).mpr rfl] at hstate
  exact list.state_ne_running hstate.symm

/-- A `Wait` that returns with processes on the kill list finds the one that it awaits. -/
theorem wait_awaited {k k' : Kernel} {pid : Int}
    (hq : Queued k.scheduler q (some k.currentProc) none) (hfull : q .killProcList ≠ [])
    (h : k.wait image pid = some k') :
  ∃ i, k.awaited q pid = some i
  := by
  obtain ⟨s, hrun, _⟩ := hq.waitIteration_cons pid hfull
  rw [Kernel.wait, hrun] at h
  cases hawaited : k.awaited q pid with
  | none =>
      rw [hawaited] at h
      cases h
  | some i => exact ⟨i, rfl⟩

/-- The tasks of the rota are pids of processes in use. -/
theorem exists_of_mem_members {pid : Int} (hq : Queued s q (some s.currentProc) none)
    (hpid : pid ∈ (s.rota q).members) :
  ∃ i, i ≠ idleSlot ∧ (s.process i).state ≠ .unused ∧ (s.process i).pid = pid
  := by
  have hlist : ∀ list : ListHead, pid ∈ (q list).map (fun i => (s.process i).pid) →
      ∃ i, i ≠ idleSlot ∧ (s.process i).state ≠ .unused ∧ (s.process i).pid = pid := by
    intro list hmem
    obtain ⟨i, hi, rfl⟩ := List.mem_map.mp hmem
    refine ⟨i, ?_, ?_, rfl⟩
    · rintro rfl
      exact hq.idle list hi
    · rw [hq.state list i hi (by simp)]
      exact list.state_ne_unused
  unfold Rota.members at hpid
  rcases List.mem_append.mp hpid with hmem | hmem
  · by_cases hidle : s.currentProc = idleSlot
    · simp [Scheduler.rota, hidle] at hmem
    · rw [Scheduler.rota, Queues.rota_running hidle, Option.toList_some, List.mem_singleton] at hmem
      exact ⟨s.currentProc, hidle, hq.current_used, hmem.symm⟩
  rcases List.mem_append.mp hmem with hmem | hmem
  · exact hlist .readyProcList hmem
  rcases List.mem_append.mp hmem with hmem | hmem
  · apply hlist .waitProcList
    simpa [Scheduler.rota] using hmem
  · exact hlist .killProcList hmem

/-- The rota after `Schedule`. -/
theorem rota_dispatch {name waitId : Slot → Int} (hidle : idleSlot ∉ q .readyProcList)
    (hcurrent : s'.currentProc = q.head) (hname : ∀ i, (s'.process i).pid = name i)
    (hwait : ∀ i ∈ q .waitProcList, (s'.process i).waitId = waitId i) :
  s'.rota q.tail = (q.rota name waitId idleSlot).dispatch
  := by
  rw [← Queues.rota_tail hidle, Scheduler.rota, hcurrent]
  apply Queues.rota_congr
  · exact fun _ i _ => hname i
  · exact fun _ => hname _
  · intro i hi
    rw [Queues.tail_of_ne (by simp)] at hi
    exact hwait i hi

end Queued

/-- The steps of the scheduler that keep the pids. -/
theorem OnRota.of_queued {s s' : Scheduler} {q' : Queues} {r : Option Slot} (hp : Pids s)
    (hold : OldPids s s') (hq' : Queued s' q' r none) (hr : r = some s'.currentProc)
    (hcreated : s'.created < 2 ^ 31 - 1) :
  OnRota s' (s'.rota q')
  := ⟨q', hr ▸ hq', hold.distinct hq'.idle_used (fun _ => hp) hcreated, rfl⟩

section

variable {k k' : Kernel} {q : Queues}

/-- The timer interrupt is a tick. -/
theorem yield_onRota {s s' : Scheduler} {r : Rota Int Int} (h : OnRota s r)
    (hrun : yield s = some s') (hcreated : s'.created < 2 ^ 31 - 1) :
  ∃ r', Rota.step .tick r = some r' ∧ OnRota s' r'
  := by
  obtain ⟨q, hq, hp, rfl⟩ := h
  by_cases hready : q .readyProcList = []
  · rw [← Option.some.inj ((hq.yield_nil hready).symm.trans hrun)]
    refine ⟨s.rota q, ?_, q, hq, hp, rfl⟩
    rw [Rota.step, if_pos (by simp [Scheduler.rota, hready])]
  · obtain ⟨s₁, hrun₁, hcurrent, hres, hwait, hq'⟩ := hq.yield_cons hready
    obtain rfl := Option.some.inj (hrun₁.symm.trans hrun)
    refine ⟨_, ?_, OnRota.of_queued hp hres.oldPids hq' (congrArg some hcurrent.symm) hcreated⟩
    rw [Rota.step, if_neg (by simpa [Scheduler.rota] using hready)]
    have hidle : idleSlot ∉ Queued.yielded s q .readyProcList := by
      unfold Queued.yielded
      split
      · exact hq.idle .readyProcList
      next hpid =>
        rw [Queues.push_self, List.mem_append, List.mem_singleton]
        rintro (hmem | e)
        · exact hq.idle .readyProcList hmem
        · exact hpid ((hq.pid_current hp).mpr e.symm)
    rw [Queued.rota_dispatch hidle hcurrent hres.pid (fun i _ => hwait i)]
    congr 1
    unfold Queued.yielded
    by_cases e : s.currentProc = idleSlot
    · rw [if_pos ((hq.pid_current hp).mpr e)]
      simp [Scheduler.rota, Rota.dispatch, e]
    · rw [if_neg (fun hpid => e ((hq.pid_current hp).mp hpid)), Queues.rota_push_ready]
      simp [Scheduler.rota, Rota.dispatch, Queues.rota_running e]

/-- `Sleep` waits. -/
theorem sleep_onRota {s s' : Scheduler} {r : Rota Int Int} {waitId : Int} (h : OnRota s r)
    (hidle : s.currentProc ≠ idleSlot) (hrun : sleep waitId s = some s')
    (hcreated : s'.created < 2 ^ 31 - 1) :
  ∃ r', Rota.step (.wait waitId) r = some r' ∧ OnRota s' r'
  := by
  obtain ⟨q, hq, hp, rfl⟩ := h
  obtain ⟨s₁, hrun₁, hcurrent, hres, hwait, hq'⟩ := hq.sleep hidle waitId
  obtain rfl := Option.some.inj (hrun₁.symm.trans hrun)
  refine ⟨_, ?_, OnRota.of_queued hp hres.oldPids hq' (congrArg some hcurrent.symm) hcreated⟩
  have hhead : s₁.currentProc = (q.push .waitProcList s.currentProc).head := by
    rw [hcurrent, Queues.head, Queues.head, Queues.push_of_ne (by simp)]
  have hready : idleSlot ∉ q.push .waitProcList s.currentProc .readyProcList := by
    rw [Queues.push_of_ne (by simp)]
    exact hq.idle .readyProcList
  have hsame : q.rota (fun i => (s.process i).pid)
      (fun i => if i = s.currentProc then waitId else (s.process i).waitId) idleSlot
      = q.rota (fun i => (s.process i).pid) (fun i => (s.process i).waitId) idleSlot := by
    apply Queues.rota_congr (fun _ _ _ => rfl) (fun _ => rfl)
    intro i hi
    apply if_neg
    rintro rfl
    exact hq.current_not_mem hidle _ hi
  rw [Queued.rota_dispatch hready hhead hres.pid (fun i _ => hwait i), Queues.rota_push_wait, hsame,
    Rota.step, Scheduler.rota, Queues.rota_running hidle, Option.map_some]
  simp [Rota.dispatch]

/-- `Wakeup` wakes. -/
theorem wakeup_onRota {s s' : Scheduler} {r : Rota Int Int} {waitId : Int} (h : OnRota s r)
    (hrun : wakeup waitId s = some s') (hcreated : s'.created < 2 ^ 31 - 1) :
  ∃ r', Rota.step (.wake waitId) r = some r' ∧ OnRota s' r'
  := by
  obtain ⟨q, hq, hp, rfl⟩ := h
  obtain ⟨s₁, hrun₁, hcurrent, hres, hwait, hq'⟩ := hq.wakeup waitId
  obtain rfl := Option.some.inj (hrun₁.symm.trans hrun)
  refine ⟨_, ?_, OnRota.of_queued hp hres.oldPids hq' (congrArg some hcurrent.symm) hcreated⟩
  unfold Scheduler.rota
  simp only [hcurrent, hres.pid, hwait]
  rw [Rota.step, ← Queues.rota_wake]
  rfl

/-- `Exit` leaves and wakes the processes in `Wait`. -/
theorem exit_onRota {s s' : Scheduler} {r : Rota Int Int} (h : OnRota s r)
    (hidle : s.currentProc ≠ idleSlot) (hrun : exit s = some s')
    (hcreated : s'.created < 2 ^ 31 - 1) :
  (∃ r', Rota.step (.leave initProcessWaitId) r = some r' ∧ OnRota s' r')
    ∧ (s'.process s.currentProc).state = .killed
  := by
  obtain ⟨q, hq, hp, rfl⟩ := h
  obtain ⟨s₁, hrun₁, hcurrent, hres, hwait, hq'⟩ := hq.exit hidle
  obtain rfl := Option.some.inj (hrun₁.symm.trans hrun)
  have hkill : s.currentProc ∈ (Queued.exited s q).tail .killProcList := by
    rw [Queues.tail_of_ne (by simp), Queued.exited, Queues.wake, Queues.push_self]
    simp
  refine ⟨⟨_, ?_, OnRota.of_queued hp hres.oldPids hq' (congrArg some hcurrent.symm) hcreated⟩,
    hq'.state .killProcList _ hkill (by simp)⟩
  have hready : idleSlot ∉ Queued.exited s q .readyProcList := by
    rw [Queued.exited, Queues.wake, Queues.push_of_ne (by simp), Queues.push_of_ne (by simp),
      List.mem_append]
    rintro (hmem | hmem)
    · exact hq.idle _ hmem
    · exact hq.idle _ (List.mem_of_mem_filter hmem)
  rw [Queued.rota_dispatch hready hcurrent hres.pid (fun i _ => hwait i), Queued.exited]
  unfold Queued.waiting
  rw [Queues.rota_wake, Queues.rota_push_kill, Rota.step, Scheduler.rota,
    Queues.rota_running hidle, Option.map_some]
  simp [Rota.dispatch, Rota.wake]

/-- Nothing happens on the rota when only files change. -/
theorem OnlyFiles.onRota {s s' : Scheduler} {r : Rota Int Int} (hs : OnlyFiles s s')
    (h : OnRota s r) (hcreated : s'.created < 2 ^ 31 - 1) :
  OnRota s' r
  := by
  obtain ⟨q, hq, hp, rfl⟩ := h
  have hq' := hs.queued hq
  have hrota : s.rota q = s'.rota q := by
    unfold Scheduler.rota
    simp only [hs.currentProc, hs.pid, hs.waitId]
  rw [hrota]
  exact OnRota.of_queued hp hs.oldPids hq' (congrArg some hs.currentProc.symm) hcreated

/-- `Wait` waits for a killed process, or reaps the one that it finds. -/
theorem wait_onRota {r : Rota Int Int} {pid : Int} (h : OnRota k.scheduler r)
    (hidle : k.currentProc ≠ idleSlot) (hrun : k.wait image pid = some k')
    (hcreated : k'.scheduler.created < 2 ^ 31 - 1) :
  ∃ r', stutter Rota.step (k.rotaEvent image (.wait pid)) r = some r' ∧ OnRota k'.scheduler r'
  := by
  obtain ⟨q, hq, hp, rfl⟩ := id h
  unfold Kernel.rotaEvent
  dsimp only
  by_cases hempty : q .killProcList = []
  · rw [if_pos ((hq.holds.listIsEmpty_iff .killProcList).mpr hempty)]
    rw [Kernel.wait, hq.waitIteration_nil pid hempty] at hrun
    obtain ⟨_, houtcome, hrun⟩ := Option.bind_eq_some_iff.mp hrun
    obtain ⟨s, hsleep, rfl⟩ := Option.map_eq_some_iff.mp houtcome
    obtain rfl := Option.some.inj hrun
    exact sleep_onRota h hidle hsleep hcreated
  · rw [if_neg (fun hlist => hempty ((hq.holds.listIsEmpty_iff .killProcList).mp hlist)), stutter_some]
    have hmem : pid ∈ (k.scheduler.rota q).dead := by
      obtain ⟨i, hi⟩ := hq.wait_awaited hempty hrun
      have hpid : (k.process i).pid = pid := by simpa using List.find?_some hi
      rw [Scheduler.rota, Queues.rota_dead, ← hpid]
      exact List.mem_map_of_mem (List.mem_of_find?_eq_some hi)
    rcases hq.wait hrun with ⟨i, _, _, hcurrent, hzero, hothers, hpidNum, hcreated', hq'⟩ | ⟨e, _⟩
    · have hold : OldPids k.scheduler k'.scheduler := by
        refine ⟨hpidNum, hcreated', ?_⟩
        intro j hj
        have hne : j ≠ i := by
          rintro rfl
          exact hj (congrArg Process.state hzero)
        have hsame : k'.scheduler.process j = k.scheduler.process j := hothers j hne
        rw [hsame] at hj ⊢
        exact ⟨hj, rfl⟩
      have hcur : k'.scheduler.currentProc = k.scheduler.currentProc := hcurrent
      have hapart : ∀ list, ∀ j ∈ q.remove .killProcList (fun i => (k.process i).pid = pid) list,
          j ≠ i := by
        rintro list j hj rfl
        have hstate := hq'.state list j hj (by simp)
        exact list.state_ne_unused (hstate.symm.trans (congrArg Process.state hzero))
      have hused : k'.scheduler.currentProc ≠ i := by
        rw [hcur]
        rintro rfl
        have hstate := (hq'.running _ hidle (by simp)).mpr rfl
        cases hstate.symm.trans (congrArg Process.state hzero)
      refine ⟨_, ?_, OnRota.of_queued hp hold hq' (congrArg some hcur.symm) hcreated⟩
      rw [Rota.step, if_pos hmem]
      congr 1
      unfold Scheduler.rota
      rw [← Queues.rota_remove, hcur]
      symm
      apply Queues.rota_congr
      · exact fun list j hj => congrArg Process.pid (hothers j (hapart list j hj))
      · intro _
        rw [← hcur]
        exact congrArg Process.pid (hothers _ hused)
      · exact fun j hj => congrArg Process.waitId (hothers j (hapart _ j hj))
    · exact absurd e hempty

/-- `Fork` spawns the pid that it returns, or fails. -/
theorem fork_onRota {r : Rota Int Int} {ret : Int} (h : OnRota k.scheduler r)
    (hrun : fork image k = some (ret, k')) (hcreated : k'.scheduler.created < 2 ^ 31 - 1) :
  ∃ r', stutter Rota.step (k.rotaEvent image .fork) r = some r' ∧ OnRota k'.scheduler r'
  := by
  obtain ⟨q, hq, hp, rfl⟩ := h
  obtain ⟨new, hgrown, hcase⟩ := hq.fork hrun
  have hnew : ∀ i, new = some i → i ≠ idleSlot := by
    rintro i hi rfl
    exact hq.idle_used (hgrown.unused idleSlot hi)
  have hp' : Pids k'.scheduler := hgrown.distinct hnew (fun _ => hp) hcreated
  have hlists : ∀ list, ∀ j ∈ q list, k'.scheduler.process j = k.scheduler.process j := by
    intro list j hj
    apply hgrown.process
    intro hi
    have hstate := hq.state list j hj (by simp)
    exact list.state_ne_unused (hstate.symm.trans (hgrown.unused j hi))
  have hcurrent : k'.scheduler.process k.scheduler.currentProc
      = k.scheduler.process k.scheduler.currentProc := by
    apply hgrown.process
    exact fun hi => hq.current_used (hgrown.unused _ hi)
  have hsame : q.rota (fun i => (k'.process i).pid) (fun i => (k'.process i).waitId)
      k'.scheduler.currentProc = k.scheduler.rota q := by
    rw [hgrown.currentProc]
    apply Queues.rota_congr
    · exact fun list j hj => congrArg Process.pid (hlists list j hj)
    · exact fun _ => congrArg Process.pid hcurrent
    · exact fun j hj => congrArg Process.waitId (hlists _ j hj)
  unfold Kernel.rotaEvent
  dsimp only
  rw [hrun]
  rcases hcase with ⟨rfl, _, hq', _⟩ | ⟨i, rfl, rfl, _, hq', _, _⟩
  · have hneg : ¬ (0 : Int) ≤ -enomem := by decide
    rw [Option.filter_some, if_neg (by simpa using hneg), Option.map_none, stutter_none]
    refine ⟨_, rfl, q, ?_, hp', hsame.symm⟩
    rw [hgrown.currentProc]
    exact hq'
  · have hpos : (0 : Int) ≤ k.scheduler.pidNum := by
      rw [hp.pidNum]
      omega
    have hfresh : k.scheduler.pidNum ∉ (k.scheduler.rota q).members := by
      intro hmem
      obtain ⟨j, hj, hused, hpid⟩ := hq.exists_of_mem_members hmem
      have hle := (hp.bound j hj hused).2
      rw [hpid, hp.pidNum] at hle
      omega
    rw [Option.filter_some, if_pos (by simpa using hpos), Option.map_some, stutter_some, Rota.step,
      if_neg hfresh]
    refine ⟨_, rfl, q.push .readyProcList i, ?_, hp', ?_⟩
    · rw [hgrown.currentProc]
      exact hq'
    · have hname : (k'.process i).pid = k.scheduler.pidNum := hgrown.pid i rfl
      rw [← hsame, ← hname]
      exact Queues.rota_push_ready.symm

/-- The operations that the scheduler performs itself. -/
def Operation.schedules : Operation → Bool
  | .yield | .sleep _ | .wakeup _ | .wait _ | .fork => true
  | _ => false

/-- The other operations only change files of the current process, and may end in `Exit`. -/
theorem Kernel.step_exits {op : Operation} (hop : op.schedules = false)
    (hcurrent : (k.process k.currentProc).state ≠ .unused) (h : k.step image op = some k') :
  ∃ s, OnlyFiles k.scheduler s ∧ (k'.scheduler = s ∨ LarvaOS.exit s = some k'.scheduler)
  := by
  cases op with
  | yield | sleep | wakeup | wait | fork => cases hop
  | exit =>
      obtain ⟨s, hs, rfl⟩ := Kernel.exit_eq_some.mp h
      exact ⟨k.scheduler, OnlyFiles.refl _, Or.inr hs⟩
  | openFile fileName =>
      obtain ⟨⟨ret, k₁⟩, hopen, rfl⟩ := Option.map_eq_some_iff.mp h
      exact ⟨_, openFile_onlyFiles hcurrent hopen, Or.inl rfl⟩
  | closeFile fd => exact ⟨_, closeFile_onlyFiles hcurrent h, Or.inl rfl⟩
  | readFile fd buffer size =>
      obtain ⟨⟨ret, k₁⟩, hread, rfl⟩ := Option.map_eq_some_iff.mp h
      refine ⟨_, ?_, Or.inl rfl⟩
      rw [readFile_scheduler hread]
      exact OnlyFiles.refl _
  | lstat statbuf =>
      obtain ⟨⟨ret, k₁⟩, hlstat, rfl⟩ := Option.map_eq_some_iff.mp h
      obtain ⟨⟨total, m⟩, _, hk⟩ := Option.bind_eq_some_iff.mp hlstat
      obtain ⟨rfl, rfl⟩ := Prod.mk.inj (Option.some.inj hk)
      exact ⟨_, OnlyFiles.refl _, Or.inl rfl⟩
  | exec filename => exact exec_scheduler hcurrent h
  | store v c =>
      unfold Kernel.step Kernel.store at h
      dsimp only at h
      split at h
      next m _ =>
        obtain rfl := Option.some.inj h
        exact ⟨_, OnlyFiles.refl _, Or.inl rfl⟩
      next =>
        obtain ⟨s, hs, rfl⟩ := Kernel.exit_eq_some.mp h
        exact ⟨k.scheduler, OnlyFiles.refl _, Or.inr hs⟩
  | push offset c =>
      unfold Kernel.step Kernel.push at h
      dsimp only at h
      split at h
      case isTrue =>
        obtain rfl := Option.some.inj h
        exact ⟨_, OnlyFiles.refl _, Or.inl rfl⟩
      case isFalse => cases h

/-- An operation that only changes files, or ends in `Exit`. -/
theorem files_onRota {op : Operation} {r : Rota Int Int} {s : Scheduler}
    (h : OnRota k.scheduler r) (hidle : k.currentProc ≠ idleSlot) (hs : OnlyFiles k.scheduler s)
    (hcase : k'.scheduler = s ∨ exit s = some k'.scheduler) (hstep : k.step image op = some k')
    (hevent : k.rotaEvent image op
      = if k.kills image op then some (.leave initProcessWaitId) else none)
    (hcreated : k'.scheduler.created < 2 ^ 31 - 1) :
  ∃ r', stutter Rota.step (k.rotaEvent image op) r = some r' ∧ OnRota k'.scheduler r'
  := by
  have hcurrent : s.currentProc = k.scheduler.currentProc := hs.currentProc
  rw [hevent, Kernel.kills, hstep, Option.any_some]
  rcases hcase with rfl | hexit
  · obtain ⟨q, hq, hp, rfl⟩ := id h
    have hstate : (k'.process k.currentProc).state ≠ .killed := by
      have hsame := hs.state k.scheduler.currentProc
      rw [(hq.running _ hidle (by simp)).mpr rfl] at hsame
      intro hkilled
      cases hsame.symm.trans hkilled
    rw [if_neg (by simpa using hstate)]
    exact ⟨_, rfl, hs.onRota h hcreated⟩
  · have hidle' : s.currentProc ≠ idleSlot := by rwa [hcurrent]
    have hs' : s.created < 2 ^ 31 - 1 := by
      obtain ⟨q, hq, _⟩ := id h
      have hqs := hs.queued hq
      rw [← hcurrent] at hqs
      obtain ⟨s', hrun, _, hres, _⟩ := hqs.exit hidle'
      obtain rfl := Option.some.inj (hrun.symm.trans hexit)
      rwa [← hres.created]
    obtain ⟨⟨r', hr', hon⟩, hkilled⟩ := exit_onRota (hs.onRota h hs') hidle' hexit hcreated
    rw [hcurrent] at hkilled
    rw [if_pos (by simpa using hkilled)]
    exact ⟨r', hr', hon⟩

/-- Every step of the system is an event of the rota, or nothing. -/
theorem simulation_rota :
  Simulation (Kernel.step image) (Numbered image) Rota.step (fun op k => k.rotaEvent image op)
    (fun k r => OnRota k.scheduler r)
  where
  step op k k' r h hok hstep := by
    obtain ⟨⟨hallowed, _⟩, hnumbered⟩ := hok
    have hcreated := hnumbered k' hstep
    have hcurrent : (k.process k.currentProc).state ≠ .unused := by
      obtain ⟨q, hq, _⟩ := h
      exact hq.current_used
    cases op with
    | yield =>
        obtain ⟨s, hs, rfl⟩ := Kernel.schedule_eq_some.mp hstep
        exact yield_onRota h hs hcreated
    | sleep waitId =>
        obtain ⟨s, hs, rfl⟩ := Kernel.schedule_eq_some.mp hstep
        exact sleep_onRota h (hallowed rfl) hs hcreated
    | wakeup waitId =>
        obtain ⟨s, hs, rfl⟩ := Kernel.schedule_eq_some.mp hstep
        exact wakeup_onRota h hs hcreated
    | wait pid => exact wait_onRota h (hallowed rfl) hstep hcreated
    | fork =>
        obtain ⟨⟨ret, k₁⟩, hfork, rfl⟩ := Option.map_eq_some_iff.mp hstep
        exact fork_onRota h hfork hcreated
    | exit | openFile | closeFile | readFile | lstat | exec | store | push =>
        obtain ⟨s, hs, hcase⟩ := Kernel.step_exits rfl hcurrent hstep
        exact files_onRota h (hallowed rfl) hs hcase hstep rfl hcreated

/-! ### Runs -/

/-- No step takes back a pid. -/
theorem SchedulerStep.created_le {op : Operation} (h : SchedulerStep image op k k')
    (hq : Consistent k.scheduler) :
  k.scheduler.created ≤ k'.scheduler.created
  := by
  obtain ⟨q, hq⟩ := hq
  rcases h.pids hq with hold | ⟨new, hgrown, _⟩
  · rw [hold.created]
  · rcases hgrown.counters with ⟨_, _, hcreated⟩ | ⟨_, hcreated⟩
    · rw [hcreated]
    · rw [hcreated]
      exact Nat.le_succ _

/-- A run at whose end the pids have not run out. -/
theorem Run.numbered {ops : List Operation}
    (h : Run (Kernel.step image) (InBounds image) k ops k')
    (hq : Consistent k.scheduler) (hcreated : k'.scheduler.created < 2 ^ 31 - 1) :
  k.scheduler.created < 2 ^ 31 - 1 ∧ Run (Kernel.step image) (Numbered image) k ops k'
  := by
  have hcases : ∀ op k k', InBounds image op k ∧ Consistent k.scheduler →
      k.step image op = some k' → SchedulerStep image op k k' := by
    rintro op k k' ⟨hok, q, hq⟩ hstep
    exact Kernel.step_cases hq.current_used hok.1 hstep
  have hrun := h.invariant (P := fun k => Consistent k.scheduler)
    (fun op k k' hq hok hstep => (hcases op k k' ⟨hok, hq⟩ hstep).consistent hq) hq
  refine hrun.strengthen (P := fun k => k.scheduler.created < 2 ^ 31 - 1) ?_ ?_ hcreated
  · rintro op k k' hok hstep hlt
    exact Nat.lt_of_le_of_lt ((hcases op k k' hok hstep).created_le hok.2) hlt
  · rintro op k k' hok hstep hlt
    refine ⟨hok.1, ?_⟩
    intro k₁ hstep₁
    rwa [← Option.some.inj (hstep.symm.trans hstep₁)]

/-- `InitProcess` creates one process besides IDLE. -/
theorem initProcess_created {cr3 : Fin (2 ^ 64)} {m : Memory} {files : FileSystem}
    (h : initProcess image ⟨m, files, Scheduler.initial cr3⟩ = some k) :
  k.scheduler.created = 1
  := by
  obtain ⟨i, hgrown, _⟩ := initProcess_spec h
  rcases hgrown.counters with ⟨hnone, _⟩ | ⟨_, hcreated⟩
  · cases hnone
  · rw [hcreated]
    rfl

/-- After `InitProcess` the shell is the only task, and it is ready. -/
theorem initProcess_onRota {cr3 : Fin (2 ^ 64)} {m : Memory} {files : FileSystem}
    (h : initProcess image ⟨m, files, Scheduler.initial cr3⟩ = some k) :
  OnRota k.scheduler ⟨none, [1], [], []⟩
  := by
  obtain ⟨i, hgrown, hq, _⟩ := initProcess_spec h
  have hcurrent : k.scheduler.currentProc = idleSlot := hgrown.currentProc
  have hnew : ∀ j, some i = some j → j ≠ idleSlot := by
    rintro j hj rfl
    have hunused := hgrown.unused idleSlot hj
    rw [idle_process_self] at hunused
    cases hunused
  have hcreated : k.scheduler.created < 2 ^ 31 - 1 := by
    rw [initProcess_created h]
    decide
  have hpid : (k.scheduler.process i).pid = 1 := hgrown.pid i rfl
  refine ⟨Queues.push (fun _ => []) .readyProcList i, ?_,
    hgrown.distinct hnew (idle_distinct cr3) hcreated, ?_⟩
  · rw [hcurrent]
    exact hq
  · rw [Scheduler.rota, hcurrent]
    apply Rota.ext <;> simp [Queues.rota, hpid]

end

end LarvaOS
