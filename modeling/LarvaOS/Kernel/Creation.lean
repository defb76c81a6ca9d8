import LarvaOS.Kernel.System
import LarvaOS.Process.Operations

/-!
# The scheduler when processes are created and reaped

`CreateNewProcess` and `Fork` act on the scheduler in the same way for every state of
the memory: an unused slot becomes a process, or it stays unused, and at most the
counter of pids changes.  `Grown s s' new` describes the processes afterwards, where
`new` is the slot of the new process, if there is one.
-/

namespace LarvaOS

variable {image : Image}

/-! ### CreateNewProcess -/

/-- The scheduler when `CreateNewProcess` has made a process. -/
def Scheduler.newProcess (s : Scheduler) (proc : Slot) (stack pageMap : ℕ) : Scheduler :=
  (s.startProcess proc stack).setProcess proc
    { (s.startProcess proc stack).process proc with pageMap := pageMap }

/-- What `CreateNewProcess` does to the scheduler. -/
theorem createNewProcess_cases {k k' : Kernel} {new : Option Slot}
    (h : createNewProcess image k = some (new, k')) :
  k'.files = k.files
    ∧ (new = none ∧ k' = k ∧ findFreeProcessSlot k.scheduler = none
      ∨ ∃ i, findFreeProcessSlot k.scheduler = some i
        ∧ (new = none ∧ k'.scheduler = k.scheduler.setProcess i { k.process i with stack := 0 }
          ∨ (∃ stack, new = none ∧ k'.scheduler = (k.scheduler.startProcess i stack).clearProcess i)
          ∨ ∃ stack pageMap, new = some i ∧ k'.scheduler = k.scheduler.newProcess i stack pageMap))
  := by
  unfold createNewProcess at h
  cases hfind : findFreeProcessSlot k.scheduler with
  | none =>
      rw [hfind] at h
      obtain ⟨rfl, rfl⟩ := Prod.mk.inj (Option.some.inj h)
      simp
  | some i =>
      rw [hfind] at h
      obtain ⟨⟨stack, m⟩, _, h⟩ := Option.bind_eq_some_iff.mp h
      dsimp only at h
      split at h
      case isTrue =>
        obtain ⟨rfl, rfl⟩ := Prod.mk.inj (Option.some.inj h)
        use rfl
        right
        use i, rfl
        exact Or.inl ⟨rfl, rfl⟩
      case isFalse =>
        obtain ⟨⟨pageMap, m₁⟩, _, h⟩ := Option.bind_eq_some_iff.mp h
        dsimp only at h
        split at h
        case isTrue =>
          obtain ⟨m₂, _, h⟩ := Option.bind_eq_some_iff.mp h
          obtain ⟨rfl, rfl⟩ := Prod.mk.inj (Option.some.inj h)
          use rfl
          right
          use i, rfl
          exact Or.inr (Or.inl ⟨stack, rfl, rfl⟩)
        case isFalse =>
          obtain ⟨rfl, rfl⟩ := Prod.mk.inj (Option.some.inj h)
          use rfl
          right
          use i, rfl
          exact Or.inr (Or.inr ⟨stack, pageMap, rfl, rfl⟩)

/-- The processes after an unused slot may have become the process `new`. -/
structure Grown (s s' : Scheduler) (new : Option Slot) : Prop where
  currentProc : s'.currentProc = s.currentProc
  process : ∀ j, new ≠ some j → s'.process j = s.process j
  unused : ∀ i, new = some i → (s.process i).state = .unused
  pid : ∀ i, new = some i → (s'.process i).pid = s.pidNum
  used : ∀ i, new = some i → (s'.process i).state ≠ .unused
  counters : new = none ∧ s'.pidNum = s.pidNum ∧ s'.created = s.created
    ∨ s'.pidNum = int32 (s.pidNum + 1) ∧ s'.created = s.created + 1

section

variable {s : Scheduler} {q : Queues} {r : Option Slot} {i : Slot}

/-- The fields of the process that `CreateNewProcess` makes. -/
theorem newProcess_process (s : Scheduler) (i : Slot) (stack pageMap : ℕ) :
  (s.newProcess i stack pageMap).process i
    = { pid := s.pidNum
        waitId := 0
        state := .initialized
        pageMap := pageMap
        context := contextAddress stack
        stack := stack
        tf := trapFrameAddress stack
        file := (s.process i).file }
  := by
  unfold Scheduler.newProcess
  rw [Scheduler.setProcess_self]
  unfold Scheduler.startProcess Scheduler.setProcess Scheduler.process
  dsimp only
  rw [Function.update_self]

theorem newProcess_of_ne {j : Slot} (hj : j ≠ i) (s : Scheduler) (stack pageMap : ℕ) :
  (s.newProcess i stack pageMap).process j = s.process j
  := by
  unfold Scheduler.newProcess
  rw [Scheduler.setProcess_of_ne hj]
  exact Function.update_of_ne hj _ _

/-- Clearing the slot of a process that was just started restores all processes. -/
theorem clear_startProcess (hi : s.process i = Process.zero) (stack : ℕ) (j : Slot) :
  ((s.startProcess i stack).clearProcess i).process j = s.process j
  := by
  by_cases e : j = i
  · rw [e, hi]
    exact Function.update_self _ _ _
  · exact (Function.update_of_ne e _ _).trans (Function.update_of_ne e _ _)

/-- The slot of a new process is detached from the queues. -/
theorem Queued.newProcess (h : Queued s q r none) (hi : (s.process i).state = .unused)
    (hcurrent : i ≠ s.currentProc) (stack pageMap : ℕ) :
  Queued (s.newProcess i stack pageMap) q r (some i)
  := by
  have hstart : Queued (s.startProcess i stack) q r (some i) :=
    ((h.detach_unused hi).setProcess (Or.inr hcurrent)).congr rfl rfl rfl rfl rfl
  exact hstart.setProcess (Or.inr hcurrent)

/-- `CreateNewProcess` on the queues: the slot of the new process is detached. -/
theorem Queued.createNewProcess {k k' : Kernel} {new : Option Slot}
    (hq : Queued k.scheduler q (some k.currentProc) none)
    (h : createNewProcess image k = some (new, k')) :
  k'.files = k.files ∧ Grown k.scheduler k'.scheduler new
    ∧ Queued k'.scheduler q (some k.currentProc) new
    ∧ ∀ i, new = some i → (k'.process i).state = .initialized
      ∧ (k'.process i).file = fun _ => none
  := by
  obtain ⟨hfiles, ⟨rfl, rfl, _⟩ | ⟨i, hfind, hcase⟩⟩ := createNewProcess_cases h
  · refine ⟨rfl, ⟨rfl, fun _ _ => rfl, by simp, by simp, by simp, by simp⟩, hq, by simp⟩
  have hunused := state_of_findFreeProcessSlot hfind
  have hzero := hq.unused i (by simp) hunused
  have hcurrent : i ≠ k.currentProc := by
    rintro rfl
    rcases hq.current_state with hstate | hstate
    · cases hunused.symm.trans hstate
    · cases hunused.symm.trans hstate
  use hfiles
  rcases hcase with ⟨rfl, hs⟩ | ⟨stack, rfl, hs⟩ | ⟨stack, pageMap, rfl, hs⟩
  · have hsame : k'.scheduler = k.scheduler := by
      have hp : { k.process i with stack := 0 } = k.process i := by
        rw [Kernel.process, hzero]
        rfl
      rw [hs, hp, Scheduler.setProcess]
      exact congrArg (fun p => { k.scheduler with processManager := p })
        (Function.update_eq_self _ _)
    rw [hsame]
    refine ⟨⟨rfl, fun _ _ => rfl, by simp, by simp, by simp, by simp⟩, hq, by simp⟩
  · have hprocess : ∀ j, k'.process j = k.process j := by
      intro j
      rw [Kernel.process, hs]
      exact clear_startProcess hzero stack j
    refine ⟨⟨?_, fun j _ => hprocess j, by simp, by simp, by simp, Or.inr ?_⟩, ?_, by simp⟩
    · rw [hs]
      rfl
    · rw [hs]
      exact ⟨rfl, rfl⟩
    · rw [hs]
      have hstart : Queued (k.scheduler.startProcess i stack) q (some k.currentProc) (some i) :=
        ((hq.detach_unused hunused).setProcess (Or.inr hcurrent)).congr rfl rfl rfl rfl rfl
      exact hstart.clear hcurrent
  · have hself : k'.process i = _ := (congrFun (congrArg Scheduler.processManager hs) i).trans
      (newProcess_process k.scheduler i stack pageMap)
    have hsome : ∀ j, some i = some j → j = i := fun j hj => (Option.some.inj hj).symm
    refine ⟨⟨?_, ?_, ?_, ?_, ?_, Or.inr ?_⟩, ?_, ?_⟩
    · rw [hs]
      rfl
    · intro j hj
      rw [hs]
      exact newProcess_of_ne (fun e => hj (congrArg some e.symm)) _ _ _
    · intro j hj
      rw [hsome j hj]
      exact hunused
    · intro j hj
      rw [hsome j hj]
      exact congrArg Process.pid hself
    · intro j hj hstate
      rw [hsome j hj] at hstate
      cases (congrArg Process.state hself).symm.trans hstate
    · rw [hs]
      exact ⟨rfl, rfl⟩
    · rw [hs]
      exact hq.newProcess hunused hcurrent stack pageMap
    · intro j hj
      rw [hsome j hj, hself, hzero]
      exact ⟨rfl, rfl⟩

end

/-! ### Fork -/

/-- The steps of `Fork`. -/
theorem fork_cases {k k' : Kernel} {ret : Int} (h : fork image k = some (ret, k')) :
  ∃ new k₁, createNewProcess image k = some (new, k₁)
    ∧ (new = none ∧ ret = -enomem ∧ k' = k₁
      ∨ ∃ i copied m, new = some i
        ∧ copyUVM image (k₁.process i).pageMap (k₁.process k.currentProc).pageMap pageSize
          k₁.memory = some (copied, m)
        ∧ (copied = false ∧ ret = -enomem ∧ k' = { k₁ with memory := m }
          ∨ copied = true ∧ startFork i k.currentProc { k₁ with memory := m } = some k'
            ∧ ret = (k'.process i).pid))
  := by
  obtain ⟨⟨new, k₁⟩, hcreate, h⟩ := Option.bind_eq_some_iff.mp h
  use new, k₁, hcreate
  cases new with
  | none =>
      obtain ⟨rfl, rfl⟩ := Prod.mk.inj (Option.some.inj h)
      simp
  | some i =>
      obtain ⟨⟨copied, m⟩, hcopy, h⟩ := Option.bind_eq_some_iff.mp h
      right
      use i, copied, m, rfl, hcopy
      cases copied with
      | false =>
          obtain ⟨rfl, rfl⟩ := Prod.mk.inj (Option.some.inj h)
          simp
      | true =>
          obtain ⟨k₂, hstart, h⟩ := Option.bind_eq_some_iff.mp h
          obtain ⟨rfl, rfl⟩ := Prod.mk.inj (Option.some.inj h)
          exact Or.inr ⟨rfl, hstart, rfl⟩

section

variable {q : Queues} {r : Option Slot} {i : Slot} {k k' : Kernel}

/-- The last part of `Fork` on the queues: the new process is appended to the ready
queue. -/
theorem Queued.startFork {current : Slot} (hq : Queued k.scheduler q r (some i))
    (hi : i ≠ k.currentProc) (h : startFork i current k = some k') :
  k.files.addReferences (k.process current).openFiles = some k'.files
    ∧ k'.currentProc = k.currentProc ∧ k'.scheduler.pidNum = k.scheduler.pidNum
    ∧ k'.scheduler.created = k.scheduler.created
    ∧ (∀ j, j ≠ i → k'.process j = k.process j)
    ∧ k'.process i = { k.process i with file := (k.process current).file, state := .ready }
    ∧ k'.memory = (k.memory.copy (k.process i).tf (k.process current).tf sizeofTrapFrame).storeWord
      ((k.process i).tf + 112) 0
    ∧ Queued k'.scheduler (q.push .readyProcList i) r none
  := by
  obtain ⟨files, hfiles, h⟩ := Option.bind_eq_some_iff.mp h
  obtain ⟨s, hpush, h⟩ := Option.bind_eq_some_iff.mp h
  obtain rfl := Option.some.inj h
  have hset := hq.setProcess (p := { k.process i with
    file := (k.process current).file, state := .ready }) (Or.inr hi)
  obtain ⟨s', hrun, hprocess, hres, hcurrent, hq'⟩ := hset.attach_ready
    (congrArg Process.state (Scheduler.setProcess_self _ _ _))
  obtain rfl := Option.some.inj (hpush.symm.trans hrun)
  refine ⟨hfiles, hcurrent, hres.pidNum, hres.created, ?_, ?_, rfl, hq'⟩
  · intro j hj
    exact (congrFun hprocess j).trans (Scheduler.setProcess_of_ne hj _ _)
  · exact (congrFun hprocess i).trans (Scheduler.setProcess_self _ _ _)

/-- A process that is only initialized is on no list. -/
theorem Queued.release_initialized {s : Scheduler} (h : Queued s q r (some i))
    (hi : (s.process i).state = .initialized) :
  Queued s q r none
  := by
  apply h.release
  · rw [hi]
    simp
  · intro list hlist
    exact absurd (hi.symm.trans hlist).symm list.state_ne_initialized
  · intro hunused
    cases hi.symm.trans hunused

/-- `Fork` on the queues. -/
theorem Queued.fork {ret : Int} (hq : Queued k.scheduler q (some k.currentProc) none)
    (h : fork image k = some (ret, k')) :
  ∃ new, Grown k.scheduler k'.scheduler new
    ∧ (ret = -enomem ∧ k'.files = k.files ∧ Queued k'.scheduler q (some k.currentProc) none
        ∧ (∀ i, new = some i → (k'.process i).state = .initialized
          ∧ (k'.process i).file = fun _ => none)
      ∨ ∃ i, new = some i ∧ ret = k.scheduler.pidNum
        ∧ k.files.addReferences (k.process k.currentProc).openFiles = some k'.files
        ∧ Queued k'.scheduler (q.push .readyProcList i) (some k.currentProc) none
        ∧ (k'.process i).state = .ready
        ∧ (k'.process i).file = (k.process k.currentProc).file)
  := by
  obtain ⟨new, k₁, hcreate, hcase⟩ := fork_cases h
  obtain ⟨hfiles, hgrown, hq₁, hnew⟩ := hq.createNewProcess hcreate
  use new
  rcases hcase with ⟨rfl, rfl, rfl⟩ | ⟨i, copied, m, rfl, _, hcopied⟩
  · exact ⟨hgrown, Or.inl ⟨rfl, hfiles, hq₁, by simp⟩⟩
  · obtain ⟨hstate, hfile⟩ := hnew i rfl
    rcases hcopied with ⟨_, rfl, rfl⟩ | ⟨_, hstart, rfl⟩
    · exact ⟨hgrown, Or.inl ⟨rfl, hfiles, hq₁.release_initialized hstate, hnew⟩⟩
    · have hi : i ≠ k₁.currentProc := by
        rintro rfl
        have hr := (hq₁.detached _ rfl).2.1
        rw [Kernel.currentProc, Kernel.currentProc, hgrown.currentProc] at hr
        exact hr rfl
      have hcurrent : k.currentProc ≠ i := by
        rintro rfl
        exact (hq₁.detached _ rfl).2.1 rfl
      obtain ⟨hrefs, hcurrent', hpid, hcreated, hprocess, hself, _, hq'⟩ :=
        Queued.startFork (k := { k₁ with memory := m }) hq₁ hi hstart
      have hsame : k₁.process k.currentProc = k.process k.currentProc :=
        hgrown.process k.currentProc (by simpa using Ne.symm hcurrent)
      constructor
      · constructor
        · exact hcurrent'.trans hgrown.currentProc
        · intro j hj
          exact (hprocess j (fun e => hj (congrArg some e.symm))).trans (hgrown.process j hj)
        · exact hgrown.unused
        · intro j hj
          obtain rfl := Option.some.inj hj
          exact (congrArg Process.pid hself).trans (hgrown.pid i rfl)
        · intro j hj hstate'
          obtain rfl := Option.some.inj hj
          cases (congrArg Process.state hself).symm.trans hstate'
        · rcases hgrown.counters with ⟨hnone, _⟩ | ⟨hpid', hcreated'⟩
          · cases hnone
          · exact Or.inr ⟨hpid.trans hpid', hcreated.trans hcreated'⟩
      · right
        use i, rfl
        refine ⟨?_, ?_, hq', congrArg Process.state hself, ?_⟩
        · exact (congrArg Process.pid hself).trans (hgrown.pid i rfl)
        · rw [← hsame, ← hfiles]
          exact hrefs
        · have hshared : (k'.process i).file = (k₁.process k.currentProc).file := by
            rw [hself]
          exact hshared.trans (congrArg Process.file hsame)

/-! ### Wait -/

/-- The clean-up of a killed process on the queues. -/
theorem Queued.reap (hq : Queued k.scheduler q r (some i)) (hi : i ≠ k.currentProc)
    (h : reap image i k = some k') :
  k.files.dropReferences (k.process i).openFiles = some k'.files
    ∧ k'.scheduler = k.scheduler.clearProcess i
    ∧ Queued k'.scheduler q r none
  := by
  obtain ⟨_, _, h⟩ := Option.bind_eq_some_iff.mp h
  obtain ⟨m, _, h⟩ := Option.bind_eq_some_iff.mp h
  obtain ⟨m', _, h⟩ := Option.bind_eq_some_iff.mp h
  obtain ⟨files, hfiles, h⟩ := Option.bind_eq_some_iff.mp h
  obtain rfl := Option.some.inj h
  exact ⟨hfiles, rfl, hq.clear hi⟩

/-- The killed process that `Wait` reaps. -/
def Kernel.awaited (k : Kernel) (q : Queues) (pid : Int) : Option Slot :=
  (q .killProcList).find? (fun i => (k.process i).pid = pid)

/-- An iteration of `Wait` with an empty kill list. -/
theorem Queued.waitIteration_nil (hq : Queued k.scheduler q r none) (pid : Int)
    (hempty : q .killProcList = []) :
  waitIteration image pid k
    = (LarvaOS.sleep initProcessWaitId k.scheduler).map
      (fun s => .slept { k with scheduler := s })
  := by
  have hlist := (hq.holds.listIsEmpty_iff .killProcList).mpr hempty
  rw [waitIteration, if_neg (not_not.mpr hlist)]

/-- An iteration of `Wait` with a nonempty kill list. -/
theorem Queued.waitIteration_cons (hq : Queued k.scheduler q r none) (pid : Int)
    (hfull : q .killProcList ≠ []) :
  ∃ s, waitIteration image pid k = (match k.awaited q pid with
      | none => some (.again { k with scheduler := s })
      | some i => (LarvaOS.reap image i { k with scheduler := s }).map .reaped)
    ∧ s.processManager = k.scheduler.processManager ∧ SameResources k.scheduler s
    ∧ s.currentProc = k.currentProc
    ∧ Queued s (q.remove .killProcList (fun i => (k.process i).pid = pid)) r (k.awaited q pid)
  := by
  have hlist : ¬ listIsEmpty k.scheduler.links (.head .killProcList) := by
    rwa [hq.holds.listIsEmpty_iff .killProcList]
  obtain ⟨s, hrun, hprocess, hres, hcurrent, hq'⟩ :=
    hq.remove .killProcList (by simp) (fun p => p.pid = pid)
  use s
  refine ⟨?_, hprocess, hres, hcurrent, hq'⟩
  rw [waitIteration, if_pos hlist, removeProcessWithPID, hrun]
  unfold Kernel.awaited
  cases (q .killProcList).find? (fun i => decide ((k.process i).pid = pid)) with
  | none => rfl
  | some i => rfl

/-- `Wait` on the queues: it reaps the first killed process with the pid, or sleeps when
no process is killed. -/
theorem Queued.wait {pid : Int} (hq : Queued k.scheduler q (some k.currentProc) none)
    (h : k.wait image pid = some k') :
  (∃ i, i ∈ q .killProcList
      ∧ k.files.dropReferences (k.process i).openFiles = some k'.files
      ∧ k'.currentProc = k.currentProc ∧ k'.process i = Process.zero
      ∧ (∀ j, j ≠ i → k'.process j = k.process j)
      ∧ k'.scheduler.pidNum = k.scheduler.pidNum ∧ k'.scheduler.created = k.scheduler.created
      ∧ Queued k'.scheduler (q.remove .killProcList (fun i => (k.process i).pid = pid))
        (some k.currentProc) none)
    ∨ q .killProcList = [] ∧ ∃ s, LarvaOS.sleep initProcessWaitId k.scheduler = some s
      ∧ k' = { k with scheduler := s }
  := by
  by_cases hempty : q .killProcList = []
  · right
    use hempty
    rw [Kernel.wait, hq.waitIteration_nil pid hempty] at h
    obtain ⟨_, houtcome, h⟩ := Option.bind_eq_some_iff.mp h
    obtain ⟨s, hsleep, rfl⟩ := Option.map_eq_some_iff.mp houtcome
    exact ⟨s, hsleep, (Option.some.inj h).symm⟩
  · left
    obtain ⟨s, hrun, hprocess, hres, hcurrent, hq₁⟩ := hq.waitIteration_cons pid hempty
    rw [Kernel.wait, hrun] at h
    obtain ⟨_, houtcome, h⟩ := Option.bind_eq_some_iff.mp h
    cases hawaited : k.awaited q pid with
    | none =>
        rw [hawaited] at houtcome
        obtain rfl := Option.some.inj houtcome
        cases h
    | some i =>
        rw [hawaited] at houtcome hq₁
        obtain ⟨k₁, hreap, rfl⟩ := Option.map_eq_some_iff.mp houtcome
        obtain rfl := Option.some.inj h
        have hi : i ≠ s.currentProc := by
          rintro rfl
          rw [hcurrent] at hq₁
          exact (hq₁.detached _ rfl).2.1 rfl
        obtain ⟨hdrop, hs, hq'⟩ := Queued.reap (k := { k with scheduler := s }) hq₁ hi hreap
        have hprocess' : ∀ j, s.process j = k.process j := congrFun hprocess
        refine ⟨i, List.mem_of_find?_eq_some hawaited, ?_, ?_, ?_, ?_, ?_, ?_, hq'⟩
        · rw [← hprocess' i]
          exact hdrop
        · rw [Kernel.currentProc, hs]
          exact hcurrent
        · rw [Kernel.process, hs]
          exact Function.update_self _ _ _
        · intro j hj
          rw [← hprocess' j, Kernel.process, hs]
          exact Function.update_of_ne hj _ _
        · rw [hs]
          exact hres.pidNum
        · rw [hs]
          exact hres.created

end

end LarvaOS
