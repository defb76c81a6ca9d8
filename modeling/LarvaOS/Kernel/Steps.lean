import LarvaOS.Kernel.Creation

/-!
# The steps of the system on the queues

The file operations change at most the files of a process, so the scheduler sees seven
kinds of steps.  Every step keeps the queues consistent.
-/

namespace LarvaOS

variable {image : Image}

/-- The schedulers differ at most in the files of processes that are in use. -/
structure OnlyFiles (s s' : Scheduler) : Prop where
  process : ∀ i, ∃ file, s'.process i = { s.process i with file := file }
  unused : ∀ i, (s.process i).state = .unused → s'.process i = s.process i
  links : s'.links = s.links
  currentProc : s'.currentProc = s.currentProc
  pidNum : s'.pidNum = s.pidNum
  cr3 : s'.cr3 = s.cr3
  created : s'.created = s.created
  trace : s'.trace = s.trace

namespace OnlyFiles

variable {s s' s'' : Scheduler} {q : Queues} {r : Option Slot}

theorem refl (s : Scheduler) :
  OnlyFiles s s
  where
  process i := ⟨(s.process i).file, rfl⟩
  unused _ _ := rfl
  links := rfl
  currentProc := rfl
  pidNum := rfl
  cr3 := rfl
  created := rfl
  trace := rfl

theorem state (h : OnlyFiles s s') (i : Slot) :
  (s'.process i).state = (s.process i).state
  := by
  obtain ⟨file, hfile⟩ := h.process i
  rw [hfile]

theorem pid (h : OnlyFiles s s') (i : Slot) :
  (s'.process i).pid = (s.process i).pid
  := by
  obtain ⟨file, hfile⟩ := h.process i
  rw [hfile]

theorem waitId (h : OnlyFiles s s') (i : Slot) :
  (s'.process i).waitId = (s.process i).waitId
  := by
  obtain ⟨file, hfile⟩ := h.process i
  rw [hfile]

theorem pageMap (h : OnlyFiles s s') (i : Slot) :
  (s'.process i).pageMap = (s.process i).pageMap
  := by
  obtain ⟨file, hfile⟩ := h.process i
  rw [hfile]

theorem stack (h : OnlyFiles s s') (i : Slot) :
  (s'.process i).stack = (s.process i).stack
  := by
  obtain ⟨file, hfile⟩ := h.process i
  rw [hfile]

theorem tf (h : OnlyFiles s s') (i : Slot) :
  (s'.process i).tf = (s.process i).tf
  := by
  obtain ⟨file, hfile⟩ := h.process i
  rw [hfile]

theorem trans (h : OnlyFiles s s') (h' : OnlyFiles s' s'') :
  OnlyFiles s s''
  where
  process i := by
    obtain ⟨file, hfile⟩ := h.process i
    obtain ⟨file', hfile'⟩ := h'.process i
    use file'
    rw [hfile', hfile]
  unused i hi := by
    rw [h'.unused i ((h.state i).trans hi), h.unused i hi]
  links := h'.links.trans h.links
  currentProc := h'.currentProc.trans h.currentProc
  pidNum := h'.pidNum.trans h.pidNum
  cr3 := h'.cr3.trans h.cr3
  created := h'.created.trans h.created
  trace := h'.trace.trans h.trace

/-- Storing a file descriptor in a process that is in use. -/
theorem setFile {k : Kernel} {proc : Slot} (hproc : (k.process proc).state ≠ .unused)
    (i : Fin processMaximumFileDescriptor) (d : Option ℕ) :
  OnlyFiles k.scheduler (k.setFile proc i d).scheduler
  where
  process j := by
    by_cases e : j = proc
    · subst e
      use Function.update (k.process j).file i d
      exact Scheduler.setProcess_self _ _ _
    · use (k.process j).file
      exact Scheduler.setProcess_of_ne e _ _
  unused j hj := by
    have hne : j ≠ proc := by
      rintro rfl
      exact hproc hj
    exact Scheduler.setProcess_of_ne hne _ _
  links := rfl
  currentProc := rfl
  pidNum := rfl
  cr3 := rfl
  created := rfl
  trace := rfl

/-- The queues do not depend on the files of processes. -/
theorem queued (h : OnlyFiles s s') (hq : Queued s q r none) :
  Queued s' q r none
  where
  holds := by
    rw [h.links]
    exact hq.holds
  state list i hi hd := by
    rw [h.state]
    exact hq.state list i hi hd
  mem list i hi hd := by
    rw [h.state, h.pid]
    exact hq.mem list i hi hd
  running i hi hd := by
    rw [h.state]
    exact hq.running i hi hd
  unused i hd hi := by
    rw [h.state] at hi
    rw [h.unused i hi]
    exact hq.unused i hd hi
  detached := hq.detached
  idle := hq.idle
  idleState := by
    rw [h.state]
    exact hq.idleState
  idlePid := by
    rw [h.pid]
    exact hq.idlePid
  pageMapRegister := by
    rw [h.cr3, h.currentProc, h.pageMap]
    exact hq.pageMapRegister
  history := by
    rw [h.trace]
    exact hq.history

end OnlyFiles

/-! ### The file operations -/

section

variable {k k' : Kernel} {proc : Slot}

/-- What `Open` does. -/
theorem openFile_cases {fileName : List UInt8} {ret : Int}
    (h : openFile image proc fileName k = some (ret, k')) :
  ret < 0 ∧ k' = k
    ∨ ∃ found m, k.files.findFileInRootDir image fileName k.memory = some (found, m)
      ∧ (ret < 0 ∧ k' = { k with memory := m }
        ∨ ∃ fd d c entry, userFds.find? (fun i => (k.process proc).file i = none) = some fd
          ∧ (List.range getMaxEntriesOfFDTable).find? (fun d => (k.files.fdTable d).fcb = none)
            = some d
          ∧ found = some (c, entry) ∧ ¬ entry.clusterIndex < startClusterIndex
          ∧ ret = fd.val
          ∧ k' = ({ k with
              memory := m
              files := (k.files.setFCB c (openFCB (k.files.fcbTable c) c entry)).setFD d
                { fcb := some c, position := 0, openCount := 1 } } : Kernel).setFile proc fd (some d))
  := by
  unfold openFile at h
  cases hfd : userFds.find? (fun i => (k.process proc).file i = none) with
  | none =>
      rw [hfd] at h
      obtain ⟨rfl, rfl⟩ := Prod.mk.inj (Option.some.inj h)
      left
      exact ⟨by decide, rfl⟩
  | some fd =>
      rw [hfd] at h
      cases hd : (List.range getMaxEntriesOfFDTable).find?
          (fun d => (k.files.fdTable d).fcb = none) with
      | none =>
          rw [hd] at h
          obtain ⟨rfl, rfl⟩ := Prod.mk.inj (Option.some.inj h)
          left
          exact ⟨by decide, rfl⟩
      | some d =>
          rw [hd] at h
          obtain ⟨⟨found, m⟩, hfind, h⟩ := Option.bind_eq_some_iff.mp h
          right
          use found, m, hfind
          cases found with
          | none =>
              obtain ⟨rfl, rfl⟩ := Prod.mk.inj (Option.some.inj h)
              left
              exact ⟨by decide, rfl⟩
          | some found =>
              obtain ⟨c, entry⟩ := found
              dsimp only at h
              split at h
              case isTrue =>
                obtain ⟨rfl, rfl⟩ := Prod.mk.inj (Option.some.inj h)
                left
                exact ⟨by decide, rfl⟩
              case isFalse hcluster =>
                obtain ⟨rfl, rfl⟩ := Prod.mk.inj (Option.some.inj h)
                right
                exact ⟨fd, d, c, entry, rfl, rfl, rfl, hcluster, rfl, rfl⟩

/-- What `Close` does. -/
theorem closeFile_cases {fd : Int} (h : closeFile proc fd k = some k') :
  k' = k ∨ ∃ i d files, fileIndex fd = some i ∧ (k.process proc).file i = some d
    ∧ k.files.dropReference d = some files
    ∧ k' = ({ k with files := files } : Kernel).setFile proc i none
  := by
  obtain ⟨i, hi, h⟩ := Option.bind_eq_some_iff.mp h
  cases hfile : (k.process proc).file i with
  | none =>
      rw [hfile] at h
      exact Or.inl (Option.some.inj h).symm
  | some d =>
      rw [hfile] at h
      obtain ⟨c, _, h⟩ := Option.bind_eq_some_iff.mp h
      obtain ⟨_, _, h⟩ := Option.bind_eq_some_iff.mp h
      obtain ⟨files, hdrop, h⟩ := Option.bind_eq_some_iff.mp h
      right
      exact ⟨i, d, files, hi, hfile, hdrop, (Option.some.inj h).symm⟩

/-- What `Read` does. -/
theorem readFile_cases {fd size ret : Int} {buffer : ℕ}
    (h : readFile image proc fd buffer size k = some (ret, k')) :
  k' = k ∧ ret = -ebadf ∨ ∃ i d c m, fileIndex fd = some i ∧ (k.process proc).file i = some d
    ∧ (k.files.fdTable d).fcb = some c
    ∧ k.files.readRawData image k.scheduler.cr3 (k.files.fcbTable c).startCluster buffer
        (k.files.fdTable d).position
        (unsigned 32 (clipSize (k.files.fdTable d).position (k.files.fcbTable c).fileSize size))
        k.memory = some m
    ∧ ret = int32 (unsigned 32
        (clipSize (k.files.fdTable d).position (k.files.fcbTable c).fileSize size))
    ∧ k' = { k with
        memory := m
        files := k.files.setFD d { k.files.fdTable d with
          position := ((k.files.fdTable d).position + unsigned 32
            (clipSize (k.files.fdTable d).position (k.files.fcbTable c).fileSize size)) % 2 ^ 32 } }
  := by
  obtain ⟨i, hi, h⟩ := Option.bind_eq_some_iff.mp h
  cases hfile : (k.process proc).file i with
  | none =>
      rw [hfile] at h
      obtain ⟨rfl, rfl⟩ := Prod.mk.inj (Option.some.inj h)
      exact Or.inl ⟨rfl, rfl⟩
  | some d =>
      rw [hfile] at h
      obtain ⟨c, hc, h⟩ := Option.bind_eq_some_iff.mp h
      obtain ⟨m, hread, h⟩ := Option.bind_eq_some_iff.mp h
      obtain ⟨rfl, rfl⟩ := Prod.mk.inj (Option.some.inj h)
      right
      exact ⟨i, d, c, m, hi, hfile, hc, hread, rfl, rfl⟩

/-- What `Exec` does. -/
theorem exec_cases {filename : List UInt8} (h : exec image proc filename k = some k') :
  ∃ fd k₁, openFile image proc filename k = some (fd, k₁)
    ∧ (fd < 0 ∧ k₁.exit = some k'
      ∨ ∃ m size ret k₂,
        memsetVirtual k₁.scheduler.cr3 userVirtualAddressBase 0 pageSize k₁.memory = some m
        ∧ getFileSize proc fd k₁ = some size
        ∧ readFile image proc fd userVirtualAddressBase size { k₁ with memory := m }
          = some (ret, k₂)
        ∧ (ret < 0 ∧ k₂.exit = some k'
          ∨ ∃ k₃, closeFile proc fd k₂ = some k₃ ∧ k' = startExec proc k₃))
  := by
  obtain ⟨⟨fd, k₁⟩, hopen, h⟩ := Option.bind_eq_some_iff.mp h
  use fd, k₁, hopen
  dsimp only at h
  split at h
  case isTrue hneg => exact Or.inl ⟨hneg, h⟩
  case isFalse hneg =>
    obtain ⟨m, hset, h⟩ := Option.bind_eq_some_iff.mp h
    obtain ⟨size, hsize, h⟩ := Option.bind_eq_some_iff.mp h
    obtain ⟨⟨ret, k₂⟩, hread, h⟩ := Option.bind_eq_some_iff.mp h
    right
    use m, size, ret, k₂, hset, hsize, hread
    dsimp only at h
    split at h
    case isTrue hneg' => exact Or.inl ⟨hneg', h⟩
    case isFalse hneg' =>
      obtain ⟨k₃, hclose, h⟩ := Option.bind_eq_some_iff.mp h
      exact Or.inr ⟨k₃, hclose, (Option.some.inj h).symm⟩

theorem openFile_onlyFiles {fileName : List UInt8} {ret : Int}
    (hproc : (k.process proc).state ≠ .unused)
    (h : openFile image proc fileName k = some (ret, k')) :
  OnlyFiles k.scheduler k'.scheduler
  := by
  rcases openFile_cases h with ⟨_, rfl⟩ | ⟨found, m, _, hcase⟩
  · exact OnlyFiles.refl _
  rcases hcase with ⟨_, rfl⟩ | ⟨fd, d, c, entry, _, _, _, _, _, rfl⟩
  · exact OnlyFiles.refl _
  · exact @OnlyFiles.setFile { k with memory := m, files := _ } proc hproc fd (some d)

theorem closeFile_onlyFiles {fd : Int} (hproc : (k.process proc).state ≠ .unused)
    (h : closeFile proc fd k = some k') :
  OnlyFiles k.scheduler k'.scheduler
  := by
  rcases closeFile_cases h with rfl | ⟨i, d, files, _, _, _, rfl⟩
  · exact OnlyFiles.refl _
  · exact @OnlyFiles.setFile { k with files := files } proc hproc i none

theorem readFile_scheduler {fd size ret : Int} {buffer : ℕ}
    (h : readFile image proc fd buffer size k = some (ret, k')) :
  k'.scheduler = k.scheduler
  := by
  rcases readFile_cases h with ⟨rfl, _⟩ | ⟨i, d, c, m, _, _, _, _, _, rfl⟩
  · rfl
  · rfl

/-- `Exit` of the kernel is `Exit` of the scheduler. -/
theorem Kernel.exit_eq_some :
  k.exit = some k' ↔ ∃ s, LarvaOS.exit k.scheduler = some s ∧ k' = { k with scheduler := s }
  := by
  unfold Kernel.exit
  rw [Option.map_eq_some_iff]
  simp only [eq_comm]

theorem Kernel.schedule_eq_some {run : Scheduler → Option Scheduler} :
  k.schedule run = some k' ↔ ∃ s, run k.scheduler = some s ∧ k' = { k with scheduler := s }
  := by
  unfold Kernel.schedule
  rw [Option.map_eq_some_iff]
  simp only [eq_comm]

/-- `Exec` changes files of the process, and may end in `Exit`. -/
theorem exec_scheduler {filename : List UInt8} (hproc : (k.process proc).state ≠ .unused)
    (h : exec image proc filename k = some k') :
  ∃ s, OnlyFiles k.scheduler s ∧ (k'.scheduler = s ∨ LarvaOS.exit s = some k'.scheduler)
  := by
  obtain ⟨fd, k₁, hopen, hcase⟩ := exec_cases h
  have h₁ := openFile_onlyFiles hproc hopen
  rcases hcase with ⟨_, hexit⟩ | ⟨m, size, ret, k₂, _, _, hread, hcase⟩
  · obtain ⟨s, hs, rfl⟩ := Kernel.exit_eq_some.mp hexit
    exact ⟨k₁.scheduler, h₁, Or.inr hs⟩
  have h₂ := readFile_scheduler hread
  rcases hcase with ⟨_, hexit⟩ | ⟨k₃, hclose, rfl⟩
  · obtain ⟨s, hs, rfl⟩ := Kernel.exit_eq_some.mp hexit
    rw [h₂] at hs
    exact ⟨k₁.scheduler, h₁, Or.inr hs⟩
  · have hproc₂ : (k₂.process proc).state ≠ .unused := by
      rw [Kernel.process, h₂, h₁.state]
      exact hproc
    have h₃ := closeFile_onlyFiles hproc₂ hclose
    rw [h₂] at h₃
    exact ⟨k₃.scheduler, h₁.trans h₃, Or.inl rfl⟩

end

/-! ### The steps on the queues -/

/-- The kinds of steps that the scheduler sees. -/
inductive SchedulerStep (image : Image) (op : Operation) (k k' : Kernel) : Prop where
  | yield (h : LarvaOS.yield k.scheduler = some k'.scheduler)
  | wakeup (waitId : Int) (h : LarvaOS.wakeup waitId k.scheduler = some k'.scheduler)
  | sleep (waitId : Int) (hop : op = .sleep waitId) (hidle : k.currentProc ≠ idleSlot)
      (h : LarvaOS.sleep waitId k.scheduler = some k'.scheduler)
  | files (h : OnlyFiles k.scheduler k'.scheduler)
  | exit (s : Scheduler) (hidle : k.currentProc ≠ idleSlot) (hs : OnlyFiles k.scheduler s)
      (h : LarvaOS.exit s = some k'.scheduler)
  | wait (pid : Int) (hop : op = .wait pid) (hidle : k.currentProc ≠ idleSlot)
      (h : k.wait image pid = some k')
  | fork (ret : Int) (hidle : k.currentProc ≠ idleSlot)
      (h : LarvaOS.fork image k = some (ret, k'))

/-- Every step of the system is of one of these kinds. -/
theorem Kernel.step_cases {op : Operation} {k k' : Kernel}
    (hcurrent : (k.process k.currentProc).state ≠ .unused) (hop : Allowed op k)
    (h : k.step image op = some k') :
  SchedulerStep image op k k'
  := by
  cases op with
  | yield =>
      obtain ⟨s, hs, rfl⟩ := Kernel.schedule_eq_some.mp h
      exact .yield hs
  | sleep waitId =>
      obtain ⟨s, hs, rfl⟩ := Kernel.schedule_eq_some.mp h
      exact .sleep waitId rfl (hop rfl) hs
  | wakeup waitId =>
      obtain ⟨s, hs, rfl⟩ := Kernel.schedule_eq_some.mp h
      exact .wakeup waitId hs
  | exit =>
      obtain ⟨s, hs, rfl⟩ := Kernel.exit_eq_some.mp h
      exact .exit k.scheduler (hop rfl) (OnlyFiles.refl _) hs
  | wait pid => exact .wait pid rfl (hop rfl) h
  | fork =>
      obtain ⟨⟨ret, k₁⟩, hfork, rfl⟩ := Option.map_eq_some_iff.mp h
      exact .fork ret (hop rfl) hfork
  | openFile fileName =>
      obtain ⟨⟨ret, k₁⟩, hopen, rfl⟩ := Option.map_eq_some_iff.mp h
      exact .files (openFile_onlyFiles hcurrent hopen)
  | closeFile fd => exact .files (closeFile_onlyFiles hcurrent h)
  | readFile fd buffer size =>
      obtain ⟨⟨ret, k₁⟩, hread, rfl⟩ := Option.map_eq_some_iff.mp h
      apply SchedulerStep.files
      rw [readFile_scheduler hread]
      exact OnlyFiles.refl _
  | lstat statbuf =>
      obtain ⟨⟨ret, k₁⟩, hlstat, rfl⟩ := Option.map_eq_some_iff.mp h
      obtain ⟨⟨total, m⟩, _, hk⟩ := Option.bind_eq_some_iff.mp hlstat
      obtain ⟨rfl, rfl⟩ := Prod.mk.inj (Option.some.inj hk)
      exact .files (OnlyFiles.refl _)
  | exec filename =>
      obtain ⟨s, hs, hend | hexit⟩ := exec_scheduler hcurrent h
      · rw [← hend] at hs
        exact .files hs
      · exact .exit s (hop rfl) hs hexit
  | store v c =>
      unfold Kernel.step Kernel.store at h
      dsimp only at h
      split at h
      next m _ =>
        obtain rfl := Option.some.inj h
        exact .files (OnlyFiles.refl _)
      next =>
        obtain ⟨s, hs, rfl⟩ := Kernel.exit_eq_some.mp h
        exact .exit k.scheduler (hop rfl) (OnlyFiles.refl _) hs
  | push offset c =>
      unfold Kernel.step Kernel.push at h
      dsimp only at h
      split at h
      case isTrue =>
        obtain rfl := Option.some.inj h
        exact .files (OnlyFiles.refl _)
      case isFalse => cases h

/-- The scheduler holds some queues, and the current process runs. -/
def Consistent (s : Scheduler) : Prop := ∃ q, Queued s q (some s.currentProc) none

theorem Queued.consistent {s : Scheduler} {q : Queues} {r : Option Slot} (h : Queued s q r none)
    (hr : r = some s.currentProc) :
  Consistent s
  := ⟨q, hr ▸ h⟩

/-- The current process of a consistent scheduler is in use. -/
theorem Queued.current_used {s : Scheduler} {q : Queues}
    (h : Queued s q (some s.currentProc) none) :
  (s.process s.currentProc).state ≠ .unused
  := by
  rcases h.current_state with hstate | hstate
  · rw [hstate]
    simp
  · rw [hstate]
    simp

/-- Every step keeps the queues consistent. -/
theorem SchedulerStep.consistent {k k' : Kernel} {op : Operation} (h : SchedulerStep image op k k')
    (hq : Consistent k.scheduler) :
  Consistent k'.scheduler
  := by
  obtain ⟨q, hq⟩ := hq
  cases h with
  | yield h =>
      by_cases hready : q .readyProcList = []
      · rw [← Option.some.inj ((hq.yield_nil hready).symm.trans h)]
        exact hq.consistent rfl
      · obtain ⟨s', hrun, hcurrent, _, _, hq'⟩ := hq.yield_cons hready
        obtain rfl := Option.some.inj (hrun.symm.trans h)
        exact hq'.consistent (congrArg some hcurrent.symm)
  | wakeup waitId h =>
      obtain ⟨s', hrun, hcurrent, _, _, hq'⟩ := hq.wakeup waitId
      obtain rfl := Option.some.inj (hrun.symm.trans h)
      exact hq'.consistent (congrArg some hcurrent.symm)
  | sleep waitId hop hidle h =>
      obtain ⟨s', hrun, hcurrent, _, _, hq'⟩ := hq.sleep hidle waitId
      obtain rfl := Option.some.inj (hrun.symm.trans h)
      exact hq'.consistent (congrArg some hcurrent.symm)
  | files h => exact (h.queued hq).consistent (congrArg some h.currentProc.symm)
  | exit s hidle hs h =>
      have hqs := hs.queued hq
      rw [← hs.currentProc] at hqs
      obtain ⟨s', hrun, hcurrent, _, _, hq'⟩ := hqs.exit (by rwa [hs.currentProc])
      obtain rfl := Option.some.inj (hrun.symm.trans h)
      exact hq'.consistent (congrArg some hcurrent.symm)
  | wait pid hop hidle h =>
      rcases hq.wait h with ⟨i, _, _, hcurrent, _, _, _, _, hq'⟩ | ⟨_, s, hsleep, rfl⟩
      · exact hq'.consistent (congrArg some hcurrent.symm)
      · obtain ⟨s', hrun, hcurrent, _, _, hq'⟩ := hq.sleep hidle initProcessWaitId
        obtain rfl := Option.some.inj (hrun.symm.trans hsleep)
        exact hq'.consistent (congrArg some hcurrent.symm)
  | fork ret hidle h =>
      obtain ⟨new, hgrown, ⟨_, _, hq', _⟩ | ⟨i, _, _, _, hq', _⟩⟩ := hq.fork h
      · exact hq'.consistent (congrArg some hgrown.currentProc.symm)
      · exact hq'.consistent (congrArg some hgrown.currentProc.symm)

end LarvaOS
