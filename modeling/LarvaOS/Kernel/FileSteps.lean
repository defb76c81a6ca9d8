import LarvaOS.Kernel.Exhaustion
import LarvaOS.Kernel.Validity

/-!
# The files of the processes in steps

`FileStep op k k'` lists what a step does to the files of the processes: it opens or closes
one file of the current process, gives a new process the files of its parent, or takes the
files of a killed process away.  A descriptor that gets a new reference was not linked before,
or is shared with a child.
-/

namespace LarvaOS

open FileSystem

variable {image : Image} {k k' : Kernel} {q : Queues} {op : Operation} {proc : Slot}

/-- The process runs, or will run again. -/
def Process.Alive (p : Process) : Prop := p.state ≠ .unused ∧ p.state ≠ .killed

/-- What a step does to the files of the processes.  `Exec` leaves its file open when it kills
the process. -/
inductive FileStep (op : Operation) (k k' : Kernel) : Prop where
  | keep (h : ∀ i, (k'.process i).file = (k.process i).file)
  | opened (fd : Fin processMaximumFileDescriptor) (d : ℕ)
      (hop : (∃ fileName, op = .openFile fileName) ∨ (k'.process k.currentProc).state = .killed)
      (hlinked : (k.files.fdTable d).fcb = none) (hnone : (k.process k.currentProc).file fd = none)
      (h : ∀ i, (k'.process i).file = ((k.setFile k.currentProc fd (some d)).process i).file)
  | closed (n : Int) (fd : Fin processMaximumFileDescriptor) (hop : op = .closeFile n)
      (h : ∀ i, (k'.process i).file = ((k.setFile k.currentProc fd none).process i).file)
  | forked (new : Slot) (hop : op = .fork) (hunused : (k.process new).state = .unused)
      (hchild : (k'.process new).file = (k.process k.currentProc).file)
      (h : ∀ i, i ≠ new → (k'.process i).file = (k.process i).file)
  | reaped (i : Slot) (hkilled : (k.process i).state = .killed)
      (hnone : (k'.process i).file = fun _ => none)
      (h : ∀ j, j ≠ i → (k'.process j).file = (k.process j).file)

/-! ### The operations -/

/-- `Open` opens a file, or changes no file. -/
theorem openFile_fileStep {fileName : List UInt8} {ret : Int}
    (hop : (∃ fileName, op = .openFile fileName) ∨ (k'.process k.currentProc).state = .killed)
    {k₁ : Kernel} (hrun : openFile image k.currentProc fileName k = some (ret, k₁))
    (hfile : ∀ i, (k'.process i).file = (k₁.process i).file) :
  FileStep op k k'
  := by
  rcases openFile_cases hrun with ⟨_, rfl⟩ | ⟨found, m, _, hcase⟩
  · exact .keep hfile
  rcases hcase with ⟨_, rfl⟩ | ⟨fd, d, c, entry, hfd, hd, _, _, _, rfl⟩
  · exact .keep hfile
  · apply FileStep.opened fd d hop
    · simpa using List.find?_some hd
    · exact userFds_find_none hfd
    · exact hfile

/-- `Close` closes a file, or changes no file. -/
theorem closeFile_fileStep {fd : Int} (hrun : closeFile k.currentProc fd k = some k') :
  FileStep (.closeFile fd) k k'
  := by
  rcases closeFile_cases hrun with rfl | ⟨i, d, files, _, _, _, rfl⟩
  · exact .keep (fun _ => rfl)
  · exact .closed fd i rfl (fun _ => rfl)

/-- `Fork` gives the files to the child, or changes no file. -/
theorem fork_fileStep {ret : Int} (hq : Queued k.scheduler q (some k.currentProc) none)
    (hrun : fork image k = some (ret, k')) :
  FileStep .fork k k'
  := by
  obtain ⟨new, hgrown, hcase⟩ := hq.fork hrun
  have hother : ∀ i, new ≠ some i → (k'.process i).file = (k.process i).file := by
    intro i hi
    exact congrArg Process.file (hgrown.process i hi)
  rcases hcase with ⟨_, _, _, hfail⟩ | ⟨new, rfl, _, _, _, _, hchild⟩
  · apply FileStep.keep
    intro i
    by_cases hi : new = some i
    · have hzero := hq.unused i (by simp) (hgrown.unused i hi)
      rw [(hfail i hi).2]
      exact (congrArg Process.file hzero).symm
    · exact hother i hi
  · apply FileStep.forked new rfl (hgrown.unused new rfl) hchild
    intro i hi
    exact hother i (by simpa using Ne.symm hi)

/-- `Wait` takes the files of a killed process away, or changes no file. -/
theorem wait_fileStep {pid : Int} (hq : Queued k.scheduler q (some k.currentProc) none)
    (hidle : k.currentProc ≠ idleSlot) (hrun : k.wait image pid = some k') :
  FileStep op k k'
  := by
  rcases hq.wait hrun with ⟨i, hi, _, _, hzero, hother, _⟩ | ⟨_, s, hsleep, rfl⟩
  · apply FileStep.reaped i (hq.state .killProcList i hi (by simp))
    · rw [hzero]
      rfl
    · exact fun j hj => congrArg Process.file (hother j hj)
  · obtain ⟨s', hsleep', _, hres, _⟩ := hq.sleep hidle initProcessWaitId
    obtain rfl := Option.some.inj (hsleep.symm.trans hsleep')
    exact .keep hres.file

/-- A step changes the files of the processes in one of these ways. -/
theorem Kernel.step_fileStep (hq : Consistent k.scheduler) (hallowed : Allowed op k)
    (hrun : k.step image op = some k') :
  FileStep op k k'
  := by
  obtain ⟨q, hq⟩ := hq
  have hschedule {run : Scheduler → Option Scheduler} {s : Scheduler}
      (hs : run k.scheduler = some s) (hres : SameResources k.scheduler s)
      (hrun : k.schedule run = some k') : FileStep op k k' := by
    obtain ⟨s', hs', rfl⟩ := Kernel.schedule_eq_some.mp hrun
    obtain rfl := Option.some.inj (hs.symm.trans hs')
    exact .keep hres.file
  cases op with
  | yield =>
      by_cases hready : q .readyProcList = []
      · exact hschedule (hq.yield_nil hready) (SameResources.refl _) hrun
      · obtain ⟨s, hs, _, hres, _⟩ := hq.yield_cons hready
        exact hschedule hs hres hrun
  | sleep waitId =>
      obtain ⟨s, hs, _, hres, _⟩ := hq.sleep (hallowed rfl) waitId
      exact hschedule hs hres hrun
  | wakeup waitId =>
      obtain ⟨s, hs, _, hres, _⟩ := hq.wakeup waitId
      exact hschedule hs hres hrun
  | exit => exact .keep (exit_file hq (hallowed rfl) hrun).2
  | wait pid => exact wait_fileStep hq (hallowed rfl) hrun
  | fork =>
      obtain ⟨⟨ret, k₁⟩, hfork, rfl⟩ := Option.map_eq_some_iff.mp hrun
      exact fork_fileStep hq hfork
  | openFile fileName =>
      obtain ⟨⟨ret, k₁⟩, hopen, rfl⟩ := Option.map_eq_some_iff.mp hrun
      exact openFile_fileStep (Or.inl ⟨fileName, rfl⟩) hopen (fun _ => rfl)
  | closeFile fd => exact closeFile_fileStep hrun
  | readFile fd buffer size =>
      obtain ⟨⟨ret, k₁⟩, hread, rfl⟩ := Option.map_eq_some_iff.mp hrun
      have hscheduler := readFile_scheduler hread
      exact .keep (fun i => congrArg (fun s : Scheduler => (s.process i).file) hscheduler)
  | lstat statbuf =>
      obtain ⟨⟨ret, k₁⟩, hlstat, rfl⟩ := Option.map_eq_some_iff.mp hrun
      obtain ⟨⟨total, m⟩, _, hk⟩ := Option.bind_eq_some_iff.mp hlstat
      obtain ⟨_, rfl⟩ := Prod.mk.inj (Option.some.inj hk)
      exact .keep (fun _ => rfl)
  | exec filename =>
      obtain ⟨ret, k₁, hopen, hcase⟩ := exec_file hq (hallowed rfl) hrun
      rcases hcase with ⟨_, hkilled, hfile⟩ | ⟨_, hfile⟩
      · exact openFile_fileStep (Or.inr hkilled) hopen hfile
      · exact .keep hfile
  | store v c =>
      rw [Kernel.step, Kernel.store] at hrun
      split at hrun
      · obtain rfl := Option.some.inj hrun
        exact .keep (fun _ => rfl)
      · exact .keep (exit_file hq (hallowed rfl) hrun).2
  | push offset c =>
      rw [Kernel.step, Kernel.push] at hrun
      split at hrun
      · obtain rfl := Option.some.inj hrun
        exact .keep (fun _ => rfl)
      · cases hrun

/-! ### References to a descriptor -/

/-- A file of a process that a step leaves alive is the same, unless the process opens or closes
a file. -/
theorem FileStep.file_eq (h : FileStep op k k') (halive : (k.process proc).Alive)
    (hkilled : (k'.process proc).state ≠ .killed)
    (hop : k.currentProc = proc → (∀ fileName, op ≠ .openFile fileName)
      ∧ ∀ fd, op ≠ .closeFile fd) :
  (k'.process proc).file = (k.process proc).file
  := by
  cases h with
  | keep h => exact h proc
  | opened fd d hopened hlinked hnone h =>
      rw [h, setFile_file, if_neg]
      rintro rfl
      rcases hopened with ⟨fileName, hopened⟩ | hstate
      · exact (hop rfl).1 fileName hopened
      · exact hkilled hstate
  | closed n fd hclosed h =>
      rw [h, setFile_file, if_neg]
      rintro rfl
      exact (hop rfl).2 n hclosed
  | forked new _ hunused _ h =>
      apply h
      rintro rfl
      exact halive.1 hunused
  | reaped i hstate _ h =>
      apply h
      rintro rfl
      exact halive.2 hstate

/-- A file that points to a descriptor when one file is replaced. -/
theorem setFile_eq_some {v : Option ℕ} {i : Slot} {fd j : Fin processMaximumFileDescriptor} {d : ℕ}
    (hfile : ((k.setFile proc fd v).process i).file j = some d) :
  (k.process i).file j = some d ∨ v = some d
  := by
  rw [setFile_file] at hfile
  split at hfile
  case isTrue hi =>
    subst hi
    by_cases hj : j = fd
    · rw [hj, Function.update_self] at hfile
      exact Or.inr hfile
    · rw [Function.update_of_ne hj] at hfile
      exact Or.inl hfile
  case isFalse => exact Or.inl hfile

/-- A file that points to a descriptor after a step pointed to it before, or was just opened, or
belongs to a child of a process whose file points to it. -/
theorem FileStep.file_eq_some (h : FileStep op k k') {i : Slot}
    {j : Fin processMaximumFileDescriptor} {d : ℕ} (hfile : (k'.process i).file j = some d) :
  (k.process i).file j = some d ∨ (k.files.fdTable d).fcb = none
    ∨ op = .fork ∧ (k.process i).state = .unused ∧ (k.process k.currentProc).file j = some d
  := by
  cases h with
  | keep h => exact Or.inl (h i ▸ hfile)
  | opened fd e _ hlinked _ h =>
      rw [h] at hfile
      rcases setFile_eq_some hfile with hsame | he
      · exact Or.inl hsame
      · obtain rfl := Option.some.inj he
        exact Or.inr (Or.inl hlinked)
  | closed n fd _ h =>
      rw [h] at hfile
      rcases setFile_eq_some hfile with hsame | hnone
      · exact Or.inl hsame
      · cases hnone
  | forked new hop hunused hchild h =>
      by_cases hi : i = new
      · subst hi
        rw [hchild] at hfile
        exact Or.inr (Or.inr ⟨hop, hunused, hfile⟩)
      · exact Or.inl (h i hi ▸ hfile)
  | reaped x _ hnone h =>
      by_cases hi : i = x
      · subst hi
        rw [hnone] at hfile
        cases hfile
      · exact Or.inl (h i hi ▸ hfile)

/-- A process that is alive stays in its slot. -/
theorem Kernel.step_used (hq : Consistent k.scheduler) (hallowed : Allowed op k)
    (halive : (k.process proc).Alive) (hrun : k.step image op = some k') :
  (k'.process proc).state ≠ .unused
  := by
  obtain ⟨q, hq⟩ := hq
  have hsame {s : Scheduler} (hres : SameResources k.scheduler s)
      (hs : k'.scheduler = s) : (k'.process proc).state ≠ .unused := by
    rw [Kernel.process, hs, Ne, hres.unused]
    exact halive.1
  cases Kernel.step_cases hq.current_used hallowed hrun with
  | yield h =>
      by_cases hready : q .readyProcList = []
      · exact hsame (SameResources.refl _) (Option.some.inj (h.symm.trans (hq.yield_nil hready)))
      · obtain ⟨s, hs, _, hres, _⟩ := hq.yield_cons hready
        exact hsame hres (Option.some.inj (h.symm.trans hs))
  | wakeup waitId h =>
      obtain ⟨s, hs, _, hres, _⟩ := hq.wakeup waitId
      exact hsame hres (Option.some.inj (h.symm.trans hs))
  | sleep waitId _ hidle h =>
      obtain ⟨s, hs, _, hres, _⟩ := hq.sleep hidle waitId
      exact hsame hres (Option.some.inj (h.symm.trans hs))
  | files h =>
      rw [Kernel.process, h.state]
      exact halive.1
  | exit s hidle hs h =>
      have hcurrent : s.currentProc = k.scheduler.currentProc := hs.currentProc
      have hq₁ := hs.queued hq
      rw [← hcurrent] at hq₁
      obtain ⟨s', hs', _, hres, _⟩ := hq₁.exit (hcurrent ▸ hidle)
      obtain rfl := Option.some.inj (h.symm.trans hs')
      rw [Kernel.process, Ne, hres.unused, hs.state]
      exact halive.1
  | wait pid _ hidle h =>
      rcases hq.wait h with ⟨i, hi, _, _, _, hother, _⟩ | ⟨_, s, hsleep, rfl⟩
      · have hne : proc ≠ i := by
          rintro rfl
          exact halive.2 (hq.state .killProcList proc hi (by simp))
        rw [hother proc hne]
        exact halive.1
      · obtain ⟨s', hsleep', _, hres, _⟩ := hq.sleep hidle initProcessWaitId
        exact hsame hres (Option.some.inj (hsleep.symm.trans hsleep'))
  | fork ret hidle h =>
      obtain ⟨new, hgrown, _⟩ := hq.fork h
      have hne : new ≠ some proc := fun hnew => halive.1 (hgrown.unused proc hnew)
      rw [Kernel.process, hgrown.process proc hne]
      exact halive.1

end LarvaOS
