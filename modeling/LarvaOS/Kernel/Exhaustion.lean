import LarvaOS.Kernel.Requests
import LarvaOS.Memory.Release

/-!
# File operations without free pages

`FindFileInRootDir` and `ReadRawData` use the page that `kalloc` returns without a check,
and only `Lstat` checks it.  So when the free list is empty, `Open`, `Read` and `Exec`
survive only when they fail before they need a page.
-/

namespace LarvaOS

open FileSystem

variable {image : Image} {k k' k₀ : Kernel} {proc : Slot} {machine : Machine}

/-- The operation ends with an error, and the tables of open files and the files of the
processes are as before. -/
def Survives (k : Kernel) (outcome : Option (Int × Kernel)) : Prop :=
  ∃ ret k', outcome = some (ret, k') ∧ ret < 0 ∧ k'.files = k.files
    ∧ ∀ i, (k'.process i).file = (k.process i).file

/-- All files of the process are open. -/
def AllOpen (p : Process) : Prop :=
  ∀ i : Fin processMaximumFileDescriptor, userStartFd ≤ i.val → p.file i ≠ none

/-- `kalloc` on an empty free list. -/
theorem kalloc_exhausted {m : Memory} (h : m.freePageHead = 0) :
  kalloc image m = some (0, m)
  := by
  unfold kalloc
  rw [if_neg (not_not.mpr h)]

/-- `kalloc` on a free list that is not empty. -/
theorem kalloc_ne_zero {m m' : Memory} {a : ℕ} (h : m.freePageHead ≠ 0)
    (hrun : kalloc image m = some (a, m')) :
  a ≠ 0
  := by
  unfold kalloc at hrun
  rw [if_pos h] at hrun
  obtain ⟨_, _, hrun⟩ := Option.bind_eq_some_iff.mp hrun
  obtain ⟨_, _, hrun⟩ := Option.bind_eq_some_iff.mp hrun
  obtain ⟨_, _, hrun⟩ := Option.bind_eq_some_iff.mp hrun
  obtain ⟨rfl, _⟩ := Prod.mk.inj (Option.some.inj hrun)
  exact h

theorem assert_zero :
  assert ((0 : ℕ) ≠ 0) = none
  := if_neg (not_not.mpr rfl)

/-- `FindFileInRootDir` stops at the null page. -/
theorem findFileInRootDir_exhausted {files : FileSystem} {m : Memory} (h : m.freePageHead = 0)
    (filename : List UInt8) :
  files.findFileInRootDir image filename m = none
  := by
  unfold findFileInRootDir
  rw [kalloc_exhausted h, Option.bind_eq_bind, Option.bind_some]
  dsimp only
  rw [assert_zero, Option.bind_eq_bind, Option.bind_none]

/-- `ReadRawData` stops at the null page. -/
theorem readRawData_exhausted {files : FileSystem} {m : Memory} (h : m.freePageHead = 0)
    (cr3 clusterIndex buf pos size : ℕ) :
  files.readRawData image cr3 clusterIndex buf pos size m = none
  := by
  rw [Option.eq_none_iff_forall_ne_some]
  intro m' hrun
  obtain ⟨_, _, hrun⟩ := Option.bind_eq_some_iff.mp hrun
  obtain ⟨⟨a, m₁⟩, hkalloc, hrun⟩ := Option.bind_eq_some_iff.mp hrun
  obtain ⟨_, hassert, _⟩ := Option.bind_eq_some_iff.mp hrun
  rw [kalloc_exhausted h] at hkalloc
  obtain ⟨rfl, _⟩ := Prod.mk.inj (Option.some.inj hkalloc)
  exact assert_eq_some.mp hassert rfl

/-- `Open` without free pages changes nothing, when it returns. -/
theorem openFile_withoutPages {fileName : List UInt8} {ret : Int}
    (hempty : k.memory.freePageHead = 0)
    (hrun : openFile image proc fileName k = some (ret, k')) :
  ret < 0 ∧ k' = k
  := by
  rcases openFile_cases hrun with ⟨hneg, rfl⟩ | ⟨found, m, hfind, _⟩
  · exact ⟨hneg, rfl⟩
  · rw [findFileInRootDir_exhausted hempty] at hfind
    contradiction

/-- `Read` without free pages changes nothing, when it returns. -/
theorem readFile_withoutPages {fd size ret : Int} {buffer : ℕ} (hempty : k.memory.freePageHead = 0)
    (hrun : readFile image proc fd buffer size k = some (ret, k')) :
  k' = k
  := by
  rcases readFile_cases hrun with ⟨rfl, _⟩ | ⟨i, d, c, m, _, _, _, hread, _⟩
  · rfl
  · rw [readRawData_exhausted hempty] at hread
    contradiction

/-- `Lstat` without free pages returns an error. -/
theorem lstat_withoutPages (hempty : k.memory.freePageHead = 0) (statbuf : ℕ) :
  lstat image statbuf k = some (-enomem, k)
  := by
  have hrun : k.files.lstat image k.scheduler.cr3 statbuf k.memory = some (-enomem, k.memory) := by
    unfold FileSystem.lstat
    rw [kalloc_exhausted hempty, Option.bind_eq_bind, Option.bind_some]
    rfl
  unfold lstat
  rw [hrun, Option.bind_eq_bind, Option.bind_some]

/-- `Exec` without free pages kills the process, when it returns. -/
theorem exec_withoutPages {filename : List UInt8} (hempty : k.memory.freePageHead = 0)
    (hrun : exec image proc filename k = some k') :
  k.exit = some k'
  := by
  obtain ⟨fd, k₁, hopen, hcases⟩ := exec_cases hrun
  obtain ⟨hneg, rfl⟩ := openFile_withoutPages hempty hopen
  rcases hcases with ⟨_, hexit⟩ | ⟨m, size, ret, k₂, _, hsize, _⟩
  · exact hexit
  · obtain ⟨i, hi, _⟩ := Option.bind_eq_some_iff.mp hsize
    have hfd : (i.val : Int) = fd := by simpa using List.find?_some hi
    omega

/-- `Open` without free pages fails at once when all files of the process are open. -/
theorem openFile_allOpen (h : AllOpen (k.process proc)) (fileName : List UInt8) :
  openFile image proc fileName k = some (-emfile, k)
  := by
  have hfd : userFds.find? (fun i => (k.process proc).file i = none) = none := by
    rw [List.find?_eq_none]
    intro i hi
    rw [decide_eq_true_iff]
    exact h i (mem_userFds.mp hi)
  unfold openFile
  rw [hfd]

/-- `Open` without free pages stops at the null page when a file is not open. -/
theorem openFile_exhausted (h : Referenced k) (hempty : k.memory.freePageHead = 0)
    (hall : ¬ AllOpen (k.process proc)) (fileName : List UInt8) :
  openFile image proc fileName k = none
  := by
  obtain ⟨d, hd⟩ := h.exists_descriptor
  cases hfd : userFds.find? (fun i => (k.process proc).file i = none) with
  | none =>
      exfalso
      apply hall
      intro i hi hnone
      exact List.find?_eq_none.mp hfd i (mem_userFds.mpr hi) (decide_eq_true hnone)
  | some fd =>
      unfold openFile
      rw [hfd, hd]
      dsimp only
      rw [findFileInRootDir_exhausted hempty, Option.bind_eq_bind, Option.bind_none]

/-- `Open` without free pages survives if and only if all files of the process are open. -/
theorem survives_openFile (h : Referenced k) (hempty : k.memory.freePageHead = 0)
    (fileName : List UInt8) :
  Survives k (openFile image proc fileName k) ↔ AllOpen (k.process proc)
  := by
  constructor
  · rintro ⟨ret, k', hrun, _⟩
    by_contra hall
    rw [openFile_exhausted h hempty hall] at hrun
    contradiction
  · intro hall
    exact ⟨-emfile, k, openFile_allOpen hall fileName, by decide, rfl, fun _ => rfl⟩

/-- `Read` without free pages survives if and only if the file is not open. -/
theorem survives_readFile (hempty : k.memory.freePageHead = 0) (fd : Int) (buffer : ℕ)
    (size : Int) :
  Survives k (readFile image proc fd buffer size k)
    ↔ ∃ i, fileIndex fd = some i ∧ (k.process proc).file i = none
  := by
  constructor
  · rintro ⟨ret, k', hrun, _⟩
    obtain ⟨i, hi, _⟩ := Option.bind_eq_some_iff.mp hrun
    use i, hi
    by_contra hfile
    obtain ⟨d, hd⟩ := Option.ne_none_iff_exists'.mp hfile
    cases hc : (k.files.fdTable d).fcb with
    | none =>
        unfold readFile at hrun
        rw [hi, Option.bind_eq_bind, Option.bind_some] at hrun
        dsimp only at hrun
        rw [hd] at hrun
        dsimp only at hrun
        rw [hc, Option.bind_eq_bind, Option.bind_none] at hrun
        contradiction
    | some c =>
        rw [readFile_eq hi hd hc, readRawData_exhausted hempty, Option.map_none] at hrun
        contradiction
  · rintro ⟨i, hi, hfile⟩
    refine ⟨-ebadf, k, ?_, by decide, rfl, fun _ => rfl⟩
    unfold readFile
    rw [hi, Option.bind_eq_bind, Option.bind_some]
    dsimp only
    rw [hfile]

/-- `Lstat` without free pages survives. -/
theorem survives_lstat (hempty : k.memory.freePageHead = 0) (statbuf : ℕ) :
  Survives k (lstat image statbuf k)
  := by
  exact ⟨-enomem, k, lstat_withoutPages hempty statbuf, by decide, rfl, fun _ => rfl⟩

/-- `Exec` ends, and the tables of open files and the files of the processes are as before. -/
def ExecSurvives (k : Kernel) (outcome : Option Kernel) : Prop :=
  ∃ k', outcome = some k' ∧ k'.files = k.files ∧ ∀ i, (k'.process i).file = (k.process i).file

/-- `Exec` without free pages survives if and only if all files of the process are open. -/
theorem survives_exec (h : Referenced k) (hq : Consistent k.scheduler)
    (hidle : k.currentProc ≠ idleSlot) (hempty : k.memory.freePageHead = 0)
    (filename : List UInt8) :
  ExecSurvives k (exec image k.currentProc filename k) ↔ AllOpen (k.process k.currentProc)
  := by
  constructor
  · rintro ⟨k', hrun, _⟩
    by_contra hall
    obtain ⟨fd, k₁, hopen, _⟩ := exec_cases hrun
    rw [openFile_exhausted h hempty hall] at hopen
    contradiction
  · intro hall
    obtain ⟨q, hq⟩ := hq
    obtain ⟨s, hexit, _, hres, _⟩ := hq.exit hidle
    refine ⟨{ k with scheduler := s }, ?_, rfl, fun i => hres.file i⟩
    unfold exec
    rw [openFile_allOpen hall, Option.bind_eq_bind, Option.bind_some]
    dsimp only
    rw [if_pos (by decide), Kernel.exit, hexit, Option.map_some]

/-- `Open` returns the page that it takes. -/
theorem openFile_freePageHead {fileName : List UInt8} {ret : Int}
    (h : k.memory.freePageHead ≠ 0)
    (hrun : openFile image proc fileName k = some (ret, k')) :
  k'.memory.freePageHead ≠ 0
  := by
  have hhead {found m} (hfind : k.files.findFileInRootDir image fileName k.memory
      = some (found, m)) : m.freePageHead ≠ 0 := by
    obtain ⟨⟨a, m₁⟩, hkalloc, hfind⟩ := Option.bind_eq_some_iff.mp hfind
    obtain ⟨_, hassert, hfind⟩ := Option.bind_eq_some_iff.mp hfind
    obtain ⟨m₂, hkfree, hfind⟩ := Option.bind_eq_some_iff.mp hfind
    obtain ⟨_, rfl⟩ := Prod.mk.inj (Option.some.inj hfind)
    obtain ⟨_, hhead, _⟩ := kfree_changes hkfree
    rw [hhead]
    exact kalloc_ne_zero h hkalloc
  rcases openFile_cases hrun with ⟨_, rfl⟩ | ⟨found, m, hfind, hcase⟩
  · exact h
  rcases hcase with ⟨_, rfl⟩ | ⟨fd, d, c, entry, _, _, _, _, _, rfl⟩
  · exact hhead hfind
  · exact hhead hfind

/-- In every state of a run in bounds, `Lstat` survives without free pages, `Open` and `Exec` do so if
and only if all files of the process are open, and `Read` if and only if the file is not open;
with a free page `kalloc` does not return the null page, also to `Read` after `Open` in
`Exec`. -/
theorem reachable_survives (h₀ : kMain image machine = some k₀)
    (h : Reachable (Kernel.step image) (InBounds image) k₀ k) :
  (k.memory.freePageHead = 0 →
    (∀ statbuf, Survives k (lstat image statbuf k))
      ∧ (∀ proc fileName, Survives k (openFile image proc fileName k) ↔ AllOpen (k.process proc))
      ∧ (∀ proc fd buffer size, Survives k (readFile image proc fd buffer size k)
        ↔ ∃ i, fileIndex fd = some i ∧ (k.process proc).file i = none)
      ∧ (∀ filename, k.currentProc ≠ idleSlot →
        (ExecSurvives k (exec image k.currentProc filename k)
          ↔ AllOpen (k.process k.currentProc))))
    ∧ (k.memory.freePageHead ≠ 0 → (∀ a m, kalloc image k.memory = some (a, m) → a ≠ 0)
      ∧ ∀ proc fileName ret k', openFile image proc fileName k = some (ret, k') →
        ∀ a m, kalloc image k'.memory = some (a, m) → a ≠ 0)
  := by
  obtain ⟨m, files, cr3, hinit⟩ := kMain_initProcess h₀
  obtain ⟨hq, href⟩ := Reachable.referenced (fun _ _ hop => hop.1) (initProcess_consistent hinit)
    (kMain_referenced h₀) h
  constructor
  · intro hempty
    refine ⟨survives_lstat hempty, ?_, ?_, ?_⟩
    · exact fun proc fileName => survives_openFile href hempty fileName
    · exact fun proc fd buffer size => survives_readFile hempty fd buffer size
    · exact fun filename hidle => survives_exec href hq hidle hempty filename
  · intro hne
    constructor
    · exact fun a m => kalloc_ne_zero hne
    · exact fun proc fileName ret k' hrun a m => kalloc_ne_zero (openFile_freePageHead hne hrun)

/-- A machine whose pages are all used when the shell runs. -/
theorem exhausted_small :
  ∃ k₀ k, kMain smallImage (smallMachine 12) = some k₀
    ∧ Reachable (Kernel.step smallImage) (InBounds smallImage) k₀ k ∧ k.currentProc = 1
    ∧ k.memory.freePageHead = 0 ∧ (k.process 1).file = fun _ => none
  := by
  obtain ⟨k₀, L, hboot, hbooted⟩ := kMain_smallMachine (n := 12) (by decide) (by decide)
  obtain ⟨k, hyield, hcurrent, howned, hres, _⟩ := hbooted.yield
  refine ⟨k₀, k, hboot, ?_, hcurrent, howned.free.list, ?_⟩
  · exact Reachable.step .yield .refl ⟨Bool.noConfusion, fun _ => trivial⟩ hyield
  · exact (hres.file 1).trans hbooted.shell.2

/-- A reachable state without free pages. -/
theorem reachable_survives_small :
  ∃ k₀ k, kMain smallImage (smallMachine 12) = some k₀
    ∧ Reachable (Kernel.step smallImage) (InBounds smallImage) k₀ k ∧ k.memory.freePageHead = 0
    ∧ Survives k (lstat smallImage userVirtualAddressBase k)
    ∧ Survives k (readFile smallImage 1 3 userVirtualAddressBase 1 k)
  := by
  obtain ⟨k₀, k, hboot, hreach, _, hempty, hfile⟩ := exhausted_small
  obtain ⟨hlstat, _, hread, _⟩ := (reachable_survives hboot hreach).1 hempty
  refine ⟨k₀, k, hboot, hreach, hempty, hlstat _, ?_⟩
  rw [hread]
  exact ⟨3, rfl, congrFun hfile 3⟩

/-- When the pages are used up, `Open` of any file by the shell goes through the null page. -/
theorem not_survives_small :
  ¬ ∀ (k₀ k : Kernel), kMain smallImage (smallMachine 12) = some k₀ →
    Reachable (Kernel.step smallImage) (InBounds smallImage) k₀ k → k.memory.freePageHead = 0 →
    ∀ fileName, Survives k (openFile smallImage k.currentProc fileName k)
  := by
  intro hall
  obtain ⟨k₀, k, hboot, hreach, hcurrent, hempty, hfile⟩ := exhausted_small
  obtain ⟨m, files, cr3, hinit⟩ := kMain_initProcess hboot
  obtain ⟨_, href⟩ := Reachable.referenced (fun _ _ hop => hop.1) (initProcess_consistent hinit)
    (kMain_referenced hboot) hreach
  have hopen := (survives_openFile href hempty []).mp (hall k₀ k hboot hreach hempty [])
  rw [hcurrent] at hopen
  exact hopen 3 (by decide) (congrFun hfile 3)

end LarvaOS
