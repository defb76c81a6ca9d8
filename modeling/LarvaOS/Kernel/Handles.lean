import LarvaOS.Library.Handles
import LarvaOS.Kernel.Interference

/-!
# Open files as handles

The numbers that `Open` returns are handles.  What a handle describes is the file, by the
index of its directory entry, and the position of the next read: `Fork` shares it between
parent and child, and it is given up when the last number for it is closed, or the last
process that has one is reaped.  Every run of the system is a run on the handles, so the
two counters that the kernel keeps by hand never give up a description too early or too
late.
-/

namespace LarvaOS

open FileSystem

variable (image : Image)

/-- The handles of the processes: a description is the file and the position. -/
def Kernel.handles (k : Kernel) :
    Handles Slot (Fin processMaximumFileDescriptor) ℕ (ℕ × ℕ) where
  table i := (k.process i).file
  description d := ((k.files.fdTable d).fcb).map (fun c => (c, (k.files.fdTable d).position))

/-- An event of the handles. -/
abbrev HandleEvent : Type :=
  Handles.Event Slot (Fin processMaximumFileDescriptor) ℕ (ℕ × ℕ)

/-- The first number and the first descriptor that are free. -/
def Kernel.freeHandle (k : Kernel) : Option (Fin processMaximumFileDescriptor × ℕ) := do
  let fd ← userFds.find? (fun i => (k.process k.currentProc).file i = none)
  let d ← (List.range getMaxEntriesOfFDTable).find? (fun d => (k.files.fdTable d).fcb = none)
  some (fd, d)

/-- The process that turns from one state to another. -/
def Kernel.turned (k : Kernel) (before after : ProcessState) (k' : Kernel) : Option Slot :=
  (List.finRange maximumNumberOfProcess).find? (fun i =>
    (k.process i).state = before ∧ (k'.process i).state = after)

/-- What an operation is on the handles. An `Exec` that gives up after it has opened its
file leaves it open. -/
def Kernel.handleEvent (op : Operation) (k : Kernel) : Option HandleEvent :=
  match op with
  | .openFile fileName => do
      let (ret, _) ← LarvaOS.openFile image k.currentProc fileName k
      let (c, _) ← k.files.lookup fileName
      let (fd, d) ← k.freeHandle
      if ret < 0 then none else some (.opened k.currentProc fd d (c, 0))
  | .closeFile fd => do
      let i ← fileIndex fd
      let _ ← k.handles.table k.currentProc i
      some (.closed k.currentProc i)
  | .readFile fd buffer size => do
      let (ret, _) ← LarvaOS.readFile image k.currentProc fd buffer size k
      let i ← fileIndex fd
      let d ← k.handles.table k.currentProc i
      let (c, position) ← k.handles.description d
      some (.changed k.currentProc i (c, (position + unsigned 32 ret) % 2 ^ 32))
  | .fork => do
      let (_, k') ← LarvaOS.fork image k
      (k.turned .unused .ready k').map (.shared k.currentProc)
  | .wait pid => do
      let k' ← k.wait image pid
      (k.turned .killed .unused k').map .dropped
  | .exec filename => do
      let k' ← LarvaOS.exec image k.currentProc filename k
      let (fd, d) ← k.freeHandle
      let x ← k'.handles.description d
      some (.opened k.currentProc fd d x)
  | _ => none

variable {image} {k k' : Kernel} {q : Queues}

/-- Some process has a handle exactly to the descriptors that are referenced. -/
theorem Referenced.held_iff (h : Referenced k) {d : ℕ} :
  k.handles.Held d ↔ d ∈ k.references
  := by
  rw [mem_references]
  constructor
  · rintro ⟨i, fd, hfile⟩
    exact ⟨i, mem_openFiles.mpr ⟨fd, h.user_fd hfile, hfile⟩⟩
  · rintro ⟨i, hi⟩
    obtain ⟨fd, _, hfile⟩ := mem_openFiles.mp hi
    exact ⟨i, fd, hfile⟩

/-- There are descriptions exactly for the handles. -/
theorem Referenced.description_iff (h : Referenced k) {d : ℕ} :
  k.handles.description d = none ↔ ¬ k.handles.Held d
  := by
  rw [h.held_iff, ← h.counted.linked d]
  exact Option.map_eq_none_iff

/-- What the system does to the descriptions, apart from those that get a handle. -/
theorem FileSystem.Keeps.description {moved : ℕ → Prop} (hkeeps : Keeps moved k.files k'.files)
    (h' : Referenced k') {d : ℕ} (hd : k'.handles.Held d) (hlinked : k.handles.description d ≠ none)
    (hmoved : ¬ moved d) :
  k'.handles.description d = k.handles.description d
  := by
  obtain ⟨c, hc⟩ : ∃ c, (k.files.fdTable d).fcb = some c := by
    apply Option.ne_none_iff_exists'.mp
    intro hnone
    exact hlinked (Option.map_eq_none_iff.mpr hnone)
  rcases hkeeps.linked d c hc with hnone | ⟨hsame, hposition⟩
  · exact absurd hd (h'.description_iff.mp (Option.map_eq_none_iff.mpr hnone))
  · unfold Kernel.handles
    dsimp only
    rw [hsame, hc, hposition hmoved]

/-- A description depends on whether there is a handle to it. -/
theorem Referenced.description_eq {moved : ℕ → Prop} (h : Referenced k) (h' : Referenced k')
    (hkeeps : Keeps moved k.files k'.files) (hmoved : ∀ d, ¬ moved d) {d : ℕ}
    (hheld : k'.handles.Held d ↔ k.handles.Held d) :
  k'.handles.description d = k.handles.description d
  := by
  by_cases hd : k.handles.Held d
  · apply hkeeps.description h' (hheld.mpr hd) _ (hmoved d)
    exact fun hnone => h.description_iff.mp hnone hd
  · rw [h.description_iff.mpr hd, h'.description_iff.mpr (fun hd' => hd (hheld.mp hd'))]

/-- The handles depend on the files of the processes. -/
theorem Referenced.handles_eq {moved : ℕ → Prop} (h : Referenced k) (h' : Referenced k')
    (hkeeps : Keeps moved k.files k'.files) (hmoved : ∀ d, ¬ moved d)
    (hfile : ∀ i, (k'.process i).file = (k.process i).file) :
  k'.handles = k.handles
  := by
  have htable : k'.handles.table = k.handles.table := funext hfile
  apply Handles.ext htable
  funext d
  apply h.description_eq h' hkeeps hmoved
  unfold Handles.Held
  rw [htable]

/-- Only `Read` reads. -/
theorem Kernel.not_reads {op : Operation} (hop : ∀ fd buffer size, op ≠ .readFile fd buffer size)
    (d : ℕ) :
  ¬ k.Reads op d
  := by
  rintro ⟨fd, buffer, size, _, hread, _⟩
  exact hop fd buffer size hread

/-- The table of a process in which a file is set. -/
theorem setFile_table (proc : Slot) (fd : Fin processMaximumFileDescriptor) (v : Option ℕ) :
  (k.setFile proc fd v).handles.table
    = Function.update k.handles.table proc (Function.update (k.handles.table proc) fd v)
  := by
  funext i
  by_cases hi : i = proc
  · rw [hi, Function.update_self]
    exact (setFile_file fd v proc).trans (if_pos rfl)
  · rw [Function.update_of_ne hi]
    exact (setFile_file fd v i).trans (if_neg hi)

/-- The description of a descriptor in the FD table that is set. -/
theorem setFD_description {m n : Memory} {s t : Scheduler} (files : FileSystem) (d : ℕ) (e : FD) :
  (Kernel.mk m (files.setFD d e) s).handles.description
    = Function.update (Kernel.mk n files t).handles.description d
      (e.fcb.map (fun c => (c, e.position)))
  := by
  funext x
  by_cases hx : x = d
  · subst hx
    rw [Function.update_self]
    exact congrArg (fun e : FD => e.fcb.map (fun c => (c, e.position))) (Function.update_self _ _ _)
  · rw [Function.update_of_ne hx]
    exact congrArg (fun e : FD => e.fcb.map (fun c => (c, e.position)))
      (Function.update_of_ne hx _ _)

/-- `Open` finds the first number and the first descriptor that are free. -/
theorem freeHandle_eq {fd : Fin processMaximumFileDescriptor} {d : ℕ}
    (hfd : userFds.find? (fun i => (k.process k.currentProc).file i = none) = some fd)
    (hd : (List.range getMaxEntriesOfFDTable).find? (fun d => (k.files.fdTable d).fcb = none)
      = some d) :
  k.freeHandle = some (fd, d) ∧ k.handles.table k.currentProc fd = none
    ∧ k.handles.description d = none
  := by
  refine ⟨?_, ?_, ?_⟩
  · unfold Kernel.freeHandle
    rw [hfd, hd]
    rfl
  · have hnone : (k.process k.currentProc).file fd = none := by simpa using List.find?_some hfd
    exact hnone
  · have hnone : (k.files.fdTable d).fcb = none := by simpa using List.find?_some hd
    exact Option.map_eq_none_iff.mpr hnone

/-- A free descriptor describes nothing. -/
theorem freeHandle_some {fd : Fin processMaximumFileDescriptor} {d : ℕ}
    (h : k.freeHandle = some (fd, d)) :
  k.handles.description d = none
  := by
  obtain ⟨_, hfd, h⟩ := Option.bind_eq_some_iff.mp h
  obtain ⟨_, hd, h⟩ := Option.bind_eq_some_iff.mp h
  obtain ⟨rfl, rfl⟩ := Prod.mk.inj (Option.some.inj h)
  exact (freeHandle_eq hfd hd).2.2

/-- `Open` opens a handle, or does nothing. -/
theorem openFile_handles {fileName : List UInt8} {ret : Int}
    (hsector : k.files.bpb.bytesPerSector ≤ pageSize)
    (hrun : openFile image k.currentProc fileName k = some (ret, k')) :
  stutter Handles.step (k.handleEvent image (.openFile fileName)) k.handles = some k'.handles
  := by
  have hfail (hneg : ret < 0) : k.handleEvent image (.openFile fileName) = none := by
    unfold Kernel.handleEvent
    dsimp only
    rw [hrun]
    simp [hneg]
  rcases openFile_cases hrun with ⟨hneg, rfl⟩ | ⟨found, m, hfind, hcase⟩
  · rw [hfail hneg]
    rfl
  rcases hcase with ⟨hneg, rfl⟩ | ⟨fd, d, c, entry, hfd, hd, rfl, _, rfl, rfl⟩
  · rw [hfail hneg]
    rfl
  obtain ⟨hfree, htable, hdescription⟩ := freeHandle_eq hfd hd
  have hpos : ¬ (fd.val : Int) < 0 := by omega
  have hevent : k.handleEvent image (.openFile fileName)
      = some (.opened k.currentProc fd d (c, 0)) := by
    unfold Kernel.handleEvent
    dsimp only
    rw [hrun, ← findFileInRootDir_lookup hsector hfind, hfree]
    simp only [Option.bind_eq_bind, Option.bind_some, if_neg hpos]
  rw [hevent, stutter_some, Handles.step, if_pos ⟨htable, hdescription⟩]
  congr 1
  let opened : Kernel := { k with
    memory := m
    files := (k.files.setFCB c (openFCB (k.files.fcbTable c) c entry)).setFD d
      { fcb := some c, position := 0, openCount := 1 } }
  apply Handles.ext
  · exact (setFile_table (k := opened) k.currentProc fd (some d)).symm
  · exact (setFD_description (k.files.setFCB c _) d { fcb := some c, position := 0, openCount := 1 }
      (n := k.memory) (t := k.scheduler)).symm

/-- `Close` closes a handle, or does nothing. -/
theorem closeFile_handles {fd : Int} (h : Referenced k) (h' : Referenced k')
    (hrun : closeFile k.currentProc fd k = some k') :
  stutter Handles.step (k.handleEvent image (.closeFile fd)) k.handles = some k'.handles
  := by
  have hkeeps : Keeps (fun _ => False) k.files k'.files :=
    Keeps.of_sameData (closeFile_sameData hrun)
  obtain ⟨i, hi, hrun⟩ := Option.bind_eq_some_iff.mp hrun
  cases hfile : (k.process k.currentProc).file i with
  | none =>
      rw [hfile] at hrun
      obtain rfl := Option.some.inj hrun
      have htable : k.handles.table k.currentProc i = none := hfile
      have hevent : k.handleEvent image (.closeFile fd) = none := by
        unfold Kernel.handleEvent
        simp [hi, htable]
      rw [hevent]
      rfl
  | some d =>
      rw [hfile] at hrun
      obtain ⟨c, _, hrun⟩ := Option.bind_eq_some_iff.mp hrun
      obtain ⟨_, _, hrun⟩ := Option.bind_eq_some_iff.mp hrun
      obtain ⟨files, hdrop, hrun⟩ := Option.bind_eq_some_iff.mp hrun
      obtain rfl := Option.some.inj hrun
      have htable : k.handles.table k.currentProc i = some d := hfile
      have hevent : k.handleEvent image (.closeFile fd) = some (.closed k.currentProc i) := by
        unfold Kernel.handleEvent
        simp [hi, htable]
      rw [hevent, stutter_some, Handles.step, htable, if_neg (by simp)]
      congr 1
      symm
      have htable' := setFile_table (k := { k with files := files }) k.currentProc i none
      apply Handles.collect_eq htable'
      · intro d' hd'
        apply hkeeps.description h' hd' _ id
        intro hnone
        apply h.description_iff.mp hnone
        obtain ⟨p, n, hpn⟩ := hd'
        rcases setFile_eq_some hpn with hpn | hnone
        · exact ⟨p, n, hpn⟩
        · cases hnone
      · exact fun d' hd' => h'.description_iff.mpr hd'

theorem unsigned_int32 {n : ℕ} (h : n < 2 ^ 32) :
  unsigned 32 (int32 n) = n
  := by
  have hmod : Int.bmod n (2 ^ 32) % (2 ^ 32 : ℕ) = n % (2 ^ 32 : ℕ) := Int.bmod_emod
  unfold unsigned int32
  omega

theorem unsigned_lt (n : Int) :
  unsigned 32 n < 2 ^ 32
  := by
  unfold unsigned
  omega

/-- `Read` changes what a handle describes, or does nothing. -/
theorem readFile_handles {fd size ret : Int} {buffer : ℕ}
    (hrun : readFile image k.currentProc fd buffer size k = some (ret, k')) :
  stutter Handles.step (k.handleEvent image (.readFile fd buffer size)) k.handles = some k'.handles
  := by
  obtain ⟨i, hi, hbody⟩ := Option.bind_eq_some_iff.mp hrun
  cases hfile : (k.process k.currentProc).file i with
  | none =>
      rw [hfile] at hbody
      obtain ⟨rfl, rfl⟩ := Prod.mk.inj (Option.some.inj hbody)
      have htable : k.handles.table k.currentProc i = none := hfile
      have hevent : k.handleEvent image (.readFile fd buffer size) = none := by
        unfold Kernel.handleEvent
        simp [hrun, hi, htable]
      rw [hevent]
      rfl
  | some d =>
      rw [hfile] at hbody
      obtain ⟨c, hc, hbody⟩ := Option.bind_eq_some_iff.mp hbody
      obtain ⟨m, _, hbody⟩ := Option.bind_eq_some_iff.mp hbody
      obtain ⟨hret, rfl⟩ := Prod.mk.inj (Option.some.inj hbody)
      generalize hn : unsigned 32
        (clipSize (k.files.fdTable d).position (k.files.fcbTable c).fileSize size) = n at *
      have hlt : n < 2 ^ 32 := by
        rw [← hn]
        exact unsigned_lt _
      have htable : k.handles.table k.currentProc i = some d := hfile
      have hdescription : k.handles.description d = some (c, (k.files.fdTable d).position) := by
        unfold Kernel.handles
        dsimp only
        rw [hc, Option.map_some]
      have hevent : k.handleEvent image (.readFile fd buffer size)
          = some (.changed k.currentProc i (c, ((k.files.fdTable d).position + n) % 2 ^ 32)) := by
        unfold Kernel.handleEvent
        dsimp only
        rw [hrun]
        simp only [Option.bind_eq_bind, Option.bind_some, hi, htable, hdescription, ← hret,
          unsigned_int32 hlt]
      rw [hevent, stutter_some, Handles.step, htable, Option.map_some]
      apply congrArg some
      apply Handles.ext
      · rfl
      · rw [setFD_description (n := k.memory) (t := k.scheduler)]
        dsimp only
        rw [hc, Option.map_some]

/-- The only process whose state changes. -/
theorem turned_eq {before after : ProcessState} {i : Slot} (hbefore : (k.process i).state = before)
    (hafter : (k'.process i).state = after) (hne : before ≠ after)
    (hother : ∀ j, j ≠ i → (k'.process j).state = (k.process j).state) :
  k.turned before after k' = some i
  := by
  have hsome : (k.turned before after k').isSome := by
    unfold Kernel.turned
    rw [List.find?_isSome]
    exact ⟨i, List.mem_finRange i, by simp [hbefore, hafter]⟩
  obtain ⟨j, hj⟩ := Option.isSome_iff_exists.mp hsome
  obtain ⟨hj₁, hj₂⟩ : (k.process j).state = before ∧ (k'.process j).state = after := by
    simpa using List.find?_some hj
  rw [hj]
  congr 1
  by_contra hji
  exact hne (hj₁.symm.trans ((hother j hji).symm.trans hj₂))

/-- No process turns from one state to another. -/
theorem turned_none {before after : ProcessState}
    (h : ∀ i, (k.process i).state = before → (k'.process i).state ≠ after) :
  k.turned before after k' = none
  := by
  unfold Kernel.turned
  apply List.find?_eq_none.mpr
  intro i _ hi
  obtain ⟨hi₁, hi₂⟩ : (k.process i).state = before ∧ (k'.process i).state = after := by
    simpa using hi
  exact h i hi₁ hi₂

/-- `Fork` shares the handles with the child, or does nothing. -/
theorem fork_handles {ret : Int} (h : Referenced k) (h' : Referenced k')
    (hq : Queued k.scheduler q (some k.currentProc) none)
    (hkeeps : Keeps (k.Reads .fork) k.files k'.files) (hrun : fork image k = some (ret, k')) :
  stutter Handles.step (k.handleEvent image .fork) k.handles = some k'.handles
  := by
  have hmoved : ∀ d, ¬ k.Reads .fork d := Kernel.not_reads (by simp)
  have hevent : k.handleEvent image .fork
      = (k.turned .unused .ready k').map (.shared k.currentProc) := by
    unfold Kernel.handleEvent
    dsimp only
    rw [hrun]
    rfl
  rw [hevent]
  obtain ⟨new, hgrown, hcase⟩ := hq.fork hrun
  rcases hcase with ⟨rfl, hfiles, _, hnew⟩ | ⟨i, rfl, rfl, hadd, _, hready, hfile⟩
  · rw [turned_none, Option.map_none, stutter_none]
    · apply congrArg some
      symm
      apply h.handles_eq h' hkeeps hmoved
      intro i
      by_cases hi : new = some i
      · have hzero : k.process i = Process.zero := hq.unused i (by simp) (hgrown.unused i hi)
        rw [(hnew i hi).2, hzero]
        rfl
      · exact congrArg Process.file (hgrown.process i hi)
    · intro i hi hready
      by_cases hnew' : new = some i
      · rw [(hnew i hnew').1] at hready
        cases hready
      · have hsame : (k'.process i).state = (k.process i).state :=
          congrArg Process.state (hgrown.process i hnew')
        rw [hsame, hi] at hready
        cases hready
  · have hunused := hgrown.unused i rfl
    have hother : ∀ j, j ≠ i → k'.process j = k.process j := by
      intro j hj
      exact hgrown.process j (by simpa using Ne.symm hj)
    rw [turned_eq hunused hready (by simp) (fun j hj => congrArg Process.state (hother j hj)),
      Option.map_some, stutter_some, Handles.step]
    have hnone : ∀ n, k.handles.table i n = none := by
      intro n
      have hzero : k.process i = Process.zero := hq.unused i (by simp) hunused
      exact congrFun (congrArg Process.file hzero) n
    have htable : k'.handles.table
        = Function.update k.handles.table i (k.handles.table k.currentProc) := by
      funext j
      by_cases hj : j = i
      · rw [hj, Function.update_self]
        exact hfile
      · rw [Function.update_of_ne hj]
        exact congrArg Process.file (hother j hj)
    rw [if_pos hnone]
    apply congrArg some
    apply Handles.ext
    · exact htable.symm
    · funext d
      symm
      apply h.description_eq h' hkeeps hmoved
      constructor
      · rintro ⟨j, n, hjn⟩
        rw [htable] at hjn
        by_cases hj : j = i
        · rw [hj, Function.update_self] at hjn
          exact ⟨k.currentProc, n, hjn⟩
        · rw [Function.update_of_ne hj] at hjn
          exact ⟨j, n, hjn⟩
      · rintro ⟨j, n, hjn⟩
        have hj : j ≠ i := by
          rintro rfl
          rw [hnone] at hjn
          cases hjn
        refine ⟨j, n, ?_⟩
        rw [htable, Function.update_of_ne hj]
        exact hjn

/-- `Wait` gives up the handles of the process that it reaps, or does nothing. -/
theorem wait_handles {pid : Int} (h : Referenced k) (h' : Referenced k')
    (hq : Queued k.scheduler q (some k.currentProc) none) (hidle : k.currentProc ≠ idleSlot)
    (hkeeps : Keeps (k.Reads (.wait pid)) k.files k'.files) (hrun : k.wait image pid = some k') :
  stutter Handles.step (k.handleEvent image (.wait pid)) k.handles = some k'.handles
  := by
  have hmoved : ∀ d, ¬ k.Reads (.wait pid) d := Kernel.not_reads (by simp)
  have hevent : k.handleEvent image (.wait pid) = (k.turned .killed .unused k').map .dropped := by
    unfold Kernel.handleEvent
    dsimp only
    rw [hrun]
    rfl
  rw [hevent]
  rcases hq.wait hrun with ⟨i, hi, _, _, hzero, hother, _⟩ | ⟨_, s, hsleep, rfl⟩
  · have hkilled : (k.process i).state = .killed := hq.state .killProcList i hi (by simp)
    have hunused : (k'.process i).state = .unused := congrArg Process.state hzero
    rw [turned_eq hkilled hunused (by simp) (fun j hj => congrArg Process.state (hother j hj)),
      Option.map_some, stutter_some, Handles.step]
    have htable : k'.handles.table = Function.update k.handles.table i (fun _ => none) := by
      funext j
      by_cases hj : j = i
      · rw [hj, Function.update_self]
        exact congrArg Process.file hzero
      · rw [Function.update_of_ne hj]
        exact congrArg Process.file (hother j hj)
    apply congrArg some
    symm
    apply Handles.collect_eq htable
    · intro d hd
      apply hkeeps.description h' hd _ (hmoved d)
      intro hnone
      apply h.description_iff.mp hnone
      obtain ⟨j, n, hjn⟩ := hd
      have hj : j ≠ i := by
        rintro rfl
        rw [htable, Function.update_self] at hjn
        cases hjn
      rw [htable, Function.update_of_ne hj] at hjn
      exact ⟨j, n, hjn⟩
    · exact fun d hd => h'.description_iff.mpr hd
  · obtain ⟨s', hsleep', _, hres, _⟩ := hq.sleep hidle initProcessWaitId
    obtain rfl := Option.some.inj (hsleep.symm.trans hsleep')
    rw [turned_none, Option.map_none, stutter_none]
    · apply congrArg some
      symm
      exact h.handles_eq h' hkeeps hmoved hres.file
    · intro i hi hunused
      rw [hres.unused] at hunused
      cases hi.symm.trans hunused

/-- `Exec` opens its file when it gives up after `Open`, and does nothing otherwise. -/
theorem exec_handles {filename : List UInt8} (h : Referenced k) (h' : Referenced k')
    (hq : Queued k.scheduler q (some k.currentProc) none) (hidle : k.currentProc ≠ idleSlot)
    (hkeeps : Keeps (k.Reads (.exec filename)) k.files k'.files)
    (hrun : exec image k.currentProc filename k = some k') :
  stutter Handles.step (k.handleEvent image (.exec filename)) k.handles = some k'.handles
  := by
  have hmoved : ∀ d, ¬ k.Reads (.exec filename) d := Kernel.not_reads (by simp)
  have hevent : k.handleEvent image (.exec filename) = (do
      let (fd, d) ← k.freeHandle
      let x ← k'.handles.description d
      some (.opened k.currentProc fd d x)) := by
    unfold Kernel.handleEvent
    dsimp only
    rw [hrun]
    rfl
  rw [hevent]
  obtain ⟨ret, k₁, hopen, ⟨hpos, _, hfile⟩ | ⟨_, hfile⟩⟩ := exec_file hq hidle hrun
  · rcases openFile_cases hopen with ⟨hneg, _⟩ | ⟨found, m, _, hcase⟩
    · omega
    rcases hcase with ⟨hneg, _⟩ | ⟨fd, d, c, entry, hfd, hd, _, _, _, rfl⟩
    · omega
    obtain ⟨hfree, hnone, hdescription⟩ := freeHandle_eq hfd hd
    have htable : k'.handles.table = Function.update k.handles.table k.currentProc
        (Function.update (k.handles.table k.currentProc) fd (some d)) :=
      (funext hfile).trans (setFile_table (k := { k with
        memory := m
        files := (k.files.setFCB c (openFCB (k.files.fcbTable c) c entry)).setFD d
          { fcb := some c, position := 0, openCount := 1 } }) k.currentProc fd (some d))
    have hself : k'.handles.table k.currentProc fd = some d := by
      rw [htable, Function.update_self, Function.update_self]
    obtain ⟨x, hx⟩ : ∃ x, k'.handles.description d = some x := by
      apply Option.ne_none_iff_exists'.mp
      exact fun hnone' => h'.description_iff.mp hnone' ⟨k.currentProc, fd, hself⟩
    simp only [hfree, Option.bind_eq_bind, Option.bind_some, hx, stutter_some, Handles.step]
    rw [if_pos ⟨hnone, hdescription⟩]
    apply congrArg some
    apply Handles.ext
    · exact htable.symm
    · funext d'
      by_cases hd' : d' = d
      · dsimp only
        rw [hd', Function.update_self, hx]
      · dsimp only
        rw [Function.update_of_ne hd']
        symm
        apply h.description_eq h' hkeeps hmoved
        unfold Handles.Held
        rw [htable]
        apply exists_congr
        intro j
        by_cases hj : j = k.currentProc
        · subst hj
          rw [Function.update_self]
          apply exists_congr
          intro n
          by_cases hn : n = fd
          · subst hn
            rw [Function.update_self, hnone]
            simp [Ne.symm hd']
          · rw [Function.update_of_ne hn]
        · rw [Function.update_of_ne hj]
  · have hsame := h.handles_eq h' hkeeps hmoved hfile
    rw [hsame]
    have hstutter : (do
        let (fd, d) ← k.freeHandle
        let x ← k.handles.description d
        some (Handles.Event.opened k.currentProc fd d x)) = none := by
      cases hfree : k.freeHandle with
      | none => rfl
      | some handle =>
          obtain ⟨fd, d⟩ := handle
          simp [freeHandle_some hfree]
    rw [hstutter]
    rfl

/-- The scheduler is consistent, the counters agree with the references, and a sector fits
a page. -/
structure Filed (k : Kernel) : Prop where
  consistent : Consistent k.scheduler
  referenced : Referenced k
  sector : k.files.bpb.bytesPerSector ≤ pageSize

/-- Every step keeps the counters in agreement with the references. -/
theorem Filed.step {op : Operation} (h : Filed k) (hallowed : Allowed op k)
    (hstep : k.step image op = some k') :
  Filed k'
  where
  consistent := by
    obtain ⟨q, hq⟩ := h.consistent
    exact (Kernel.step_cases hq.current_used hallowed hstep).consistent ⟨q, hq⟩
  referenced := h.referenced.step h.consistent hallowed hstep
  sector := by
    rw [(h.referenced.step_keeps h.consistent h.sector hstep).disk.bpb]
    exact h.sector

/-- Every step of the system is an event of the handles, or nothing. -/
theorem simulation_handles :
  Simulation (Kernel.step image) Allowed Handles.step (fun op k => k.handleEvent image op)
    (fun k h => Filed k ∧ h = k.handles)
  where
  step op k k' t h hallowed hstep := by
    obtain ⟨hfiled, rfl⟩ := h
    have hfiled' := hfiled.step hallowed hstep
    have h := hfiled.referenced
    have h' := hfiled'.referenced
    have hkeeps := h.step_keeps hfiled.consistent hfiled.sector hstep
    refine ⟨k'.handles, ?_, hfiled', rfl⟩
    obtain ⟨q, hq⟩ := hfiled.consistent
    have hsame (hevent : k.handleEvent image op = none) (hmoved : ∀ d, ¬ k.Reads op d)
        (hfile : ∀ i, (k'.process i).file = (k.process i).file) :
        stutter Handles.step (k.handleEvent image op) k.handles = some k'.handles := by
      rw [hevent, h.handles_eq h' hkeeps hmoved hfile]
      rfl
    cases op with
    | openFile fileName =>
        obtain ⟨⟨ret, k₁⟩, hopen, rfl⟩ := Option.map_eq_some_iff.mp hstep
        exact openFile_handles hfiled.sector hopen
    | closeFile fd => exact closeFile_handles h h' hstep
    | readFile fd buffer size =>
        obtain ⟨⟨ret, k₁⟩, hread, rfl⟩ := Option.map_eq_some_iff.mp hstep
        exact readFile_handles hread
    | fork =>
        obtain ⟨⟨ret, k₁⟩, hfork, rfl⟩ := Option.map_eq_some_iff.mp hstep
        exact fork_handles h h' hq hkeeps hfork
    | wait pid => exact wait_handles h h' hq (hallowed rfl) hkeeps hstep
    | exec filename => exact exec_handles h h' hq (hallowed rfl) hkeeps hstep
    | yield =>
        obtain ⟨s, hs, rfl⟩ := Kernel.schedule_eq_some.mp hstep
        apply hsame rfl (Kernel.not_reads (by simp))
        by_cases hready : q .readyProcList = []
        · obtain rfl := Option.some.inj ((hq.yield_nil hready).symm.trans hs)
          exact fun _ => rfl
        · obtain ⟨s', hs', _, hres, _⟩ := hq.yield_cons hready
          obtain rfl := Option.some.inj (hs'.symm.trans hs)
          exact hres.file
    | sleep waitId =>
        obtain ⟨s, hs, rfl⟩ := Kernel.schedule_eq_some.mp hstep
        obtain ⟨s', hs', _, hres, _⟩ := hq.sleep (hallowed rfl) waitId
        obtain rfl := Option.some.inj (hs'.symm.trans hs)
        exact hsame rfl (Kernel.not_reads (by simp)) hres.file
    | wakeup waitId =>
        obtain ⟨s, hs, rfl⟩ := Kernel.schedule_eq_some.mp hstep
        obtain ⟨s', hs', _, hres, _⟩ := hq.wakeup waitId
        obtain rfl := Option.some.inj (hs'.symm.trans hs)
        exact hsame rfl (Kernel.not_reads (by simp)) hres.file
    | exit =>
        exact hsame rfl (Kernel.not_reads (by simp)) (exit_file hq (hallowed rfl) hstep).2
    | lstat statbuf =>
        apply hsame rfl (Kernel.not_reads (by simp))
        obtain ⟨⟨ret, k₁⟩, hlstat, rfl⟩ := Option.map_eq_some_iff.mp hstep
        obtain ⟨⟨total, m⟩, _, hk⟩ := Option.bind_eq_some_iff.mp hlstat
        obtain ⟨_, rfl⟩ := Prod.mk.inj (Option.some.inj hk)
        exact fun _ => rfl
    | store v c =>
        apply hsame rfl (Kernel.not_reads (by simp))
        rw [Kernel.step, Kernel.store] at hstep
        split at hstep
        · obtain rfl := Option.some.inj hstep
          exact fun _ => rfl
        · exact (exit_file hq (hallowed rfl) hstep).2
    | push offset c =>
        apply hsame rfl (Kernel.not_reads (by simp))
        rw [Kernel.step, Kernel.push] at hstep
        split at hstep
        · obtain rfl := Option.some.inj hstep
          exact fun _ => rfl
        · cases hstep

/-- Every run of the system in bounds is a run on the handles: what the numbers of the processes
stand for, and the positions of the descriptions, are what the events of its operations make of
them. -/
theorem run_handles {machine : Machine} {k₀ : Kernel} {ops : List Operation}
    (hboot : kMain image machine = some k₀)
    (h : Run (Kernel.step image) (InBounds image) k₀ ops k) :
  Run Handles.step (fun _ _ => True) ⟨fun _ _ => none, fun _ => none⟩
    (events (Kernel.step image) (fun op k => k.handleEvent image op) ops k₀) k.handles
  := by
  have hreferenced := kMain_referenced hboot
  obtain ⟨m, files, cr3, h₀⟩ := kMain_initProcess hboot
  have hfiled : Filed k₀ := ⟨initProcess_consistent h₀, hreferenced, (kMain_cached hboot).1⟩
  have htable : ∀ i, (k₀.process i).file = fun _ => none := initProcess_file h₀
  have hstart : k₀.handles = ⟨fun _ _ => none, fun _ => none⟩ := by
    apply Handles.ext
    · exact funext htable
    · funext d
      apply hreferenced.description_iff.mpr
      rintro ⟨i, n, hin⟩
      have hnone : k₀.handles.table i n = none := congrFun (htable i) n
      rw [hnone] at hin
      cases hin
  obtain ⟨t, hrun, _, rfl⟩ :=
    simulation_handles.run ⟨hfiled, rfl⟩ (h.mono fun _ _ hbounds => hbounds.1)
  rw [← hstart]
  exact hrun

/-- The shell opens a file. -/
theorem run_handles_small :
  ∃ (k₀ k : Kernel) (ops : List Operation) (d : ℕ), kMain smallImage (smallMachine 64) = some k₀
    ∧ ops = [.yield, .openFile [0x41, 0x2E]]
    ∧ Run (Kernel.step smallImage) (InBounds smallImage) k₀ ops k
    ∧ k.handles.description d ≠ none
    ∧ Run Handles.step (fun _ _ => True) ⟨fun _ _ => none, fun _ => none⟩
      (events (Kernel.step smallImage) (fun op k => k.handleEvent smallImage op) ops k₀) k.handles
  := by
  obtain ⟨k₀, k, _, _, _, _, d, c, hboot, hrun, hfile, _⟩ := smallFile
  refine ⟨k₀, k, _, d, hboot, rfl, hrun, ?_, run_handles hboot hrun⟩
  unfold Kernel.handles
  dsimp only
  rw [hfile.linked]
  simp

end LarvaOS
