import LarvaOS.Kernel.FileSteps
import LarvaOS.Kernel.Quiet

/-!
# File operations of different processes

All processes share one table of descriptors and one table of file control blocks.  What the
calls of one process return is nevertheless a function of these calls: `FileCall.answer` computes
it from the directory, and from the size and the position of every file that the process has open,
as if the process were alone.  The kernel agrees with it as long as the process calls with numbers
that it does not share through `Fork`, whatever the other processes do in between, when the
transfers of all processes stay in bounds.
-/

namespace LarvaOS

open FileSystem

/-! ### One process alone -/

/-- The calls of a process. -/
inductive FileCall where
  | openFile (fileName : List UInt8)
  | readFile (fd : Int) (buffer : ℕ) (size : Int)
  | getFileSize (fd : Int)
  | closeFile (fd : Int)

/-- What matters of a file that a process has open. -/
structure OpenFile where
  fileSize : ℕ
  position : ℕ
  deriving DecidableEq

/-- The open files of a process, by their numbers. -/
abbrev View : Type := Fin processMaximumFileDescriptor → Option OpenFile

/-- What a call returns to a process that is alone, and its open files after the call. -/
def FileCall.answer (files : FileSystem) (v : View) : FileCall → Int × View
  | .openFile fileName =>
      match userFds.find? (fun i => v i = none) with
      | none => (-emfile, v)
      | some fd =>
          match files.lookup fileName with
          | none => (-enoent, v)
          | some (_, entry) =>
              if entry.clusterIndex < startClusterIndex then
                (-eagain, v)
              else
                (fd.val, Function.update v fd (some ⟨entry.fileSize, 0⟩))
  | .readFile fd _ size =>
      match fileIndex fd with
      | none => (-ebadf, v)
      | some i =>
          match v i with
          | none => (-ebadf, v)
          | some file =>
              let n := readSize file.position file.fileSize size
              (int32 n, Function.update v i (some ⟨file.fileSize, (file.position + n) % 2 ^ 32⟩))
  | .getFileSize fd =>
      match (fileIndex fd).bind v with
      | none => (-ebadf, v)
      | some file => (int32 file.fileSize, v)
  | .closeFile fd =>
      match fileIndex fd with
      | none => (0, v)
      | some i => (0, Function.update v i none)

/-- What successive calls return, and the open files after them. -/
def answers (files : FileSystem) (v : View) (calls : List FileCall) : List Int × View :=
  calls.foldl (fun r c => (r.1 ++ [(c.answer files r.2).1], (c.answer files r.2).2)) ([], v)

theorem answers_append (files : FileSystem) (v : View) (calls : List FileCall) (c : FileCall) :
  answers files v (calls ++ [c])
    = ((answers files v calls).1 ++ [(c.answer files (answers files v calls).2).1],
      (c.answer files (answers files v calls).2).2)
  := by
  rw [answers, List.foldl_append]
  rfl

/-! ### One process among others -/

/-- A call of a process, with the value that it gets; `SysClose` returns 0. -/
def FileCall.run (image : Image) (proc : Slot) (c : FileCall) (k : Kernel) :
    Option (Int × Kernel) :=
  match c with
  | .openFile fileName => LarvaOS.openFile image proc fileName k
  | .readFile fd buffer size => LarvaOS.readFile image proc fd buffer size k
  | .getFileSize fd => (LarvaOS.getFileSize proc fd k).map (fun size => (size, k))
  | .closeFile fd => (LarvaOS.closeFile proc fd k).map (fun k => (0, k))

/-- Another file of a process points to the same descriptor as the file `fd` of `proc`. -/
def Kernel.Shares (k : Kernel) (proc : Slot) (fd : Fin processMaximumFileDescriptor) : Prop :=
  ∃ i j, ¬ (i = proc ∧ j = fd) ∧ (k.process i).file j ≠ none
    ∧ (k.process i).file j = (k.process proc).file fd

instance (k : Kernel) (proc : Slot) (fd : Fin processMaximumFileDescriptor) :
    Decidable (k.Shares proc fd) :=
  inferInstanceAs (Decidable (∃ i j, ¬ (i = proc ∧ j = fd) ∧ (k.process i).file j ≠ none
    ∧ (k.process i).file j = (k.process proc).file fd))

/-- A state of the kernel with the history of one process: the numbers that it shares, its calls
so far, and what they returned. -/
structure Client where
  kernel : Kernel
  shared : Fin processMaximumFileDescriptor → Bool
  calls : List FileCall
  results : List Int

/-- The process makes a call, or something else happens. -/
inductive ClientEvent where
  | call (c : FileCall)
  | other (op : Operation)

/-- The operation is a call of a process on its files. -/
def Operation.isFileCall : Operation → Bool
  | .openFile _ => true
  | .closeFile _ => true
  | .readFile _ _ _ => true
  | _ => false

namespace Client

/-- The shared numbers after a step: the process shares its files with the children that it
makes. -/
def sharedAfter (proc : Slot) (op : Operation) (k' : Kernel) (s : Client)
    (i : Fin processMaximumFileDescriptor) : Bool :=
  match op with
  | .fork => s.shared i || (s.kernel.currentProc = proc && k'.Shares proc i)
  | _ => s.shared i

/-- A step of the system.  A number that is closed is no longer shared. -/
def step (image : Image) (proc : Slot) (e : ClientEvent) (s : Client) : Option Client :=
  match e with
  | .call c => (c.run image proc s.kernel).map (fun r =>
      { kernel := r.2
        shared := fun i => s.shared i && ((r.2.process proc).file i).isSome
        calls := s.calls ++ [c]
        results := s.results ++ [r.1] })
  | .other op => (s.kernel.step image op).map (fun k' =>
      { s with kernel := k', shared := s.sharedAfter proc op k' })

/-- The numbers that are open when the history begins count as shared. -/
def start (proc : Slot) (k : Kernel) : Client where
  kernel := k
  shared i := ((k.process proc).file i).isSome
  calls := []
  results := []

end Client

/-- The call does not read through a number that is shared. -/
def FileCall.Unshared (shared : Fin processMaximumFileDescriptor → Bool) : FileCall → Prop
  | .readFile fd _ _ => ∀ i, fileIndex fd = some i → shared i = false
  | .getFileSize fd => ∀ i, fileIndex fd = some i → shared i = false
  | _ => True

/-- A request finds no free page, or it fits the temporary page and the user page. -/
def FileCall.InBounds (proc : Slot) (k : Kernel) : FileCall → Prop
  | .readFile fd buffer size => k.memory.freePageHead ≠ 0 → ReadFits proc fd buffer size k
  | _ => True

/-- The process makes its calls when it is current, reads through numbers that it does not share,
and does not exit. The transfers of all processes stay in bounds. -/
def Client.Enabled (image : Image) (proc : Slot) (e : ClientEvent) (s : Client) : Prop :=
  match e with
  | .call c => s.kernel.currentProc = proc ∧ proc ≠ idleSlot ∧ c.Unshared s.shared
      ∧ c.InBounds proc s.kernel
  | .other op => InBounds image op s.kernel ∧ (s.kernel.currentProc = proc → op.isFileCall = false)
      ∧ ∀ k', s.kernel.step image op = some k' → (k'.process proc).state ≠ .killed

variable {image : Image} {k k' : Kernel} {op : Operation} {proc : Slot} {files : FileSystem}
  {shared shared' : Fin processMaximumFileDescriptor → Bool} {v v' : View}
  {i fd : Fin processMaximumFileDescriptor} {d : ℕ} {fileName : List UInt8} {ret : Int}

/-- What the process sees of its files agrees with the kernel. -/
structure Agrees (files : FileSystem) (proc : Slot)
    (shared : Fin processMaximumFileDescriptor → Bool) (v : View) (k : Kernel) : Prop where
  consistent : Consistent k.scheduler
  referenced : Referenced k
  cached : Cached k.files
  sector : k.files.bpb.bytesPerSector ≤ pageSize
  disk : SameDisk files k.files
  alive : (k.process proc).Alive
  closed : ∀ i, (k.process proc).file i = none ↔ v i = none
  unshared : ∀ i, (k.process proc).file i ≠ none → shared i = false → ¬ k.Shares proc i
  seen : ∀ i d, (k.process proc).file i = some d → shared i = false →
    ∃ c, (k.files.fdTable d).fcb = some c
      ∧ v i = some ⟨(k.files.fcbTable c).fileSize, (k.files.fdTable d).position⟩

/-! ### Open -/

/-- A descriptor to which a file points is linked. -/
theorem Referenced.linked (h : Referenced k) (hfile : (k.process proc).file fd = some d) :
  (k.files.fdTable d).fcb ≠ none
  := by
  intro hnone
  apply (h.counted.linked d).mp hnone
  exact mem_references.mpr ⟨proc, mem_openFiles.mpr ⟨fd, h.user_fd hfile, hfile⟩⟩

theorem FileSystem.SameDisk.lookup {files files' : FileSystem} (h : SameDisk files files') :
  files'.lookup = files.lookup
  := by
  cases files
  cases files'
  obtain ⟨rfl, rfl, rfl, rfl⟩ := h
  rfl

/-- All outcomes of `Open`. -/
theorem openFile_outcome (href : Referenced k) (hcached : Cached k.files)
    (hsector : k.files.bpb.bytesPerSector ≤ pageSize)
    (hrun : openFile image proc fileName k = some (ret, k')) :
  userFds.find? (fun i => (k.process proc).file i = none) = none ∧ ret = -emfile ∧ k' = k
    ∨ ∃ fd m, userFds.find? (fun i => (k.process proc).file i = none) = some fd
      ∧ (k.files.lookup fileName = none ∧ ret = -enoent ∧ k' = { k with memory := m }
        ∨ ∃ c entry, k.files.lookup fileName = some (c, entry)
          ∧ (entry.clusterIndex < startClusterIndex ∧ ret = -eagain ∧ k' = { k with memory := m }
            ∨ ¬ entry.clusterIndex < startClusterIndex ∧ ret = fd.val
              ∧ ∃ d, (k.files.fdTable d).fcb = none
                ∧ k'.scheduler = (k.setFile proc fd (some d)).scheduler
                ∧ k'.files.fdTable d = { fcb := some c, position := 0, openCount := 1 }
                ∧ (k'.files.fcbTable c).fileSize = entry.fileSize))
  := by
  obtain ⟨d, hd⟩ := href.exists_descriptor
  unfold openFile at hrun
  split at hrun
  case h_1 hnone =>
    obtain ⟨rfl, rfl⟩ := Prod.mk.inj (Option.some.inj hrun)
    exact Or.inl ⟨hnone, rfl, rfl⟩
  case h_2 fd hfd =>
    right
    rw [hd] at hrun
    obtain ⟨⟨found, m⟩, hfind, hrun⟩ := Option.bind_eq_some_iff.mp hrun
    obtain rfl := findFileInRootDir_lookup hsector hfind
    refine ⟨fd, m, hfd, ?_⟩
    dsimp only at hrun
    split at hrun
    case h_1 hnone =>
      obtain ⟨rfl, rfl⟩ := Prod.mk.inj (Option.some.inj hrun)
      exact Or.inl ⟨hnone, rfl, rfl⟩
    case h_2 c entry hfound =>
      right
      refine ⟨c, entry, hfound, ?_⟩
      split at hrun
      case isTrue hlt =>
        obtain ⟨rfl, rfl⟩ := Prod.mk.inj (Option.some.inj hrun)
        exact Or.inl ⟨hlt, rfl, rfl⟩
      case isFalse hlt =>
        obtain ⟨rfl, rfl⟩ := Prod.mk.inj (Option.some.inj hrun)
        obtain ⟨e, hfirst, hindexed⟩ := Option.map_eq_some_iff.mp hfound
        obtain ⟨hsize, _⟩ := openFCB_cached href hcached (List.mem_of_find?_eq_some hfirst)
          hindexed.symm
        have hfcb : (((k.files.setFCB c (openFCB (k.files.fcbTable c) c entry)).setFD d
            { fcb := some c, position := 0, openCount := 1 }).fcbTable c)
            = openFCB (k.files.fcbTable c) c entry := Function.update_self _ _ _
        refine Or.inr ⟨hlt, rfl, d, by simpa using List.find?_some hd, rfl, ?_, ?_⟩
        · exact Function.update_self _ _ _
        · exact (congrArg FCB.fileSize hfcb).trans hsize

/-! ### Files that stay open -/

/-- A file that shares its descriptor with no other file does not come to share it, unless its
process makes a child. -/
theorem FileStep.unshared (h : FileStep op k k') (href : Referenced k)
    (hfile : (k.process proc).file fd = some d) (hsame : (k'.process proc).file fd = some d)
    (hnot : ¬ k.Shares proc fd)
    (hfork : op = .fork → k.currentProc = proc → ¬ k'.Shares proc fd) :
  ¬ k'.Shares proc fd
  := by
  rintro ⟨i, j, hne, hopen, hother⟩
  have hshared : k'.Shares proc fd := ⟨i, j, hne, hopen, hother⟩
  rw [hsame] at hother
  rcases h.file_eq_some hother with hbefore | hnone | ⟨hop, _, hparent⟩
  · exact hnot ⟨i, j, hne, by simp [hbefore], hbefore.trans hfile.symm⟩
  · exact href.linked hfile hnone
  · by_cases hcurrent : k.currentProc = proc
    · exact hfork hop hcurrent hshared
    · exact hnot ⟨k.currentProc, j, fun hand => hcurrent hand.1, by simp [hparent],
        hparent.trans hfile.symm⟩

namespace Agrees

/-- The size and the position of a file that stays open and that nobody moves are the same. -/
theorem seen_of_keeps {moved : ℕ → Prop} (h : Agrees files proc shared v k)
    (hkeeps : Keeps moved k.files k'.files) (href' : Referenced k')
    (hfile : (k.process proc).file i = some d) (hsame : (k'.process proc).file i = some d)
    (hshared : shared i = false) (hmoved : ¬ moved d) :
  ∃ c, (k'.files.fdTable d).fcb = some c
    ∧ v i = some ⟨(k'.files.fcbTable c).fileSize, (k'.files.fdTable d).position⟩
  := by
  obtain ⟨c, hc, hview⟩ := h.seen i d hfile hshared
  rcases hkeeps.linked d c hc with hnone | ⟨hlinked, hposition⟩
  · exact absurd hnone (href'.linked hsame)
  · use c, hlinked
    rw [hview, hkeeps.fileSize d c hc, hposition hmoved]

/-- The invariants of the system after a step that leaves the process alive. -/
theorem step (h : Agrees files proc shared v k) (hallowed : Allowed op k)
    (hrun : k.step image op = some k') (hkilled : (k'.process proc).state ≠ .killed)
    (hclosed : ∀ i, (k'.process proc).file i = none ↔ v' i = none)
    (hunshared : ∀ i, (k'.process proc).file i ≠ none → shared' i = false → ¬ k'.Shares proc i)
    (hseen : ∀ i d, (k'.process proc).file i = some d → shared' i = false →
      ∃ c, (k'.files.fdTable d).fcb = some c
        ∧ v' i = some ⟨(k'.files.fcbTable c).fileSize, (k'.files.fdTable d).position⟩) :
  Agrees files proc shared' v' k'
  where
  consistent := by
    obtain ⟨q, hq⟩ := h.consistent
    exact (Kernel.step_cases hq.current_used hallowed hrun).consistent ⟨q, hq⟩
  referenced := h.referenced.step h.consistent hallowed hrun
  cached := h.cached.of_keeps h.referenced (h.referenced.step h.consistent hallowed hrun)
    (h.referenced.step_keeps h.consistent h.sector hrun)
  sector := by
    rw [(h.referenced.step_keeps h.consistent h.sector hrun).disk.bpb]
    exact h.sector
  disk := h.disk.trans (h.referenced.step_keeps h.consistent h.sector hrun).disk
  alive := ⟨Kernel.step_used h.consistent hallowed h.alive hrun, hkilled⟩
  closed := hclosed
  unshared := hunshared
  seen := hseen

/-- Agreement depends on the tables and the scheduler. -/
theorem congr (h : Agrees files proc shared v k) (hfiles : k'.files = k.files)
    (hscheduler : k'.scheduler = k.scheduler)
    (hshared : ∀ i, (k.process proc).file i ≠ none → shared' i = false → shared i = false) :
  Agrees files proc shared' v k'
  where
  consistent := by
    rw [hscheduler]
    exact h.consistent
  referenced := h.referenced.congr hfiles (fun i => by rw [Kernel.process, hscheduler])
  cached := by
    rw [hfiles]
    exact h.cached
  sector := by
    rw [hfiles]
    exact h.sector
  disk := by
    rw [hfiles]
    exact h.disk
  alive := by
    rw [Kernel.process, hscheduler]
    exact h.alive
  closed := by
    rw [Kernel.process, hscheduler]
    exact h.closed
  unshared i hfile hi := by
    unfold Kernel.Shares Kernel.process
    rw [Kernel.process, hscheduler] at hfile
    rw [hscheduler]
    exact h.unshared i hfile (hshared i hfile hi)
  seen i d hfile hi := by
    rw [Kernel.process, hscheduler] at hfile
    rw [hfiles]
    exact h.seen i d hfile (hshared i (by simp [hfile]) hi)

/-- A step that is no call of the process on its files. -/
theorem other (h : Agrees files proc shared v k) (hallowed : Allowed op k)
    (hcall : k.currentProc = proc → op.isFileCall = false) (hrun : k.step image op = some k')
    (hkilled : (k'.process proc).state ≠ .killed)
    (hshared : ∀ i, shared' i = false → shared i = false)
    (hfork : op = .fork → k.currentProc = proc → ∀ i, shared' i = false → ¬ k'.Shares proc i) :
  Agrees files proc shared' v k'
  := by
  have hstep := Kernel.step_fileStep h.consistent hallowed hrun
  have hfile : (k'.process proc).file = (k.process proc).file := by
    apply hstep.file_eq h.alive hkilled
    intro hcurrent
    have hno := hcall hcurrent
    constructor
    · rintro fileName rfl
      cases hno
    · rintro fd rfl
      cases hno
  apply h.step hallowed hrun hkilled
  · rw [hfile]
    exact h.closed
  · intro i hopen hi
    rw [hfile] at hopen
    obtain ⟨d, hd⟩ := Option.ne_none_iff_exists'.mp hopen
    apply hstep.unshared h.referenced hd (hfile ▸ hd) (h.unshared i hopen (hshared i hi))
    exact fun hop hcurrent => hfork hop hcurrent i hi
  · intro i d hd hi
    rw [hfile] at hd
    apply h.seen_of_keeps (h.referenced.step_keeps h.consistent h.sector hrun)
      (h.referenced.step h.consistent hallowed hrun) hd (hfile ▸ hd) (hshared i hi)
    rintro ⟨fd, buffer, size, j, rfl, _, hj⟩
    apply h.unshared i (by simp [hd]) (hshared i hi)
    refine ⟨k.currentProc, j, ?_, by simp [hj], hj.trans hd.symm⟩
    rintro ⟨hcurrent, _⟩
    cases hcall hcurrent

/-! ### The calls -/

theorem eq_false_of_and_isSome {b : Bool} {file : Option ℕ} (h : (b && file.isSome) = false)
    (hfile : file ≠ none) :
  b = false
  := by
  obtain ⟨d, rfl⟩ := Option.ne_none_iff_exists'.mp hfile
  simpa using h

/-- The other files when one file is replaced. -/
theorem setFile_of_ne {w : Option ℕ} {x : Slot} {j : Fin processMaximumFileDescriptor}
    (hne : ¬ (x = proc ∧ j = fd)) :
  ((k.setFile proc fd w).process x).file j = (k.process x).file j
  := by
  rw [setFile_file]
  split
  case isTrue hx =>
    rw [Function.update_of_ne (fun hj => hne ⟨hx, hj⟩), hx]
  case isFalse => rfl

/-- A file is opened. -/
theorem opened {c size : ℕ} (h : Agrees files proc shared v k) (hcurrent : k.currentProc = proc)
    (hidle : proc ≠ idleSlot) (hrun : LarvaOS.openFile image proc fileName k = some (ret, k'))
    (hunlinked : (k.files.fdTable d).fcb = none)
    (hset : k'.scheduler = (k.setFile proc fd (some d)).scheduler)
    (hdescriptor : k'.files.fdTable d = { fcb := some c, position := 0, openCount := 1 })
    (hsize : (k'.files.fcbTable c).fileSize = size) :
  Agrees files proc (fun i => shared i && ((k'.process proc).file i).isSome)
    (Function.update v fd (some ⟨size, 0⟩)) k'
  := by
  have hallowed : Allowed (.openFile fileName) k := fun _ => hcurrent ▸ hidle
  have hstep : k.step image (.openFile fileName) = some k' := by
    rw [Kernel.step, hcurrent, hrun, Option.map_some]
  have hself : (k'.process proc).file fd = some d := by
    rw [Kernel.process, hset]
    exact (congrFun (setFile_file fd (some d) proc) fd).trans
      (by rw [if_pos rfl, Function.update_self])
  have hother : ∀ x j, ¬ (x = proc ∧ j = fd) →
      (k'.process x).file j = (k.process x).file j := by
    intro x j hne
    rw [Kernel.process, hset]
    exact setFile_of_ne hne
  apply h.step hallowed hstep
  · rw [Kernel.process, (openFile_onlyFiles h.alive.1 hrun).state]
    exact h.alive.2
  · intro i
    by_cases hi : i = fd
    · rw [hi, hself, Function.update_self]
      simp
    · rw [hother proc i (fun hand => hi hand.2), Function.update_of_ne hi]
      exact h.closed i
  · intro i hopen hi
    by_cases hfd : i = fd
    · subst hfd
      rintro ⟨x, j, hne, _, hfile⟩
      rw [hself, hother x j hne] at hfile
      exact h.referenced.linked hfile hunlinked
    · have hsame := hother proc i (fun hand => hfd hand.2)
      obtain ⟨e, he⟩ := Option.ne_none_iff_exists'.mp hopen
      have hbefore := hsame.symm.trans he
      apply (Kernel.step_fileStep h.consistent hallowed hstep).unshared h.referenced hbefore he
      · apply h.unshared i (by simp [hbefore])
        exact eq_false_of_and_isSome hi hopen
      · intro hop
        cases hop
  · intro i e he hi
    by_cases hfd : i = fd
    · subst hfd
      obtain rfl := Option.some.inj (hself.symm.trans he)
      use c
      rw [hdescriptor, hsize, Function.update_self]
      exact ⟨rfl, rfl⟩
    · rw [Function.update_of_ne hfd]
      have hsame := hother proc i (fun hand => hfd hand.2)
      apply h.seen_of_keeps (h.referenced.step_keeps h.consistent h.sector hstep)
        (h.referenced.step h.consistent hallowed hstep) (hsame.symm.trans he) he
      · exact eq_false_of_and_isSome hi (by simp [he])
      · rintro ⟨_, _, _, _, hop, _⟩
        cases hop

/-- `Open` returns the answer. -/
theorem openFile (h : Agrees files proc shared v k) (hcurrent : k.currentProc = proc)
    (hidle : proc ≠ idleSlot)
    (hrun : LarvaOS.openFile image proc fileName k = some (ret, k')) :
  ret = ((FileCall.openFile fileName).answer files v).1
    ∧ Agrees files proc (fun i => shared i && ((k'.process proc).file i).isSome)
      ((FileCall.openFile fileName).answer files v).2 k'
  := by
  have hsearch : userFds.find? (fun i => v i = none)
      = userFds.find? (fun i => (k.process proc).file i = none) := by
    congr 1
    funext i
    exact decide_eq_decide.mpr (h.closed i).symm
  have hfail (hfiles : k'.files = k.files) (hscheduler : k'.scheduler = k.scheduler) :
      Agrees files proc (fun i => shared i && ((k'.process proc).file i).isSome) v k' := by
    apply h.congr hfiles hscheduler
    intro i hfile hi
    rw [Kernel.process, hscheduler] at hi
    exact eq_false_of_and_isSome hi hfile
  rcases openFile_outcome h.referenced h.cached h.sector hrun with
    ⟨hnone, rfl, rfl⟩ | ⟨fd, m, hfd, hcase⟩
  · rw [FileCall.answer, hsearch, hnone]
    exact ⟨rfl, hfail rfl rfl⟩
  rw [FileCall.answer, hsearch, hfd, ← h.disk.lookup]
  dsimp only
  rcases hcase with ⟨hnone, rfl, rfl⟩ | ⟨c, entry, hfound, ⟨hlt, rfl, rfl⟩ | ⟨hlt, rfl, d, hd⟩⟩
  · rw [hnone]
    exact ⟨rfl, hfail rfl rfl⟩
  · rw [hfound]
    dsimp only
    rw [if_pos hlt]
    exact ⟨rfl, hfail rfl rfl⟩
  rw [hfound]
  dsimp only
  rw [if_neg hlt]
  obtain ⟨hunlinked, hset, hdescriptor, hsize⟩ := hd
  exact ⟨rfl, h.opened hcurrent hidle hrun hunlinked hset hdescriptor hsize⟩

/-- `Close` closes the number. -/
theorem closeFile (image : Image) {n : Int} (h : Agrees files proc shared v k)
    (hcurrent : k.currentProc = proc) (hidle : proc ≠ idleSlot)
    (hrun : LarvaOS.closeFile proc n k = some k') :
  Agrees files proc (fun i => shared i && ((k'.process proc).file i).isSome)
    ((FileCall.closeFile n).answer files v).2 k'
  := by
  obtain ⟨fd, hfd, hclose⟩ := Option.bind_eq_some_iff.mp hrun
  rw [FileCall.answer, hfd]
  dsimp only
  cases hfile : (k.process proc).file fd with
  | none =>
      rw [hfile] at hclose
      obtain rfl := Option.some.inj hclose
      rw [← (h.closed fd).mp hfile, Function.update_eq_self]
      exact h.congr rfl rfl (fun i hi hfalse => eq_false_of_and_isSome hfalse hi)
  | some d =>
      have hset : ∃ files, k' = ({ k with files := files } : Kernel).setFile proc fd none := by
        rw [hfile] at hclose
        obtain ⟨_, _, hclose⟩ := Option.bind_eq_some_iff.mp hclose
        obtain ⟨_, _, hclose⟩ := Option.bind_eq_some_iff.mp hclose
        obtain ⟨files, _, hclose⟩ := Option.bind_eq_some_iff.mp hclose
        exact ⟨files, (Option.some.inj hclose).symm⟩
      obtain ⟨files', hset⟩ := hset
      have hself : (k'.process proc).file fd = none := by
        rw [hset, setFile_file, if_pos rfl, Function.update_self]
      have hother : ∀ i, i ≠ fd → (k'.process proc).file i = (k.process proc).file i := by
        intro i hi
        rw [hset]
        exact setFile_of_ne (fun hand => hi hand.2)
      have hopen : ∀ i e, (k'.process proc).file i = some e →
          i ≠ fd ∧ (k.process proc).file i = some e := by
        intro i e he
        have hi : i ≠ fd := by
          rintro rfl
          rw [hself] at he
          cases he
        exact ⟨hi, (hother i hi).symm.trans he⟩
      have hallowed : Allowed (.closeFile n) k := fun _ => hcurrent ▸ hidle
      have hstep : k.step image (.closeFile n) = some k' := by
        rw [Kernel.step, hcurrent, hrun]
      apply h.step hallowed hstep
      · rw [Kernel.process, (closeFile_onlyFiles h.alive.1 hrun).state]
        exact h.alive.2
      · intro i
        by_cases hi : i = fd
        · rw [hi, hself, Function.update_self]
          exact iff_of_true rfl rfl
        · rw [hother i hi, Function.update_of_ne hi]
          exact h.closed i
      · intro i hne hi
        obtain ⟨e, he⟩ := Option.ne_none_iff_exists'.mp hne
        obtain ⟨_, hbefore⟩ := hopen i e he
        apply (Kernel.step_fileStep h.consistent hallowed hstep).unshared h.referenced hbefore he
        · exact h.unshared i (by simp [hbefore]) (eq_false_of_and_isSome hi hne)
        · intro hop
          cases hop
      · intro i e he hi
        obtain ⟨hne, hbefore⟩ := hopen i e he
        rw [Function.update_of_ne hne]
        apply h.seen_of_keeps (h.referenced.step_keeps h.consistent h.sector hstep)
          (h.referenced.step h.consistent hallowed hstep) hbefore he
        · exact eq_false_of_and_isSome hi (by simp [he])
        · rintro ⟨_, _, _, _, hop, _⟩
          cases hop

/-- `Read` through a number that is not shared returns the answer. -/
theorem readFile {n size : Int} {buffer : ℕ} (h : Agrees files proc shared v k)
    (hcurrent : k.currentProc = proc) (hidle : proc ≠ idleSlot)
    (hunshared : ∀ i, fileIndex n = some i → shared i = false)
    (hrun : LarvaOS.readFile image proc n buffer size k = some (ret, k')) :
  ret = ((FileCall.readFile n buffer size).answer files v).1
    ∧ Agrees files proc (fun i => shared i && ((k'.process proc).file i).isSome)
      ((FileCall.readFile n buffer size).answer files v).2 k'
  := by
  obtain ⟨fd, hfd, hread⟩ := Option.bind_eq_some_iff.mp hrun
  rw [FileCall.answer, hfd]
  dsimp only
  cases hfile : (k.process proc).file fd with
  | none =>
      rw [hfile] at hread
      obtain ⟨rfl, rfl⟩ := Prod.mk.inj (Option.some.inj hread)
      rw [(h.closed fd).mp hfile]
      exact ⟨rfl, h.congr rfl rfl (fun i hi hfalse => eq_false_of_and_isSome hfalse hi)⟩
  | some d =>
      obtain ⟨c, hc, hview⟩ := h.seen fd d hfile (hunshared fd hfd)
      have hpair := hrun
      rw [readFile_eq hfd hfile hc] at hpair
      obtain ⟨m, _, hpair⟩ := Option.map_eq_some_iff.mp hpair
      obtain ⟨hret, hk'⟩ := Prod.mk.inj hpair
      rw [hview]
      dsimp only
      refine ⟨hret.symm, ?_⟩
      have hsame : k'.scheduler = k.scheduler := readFile_scheduler hrun
      have hallowed : Allowed (.readFile n buffer size) k := fun _ => hcurrent ▸ hidle
      have hstep : k.step image (.readFile n buffer size) = some k' := by
        rw [Kernel.step, hcurrent, hrun, Option.map_some]
      have hprivate : ∀ i, i ≠ fd → (k.process proc).file i ≠ some d := by
        intro i hi hd
        apply h.unshared fd (by simp [hfile]) (hunshared fd hfd)
        exact ⟨proc, i, fun hand => hi hand.2, by simp [hd], hd.trans hfile.symm⟩
      apply h.step hallowed hstep
      · rw [Kernel.process, hsame]
        exact h.alive.2
      · intro i
        rw [Kernel.process, hsame]
        by_cases hi : i = fd
        · rw [hi, Function.update_self]
          exact iff_of_false (by rw [hfile]; simp) (by simp)
        · rw [Function.update_of_ne hi]
          exact h.closed i
      · intro i hne hi
        obtain ⟨e, he⟩ := Option.ne_none_iff_exists'.mp hne
        have hbefore : (k.process proc).file i = some e := by
          rwa [Kernel.process, hsame] at he
        apply (Kernel.step_fileStep h.consistent hallowed hstep).unshared h.referenced hbefore he
        · exact h.unshared i (by simp [hbefore]) (eq_false_of_and_isSome hi hne)
        · intro hop
          cases hop
      · intro i e he hi
        have hbefore : (k.process proc).file i = some e := by
          rwa [Kernel.process, hsame] at he
        by_cases hfdi : i = fd
        · subst hfdi
          obtain rfl := Option.some.inj (hfile.symm.trans hbefore)
          have hmoved : k'.files.fdTable d = { k.files.fdTable d with
              position := ((k.files.fdTable d).position + k.readSize d c size) % 2 ^ 32 } := by
            rw [← hk']
            exact Function.update_self _ _ _
          have hfcb : k'.files.fcbTable = k.files.fcbTable := by
            rw [← hk']
            rfl
          use c
          rw [hmoved, hfcb, Function.update_self]
          exact ⟨hc, rfl⟩
        · rw [Function.update_of_ne hfdi]
          apply h.seen_of_keeps (h.referenced.step_keeps h.consistent h.sector hstep)
            (h.referenced.step h.consistent hallowed hstep) hbefore he
          · exact eq_false_of_and_isSome hi (by simp [he])
          · rintro ⟨n', _, _, j, hop, hj, hd⟩
            cases hop
            obtain rfl := Option.some.inj (hfd.symm.trans hj)
            rw [hcurrent] at hd
            exact hprivate i hfdi (hbefore.trans (hd.symm.trans hfile))

/-- `GetFileSize` of a number that is not shared returns the answer. -/
theorem getFileSize {n : Int} (h : Agrees files proc shared v k)
    (hunshared : ∀ i, fileIndex n = some i → shared i = false)
    (hrun : LarvaOS.getFileSize proc n k = some ret) :
  ret = ((FileCall.getFileSize n).answer files v).1
    ∧ ((FileCall.getFileSize n).answer files v).2 = v
  := by
  obtain ⟨fd, hfd, hsize⟩ := Option.bind_eq_some_iff.mp hrun
  rw [FileCall.answer, hfd, Option.bind_some]
  cases hfile : (k.process proc).file fd with
  | none =>
      rw [hfile] at hsize
      obtain rfl := Option.some.inj hsize
      rw [(h.closed fd).mp hfile]
      exact ⟨rfl, rfl⟩
  | some d =>
      obtain ⟨c, hc, hview⟩ := h.seen fd d hfile (hunshared fd hfd)
      rw [hfile] at hsize
      dsimp only at hsize
      rw [hc] at hsize
      rw [hview]
      dsimp only
      exact ⟨(Option.some.inj hsize).symm, rfl⟩

/-- Every call through numbers that are not shared returns the answer. -/
theorem call {c : FileCall} (h : Agrees files proc shared v k) (hcurrent : k.currentProc = proc)
    (hidle : proc ≠ idleSlot) (hunshared : c.Unshared shared)
    (hrun : c.run image proc k = some (ret, k')) :
  ret = (c.answer files v).1
    ∧ Agrees files proc (fun i => shared i && ((k'.process proc).file i).isSome)
      (c.answer files v).2 k'
  := by
  cases c with
  | openFile fileName => exact h.openFile hcurrent hidle hrun
  | readFile fd buffer size => exact h.readFile hcurrent hidle hunshared hrun
  | getFileSize fd =>
      obtain ⟨size, hsize, hpair⟩ := Option.map_eq_some_iff.mp hrun
      obtain ⟨rfl, rfl⟩ := Prod.mk.inj hpair
      obtain ⟨hret, hview⟩ := h.getFileSize hunshared hsize
      rw [hview]
      exact ⟨hret, h.congr rfl rfl (fun i hi hfalse => eq_false_of_and_isSome hfalse hi)⟩
  | closeFile fd =>
      obtain ⟨k₁, hclose, hpair⟩ := Option.map_eq_some_iff.mp hrun
      obtain ⟨rfl, rfl⟩ := Prod.mk.inj hpair
      constructor
      · rw [FileCall.answer]
        split <;> rfl
      · exact h.closeFile image hcurrent hidle hclose

end Agrees

/-! ### Runs -/

/-- `InitFileSystem` loads the BIOS parameter block. -/
theorem initFileSystem_bpb {files files' : FileSystem} {m m' : Memory}
    (h : initFileSystem image files m = some (files', m')) :
  ∃ b a, files'.bpb = BPB.load b a
  := by
  obtain ⟨⟨bpb, m₁⟩, _, h⟩ := Option.bind_eq_some_iff.mp h
  obtain ⟨_, h⟩ := assert_bind_eq_some.mp h
  obtain ⟨_, h⟩ := assert_bind_eq_some.mp h
  obtain ⟨_, h⟩ := assert_bind_eq_some.mp h
  obtain ⟨m₂, _, h⟩ := Option.bind_eq_some_iff.mp h
  obtain ⟨_, h⟩ := assert_bind_eq_some.mp h
  obtain ⟨⟨p, m₃⟩, _, h⟩ := Option.bind_eq_some_iff.mp h
  obtain ⟨_, h⟩ := assert_bind_eq_some.mp h
  obtain ⟨⟨p', m₄⟩, _, h⟩ := Option.bind_eq_some_iff.mp h
  obtain ⟨_, h⟩ := assert_bind_eq_some.mp h
  obtain ⟨rfl, _⟩ := Prod.mk.inj (Option.some.inj h)
  exact ⟨_, _, rfl⟩

/-- When the system starts no file is open, so nothing is cached. -/
theorem kMain_cached {machine : Machine} (hrun : kMain image machine = some k) :
  k.files.bpb.bytesPerSector ≤ pageSize ∧ Cached k.files
  := by
  obtain ⟨m, _, hrun⟩ := Option.bind_eq_some_iff.mp hrun
  obtain ⟨k₁, hinit, hrun⟩ := Option.bind_eq_some_iff.mp hrun
  obtain ⟨⟨files, m₂⟩, hfiles, hrun⟩ := Option.bind_eq_some_iff.mp hrun
  obtain ⟨⟨map, m₁⟩, _, hinit⟩ := Option.bind_eq_some_iff.mp hinit
  obtain ⟨_, _, hinit⟩ := Option.bind_eq_some_iff.mp hinit
  obtain rfl := Option.some.inj hinit
  have hrun' : initProcess image ⟨m₂, files, Scheduler.initial (pageMapRegister map)⟩ = some k :=
    hrun
  obtain ⟨i, _, _, hsame, _⟩ := initProcess_spec hrun'
  rw [hsame]
  constructor
  · obtain ⟨b, a, hload⟩ := initFileSystem_bpb hfiles
    have hlt : (BPB.load b a).bytesPerSector < 2 ^ 16 := Bytes.read_lt 2 b (a + 11)
    rw [hload, pageSize_eq]
    omega
  · intro c hc
    rw [(initFileSystem_tables hfiles).1] at hc
    exact absurd hc (lt_irrefl 0)

/-- The results of a process agree with the answers, and so do its files. -/
def Client.Answered (files : FileSystem) (proc : Slot) (v : View) (s : Client) : Prop :=
  s.results = (answers files v s.calls).1
    ∧ Agrees files proc s.shared (answers files v s.calls).2 s.kernel

/-- Every step keeps the agreement with the answers. -/
theorem Client.Answered.step {e : ClientEvent} {s s' : Client} (h : s.Answered files proc v)
    (hok : Client.Enabled image proc e s) (hrun : Client.step image proc e s = some s') :
  s'.Answered files proc v
  := by
  obtain ⟨hresults, hagrees⟩ := h
  cases e with
  | call c =>
      obtain ⟨hcurrent, hidle, hunshared, _⟩ := hok
      obtain ⟨⟨ret, k'⟩, hcall, rfl⟩ := Option.map_eq_some_iff.mp hrun
      obtain ⟨hret, hagrees'⟩ := hagrees.call hcurrent hidle hunshared hcall
      unfold Client.Answered
      dsimp only
      rw [answers_append, hresults, hret]
      exact ⟨rfl, hagrees'⟩
  | other op =>
      obtain ⟨⟨hallowed, _⟩, hcall, hkilled⟩ := hok
      obtain ⟨k', hstep, rfl⟩ := Option.map_eq_some_iff.mp hrun
      use hresults
      apply hagrees.other hallowed hcall hstep (hkilled k' hstep)
      · intro i hi
        unfold Client.sharedAfter at hi
        split at hi
        · exact (Bool.or_eq_false_iff.mp hi).1
        · exact hi
      · rintro rfl hcurrent i hi
        have hnot := (Bool.or_eq_false_iff.mp hi).2
        simpa [hcurrent] using hnot

/-- The first file of a process is number 3 when it is closed. -/
theorem FirstFile.congr {p p' : Process} (h : FirstFile p fd) (hfile : p'.file = p.file) :
  FirstFile p' fd
  where
  user := h.user
  closed := by
    rw [hfile]
    exact h.closed
  least := by
    rw [hfile]
    exact h.least

/-- A reachable state of the small machine in which no process was killed, with more than `m` free
pages, the first `n` slots in use, and the ready processes `ready`. -/
structure SmallState (k₀ k : Kernel) (m n : ℕ) (ready : List Slot) : Prop where
  boot : kMain smallImage (smallMachine 64) = some k₀
  disk : ∃ p p', k₀.files = FileSystem.booted smallDisk p p'
  reach : Reachable (Kernel.step smallImage) (InBounds smallImage) k₀ k
  owned : ∃ xs L, m < xs.length ∧ Owned smallImage k xs L
  queued : ∃ q, Queued k.scheduler q (some k.currentProc) none ∧ q .readyProcList = ready
    ∧ q .killProcList = []
  used : ∀ j, (k.process j).state = .unused ↔ n ≤ j.val

namespace SmallState

variable {k₀ : Kernel} {m n : ℕ} {ready : List Slot}

/-- The current process opens the file of the small disk. -/
theorem openFile (h : SmallState k₀ k m n ready) (hidle : k.currentProc ≠ idleSlot)
    (hslot : HasFreeFile (k.process k.currentProc)) :
  ∃ fd k', LarvaOS.openFile smallImage k.currentProc [0x41, 0x2E] k = some ((fd.val : Int), k')
    ∧ FirstFile (k.process k.currentProc) fd ∧ (k'.process k.currentProc).file fd ≠ none
    ∧ (∀ i j, ¬ (i = k.currentProc ∧ j = fd) → (k'.process i).file j = (k.process i).file j)
    ∧ k'.currentProc = k.currentProc ∧ SmallState k₀ k' m n ready
  := by
  obtain ⟨p, p', hdisk⟩ := h.disk
  obtain ⟨xs, L, hlength, howned⟩ := h.owned
  obtain ⟨q, hq, hready, hkill⟩ := h.queued
  obtain ⟨a, ys, rfl⟩ := List.exists_cons_of_length_pos (Nat.zero_lt_of_lt hlength)
  obtain ⟨_, _, _, hinit⟩ := kMain_initProcess h.boot
  obtain ⟨hsector, hcached₀⟩ := kMain_cached h.boot
  obtain ⟨_, href⟩ := Reachable.referenced (fun _ _ hop => hop.1) (initProcess_consistent hinit)
    (kMain_referenced h.boot) h.reach
  obtain ⟨hsame, hcached⟩ := Reachable.cached (fun _ _ hop => hop.1) (initProcess_consistent hinit)
    (kMain_referenced h.boot) hsector hcached₀ h.reach
  obtain ⟨entry, hlookup, hcluster, _⟩ := smallDisk_lookup p p'
  rw [← hdisk, ← hsame.lookup] at hlookup
  have hvolume : Volume k₀.files := hdisk ▸ smallDisk_volume p p'
  have hbytes : k.files.bpb.bytesPerSector = sectorSize := by
    rw [hsame.bpb]
    exact hvolume.bytesPerSector
  have hroot : k.files.bpb.rootDirEntries < 2 ^ 16 := by
    rw [hsame.bpb, hvolume.bpb]
    exact Bytes.read_lt 2 _ _
  obtain ⟨fd, d, k', hopen, _, hopened⟩ := openFile_opens href hcached howned.free hbytes hroot hslot
    hlookup (by rw [hcluster]; decide)
  have hfiles := openFile_onlyFiles hq.current_used hopen
  have hcurrent : k'.currentProc = k.currentProc := hfiles.currentProc
  refine ⟨fd, k', hopen, hopened.first, ?_, hopened.otherFiles, hcurrent, h.boot, h.disk, ?_, ?_,
    ?_, ?_⟩
  · rw [hopened.file]
    simp
  · have hstep : k.step smallImage (.openFile [0x41, 0x2E]) = some k' := by
      rw [Kernel.step, hopen, Option.map_some]
    have hbounds : InBounds smallImage (.openFile [0x41, 0x2E]) k :=
      ⟨fun _ => hidle, fun hhead => hhead⟩
    exact Reachable.step _ h.reach hbounds hstep
  · exact ⟨_, L, hlength, howned.openFile hq.current_used hopen⟩
  · refine ⟨q, ?_, hready, hkill⟩
    rw [hcurrent]
    exact hfiles.queued hq
  · intro j
    rw [Kernel.process, hfiles.state]
    exact h.used j

/-- The timer interrupt dispatches the first ready process. -/
theorem yield {i : Slot} (h : SmallState k₀ k m n (i :: ready)) :
  ∃ k' ready', k.step smallImage .yield = some k' ∧ k'.currentProc = i
    ∧ (∀ j, (k'.process j).file = (k.process j).file)
    ∧ (k.currentProc = idleSlot → ready' = ready) ∧ SmallState k₀ k' m n ready'
  := by
  obtain ⟨xs, L, hlength, howned⟩ := h.owned
  obtain ⟨q, hq, hready, hkill⟩ := h.queued
  obtain ⟨s, hs, hcurrent, hres, _, hq'⟩ := hq.yield_cons (by simp [hready])
  have hhead : (Queued.yielded k.scheduler q).head = i := by
    rw [Queues.head, Queued.yielded]
    split
    · rw [hready]
      rfl
    · rw [Queues.push_self, hready]
      rfl
  have hkill' : (Queued.yielded k.scheduler q).tail .killProcList = [] := by
    rw [Queues.tail_of_ne (by simp), Queued.yielded]
    split
    · exact hkill
    · rw [Queues.push_of_ne (by simp)]
      exact hkill
  have hstep : k.step smallImage .yield = some { k with scheduler := s } := by
    rw [Kernel.step, Kernel.schedule, hs, Option.map_some]
  refine ⟨_, (Queued.yielded k.scheduler q).tail .readyProcList, hstep, hcurrent.trans hhead,
    hres.file, ?_, h.boot, h.disk, ?_, ?_, ?_, ?_⟩
  · intro hidle
    have hpid : (k.scheduler.process k.scheduler.currentProc).pid = idleProcessPid := by
      have hcurrent' : k.scheduler.currentProc = idleSlot := hidle
      rw [hcurrent']
      exact hq.idlePid
    rw [Queues.tail_ready, Queued.yielded, if_pos hpid, hready]
    rfl
  · exact Reachable.step .yield h.reach ⟨Bool.noConfusion, fun _ => trivial⟩ hstep
  · exact ⟨xs, L, hlength, howned.schedule hres⟩
  · refine ⟨_, ?_, rfl, hkill'⟩
    have hcurrent' : (Kernel.mk k.memory k.files s).currentProc
        = (Queued.yielded k.scheduler q).head := hcurrent
    rw [hcurrent']
    exact hq'
  · exact fun j => (hres.unused j).trans (h.used j)

/-- The current process makes a child with the same files. -/
theorem fork (h : SmallState k₀ k (m + 7) n ready) (hidle : k.currentProc ≠ idleSlot)
    (hn : n < maximumNumberOfProcess) :
  ∃ k', k.step smallImage .fork = some k' ∧ k'.currentProc = k.currentProc
    ∧ (k'.process ⟨n, hn⟩).file = (k.process k.currentProc).file
    ∧ (∀ j, j ≠ ⟨n, hn⟩ → (k'.process j).file = (k.process j).file)
    ∧ SmallState k₀ k' m (n + 1) (ready ++ [⟨n, hn⟩])
  := by
  obtain ⟨xs, L, hlength, howned⟩ := h.owned
  obtain ⟨q, hq, hready, hkill⟩ := h.queued
  obtain ⟨_, _, _, hinit⟩ := kMain_initProcess h.boot
  obtain ⟨_, href⟩ := Reachable.referenced (fun _ _ hop => hop.1) (initProcess_consistent hinit)
    (kMain_referenced h.boot) h.reach
  obtain ⟨files, hfiles⟩ := href.exists_shared k.currentProc
  obtain ⟨k', ys, L', _, _, hfork, _, hlength', howned', hforked, hq', hused⟩ :=
    howned.forks hq hidle hn h.used (by omega) hfiles
  have hstep : k.step smallImage .fork = some k' := by
    rw [Kernel.step, hfork, Option.map_some]
  refine ⟨k', hstep, hforked.currentProc, ?_, ?_, h.boot, h.disk, ?_, ?_, ?_, hused⟩
  · rw [hforked.child]
  · exact fun j hj => congrArg Process.file (hforked.others j hj)
  · exact Reachable.step .fork h.reach ⟨fun _ => hidle, fun _ => trivial⟩ hstep
  · exact ⟨ys, _, by omega, howned'⟩
  · refine ⟨q.push .readyProcList ⟨n, hn⟩, ?_, ?_, ?_⟩
    · rw [hforked.currentProc]
      exact hq'
    · rw [Queues.push_self, hready]
    · rw [Queues.push_of_ne (by simp)]
      exact hkill

end SmallState

section Clients

variable {k₀ : Kernel} {m n : ℕ} {ready : List Slot} {s₀ s : Client}

end Clients

end LarvaOS
