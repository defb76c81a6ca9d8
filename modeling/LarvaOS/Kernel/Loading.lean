import LarvaOS.File.Volume
import LarvaOS.Kernel.Access
import LarvaOS.Kernel.Exhaustion
import LarvaOS.Kernel.Opening
import LarvaOS.Process.TrapFrame

/-!
# Loading a program

`Exec` opens the program, clears the user page, reads the whole file to it, closes the file
and starts the trap frame.  A file of at most 2 MB lies in clusters that fit the temporary
page, so the user page holds the bytes of the file, followed by zeros, and the open file
leaves no trace.  When the file cannot be opened, the process is killed before the user page
is cleared.
-/

namespace LarvaOS

open FileSystem

variable {image : Image} {k k' k₁ k₂ : Kernel} {q : Queues} {L : Layout} {xs : List ℕ}
  {a c d n : ℕ} {proc : Slot} {fd : Fin processMaximumFileDescriptor} {entry : DirEntry}
  {fileName : List UInt8}

/-- The program of a directory entry is loaded to the user page at `page`. -/
structure Loaded (k k' : Kernel) (page : ℕ) (entry : DirEntry) : Prop where
  program : ∀ o, o < pageSize → k'.memory.bytes (page + o)
    = if o < entry.fileSize then k.files.fileByte entry.clusterIndex o else 0
  frame : TrapFrame.load k'.memory.bytes (k.process k.currentProc).tf = TrapFrame.user
  scheduler : k'.scheduler = k.scheduler
  fdCount : ∀ x, (k'.files.fdTable x).openCount = (k.files.fdTable x).openCount
  fcbCount : ∀ x, (k'.files.fcbTable x).openCount = (k.files.fcbTable x).openCount

/-- The current process is killed, and the user page at `page` is as before. -/
structure Killed (k k' : Kernel) (page : ℕ) : Prop where
  state : (k'.process k.currentProc).state = .killed
  page : ∀ o, o < pageSize → k'.memory.bytes (page + o) = k.memory.bytes (page + o)
  files : k'.files = k.files
  file : ∀ i, (k'.process i).file = (k.process i).file

/-! ### Opening and closing -/

/-- The start cluster of a directory entry has 16 bits. -/
theorem lookup_clusterIndex_lt {files : FileSystem}
    (h : files.lookup fileName = some (c, entry)) :
  entry.clusterIndex < 2 ^ 16
  := by
  obtain ⟨e, _, he⟩ := Option.map_eq_some_iff.mp h
  obtain ⟨_, rfl⟩ := Prod.mk.inj he
  exact Bytes.read_lt 2 _ _

/-- The processes after a file is opened. -/
theorem Opened.setFile (h : Opened k k' proc fileName fd d c entry)
    (hrun : openFile image proc fileName k = some ((fd.val : Int), k')) :
  k'.scheduler = (k.setFile proc fd (some d)).scheduler
  := by
  rcases openFile_cases hrun with ⟨hneg, _⟩ | ⟨found, m, _, hcase⟩
  · omega
  rcases hcase with ⟨hneg, _⟩ | ⟨fd', d', c', entry', _, _, _, _, hret, rfl⟩
  · omega
  · obtain rfl : fd = fd' := Fin.ext (Int.ofNat.inj hret)
    have hfile := h.file
    rw [setFile_file, if_pos rfl, Function.update_self] at hfile
    obtain rfl := Option.some.inj hfile
    rfl

/-- A file that was not open is closed again. -/
theorem setFile_none (hnone : (k.process proc).file fd = none)
    (h : k₁.scheduler = (k.setFile proc fd (some d)).scheduler) :
  (k₁.setFile proc fd none).scheduler = k.scheduler
  := by
  have hprocess : k₁.process proc
      = { k.process proc with file := Function.update (k.process proc).file fd (some d) } := by
    rw [Kernel.process, h]
    exact Scheduler.setProcess_self _ _ _
  have hfile : Function.update (k₁.process proc).file fd none = (k.process proc).file := by
    rw [hprocess, Function.update_idem, ← hnone]
    exact Function.update_eq_self _ _
  unfold Kernel.setFile
  rw [hfile, hprocess]
  unfold Kernel.setProcess Scheduler.setProcess
  rw [h]
  unfold Kernel.setFile Kernel.setProcess Scheduler.setProcess
  dsimp only
  rw [Function.update_idem]
  have hsame : Function.update k.scheduler.processManager proc (k.process proc)
      = k.scheduler.processManager := Function.update_eq_self _ _
  rw [hsame]

/-- The open counts after the only reference to a descriptor is dropped. -/
theorem dropReference_only {files : FileSystem} (hfcb : (files.fdTable d).fcb = some c)
    (hcount : (files.fdTable d).openCount = 1) :
  ∃ files', files.dropReference d = some files' ∧ (files'.fdTable d).openCount = 0
    ∧ (∀ x, x ≠ d → files'.fdTable x = files.fdTable x)
    ∧ (files'.fcbTable c).openCount = int32 ((files.fcbTable c).openCount + -1)
    ∧ ∀ x, x ≠ c → files'.fcbTable x = files.fcbTable x
  := by
  have hcount' : (((files.countFCB c (-1)).countFD d (-1)).fdTable d).openCount = 0 := by
    unfold countFD setFD
    dsimp only
    rw [Function.update_self]
    unfold countFCB setFCB
    dsimp only
    rw [hcount]
    rfl
  have hother : ∀ x, x ≠ d → ((files.countFCB c (-1)).countFD d (-1)).fdTable x = files.fdTable x :=
    fun x hx => Function.update_of_ne hx _ _
  refine ⟨((files.countFCB c (-1)).countFD d (-1)).setFD d
    { ((files.countFCB c (-1)).countFD d (-1)).fdTable d with fcb := none }, ?_, ?_, ?_, ?_, ?_⟩
  · unfold dropReference
    rw [hfcb, Option.map_some]
    dsimp only
    rw [if_pos hcount']
  · rw [setFD]
    dsimp only
    rw [Function.update_self]
    exact hcount'
  · intro x hx
    rw [setFD]
    dsimp only
    rw [Function.update_of_ne hx]
    exact hother x hx
  · have hfcb' : ((files.countFCB c (-1)).fcbTable c).openCount
        = int32 ((files.fcbTable c).openCount + -1) := by
      unfold countFCB setFCB
      dsimp only
      rw [Function.update_self]
    exact hfcb'
  · exact fun x hx => Function.update_of_ne hx _ _

/-- `Close` of a file that was opened, and read since. -/
theorem closeFile_opened (href : Referenced k) (h : Opened k k₁ proc fileName fd d c entry)
    (hscheduler : k₁.scheduler = (k.setFile proc fd (some d)).scheduler) (m : Memory) :
  ∃ k₂, closeFile proc fd.val (k₁.advance d n m) = some k₂ ∧ k₂.memory = m
    ∧ k₂.scheduler = k.scheduler
    ∧ (∀ x, (k₂.files.fdTable x).openCount = (k.files.fdTable x).openCount)
    ∧ ∀ x, (k₂.files.fcbTable x).openCount = (k.files.fcbTable x).openCount
  := by
  have hdescriptor : ((k₁.advance d n m).files.fdTable d).fcb = some c
      ∧ ((k₁.advance d n m).files.fdTable d).openCount = 1 := by
    unfold Kernel.advance setFD
    dsimp only
    rw [Function.update_self, h.descriptor]
    exact ⟨rfl, rfl⟩
  have hothers : ∀ x, x ≠ d → (k₁.advance d n m).files.fdTable x = k₁.files.fdTable x :=
    fun x hx => Function.update_of_ne hx _ _
  obtain ⟨files, hdrop, hfd, hfds, hfcb, hfcbs⟩ :=
    dropReference_only hdescriptor.1 hdescriptor.2
  have hold : 0 ≤ (k.files.fcbTable c).openCount ∧ (k.files.fcbTable c).openCount ≤ 970 := by
    have hle := List.countP_le_length (p := k.files.linkedTo c) (l := k.references)
    have hlength := length_references_le k
    rw [href.counted.openCount]
    omega
  have hunreferenced : (k.files.fdTable d).openCount = 0 := by
    rw [href.counted.count, List.count_eq_zero_of_not_mem, Nat.cast_zero]
    intro hmem
    obtain ⟨i, hi⟩ := mem_references.mp hmem
    obtain ⟨j, _, hj⟩ := mem_openFiles.mp hi
    exact h.unreferenced i j hj
  have hcount : ((k₁.advance d n m).files.fcbTable c).openCount
      = (k.files.fcbTable c).openCount + 1 := h.count
  refine ⟨({ k₁.advance d n m with files := files } : Kernel).setFile proc fd none, ?_, rfl, ?_, ?_, ?_⟩
  · have hfile : ((k₁.advance d n m).process proc).file fd = some d := h.file
    unfold closeFile
    rw [fileIndex_eq_some.mpr rfl, Option.bind_eq_bind, Option.bind_some]
    dsimp only
    rw [hfile]
    dsimp only
    rw [hdescriptor.1, Option.bind_eq_bind, Option.bind_some, assert_of (by omega),
      Option.bind_eq_bind, Option.bind_some, hdrop, Option.bind_eq_bind, Option.bind_some]
  · exact setFile_none h.first.closed hscheduler
  · intro x
    by_cases hx : x = d
    · rw [hx, hunreferenced]
      exact hfd
    · exact congrArg FD.openCount ((hfds x hx).trans ((hothers x hx).trans (h.otherFDs x hx)))
  · intro x
    by_cases hx : x = c
    · rw [hx, ← int32_of_range (n := (k.files.fcbTable c).openCount) (by omega) (by omega)]
      refine hfcb.trans ?_
      rw [hcount, Int.add_neg_cancel_right]
    · exact congrArg FCB.openCount ((hfcbs x hx).trans (h.otherFCBs x hx))

/-! ### Reading the program -/

/-- `Read` of a whole file of at most 2 MB to the user page. -/
theorem readFile_program {i : Fin processMaximumFileDescriptor} (h : Owned image k (a :: xs) L)
    (hq : Queued k.scheduler q (some k.currentProc) none) (hidle : k.currentProc ≠ idleSlot)
    (hproc : k.currentProc = proc) (hvolume : Volume k.files)
    (hd : (k.process proc).file i = some d)
    (hc : (k.files.fdTable d).fcb = some c) (hpos : (k.files.fdTable d).position = 0)
    (hstart : startClusterIndex ≤ (k.files.fcbTable c).startCluster)
    (hlt : (k.files.fcbTable c).startCluster < 2 ^ 16) (hn : (k.files.fcbTable c).fileSize = n)
    (hsize : n ≤ pageSize) :
  ∃ m, readFile image proc i.val userVirtualAddressBase (int32 n) k
      = some (int32 n, k.advance d n m)
    ∧ Free image m (a :: xs)
    ∧ ∀ o, o < pageSize → m.bytes ((L.space proc).page + o)
      = if o < n then k.files.fileByte (k.files.fcbTable c).startCluster o
        else k.memory.bytes ((L.space proc).page + o)
  := by
  subst hproc
  have hlive := hq.live_current hidle
  have hpage := pageSize_eq
  have hzero : (0 : ℕ) / k.files.bpb.getBytesPerCluster = 0 := Nat.zero_div _
  have hcluster : k.files.readCluster (k.files.fcbTable c).startCluster 0
      = (k.files.fcbTable c).startCluster := by
    unfold readCluster
    rw [hzero]
    exact Nat.mod_eq_of_lt hlt
  have hoffset : k.files.readOffset 0 = 0 := by
    rw [hvolume.readOffset_eq, Nat.zero_mod]
  have hreadable : k.files.Readable (k.files.fcbTable c).startCluster 0 :=
    ⟨hvolume.bytesPerCluster_pos.ne', hcluster.symm ▸ hstart⟩
  have hsectors := hvolume.readSectors_eq hsize
  have hfit := hvolume.clusters_le hsize
  have hcover := hvolume.le_clusters n
  rw [← hsectors] at hfit hcover
  have hbuffer : userVirtualAddressBase + n ≤ userVirtualAddressBase + pageSize := by omega
  obtain ⟨m, hrun, hfree, _, hread, hrest, _⟩ := readRawData_spec (h.space k.currentProc hlive)
    h.kernelEnd.le (h.space_isPage hlive) (h.space_nodup hlive) h.free hreadable hfit le_rfl hbuffer
  have hrequest : k.readSize d c (int32 n) = n := by
    have hmin : (LarvaOS.readSize 0 n n : Int) = min (n : Int) (n - (0 : ℕ)) :=
      readSize_of_nonneg (by omega) (by omega) (by omega) (by omega) (by omega)
    rw [Kernel.readSize, hpos, hn, int32_of_range (by omega) (by omega)]
    omega
  have haddr : userAddress (L.space k.currentProc) userVirtualAddressBase
      = (L.space k.currentProc).page := by
    unfold userAddress
    omega
  rw [haddr, hoffset] at hread
  rw [haddr] at hrest
  refine ⟨m, ?_, hfree, ?_⟩
  · rw [readFile_eq (fileIndex_eq_some.mpr rfl) hd hc, hrequest, hpos, h.pageMapRegister hq hidle,
      hrun, Option.map_some]
  · intro o ho
    split
    · rename_i hlt'
      have hlast : (k.files.fcbTable c).startCluster + 0 / k.files.bpb.getBytesPerCluster < 2 ^ 16 := by
        omega
      have hbyte := hvolume.diskByte_eq hstart hlast o
      rw [hoffset, Nat.zero_add] at hbyte
      rw [hread (by omega) o hlt', Nat.zero_add, if_pos (by omega), hbyte]
    · apply hrest
      · exact ⟨by omega, by omega⟩
      · omega

/-! ### The trap frame -/

/-- The last part of `Exec` starts the trap frame of the process. -/
theorem startExec_frame (k : Kernel) (proc : Slot) :
  TrapFrame.load (startExec proc k).memory.bytes (k.process proc).tf = TrapFrame.user
  := by
  apply TrapFrame.load_startTrapFrame
  intro x hx hlt
  exact memset_of_inside hx hlt

/-! ### Exec -/

/-- The user page of the current process, when other pages change. -/
theorem Owned.userPage_byte {ps : List ℕ} {m m' : Memory} (h : Owned image k (a :: xs) L)
    (hlive : k.Live k.currentProc) (hc : Changes ps m m')
    (hps : ∀ p ∈ ps, p = a ∨ p = (k.process k.currentProc).stack) {o : ℕ} (ho : o < pageSize) :
  m'.bytes ((L.space k.currentProc).page + o) = m.bytes ((L.space k.currentProc).page + o)
  := by
  have hpage := (h.space_isPage hlive) (L.space k.currentProc).page List.mem_cons_self
  apply hc.byte _ hpage.aligned _ ⟨by omega, by omega⟩
  · intro p hp
    rcases hps p hp with rfl | rfl
    · exact (h.free.isPage p List.mem_cons_self).aligned
    · exact (h.stack_isPage hlive).aligned
  · intro hp
    have hnodup := h.slot_nodup k.currentProc
    rw [slotPages_of_live hlive] at hnodup
    obtain ⟨hslot, _, hdisj⟩ := List.nodup_append.mp hnodup
    rcases hps _ hp with ha | hstack
    · apply hdisj _ (List.mem_cons_of_mem _ List.mem_cons_self) a _ ha
      exact List.mem_append_left _ List.mem_cons_self
    · apply (List.nodup_cons.mp hslot).1
      rw [← hstack]
      exact List.mem_cons_self

/-- The user page is cleared. -/
theorem Owned.clearUser_spec (h : Owned image k xs L)
    (hq : Queued k.scheduler q (some k.currentProc) none) (hidle : k.currentProc ≠ idleSlot)
    (hproc : k.currentProc = proc) :
  ∃ m, memsetVirtual k.scheduler.cr3 userVirtualAddressBase 0 pageSize k.memory = some m
    ∧ ∀ o, o < pageSize → m.bytes ((L.space proc).page + o) = 0
  := by
  subst hproc
  have hlive := hq.live_current hidle
  obtain ⟨hset, _⟩ := (h.space k.currentProc hlive).memsetVirtual_eq (c := 0) h.kernelEnd.le
    (h.space_isPage hlive) (List.nodup_append.mp (h.space_nodup hlive)).1 le_rfl le_rfl
  rw [← h.pageMapRegister hq hidle] at hset
  refine ⟨_, hset, ?_⟩
  intro o ho
  exact memset_of_inside (by omega) (by omega)

/-- `Exec` of a file that cannot be opened. -/
theorem exec_killed {ret : Int} (h : Owned image k (a :: xs) L)
    (hq : Queued k.scheduler q (some k.currentProc) none) (hidle : k.currentProc ≠ idleSlot)
    (hopen : openFile image k.currentProc fileName k = some (ret, k₁)) (hret : ret < 0) :
  ∃ k', exec image k.currentProc fileName k = some k'
    ∧ Killed k k' (L.space k.currentProc).page ∧ Free image k'.memory (a :: xs)
  := by
  obtain ⟨hchange, hfree, _⟩ := h.openFile_memory hopen
  have hsame : k₁.files = k.files ∧ k₁.scheduler = k.scheduler := by
    rcases openFile_cases hopen with ⟨_, rfl⟩ | ⟨found, m, _, hcase⟩
    · exact ⟨rfl, rfl⟩
    rcases hcase with ⟨_, rfl⟩ | ⟨fd, d, c, entry, _, _, _, _, rfl, _⟩
    · exact ⟨rfl, rfl⟩
    · omega
  obtain ⟨s, hexit, _, hres, _, hq'⟩ := hq.exit hidle
  refine ⟨{ k₁ with scheduler := s }, ?_, ?_, hfree⟩
  · unfold exec
    rw [hopen, Option.bind_eq_bind, Option.bind_some]
    dsimp only
    rw [if_pos hret, Kernel.exit, hsame.2, hexit, Option.map_some]
  · constructor
    · have hmem : k.currentProc ∈ (Queued.exited k.scheduler q).tail .killProcList := by
        rw [Queues.tail_of_ne (by simp), Queued.exited, Queues.wake, Queues.push_self]
        exact List.mem_append_right _ List.mem_cons_self
      exact hq'.state .killProcList _ hmem (by simp)
    · intro o ho
      apply h.userPage_byte (hq.live_current hidle) hchange _ ho
      exact fun p hp => Or.inl (List.mem_singleton.mp hp)
    · exact hsame.1
    · exact fun i => hres.file i

/-- `Exec` of a program in the root directory of at most 2 MB loads it, and leaves the open
files and the free list as they were; when the file cannot be opened, the process is killed. -/
theorem exec_loads (h : Owned image k (a :: xs) L)
    (hq : Queued k.scheduler q (some k.currentProc) none) (hidle : k.currentProc ≠ idleSlot)
    (href : Referenced k) (hcached : Cached k.files) (hvolume : Volume k.files)
    (fileName : List UInt8) :
  (∀ c entry, k.files.lookup fileName = some (c, entry) →
      startClusterIndex ≤ entry.clusterIndex → HasFreeFile (k.process k.currentProc) →
      entry.fileSize ≤ pageSize →
      ∃ k', exec image k.currentProc fileName k = some k'
        ∧ Loaded k k' (L.space k.currentProc).page entry ∧ Free image k'.memory (a :: xs))
    ∧ ∀ ret k₁, openFile image k.currentProc fileName k = some (ret, k₁) → ret < 0 →
      ∃ k', exec image k.currentProc fileName k = some k'
        ∧ Killed k k' (L.space k.currentProc).page ∧ Free image k'.memory (a :: xs)
  := by
  refine ⟨?_, fun ret k₁ hopen hret => exec_killed h hq hidle hopen hret⟩
  intro c entry hfound hcluster hslot hsize
  have hlive := hq.live_current hidle
  have hroot : k.files.bpb.rootDirEntries < 2 ^ 16 := by
    rw [hvolume.bpb]
    exact Bytes.read_lt 2 _ _
  obtain ⟨fd, d, k₁, hopen, hfree₁, hopened⟩ := openFile_opens href hcached h.free
    hvolume.bytesPerSector hroot hslot hfound hcluster
  obtain ⟨_, _, hv₁⟩ := h.openFile_memory hopen
  have hscheduler := hopened.setFile hopen
  have hfiles₁ := openFile_onlyFiles hq.current_used hopen
  have h₁ := h.openFile hq.current_used hopen
  have hcurrent : k₁.currentProc = k.currentProc := hfiles₁.currentProc
  have hq₁ := hfiles₁.queued hq
  rw [← hcurrent] at hq₁
  have hidle₁ : k₁.currentProc ≠ idleSlot := hcurrent ▸ hidle
  obtain ⟨m₂, hset, hcleared⟩ := h₁.clearUser_spec hq₁ hidle₁ hcurrent
  have h₂ := h₁.clearUser hq₁ hidle₁ hset
  have hfcb : (k₁.files.fdTable d).fcb = some c ∧ (k₁.files.fdTable d).position = 0 := by
    rw [hopened.descriptor]
    exact ⟨rfl, rfl⟩
  obtain ⟨m₃, hread, hfree₃, hprogram⟩ := readFile_program h₂ hq₁ hidle₁ hcurrent
    (hvolume.congr hv₁) hopened.file hfcb.1 hfcb.2 (hopened.cluster.symm ▸ hcluster)
    (hopened.cluster.symm ▸ lookup_clusterIndex_lt hfound) hopened.size hsize
  obtain ⟨k₃, hclose, hmemory, hscheduler₃, hfds, hfcbs⟩ :=
    closeFile_opened (n := entry.fileSize) href hopened hscheduler m₃
  have hsize' : getFileSize k.currentProc fd.val { k₁ with memory := m₂ }
      = some (int32 entry.fileSize) := by
    unfold getFileSize
    rw [fileIndex_eq_some.mpr rfl, Option.bind_eq_bind, Option.bind_some]
    dsimp only
    rw [hopened.file]
    dsimp only
    rw [hfcb.1, Option.bind_eq_bind, Option.bind_some, hopened.size]
  have hnonneg : ¬ int32 entry.fileSize < 0 := by
    rw [pageSize_eq] at hsize
    rw [int32_of_range (by omega) (by omega)]
    omega
  have htf := h.tf k.currentProc hlive
  have hstack : Changes [(k.process k.currentProc).stack] m₃
      (startExec k.currentProc k₃).memory := by
    have hchange := Owned.startExec_changes (k := k₃) (i := k.currentProc) (by
      rw [Kernel.process, hscheduler₃]
      exact htf)
    rwa [Kernel.process, hscheduler₃, hmemory] at hchange
  refine ⟨startExec k.currentProc k₃, ?_, ?_, ?_⟩
  · unfold exec
    rw [hopen, Option.bind_eq_bind, Option.bind_some]
    dsimp only
    rw [if_neg (by omega), hset, Option.bind_eq_bind, Option.bind_some, hsize', Option.bind_eq_bind,
      Option.bind_some, hread, Option.bind_some]
    dsimp only
    rw [if_neg hnonneg]
    exact Option.bind_eq_some_iff.mpr ⟨k₃, hclose, rfl⟩
  · constructor
    · intro o ho
      rw [h.userPage_byte hlive hstack (fun p hp => Or.inr (List.mem_singleton.mp hp)) ho,
        hprogram o ho, hcleared o ho, hopened.cluster, fileByte_congr hv₁]
    · have hframe := startExec_frame k₃ k.currentProc
      rwa [Kernel.process, hscheduler₃] at hframe
    · exact hscheduler₃
    · exact hfds
    · exact hfcbs
  · have hsame : (startExec k.currentProc k₃).memory.freePageHead = k₃.memory.freePageHead := rfl
    have hhead := hsame.trans (congrArg Memory.freePageHead hmemory)
    apply hfree₃.changes hstack hhead
    · intro x hx
      rw [List.mem_singleton.mp hx]
      exact (h.stack_isPage hlive).aligned
    · intro x hx hmem
      rw [List.mem_singleton.mp hx] at hmem
      exact h.not_mem_held hmem (Owned.mem_held_of_live hlive List.mem_cons_self)

/-- The shell of the small machine, when it runs first. -/
theorem smallMachine_shell {n : Fin (2 ^ 43)} (hlo : 12 ≤ n.val) (hhi : n.val ≤ 510) :
  ∃ k₀ k L p p', kMain smallImage (smallMachine n) = some k₀
    ∧ k₀.step smallImage .yield = some k ∧ k.currentProc = 1
    ∧ Owned smallImage k (regionPages (kernelVirtualAddressBase + 0x400000) (n.val - 12)) L
    ∧ Queued k.scheduler (fun _ => []) (some 1) none ∧ Referenced k
    ∧ k.files = FileSystem.booted smallDisk p p' ∧ (k.process 1).file = fun _ => none
  := by
  obtain ⟨k₀, L, hboot, hbooted⟩ := kMain_smallMachine hlo hhi
  obtain ⟨k, hyield, hcurrent, howned, hres, hfiles, _, hq⟩ := hbooted.yield
  obtain ⟨p, p', hfiles₀⟩ := hbooted.files
  have hreach : Reachable (Kernel.step smallImage) Allowed k₀ k := by
    apply Reachable.step .yield .refl _ hyield
    intro h
    cases h
  obtain ⟨m, files, cr3, hinit⟩ := kMain_initProcess hboot
  obtain ⟨_, href⟩ := Reachable.referenced (fun _ _ hop => hop) (initProcess_consistent hinit)
    (kMain_referenced hboot) hreach
  exact ⟨k₀, k, L, p, p', hboot, hyield, hcurrent, howned, hq, href, hfiles.trans hfiles₀,
    (hres.file 1).trans hbooted.shell.2⟩

theorem smallDisk_volume (p p' : ℕ) :
  Volume (FileSystem.booted smallDisk p p')
  := by
  have hbytes : (BPB.load smallDisk 0).bytesPerSector = sectorSize := by decide
  have hsectors : (BPB.load smallDisk 0).sectorsPerCluster = 2 ^ 0 := by decide
  exact ⟨rfl, hbytes, 0, by decide, hsectors⟩

theorem smallDisk_fileByte (p p' o : ℕ) :
  (FileSystem.booted smallDisk p p').fileByte 2 o = (FileSystem.booted smallDisk 0 0).fileByte 2 o
  := rfl

/-- The shell loads the program in the root directory. -/
theorem exec_loads_small :
  ∃ k₀ k k' page, kMain smallImage (smallMachine 64) = some k₀
    ∧ k₀.step smallImage .yield = some k ∧ exec smallImage 1 [0x41, 0x2E] k = some k'
    ∧ k'.memory.bytes (page + 511) = 1 ∧ k'.memory.bytes (page + 512) = 2
    ∧ k'.memory.bytes (page + 1024) = 0
    ∧ TrapFrame.load k'.memory.bytes (k.process 1).tf = TrapFrame.user
  := by
  obtain ⟨k₀, k, L, p, p', hboot, hyield, hcurrent, howned, hq, href, hfiles, hfile⟩ :=
    smallMachine_shell (n := 64) (by decide) (by decide)
  have howned' : Owned smallImage k (regionPages (kernelVirtualAddressBase + 0x400000) (51 + 1)) L :=
    howned
  rw [regionPages_succ] at howned'
  have hidle : k.currentProc ≠ idleSlot := by
    rw [hcurrent]
    decide
  obtain ⟨entry, hlookup, hcluster, hsize⟩ := smallDisk_lookup p p'
  rw [← hfiles] at hlookup
  obtain ⟨hloads, _⟩ := exec_loads howned' (hcurrent.symm ▸ hq) hidle href
    (hfiles.symm ▸ booted_cached _ _ _) (hfiles.symm ▸ smallDisk_volume _ _) [0x41, 0x2E]
  have hfree : HasFreeFile (k.process k.currentProc) := by
    rw [hcurrent]
    exact ⟨3, by decide, congrFun hfile 3⟩
  have hpage := pageSize_eq
  obtain ⟨k', hexec, hloaded, _⟩ := hloads 0 entry hlookup (by rw [hcluster]; decide) hfree
    (by omega)
  rw [hcurrent] at hexec
  have hframe := hloaded.frame
  rw [hcurrent] at hframe
  refine ⟨k₀, k, k', (L.space k.currentProc).page, hboot, hyield, hexec, ?_, ?_, ?_, hframe⟩
  · rw [hloaded.program 511 (by omega), hsize, if_pos (by decide), hcluster, hfiles, smallDisk_fileByte]
    decide +kernel
  · rw [hloaded.program 512 (by omega), hsize, if_pos (by decide), hcluster, hfiles, smallDisk_fileByte]
    decide +kernel
  · rw [hloaded.program 1024 (by omega), hsize, if_neg (by decide)]

end LarvaOS
