import LarvaOS.File.Lookup
import LarvaOS.Kernel.References

/-!
# Opening a file

`Open` searches a free file of the process, a free file descriptor, and the directory
entry, before it changes anything.  So it either opens the file, and no other file,
descriptor or file control block changes, or it returns an error and leaves no trace.
-/

namespace LarvaOS

open FileSystem

variable {image : Image} {k k' : Kernel} {proc : Slot} {a c : ℕ} {xs : List ℕ} {entry : DirEntry}
  {fileName : List UInt8} {fd : Fin processMaximumFileDescriptor}

/-- The file control blocks of open files agree with the directory. -/
def Cached (files : FileSystem) : Prop :=
  ∀ c, 0 < (files.fcbTable c).openCount → ∀ e ∈ files.rootEntries, (files.indexed e).1 = c →
    (files.fcbTable c).fileSize = (files.rootEntry e.1 e.2).fileSize
      ∧ (files.fcbTable c).startCluster = (files.rootEntry e.1 e.2).clusterIndex

/-- `fd` is the first file of the process that is not open. -/
structure FirstFile (p : Process) (fd : Fin processMaximumFileDescriptor) : Prop where
  user : userStartFd ≤ fd.val
  closed : p.file fd = none
  least : ∀ j : Fin processMaximumFileDescriptor, userStartFd ≤ j.val → j < fd → p.file j ≠ none

/-- The process can open one more file. -/
def HasFreeFile (p : Process) : Prop :=
  ∃ i : Fin processMaximumFileDescriptor, userStartFd ≤ i.val ∧ p.file i = none

/-- The file `fd` of a process has been opened: it is the descriptor `d` of the file with
the index `c` and the directory entry `entry`. -/
structure Opened (k k' : Kernel) (proc : Slot) (fileName : List UInt8)
    (fd : Fin processMaximumFileDescriptor) (d c : ℕ) (entry : DirEntry) : Prop where
  found : k.files.lookup fileName = some (c, entry)
  first : FirstFile (k.process proc) fd
  unreferenced : ∀ i j, (k.process i).file j ≠ some d
  fd_lt : d < getMaxEntriesOfFDTable
  fcb_lt : c < getMaxEntriesOfFCBTable
  file : (k'.process proc).file fd = some d
  descriptor : k'.files.fdTable d = { fcb := some c, position := 0, openCount := 1 }
  size : (k'.files.fcbTable c).fileSize = entry.fileSize
  cluster : (k'.files.fcbTable c).startCluster = entry.clusterIndex
  count : (k'.files.fcbTable c).openCount = (k.files.fcbTable c).openCount + 1
  otherFiles : ∀ i j, ¬ (i = proc ∧ j = fd) → (k'.process i).file j = (k.process i).file j
  otherFDs : ∀ x, x ≠ d → k'.files.fdTable x = k.files.fdTable x
  otherFCBs : ∀ x, x ≠ c → k'.files.fcbTable x = k.files.fcbTable x

/-! ### The searches -/

theorem pairwise_userFds :
  userFds.Pairwise (· < ·)
  := (List.pairwise_lt_finRange _).filter _

/-- The search in the process finds the first file that is not open. -/
theorem find_userFds {p : Process} {fd : Fin processMaximumFileDescriptor}
    (h : userFds.find? (fun i => p.file i = none) = some fd) :
  FirstFile p fd
  where
  user := mem_userFds.mp (List.mem_of_find?_eq_some h)
  closed := by simpa using List.find?_some h
  least j hj hlt := by
    obtain ⟨_, before, after, hfds, hbefore⟩ := List.find?_eq_some_iff_append.mp h
    have hmem : j ∈ before ++ fd :: after := hfds ▸ mem_userFds.mpr hj
    have hsorted := hfds ▸ pairwise_userFds
    rcases List.mem_append.mp hmem with hmem | hmem
    · simpa using hbefore j hmem
    · exfalso
      rcases List.mem_cons.mp hmem with rfl | hmem
      · exact lt_irrefl _ hlt
      · have hafter := (List.pairwise_append.mp hsorted).2.1
        exact lt_asymm hlt ((List.pairwise_cons.mp hafter).1 j hmem)

/-- The index of an entry lies in the FCB table. -/
theorem indexed_lt {files : FileSystem} (hbytes : files.bpb.bytesPerSector = sectorSize)
    (hroot : files.bpb.rootDirEntries < 2 ^ 16) {e : ℕ × ℕ} (he : e ∈ files.rootEntries) :
  (files.indexed e).1 < getMaxEntriesOfFCBTable
  := by
  obtain ⟨i, hi, hmem⟩ := List.mem_flatMap.mp he
  have hsector := sector_of_mem hmem
  have hentry := mem_sectorEntries hmem
  have hlt := List.mem_range.mp hi
  have hper : files.entriesPerSector = 16 := by
    rw [entriesPerSector, hbytes]
    rfl
  rw [BPB.getRootDirectorySectorSize, hbytes, sizeofDirEntry_eq, sectorSize_eq] at hlt
  rw [hper] at hentry
  rw [getMaxEntriesOfFCBTable, pageSize_eq, indexed, hper]
  dsimp only
  omega

/-! ### Open -/

/-- The file control block after `Open` carries the size and the first cluster of the
directory entry. -/
theorem openFCB_cached (href : Referenced k) (hcached : Cached k.files) {e : ℕ × ℕ}
    (he : e ∈ k.files.rootEntries) {c : ℕ} {entry : DirEntry}
    (hindexed : (c, entry) = k.files.indexed e) :
  (openFCB (k.files.fcbTable c) c entry).fileSize = entry.fileSize
    ∧ (openFCB (k.files.fcbTable c) c entry).startCluster = entry.clusterIndex
    ∧ (openFCB (k.files.fcbTable c) c entry).openCount = (k.files.fcbTable c).openCount + 1
  := by
  obtain ⟨hc, rfl⟩ := Prod.mk.inj hindexed
  have hcount := href.counted.openCount c
  have hle := (List.countP_le_length (l := k.references) (p := k.files.linkedTo c)).trans
    (length_references_le k)
  have hsum : int32 ((k.files.fcbTable c).openCount + 1) = (k.files.fcbTable c).openCount + 1 := by
    apply int32_of_range <;> omega
  unfold openFCB
  by_cases hzero : (k.files.fcbTable c).openCount = 0
  · rw [if_pos hzero]
    exact ⟨rfl, rfl, hsum⟩
  · rw [if_neg hzero]
    have hpos : 0 < (k.files.fcbTable c).openCount := by omega
    obtain ⟨hsize, hcluster⟩ := hcached c hpos e he hc.symm
    exact ⟨hsize, hcluster, hsum⟩

/-- `Open` ends when there is a free page, and gives it back. -/
theorem openFile_ends (hfree : Free image k.memory (a :: xs))
    (hsector : k.files.bpb.bytesPerSector ≤ pageSize) (proc : Slot) (fileName : List UInt8) :
  ∃ ret k', openFile image proc fileName k = some (ret, k') ∧ Free image k'.memory (a :: xs)
  := by
  unfold openFile
  split
  · exact ⟨_, k, rfl, hfree⟩
  · split
    · exact ⟨_, k, rfl, hfree⟩
    · obtain ⟨m, hfind, hfree', _⟩ := findFileInRootDir_spec hsector hfree fileName
      rw [hfind, Option.bind_eq_bind, Option.bind_some]
      dsimp only
      split
      · exact ⟨_, _, rfl, hfree'⟩
      · split
        · exact ⟨_, _, rfl, hfree'⟩
        · exact ⟨_, _, rfl, hfree'⟩

/-- `Open` has opened the file, and changed nothing else, or returned an error and changed
nothing. -/
theorem openFile_result {ret : Int} (href : Referenced k) (hcached : Cached k.files)
    (hfree : Free image k.memory (a :: xs)) (hbytes : k.files.bpb.bytesPerSector = sectorSize)
    (hroot : k.files.bpb.rootDirEntries < 2 ^ 16)
    (hrun : openFile image proc fileName k = some (ret, k')) :
  (∃ fd d c entry, ret = fd.val ∧ Opened k k' proc fileName fd d c entry)
    ∨ ret < 0 ∧ k'.files = k.files ∧ k'.scheduler = k.scheduler
  := by
  have hsector : k.files.bpb.bytesPerSector ≤ pageSize := by
    rw [hbytes, pageSize_eq, sectorSize_eq]
    omega
  rcases openFile_cases hrun with ⟨hneg, rfl⟩ | ⟨found, m, hfind, hcase⟩
  · exact Or.inr ⟨hneg, rfl, rfl⟩
  rcases hcase with ⟨hneg, rfl⟩ | ⟨fd, d, c, entry, hfd, hd, rfl, _, rfl, rfl⟩
  · exact Or.inr ⟨hneg, rfl, rfl⟩
  refine Or.inl ⟨fd, d, c, entry, rfl, ?_⟩
  obtain ⟨m', hfind', _⟩ := findFileInRootDir_spec hsector hfree fileName
  obtain ⟨hfound, rfl⟩ := Prod.mk.inj (Option.some.inj (hfind'.symm.trans hfind))
  obtain ⟨e, hfirst, hindexed⟩ := Option.map_eq_some_iff.mp hfound
  have he := List.mem_of_find?_eq_some hfirst
  have hfcb : (k.files.fdTable d).fcb = none := by simpa using List.find?_some hd
  have hmem : d ∉ k.references := (href.counted.linked d).mp hfcb
  obtain ⟨hsize, hcluster, hcount⟩ := openFCB_cached href hcached he hindexed.symm
  have hfcb' : (((k.files.setFCB c (openFCB (k.files.fcbTable c) c entry)).setFD d
      { fcb := some c, position := 0, openCount := 1 }).fcbTable c)
      = openFCB (k.files.fcbTable c) c entry := Function.update_self _ _ _
  constructor
  · exact hfound
  · exact find_userFds hfd
  · intro i j hfile
    apply hmem
    exact mem_references.mpr ⟨i, mem_openFiles.mpr ⟨j, href.user_fd hfile, hfile⟩⟩
  · exact List.mem_range.mp (List.mem_of_find?_eq_some hd)
  · have hlt := indexed_lt hbytes hroot he
    rwa [hindexed] at hlt
  · rw [setFile_file, if_pos rfl, Function.update_self]
  · exact Function.update_self _ _ _
  · exact (congrArg FCB.fileSize hfcb').trans hsize
  · exact (congrArg FCB.startCluster hfcb').trans hcluster
  · exact (congrArg FCB.openCount hfcb').trans hcount
  · intro i j hne
    rw [setFile_file]
    split
    · rename_i hi
      rw [Function.update_of_ne (fun hj => hne ⟨hi, hj⟩), hi]
    · rfl
  · exact fun x hx => Function.update_of_ne hx _ _
  · exact fun x hx => Function.update_of_ne hx _ _

/-- `Open` opens the file, and changes nothing else, or returns an error and changes
nothing. -/
theorem openFile_atomic (href : Referenced k) (hcached : Cached k.files)
    (hfree : Free image k.memory (a :: xs)) (hbytes : k.files.bpb.bytesPerSector = sectorSize)
    (hroot : k.files.bpb.rootDirEntries < 2 ^ 16) (proc : Slot) (fileName : List UInt8) :
  ∃ ret k', openFile image proc fileName k = some (ret, k') ∧ Free image k'.memory (a :: xs)
    ∧ ((∃ fd d c entry, ret = fd.val ∧ Opened k k' proc fileName fd d c entry)
      ∨ ret < 0 ∧ k'.files = k.files ∧ k'.scheduler = k.scheduler)
  := by
  have hsector : k.files.bpb.bytesPerSector ≤ pageSize := by
    rw [hbytes, pageSize_eq, sectorSize_eq]
    omega
  obtain ⟨ret, k', hrun, hfree'⟩ := openFile_ends hfree hsector proc fileName
  exact ⟨ret, k', hrun, hfree', openFile_result href hcached hfree hbytes hroot hrun⟩

/-- `Open` of a file in the root directory by a process that can open one more file. -/
theorem openFile_found {ret : Int} (href : Referenced k) (hfree : Free image k.memory (a :: xs))
    (hsector : k.files.bpb.bytesPerSector ≤ pageSize) (hslot : HasFreeFile (k.process proc))
    (hfound : k.files.lookup fileName = some (c, entry))
    (hcluster : startClusterIndex ≤ entry.clusterIndex)
    (hrun : openFile image proc fileName k = some (ret, k')) :
  0 ≤ ret
  := by
  obtain ⟨i, huser, hnone⟩ := hslot
  have hfd : ∃ fd, userFds.find? (fun i => (k.process proc).file i = none) = some fd := by
    rw [← Option.ne_none_iff_exists', Ne, List.find?_eq_none]
    exact fun hall => hall i (mem_userFds.mpr huser) (decide_eq_true hnone)
  obtain ⟨fd, hfd⟩ := hfd
  obtain ⟨d, hd⟩ := href.exists_descriptor
  obtain ⟨m, hfind, _⟩ := findFileInRootDir_spec hsector hfree fileName
  unfold openFile at hrun
  rw [hfd, hd] at hrun
  dsimp only at hrun
  rw [hfind, hfound, Option.bind_eq_bind, Option.bind_some] at hrun
  dsimp only at hrun
  rw [if_neg (Nat.not_lt.mpr hcluster)] at hrun
  obtain ⟨rfl, _⟩ := Prod.mk.inj (Option.some.inj hrun)
  exact Int.natCast_nonneg _

/-- A process that can open one more file opens a file of the root directory. -/
theorem openFile_opens (href : Referenced k) (hcached : Cached k.files)
    (hfree : Free image k.memory (a :: xs)) (hbytes : k.files.bpb.bytesPerSector = sectorSize)
    (hroot : k.files.bpb.rootDirEntries < 2 ^ 16) (hslot : HasFreeFile (k.process proc))
    (hfound : k.files.lookup fileName = some (c, entry))
    (hcluster : startClusterIndex ≤ entry.clusterIndex) :
  ∃ fd d k', openFile image proc fileName k = some ((fd.val : Int), k')
    ∧ Free image k'.memory (a :: xs) ∧ Opened k k' proc fileName fd d c entry
  := by
  have hsector : k.files.bpb.bytesPerSector ≤ pageSize := by
    rw [hbytes, pageSize_eq, sectorSize_eq]
    omega
  obtain ⟨ret, k', hrun, hfree'⟩ := openFile_ends hfree hsector proc fileName
  have hret := openFile_found href hfree hsector hslot hfound hcluster hrun
  rcases openFile_result href hcached hfree hbytes hroot hrun with
    ⟨fd, d, c', entry', rfl, hopened⟩ | ⟨hneg, _⟩
  · obtain ⟨rfl, rfl⟩ := Prod.mk.inj (Option.some.inj (hfound.symm.trans hopened.found))
    exact ⟨fd, d, k', hrun, hfree', hopened⟩
  · omega

/-! ### Opening a file of the small disk -/

theorem smallDisk_bytesPerSector :
  (BPB.load smallDisk 0).bytesPerSector = sectorSize
  := by decide

theorem booted_cached (disk : ℕ → UInt8) (p p' : ℕ) :
  Cached (FileSystem.booted disk p p')
  := fun _ hc => absurd hc (lt_irrefl 0)

theorem smallDisk_lookup (p p' : ℕ) :
  ∃ entry, (FileSystem.booted smallDisk p p').lookup [0x41, 0x2E] = some (0, entry)
    ∧ entry.clusterIndex = 2 ∧ entry.fileSize = 1024
  := by
  have hentries : (FileSystem.booted smallDisk 0 0).rootEntries = [(0, 0)] := by decide +kernel
  have hnamed : (FileSystem.booted smallDisk 0 0).named [0x41, 0x2E] (0, 0) = true := by
    decide +kernel
  have hindexed : ((FileSystem.booted smallDisk 0 0).indexed (0, 0)).1 = 0 := by decide +kernel
  refine ⟨(FileSystem.booted smallDisk 0 0).rootEntry 0 0, ?_, by decide +kernel, by decide +kernel⟩
  have hlookup : (FileSystem.booted smallDisk 0 0).lookup [0x41, 0x2E]
      = some (0, (FileSystem.booted smallDisk 0 0).rootEntry 0 0) := by
    rw [FileSystem.lookup, hentries, List.find?_cons, hnamed, Option.map_some]
    exact congrArg some (Prod.ext hindexed rfl)
  exact hlookup

theorem FirstFile.eq_three {p : Process} (h : FirstFile p fd) (hthree : p.file 3 = none) :
  fd = 3
  := by
  by_contra hne
  have huser := h.user
  have hlt : (3 : Fin processMaximumFileDescriptor) < fd := by
    apply Fin.lt_def.mpr
    have hval : fd.val ≠ 3 := fun e => hne (Fin.ext e)
    unfold userStartFd at huser
    show 3 < fd.val
    omega
  exact h.least 3 le_rfl hlt hthree

/-- The first descriptor is free when all are. -/
theorem find_descriptor {files : FileSystem} (h : files.fdTable = fun _ => FD.zero) {d : ℕ}
    (hd : (List.range getMaxEntriesOfFDTable).find? (fun d => (files.fdTable d).fcb = none)
      = some d) :
  d = 0
  := by
  obtain ⟨_, i, hi, rfl, hleast⟩ := List.find?_eq_some_iff_getElem.mp hd
  rcases Nat.eq_zero_or_pos i with rfl | hpos
  · exact List.getElem_range _
  · have hfirst := hleast 0 hpos
    rw [h] at hfirst
    cases hfirst

/-- When no file is open, a process opens the file of the small disk as the descriptor 3, the first
entry of both tables. -/
theorem smallDisk_opens {p p' : ℕ} (hfiles : k.files = FileSystem.booted smallDisk p p')
    (href : Referenced k) (hfree : Free image k.memory (a :: xs))
    (hthree : (k.process proc).file 3 = none) :
  ∃ k' entry, openFile image proc [0x41, 0x2E] k = some (3, k')
    ∧ Opened k k' proc [0x41, 0x2E] 3 0 0 entry ∧ entry.clusterIndex = 2 ∧ entry.fileSize = 1024
  := by
  have hbytes : k.files.bpb.bytesPerSector = sectorSize := by
    rw [hfiles]
    exact smallDisk_bytesPerSector
  have hroot : k.files.bpb.rootDirEntries < 2 ^ 16 := by
    rw [hfiles]
    exact Bytes.read_lt 2 _ _
  obtain ⟨entry, hlookup, hcluster, hsize⟩ := smallDisk_lookup p p'
  rw [← hfiles] at hlookup
  obtain ⟨fd, d, k', hrun, _, hopened⟩ := openFile_opens href (hfiles ▸ booted_cached _ p p') hfree
    hbytes hroot ⟨3, by decide, hthree⟩ hlookup (by rw [hcluster]; decide)
  obtain rfl := hopened.first.eq_three hthree
  rcases openFile_cases hrun with ⟨hneg, _⟩ | ⟨found, m, _, hcase⟩
  · omega
  rcases hcase with ⟨hneg, _⟩ | ⟨j, d', c', entry', _, hd, _, _, hj, rfl⟩
  · omega
  obtain rfl : (3 : Fin processMaximumFileDescriptor) = j := Fin.ext (Int.ofNat.inj hj)
  obtain rfl := find_descriptor (by rw [hfiles]; rfl) hd
  have hfile := hopened.file
  rw [setFile_file, if_pos rfl, Function.update_self] at hfile
  obtain rfl := Option.some.inj hfile
  exact ⟨_, entry, hrun, hopened, hcluster, hsize⟩

/-- After booting, the shell opens the file of the small disk as its descriptor 3. -/
theorem openFile_atomic_small :
  ∃ k a xs k' entry, kMain smallImage (smallMachine 64) = some k
    ∧ Free smallImage k.memory (a :: xs)
    ∧ openFile smallImage 1 [0x41, 0x2E] k = some (3, k') ∧ Free smallImage k'.memory (a :: xs)
    ∧ Opened k k' 1 [0x41, 0x2E] 3 0 0 entry ∧ entry.clusterIndex = 2 ∧ entry.fileSize = 1024
  := by
  obtain ⟨k, L, hboot, hbooted⟩ := kMain_smallMachine (n := 64) (by decide) (by decide)
  obtain ⟨p, p', hfiles⟩ := hbooted.files
  have href := kMain_referenced hboot
  have hfree : Free smallImage k.memory (regionPages (kernelVirtualAddressBase + 0x400000) (51 + 1)) :=
    hbooted.owned.free
  rw [regionPages_succ] at hfree
  obtain ⟨k₁, entry, hopen, hopened, hcluster, hsize⟩ :=
    smallDisk_opens hfiles href hfree (congrFun hbooted.shell.2 3)
  have hbytes : k.files.bpb.bytesPerSector = sectorSize := by
    rw [hfiles]
    exact smallDisk_bytesPerSector
  have hroot : k.files.bpb.rootDirEntries < 2 ^ 16 := by
    rw [hfiles]
    exact Bytes.read_lt 2 _ _
  obtain ⟨ret, k', hrun, hfree', _⟩ := openFile_atomic href (hfiles ▸ booted_cached _ p p') hfree
    hbytes hroot 1 [0x41, 0x2E]
  obtain ⟨rfl, rfl⟩ := Prod.mk.inj (Option.some.inj (hopen.symm.trans hrun))
  exact ⟨k, _, _, _, entry, hboot, hfree, hrun, hfree', hopened, hcluster, hsize⟩

end LarvaOS
