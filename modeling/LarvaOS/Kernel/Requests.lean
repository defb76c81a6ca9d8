import LarvaOS.Kernel.References

/-!
# The requests of Read

`Read` cuts a request off at the end of the file with one comparison of unsigned
integers, `position + size > file_size`.  A sum that wraps around, and a negative size,
can pass the comparison.  `Unwrapped` is the condition under which the request that
reaches `ReadRawData` is clamped to the file.

`ReadRawData` rounds the request up to clusters, reads them to one temporary page, and
copies the requested bytes from an offset in the first cluster on.  `FitsPage` is the
condition under which both stay inside the page.
-/

namespace LarvaOS

variable {image : Image} {k k' : Kernel} {proc : Slot} {fd size : Int} {buffer d c : ℕ}
  {i : Fin processMaximumFileDescriptor} {position fileSize : ℕ}

/-- `read_size`: the number of bytes that `Read` asks `ReadRawData` for. -/
def readSize (position fileSize : ℕ) (size : Int) : ℕ :=
  unsigned 32 (clipSize position fileSize size)

/-- The kernel after a `Read` of `size` bytes on a descriptor, with the memory `m`. -/
def Kernel.advance (k : Kernel) (d size : ℕ) (m : Memory) : Kernel :=
  { k with
    memory := m
    files := k.files.setFD d { k.files.fdTable d with
      position := ((k.files.fdTable d).position + size) % 2 ^ 32 } }

/-- `read_size` for a descriptor with a file control block. -/
def Kernel.readSize (k : Kernel) (d c : ℕ) (size : Int) : ℕ :=
  LarvaOS.readSize (k.files.fdTable d).position (k.files.fcbTable c).fileSize size

/-- `Read` on an open file asks `ReadRawData` for `read_size` bytes, adds them to the
position, and returns them. -/
theorem readFile_eq (hi : fileIndex fd = some i) (hd : (k.process proc).file i = some d)
    (hc : (k.files.fdTable d).fcb = some c) :
  readFile image proc fd buffer size k
    = (k.files.readRawData image k.scheduler.cr3 (k.files.fcbTable c).startCluster buffer
        (k.files.fdTable d).position (k.readSize d c size) k.memory).map
      (fun m => (int32 (k.readSize d c size), k.advance d (k.readSize d c size) m))
  := by
  unfold readFile Kernel.advance
  rw [hi, Option.bind_eq_bind, Option.bind_some]
  dsimp only
  rw [hd]
  dsimp only
  rw [hc, Option.bind_eq_bind, Option.bind_some, Option.bind_eq_bind, Option.map_eq_bind]
  rfl

/-! ### Clamping -/

/-- The request is clamped to the file: the returned number is the number of bytes asked
for, it is at most the size, and the position moves by it, without wrapping around, to a
position in the file. -/
structure Clamps (position fileSize : ℕ) (size : Int) : Prop where
  result : int32 (readSize position fileSize size) = readSize position fileSize size
  le_size : (readSize position fileSize size : Int) ≤ max size 0
  le_fileSize : position + readSize position fileSize size ≤ fileSize
  position : (position + readSize position fileSize size) % 2 ^ 32
    = position + readSize position fileSize size

/-- The size is not negative, and the end of the request is a 32-bit number; or the
position is at the end of the file, and the end of the request lies before the start of
the file. -/
def Unwrapped (position fileSize : ℕ) (size : Int) : Prop :=
  0 ≤ size ∧ position + size < 2 ^ 32 ∨ position = fileSize ∧ position + size < 0

/-- A request that does not wrap around ends at the end of the file at the latest. -/
theorem readSize_of_nonneg (hfile : fileSize < 2 ^ 32) (hpos : position ≤ fileSize)
    (hlo : 0 ≤ size) (hhi : size < 2 ^ 31) (hend : position + size < 2 ^ 32) :
  (readSize position fileSize size : Int) = min size (fileSize - position)
  := by
  unfold readSize clipSize unsigned int32
  split
  · rw [Int.bmod_def]
    split <;> omega
  · omega

/-- A request whose end wraps around is passed on as it is. -/
theorem readSize_of_wrap (hfile : fileSize < 2 ^ 32) (hpos : position ≤ fileSize)
    (hhi : size < 2 ^ 31) (hend : 2 ^ 32 ≤ position + size) :
  (readSize position fileSize size : Int) = size
  := by
  unfold readSize clipSize unsigned
  split
  · omega
  · omega

/-- A negative size that is at most the position is passed on as an unsigned number. -/
theorem readSize_of_neg (hfile : fileSize < 2 ^ 32) (hpos : position ≤ fileSize)
    (hlo : -(2 ^ 31) ≤ size) (hhi : size < 0) (hend : 0 ≤ position + size) :
  (readSize position fileSize size : Int) = size + 2 ^ 32
  := by
  unfold readSize clipSize unsigned
  split
  · omega
  · omega

/-- A negative size that exceeds the position is passed on as an unsigned number, or
replaced by the rest of the file. -/
theorem readSize_of_neg_wrap (hfile : fileSize < 2 ^ 32) (hpos : position ≤ fileSize)
    (hlo : -(2 ^ 31) ≤ size) (hend : position + size < 0) :
  (readSize position fileSize size : Int)
    = if fileSize < position + size + 2 ^ 32 then (fileSize - position : Int) else size + 2 ^ 32
  := by
  unfold readSize clipSize unsigned int32
  split
  · rw [if_pos (by omega), Int.bmod_def]
    split <;> omega
  · rw [if_neg (by omega)]
    omega

/-- A request is clamped if and only if it does not wrap around. -/
theorem clamps_iff (hfile : fileSize < 2 ^ 32) (hpos : position ≤ fileSize)
    (hlo : -(2 ^ 31) ≤ size) (hhi : size < 2 ^ 31) :
  Clamps position fileSize size ↔ Unwrapped position fileSize size
  := by
  unfold Unwrapped
  constructor
  · intro h
    have hsize := h.le_size
    have hrest := h.le_fileSize
    by_cases hneg : size < 0
    · right
      by_cases hend : 0 ≤ position + size
      · rw [readSize_of_neg hfile hpos hlo hneg hend] at hsize
        omega
      · have hsize' := readSize_of_neg_wrap hfile hpos hlo (not_le.mp hend)
        split at hsize' <;> omega
    · left
      by_cases hend : position + size < 2 ^ 32
      · omega
      · have hsize' := readSize_of_wrap hfile hpos hhi (not_lt.mp hend)
        omega
  · have hclamps : (readSize position fileSize size : Int) ≤ max size 0 →
        position + readSize position fileSize size ≤ fileSize →
        Clamps position fileSize size := by
      intro hsize hrest
      exact ⟨int32_of_range (by omega) (by omega), hsize, hrest, Nat.mod_eq_of_lt (by omega)⟩
    rintro (⟨hneg, hend⟩ | ⟨rfl, hend⟩)
    · have hsize := readSize_of_nonneg hfile hpos hneg hhi hend
      exact hclamps (by omega) (by omega)
    · have hsize := readSize_of_neg_wrap hfile hpos hlo hend
      rw [if_pos (by omega)] at hsize
      exact hclamps (by omega) (by omega)

/-! ### Sequences of reads -/

/-- A call of `Read`. -/
structure ReadCall where
  proc : Slot
  fd : Int
  buffer : ℕ
  size : Int
  size_lo : -(2 ^ 31) ≤ size
  size_hi : size < 2 ^ 31

/-- Perform a call of `Read`. -/
def Kernel.read (image : Image) (call : ReadCall) (k : Kernel) : Option Kernel :=
  (readFile image call.proc call.fd call.buffer call.size k).map Prod.snd

/-- The request of the call does not wrap around. -/
def ReadCall.Unwrapped (call : ReadCall) (k : Kernel) : Prop :=
  ∀ i d c, fileIndex call.fd = some i → (k.process call.proc).file i = some d →
    (k.files.fdTable d).fcb = some c →
    LarvaOS.Unwrapped (k.files.fdTable d).position (k.files.fcbTable c).fileSize call.size

/-- The positions of the open files lie in the files. -/
def PositionsWithin (files : FileSystem) : Prop :=
  ∀ d c, (files.fdTable d).fcb = some c →
    (files.fdTable d).position ≤ (files.fcbTable c).fileSize ∧ (files.fcbTable c).fileSize < 2 ^ 32

/-- A clamped read keeps the positions in the files. -/
theorem PositionsWithin.read {call : ReadCall} (h : PositionsWithin k.files)
    (hcall : call.Unwrapped k) (hrun : k.read image call = some k') :
  PositionsWithin k'.files
  := by
  obtain ⟨⟨ret, k₁⟩, hread, rfl⟩ := Option.map_eq_some_iff.mp hrun
  obtain ⟨hsame, _⟩ | ⟨i, d, c, m, hi, hd, hc, _, _, hk⟩ := readFile_cases hread
  · rwa [hsame]
  · rw [hk]
    obtain ⟨hpos, hfile⟩ := h d c hc
    have hclamps := (clamps_iff hfile hpos call.size_lo call.size_hi).mpr (hcall i d c hi hd hc)
    intro x b hb
    dsimp only [FileSystem.setFD] at hb ⊢
    by_cases hx : x = d
    · subst hx
      rw [Function.update_self] at hb ⊢
      have hbc : b = c := Option.some.inj (hb.symm.trans hc)
      rw [hbc]
      exact ⟨hclamps.position.trans_le hclamps.le_fileSize, hfile⟩
    · rw [Function.update_of_ne hx] at hb ⊢
      exact h x b hb

/-- `Read` clamps its request if and only if the request does not wrap around, and such
reads keep the positions in the files. -/
theorem readFile_clamps (hi : fileIndex fd = some i) (hd : (k.process proc).file i = some d)
    (hc : (k.files.fdTable d).fcb = some c) (hfile : (k.files.fcbTable c).fileSize < 2 ^ 32)
    (hpos : (k.files.fdTable d).position ≤ (k.files.fcbTable c).fileSize)
    (hlo : -(2 ^ 31) ≤ size) (hhi : size < 2 ^ 31) :
  (∀ buffer, readFile image proc fd buffer size k
      = (k.files.readRawData image k.scheduler.cr3 (k.files.fcbTable c).startCluster buffer
          (k.files.fdTable d).position (k.readSize d c size) k.memory).map
        (fun m => (int32 (k.readSize d c size), k.advance d (k.readSize d c size) m)))
    ∧ (Clamps (k.files.fdTable d).position (k.files.fcbTable c).fileSize size
      ↔ Unwrapped (k.files.fdTable d).position (k.files.fcbTable c).fileSize size)
    ∧ ∀ k', PositionsWithin k.files →
      Reachable (fun call k => k.read image call) ReadCall.Unwrapped k k' → PositionsWithin k'.files
  := by
  refine ⟨fun _ => readFile_eq hi hd hc, clamps_iff hfile hpos hlo hhi, ?_⟩
  intro k' hwithin hreach
  apply hreach.invariant (P := fun k => PositionsWithin k.files) _ hwithin
  intro call k₁ k₂ hwithin₁ hcall hrun
  exact hwithin₁.read hcall hrun

/-- A kernel in which process 1 has a file of 1000 bytes open, at position 600. -/
def openKernel : Kernel :=
  let files : FileSystem :=
    { disk := fun _ => 0
      bpb := ⟨512, 1, 1, 2, 512, 32, 0x29⟩
      fcbTable := fun _ => { FCB.zero with startCluster := 2, fileSize := 1000, openCount := 1 }
      fdTable := fun _ => ⟨some 0, 600, 1⟩
      fcbTableAddress := 0
      fdTableAddress := 0 }
  Kernel.setFile ⟨⟨fun _ => 0, 0, 0, 0⟩, files, Scheduler.initial ⟨0, by decide⟩⟩
    ⟨1, by decide⟩ ⟨3, by decide⟩ (some 0)

theorem openKernel_within :
  PositionsWithin openKernel.files
  := by
  intro d c _
  exact ⟨(by decide : 600 ≤ 1000), (by decide : 1000 < 2 ^ 32)⟩

/-- A size of 500 is clamped, and so are all reads that follow. -/
theorem readFile_clamps_small :
  Clamps 600 1000 500
    ∧ ∀ k', Reachable (fun call k => k.read smallImage call) ReadCall.Unwrapped openKernel k' →
      PositionsWithin k'.files
  := by
  have h := @readFile_clamps smallImage openKernel 1 3 500 0 0 3 rfl rfl rfl (by decide) (by decide)
    (by decide) (by decide)
  exact ⟨h.2.1.mpr (Or.inl ⟨by decide, by decide⟩), fun k' => h.2.2 k' openKernel_within⟩

/-- A size of `-1` at position 600 of a file of 1000 bytes asks for `2 ^ 32 - 1` bytes. -/
theorem not_clamps_small :
  600 ≤ 1000 ∧ -(2 ^ 31) ≤ (-1 : Int) ∧ ¬ Clamps 600 1000 (-1)
    ∧ readSize 600 1000 (-1) = 2 ^ 32 - 1
  := by
  refine ⟨by decide, by decide, fun h => ?_, rfl⟩
  have hsize := h.le_size
  exact absurd hsize (by decide)

/-! ### The temporary page -/

namespace FileSystem

/-- The sectors that `ReadRawData` reads and the bytes that it copies lie in the temporary
page, and the numbers of clusters and of sectors fit 16 bits. -/
structure StaysInPage (files : FileSystem) (pos size : ℕ) : Prop where
  clusters : (unsigned 16 (files.bpb.getNumberOfClustersStoringFileData (int32 size)) : Int)
    = files.bpb.getNumberOfClustersStoringFileData (int32 size)
  sectors : files.readSectors size % 2 ^ 16 = files.readSectors size
  transfer : files.readSectors size * sectorSize ≤ pageSize
  copy : files.readOffset pos + size ≤ pageSize

/-- The bytes of the file that a request can deliver fit the clusters that a page has room
for, and together with the offset of the position in its cluster they fit the page. -/
def FitsPage (files : FileSystem) (position fileSize size : ℕ) : Prop :=
  let rest := if position + size < 2 ^ 32 then min size (fileSize - position) else size
  rest ≤ pageSize / (files.bpb.sectorsPerCluster * sectorSize) * files.bpb.getBytesPerCluster
    ∧ files.readOffset position + rest ≤ pageSize

/-- The addresses at which `DiskReadSectors` stores the sectors of a request, when the temporary page
is `a`. -/
def transferStores (files : FileSystem) (size a : ℕ) : List ℕ :=
  List.range' a (files.readSectors size % 2 ^ 16 * sectorSize)

/-- The addresses from which `memcpy` copies the bytes of a request, when the temporary page is
`a`. -/
def copyLoads (files : FileSystem) (pos size a : ℕ) : List ℕ :=
  List.range' (a + files.readOffset pos) size

variable {files : FileSystem} {pos n : ℕ}

/-- `memcpy` loads the bytes from `src` on and stores them from `dest` on, one after the other. -/
theorem memcpyVirtual_eq (cr3 n dest src : ℕ) (m : Memory) :
  memcpyVirtual cr3 n dest src m = ((List.range' src n).zip (List.range' dest n)).foldlM
    (fun m x => m.store cr3 x.2 (m.bytes x.1)) m
  := by
  induction n generalizing dest src m with
  | zero => rfl
  | succ n ih =>
      rw [List.range'_succ, List.range'_succ, List.zip_cons_cons, List.foldlM_cons, memcpyVirtual]
      congr 1
      funext m'
      exact ih (dest + 1) (src + 1) m'

/-- The accesses of `ReadRawData` to its temporary page: it stores the sectors of the request, and
copies the requested bytes from there. -/
theorem readRawData_accesses {m m' : Memory} {cr3 clusterIndex buf : ℕ}
    (h : files.readRawData image cr3 clusterIndex buf pos n m = some m') :
  ∃ a m₁ m₂ m₃, kalloc image m = some (a, m₁)
    ∧ (∀ x, m₂.bytes x = if x ∈ files.transferStores n a then
        files.diskByte (files.clusterSector (files.readCluster clusterIndex pos)) (x - a)
      else m₁.bytes x)
    ∧ ((files.copyLoads pos n a).zip (List.range' buf n)).foldlM
        (fun m x => m.store cr3 x.2 (m.bytes x.1)) m₂ = some m₃
    ∧ kfree image a m₃ = some m'
  := by
  obtain ⟨_, _, h⟩ := Option.bind_eq_some_iff.mp h
  obtain ⟨⟨a, m₁⟩, hkalloc, h⟩ := Option.bind_eq_some_iff.mp h
  obtain ⟨_, _, h⟩ := Option.bind_eq_some_iff.mp h
  obtain ⟨m₂, hread, h⟩ := Option.bind_eq_some_iff.mp h
  obtain ⟨m₃, hcopy, hfree⟩ := Option.bind_eq_some_iff.mp h
  obtain ⟨_, _, hread⟩ := Option.bind_eq_some_iff.mp hread
  refine ⟨a, m₁, m₂, m₃, hkalloc, ?_, ?_, hfree⟩
  · intro x
    rw [← Option.some.inj hread]
    simp only [transferStores, List.mem_range'_1]
    rfl
  · rw [copyLoads, ← memcpyVirtual_eq]
    exact hcopy

/-- A request stays in the temporary page if and only if its numbers fit 16 bits and all its
accesses lie in the page. -/
theorem staysInPage_accesses (a : ℕ) :
  files.StaysInPage pos n
    ↔ ((unsigned 16 (files.bpb.getNumberOfClustersStoringFileData (int32 n)) : Int)
        = files.bpb.getNumberOfClustersStoringFileData (int32 n)
      ∧ files.readSectors n % 2 ^ 16 = files.readSectors n)
      ∧ (∀ x ∈ files.transferStores n a, InPage a x) ∧ ∀ x ∈ files.copyLoads pos n a, InPage a x
  := by
  have hpage := pageSize_eq
  have hoffset : files.readOffset pos < 2 ^ 16 := Nat.mod_lt _ (by decide)
  simp only [transferStores, copyLoads, List.mem_range'_1, InPage]
  constructor
  · intro h
    have htransfer := h.transfer
    have hcopy := h.copy
    refine ⟨⟨h.clusters, h.sectors⟩, fun x hx => ?_, fun x hx => ?_⟩
    · rw [h.sectors] at hx
      omega
    · omega
  · rintro ⟨⟨hclusters, hsectors⟩, htransfer, hcopy⟩
    rw [hsectors] at htransfer
    refine ⟨hclusters, hsectors, ?_, ?_⟩
    · by_contra hout
      have hlast := htransfer (a + pageSize) (by omega)
      omega
    · by_contra hout
      have hlast := hcopy (a + pageSize) (by omega)
      omega

/-- On a volume with sectors of 512 bytes, of which a cluster has a power of two, only the copy
decides whether a request fits. -/
theorem fitsPage_iff {position fileSize size j : ℕ} (hsector : files.bpb.bytesPerSector = sectorSize)
    (hcluster : files.bpb.sectorsPerCluster = 2 ^ j) (hj : j < 8) :
  files.FitsPage position fileSize size
    ↔ position % files.bpb.getBytesPerCluster
        + (if position + size < 2 ^ 32 then min size (fileSize - position) else size) ≤ pageSize
  := by
  have hbytes : files.bpb.getBytesPerCluster = 2 ^ j * sectorSize := by
    rw [BPB.getBytesPerCluster, hcluster, hsector]
  have hdvd : 2 ^ j * sectorSize ∣ pageSize := by
    rw [pageSize_eq, sectorSize_eq]
    exact Nat.mul_dvd_mul_right (pow_dvd_pow 2 (by omega : j ≤ 12)) 512
  have hlt : position % (2 ^ j * sectorSize) < 2 ^ 16 := by
    have hpos : 0 < 2 ^ j * sectorSize := by
      rw [sectorSize_eq]
      positivity
    have hle : 2 ^ j * sectorSize ≤ 2 ^ 16 := by
      rw [sectorSize_eq]
      exact Nat.mul_le_mul_right 512 (Nat.pow_le_pow_right (by decide) (by omega : j ≤ 7))
    exact (Nat.mod_lt _ hpos).trans_le hle
  have hoffset : files.readOffset position = position % files.bpb.getBytesPerCluster := by
    rw [readOffset, hbytes]
    exact Nat.mod_eq_of_lt hlt
  unfold FitsPage
  rw [hoffset, hcluster, hbytes, Nat.div_mul_cancel hdvd]
  constructor
  · exact fun h => h.2
  · exact fun h => ⟨(Nat.le_add_left _ _).trans h, h⟩

/-- A request stays in the temporary page if and only if the clusters that it needs, and
its bytes from the offset in the first cluster on, fit a page. -/
theorem staysInPage_iff (hcluster : files.bpb.getBytesPerCluster ≠ 0) (hn : n < 2 ^ 31) :
  files.StaysInPage pos n
    ↔ n ≤ pageSize / (files.bpb.sectorsPerCluster * sectorSize) * files.bpb.getBytesPerCluster
      ∧ files.readOffset pos + n ≤ pageSize
  := by
  have hspc : 0 < files.bpb.sectorsPerCluster := by
    apply Nat.pos_of_ne_zero
    intro hzero
    apply hcluster
    rw [BPB.getBytesPerCluster, hzero, Nat.zero_mul]
  have hsize := sectorSize_eq
  have hroom : n ⌈/⌉ files.bpb.getBytesPerCluster
        ≤ pageSize / (files.bpb.sectorsPerCluster * sectorSize)
      ↔ n ≤ pageSize / (files.bpb.sectorsPerCluster * sectorSize)
        * files.bpb.getBytesPerCluster := by
    rw [ceilDiv_le_iff_le_mul (Nat.pos_of_ne_zero hcluster), Nat.mul_comm]
  have htransfer : n ⌈/⌉ files.bpb.getBytesPerCluster
        ≤ pageSize / (files.bpb.sectorsPerCluster * sectorSize)
      ↔ n ⌈/⌉ files.bpb.getBytesPerCluster * files.bpb.sectorsPerCluster * sectorSize
        ≤ pageSize := by
    rw [Nat.le_div_iff_mul_le (by rw [hsize]; omega), Nat.mul_assoc]
  constructor
  · intro h
    have hclusters := h.clusters
    rw [numberOfClusters_eq hcluster hn, Nat.cast_inj] at hclusters
    have hlt : n ⌈/⌉ files.bpb.getBytesPerCluster < 2 ^ 16 := by
      rw [← hclusters]
      unfold unsigned
      omega
    refine ⟨hroom.mp (htransfer.mpr ?_), h.copy⟩
    rw [← readSectors_eq hcluster hn hlt]
    exact h.transfer
  · rintro ⟨hclusters, hcopy⟩
    have hpage := htransfer.mp (hroom.mpr hclusters)
    rw [pageSize_eq, hsize] at hpage
    have hle := Nat.le_mul_of_pos_right (n ⌈/⌉ files.bpb.getBytesPerCluster) hspc
    have hlt : n ⌈/⌉ files.bpb.getBytesPerCluster < 2 ^ 16 := by omega
    have hsectors := readSectors_eq hcluster hn hlt
    refine ⟨?_, ?_, ?_, hcopy⟩
    · rw [numberOfClusters_eq hcluster hn]
      unfold unsigned
      omega
    · rw [hsectors]
      omega
    · rw [hsectors, pageSize_eq, hsize]
      exact hpage

end FileSystem

/-- `ReadRawData` stays in the temporary page for a request of `Read` if and only if the
request fits a page. -/
theorem readRawData_staysInPage {files : FileSystem} {size : ℕ}
    (hcluster : files.bpb.getBytesPerCluster ≠ 0) (hfile : fileSize < 2 ^ 32)
    (hpos : position ≤ fileSize) (hsize : size < 2 ^ 31) :
  files.StaysInPage position (readSize position fileSize size)
    ↔ files.FitsPage position fileSize size
  := by
  have hrest : readSize position fileSize size
      = if position + size < 2 ^ 32 then min size (fileSize - position) else size := by
    split
    · have hclip : (readSize position fileSize size : Int)
          = min (size : Int) (fileSize - position) :=
        readSize_of_nonneg hfile hpos (by omega) (by omega) (by omega)
      omega
    · have hwrap : (readSize position fileSize size : Int) = size :=
        readSize_of_wrap hfile hpos (by omega) (by omega)
      omega
  unfold FileSystem.FitsPage
  rw [← hrest]
  apply FileSystem.staysInPage_iff hcluster
  rw [hrest]
  split <;> omega

/-- A read of a whole file of 2 MB stays in the page. -/
theorem readRawData_staysInPage_small :
  openKernel.files.StaysInPage 0 (readSize 0 0x200000 0x200000)
  := by
  apply (@readRawData_staysInPage 0 0x200000 openKernel.files 0x200000 (by decide) (by decide)
    (by decide) (by decide)).mpr
  have hrest : (if 0 + 0x200000 < 2 ^ 32 then min 0x200000 (0x200000 - 0) else 0x200000)
      = 0x200000 := by decide
  have hsectors : openKernel.files.bpb.sectorsPerCluster = 1 := rfl
  have hbytes : openKernel.files.bpb.getBytesPerCluster = 512 := rfl
  have hoffset : openKernel.files.readOffset 0 = 0 := rfl
  unfold FileSystem.FitsPage
  rw [hrest, hsectors, hbytes, hoffset, pageSize_eq, sectorSize_eq]
  exact ⟨by norm_num, by norm_num⟩

/-- A read of 2 MB from position 1 is copied from beyond the page. -/
theorem not_staysInPage_small :
  1 ≤ 0x200001 ∧ ¬ openKernel.files.StaysInPage 1 (readSize 1 0x200001 0x200000)
  := by
  refine ⟨by decide, fun h => ?_⟩
  have hcopy := h.copy
  rw [pageSize_eq] at hcopy
  exact absurd hcopy (by decide)

end LarvaOS
