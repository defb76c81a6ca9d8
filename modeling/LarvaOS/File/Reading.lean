import LarvaOS.File.Directory
import Mathlib.Algebra.Order.Floor.Div

/-!
# Reading file data

`ReadRawData` reads the clusters that a request needs to a temporary page, copies the
requested bytes from there to the user page, and gives the temporary page back.  Where
the sectors that were read end, the bytes are those that the temporary page held before.
-/

namespace LarvaOS

variable {image : Image}

namespace FileSystem

variable (files : FileSystem)

/-- The number of sectors that `ReadRawData` reads for a request of `size` bytes. -/
def readSectors (size : ℕ) : ℕ :=
  unsigned 16 (files.bpb.getNumberOfClustersStoringFileData (int32 size))
    * files.bpb.sectorsPerCluster

/-- The first cluster that `ReadRawData` reads. -/
def readCluster (clusterIndex pos : ℕ) : ℕ :=
  (clusterIndex + pos / files.bpb.getBytesPerCluster) % 2 ^ 16

/-- The first sector of a cluster. -/
def clusterSector (cluster : ℕ) : ℕ :=
  (cluster - startClusterIndex) * files.bpb.sectorsPerCluster
    + files.bpb.getDataRegionStartSector

/-- The offset in the temporary page from which `ReadRawData` copies. -/
def readOffset (pos : ℕ) : ℕ := pos % files.bpb.getBytesPerCluster % 2 ^ 16

/-- The byte at the offset `o` of the sectors from `lba` on. -/
def diskByte (lba o : ℕ) : UInt8 := files.disk (lba % 2 ^ 28 * sectorSize + o)

/-- What a successful request needs: clusters of at least one byte, and a first cluster
that is not reserved. -/
structure Readable (clusterIndex pos : ℕ) : Prop where
  cluster : files.bpb.getBytesPerCluster ≠ 0
  start : startClusterIndex ≤ files.readCluster clusterIndex pos

variable {files} {m m' : Memory} {n : ℕ} {S : Space}

/-- The number of clusters that hold `n` bytes is `n` divided by the size of a cluster,
rounded up. -/
theorem numberOfClusters_eq (hcluster : files.bpb.getBytesPerCluster ≠ 0) (hn : n < 2 ^ 31) :
  files.bpb.getNumberOfClustersStoringFileData (int32 n)
    = ((n ⌈/⌉ files.bpb.getBytesPerCluster : ℕ) : Int)
  := by
  unfold BPB.getNumberOfClustersStoringFileData
  rw [int32_of_range (by omega) (by omega), Nat.ceilDiv_eq_add_pred_div]
  generalize files.bpb.getBytesPerCluster = b at hcluster
  dsimp only
  rw [← Int.ofNat_tdiv, ← Int.ofNat_tmod]
  have hdiv := Nat.div_add_mod n b
  have hlt := Nat.mod_lt n (Nat.pos_of_ne_zero hcluster)
  have hmul : (n / b + 1) * b = b * (n / b) + b := by ring
  split
  · have hsucc : (n + b - 1) / b = n / b + 1 := by
      rw [Nat.div_eq_iff (Nat.pos_of_ne_zero hcluster)]
      rw [hmul]
      constructor <;> omega
    rw [hsucc]
    rfl
  · have hmul' : n / b * b = b * (n / b) := mul_comm _ _
    have hsame : (n + b - 1) / b = n / b := by
      rw [Nat.div_eq_iff (Nat.pos_of_ne_zero hcluster)]
      constructor <;> omega
    rw [hsame]

/-- The number of sectors when the number of clusters fits 16 bits. -/
theorem readSectors_eq (hcluster : files.bpb.getBytesPerCluster ≠ 0) (hn : n < 2 ^ 31)
    (hclusters : n ⌈/⌉ files.bpb.getBytesPerCluster < 2 ^ 16) :
  files.readSectors n = n ⌈/⌉ files.bpb.getBytesPerCluster * files.bpb.sectorsPerCluster
  := by
  unfold readSectors unsigned
  rw [numberOfClusters_eq hcluster hn]
  congr 1
  omega

/-- `ReadRawData` stops in an assertion unless the request is readable. -/
theorem readRawData_readable {cr3 clusterIndex buf pos size : ℕ}
    (h : files.readRawData image cr3 clusterIndex buf pos size m = some m') :
  files.Readable clusterIndex pos
  := by
  obtain ⟨_, hcluster, h⟩ := Option.bind_eq_some_iff.mp h
  obtain ⟨⟨buffer, m₁⟩, _, h⟩ := Option.bind_eq_some_iff.mp h
  obtain ⟨_, _, h⟩ := Option.bind_eq_some_iff.mp h
  obtain ⟨m₂, hread, h⟩ := Option.bind_eq_some_iff.mp h
  obtain ⟨_, hstart, _⟩ := Option.bind_eq_some_iff.mp hread
  exact ⟨assert_eq_some.mp hcluster, assert_eq_some.mp hstart⟩

/-- `ReadRawData` up to the copy: the temporary page, and the memory. -/
def readRawDataStart (files : FileSystem) (image : Image) (clusterIndex pos size : ℕ)
    (m : Memory) : Option (ℕ × Memory) := do
  assert (files.bpb.getBytesPerCluster ≠ 0)
  let numberOfClustersNeedToRead :=
    unsigned 16 (files.bpb.getNumberOfClustersStoringFileData (int32 size))
  let startClusterNeedToRead := (clusterIndex + pos / files.bpb.getBytesPerCluster) % 2 ^ 16
  let (buffer, m) ← kalloc image m
  assert (buffer ≠ 0)
  let m ← files.readFileData startClusterNeedToRead numberOfClustersNeedToRead buffer m
  some (buffer, m)

/-- `ReadRawData` fills the temporary page, copies from there, and gives the page back. -/
theorem readRawData_eq (files : FileSystem) (cr3 clusterIndex buf pos size : ℕ) :
  files.readRawData image cr3 clusterIndex buf pos size m
    = (files.readRawDataStart image clusterIndex pos size m).bind (fun r =>
      (memcpyVirtual cr3 size buf (r.1 + files.readOffset pos) r.2).bind (kfree image r.1))
  := by
  unfold readRawData readRawDataStart
  simp only [Option.bind_eq_bind, Option.bind_assoc, Option.bind_some]
  rfl

/-- `ReadRawData` with a free page fills it with the sectors of the request. -/
theorem readRawDataStart_spec {a clusterIndex pos size : ℕ} {xs : List ℕ} (h : UserSpace m n S)
    (hpages : ∀ p ∈ S.pages, IsPage image p) (haS : a ∉ S.pages) (hfree : Free image m (a :: xs))
    (hreadable : files.Readable clusterIndex pos)
    (hfit : files.readSectors size * sectorSize ≤ pageSize) :
  ∃ m', files.readRawDataStart image clusterIndex pos size m = some (a, m')
    ∧ Free image m' xs ∧ UserSpace m' n S ∧ Changes [a] m m'
    ∧ ∀ o, o < pageSize → m'.bytes (a + o)
      = if o < files.readSectors size * sectorSize then
          files.diskByte (files.clusterSector (files.readCluster clusterIndex pos)) o
        else m.bytes (a + o)
  := by
  have ha := hfree.isPage a List.mem_cons_self
  obtain ⟨hmem, _⟩ := List.nodup_cons.mp hfree.nodup
  have haligned : ∀ q ∈ [a], addrIsAligned q := by
    intro q hq
    rw [List.mem_singleton.mp hq]
    exact ha.aligned
  obtain ⟨m₁, hrun₁, hfree₁, hbytes₁, hchange₁⟩ := hfree.kalloc_cons
  have hcount : unsigned 16 (files.bpb.getNumberOfClustersStoringFileData (int32 size))
      * files.bpb.sectorsPerCluster % 2 ^ 16 = files.readSectors size := by
    have hlt : files.readSectors size < 2 ^ 16 := by
      rw [pageSize_eq, sectorSize_eq] at hfit
      omega
    exact Nat.mod_eq_of_lt hlt
  have hread : files.readFileData (files.readCluster clusterIndex pos)
      (unsigned 16 (files.bpb.getNumberOfClustersStoringFileData (int32 size))) a m₁
      = some (diskReadSectors files.disk
        (files.clusterSector (files.readCluster clusterIndex pos)) (files.readSectors size) a m₁) := by
    unfold readFileData
    simp only [Option.bind_eq_bind]
    rw [assert_of hreadable.start, Option.bind_some, hcount]
    rfl
  have hchange₂ : Changes [a] m₁ (diskReadSectors files.disk
      (files.clusterSector (files.readCluster clusterIndex pos)) (files.readSectors size) a m₁) := by
    apply Changes.of_page
    intro x hx
    unfold InPage at hx
    rw [if_neg (by omega)]
  have hchange := (hchange₁.mono (List.nil_subset [a])).trans hchange₂
  refine ⟨_, ?_, ?_, ?_, hchange, ?_⟩
  · unfold readRawDataStart
    simp only [Option.bind_eq_bind]
    rw [assert_of hreadable.cluster, Option.bind_some, hrun₁, Option.bind_some]
    dsimp only
    rw [assert_of ha.ne_zero, Option.bind_some]
    rw [readCluster] at hread
    rw [hread, Option.bind_some, readCluster]
  · apply hfree₁.changes hchange₂ rfl haligned
    intro q hq
    rwa [List.mem_singleton.mp hq]
  · apply h.changes hchange haligned
    · exact fun q hq => (hpages q (List.mem_cons_of_mem _ hq)).aligned
    · intro q hq hx
      rw [List.mem_singleton.mp hx] at hq
      exact haS (List.mem_cons_of_mem _ hq)
  · intro o _
    unfold diskReadSectors diskByte
    dsimp only
    by_cases hin : o < files.readSectors size * sectorSize
    · rw [if_pos hin, if_pos ⟨by omega, by omega⟩]
      congr 2
      omega
    · rw [if_neg hin, if_neg (by omega), hbytes₁]

/-- `ReadRawData` with a free page delivers the bytes of the temporary page and restores
the free list. -/
theorem readRawData_spec {a clusterIndex buf pos size : ℕ} {xs : List ℕ} (h : UserSpace m n S)
    (hn : n ≤ totalTableEntries) (hpages : ∀ p ∈ S.pages, IsPage image p)
    (hnodup : (S.pages ++ a :: xs).Nodup) (hfree : Free image m (a :: xs))
    (hreadable : files.Readable clusterIndex pos)
    (hfit : files.readSectors size * sectorSize ≤ pageSize)
    (hlo : userVirtualAddressBase ≤ buf)
    (hhi : buf + size ≤ userVirtualAddressBase + pageSize) :
  ∃ m', files.readRawData image (virToPhy S.map) clusterIndex buf pos size m = some m'
    ∧ Free image m' (a :: xs) ∧ Changes [a, S.page] m m'
    ∧ (files.readOffset pos + size ≤ pageSize → ∀ i, i < size →
      m'.bytes (userAddress S buf + i)
        = if files.readOffset pos + i < files.readSectors size * sectorSize then
            files.diskByte (files.clusterSector (files.readCluster clusterIndex pos))
              (files.readOffset pos + i)
          else m.bytes (a + files.readOffset pos + i))
    ∧ (∀ x, InPage S.page x → x < userAddress S buf ∨ userAddress S buf + size ≤ x →
      m'.bytes x = m.bytes x)
    ∧ ∀ o, 8 ≤ o → files.readSectors size * sectorSize ≤ o → o < pageSize →
      m'.bytes (a + o) = m.bytes (a + o)
  := by
  have ha := hfree.isPage a List.mem_cons_self
  have hpage := hpages S.page List.mem_cons_self
  obtain ⟨hmem, _⟩ := List.nodup_cons.mp hfree.nodup
  obtain ⟨hnodup', _, hdisj⟩ := List.nodup_append.mp hnodup
  have haS : a ∉ S.pages := fun hx => hdisj a hx a List.mem_cons_self rfl
  have hne : a ≠ S.page := fun e => haS (e ▸ List.mem_cons_self)
  have hsplit := disjoint_of_aligned ha.aligned hpage.aligned hne
  obtain ⟨m₂, hstart, hfree₂, hspace₂, hchange₂, hbytes₂⟩ :=
    readRawDataStart_spec h hpages haS hfree hreadable hfit
  have hcopy : memcpyVirtual (virToPhy S.map) size buf (a + files.readOffset pos) m₂
      = some (m₂.copy (userAddress S buf) (a + files.readOffset pos) size) :=
    hspace₂.memcpyVirtual hn hpages hnodup' hlo hhi
  have hdest : S.page ≤ userAddress S buf
      ∧ userAddress S buf + size ≤ S.page + pageSize := by
    unfold userAddress
    omega
  have hchange₃ : Changes [S.page] m₂ (m₂.copy (userAddress S buf) (a + files.readOffset pos) size)
      := by
    apply Changes.of_page
    intro x hx
    apply memcpy_of_outside
    unfold InPage at hx
    omega
  have hfree₃ : Free image (m₂.copy (userAddress S buf) (a + files.readOffset pos) size) xs := by
    apply hfree₂.changes hchange₃ rfl
    · intro q hq
      rw [List.mem_singleton.mp hq]
      exact hpage.aligned
    · intro q hq hx
      rw [List.mem_singleton.mp hq] at hx
      exact hdisj S.page List.mem_cons_self S.page (List.mem_cons_of_mem a hx) rfl
  obtain ⟨m₄, hrun₄, hfree₄, hchange₄⟩ := hfree₃.kfree ha hmem
  have haligned : ∀ q ∈ [a], addrIsAligned q := by
    intro q hq
    rw [List.mem_singleton.mp hq]
    exact ha.aligned
  have hfreed : ∀ x, InPage S.page x → m₄.bytes x
      = (m₂.copy (userAddress S buf) (a + files.readOffset pos) size).bytes x := by
    intro x hx
    apply hchange₄.byte haligned hpage.aligned _ hx
    simpa using hne.symm
  refine ⟨m₄, ?_, hfree₄, ?_, ?_, ?_, ?_⟩
  · rw [readRawData_eq, hstart, Option.bind_some]
    dsimp only
    rw [hcopy, Option.bind_some, hrun₄]
  · apply Changes.trans _ (hchange₄.mono (by simp))
    exact (hchange₂.mono (by simp)).trans (hchange₃.mono (by simp))
  · intro hoffset i hi
    have hcopied : (m₂.copy (userAddress S buf) (a + files.readOffset pos) size).bytes
        (userAddress S buf + i) = m₂.bytes (a + files.readOffset pos + i) :=
      memcpy_of_inside (by omega) hi
    rw [hfreed _ ⟨by omega, by omega⟩, hcopied, Nat.add_assoc, hbytes₂ _ (by omega)]
  · intro x hx houtside
    have hsame : m₂.bytes x = m.bytes x := by
      apply hchange₂.byte haligned hpage.aligned _ hx
      simpa using hne.symm
    have hcopied : (m₂.copy (userAddress S buf) (a + files.readOffset pos) size).bytes x
        = m₂.bytes x := memcpy_of_outside houtside
    rw [hfreed x hx, hcopied, hsame]
  · intro o ho hsectors hlt
    have hlinked : m₄.bytes (a + o)
        = (m₂.copy (userAddress S buf) (a + files.readOffset pos) size).bytes (a + o) := by
      rw [kfree_bytes hrun₄, Bytes.writeWord_of_outside (by omega)]
    have hcopied : (m₂.copy (userAddress S buf) (a + files.readOffset pos) size).bytes (a + o)
        = m₂.bytes (a + o) := memcpy_of_outside (by omega)
    rw [hlinked, hcopied, hbytes₂ o hlt, if_neg (by omega)]

end FileSystem

end LarvaOS
