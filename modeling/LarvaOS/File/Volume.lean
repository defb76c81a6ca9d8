import LarvaOS.File.Reading
import LarvaOS.File.References

/-!
# The bytes of a file

A file that is stored in consecutive clusters is a sequence of bytes: the byte `o` lies in
the cluster that is `o / GetBytesPerCluster` clusters after the first one.  On a volume with
sectors of 512 bytes these bytes are consecutive on the disk, and the sectors that
`ReadRawData` fetches start with the cluster that holds the position.
-/

namespace LarvaOS

namespace FileSystem

/-- The byte `o` of a file that is stored in consecutive clusters from `start` on. -/
def fileByte (files : FileSystem) (start o : ℕ) : UInt8 :=
  files.disk (files.clusterSector (start + o / files.bpb.getBytesPerCluster) * sectorSize
    + o % files.bpb.getBytesPerCluster)

theorem fileByte_congr {files files' : FileSystem} (h : SameDisk files files') (start o : ℕ) :
  files'.fileByte start o = files.fileByte start o
  := by
  unfold fileByte clusterSector
  rw [h.disk, h.bpb]

/-- A volume with sectors of 512 bytes and 1, 2, 4, ..., 128 sectors in a cluster, whose BIOS
parameter block is in the first sector of the disk. -/
structure Volume (files : FileSystem) : Prop where
  bpb : files.bpb = BPB.load files.disk 0
  bytesPerSector : files.bpb.bytesPerSector = sectorSize
  sectorsPerCluster : ∃ j ≤ 7, files.bpb.sectorsPerCluster = 2 ^ j

namespace Volume

variable {files files' : FileSystem} {start pos o : ℕ}

theorem congr (h : Volume files) (hv : SameDisk files files') :
  Volume files'
  where
  bpb := by rw [hv.bpb, hv.disk, h.bpb]
  bytesPerSector := by rw [hv.bpb, h.bytesPerSector]
  sectorsPerCluster := by
    rw [hv.bpb]
    exact h.sectorsPerCluster

theorem bytesPerCluster (h : Volume files) :
  files.bpb.getBytesPerCluster = files.bpb.sectorsPerCluster * sectorSize
  := by
  rw [BPB.getBytesPerCluster, h.bytesPerSector]

theorem sectorsPerCluster_pos (h : Volume files) :
  0 < files.bpb.sectorsPerCluster
  := by
  obtain ⟨j, _, hj⟩ := h.sectorsPerCluster
  rw [hj]
  exact Nat.two_pow_pos j

theorem sectorsPerCluster_le (h : Volume files) :
  files.bpb.sectorsPerCluster ≤ 128
  := by
  obtain ⟨j, hle, hj⟩ := h.sectorsPerCluster
  rw [hj]
  exact Nat.pow_le_pow_right (by decide) hle

theorem bytesPerCluster_pos (h : Volume files) :
  0 < files.bpb.getBytesPerCluster
  := by
  have hpos := h.sectorsPerCluster_pos
  rw [h.bytesPerCluster, sectorSize_eq]
  omega

theorem bytesPerCluster_le (h : Volume files) :
  files.bpb.getBytesPerCluster ≤ 65536
  := by
  have hle := h.sectorsPerCluster_le
  rw [h.bytesPerCluster, sectorSize_eq]
  omega

/-- The clusters fill the page. -/
theorem bytesPerCluster_dvd (h : Volume files) :
  files.bpb.getBytesPerCluster ∣ pageSize
  := by
  obtain ⟨j, hle, hj⟩ := h.sectorsPerCluster
  have hpage : pageSize = 2 ^ 12 * sectorSize := by
    rw [pageSize_eq, sectorSize_eq]
    decide
  rw [h.bytesPerCluster, hj, hpage]
  exact Nat.mul_dvd_mul (Nat.pow_dvd_pow 2 (by omega)) dvd_rfl

/-- The offset in the first cluster that is read. -/
theorem readOffset_eq (h : Volume files) (pos : ℕ) :
  files.readOffset pos = pos % files.bpb.getBytesPerCluster
  := by
  have hlt := Nat.mod_lt pos h.bytesPerCluster_pos
  have hle := h.bytesPerCluster_le
  apply Nat.mod_eq_of_lt
  omega

/-- The sectors of clusters with 16 bits have 28 bits. -/
theorem clusterSector_lt (h : Volume files) {cluster : ℕ} (hcluster : cluster < 2 ^ 16) :
  files.clusterSector cluster < 2 ^ 28
  := by
  have hsectors := h.sectorsPerCluster_le
  have hreserved : files.bpb.reservedSectors < 256 ^ 2 := by
    rw [h.bpb]
    exact Bytes.read_lt 2 _ _
  have hfat : files.bpb.sectorsPerFat < 256 ^ 2 := by
    rw [h.bpb]
    exact Bytes.read_lt 2 _ _
  have hcopies : files.bpb.fatCopies < 256 := by
    rw [h.bpb]
    exact Bytes.read_lt 1 _ _
  have hroot : files.bpb.rootDirEntries < 256 ^ 2 := by
    rw [h.bpb]
    exact Bytes.read_lt 2 _ _
  have hdata : (cluster - startClusterIndex) * files.bpb.sectorsPerCluster ≤ 2 ^ 16 * 128 :=
    Nat.mul_le_mul (by omega) hsectors
  have htables : files.bpb.fatCopies * files.bpb.sectorsPerFat ≤ 256 * 256 ^ 2 :=
    Nat.mul_le_mul hcopies.le hfat.le
  have hdirectory : files.bpb.getRootDirectorySectorSize ≤ 256 ^ 2 * 32 :=
    (Nat.div_le_self _ _).trans (Nat.mul_le_mul_right 32 hroot.le)
  unfold clusterSector BPB.getDataRegionStartSector BPB.getRootDirectoryStartSector
  omega

/-- The clusters follow each other on the disk. -/
theorem clusterSector_add (h : Volume files) (hstart : startClusterIndex ≤ start) (n : ℕ) :
  files.clusterSector (start + n) * sectorSize
    = files.clusterSector start * sectorSize + files.bpb.getBytesPerCluster * n
  := by
  have hsub : start + n - startClusterIndex = start - startClusterIndex + n := by omega
  unfold clusterSector
  rw [hsub, h.bytesPerCluster]
  ring

/-- The bytes of a file are consecutive on the disk. -/
theorem fileByte_eq (h : Volume files) (hstart : startClusterIndex ≤ start) (o : ℕ) :
  files.fileByte start o = files.disk (files.clusterSector start * sectorSize + o)
  := by
  rw [fileByte, h.clusterSector_add hstart, Nat.add_assoc, Nat.div_add_mod]

/-- The bytes that `ReadRawData` fetches from the position on. -/
theorem diskByte_eq (h : Volume files) (hstart : startClusterIndex ≤ start)
    (hlast : start + pos / files.bpb.getBytesPerCluster < 2 ^ 16) (i : ℕ) :
  files.diskByte (files.clusterSector (files.readCluster start pos)) (files.readOffset pos + i)
    = files.fileByte start (pos + i)
  := by
  have hcluster : files.readCluster start pos = start + pos / files.bpb.getBytesPerCluster :=
    Nat.mod_eq_of_lt hlast
  have hoffset := Nat.div_add_mod pos files.bpb.getBytesPerCluster
  rw [hcluster, h.readOffset_eq, diskByte, Nat.mod_eq_of_lt (h.clusterSector_lt hlast),
    h.clusterSector_add hstart, h.fileByte_eq hstart, ← Nat.add_assoc, Nat.add_assoc _ _ (pos % _),
    hoffset, Nat.add_assoc]

/-- The clusters of `n` bytes hold them. -/
theorem le_clusters (h : Volume files) (n : ℕ) :
  n ≤ n ⌈/⌉ files.bpb.getBytesPerCluster * files.bpb.getBytesPerCluster
  := by
  rw [Nat.mul_comm]
  exact (ceilDiv_le_iff_le_mul h.bytesPerCluster_pos).mp le_rfl

/-- The clusters of at most 2 MB fit a page. -/
theorem clusters_le (h : Volume files) {n : ℕ} (hn : n ≤ pageSize) :
  n ⌈/⌉ files.bpb.getBytesPerCluster * files.bpb.getBytesPerCluster ≤ pageSize
  := by
  rw [← Nat.le_div_iff_mul_le h.bytesPerCluster_pos, ceilDiv_le_iff_le_mul h.bytesPerCluster_pos,
    Nat.mul_div_cancel' h.bytesPerCluster_dvd]
  exact hn

/-- The sectors that are read for at most 2 MB are those of the clusters. -/
theorem readSectors_eq (h : Volume files) {n : ℕ} (hn : n ≤ pageSize) :
  files.readSectors n * sectorSize
    = n ⌈/⌉ files.bpb.getBytesPerCluster * files.bpb.getBytesPerCluster
  := by
  have hclusters := h.clusters_le hn
  have hlower : 512 ≤ files.bpb.getBytesPerCluster := by
    have hpos := h.sectorsPerCluster_pos
    rw [h.bytesPerCluster, sectorSize_eq]
    omega
  have hcount := Nat.mul_le_mul_left (n ⌈/⌉ files.bpb.getBytesPerCluster) hlower
  rw [pageSize_eq] at hn hclusters
  rw [FileSystem.readSectors_eq h.bytesPerCluster_pos.ne' (by omega) (by omega), Nat.mul_assoc,
    h.bytesPerCluster]

end Volume

end FileSystem

end LarvaOS
