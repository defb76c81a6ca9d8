import LarvaOS.Libc.Errno
import LarvaOS.Libc.String
import LarvaOS.Memory.Translation

/-!
# The file system

The part of `kernel/file.c` below the file descriptors: the geometry of a FAT16 volume,
the search of its root directory, and the reading of file data, together with
`DiskReadSectors`, which fills a buffer with sectors of 512 bytes.

The functions that need a page for the sectors they read take it from `kalloc`.  Where
they do not check that they got one, they write to it all the same, or give it to
`kfree`; without a page the kernel stops there, and the outcome is `none`.
-/

namespace LarvaOS

/-- `SECTOR_SIZE`. -/
def sectorSize : ℕ := 512

/-- `ENTRY_EMPTY`. -/
def entryEmpty : UInt8 := 0

/-- `ENTRY_DELETED`. -/
def entryDeleted : UInt8 := 0xE5

/-- `START_CLUSTER_INDEX`. -/
def startClusterIndex : ℕ := 2

/-- `sizeof(DirEntry)`. -/
def sizeofDirEntry : ℕ := 32

/-- The value of `n` as an unsigned integer of `bits` bits. -/
def unsigned (bits : ℕ) (n : Int) : ℕ := (n % 2 ^ bits).toNat

/-- `BPB`, the BIOS parameter block. -/
structure BPB where
  bytesPerSector : ℕ
  sectorsPerCluster : ℕ
  reservedSectors : ℕ
  fatCopies : ℕ
  rootDirEntries : ℕ
  sectorsPerFat : ℕ
  signature : ℕ

/-- The BIOS parameter block at the address `a`. -/
def BPB.load (b : Bytes) (a : ℕ) : BPB where
  bytesPerSector := Bytes.read 2 b (a + 11)
  sectorsPerCluster := Bytes.read 1 b (a + 13)
  reservedSectors := Bytes.read 2 b (a + 14)
  fatCopies := Bytes.read 1 b (a + 16)
  rootDirEntries := Bytes.read 2 b (a + 17)
  sectorsPerFat := Bytes.read 2 b (a + 22)
  signature := Bytes.read 1 b (a + 38)

/-- `DirEntry`, a directory entry. -/
structure DirEntry where
  name : List UInt8
  ext : List UInt8
  attributes : UInt8
  clusterIndex : ℕ
  fileSize : ℕ

/-- The directory entry at the address `a`. -/
def DirEntry.load (b : Bytes) (a : ℕ) : DirEntry where
  name := (List.range 8).map (fun i => b (a + i))
  ext := (List.range 3).map (fun i => b (a + 8 + i))
  attributes := b (a + 11)
  clusterIndex := Bytes.read 2 b (a + 26)
  fileSize := Bytes.read 4 b (a + 28)

/-- `FCB`, a file control block. -/
structure FCB where
  name : List UInt8
  ext : List UInt8
  startCluster : ℕ
  dirEntry : ℕ
  fileSize : ℕ
  openCount : Int

/-- A file control block whose bytes are all zero. -/
def FCB.zero : FCB where
  name := List.replicate 8 0
  ext := List.replicate 3 0
  startCluster := 0
  dirEntry := 0
  fileSize := 0
  openCount := 0

/-- `FD`, a file descriptor. Its file control block is null or an index of the FCB table. -/
structure FD where
  fcb : Option ℕ
  position : ℕ
  openCount : Int

/-- A file descriptor whose bytes are all zero. -/
def FD.zero : FD where
  fcb := none
  position := 0
  openCount := 0

/-- The disk and the static data of `file.c`. The tables occupy the pages at the
addresses `fcbTableAddress` and `fdTableAddress`. -/
structure FileSystem where
  disk : ℕ → UInt8
  bpb : BPB
  fcbTable : ℕ → FCB
  fdTable : ℕ → FD
  fcbTableAddress : ℕ
  fdTableAddress : ℕ

/-- `GetMaxEntriesOfFCBTable`: the size of an `FCB` is 28. -/
def getMaxEntriesOfFCBTable : ℕ := pageSize / 28

/-- `GetMaxEntriesOfFDTable`: the size of an `FD` is 16. -/
def getMaxEntriesOfFDTable : ℕ := pageSize / 16

/-! ### The geometry of the volume -/

namespace BPB

variable (bpb : BPB)

/-- `GetRootDirectoryStartSector`. -/
def getRootDirectoryStartSector : ℕ := bpb.fatCopies * bpb.sectorsPerFat + bpb.reservedSectors

/-- `GetRootDirectorySectorSize`. -/
def getRootDirectorySectorSize : ℕ := bpb.rootDirEntries * sizeofDirEntry / bpb.bytesPerSector

/-- `GetDataRegionStartSector`. -/
def getDataRegionStartSector : ℕ :=
  bpb.getRootDirectoryStartSector + bpb.getRootDirectorySectorSize

/-- `GetBytesPerCluster`. -/
def getBytesPerCluster : ℕ := bpb.sectorsPerCluster * bpb.bytesPerSector

/-- `GetNumberOfClustersStoringFileData`. -/
def getNumberOfClustersStoringFileData (fileSize : Int) : Int :=
  let length := fileSize.tdiv bpb.getBytesPerCluster
  if fileSize.tmod bpb.getBytesPerCluster ≠ 0 then length + 1 else length

end BPB

/-- `DiskReadSectors`: fill the buffer with the sectors from `lba` on. The disk gets 28
bits of the sector's number. -/
def diskReadSectors (disk : ℕ → UInt8) (lba sectors buf : ℕ) (m : Memory) : Memory :=
  { m with bytes := fun x =>
      if buf ≤ x ∧ x < buf + sectors * sectorSize then
        disk (lba % 2 ^ 28 * sectorSize + (x - buf))
      else m.bytes x }

/-! ### The root directory -/

/-- `GetRelativeFileName`: the name and the extension up to their first zero or blank,
with a dot between them. -/
def getRelativeFileName (entry : DirEntry) : List UInt8 :=
  let text := fun s : List UInt8 => s.takeWhile (fun c => c ≠ 0 && c ≠ 0x20)
  text entry.name ++ [0x2E] ++ text entry.ext

/-- A directory entry in use, other than a part of a long file name. -/
def DirEntry.inUse (entry : DirEntry) : Bool :=
  entry.name.headD 0 ≠ entryEmpty && entry.name.headD 0 ≠ entryDeleted && entry.attributes ≠ 0xF

namespace FileSystem

variable (files : FileSystem)

/-- The number of directory entries in a sector. -/
def entriesPerSector : ℕ := files.bpb.bytesPerSector / sizeofDirEntry

/-- Read a sector of the root directory. -/
def readRootSector (sectorData i : ℕ) (m : Memory) : Memory :=
  diskReadSectors files.disk (files.bpb.getRootDirectoryStartSector + i) 1 sectorData
    { m with bytes := memset m.bytes sectorData 0 files.bpb.bytesPerSector }

/-- The loop of `FindFileInRootDir` over the sectors: the index of the entry, and the
entry. -/
def findInSectors (filename : List UInt8) (sectorData : ℕ) :
    List ℕ → Memory → Option (ℕ × DirEntry) × Memory
  | [], m => (none, m)
  | i :: sectors, m =>
      let m := files.readRootSector sectorData i m
      let entry := fun j => DirEntry.load m.bytes (sectorData + sizeofDirEntry * j)
      match (List.range files.entriesPerSector).find? (fun j =>
          (entry j).inUse && strcasecmp filename (getRelativeFileName (entry j)) = 0) with
      | some j => (some (i * files.entriesPerSector + j, entry j), m)
      | none => findInSectors filename sectorData sectors m

/-- The sectors of the root directory. -/
def rootSectors : List ℕ := List.range (files.bpb.getRootDirectorySectorSize % 2 ^ 16)

/-- `FindFileInRootDir`; the outcome `none` in the first component is `-ENOENT`. -/
def findFileInRootDir (image : Image) (filename : List UInt8) (m : Memory) :
    Option (Option (ℕ × DirEntry) × Memory) := do
  let (sectorData, m) ← kalloc image m
  assert (sectorData ≠ 0)
  let found := files.findInSectors filename sectorData files.rootSectors m
  let m ← kfree image sectorData found.2
  some (found.1, m)

/-- The loop of `Lstat` over the entries of a sector. -/
def copyEntries (cr3 statbuf sectorData : ℕ) : List ℕ → ℕ → Memory → Option (ℕ × Memory)
  | [], total, m => some (total, m)
  | j :: entries, total, m =>
      if (DirEntry.load m.bytes (sectorData + sizeofDirEntry * j)).inUse then do
        let m ← memcpyVirtual cr3 sizeofDirEntry (statbuf + sizeofDirEntry * total)
          (sectorData + sizeofDirEntry * j) m
        copyEntries cr3 statbuf sectorData entries (total + 1) m
      else
        copyEntries cr3 statbuf sectorData entries total m

/-- The loop of `Lstat` over the sectors. -/
def copySectors (cr3 statbuf sectorData : ℕ) : List ℕ → ℕ → Memory → Option (ℕ × Memory)
  | [], total, m => some (total, m)
  | i :: sectors, total, m => do
      let (total, m) ← copyEntries cr3 statbuf sectorData (List.range files.entriesPerSector) total
        (files.readRootSector sectorData i m)
      copySectors cr3 statbuf sectorData sectors total m

/-- `Lstat`. -/
def lstat (image : Image) (cr3 statbuf : ℕ) (m : Memory) : Option (Int × Memory) := do
  let (sectorData, m) ← kalloc image m
  if sectorData = 0 then
    some (-enomem, m)
  else do
    let (total, m) ← files.copySectors cr3 statbuf sectorData files.rootSectors 0 m
    let m ← kfree image sectorData m
    some (total, m)

/-! ### File data -/

/-- `ReadFileData`. -/
def readFileData (startCluster length buf : ℕ) (m : Memory) : Option Memory := do
  assert (startClusterIndex ≤ startCluster)
  let fileDataStartSector := (startCluster - startClusterIndex) * files.bpb.sectorsPerCluster
    + files.bpb.getDataRegionStartSector
  let numberOfSectorNeedToRead := length * files.bpb.sectorsPerCluster % 2 ^ 16
  some (diskReadSectors files.disk fileDataStartSector numberOfSectorNeedToRead buf m)

/-- `ReadRawData`, which returns `size`. -/
def readRawData (image : Image) (cr3 clusterIndex buf pos size : ℕ) (m : Memory) :
    Option Memory := do
  assert (files.bpb.getBytesPerCluster ≠ 0)
  let numberOfClustersNeedToRead :=
    unsigned 16 (files.bpb.getNumberOfClustersStoringFileData (int32 size))
  let startClusterNeedToRead := (clusterIndex + pos / files.bpb.getBytesPerCluster) % 2 ^ 16
  let startPosInCluster := pos % files.bpb.getBytesPerCluster % 2 ^ 16
  let (buffer, m) ← kalloc image m
  assert (buffer ≠ 0)
  let m ← files.readFileData startClusterNeedToRead numberOfClustersNeedToRead buffer m
  let m ← memcpyVirtual cr3 size buf (buffer + startPosInCluster) m
  kfree image buffer m

end FileSystem

/-- `InitFileSystem`, without the messages it prints. The messages contain the start of
the data region, so the kernel stops when a sector has no bytes. -/
def initFileSystem (image : Image) (files : FileSystem) (m : Memory) :
    Option (FileSystem × Memory) := do
  let (bpb, m) ← kalloc image m
  assert (bpb ≠ 0)
  let m := diskReadSectors files.disk 0 1 bpb m
  let files := { files with bpb := BPB.load m.bytes bpb }
  assert (m.bytes (bpb + 510) = 0x55 ∧ m.bytes (bpb + 511) = 0xAA)
  assert (files.bpb.signature = 0x29)
  let m ← kfree image bpb m
  assert (files.bpb.bytesPerSector ≠ 0)
  let (fcbTable, m) ← kalloc image m
  assert (fcbTable ≠ 0)
  let m := m.clear fcbTable
  let (fdTable, m) ← kalloc image m
  assert (fdTable ≠ 0)
  let m := m.clear fdTable
  some ({ files with
    fcbTable := fun _ => FCB.zero
    fdTable := fun _ => FD.zero
    fcbTableAddress := fcbTable
    fdTableAddress := fdTable }, m)

end LarvaOS
