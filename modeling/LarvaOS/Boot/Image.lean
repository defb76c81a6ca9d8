import LarvaOS.Boot.Loader
import LarvaOS.Kernel.Boot

/-!
# The disk image

The Makefile stores the boot sector, the loader, the kernel and the shell in the first 126 sectors
of the image, which are the sectors that the boot code reads.  The boot sector carries the
parameters of the volume.
-/

namespace LarvaOS

/-- `dd` with blocks of 512 bytes and `conv=notrunc`: at most `count` blocks of the file replace
the bytes from the block `seek` on. -/
def dd (file : List UInt8) (count seek : ℕ) (image : Bytes) : Bytes :=
  image.put (seek * sectorSize) (min file.length (count * sectorSize)) (fun i => file.getD i 0)

/-- The files that go to the image. -/
structure Binaries where
  boot : List UInt8
  loader : List UInt8
  kernel : List UInt8
  shell : List UInt8

/-- The target `all`, where `/dev/zero` has no end. -/
def makeAll (files : Binaries) (image : Bytes) : Bytes :=
  let image := dd files.boot 1 0 image
  let image := dd files.loader 5 1 image
  let image := dd files.kernel 100 6 image
  let image := dd files.shell 20 106 image
  image.put (126 * sectorSize) ((204800 - 126) * sectorSize) (fun _ => 0)

/-- The disk has the bytes of the image where the boot code reads. -/
def Carries (disk : Bytes) (files : Binaries) (image : Bytes) : Prop :=
  ∀ x, x < 126 * sectorSize → disk x = makeAll files image x

/-! ### The parts of the image -/

variable {files : Binaries} {disk image : Bytes}

/-- A byte that `dd` stores. -/
theorem dd_inside {file : List UInt8} {count seek i : ℕ} {c : UInt8} (h : file[i]? = some c)
    (hi : i < count * sectorSize) :
  dd file count seek image (seek * sectorSize + i) = c
  := by
  obtain ⟨hlt, -⟩ := List.getElem?_eq_some_iff.mp h
  have hput : dd file count seek image (seek * sectorSize + i) = file.getD i 0 :=
    Bytes.put_inside (Nat.lt_min.mpr ⟨hlt, hi⟩)
  rw [hput, List.getD_eq_getElem?_getD, h]
  rfl

/-- `dd` stores in its blocks. -/
theorem dd_of_outside {file : List UInt8} {count seek x : ℕ}
    (h : x < seek * sectorSize ∨ (seek + count) * sectorSize ≤ x) :
  dd file count seek image x = image x
  := by
  have hmin := Nat.min_le_right file.length (count * sectorSize)
  apply Bytes.put_of_outside
  rw [Nat.add_mul] at h
  omega

/-- The bytes of the four files on the disk. -/
theorem Carries.bytes (h : Carries disk files image) {i : ℕ} {c : UInt8} :
  (files.boot[i]? = some c → i < 1 * sectorSize → disk (0 * sectorSize + i) = c)
    ∧ (files.loader[i]? = some c → i < 5 * sectorSize → disk (1 * sectorSize + i) = c)
    ∧ (files.kernel[i]? = some c → i < 100 * sectorSize → disk (6 * sectorSize + i) = c)
    ∧ (files.shell[i]? = some c → i < 20 * sectorSize → disk (106 * sectorSize + i) = c)
  := by
  have hsector : sectorSize = 512 := rfl
  have hdisk : ∀ x, x < 126 * sectorSize → disk x = dd files.shell 20 106 (dd files.kernel 100 6
      (dd files.loader 5 1 (dd files.boot 1 0 image))) x := by
    intro x hx
    rw [h x hx, makeAll]
    apply Bytes.put_of_outside
    apply Or.inl hx
  refine ⟨?_, ?_, ?_, ?_⟩
  · intro hfile hi
    rw [hsector] at hi
    rw [hdisk _ (by rw [hsector]; omega), dd_of_outside (by rw [hsector]; omega),
      dd_of_outside (by rw [hsector]; omega), dd_of_outside (by rw [hsector]; omega)]
    exact dd_inside hfile (by rwa [hsector])
  · intro hfile hi
    rw [hsector] at hi
    rw [hdisk _ (by rw [hsector]; omega), dd_of_outside (by rw [hsector]; omega),
      dd_of_outside (by rw [hsector]; omega)]
    exact dd_inside hfile (by rwa [hsector])
  · intro hfile hi
    rw [hsector] at hi
    rw [hdisk _ (by rw [hsector]; omega), dd_of_outside (by rw [hsector]; omega)]
    exact dd_inside hfile (by rwa [hsector])
  · intro hfile hi
    rw [hsector] at hi
    rw [hdisk _ (by rw [hsector]; omega)]
    exact dd_inside hfile (by rwa [hsector])

/-- The 100 sectors of the kernel are as before behind its file. -/
theorem Carries.behind_kernel (h : Carries disk files image) {i : ℕ}
    (hlength : files.kernel.length ≤ i) (hi : i < 100 * sectorSize) :
  disk (6 * sectorSize + i) = image (6 * sectorSize + i)
  := by
  have hsector : sectorSize = 512 := rfl
  rw [hsector] at hi
  have hkernel : ∀ b : Bytes,
      dd files.kernel 100 6 b (6 * sectorSize + i) = b (6 * sectorSize + i) := by
    intro b
    have hmin := Nat.min_le_left files.kernel.length (100 * sectorSize)
    apply Bytes.put_of_outside
    omega
  have hzeros : ∀ b : Bytes, b.put (126 * sectorSize) ((204800 - 126) * sectorSize) (fun _ => 0)
      (6 * sectorSize + i) = b (6 * sectorSize + i) := by
    intro b
    apply Bytes.put_of_outside
    rw [hsector]
    omega
  rw [h _ (by rw [hsector]; omega), makeAll, hzeros, dd_of_outside (by rw [hsector]; omega),
    hkernel,
    dd_of_outside (by rw [hsector]; omega), dd_of_outside (by rw [hsector]; omega)]

/-! ### The boot sector -/

/-- The BIOS parameter block and the extended one in `boot.asm`, after the jump. -/
def parameterBlock : List UInt8 :=
  [0x4C, 0x41, 0x52, 0x56, 0x41, 0x4F, 0x53, 0x20] -- OEMIdetifier
    ++ [0x00, 0x02, 0x04, 0xC8, 0x00, 0x02, 0x00, 0x02] -- BytesPerSector to RootDirEntries
    ++ [0x00, 0x00, 0xF8, 0xC8, 0x00] -- NumSectors, MediaType, SectorsPerFAT
    ++ [0x3F, 0x00, 0x10, 0x00] -- SectorsPerTrack, NumberOfHeads
    ++ [0x00, 0x00, 0x00, 0x00, 0x11, 0x1F, 0x03, 0x00] -- HiddenSectors, SectorsBig
    ++ [0x80, 0x00, 0x29, 0x05, 0xD1, 0x00, 0x00] -- DriveNumber to VolumeID
    ++ [0x4C, 0x41, 0x52, 0x56, 0x41, 0x4F, 0x53, 0x20, 0x20, 0x20, 0x20] -- VolumeIDString
    ++ [0x46, 0x41, 0x54, 0x31, 0x36, 0x20, 0x20, 0x20] -- SystemIDString

/-- The data that `boot.asm` places in the boot sector: the parameter blocks after a jump of
three bytes, and the signature at the end. -/
structure BootSector (boot : List UInt8) : Prop where
  parameters : ∀ i c, parameterBlock[i]? = some c → boot[3 + i]? = some c
  signature : boot[510]? = some 0x55 ∧ boot[511]? = some 0xAA

/-- The parameters of the volume. -/
def BPB.larvaOS : BPB where
  bytesPerSector := 0x200
  sectorsPerCluster := 0x4
  reservedSectors := 0xC8
  fatCopies := 0x02
  rootDirEntries := 0x200
  sectorsPerFat := 0xC8
  signature := 0x29

/-- The kernel reads the parameters that are in `boot.asm`. -/
theorem BootSector.load (hboot : BootSector files.boot) (h : Carries disk files image) :
  BPB.load disk 0 = BPB.larvaOS
  := by
  have hlength : parameterBlock.length = 59 := rfl
  have hbytes : ∀ o, o < 59 → disk (3 + o) = parameterBlock.getD (0 + o) 0 := by
    intro o ho
    have hbyte : parameterBlock[o]? = some (parameterBlock.getD o 0) := by
      rw [List.getD_eq_getElem?_getD, List.getElem?_eq_getElem (by rwa [hlength])]
      rfl
    have hdisk := h.bytes.1 (hboot.parameters o _ hbyte) (by rw [sectorSize_eq]; omega)
    rw [Nat.zero_mul, Nat.zero_add] at hdisk
    rw [hdisk, Nat.zero_add]
  have hread : ∀ n o, o + n ≤ 59 →
      Bytes.read n disk (3 + o) = Bytes.read n (fun i => parameterBlock.getD i 0) (0 + o) :=
    fun n o ho => Bytes.read_inside hbytes ho
  unfold BPB.load BPB.larvaOS
  rw [hread 2 8 (by decide), hread 1 10 (by decide), hread 2 11 (by decide),
    hread 1 13 (by decide), hread 2 14 (by decide), hread 2 19 (by decide), hread 1 35 (by decide)]
  rfl

/-- The file system accepts the boot sector. -/
theorem BootSector.bootable (hboot : BootSector files.boot) (h : Carries disk files image) :
  Bootable disk
  where
  boot := by
    constructor
    · have hdisk := h.bytes.1 hboot.signature.1 (by decide)
      rwa [Nat.zero_mul, Nat.zero_add] at hdisk
    · have hdisk := h.bytes.1 hboot.signature.2 (by decide)
      rwa [Nat.zero_mul, Nat.zero_add] at hdisk
  signature := by
    rw [hboot.load h]
    rfl
  sector := by
    rw [hboot.load h]
    decide

end LarvaOS
