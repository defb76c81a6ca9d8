import LarvaOS.File.Disk
import LarvaOS.Kernel.System

/-!
# From the boot sector to the kernel

`boot/boot.asm` and `boot/loader.asm` work on the physical memory: they read sectors with the
BIOS, collect the memory map of the BIOS in a table, write page tables, and copy the kernel to
the address at which it is linked.  The services of the BIOS and the answers of `cpuid` are
parameters.
-/

namespace LarvaOS

/-! ### The BIOS -/

/-- What the boot code finds: whether the disk services are installed, what `cpuid` returns for
`0x80000000` in `EAX` and for `0x80000001` in `EDX`, the disk, the sectors that the BIOS can read,
its answers to the service that gets the memory map (the next continuation, and 20 bytes), and the
A20 line. -/
structure Bios where
  extensions : Bool
  maximumFunction : BitVec 32
  features : BitVec 32
  disk : ℕ → UInt8
  readable : ℕ → Bool
  memoryMap : ℕ → Option (ℕ × (ℕ → UInt8))
  a20 : Bool

variable (bios : Bios)

/-- The service EXTENDED READ: `count` sectors from `lba` on are stored from `address` on. -/
def extendedRead (lba count address : ℕ) (b : Bytes) : Option Bytes :=
  if ∀ i, i < count → bios.readable (lba + i) then
    some (b.put address (count * sectorSize) (fun i => bios.disk (lba * sectorSize + i)))
  else none

/-! ### The boot sector -/

/-- `LoadLoader`. -/
def loadLoader (b : Bytes) : Option Bytes := extendedRead bios 0x01 0x15 0x7E00 b

/-- The boot sector up to the jump to the loader, with `TestDiskExtension`. -/
def bootSector (b : Bytes) : Option Bytes := do
  assert bios.extensions
  loadLoader bios b

/-! ### The memory map -/

/-- The address of the count of entries, `MEMORY_REGION_COUNT_BASE_ADDR`. -/
def memoryRegionCountBaseAddr : ℕ := 0x9000

/-- The address of the entries, `MEMORY_REGION_STRUCTURES_BASE_ADDR`. -/
def memoryRegionStructuresBaseAddr : ℕ := 0x9008

/-- The size of an entry. -/
def sizeofE820 : ℕ := 0x14

/-- The service stores its answer at `ES:DI`, where `ES` is zero. -/
def storeAnswer (edi : ℕ) (answer : ℕ → UInt8) (b : Bytes) : Bytes :=
  b.put (edi % 2 ^ 16) sizeofE820 answer

/-- `inc dword[0x9000]`. -/
def incrementCount (b : Bytes) : Bytes :=
  b.write 4 memoryRegionCountBaseAddr (b.read 4 memoryRegionCountBaseAddr + 1)

/-- `GetMemoryInfo`, the loop, for at most `n` turns. -/
def getMemoryInfo : ℕ → ℕ → ℕ → Bytes → Option Bytes
  | 0, _, _, _ => none
  | n + 1, ebx, edi, b =>
      let b := incrementCount b
      if ebx = 0 then some b
      else
        let edi := (edi + sizeofE820) % 2 ^ 32
        match bios.memoryMap ebx with
        | none => some b
        | some (ebx, answer) => getMemoryInfo n ebx edi (storeAnswer edi answer b)

/-- `GetMemoryInfoStart`, and the loop for at most `n` turns. -/
def getMemoryInfoStart (n : ℕ) (b : Bytes) : Option Bytes :=
  let b := b.write 4 memoryRegionCountBaseAddr 0
  match bios.memoryMap 0 with
  | none => none
  | some (ebx, answer) =>
      getMemoryInfo bios n ebx memoryRegionStructuresBaseAddr
        (storeAnswer memoryRegionStructuresBaseAddr answer b)

/-! ### The rest of the loader -/

/-- The tests of `Start`: the processor has the function `0x80000001`, long mode (bit 29), and
pages of one gigabyte (bit 26). -/
def checkProcessor : Option Unit := do
  assert (0x80000001 ≤ bios.maximumFunction)
  assert (bios.features.getLsbD 29)
  assert (bios.features.getLsbD 26)

/-- `LoadKernel`. -/
def loadKernel (b : Bytes) : Option Bytes := extendedRead bios 0x06 0x64 0x10000 b

/-- `LoadShell`. -/
def loadShell (b : Bytes) : Option Bytes := extendedRead bios 0x6A 0x14 0x20000 b

/-- `TestA20lLine`: when the line is off, the word at `FFFF:7C10` is the one at `0000:7C00`. -/
def testA20Line (b : Bytes) : Option Bytes :=
  let far := if bios.a20 then 0x107C00 else 0x7C00
  let b := b.write 2 0x7C00 0xA200
  if b.read 2 far ≠ 0xA200 then some b
  else
    let b := b.write 2 0x7C00 0xB200
    if b.read 2 far = 0xB200 then none else some b

/-- The page tables that `PMEntry` writes. -/
def setupPaging (b : Bytes) : Bytes :=
  let b := b.put 0x70000 0x10000 (fun _ => 0)
  let b := b.write 4 0x70000 0x71003
  let b := b.write 4 0x71000 0b10000011
  let b := b.write 4 (0x70000 + ((kernelVirtualAddressBase >>> 39) &&& 0x1FF) * 8) 0x72003
  b.write 4 0x72000 0b10000011

/-- `LMEntry`: the kernel is copied to `0x200000`, 51200 bytes in words of eight bytes. -/
def relocateKernel (b : Bytes) : Bytes := b.put 0x200000 51200 (fun i => b (0x10000 + i))

/-- The page map register that the loader sets. -/
def loaderPageMap : Fin (2 ^ 64) := ⟨0x70000, by decide⟩

/-- The loader up to the jump to the kernel, for at most `n` entries of the memory map. -/
def loader (n : ℕ) (b : Bytes) : Option Bytes := do
  checkProcessor bios
  let b ← loadKernel bios b
  let b ← loadShell bios b
  let b ← getMemoryInfoStart bios n b
  let b ← testA20Line bios b
  some (relocateKernel (setupPaging b))

/-- The boot sector and the loader. -/
def bootCode (n : ℕ) (b : Bytes) : Option Bytes := (bootSector bios b).bind (loader bios n)

/-! ### What the kernel finds -/

/-- The entry of the memory map at an address. -/
def E820.load (b : Bytes) (a : ℕ) : E820 where
  address := b.read 8 a
  length := b.read 8 (a + 8)
  type := b.read 4 (a + 16)
  address_lt := Bytes.read_lt 8 b a
  length_lt := Bytes.read_lt 8 b (a + 8)

/-- The memory map that `RetrieveMemoryInfo` reads. -/
def memMapAt (b : Bytes) : List E820 :=
  (List.range (int32 (b.read 4 memoryRegionCountBaseAddr)).toNat).map (fun i =>
    E820.load b (memoryRegionStructuresBaseAddr + sizeofE820 * i))

/-- The machine when the kernel is entered: the kernel sees the physical memory above
`KERNEL_VIRTUAL_ADDRESS_BASE`. Nothing clears `.bss`, so `Kernel.initial` is the state of the
kernel on this machine when the memory behind the file of the kernel is zero. -/
def Machine.started (b : Bytes) : Machine where
  bytes a := b (virToPhy a)
  memMap := memMapAt b
  disk := bios.disk
  cr3 := loaderPageMap

end LarvaOS
