import LarvaOS.Libc.String
import LarvaOS.Memory.Allocator

/-!
# Page tables

The functions of `kernel/memory.c` that build, copy and free address spaces.  A page
map is a tree of tables of 512 entries: the entries of a page map level 4 table point to
page directory pointer tables, whose entries point to page directories, whose entries
point to pages of 2 MB.  An entry is the physical address of what it points to, together
with attribute bits; a table occupies the first 4096 bytes of a page of its own.

The loops over pages recurse on the number of pages that they may still visit; the
outcome is `none` when they visit more.
-/

namespace LarvaOS

/-- `TABLE_ENTRY_PRESENT_ATTRIBUTE`. -/
def tableEntryPresentAttribute : ℕ := 1

/-- `TABLE_ENTRY_WRITABLE_ATTRIBUTE`. -/
def tableEntryWritableAttribute : ℕ := 2

/-- `TABLE_ENTRY_USER_ATTRIBUTE`. -/
def tableEntryUserAttribute : ℕ := 4

/-- `TABLE_ENTRY_ENTRY_ATTRIBUTE`. -/
def tableEntryEntryAttribute : ℕ := 128

/-- `PAGE_DIRECTORY_TABLE_ADDRESS(p)`. -/
def pageDirectoryTableAddress (p : ℕ) : ℕ := (p >>> 12) <<< 12

/-- `PAGE_ADDRESS(p)`. -/
def pageAddress (p : ℕ) : ℕ := (p >>> 21) <<< 21

/-- The present bit of an entry is set. -/
def Present (entry : ℕ) : Prop := entry &&& tableEntryPresentAttribute ≠ 0

instance (entry : ℕ) : Decidable (Present entry) :=
  inferInstanceAs (Decidable (entry &&& tableEntryPresentAttribute ≠ 0))

/-- The number of entries of a table: `TOTAL_PAGE_DIR_POINTER_TABLE` and
`TOTAL_PAGE_DIR_TABLE_OF_EACH_PDPT`. -/
abbrev totalTableEntries : ℕ := 512

namespace Memory

/-- The entry `table[index]`. -/
def entry (m : Memory) (table index : ℕ) : ℕ := m.bytes.readWord (table + 8 * index)

/-- Store an entry. -/
def setEntry (m : Memory) (table index value : ℕ) : Memory :=
  { m with bytes := m.bytes.writeWord (table + 8 * index) value }

/-- `memset(page, 0, PAGE_SIZE)`. -/
def clear (m : Memory) (page : ℕ) : Memory :=
  { m with bytes := memset m.bytes page 0 pageSize }

/-- `memcpy(dest, src, size)`. -/
def copy (m : Memory) (dest src size : ℕ) : Memory :=
  { m with bytes := memcpy size m.bytes dest src }

end Memory

variable (image : Image)

/-- The body shared by `FindPML4TableEntry` and `FindPageDirPointerTableEntry`: the
address of the table that an entry points to.  When the entry is not present and
`alloc` holds, a new table is allocated for it; zero stands for no table. -/
def findTableEntry (table index : ℕ) (alloc : Bool) (attr : ℕ) (m : Memory) :
    Option (ℕ × Memory) :=
  if Present (m.entry table index) then
    some (phyToVir (pageDirectoryTableAddress (m.entry table index)), m)
  else if alloc then do
    let (page, m) ← kalloc image m
    if page ≠ 0 then
      some (page, (m.clear page).setEntry table index (virToPhy page ||| attr))
    else
      some (0, m)
  else
    some (0, m)

/-- `FindPML4TableEntry`. -/
def findPML4TableEntry (map v : ℕ) (alloc : Bool) (attr : ℕ) (m : Memory) :
    Option (ℕ × Memory) :=
  findTableEntry image map ((v >>> 39) &&& 0x1FF) alloc attr m

/-- `FindPageDirPointerTableEntry`. -/
def findPageDirPointerTableEntry (map v : ℕ) (alloc : Bool) (attr : ℕ) (m : Memory) :
    Option (ℕ × Memory) := do
  let (pdptr, m) ← findPML4TableEntry image map v alloc attr m
  if pdptr = 0 then
    some (0, m)
  else
    findTableEntry image pdptr ((v >>> 30) &&& 0x1FF) alloc attr m

/-- The loop of `MapPages`. -/
def mapPagesLoop (map attr vEnd : ℕ) : ℕ → ℕ → ℕ → Memory → Option (Bool × Memory)
  | 0, _, _, _ => none
  | n + 1, vStart, phys, m => do
      let (pd, m) ← findPageDirPointerTableEntry image map vStart true attr m
      if pd = 0 then
        some (false, m)
      else do
        let index := (vStart >>> 21) &&& 0x1FF
        assert (¬ Present (m.entry pd index))
        let m := m.setEntry pd index (phys ||| attr ||| tableEntryEntryAttribute)
        let vStart := (vStart + pageSize) % 2 ^ 64
        let phys := (phys + pageSize) % 2 ^ 64
        if (vStart + pageSize) % 2 ^ 64 ≤ vEnd then
          mapPagesLoop map attr vEnd n vStart phys m
        else
          some (true, m)

/-- `MapPages`. An address space has `2 ^ 43` pages. -/
def mapPages (map v last phys attr : ℕ) (m : Memory) : Option (Bool × Memory) := do
  let vStart := pageAlignDown v
  let vEnd := pageAlignUp last
  assert (v < last)
  assert (addrIsAligned phys)
  assert ((phys + vEnd + (2 ^ 64 - vStart)) % 2 ^ 64 ≤ virtualAddressEnd)
  mapPagesLoop image map attr vEnd (2 ^ 43) vStart phys m

/-- The loop of `FreePages`. -/
def freePagesLoop (map vEnd : ℕ) : ℕ → ℕ → Memory → Option Memory
  | 0, _, _ => none
  | n + 1, vStart, m => do
      let (pd, m) ← findPageDirPointerTableEntry image map vStart false 0 m
      let index := (vStart >>> 21) &&& 0x1FF
      let m ←
        if pd ≠ 0 ∧ Present (m.entry pd index) then do
          let freed ← kfree image (phyToVir (pageAddress (m.entry pd index))) m
          some (freed.setEntry pd index 0)
        else
          some m
      let vStart := (vStart + pageSize) % 2 ^ 64
      if (vStart + pageSize) % 2 ^ 64 ≤ vEnd then
        freePagesLoop map vEnd n vStart m
      else
        some m

/-- `FreePages`. -/
def freePages (map vStart vEnd : ℕ) (m : Memory) : Option Memory := do
  assert (addrIsAligned vStart)
  assert (addrIsAligned vEnd)
  freePagesLoop image map vEnd (2 ^ 43) vStart m

/-- The loop over the entries of a table that `FreePDTable` and `FreePDPTable` share:
free what the entries `indices` point to and clear them. -/
def freeEntries (table : ℕ) : List ℕ → Memory → Option Memory
  | [], m => some m
  | i :: indices, m =>
      if Present (m.entry table i) then do
        let freed ← kfree image (phyToVir (pageDirectoryTableAddress (m.entry table i))) m
        freeEntries table indices (freed.setEntry table i 0)
      else
        freeEntries table indices m

/-- The outer loop of `FreePDTable`. -/
def freePDTableLoop (map : ℕ) : List ℕ → Memory → Option Memory
  | [], m => some m
  | i :: indices, m =>
      if Present (m.entry map i) then do
        let m ← freeEntries image (phyToVir (pageDirectoryTableAddress (m.entry map i)))
          (List.range totalTableEntries) m
        freePDTableLoop map indices m
      else
        freePDTableLoop map indices m

/-- `FreePDTable`. -/
def freePDTable (map : ℕ) (m : Memory) : Option Memory :=
  freePDTableLoop image map (List.range totalTableEntries) m

/-- `FreePDPTable`. -/
def freePDPTable (map : ℕ) (m : Memory) : Option Memory :=
  freeEntries image map (List.range totalTableEntries) m

/-- `FreePML4Table`. -/
def freePML4Table (map : ℕ) (m : Memory) : Option Memory := kfree image map m

/-- `FreeVM`. -/
def freeVM (map : ℕ) (m : Memory) : Option Memory := do
  let m ← freePages image map userVirtualAddressBase (userVirtualAddressBase + pageSize) m
  let m ← freePDTable image map m
  let m ← freePDPTable image map m
  freePML4Table image map m

/-- `SetupKVM`: the address of the new page map, or zero. -/
def setupKVM (m : Memory) : Option (ℕ × Memory) := do
  let (kernelPageMap, m) ← kalloc image m
  if kernelPageMap ≠ 0 then do
    let (status, m) ← mapPages image kernelPageMap kernelVirtualAddressBase
      m.freeMemoryEndAddress (virToPhy kernelVirtualAddressBase)
      (tableEntryPresentAttribute ||| tableEntryWritableAttribute) (m.clear kernelPageMap)
    if status then
      some (kernelPageMap, m)
    else do
      let m ← freeVM image kernelPageMap m
      some (0, m)
  else
    some (0, m)

/-- The attributes of user pages. -/
def userAttributes : ℕ :=
  tableEntryPresentAttribute ||| tableEntryWritableAttribute ||| tableEntryUserAttribute

/-- `SetupUVM`. -/
def setupUVM (map startLocation size : ℕ) (m : Memory) : Option (Bool × Memory) := do
  let (page, m) ← kalloc image m
  if page = 0 then
    some (false, m)
  else do
    let (status, m) ← mapPages image map userVirtualAddressBase
      (userVirtualAddressBase + pageSize) (virToPhy page) userAttributes (m.clear page)
    if status then
      some (true, m.copy page startLocation size)
    else do
      let m ← kfree image page m
      let m ← freeVM image map m
      some (false, m)

/-- `CopyUVM`. -/
def copyUVM (newPage currentPage size : ℕ) (m : Memory) : Option (Bool × Memory) := do
  let (page, m) ← kalloc image m
  if page ≠ 0 then do
    let (status, m) ← mapPages image newPage userVirtualAddressBase
      (userVirtualAddressBase + pageSize) (virToPhy page) userAttributes (m.clear page)
    if status then do
      let (pd, m) ← findPageDirPointerTableEntry image currentPage userVirtualAddressBase false 0 m
      if pd ≠ 0 then do
        let index := (userVirtualAddressBase >>> 21) &&& 0x1FF
        assert (Present (m.entry pd index))
        let start := phyToVir (pageAddress (m.entry pd index))
        some (true, m.copy page start size)
      else do
        let m ← kfree image page m
        let m ← freeVM image newPage m
        some (false, m)
    else do
      let m ← kfree image page m
      let m ← freeVM image newPage m
      some (false, m)
  else
    some (false, m)

end LarvaOS
