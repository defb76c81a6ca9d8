import LarvaOS.Boot.MemoryMap
import LarvaOS.Memory.Translation

/-!
# Entering the kernel

The boot code reaches the kernel when the BIOS can read the first 126 sectors and has a memory map,
the processor has long mode and pages of one gigabyte, and the A20 line is on.  Then the kernel
finds itself at the address at which it is linked, the shell where `InitProcess` copies it from, the
memory map of the BIOS, and a page map under which the first gigabyte of physical memory can be
reached at its own addresses and at `KERNEL_VIRTUAL_ADDRESS_BASE`, by the kernel only.
-/

namespace LarvaOS

variable {bios : Bios} {n v : ℕ} {b b' b₀ : Bytes} {answers : List (ℕ → UInt8)}

/-! ### The page tables -/

/-- The words of the area in which the page tables of the loader are. -/
def loaderTables : ℕ → ℕ :=
  Function.update (Function.update (Function.update (Function.update (fun _ => 0)
    0 0x71003) 512 0b10000011) 256 0x72003) 1024 0b10000011

/-- A word of the area that is none of the four. -/
theorem loaderTables_zero {i : ℕ} (h₀ : i ≠ 0) (h₁ : i ≠ 256) (h₂ : i ≠ 512) (h₃ : i ≠ 1024) :
  loaderTables i = 0
  := by
  unfold loaderTables
  rw [Function.update_of_ne h₃, Function.update_of_ne h₁, Function.update_of_ne h₂,
    Function.update_of_ne h₀]

theorem words_setupPaging :
  Bytes.Words (setupPaging b) 0x70000 8192 loaderTables
  := by
  have hzero : Bytes.Words (b.put 0x70000 0x10000 (fun _ => 0)) 0x70000 8192 (fun _ => 0) := by
    intro i hi
    apply Bytes.read_eq_zero
    intro x hx hlt
    obtain ⟨j, rfl⟩ := Nat.exists_eq_add_of_le (Nat.le_trans (Nat.le_add_right _ _) hx)
    apply Bytes.put_inside
    omega
  have hindex : 0x70000 + ((kernelVirtualAddressBase >>> 39) &&& 0x1FF) * 8
      = 0x70000 + 8 * 256 := by
    rw [kernelVirtualAddressBase_eq]
    rfl
  unfold setupPaging
  dsimp only
  rw [hindex]
  have h₀ := hzero.write (j := 0) (v := 0x71003) rfl (by decide)
  have h₁ := h₀.write (j := 512) (v := 0b10000011) rfl (by decide)
  have h₂ := h₁.write (j := 256) (v := 0x72003) rfl (by decide)
  exact h₂.write (j := 1024) rfl (by decide)

/-- The page tables are in the area that is cleared for them. -/
theorem setupPaging_of_outside {x : ℕ} (h : x < 0x70000 ∨ 0x80000 ≤ x) :
  setupPaging b x = b x
  := by
  have hindex : ((kernelVirtualAddressBase >>> 39) &&& 0x1FF) * 8 = 2048 := by
    rw [kernelVirtualAddressBase_eq]
    rfl
  unfold setupPaging
  rw [hindex, Bytes.write_of_outside (by omega), Bytes.write_of_outside (by omega),
    Bytes.write_of_outside (by omega), Bytes.write_of_outside (by omega)]
  exact Bytes.put_of_outside h

/-! ### The translation of the loader -/

/-- A byte of the physical memory, in the memory of the kernel. -/
theorem started_bytes {x : ℕ} (h : x < 2 ^ 32) :
  (Machine.started bios b).bytes (phyToVir 0 + x) = b x
  := by
  have hphys : virToPhy (phyToVir 0 + x) = x := by
    unfold virToPhy phyToVir
    rw [kernelVirtualAddressBase_eq]
    omega
  exact congrArg b hphys

/-- The entry of a table of the loader. -/
theorem entry_started (h : Bytes.Words b 0x70000 8192 loaderTables) {k i : ℕ}
    (hk : k + i < 8192) :
  (Kernel.initial (Machine.started bios b)).memory.entry (phyToVir (0x70000 + 8 * k)) i
    = loaderTables (k + i)
  := by
  rw [← h (k + i) hk]
  apply Bytes.read_shift
  intro o ho
  have haddress : phyToVir (0x70000 + 8 * k) + 8 * i + o
      = phyToVir 0 + (0x70000 + 8 * (k + i) + o) := by
    unfold phyToVir
    rw [kernelVirtualAddressBase_eq]
    omega
  show (Machine.started bios b).bytes _ = _
  rw [haddress]
  exact started_bytes (by omega)

/-- The walk through the first table of pages of 1 GB, or through the second one. -/
theorem walkTable_loader (h : Bytes.Words b 0x70000 8192 loaderTables) {k : ℕ}
    (hk : k = 512 ∨ k = 1024) :
  walkTable (Kernel.initial (Machine.started bios b)).memory v 2 (0x70000 + 8 * k) true false
    = if v / 2 ^ 30 % 512 = 0 then some ⟨v % 2 ^ 30, true, false⟩ else none
  := by
  have hentry := @entry_started bios b h k (v / 2 ^ 30 % 512) (by omega)
  rw [walkTable, index_eq, hentry]
  by_cases hindex : v / 2 ^ 30 % 512 = 0
  · have hvalue : loaderTables (k + 0) = 0b10000011 := by
      rcases hk with rfl | rfl
      · rfl
      · rfl
    have hpresent : Present 0b10000011 := by decide
    have hframe : frame 0b10000011 (21 + 9 * 1) = 0 := by decide
    have hsize : Nat.testBit 0b10000011 7 = true := by decide
    have hwritable : Nat.testBit 0b10000011 1 = true := by decide
    have huser : Nat.testBit 0b10000011 2 = false := by decide
    rw [hindex, hvalue, if_pos rfl, if_neg (not_not.mpr hpresent), if_pos hsize,
      if_pos (by decide), hframe, hwritable, huser, Nat.zero_add]
    rfl
  · rw [if_neg hindex, loaderTables_zero (by omega) (by omega) (by omega) (by omega),
      if_pos not_present_zero]

/-- The walk through the page map. -/
theorem walkTable_loaderMap (h : Bytes.Words b 0x70000 8192 loaderTables) :
  walkTable (Kernel.initial (Machine.started bios b)).memory v 3 0x70000 true true
    = if v / 2 ^ 39 % 512 = 0 ∨ v / 2 ^ 39 % 512 = 256 then
        if v / 2 ^ 30 % 512 = 0 then some ⟨v % 2 ^ 30, true, false⟩ else none
      else none
  := by
  have hentry := @entry_started bios b h 0 (v / 2 ^ 39 % 512) (by omega)
  rw [Nat.mul_zero, Nat.add_zero, Nat.zero_add] at hentry
  rw [walkTable, index_eq, hentry]
  by_cases hlow : v / 2 ^ 39 % 512 = 0
  · have hvalue : loaderTables 0 = 0x71003 := rfl
    have hpresent : Present 0x71003 := by decide
    have hsize : Nat.testBit 0x71003 7 = false := by decide
    have hframe : frame 0x71003 12 = 0x70000 + 8 * 512 := by decide
    have hwritable : Nat.testBit 0x71003 1 = true := by decide
    have huser : Nat.testBit 0x71003 2 = false := by decide
    rw [hlow, hvalue, if_pos (Or.inl rfl), if_neg (not_not.mpr hpresent), hsize,
      if_neg Bool.false_ne_true, hframe, hwritable, huser]
    exact walkTable_loader h (Or.inl rfl)
  · by_cases hhigh : v / 2 ^ 39 % 512 = 256
    · have hvalue : loaderTables 256 = 0x72003 := rfl
      have hpresent : Present 0x72003 := by decide
      have hsize : Nat.testBit 0x72003 7 = false := by decide
      have hframe : frame 0x72003 12 = 0x70000 + 8 * 1024 := by decide
      have hwritable : Nat.testBit 0x72003 1 = true := by decide
      have huser : Nat.testBit 0x72003 2 = false := by decide
      rw [hhigh, hvalue, if_pos (Or.inr rfl), if_neg (not_not.mpr hpresent), hsize,
        if_neg Bool.false_ne_true, hframe, hwritable, huser]
      exact walkTable_loader h (Or.inr rfl)
    · rw [loaderTables_zero (by omega) (by omega) (by omega) (by omega), if_pos not_present_zero,
        if_neg (by omega)]

/-- The translation of every address, under the page map of the loader. -/
theorem walk_loader (h : Bytes.Words b 0x70000 8192 loaderTables) (hv : v < 2 ^ 64) :
  walk (Kernel.initial (Machine.started bios b)).memory loaderPageMap v
    = if v < 2 ^ 30 then some ⟨v, true, false⟩
      else if kernelVirtualAddressBase ≤ v ∧ v < kernelVirtualAddressBase + 2 ^ 30 then
        some ⟨v - kernelVirtualAddressBase, true, false⟩
      else none
  := by
  rw [kernelVirtualAddressBase_eq]
  by_cases hc : Canonical v
  · have hwalk : walk (Kernel.initial (Machine.started bios b)).memory loaderPageMap v
        = walkTable (Kernel.initial (Machine.started bios b)).memory v 3 0x70000 true true :=
      if_pos hc
    unfold Canonical at hc
    rw [hwalk, walkTable_loaderMap h]
    by_cases hlow : v < 2 ^ 30
    · rw [if_pos (by omega), if_pos (by omega), if_pos hlow, Nat.mod_eq_of_lt hlow]
    · rw [if_neg hlow]
      by_cases hkernel : 18446603336221196288 ≤ v ∧ v < 18446603336221196288 + 2 ^ 30
      · have hphys : v % 2 ^ 30 = v - 18446603336221196288 := by omega
        rw [if_pos (by omega), if_pos (by omega), if_pos hkernel, hphys]
      · rw [if_neg hkernel]
        by_cases hindex : v / 2 ^ 30 % 512 = 0
        · rw [if_neg (by omega)]
        · rw [if_neg hindex, ite_self]
  · have hwalk : walk (Kernel.initial (Machine.started bios b)).memory loaderPageMap v = none :=
      if_neg hc
    unfold Canonical at hc
    rw [hwalk, if_neg (by omega), if_neg (by omega)]

/-! ### The steps of the boot code -/

/-- The service reads the sectors when the BIOS can read each of them. -/
theorem extendedRead_eq_some {lba count address : ℕ} :
  extendedRead bios lba count address b = some b'
    ↔ (∀ i, i < count → bios.readable (lba + i))
      ∧ b.put address (count * sectorSize) (fun i => bios.disk (lba * sectorSize + i)) = b'
  := by
  unfold extendedRead
  split
  case isTrue h => rw [Option.some.injEq, and_iff_right h]
  case isFalse h => simp only [reduceCtorEq, h, false_and]

/-- The boot sector reaches the loader when the disk services are installed and can read the
sectors of the loader, and only the memory of the loader changes. -/
theorem bootSector_eq_some :
  bootSector bios b = some b'
    ↔ bios.extensions ∧ (∀ i, 1 ≤ i → i < 22 → bios.readable i)
      ∧ b.put 0x7E00 (0x15 * sectorSize) (fun i => bios.disk (0x01 * sectorSize + i)) = b'
  := by
  unfold bootSector loadLoader
  rw [Option.bind_eq_bind, assert_bind_eq_some, extendedRead_eq_some]
  have hsectors : (∀ i, i < 0x15 → bios.readable (0x01 + i))
      ↔ ∀ i, 1 ≤ i → i < 22 → bios.readable i := by
    constructor
    · intro h i hlo hhi
      have hi := h (i - 1) (by omega)
      rwa [Nat.add_sub_cancel' hlo] at hi
    · exact fun h i hi => h _ (by omega) (by omega)
  rw [hsectors]

/-- The processor has the function of `cpuid` that tells its features, long mode, and pages of one
gigabyte. -/
structure Bios.Supported (bios : Bios) : Prop where
  maximum : 0x80000001 ≤ bios.maximumFunction
  longMode : bios.features.getLsbD 29
  gigabytePages : bios.features.getLsbD 26

theorem checkProcessor_eq_some {u : Unit} :
  checkProcessor bios = some u ↔ bios.Supported
  := by
  unfold checkProcessor
  simp only [Option.bind_eq_bind, assert_bind_eq_some, assert_eq_some]
  constructor
  · exact fun h => ⟨h.1, h.2.1, h.2.2⟩
  · exact fun h => ⟨h.maximum, h.longMode, h.gigabytePages⟩

/-- The test of the A20 line, when the line is off. -/
theorem testA20Line_off (h : bios.a20 = false) :
  testA20Line bios b = none
  := by
  unfold testA20Line
  have hfirst : Bytes.read 2 (b.write 2 0x7C00 0xA200) 0x7C00 = 0xA200 :=
    Bytes.read_write_self 2 b 0x7C00 0xA200
  have hsecond : Bytes.read 2 ((b.write 2 0x7C00 0xA200).write 2 0x7C00 0xB200) 0x7C00 = 0xB200 :=
    Bytes.read_write_self 2 (b.write 2 0x7C00 0xA200) 0x7C00 0xB200
  simp only [h, Bool.false_eq_true, if_false]
  rw [hfirst, hsecond]
  rfl

/-- The test of the A20 line, when the line is on: it changes the word at `0x7C00` only. -/
theorem testA20Line_on (h : bios.a20 = true) :
  ∃ b', testA20Line bios b = some b' ∧ ∀ x, x < 0x7C00 ∨ 0x7C02 ≤ x → b' x = b x
  := by
  unfold testA20Line
  simp only [h, if_true]
  have hfar : ∀ c : Bytes, Bytes.read 2 (c.write 2 0x7C00 0xB200) 0x107C00 = c.read 2 0x107C00 :=
    fun c => Bytes.read_write_of_disjoint (Or.inr (by decide))
  by_cases hfirst : Bytes.read 2 (b.write 2 0x7C00 0xA200) 0x107C00 = 0xA200
  · rw [hfar, hfirst, if_neg (not_not.mpr rfl), if_neg (by decide)]
    refine ⟨_, rfl, ?_⟩
    intro x hx
    rw [Bytes.write_of_outside hx, Bytes.write_of_outside hx]
  · rw [if_pos hfirst]
    exact ⟨_, rfl, fun x hx => Bytes.write_of_outside hx⟩

/-- The memory map stays when the area of the table stays. -/
theorem memMapAt_congr
    (hfits : memoryRegionStructuresBaseAddr + sizeofE820 * (memMapAt b).length ≤ 2 ^ 16)
    (h : ∀ x, 0x9000 ≤ x → x < 0x10000 → b' x = b x) :
  memMapAt b' = memMapAt b
  := by
  have hcount : b'.read 4 memoryRegionCountBaseAddr = b.read 4 memoryRegionCountBaseAddr := by
    apply Bytes.read_congr
    intro x hx hlt
    rw [memoryRegionCountBaseAddr] at hx hlt
    exact h x hx (by omega)
  have hlength : (memMapAt b).length = (int32 (b.read 4 memoryRegionCountBaseAddr)).toNat := by
    rw [memMapAt, List.length_map, List.length_range]
  have hsize : sizeofE820 = 0x14 := rfl
  have hbase : memoryRegionStructuresBaseAddr = 0x9008 := rfl
  rw [hlength, hsize, hbase] at hfits
  unfold memMapAt
  rw [hcount, hsize, hbase]
  apply List.map_congr_left
  intro i hi
  rw [List.mem_range] at hi
  have hentry : ∀ j, j < sizeofE820 → b' (0x9008 + 0x14 * i + j) = b (0x9008 + 0x14 * i + j) := by
    intro j hj
    rw [hsize] at hj
    exact h _ (by omega) (by omega)
  rw [E820.load_eq hentry]
  exact (E820.load_eq (fun _ _ => rfl)).symm

/-! ### The machine of the kernel -/

theorem started_memMap :
  (Machine.started bios b).memMap = memMapAt b
  := by rw [Machine.started]

/-- What the kernel finds when the loader jumps to it, and that the memory behind the 51200 bytes
of the kernel is the one of `b₀`. -/
structure Entered (bios : Bios) (answers : List (ℕ → UInt8)) (b₀ b : Bytes) : Prop where
  memMap : (Machine.started bios b).memMap = answers.map (fun answer => E820.load answer 0)
  kernel : ∀ i, i < 100 * sectorSize →
    (Machine.started bios b).bytes (phyToVir 0 + (0x200000 + i)) = bios.disk (6 * sectorSize + i)
  shell : ∀ i, i < 20 * sectorSize →
    (Machine.started bios b).bytes (phyToVir 0 + (0x20000 + i)) = bios.disk (106 * sectorSize + i)
  translation : ∀ v, v < 2 ^ 64 →
    walk (Kernel.initial (Machine.started bios b)).memory (Machine.started bios b).cr3 v
      = if v < 2 ^ 30 then some ⟨v, true, false⟩
        else if kernelVirtualAddressBase ≤ v ∧ v < kernelVirtualAddressBase + 2 ^ 30 then
          some ⟨v - kernelVirtualAddressBase, true, false⟩
        else none
  behind : ∀ x, 0x20C800 ≤ x → b x = b₀ x

/-- The memory in which the loader has prepared everything but the page tables. -/
structure LoaderMemory (bios : Bios) (answers : List (ℕ → UInt8)) (b₀ b : Bytes) : Prop where
  memMap : memMapAt b = answers.map (fun answer => E820.load answer 0)
  kernel : ∀ i, i < 100 * sectorSize → b (0x10000 + i) = bios.disk (6 * sectorSize + i)
  shell : ∀ i, i < 20 * sectorSize → b (0x20000 + i) = bios.disk (106 * sectorSize + i)
  behind : ∀ x, 0x20C800 ≤ x → b x = b₀ x

/-- The last steps of the loader make the machine of the kernel. -/
theorem LoaderMemory.entered (h : LoaderMemory bios answers b₀ b)
    (hfits : memoryRegionStructuresBaseAddr + sizeofE820 * answers.length ≤ 2 ^ 16) :
  Entered bios answers b₀ (relocateKernel (setupPaging b))
  := by
  have hsector : sectorSize = 512 := rfl
  have hcopied : ∀ x, x < 0x200000 ∨ 0x20C800 ≤ x →
      relocateKernel (setupPaging b) x = setupPaging b x := by
    intro x hx
    exact Bytes.put_of_outside (by omega)
  refine ⟨?_, ?_, ?_, ?_, ?_⟩
  · rw [started_memMap, ← h.memMap]
    apply memMapAt_congr
    · rw [h.memMap, List.length_map]
      exact hfits
    · intro x hx hlt
      rw [hcopied x (by omega), setupPaging_of_outside (by omega)]
  · intro i hi
    rw [hsector] at hi
    have hcopy : relocateKernel (setupPaging b) (0x200000 + i) = setupPaging b (0x10000 + i) :=
      Bytes.put_inside hi
    rw [started_bytes (by omega), hcopy, setupPaging_of_outside (by omega), h.kernel i hi]
  · intro i hi
    rw [hsector] at hi
    rw [started_bytes (by omega), hcopied _ (by omega), setupPaging_of_outside (by omega),
      h.shell i hi]
  · intro v hv
    apply walk_loader _ hv
    intro i hi
    rw [← words_setupPaging i hi]
    apply Bytes.readWord_congr
    intro x hx hlt
    exact hcopied x (by omega)
  · intro x hx
    rw [hcopied x (by omega), setupPaging_of_outside (by omega), h.behind x hx]

/-- The first steps of the loader fill the memory. -/
theorem prepared_of_steps {b₁ b₂ b₃ b₄ : Bytes}
    (hkernel : b.put 0x10000 (0x64 * sectorSize) (fun i => bios.disk (0x06 * sectorSize + i)) = b₁)
    (hshell : b₁.put 0x20000 (0x14 * sectorSize) (fun i => bios.disk (0x6A * sectorSize + i)) = b₂)
    (hmap : memMapAt b₃ = answers.map (fun answer => E820.load answer 0))
    (hmem : ∀ x, x < 0x9000 ∨ 0x10000 ≤ x → b₃ x = b₂ x)
    (ha20 : ∀ x, x < 0x7C00 ∨ 0x7C02 ≤ x → b₄ x = b₃ x)
    (hfits : memoryRegionStructuresBaseAddr + sizeofE820 * answers.length ≤ 2 ^ 16) :
  LoaderMemory bios answers b b₄
  := by
  have hsector : sectorSize = 512 := rfl
  refine ⟨?_, ?_, ?_, ?_⟩
  · rw [← hmap]
    apply memMapAt_congr
    · rw [hmap, List.length_map]
      exact hfits
    · intro x hx _
      exact ha20 x (by omega)
  · intro i hi
    rw [hsector] at hi
    rw [ha20 _ (by omega), hmem _ (by omega), ← hshell,
      Bytes.put_of_outside (by rw [hsector]; omega), ← hkernel]
    exact Bytes.put_inside hi
  · intro i hi
    rw [hsector] at hi
    rw [ha20 _ (by omega), hmem _ (by omega), ← hshell]
    exact Bytes.put_inside hi
  · intro x hx
    rw [ha20 _ (by omega), hmem _ (by omega), ← hshell,
      Bytes.put_of_outside (by rw [hsector]; omega), ← hkernel]
    exact Bytes.put_of_outside (by rw [hsector]; omega)

/-- The loader reaches the kernel when the processor is supported, the sectors can be read and the
A20 line is on, and then the kernel finds what it needs. -/
theorem loader_enters (h : MemoryMapIs bios answers) (hn : answers.length ≤ n)
    (hfits : memoryRegionStructuresBaseAddr + sizeofE820 * answers.length ≤ 2 ^ 16) :
  ((∃ b', loader bios n b = some b')
      ↔ bios.Supported ∧ (∀ i, 6 ≤ i → i < 126 → bios.readable i) ∧ bios.a20)
    ∧ ∀ b', loader bios n b = some b' → Entered bios answers b b'
  := by
  have hrun : ∀ b', loader bios n b = some b' → (bios.Supported
      ∧ (∀ i, 6 ≤ i → i < 126 → bios.readable i) ∧ bios.a20) ∧ Entered bios answers b b' := by
    intro b' hloader
    simp only [loader, Option.bind_eq_bind, Option.bind_eq_some_iff, Option.some.injEq] at hloader
    obtain ⟨_, hprocessor, b₁, hkernel, b₂, hshell, b₃, hmemory, b₄, ha20, rfl⟩ := hloader
    obtain ⟨hreadable, hkernel⟩ := extendedRead_eq_some.mp hkernel
    obtain ⟨hreadable', hshell⟩ := extendedRead_eq_some.mp hshell
    obtain ⟨c₃, hmemory', hmap, hmem⟩ := @getMemoryInfoStart_spec bios n b₂ answers h hn hfits
    obtain rfl : b₃ = c₃ := Option.some.inj (hmemory.symm.trans hmemory')
    have hon : bios.a20 = true := by
      rw [← Bool.not_eq_false]
      intro hoff
      rw [testA20Line_off hoff] at ha20
      cases ha20
    obtain ⟨c₄, ha20', hout⟩ := @testA20Line_on bios b₃ hon
    obtain rfl : b₄ = c₄ := Option.some.inj (ha20.symm.trans ha20')
    refine ⟨⟨checkProcessor_eq_some.mp hprocessor, ?_, hon⟩,
      (prepared_of_steps hkernel hshell hmap hmem hout hfits).entered hfits⟩
    intro i hlo hhi
    by_cases hi : i < 106
    · have hsector := hreadable (i - 6) (by omega)
      rwa [Nat.add_sub_cancel' hlo] at hsector
    · have hsector := hreadable' (i - 106) (by omega)
      rwa [Nat.add_sub_cancel' (by omega)] at hsector
  refine ⟨⟨?_, ?_⟩, fun b' hb => (hrun b' hb).2⟩
  · rintro ⟨b', hb⟩
    exact (hrun b' hb).1
  · rintro ⟨hsupported, hreadable, hon⟩
    have hprocessor : checkProcessor bios = some () := checkProcessor_eq_some.mpr hsupported
    have hkernel := fun b => (@extendedRead_eq_some bios b _ 0x06 0x64 0x10000).mpr
      ⟨fun i hi => hreadable _ (by omega) (by omega), rfl⟩
    have hshell := fun b => (@extendedRead_eq_some bios b _ 0x6A 0x14 0x20000).mpr
      ⟨fun i hi => hreadable _ (by omega) (by omega), rfl⟩
    unfold loader loadKernel loadShell
    simp only [Option.bind_eq_bind]
    rw [hprocessor, Option.bind_some, hkernel, Option.bind_some, hshell, Option.bind_some]
    generalize Bytes.put _ 0x20000 _ _ = b₂
    obtain ⟨b₃, hmemory, -⟩ := @getMemoryInfoStart_spec bios n b₂ answers h hn hfits
    obtain ⟨b₄, ha20, -⟩ := @testA20Line_on bios b₃ hon
    refine ⟨relocateKernel (setupPaging b₄), ?_⟩
    rw [hmemory, Option.bind_some, ha20, Option.bind_some]

/-- When the boot code reaches the kernel, the loader that has run is the one of the disk, and the
kernel finds what it needs. -/
theorem bootCode_entered (h : MemoryMapIs bios answers) (hn : answers.length ≤ n)
    (hfits : memoryRegionStructuresBaseAddr + sizeofE820 * answers.length ≤ 2 ^ 16)
    (hrun : bootCode bios n b = some b') :
  (∃ b₁, bootSector bios b = some b₁ ∧ loader bios n b₁ = some b'
      ∧ ∀ i, i < 21 * sectorSize → b₁ (0x7E00 + i) = bios.disk (1 * sectorSize + i))
    ∧ Entered bios answers b b'
  := by
  have hsector : sectorSize = 512 := rfl
  obtain ⟨b₁, hboot, hload⟩ := Option.bind_eq_some_iff.mp hrun
  obtain ⟨_, _, hput⟩ := bootSector_eq_some.mp hboot
  have hentered := (loader_enters h hn hfits).2 b' hload
  refine ⟨⟨b₁, hboot, hload, ?_⟩, hentered.memMap, hentered.kernel, hentered.shell,
    hentered.translation, ?_⟩
  · intro i hi
    rw [← hput]
    exact Bytes.put_inside hi
  · intro x hx
    rw [hentered.behind x hx, ← hput]
    exact Bytes.put_of_outside (by rw [hsector]; omega)

/-- The boot code reaches the kernel when the disk services are installed and can read the sectors
of the loader, the kernel and the shell, the processor is supported and the A20 line is on. -/
theorem bootCode_runs (h : MemoryMapIs bios answers) (hn : answers.length ≤ n)
    (hfits : memoryRegionStructuresBaseAddr + sizeofE820 * answers.length ≤ 2 ^ 16) :
  (∃ b', bootCode bios n b = some b')
    ↔ bios.extensions ∧ bios.Supported ∧ (∀ i, 1 ≤ i → i < 126 → bios.readable i) ∧ bios.a20
  := by
  have hloader := fun b₁ => (@loader_enters bios n b₁ answers h hn hfits).1
  constructor
  · rintro ⟨b', hrun⟩
    obtain ⟨b₁, hboot, hload⟩ := Option.bind_eq_some_iff.mp hrun
    obtain ⟨hextensions, hfirst, _⟩ := bootSector_eq_some.mp hboot
    obtain ⟨hsupported, hreadable, hon⟩ := (hloader b₁).mp ⟨b', hload⟩
    refine ⟨hextensions, hsupported, fun i hlo hhi => ?_, hon⟩
    by_cases hi : i < 22
    · exact hfirst i hlo hi
    · exact hreadable i (by omega) hhi
  · rintro ⟨hextensions, hsupported, hreadable, hon⟩
    have hboot := (@bootSector_eq_some bios b _).mpr
      ⟨hextensions, fun i hlo hhi => hreadable i hlo (by omega), rfl⟩
    obtain ⟨b', hload⟩ := (hloader _).mpr
      ⟨hsupported, fun i hlo hhi => hreadable i (by omega) hhi, hon⟩
    exact ⟨b', Option.bind_eq_some_iff.mpr ⟨_, hboot, hload⟩⟩

/-- The answer of a BIOS that has 128 MB of memory from the fifth megabyte on. -/
def smallAnswer : Bytes :=
  ((Bytes.write 8 (fun _ => 0) 0 0x400000).write 8 8 (64 * 0x200000)).write 4 16 1

/-- A BIOS with one region of memory, for any disk, on a processor with long mode and pages of one
gigabyte. -/
def smallBios (disk : Bytes) : Bios where
  extensions := true
  maximumFunction := 0x80000008
  features := 0x24000000
  disk := disk
  readable _ := true
  memoryMap _ := some (0, smallAnswer)
  a20 := true

theorem smallBios_memoryMap (disk : Bytes) :
  MemoryMapIs (smallBios disk) [smallAnswer]
  := ⟨0, smallAnswer, [], rfl, .done, rfl⟩

theorem smallBios_supported (disk : Bytes) :
  (smallBios disk).Supported
  where
  maximum := (by decide : (0x80000001 : BitVec 32) ≤ 0x80000008)
  longMode := (by decide : (0x24000000 : BitVec 32).getLsbD 29)
  gigabytePages := (by decide : (0x24000000 : BitVec 32).getLsbD 26)

/-- The boot code runs on the small machine. -/
theorem smallBios_runs (disk : Bytes) :
  ∃ b', bootCode (smallBios disk) 1 (fun _ => 0) = some b'
  := (bootCode_runs (smallBios_memoryMap disk) (by decide) (by decide)).mpr
    ⟨rfl, smallBios_supported disk, fun _ _ _ => rfl, rfl⟩

end LarvaOS
