import LarvaOS.Memory.Regions

/-!
# Usable memory

When the usable regions end below `2 ^ 46`, nothing wraps around in `FreeRegion`, and the
free list that `RetrieveMemoryInfo` makes consists of the pages that lie in one usable
region, above the kernel and below the end of the addresses that the kernel uses.
-/

namespace LarvaOS

variable {image : Image} {m m' : Memory}

/-- The usable regions end at or below the physical address `2 ^ 46`. -/
def LowRegions (memMap : List E820) : Prop :=
  ∀ r ∈ usableRegions memMap, r.address + r.length ≤ 2 ^ 46

/-- The loop of `FreeRegion` that starts at one address reaches another. -/
inductive Visits (vEnd : ℕ) : ℕ → ℕ → Prop
  | start (s : ℕ) : Visits vEnd s s
  | next {s t : ℕ} : (s + pageSize) % 2 ^ 64 ≤ vEnd → Visits vEnd ((s + pageSize) % 2 ^ 64) t →
      Visits vEnd s t

/-- The additions that `RetrieveMemoryInfo` and `FreeRegion` make for a region do not wrap
around. -/
structure NoWrap (image : Image) (r : E820) : Prop where
  address : r.address + kernelVirtualAddressBase < 2 ^ 64
  last : phyToVir r.address + r.length < 2 ^ 64
  align : ∀ s ∈ [phyToVir r.address, image.lKernelEnd], s + pageSize < 2 ^ 64
  loop : ∀ s ∈ [phyToVir r.address, image.lKernelEnd], ∀ t,
    Visits (phyToVir r.address + r.length) (pageAlignUp s) t → t + pageSize < 2 ^ 64

/-- The loop stays below its end and its start. -/
theorem Visits.lt {vEnd s t : ℕ} (h : Visits vEnd s t) (hs : s + pageSize < 2 ^ 64)
    (hend : vEnd + pageSize < 2 ^ 64) :
  t + pageSize < 2 ^ 64
  := by
  induction h with
  | start s => exact hs
  | next hle _ ih =>
      apply ih
      omega

/-- The virtual address of a low region. -/
theorem phyToVir_low {r : E820} (h : r.address + r.length ≤ 2 ^ 46) :
  phyToVir r.address = r.address + kernelVirtualAddressBase
    ∧ r.address + kernelVirtualAddressBase + r.length + 4194304 < 2 ^ 64
  := by
  unfold phyToVir
  rw [kernelVirtualAddressBase_eq]
  omega

theorem NoWrap.of_low {r : E820} (h : r.address + r.length ≤ 2 ^ 46) :
  NoWrap image r
  := by
  obtain ⟨haddress, hlt⟩ := phyToVir_low h
  have hkernel := image.upper
  rw [virtualAddressEnd_eq] at hkernel
  have hsmall : ∀ s ∈ [phyToVir r.address, image.lKernelEnd], s + 4194304 < 2 ^ 64 := by
    intro s hs
    rcases List.mem_pair.mp hs with rfl | rfl
    · rw [haddress]
      omega
    · omega
  constructor
  · omega
  · rw [haddress]
    omega
  · intro s hs
    have hlt' := hsmall s hs
    rw [pageSize_eq]
    omega
  · intro s hs t hvisits
    have hlt' := hsmall s hs
    apply hvisits.lt
    · rw [pageAlignUp_eq, pageSize_eq]
      omega
    · rw [haddress, pageSize_eq]
      omega

/-! ### The loop returns -/

/-- The loop of `FreeRegion` returns, and no assertion of `kfree` fails. -/
theorem freeRegionLoop_total {vEnd fuel start : ℕ} (haligned : start % 2097152 = 0)
    (hlower : image.lKernelEnd ≤ start) (hstart : start + pageSize < 2 ^ 64)
    (hend : vEnd + pageSize < 2 ^ 64) (hfuel : vEnd < start + fuel * pageSize) (hpos : 0 < fuel) :
  ∃ m', freeRegionLoop image vEnd fuel start m = some m'
  := by
  induction fuel generalizing start m with
  | zero => omega
  | succ fuel ih =>
      rw [freeRegionLoop]
      split
      case isFalse => exact ⟨m, rfl⟩
      case isTrue hcond =>
        rw [Nat.mod_eq_of_lt hstart] at hcond ⊢
        obtain ⟨m₁, hrun⟩ : ∃ m₁, freeRegionPage image start m = some m₁ := by
          unfold freeRegionPage
          split
          case isFalse => exact ⟨m, rfl⟩
          case isTrue hupper =>
            unfold kfree
            rw [assert_of (show addrIsAligned start by
              unfold addrIsAligned
              rw [pageSize_eq]
              exact haligned), assert_of hlower, assert_of hupper]
            exact ⟨_, rfl⟩
        rw [hrun, Option.bind_eq_bind, Option.bind_some]
        apply ih
        · rw [pageSize_eq]
          omega
        · omega
        · omega
        · rw [Nat.succ_mul] at hfuel
          omega
        · rw [pageSize_eq] at *
          omega

theorem freeRegion_total {vStart vEnd : ℕ} (hlower : image.lKernelEnd ≤ vStart)
    (hstart : vStart + 4194304 < 2 ^ 64) (hend : vEnd + pageSize < 2 ^ 64) :
  ∃ m', freeRegion image vStart vEnd m = some m'
  := by
  have hup : vStart ≤ pageAlignUp vStart ∧ pageAlignUp vStart < vStart + 2097152 := by
    rw [pageAlignUp_eq]
    omega
  apply freeRegionLoop_total (pageAlignUp_lt vStart).2
  · omega
  · rw [pageSize_eq]
    omega
  · exact hend
  · rw [pageSize_eq] at *
    omega
  · exact Nat.succ_pos _

/-- `RetrieveMemoryInfo` frees the usable regions without failing. -/
theorem freeUsables_total {regions : List E820}
    (hlow : ∀ r ∈ regions, r.address + r.length ≤ 2 ^ 46) :
  ∃ m', freeUsables image regions m = some m'
  := by
  induction regions generalizing m with
  | nil => exact ⟨m, rfl⟩
  | cons r regions ih =>
      obtain ⟨haddress, hlt⟩ := phyToVir_low (hlow r List.mem_cons_self)
      have hkernel := image.upper
      rw [virtualAddressEnd_eq] at hkernel
      have hend : (phyToVir r.address + r.length) % 2 ^ 64 = phyToVir r.address + r.length := by
        rw [haddress]
        omega
      obtain ⟨m₁, hrun⟩ : ∃ m₁, freeUsable image r m = some m₁ := by
        unfold freeUsable
        dsimp only
        rw [hend]
        split
        case isTrue habove =>
          apply freeRegion_total habove.le
          · rw [haddress]
            omega
          · rw [haddress, pageSize_eq]
            omega
        case isFalse =>
          split
          case isTrue =>
            apply freeRegion_total le_rfl
            · omega
            · rw [haddress, pageSize_eq]
              omega
          case isFalse => exact ⟨m, rfl⟩
      obtain ⟨m', hrun'⟩ := @ih m₁ (fun r' hr' => hlow r' (List.mem_cons_of_mem r hr'))
      use m'
      rw [freeUsables, hrun]
      exact hrun'

/-! ### The free list -/

/-- The pages of a low region. -/
theorem yields_low {r : E820} {p : ℕ} (h : r.address + r.length ≤ 2 ^ 46) :
  Yields image r p ↔ (addrIsAligned p ∧ image.lKernelEnd ≤ p ∧ p + pageSize ≤ virtualAddressEnd)
    ∧ phyToVir r.address ≤ p ∧ p + pageSize ≤ phyToVir r.address + r.length
  := by
  obtain ⟨haddress, hlt⟩ := phyToVir_low h
  have hend : (phyToVir r.address + r.length) % 2 ^ 64 = phyToVir r.address + r.length := by
    rw [haddress]
    omega
  constructor
  · rintro ⟨hpage, hlo, hhi⟩
    rw [hend] at hhi
    have htop : ¬ (p = pageAlignUp (phyToVir r.address) ∧ p + pageSize = 2 ^ 64) := by
      rintro ⟨hp, htop⟩
      rw [pageAlignUp_eq] at hp
      rw [pageSize_eq] at htop
      omega
    have hle := hhi.resolve_right htop
    have hupper := hpage.upper
    rw [Nat.mod_eq_of_lt (by omega)] at hupper
    exact ⟨⟨hpage.aligned, hpage.lower, hupper⟩, hlo, hle⟩
  · rintro ⟨⟨haligned, hlower, hupper⟩, hlo, hhi⟩
    have hword : p + pageSize < 2 ^ 64 := by omega
    refine ⟨⟨haligned, hlower, ?_, by omega⟩, hlo, Or.inl (by rw [hend]; exact hhi)⟩
    rwa [Nat.mod_eq_of_lt hword]

/-- `RetrieveMemoryInfo` returns, and the free list contains, once each, the pages that lie
in one usable region, above the kernel and below the end of its addresses; and no addition
wraps around. -/
theorem retrieveMemoryInfo_exact {memMap : List E820}
    (hlength : memMap.length < memoryMaxFreeRegions) (hmap : DisjointRegions memMap)
    (hlow : LowRegions memMap) (hhead : m.freePageHead = 0) :
  ∃ m' ys, retrieveMemoryInfo image memMap m = some m' ∧ FreeList m'.bytes m'.freePageHead ys
    ∧ ys.Nodup
    ∧ (∀ p, p ∈ ys ↔
        (addrIsAligned p ∧ image.lKernelEnd ≤ p ∧ p + pageSize ≤ virtualAddressEnd)
          ∧ ∃ r ∈ usableRegions memMap,
              phyToVir r.address ≤ p ∧ p + pageSize ≤ phyToVir r.address + r.length)
    ∧ ∀ r ∈ usableRegions memMap, NoWrap image r
  := by
  obtain ⟨m₁, hrun⟩ := @freeUsables_total image { m with totalMem := (m.totalMem
    + ((usableRegions memMap).map E820.length).sum) % 2 ^ 64 } _ hlow
  have hrun' := retrieveMemoryInfo_eq hlength hrun
  obtain ⟨ys, hys, _, hmem, _⟩ := retrieveMemoryInfo_yields hhead hmap hrun'
  refine ⟨_, ys, hrun', hys.list, hys.nodup, ?_, fun r hr => NoWrap.of_low (hlow r hr)⟩
  intro p
  rw [hmem]
  constructor
  · rintro ⟨r, hr, hyields⟩
    obtain ⟨hpage, hin⟩ := (yields_low (hlow r hr)).mp hyields
    exact ⟨hpage, r, hr, hin⟩
  · rintro ⟨hpage, r, hr, hin⟩
    exact ⟨r, hr, (yields_low (hlow r hr)).mpr ⟨hpage, hin⟩⟩

/-- A usable region of four megabytes. -/
def lowRegion : E820 where
  address := 0x400000
  length := 0x400000
  type := memoryRegionUsableRamType
  address_lt := by decide
  length_lt := by decide

/-- A memory map with one usable region. -/
theorem retrieveMemoryInfo_exact_small :
  ∃ m' ys, retrieveMemoryInfo smallImage [lowRegion] emptyMemory = some m'
    ∧ FreeList m'.bytes m'.freePageHead ys ∧ kernelVirtualAddressBase + 0x400000 ∈ ys
  := by
  have husable : usableRegions [lowRegion] = [lowRegion] := rfl
  obtain ⟨m', ys, hrun, hlist, _, hmem, _⟩ := @retrieveMemoryInfo_exact smallImage emptyMemory
    [lowRegion] (by decide) (List.pairwise_singleton _ _)
    (by
      unfold LowRegions
      rw [husable]
      intro r hr
      rw [List.mem_singleton.mp hr]
      decide) rfl
  have hstart : phyToVir lowRegion.address = kernelVirtualAddressBase + 0x400000 := by
    have haddress : lowRegion.address = 0x400000 := rfl
    unfold phyToVir
    rw [haddress, kernelVirtualAddressBase_eq]
    norm_num
  refine ⟨m', ys, hrun, hlist, (hmem _).mpr ⟨⟨?_, ?_, ?_⟩, lowRegion, by simp [husable], ?_, ?_⟩⟩
  · unfold addrIsAligned
    rw [pageSize_eq, kernelVirtualAddressBase_eq]
  · exact Nat.add_le_add_left (by decide) _
  · rw [pageSize_eq, virtualAddressEnd_eq, kernelVirtualAddressBase_eq]
    decide
  · exact hstart.le
  · rw [hstart, pageSize_eq]
    exact Nat.add_le_add_left (by decide) _

end LarvaOS
