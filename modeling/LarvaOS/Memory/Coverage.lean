import LarvaOS.Memory.Regions
import LarvaOS.Memory.Translation

/-!
# The end of free memory

`RetrieveMemoryInfo` takes the end of the page that it freed last for the end of free
memory, and `SetupKVM` maps the kernel's memory up to there.  This covers the free list
when the last region of the memory map that yields a page lies above the others.
-/

namespace LarvaOS

variable {image : Image} {m m' : Memory}

/-! ### The kernel map -/

/-- The kernel map translates the addresses up to the end of free memory. -/
theorem KernelSpace.walk_eq {n v map pdpt pd : ℕ} (h : KernelSpace m n map pdpt pd)
    (hn : n ≤ totalTableEntries) (hmap : IsPage image map) (hpdpt : IsPage image pdpt)
    (hpd : IsPage image pd) (hlo : kernelVirtualAddressBase ≤ v)
    (hhi : v < kernelVirtualAddressBase + n * pageSize) :
  walk m (virToPhy map) v = some ⟨virToPhy v, true, false⟩
  := by
  have hn' : n ≤ 512 := hn
  obtain ⟨hsize, hwrite, huse⟩ := testBit_kernelAttributes
  rw [kernelVirtualAddressBase_eq] at hlo hhi
  rw [pageSize_eq] at hhi
  have hc : Canonical v := by
    unfold Canonical
    omega
  have hphys : 0 + (v / 2 ^ 21 % 512 - 0) * 2097152 + v % 2 ^ 21 = virToPhy v := by
    rw [virToPhy_of_kernel (by rw [kernelVirtualAddressBase_eq]; omega) (by omega),
      kernelVirtualAddressBase_eq]
    omega
  have hindex : v / 2 ^ (21 + 9 * 2) % 512 = 256 := by omega
  have hentry := h.mapTable.entry_index hmap (v := v) (k := 21 + 9 * 2)
  rw [hindex, kernelMapEntries, singleEntry, Function.update_self] at hentry
  rw [walk_map hmap hc, walkTable_link hpdpt kernelAttributes_isAttribute hsize hentry, hwrite,
    huse, walkTable_pointer hpdpt hpd kernelAttributes_isAttribute hsize h.pdptTable,
    if_pos (by omega),
    walkTable_directory hpd kernelAttributes_isAttribute (by omega) (by omega) h.pdTable,
    if_pos (by omega), hwrite, huse, hphys]
  rfl

/-! ### The highest page -/

/-- The last region that yields a page is determined by the list of the regions. -/
theorem LastPage.unique {regions : List E820} {p q : ℕ} (h : LastPage image regions p)
    (h' : LastPage image regions q) :
  p = q
  := by
  obtain ⟨before, r, after, rfl, hp, hmax, hafter⟩ := h.exists_region
  obtain ⟨before', r', after', heq, hq, hmax', hafter'⟩ := h'.exists_region
  rcases List.append_eq_append_iff.mp heq with ⟨rest, _, hrest⟩ | ⟨rest, _, hrest⟩
  · cases rest with
    | nil =>
        obtain ⟨rfl, _⟩ := List.cons.inj hrest
        exact le_antisymm (hmax' p hp) (hmax q hq)
    | cons x rest =>
        obtain ⟨_, rfl⟩ := List.cons.inj hrest
        exact (hafter r' (by simp) q hq).elim
  · cases rest with
    | nil =>
        obtain ⟨rfl, _⟩ := List.cons.inj hrest
        exact le_antisymm (hmax' p hp) (hmax q hq)
    | cons x rest =>
        obtain ⟨_, rfl⟩ := List.cons.inj hrest
        exact (hafter' r (by simp) p hp).elim

/-- The highest page of the last region that yields a page is the highest page of all
regions, and not the last page of the address space. -/
structure EndsHighest (image : Image) (memMap : List E820) (top : ℕ) : Prop where
  last : LastPage image (usableRegions memMap) top
  word : top + pageSize < 2 ^ 64
  highest : ∀ r ∈ usableRegions memMap, ∀ p, Yields image r p → p ≤ top

/-- The pages of the free list end below the end of free memory if and only if the regions
end with the highest one. -/
theorem forall_end_le_iff {memMap : List E820} {p : ℕ} {ys : List ℕ}
    (hfree : Free image m' (p :: ys))
    (hend : m'.freeMemoryEndAddress = (m'.freePageHead + pageSize) % 2 ^ 64)
    (hmem : ∀ q, q ∈ p :: ys ↔ ∃ r ∈ usableRegions memMap, Yields image r q)
    (hlast : LastPage image (usableRegions memMap) p) :
  (∀ q ∈ p :: ys, q + pageSize ≤ m'.freeMemoryEndAddress) ↔ ∃ top, EndsHighest image memMap top
  := by
  have hhead : m'.freePageHead = p := hfree.list.1
  rw [hend, hhead]
  constructor
  · intro h
    have hp := h p List.mem_cons_self
    have hword : p + pageSize < 2 ^ 64 := hp.trans_lt (Nat.mod_lt _ (Nat.two_pow_pos 64))
    refine ⟨p, hlast, hword, ?_⟩
    intro r hr q hq
    have hle := h q ((hmem q).mpr ⟨r, hr, hq⟩)
    rw [Nat.mod_eq_of_lt hword] at hle
    omega
  · rintro ⟨top, htop⟩ q hq
    obtain rfl := hlast.unique htop.last
    obtain ⟨r, hr, hyields⟩ := (hmem q).mp hq
    rw [Nat.mod_eq_of_lt htop.word]
    exact Nat.add_le_add_right (htop.highest r hr q hyields) pageSize

/-- The end of the page in front of a free list is the end of a kernel map. -/
theorem KernelEnd.of_page {p : ℕ} (hp : IsPage image p)
    (hend : m.freeMemoryEndAddress = p + pageSize) (hword : p + pageSize < 2 ^ 64) :
  ∃ n, KernelEnd m n
  := by
  have hlower := hp.kernel
  have hupper := hp.upper
  have haligned : p % pageSize = 0 := hp.aligned
  have hentries : totalTableEntries = 512 := rfl
  rw [Nat.mod_eq_of_lt hword, virtualAddressEnd_eq] at hupper
  rw [kernelVirtualAddressBase_eq] at hlower
  rw [pageSize_eq] at *
  refine ⟨(p + 2097152 - kernelVirtualAddressBase) / 2097152, ?_, ?_, ?_⟩
  · rw [hend, kernelVirtualAddressBase_eq, pageSize_eq]
    omega
  · rw [kernelVirtualAddressBase_eq]
    omega
  · rw [kernelVirtualAddressBase_eq, hentries]
    omega

/-- A kernel map covers the kernel's memory up to the end of free memory. -/
theorem setupKVM_covers {n map v : ℕ} {xs : List ℕ} (hend : KernelEnd m n)
    (hfree : Free image m xs) (hrun : setupKVM image m = some (map, m')) (hmap : map ≠ 0)
    (hlo : kernelVirtualAddressBase ≤ v) (hhi : v < m.freeMemoryEndAddress) :
  walk m' (virToPhy map) v = some ⟨virToPhy v, true, false⟩
  := by
  by_cases hlen : xs.length < 3
  · obtain ⟨_, _, hfail, _⟩ := setupKVM_fail hend hfree hlen
    obtain ⟨rfl, _⟩ := Prod.mk.inj (Option.some.inj (hrun.symm.trans hfail))
    exact absurd rfl hmap
  · match xs, hlen with
    | a :: b :: c :: xs, _ =>
        obtain ⟨m₁, hrun₁, _, _, hspace⟩ := setupKVM_cons hend hfree
        obtain ⟨rfl, rfl⟩ := Prod.mk.inj (Option.some.inj (hrun.symm.trans hrun₁))
        apply hspace.walk_eq hend.le
        · exact hfree.isPage map (by simp)
        · exact hfree.isPage b (by simp)
        · exact hfree.isPage c (by simp)
        · exact hlo
        · exact hend.address ▸ hhi
    | [], h => exact absurd (Nat.zero_lt_succ 2) h
    | [_], h => exact absurd (Nat.succ_lt_succ (Nat.zero_lt_succ 1)) h
    | [_, _], h => exact absurd (Nat.lt_succ_self 2) h

/-- Memory that `kalloc` can return lies below the end of free memory if and only if the
highest page of the last region that yields a page is the highest of all; then every
address of it is mapped by the kernel map of every process. -/
theorem freeMemoryEnd_covers {memMap : List E820} (hhead : m.freePageHead = 0) (hmap : DisjointRegions memMap)
    (hrun : retrieveMemoryInfo image memMap m = some m') :
  ∃ ys, Free image m' ys ∧ (ys ≠ [] →
    ((∀ p ∈ ys, p + pageSize ≤ m'.freeMemoryEndAddress) ↔ ∃ top, EndsHighest image memMap top)
    ∧ ((∃ top, EndsHighest image memMap top) →
        ∀ (m₁ m₂ : Memory) (xs : List ℕ) (map : ℕ), Free image m₁ xs →
          m₁.freeMemoryEndAddress = m'.freeMemoryEndAddress →
          setupKVM image m₁ = some (map, m₂) → map ≠ 0 →
          ∀ p ∈ ys, ∀ v, InPage p v → walk m₂ (virToPhy map) v = some ⟨virToPhy v, true, false⟩))
  := by
  obtain ⟨ys, hys, hend, hmem, hlast⟩ := retrieveMemoryInfo_yields hhead hmap hrun
  refine ⟨ys, hys, ?_⟩
  intro hne
  obtain ⟨p, ys, rfl⟩ := List.exists_cons_of_ne_nil hne
  have hiff := forall_end_le_iff hys hend hmem (hlast p rfl)
  refine ⟨hiff, ?_⟩
  intro hhighest m₁ m₂ xs map hfree hsame hsetup hzero q hq v hv
  have hle := hiff.mpr hhighest
  have hp := hle p List.mem_cons_self
  have hhead' : m'.freePageHead = p := hys.list.1
  have hword : p + pageSize < 2 ^ 64 := by
    rw [hend] at hp
    exact hp.trans_lt (Nat.mod_lt _ (Nat.two_pow_pos 64))
  rw [hhead', Nat.mod_eq_of_lt hword] at hend
  obtain ⟨n, hn⟩ := KernelEnd.of_page (hys.isPage p List.mem_cons_self) (hsame.trans hend) hword
  apply setupKVM_covers hn hfree hsetup hzero
  · have hlower := (hys.isPage q hq).kernel
    exact (Nat.le_of_add_right_le hlower).trans hv.1
  · rw [hsame]
    exact hv.2.trans_le (hle q hq)

/-! ### Two regions of one page -/

/-- Regions of whole pages that do not overlap are disjoint. -/
theorem E820.pages_disjoint {start start' : ℕ} {n n' : Fin (2 ^ 43)}
    (hlo : kernelVirtualAddressBase ≤ start) (hle : start + n * pageSize ≤ start')
    (hhi : start' + n' * pageSize ≤ virtualAddressEnd) (a : ℕ) (ha : a < 2 ^ 64) :
  ¬ ((E820.pages start n).Contains a ∧ (E820.pages start' n').Contains a)
  := by
  rintro ⟨h, h'⟩
  unfold E820.Contains E820.pages at h h'
  dsimp only at h h'
  rw [virtualAddressEnd_eq] at hhi
  rw [kernelVirtualAddressBase_eq] at hlo
  rw [virToPhy_of_kernel (by rw [kernelVirtualAddressBase_eq]; omega) (by omega),
    kernelVirtualAddressBase_eq, pageSize_eq] at h h'
  rw [pageSize_eq] at hle hhi
  omega

/-- Two pages above the small image. -/
def lowPage : ℕ := kernelVirtualAddressBase + 0x400000

def highPage : ℕ := kernelVirtualAddressBase + 0x800000

attribute [irreducible] lowPage highPage

/-- The memory map with two regions of one page. -/
def twoRegions (p q : ℕ) : List E820 := [E820.pages p 1, E820.pages q 1]

/-- A region of one page above the small image adds this page to the free list. -/
theorem freeUsable_page {p : ℕ} {xs : List ℕ} (hfree : Free smallImage m xs)
    (hp : p = lowPage ∨ p = highPage) (hmem : p ∉ xs) :
  ∃ m', freeUsable smallImage (E820.pages p 1) m = some m' ∧ Free smallImage m' (p :: xs)
  := by
  have haligned : p % 2097152 = 0 := by
    unfold lowPage highPage at hp
    rw [kernelVirtualAddressBase_eq] at hp
    omega
  have hn : (1 : Fin (2 ^ 43)).val = 1 := rfl
  have hlower : smallImage.lKernelEnd < p := by
    unfold lowPage highPage at hp
    unfold smallImage
    dsimp only
    omega
  have hupper : p + (1 : Fin (2 ^ 43)) * pageSize ≤ virtualAddressEnd := by
    unfold lowPage highPage at hp
    rw [hn, pageSize_eq, virtualAddressEnd_eq]
    rw [kernelVirtualAddressBase_eq] at hp
    omega
  obtain ⟨m', hrun, hfree'⟩ := freeUsable_pages hfree haligned hlower hupper (by
    intro q hq
    have hne : q ≠ p := fun h => hmem (h ▸ hq)
    have haligned' : q % pageSize = 0 := (hfree.isPage q hq).aligned
    rw [hn]
    rw [pageSize_eq] at *
    omega)
  have hpages : regionPages p (1 : Fin (2 ^ 43)) = [p] := by
    rw [hn, regionPages_succ]
    simp [regionPages]
  rw [hpages] at hfree'
  exact ⟨m', hrun, hfree'⟩

theorem usableRegions_two (p q : ℕ) :
  usableRegions (twoRegions p q) = twoRegions p q
  := by
  have hp : (E820.pages p 1).type = memoryRegionUsableRamType := rfl
  have hq : (E820.pages q 1).type = memoryRegionUsableRamType := rfl
  simp [usableRegions, twoRegions, hp, hq]

theorem length_twoRegions (p q : ℕ) :
  (twoRegions p q).length < memoryMaxFreeRegions
  := by
  rw [twoRegions, List.length_cons, List.length_singleton]
  decide

/-- The free list, and the end of free memory, with two regions of one page. -/
theorem retrieveMemoryInfo_two {p q : ℕ} (hp : p = lowPage ∨ p = highPage)
    (hq : q = lowPage ∨ q = highPage) (hne : q ≠ p) :
  ∃ m', retrieveMemoryInfo smallImage (twoRegions p q) emptyMemory = some m'
    ∧ Free smallImage m' [q, p] ∧ m'.freeMemoryEndAddress = q + pageSize
  := by
  have hinitial : Free smallImage { emptyMemory with totalMem := (emptyMemory.totalMem
      + ((usableRegions (twoRegions p q)).map E820.length).sum) % 2 ^ 64 } [] := Free.initial rfl
  obtain ⟨m₁, hrun₁, hfree₁⟩ := freeUsable_page hinitial hp List.not_mem_nil
  obtain ⟨m₂, hrun₂, hfree₂⟩ := freeUsable_page hfree₁ hq (by simpa using hne)
  have hlist : freeUsables smallImage (usableRegions (twoRegions p q)) { emptyMemory with
      totalMem := (emptyMemory.totalMem
        + ((usableRegions (twoRegions p q)).map E820.length).sum) % 2 ^ 64 } = some m₂ := by
    generalize { emptyMemory with totalMem := (emptyMemory.totalMem
      + ((usableRegions (twoRegions p q)).map E820.length).sum) % 2 ^ 64 } = m at hrun₁
    rw [usableRegions_two, twoRegions, freeUsables, hrun₁, Option.bind_eq_bind, Option.bind_some,
      freeUsables, hrun₂, Option.bind_eq_bind, Option.bind_some, freeUsables]
  refine ⟨_, retrieveMemoryInfo_eq (length_twoRegions p q) hlist,
    ⟨hfree₂.list, hfree₂.isPage, hfree₂.nodup⟩, ?_⟩
  have hhead : m₂.freePageHead = q := hfree₂.list.1
  dsimp only
  rw [hhead, Nat.mod_eq_of_lt]
  unfold lowPage highPage at hq
  rw [kernelVirtualAddressBase_eq] at hq
  rw [pageSize_eq]
  omega

theorem twoRegions_disjoint {p q : ℕ}
    (hpq : p = lowPage ∧ q = highPage ∨ p = highPage ∧ q = lowPage) :
  DisjointRegions (twoRegions p q)
  := by
  have hn : (1 : Fin (2 ^ 43)).val = 1 := rfl
  have hdisj := @E820.pages_disjoint lowPage highPage 1 1
    (by
      unfold lowPage
      exact Nat.le_add_right _ _)
    (by
      unfold lowPage highPage
      rw [hn, pageSize_eq]
      omega)
    (by
      unfold highPage
      rw [hn, pageSize_eq, virtualAddressEnd_eq, kernelVirtualAddressBase_eq]
      omega)
  unfold DisjointRegions
  rw [usableRegions_two]
  apply List.pairwise_pair.mpr
  rcases hpq with ⟨rfl, rfl⟩ | ⟨rfl, rfl⟩
  · exact hdisj
  · exact fun a ha h => hdisj a ha h.symm

/-- When the lower region comes second, the page of the higher region does not lie below
the end of free memory. -/
theorem freeMemoryEnd_descending :
  (twoRegions highPage lowPage).length < memoryMaxFreeRegions
    ∧ DisjointRegions (twoRegions highPage lowPage)
    ∧ ∃ m', retrieveMemoryInfo smallImage (twoRegions highPage lowPage) emptyMemory = some m'
      ∧ Free smallImage m' [lowPage, highPage]
      ∧ ¬ highPage + pageSize ≤ m'.freeMemoryEndAddress
  := by
  obtain ⟨m', hrun, hfree, hend⟩ := retrieveMemoryInfo_two (Or.inr rfl) (Or.inl rfl)
    (show lowPage ≠ highPage by unfold lowPage highPage; omega)
  refine ⟨length_twoRegions _ _, twoRegions_disjoint (Or.inr ⟨rfl, rfl⟩), m', hrun, hfree, ?_⟩
  rw [hend]
  unfold lowPage highPage
  omega

/-- When the higher region comes second, both pages lie below the end of free memory. -/
theorem freeMemoryEnd_ascending :
  ∃ m', retrieveMemoryInfo smallImage (twoRegions lowPage highPage) emptyMemory = some m'
    ∧ ∃ top, EndsHighest smallImage (twoRegions lowPage highPage) top
  := by
  obtain ⟨m', hrun, hfree, hend⟩ := retrieveMemoryInfo_two (Or.inl rfl) (Or.inr rfl)
    (show highPage ≠ lowPage by unfold lowPage highPage; omega)
  refine ⟨m', hrun, ?_⟩
  obtain ⟨ys, hys, hcovers⟩ := freeMemoryEnd_covers rfl (twoRegions_disjoint (Or.inl ⟨rfl, rfl⟩)) hrun
  obtain rfl := hys.unique hfree
  apply (hcovers (by simp)).1.mp
  intro p hp
  rw [hend]
  rcases List.mem_cons.mp hp with rfl | hp
  · exact le_rfl
  · obtain rfl := List.mem_singleton.mp hp
    apply Nat.add_le_add_right
    unfold lowPage highPage
    omega

end LarvaOS
