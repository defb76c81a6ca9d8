import LarvaOS.Memory.Setup

/-!
# The initial free list

`RetrieveMemoryInfo` collects the usable regions of the memory map that the loader got
from the BIOS, and frees the pages inside them, as far as they lie above the kernel and
below the end of the addresses the kernel uses.  When the usable regions are disjoint, no
page is freed twice.
-/

namespace LarvaOS

/-- An entry `E820` of the memory map. -/
structure E820 where
  address : ℕ
  length : ℕ
  type : ℕ
  address_lt : address < 2 ^ 64
  length_lt : length < 2 ^ 64

/-- `MEMORY_REGION_USABLE_RAM_TYPE`. -/
def memoryRegionUsableRamType : ℕ := 1

/-- `MEMORY_MAX_FREE_REGIONS`. -/
def memoryMaxFreeRegions : ℕ := 50

variable (image : Image)

/-- The body of the loop of `FreeRegion`. -/
def freeRegionPage (start : ℕ) (m : Memory) : Option Memory :=
  if (start + pageSize) % 2 ^ 64 ≤ virtualAddressEnd then kfree image start m else some m

/-- The loop of `FreeRegion`; an address space has `2 ^ 43` pages. -/
def freeRegionLoop (vEnd : ℕ) : ℕ → ℕ → Memory → Option Memory
  | 0, _, _ => none
  | n + 1, start, m =>
      if (start + pageSize) % 2 ^ 64 ≤ vEnd then do
        let m ← freeRegionPage image start m
        freeRegionLoop vEnd n ((start + pageSize) % 2 ^ 64) m
      else
        some m

/-- `FreeRegion`. -/
def freeRegion (vStart vEnd : ℕ) (m : Memory) : Option Memory :=
  freeRegionLoop image vEnd (2 ^ 43 + 1) (pageAlignUp vStart) m

/-- The body of the loop of `RetrieveMemoryInfo` over the usable regions. -/
def freeUsable (r : E820) (m : Memory) : Option Memory :=
  let vStart := phyToVir r.address
  let vEnd := (vStart + r.length) % 2 ^ 64
  if image.lKernelEnd < vStart then
    freeRegion image vStart vEnd m
  else if image.lKernelEnd < vEnd then
    freeRegion image image.lKernelEnd vEnd m
  else
    some m

/-- The loop of `RetrieveMemoryInfo` over the usable regions. -/
def freeUsables : List E820 → Memory → Option Memory
  | [], m => some m
  | r :: rs, m => do
      let m ← freeUsable image r m
      freeUsables rs m

/-- The usable regions of a memory map. -/
def usableRegions (memMap : List E820) : List E820 :=
  memMap.filter (fun r => r.type = memoryRegionUsableRamType)

/-- `RetrieveMemoryInfo`, without the messages it prints. -/
def retrieveMemoryInfo (memMap : List E820) (m : Memory) : Option Memory := do
  assert (memMap.length < memoryMaxFreeRegions)
  let regions := usableRegions memMap
  let total := (m.totalMem + (regions.map E820.length).sum) % 2 ^ 64
  let m ← freeUsables image regions { m with totalMem := total }
  some { m with freeMemoryEndAddress := (m.freePageHead + pageSize) % 2 ^ 64 }

/-! ### The pages of a region -/

/-- The region contains the physical address; it may wrap around the end of the
address space. -/
def E820.Contains (r : E820) (a : ℕ) : Prop := (a + 2 ^ 64 - r.address) % 2 ^ 64 < r.length

/-- The usable regions of a memory map are disjoint. -/
def DisjointRegions (memMap : List E820) : Prop :=
  (usableRegions memMap).Pairwise (fun r r' => ∀ a, a < 2 ^ 64 → ¬ (r.Contains a ∧ r'.Contains a))

variable {image} {m m' : Memory} {xs : List ℕ}

/-- What `kfree` frees is a page. -/
theorem isPage_of_kfree {p : ℕ} (hp : p < 2 ^ 64) (h : kfree image p m = some m') :
  IsPage image p
  := by
  unfold kfree at h
  simp only [Option.bind_eq_bind, assert_bind_eq_some] at h
  exact ⟨h.1, h.2.1, h.2.2.1, hp⟩

/-- The pages that the loop of `FreeRegion` frees from `start` on. -/
def InRegion (start vEnd p : ℕ) : Prop := start ≤ p ∧ (p + pageSize ≤ vEnd ∨ vEnd < pageSize)

/-- At the address zero the loop of `FreeRegion` frees nothing. -/
theorem freeRegionLoop_zero {vEnd n : ℕ} (h : freeRegionLoop image vEnd n 0 m = some m') :
  m' = m ∧ vEnd < pageSize
  := by
  cases n with
  | zero => cases h
  | succ n =>
      rw [freeRegionLoop] at h
      have hmod : (0 + pageSize) % 2 ^ 64 = pageSize := by
        rw [pageSize_eq]
        omega
      have hsmall : (0 + pageSize) % 2 ^ 64 ≤ virtualAddressEnd := by
        rw [pageSize_eq, virtualAddressEnd_eq]
        omega
      split at h
      · obtain ⟨m₁, hfree, _⟩ := Option.bind_eq_some_iff.mp h
        rw [freeRegionPage, if_pos hsmall] at hfree
        have hpage := isPage_of_kfree (by omega) hfree
        exact absurd rfl hpage.ne_zero
      · use (Option.some.inj h).symm
        omega

/-- The body of the loop of `FreeRegion` frees the page it is at, when the allocator
accepts it. -/
theorem freeRegionPage_spec {start : ℕ} (hfree : Free image m xs) (hlt : start < 2 ^ 64)
    (hmem : start ∉ xs) (hrun : freeRegionPage image start m = some m') :
  ∃ zs, Free image m' (zs ++ xs) ∧ (∀ p, p ∈ zs ↔ p = start ∧ IsPage image p)
    ∧ zs.Pairwise (· > ·)
  := by
  unfold freeRegionPage at hrun
  split at hrun
  case isTrue =>
    have hpage := isPage_of_kfree hlt hrun
    obtain ⟨m₂, hrun₂, hfree₂, _⟩ := hfree.kfree hpage hmem
    obtain rfl := Option.some.inj (hrun.symm.trans hrun₂)
    refine ⟨[start], hfree₂, ?_, List.pairwise_singleton _ _⟩
    intro p
    rw [List.mem_singleton]
    constructor
    · rintro rfl
      exact ⟨rfl, hpage⟩
    · exact And.left
  case isFalse hupper =>
    obtain rfl := Option.some.inj hrun
    refine ⟨[], hfree, ?_, List.Pairwise.nil⟩
    intro p
    constructor
    · exact fun h => (List.not_mem_nil h).elim
    · rintro ⟨rfl, hpage⟩
      exact (hupper hpage.upper).elim

/-- The pages that `FreeRegion` frees when it returns: the pages of the allocator that lie
between the two addresses, and the last page of the address space if the loop starts
there. -/
structure Freed (image : Image) (vStart vEnd p : ℕ) : Prop where
  isPage : IsPage image p
  lower : vStart ≤ p
  upper : p + pageSize ≤ vEnd ∨ p = pageAlignUp vStart ∧ p + pageSize = 2 ^ 64

theorem pageAlignUp_of_aligned {v : ℕ} (hv : v < 2 ^ 64) (h : v % 2097152 = 0) :
  pageAlignUp v = v
  := by
  rw [pageAlignUp_eq]
  omega

/-- The loop of `FreeRegion` frees the pages of the region, from the lowest on. -/
theorem freeRegionLoop_spec {vEnd n start : ℕ} (hfree : Free image m xs)
    (hlt : start < 2 ^ 64) (haligned : start % 2097152 = 0)
    (hdisj : ∀ p ∈ xs, ¬ InRegion start vEnd p)
    (hrun : freeRegionLoop image vEnd n start m = some m') :
  ∃ ys, Free image m' (ys ++ xs) ∧ (∀ p ∈ ys, InRegion start vEnd p)
    ∧ (∀ p, p ∈ ys ↔ Freed image start vEnd p) ∧ ys.Pairwise (· > ·)
  := by
  induction n generalizing start m xs with
  | zero => cases hrun
  | succ n ih =>
      have halign := pageAlignUp_of_aligned hlt haligned
      rw [freeRegionLoop] at hrun
      split at hrun
      case isFalse hcond =>
        obtain rfl := Option.some.inj hrun
        refine ⟨[], hfree, by simp, ?_, List.Pairwise.nil⟩
        intro p
        constructor
        · exact fun h => (List.not_mem_nil h).elim
        · rintro ⟨_, hlo, hhi⟩
          rw [pageSize_eq] at *
          omega
      case isTrue hcond =>
        obtain ⟨m₁, hrun₁, hrun₂⟩ := Option.bind_eq_some_iff.mp hrun
        have hin : InRegion start vEnd start := by
          use le_refl start
          by_cases hwrap : start + pageSize = 2 ^ 64
          · rw [hwrap, Nat.mod_self] at hrun₂
            apply Or.inr (freeRegionLoop_zero hrun₂).2
          · left
            rw [pageSize_eq] at *
            omega
        have hmem : start ∉ xs := fun hmem => hdisj start hmem hin
        obtain ⟨zs, hzs, hstart, hsorted⟩ := freeRegionPage_spec hfree hlt hmem hrun₁
        by_cases hwrap : start + pageSize = 2 ^ 64
        · rw [hwrap, Nat.mod_self] at hrun₂
          obtain ⟨rfl, hsmall⟩ := freeRegionLoop_zero hrun₂
          refine ⟨zs, hzs, fun p hp => ((hstart p).mp hp).1 ▸ hin, ?_, hsorted⟩
          intro p
          rw [hstart]
          constructor
          · rintro ⟨rfl, hpage⟩
            exact ⟨hpage, le_rfl, Or.inr ⟨halign.symm, hwrap⟩⟩
          · rintro ⟨hpage, _, hhi | ⟨hp, _⟩⟩
            · rw [pageSize_eq] at *
              omega
            · exact ⟨hp.trans halign, hpage⟩
        · have hnext : (start + pageSize) % 2 ^ 64 = start + pageSize := by
            rw [pageSize_eq] at *
            omega
          rw [hnext] at hrun₂
          have hdisj' : ∀ p ∈ zs ++ xs, ¬ InRegion (start + pageSize) vEnd p := by
            rintro p hp ⟨hlo, hhi⟩
            rcases List.mem_append.mp hp with hp | hp
            · rw [((hstart p).mp hp).1, pageSize_eq] at hlo
              omega
            · apply hdisj p hp
              exact ⟨by omega, hhi⟩
          have hlt' : start + pageSize < 2 ^ 64 := by
            rw [pageSize_eq] at *
            omega
          have haligned' : (start + pageSize) % 2097152 = 0 := by
            rw [pageSize_eq]
            omega
          obtain ⟨ys, hys, hregion, hfreed, hsorted'⟩ := ih hzs hlt' haligned' hdisj' hrun₂
          refine ⟨ys ++ zs, by rwa [List.append_assoc], ?_, ?_, ?_⟩
          · intro p hp
            rcases List.mem_append.mp hp with hp | hp
            · obtain ⟨hlo, hhi⟩ := hregion p hp
              exact ⟨by omega, hhi⟩
            · exact ((hstart p).mp hp).1 ▸ hin
          · intro p
            rw [List.mem_append, hstart]
            rw [hnext] at hcond
            constructor
            · rintro (hp | ⟨rfl, hpage⟩)
              · obtain ⟨hlo, hhi⟩ := hregion p hp
                exact ⟨((hfreed p).mp hp).isPage, by omega, by omega⟩
              · exact ⟨hpage, le_rfl, Or.inl hcond⟩
            · rintro ⟨hpage, hlo, hhi | ⟨hp, htop⟩⟩
              · by_cases heq : p = start
                · exact Or.inr ⟨heq, hpage⟩
                · left
                  rw [hfreed]
                  have haligned : p % pageSize = 0 := hpage.aligned
                  refine ⟨hpage, ?_, Or.inl hhi⟩
                  rw [pageSize_eq] at *
                  omega
              · rw [hp, halign] at htop
                exact (hwrap htop).elim
          · rw [List.pairwise_append]
            refine ⟨hsorted', hsorted, ?_⟩
            intro p hp q hq
            have hlo := (hregion p hp).1
            rw [((hstart q).mp hq).1]
            rw [pageSize_eq] at hlo
            omega

/-! ### The usable regions -/

theorem E820.phyToVir_lt (r : E820) :
  phyToVir r.address < 2 ^ 64
  := Nat.mod_lt _ (Nat.two_pow_pos 64)

/-- The address relative to the start of a region is the same in both views of memory. -/
theorem E820.contains_iff {r : E820} {p : ℕ} (hp : p < 2 ^ 64) (hle : phyToVir r.address ≤ p) :
  r.Contains (virToPhy p) ↔ p - phyToVir r.address < r.length
  := by
  have hoffset : (virToPhy p + 2 ^ 64 - r.address) % 2 ^ 64 = p - phyToVir r.address := by
    have haddress := r.address_lt
    unfold virToPhy phyToVir at *
    rw [kernelVirtualAddressBase_eq] at *
    omega
  unfold E820.Contains
  rw [hoffset]

/-- The aligned start of a region is not below its start, or it is zero. -/
theorem le_pageAlignUp {v : ℕ} (hv : v < 2 ^ 64) :
  v ≤ pageAlignUp v ∨ pageAlignUp v = 0
  := by
  rw [pageAlignUp_eq]
  omega

theorem pageAlignUp_lt (v : ℕ) :
  pageAlignUp v < 2 ^ 64 ∧ pageAlignUp v % 2097152 = 0
  := by
  rw [pageAlignUp_eq]
  omega

/-- The pages that `FreeRegion` frees for a region lie in the region. -/
theorem InRegion.contains {r : E820} {start p : ℕ} (hp : p < 2 ^ 64)
    (hstart : phyToVir r.address ≤ start)
    (hcase : image.lKernelEnd < phyToVir r.address
      ∨ image.lKernelEnd < (phyToVir r.address + r.length) % 2 ^ 64)
    (hin : InRegion start ((phyToVir r.address + r.length) % 2 ^ 64) p) :
  r.Contains (virToPhy p)
  := by
  obtain ⟨hlo, hhi⟩ := hin
  have hlength := r.length_lt
  have hv := r.phyToVir_lt
  have hkernel := image.lower
  rw [kernelVirtualAddressBase_eq] at hkernel
  rw [pageSize_eq] at hhi
  rw [E820.contains_iff hp (hstart.trans hlo)]
  generalize phyToVir r.address = v at *
  omega

/-- A page that is not below an address is not below the aligned address. -/
theorem IsPage.pageAlignUp_le {p v : ℕ} (hp : IsPage image p) (hle : v ≤ p) :
  pageAlignUp v ≤ p
  := by
  have haligned : p % pageSize = 0 := hp.aligned
  have hword := hp.word
  rw [pageSize_eq] at haligned
  rw [pageAlignUp_eq]
  omega

/-- `FreeRegion` on a usable region, from an address in it on. -/
theorem freeRegion_spec {r : E820} {v : ℕ} (hfree : Free image m xs) (hv : v < 2 ^ 64)
    (hle : phyToVir r.address ≤ v)
    (hcase : image.lKernelEnd < phyToVir r.address
      ∨ image.lKernelEnd < (phyToVir r.address + r.length) % 2 ^ 64)
    (hdisj : ∀ p ∈ xs, ¬ r.Contains (virToPhy p))
    (hrun : freeRegion image v ((phyToVir r.address + r.length) % 2 ^ 64) m = some m') :
  ∃ ys, Free image m' (ys ++ xs) ∧ (∀ p ∈ ys, r.Contains (virToPhy p))
    ∧ (∀ p, p ∈ ys ↔ Freed image v ((phyToVir r.address + r.length) % 2 ^ 64) p)
    ∧ ys.Pairwise (· > ·)
  := by
  obtain ⟨hlt, haligned⟩ := pageAlignUp_lt v
  rcases le_pageAlignUp hv with hup | hzero
  · obtain ⟨ys, hys, hregion, hfreed, hsorted⟩ := freeRegionLoop_spec hfree hlt haligned
      (fun p hp hin => hdisj p hp (hin.contains (hfree.isPage p hp).word (hle.trans hup) hcase)) hrun
    refine ⟨ys, hys, ?_, ?_, hsorted⟩
    · intro p hp
      have hword := (hys.isPage p (List.mem_append_left _ hp)).word
      exact (hregion p hp).contains hword (hle.trans hup) hcase
    · intro p
      rw [hfreed]
      have halign := pageAlignUp_of_aligned hlt haligned
      constructor
      · rintro ⟨hpage, hlo, hhi⟩
        exact ⟨hpage, hup.trans hlo, halign ▸ hhi⟩
      · rintro ⟨hpage, hlo, hhi⟩
        exact ⟨hpage, hpage.pageAlignUp_le hlo, halign.symm ▸ hhi⟩
  · rw [freeRegion, hzero] at hrun
    obtain ⟨rfl, hsmall⟩ := freeRegionLoop_zero hrun
    refine ⟨[], hfree, by simp, ?_, List.Pairwise.nil⟩
    intro p
    constructor
    · exact fun h => (List.not_mem_nil h).elim
    · rintro ⟨hpage, _, hhi | ⟨hp, _⟩⟩
      · omega
      · exact (hpage.ne_zero (hp.trans hzero)).elim

/-- The pages that `RetrieveMemoryInfo` frees for a usable region. -/
def Yields (image : Image) (r : E820) (p : ℕ) : Prop :=
  Freed image (phyToVir r.address) ((phyToVir r.address + r.length) % 2 ^ 64) p

/-- From an address up to the end of the kernel on, `FreeRegion` does not free the last page
of the address space. -/
theorem Freed.end_le {vStart vEnd p : ℕ} (h : Freed image vStart vEnd p)
    (hle : vStart ≤ image.lKernelEnd) :
  p + pageSize ≤ vEnd
  := by
  apply h.upper.resolve_right
  rintro ⟨hp, htop⟩
  have hkernel := image.upper
  rw [virtualAddressEnd_eq] at hkernel
  rw [pageAlignUp_eq] at hp
  rw [pageSize_eq] at htop
  omega

/-- Of a region that does not start above the kernel, the pages above the kernel are
freed. -/
theorem yields_iff_freed {r : E820} {p : ℕ} (hbelow : phyToVir r.address ≤ image.lKernelEnd) :
  Yields image r p
    ↔ Freed image image.lKernelEnd ((phyToVir r.address + r.length) % 2 ^ 64) p
  := by
  constructor
  · intro h
    exact ⟨h.isPage, h.isPage.lower, Or.inl (Freed.end_le h hbelow)⟩
  · intro h
    exact ⟨h.isPage, hbelow.trans h.lower, Or.inl (h.end_le le_rfl)⟩

/-- A usable region adds its pages to the free list, the highest in front. -/
theorem freeUsable_spec {r : E820} (hfree : Free image m xs)
    (hdisj : ∀ p ∈ xs, ¬ r.Contains (virToPhy p)) (hrun : freeUsable image r m = some m') :
  ∃ ys, Free image m' (ys ++ xs) ∧ (∀ p ∈ ys, r.Contains (virToPhy p))
    ∧ (∀ p, p ∈ ys ↔ Yields image r p) ∧ ys.Pairwise (· > ·)
  := by
  unfold freeUsable at hrun
  dsimp only at hrun
  split at hrun
  case isTrue habove =>
    exact freeRegion_spec hfree r.phyToVir_lt (le_refl _) (Or.inl habove) hdisj hrun
  case isFalse hbelow =>
    simp only [yields_iff_freed (Nat.not_lt.mp hbelow)]
    split at hrun
    case isTrue hend =>
      have hword : image.lKernelEnd < 2 ^ 64 := by
        have hupper := image.upper
        rw [virtualAddressEnd_eq] at hupper
        omega
      exact freeRegion_spec hfree hword (Nat.not_lt.mp hbelow) (Or.inr hend) hdisj hrun
    case isFalse hend =>
      obtain rfl := Option.some.inj hrun
      refine ⟨[], hfree, by simp, ?_, List.Pairwise.nil⟩
      intro p
      constructor
      · exact fun h => (List.not_mem_nil h).elim
      · intro hfreed
        have hlo := hfreed.lower
        have hhi := hfreed.end_le le_rfl
        rw [pageSize_eq] at hhi
        omega

/-- The highest page of the last region that yields a page. -/
structure LastPage (image : Image) (regions : List E820) (top : ℕ) : Prop where
  exists_region : ∃ before r after, regions = before ++ r :: after ∧ Yields image r top
    ∧ (∀ p, Yields image r p → p ≤ top) ∧ ∀ r' ∈ after, ∀ p, ¬ Yields image r' p

theorem LastPage.cons {regions : List E820} {top : ℕ} (h : LastPage image regions top)
    (r : E820) :
  LastPage image (r :: regions) top
  := by
  obtain ⟨before, r', after, rfl, hlast⟩ := h.exists_region
  exact ⟨r :: before, r', after, rfl, hlast⟩

/-- Disjoint regions give a free list without repetition, which consists of the pages of
the regions and starts with the highest page of the last one. -/
theorem freeUsables_spec {regions : List E820} (hfree : Free image m xs)
    (hregions : regions.Pairwise (fun r r' => ∀ a, a < 2 ^ 64 → ¬ (r.Contains a ∧ r'.Contains a)))
    (hdisj : ∀ p ∈ xs, ∀ r ∈ regions, ¬ r.Contains (virToPhy p))
    (hrun : freeUsables image regions m = some m') :
  ∃ ys, Free image m' (ys ++ xs) ∧ (∀ p, p ∈ ys ↔ ∃ r ∈ regions, Yields image r p)
    ∧ ∀ p ∈ ys.head?, LastPage image regions p
  := by
  induction regions generalizing m xs with
  | nil =>
      obtain rfl := Option.some.inj hrun
      exact ⟨[], hfree, by simp, by simp⟩
  | cons r regions ih =>
      obtain ⟨m₁, hrun₁, hrun₂⟩ := Option.bind_eq_some_iff.mp hrun
      obtain ⟨hr, hregions⟩ := List.pairwise_cons.mp hregions
      obtain ⟨zs, hzs, hcontains, hyields, hsorted⟩ :=
        freeUsable_spec hfree (fun p hp => hdisj p hp r List.mem_cons_self) hrun₁
      have hdisj' : ∀ p ∈ zs ++ xs, ∀ r' ∈ regions, ¬ r'.Contains (virToPhy p) := by
        intro p hp r' hr' hin
        rcases List.mem_append.mp hp with hp | hp
        · apply hr r' hr' (virToPhy p) (Nat.mod_lt _ (Nat.two_pow_pos 64))
          exact ⟨hcontains p hp, hin⟩
        · exact hdisj p hp r' (List.mem_cons_of_mem r hr') hin
      obtain ⟨ys, hys, hmem, hhead⟩ := ih hzs hregions hdisj' hrun₂
      refine ⟨ys ++ zs, by rwa [List.append_assoc], ?_, ?_⟩
      · intro p
        rw [List.mem_append, hmem, hyields, List.exists_mem_cons_iff, or_comm]
      · intro p hp
        cases ys with
        | cons y ys => exact (hhead p hp).cons r
        | nil =>
            cases zs with
            | nil => cases hp
            | cons z zs =>
                obtain rfl := Option.some.inj hp
                refine ⟨[], r, regions, rfl, (hyields z).mp List.mem_cons_self, ?_, ?_⟩
                · intro q hq
                  rcases List.mem_cons.mp ((hyields q).mpr hq) with rfl | hq
                  · exact le_rfl
                  · exact ((List.pairwise_cons.mp hsorted).1 q hq).le
                · intro r' hr' q hq
                  exact List.not_mem_nil ((hmem q).mpr ⟨r', hr', hq⟩)

/-- Before the memory map is read, there is no free page. -/
theorem Free.initial (hhead : m.freePageHead = 0) :
  Free image m []
  where
  list := hhead
  isPage := by simp
  nodup := List.nodup_nil

/-- `RetrieveMemoryInfo` makes a free list without repetition, of the pages of the usable
regions. -/
theorem retrieveMemoryInfo_yields {memMap : List E820} (hhead : m.freePageHead = 0)
    (hmap : DisjointRegions memMap) (hrun : retrieveMemoryInfo image memMap m = some m') :
  ∃ ys, Free image m' ys
    ∧ m'.freeMemoryEndAddress = (m'.freePageHead + pageSize) % 2 ^ 64
    ∧ (∀ p, p ∈ ys ↔ ∃ r ∈ usableRegions memMap, Yields image r p)
    ∧ ∀ p ∈ ys.head?, LastPage image (usableRegions memMap) p
  := by
  unfold retrieveMemoryInfo at hrun
  simp only [Option.bind_eq_bind, assert_bind_eq_some] at hrun
  obtain ⟨m₁, hrun₁, hrun₂⟩ := Option.bind_eq_some_iff.mp hrun.2
  have hinitial : Free image { m with totalMem := (m.totalMem
      + ((usableRegions memMap).map E820.length).sum) % 2 ^ 64 } [] := Free.initial hhead
  obtain ⟨ys, hys, hmem, hlast⟩ := freeUsables_spec hinitial hmap (by simp) hrun₁
  obtain rfl := Option.some.inj hrun₂
  rw [List.append_nil] at hys
  exact ⟨ys, ⟨hys.list, hys.isPage, hys.nodup⟩, rfl, hmem, hlast⟩

/-- The free list, and the end of free memory next to its first page. -/
theorem retrieveMemoryInfo_spec {memMap : List E820} (hhead : m.freePageHead = 0)
    (hmap : DisjointRegions memMap) (hrun : retrieveMemoryInfo image memMap m = some m') :
  ∃ ys, Free image m' ys
    ∧ m'.freeMemoryEndAddress = (m'.freePageHead + pageSize) % 2 ^ 64
  := by
  obtain ⟨ys, hys, hend, _⟩ := retrieveMemoryInfo_yields hhead hmap hrun
  use ys

/-! ### A region of whole pages -/

/-- The pages that the loop of `FreeRegion` has freed after `n` steps. -/
def regionPages (start n : ℕ) : List ℕ := ((List.range n).map (fun i => start + i * pageSize)).reverse

/-- The first page of a region is freed first. -/
theorem regionPages_cons (start n : ℕ) :
  regionPages start (n + 1) = regionPages (start + pageSize) n ++ [start]
  := by
  have hmap : (List.range n).map ((fun i => start + i * pageSize) ∘ Nat.succ)
      = (List.range n).map (fun i => start + pageSize + i * pageSize) := by
    apply List.map_congr_left
    intro i _
    rw [Function.comp_apply, Nat.succ_mul, Nat.add_assoc, Nat.add_comm pageSize]
  rw [regionPages, regionPages, List.range_succ_eq_map, List.map_cons, List.reverse_cons,
    List.map_map, hmap, Nat.zero_mul, Nat.add_zero]

/-- The loop of `FreeRegion` on a region of `n` pages in the kernel's memory. -/
theorem freeRegionLoop_pages {n fuel start : ℕ} (hfree : Free image m xs)
    (haligned : start % 2097152 = 0) (hlower : image.lKernelEnd ≤ start)
    (hupper : start + n * pageSize ≤ virtualAddressEnd)
    (hxs : ∀ p ∈ xs, p < start ∨ start + n * pageSize ≤ p) (hfuel : n < fuel) :
  ∃ m', freeRegionLoop image (start + n * pageSize) fuel start m = some m'
    ∧ Free image m' (regionPages start n ++ xs)
  := by
  induction n generalizing start m xs fuel with
  | zero =>
      cases fuel with
      | zero => omega
      | succ fuel =>
          use m
          constructor
          · rw [freeRegionLoop, if_neg]
            rw [virtualAddressEnd_eq, pageSize_eq] at *
            omega
          · exact hfree
  | succ n ih =>
      cases fuel with
      | zero => omega
      | succ fuel =>
          have hnext : (start + pageSize) % 2 ^ 64 = start + pageSize := by
            rw [virtualAddressEnd_eq, pageSize_eq] at *
            omega
          have hpage : IsPage image start := by
            constructor
            · unfold addrIsAligned
              rw [pageSize_eq]
              exact haligned
            · exact hlower
            · rw [hnext]
              rw [pageSize_eq] at *
              omega
            · rw [virtualAddressEnd_eq] at hupper
              omega
          have hend : start + (n + 1) * pageSize = start + pageSize + n * pageSize := by
            rw [Nat.succ_mul]
            omega
          have hmem : start ∉ xs := by
            intro h
            have hout := hxs start h
            rw [pageSize_eq] at hout
            omega
          obtain ⟨m₁, hrun₁, hfree₁, _⟩ := hfree.kfree hpage hmem
          have hstep : freeRegionPage image start m = some m₁ := by
            rw [freeRegionPage, hnext, if_pos]
            · exact hrun₁
            · rw [pageSize_eq] at *
              omega
          have haligned' : (start + pageSize) % 2097152 = 0 := by
            rw [pageSize_eq]
            omega
          have hxs' : ∀ p ∈ start :: xs,
              p < start + pageSize ∨ start + pageSize + n * pageSize ≤ p := by
            intro p hp
            rw [← hend, pageSize_eq] at *
            rcases List.mem_cons.mp hp with rfl | hp
            · omega
            · have hout := hxs p hp
              omega
          obtain ⟨m', hrun, hfree'⟩ := ih hfree₁ haligned' (by omega) (hend ▸ hupper) hxs'
            (Nat.lt_of_succ_lt_succ hfuel)
          use m'
          constructor
          · rw [freeRegionLoop, if_pos]
            · rw [hstep, Option.bind_eq_bind, Option.bind_some, hnext, hend]
              exact hrun
            · rw [hnext, hend]
              omega
          · rw [regionPages_cons, List.append_assoc]
            exact hfree'

theorem regionPages_succ (start n : ℕ) :
  regionPages start (n + 1) = (start + n * pageSize) :: regionPages start n
  := by
  rw [regionPages, List.range_succ, List.map_append, List.reverse_append]
  rfl

/-- `RetrieveMemoryInfo`, when the regions are freed. -/
theorem retrieveMemoryInfo_eq {memMap : List E820} (hlen : memMap.length < memoryMaxFreeRegions)
    (hrun : freeUsables image (usableRegions memMap) { m with
      totalMem := (m.totalMem + ((usableRegions memMap).map E820.length).sum) % 2 ^ 64 }
      = some m') :
  retrieveMemoryInfo image memMap m
    = some { m' with freeMemoryEndAddress := (m'.freePageHead + pageSize) % 2 ^ 64 }
  := by
  unfold retrieveMemoryInfo
  rw [assert_of hlen, Option.bind_eq_bind, Option.bind_some]
  dsimp only
  rw [hrun, Option.bind_eq_bind, Option.bind_some]

/-- An image of two megabytes. -/
def smallImage : Image where
  lKernelEnd := kernelVirtualAddressBase + 0x200000
  trapReturn := kernelVirtualAddressBase + 0x100000
  lower := le_rfl
  upper := by
    rw [kernelVirtualAddressBase_eq, virtualAddressEnd_eq]
    decide
  word := by
    rw [kernelVirtualAddressBase_eq]
    decide

/-- Empty memory. -/
def emptyMemory : Memory := ⟨fun _ => 0, 0, 0, 0⟩

/-- A usable region of `n` whole pages from the virtual address `start` on. -/
def E820.pages (start : ℕ) (n : Fin (2 ^ 43)) : E820 where
  address := virToPhy start
  length := n * pageSize
  type := memoryRegionUsableRamType
  address_lt := Nat.mod_lt _ (Nat.two_pow_pos 64)
  length_lt := by
    have hn := n.isLt
    rw [pageSize_eq]
    omega

/-- A usable region of whole pages above the kernel adds these pages to the free list. -/
theorem freeUsable_pages {start : ℕ} {n : Fin (2 ^ 43)} (hfree : Free image m xs)
    (haligned : start % 2097152 = 0) (hlower : image.lKernelEnd < start)
    (hupper : start + n * pageSize ≤ virtualAddressEnd)
    (hxs : ∀ p ∈ xs, p < start ∨ start + n * pageSize ≤ p) :
  ∃ m', freeUsable image (E820.pages start n) m = some m'
    ∧ Free image m' (regionPages start n ++ xs)
  := by
  have hfuel : n.val < 2 ^ 43 + 1 := Nat.lt_succ_of_lt n.isLt
  obtain ⟨m', hrun, hfree'⟩ := freeRegionLoop_pages hfree haligned hlower.le hupper hxs hfuel
  use m'
  constructor
  · have hend : virtualAddressEnd < 2 ^ 64 := by
      rw [virtualAddressEnd_eq]
      omega
    have hstart : phyToVir (E820.pages start n).address = start := phyToVir_virToPhy (by omega)
    have hlength : (start + (E820.pages start n).length) % 2 ^ 64 = start + n * pageSize :=
      Nat.mod_eq_of_lt (hupper.trans_lt hend)
    unfold freeUsable
    dsimp only
    rw [hstart, if_pos hlower]
    unfold freeRegion
    rw [pageAlignUp_of_aligned (by omega) haligned, hlength]
    exact hrun
  · exact hfree'

/-- A memory map with one usable region yields the pages of the region. -/
theorem retrieveMemoryInfo_pages {start : ℕ} {n : Fin (2 ^ 43)} (hhead : m.freePageHead = 0)
    (haligned : start % 2097152 = 0) (hlower : image.lKernelEnd < start)
    (hupper : start + n * pageSize ≤ virtualAddressEnd) (hn : 0 < n.val) :
  ∃ m', retrieveMemoryInfo image [E820.pages start n] m = some m'
    ∧ Free image m' (regionPages start n)
    ∧ m'.freeMemoryEndAddress = start + n * pageSize
  := by
  have hfree : Free image { m with totalMem := (m.totalMem + n * pageSize) % 2 ^ 64 } [] :=
    Free.initial hhead
  obtain ⟨m', husable, hfree'⟩ := freeUsable_pages hfree haligned hlower hupper (by simp)
  rw [List.append_nil] at hfree'
  have hlist : freeUsables image [E820.pages start n]
      { m with totalMem := (m.totalMem + n * pageSize) % 2 ^ 64 } = some m' :=
    Option.bind_eq_some_iff.mpr ⟨m', husable, rfl⟩
  have hhead' : m'.freePageHead = start + (n.val - 1) * pageSize := by
    obtain ⟨j, hj⟩ : ∃ j, n.val = j + 1 := ⟨n.val - 1, by omega⟩
    rw [hj, regionPages_succ] at hfree'
    rw [hj]
    exact hfree'.list.1
  have haddress : (m'.freePageHead + pageSize) % 2 ^ 64 = start + n * pageSize := by
    have hsucc : start + (n.val - 1) * pageSize + pageSize = start + n * pageSize := by
      rw [pageSize_eq]
      omega
    rw [hhead', hsucc, Nat.mod_eq_of_lt]
    rw [virtualAddressEnd_eq] at hupper
    omega
  refine ⟨{ m' with freeMemoryEndAddress := (m'.freePageHead + pageSize) % 2 ^ 64 }, ?_, ?_,
    haddress⟩
  · have htype : (E820.pages start n).type = memoryRegionUsableRamType := rfl
    have husable' : usableRegions [E820.pages start n] = [E820.pages start n] := by
      simp [usableRegions, htype]
    have hsum : ([E820.pages start n].map E820.length).sum = n * pageSize := by
      rw [List.map_singleton, List.sum_singleton]
      rfl
    have hlen : [E820.pages start n].length < memoryMaxFreeRegions := by
      rw [List.length_singleton]
      decide
    rw [← husable', ← hsum] at hlist
    exact retrieveMemoryInfo_eq hlen hlist
  · exact ⟨hfree'.list, hfree'.isPage, hfree'.nodup⟩

end LarvaOS
