import LarvaOS.Memory.AddressSpace

/-!
# Setting up address spaces

What `SetupKVM`, `SetupUVM` and `CopyUVM` do for every number of free pages: on success
they take three pages each and build the tables; on failure `SetupKVM` gives its pages
back, and `SetupUVM` and `CopyUVM` give back their pages together with the pages of the
map, unless they failed before they took a page.
-/

namespace LarvaOS

variable {image : Image} {m : Memory} {n : ℕ} {xs : List ℕ}

/-- The end of the free memory lies `n` pages above the kernel base, and at most one
gigabyte above it. -/
structure KernelEnd (m : Memory) (n : ℕ) : Prop where
  address : m.freeMemoryEndAddress = kernelVirtualAddressBase + n * pageSize
  pos : 0 < n
  le : n ≤ totalTableEntries

theorem KernelEnd.changes {m' : Memory} {ps : List ℕ} (h : KernelEnd m n) (hc : Changes ps m m') :
  KernelEnd m' n
  where
  address := hc.freeMemoryEndAddress.trans h.address
  pos := h.pos
  le := h.le

/-- The first free page, taken and cleared. -/
theorem kalloc_clear {a : ℕ} (hfree : Free image m (a :: xs)) :
  ∃ m', kalloc image m = some (a, m') ∧ Free image (m'.clear a) xs
    ∧ Changes [a] m (m'.clear a) ∧ Table (m'.clear a) a noEntries
  := by
  obtain ⟨m', hrun, hfree', hbytes, hchange⟩ := hfree.kalloc_cons
  have hclear := Memory.changes_clear m' a
  have ha := hfree.isPage a List.mem_cons_self
  use m', hrun
  refine ⟨?_, (hchange.mono (by simp)).trans hclear, Table.clear m' a⟩
  apply hfree'.changes hclear rfl
  · simpa using ha.aligned
  · simpa using (List.nodup_cons.mp hfree.nodup).1

/-- The arguments that `SetupKVM` passes to `MapPages`. -/
theorem mapPages_kernel (hend : KernelEnd m n) (map : ℕ) (m₁ : Memory) :
  mapPages image map kernelVirtualAddressBase m.freeMemoryEndAddress
      (virToPhy kernelVirtualAddressBase)
      (tableEntryPresentAttribute ||| tableEntryWritableAttribute) m₁
    = mapPages image map (kernelVirtualAddressBase + 0 * pageSize)
      (kernelVirtualAddressBase + n * pageSize) 0 kernelAttributes m₁
  := by
  have hphys : virToPhy kernelVirtualAddressBase = 0 := by
    unfold virToPhy
    rw [kernelVirtualAddressBase_eq]
    omega
  rw [hend.address, hphys, Nat.zero_mul, Nat.add_zero]
  rfl

/-- The end of the kernel's memory in physical addresses. -/
theorem KernelEnd.bound (hend : KernelEnd m n) :
  0 + (n - 0) * 2097152 < 2 ^ 48
  := by
  have hn : n ≤ 512 := hend.le
  omega

/-- `SetupKVM` with three free pages. -/
theorem setupKVM_cons {a b c : ℕ} (hend : KernelEnd m n)
    (hfree : Free image m (a :: b :: c :: xs)) :
  ∃ m', setupKVM image m = some (a, m') ∧ Free image m' xs ∧ Changes [a, b, c] m m'
    ∧ KernelSpace m' n a b c
  := by
  obtain ⟨m₁, hrun, hfree₁, hchange₁, htable₁⟩ := kalloc_clear hfree
  have ha := hfree.isPage a List.mem_cons_self
  obtain ⟨hmem, _⟩ := List.nodup_cons.mp hfree.nodup
  have hend₁ : KernelEnd m₁ n := ⟨(hend.changes hchange₁).address, hend.pos, hend.le⟩
  have hnone : link ((m₁.clear a).entry a 256) = none := by
    rw [htable₁ 256 (by decide)]
    exact link_zero
  obtain ⟨m', hrun', hfree', hchange', hpd, hpdpt, hmap⟩ := mapPages_cons kernelGigabyte hend.pos
    hend.le rfl hend.bound hnone hfree₁ ha.aligned hmem kernelAttributes_isAttribute
  refine ⟨m', ?_, hfree', ?_, ⟨⟨hpdpt, hpd⟩, ?_⟩⟩
  · unfold setupKVM
    rw [hrun]
    simp only [Option.bind_eq_bind, Option.bind_some]
    rw [if_pos ha.ne_zero, mapPages_kernel hend₁, hrun']
    rfl
  · exact (hchange₁.mono (by simp)).trans hchange'
  · intro i hi
    rw [hmap i hi, kernelMapEntries, singleEntry]
    by_cases hi' : i = 256
    · rw [hi', Function.update_self, Function.update_self]
    · rw [Function.update_of_ne hi', Function.update_of_ne hi', htable₁ i hi]

/-- When `MapPages` fails, `SetupKVM` frees the map. -/
theorem setupKVM_eq_freeVM {a : ℕ} {m₁ m₂ m₃ : Memory} (hend : KernelEnd m n) (ha : a ≠ 0)
    (hrun : kalloc image m = some (a, m₁)) (hchange : Changes [a] m (m₁.clear a))
    (hmap : mapPages image a (kernelVirtualAddressBase + 0 * pageSize)
      (kernelVirtualAddressBase + n * pageSize) 0 kernelAttributes (m₁.clear a) = some (false, m₂))
    (hfree : freeVM image a m₂ = some m₃) :
  setupKVM image m = some (0, m₃)
  := by
  have hend₁ : KernelEnd m₁ n := ⟨(hend.changes hchange).address, hend.pos, hend.le⟩
  unfold setupKVM
  rw [hrun]
  simp only [Option.bind_eq_bind, Option.bind_some]
  rw [if_pos ha, mapPages_kernel hend₁, hmap]
  simp only [Option.bind_some, Bool.false_eq_true, if_false, hfree]

/-- `SetupKVM` with fewer than three free pages gives them back. -/
theorem setupKVM_fail (hend : KernelEnd m n) (hfree : Free image m xs) (hlen : xs.length < 3) :
  ∃ m' ys, setupKVM image m = some (0, m') ∧ Free image m' ys ∧ ys.Perm xs ∧ Changes xs m m'
  := by
  rcases xs with _ | ⟨a, xs⟩
  · refine ⟨m, [], ?_, hfree, List.Perm.refl _, Changes.refl _ _⟩
    unfold setupKVM
    rw [hfree.kalloc_nil]
    rfl
  obtain ⟨m₁, hrun, hfree₁, hchange₁, htable₁⟩ := kalloc_clear hfree
  have ha := hfree.isPage a List.mem_cons_self
  obtain ⟨hmem, _⟩ := List.nodup_cons.mp hfree.nodup
  have hnone : link ((m₁.clear a).entry a 256) = none := by
    rw [htable₁ 256 (by decide)]
    exact link_zero
  rcases xs with _ | ⟨b, xs⟩
  · have hmap := @mapPages_nil image a kernelVirtualAddressBase 256 0 n kernelAttributes 0
      (m₁.clear a) kernelGigabyte hend.pos hend.le rfl hend.bound hnone hfree₁
    have hpages := vmPages_clear htable₁
    obtain ⟨m', ys, hrun', hfree', hys, hchange'⟩ := @freeVM_spec image (m₁.clear a) a [] hfree₁
      (by simpa [hpages] using ha) (by simp [hpages])
    rw [hpages] at hys hchange'
    exact ⟨m', ys, setupKVM_eq_freeVM hend ha.ne_zero hrun hchange₁ hmap hrun', hfree', hys,
      hchange₁.trans hchange'⟩
  rcases xs with _ | ⟨c, xs⟩
  · have hb := hfree.isPage b (by simp)
    obtain ⟨m₂, hmap, hfree₂, hchange₂, hpdpt, hmaptable⟩ := mapPages_one kernelGigabyte hend.pos
      hend.le rfl hend.bound hnone hfree₁ ha.aligned hmem kernelAttributes_isAttribute
    have hmaptable' : Table m₂ a (kernelMapEntries b) := by
      intro i hi
      rw [hmaptable i hi, kernelMapEntries, singleEntry]
      by_cases hi' : i = 256
      · rw [hi', Function.update_self, Function.update_self]
      · rw [Function.update_of_ne hi', Function.update_of_ne hi', htable₁ i hi]
    have hpages := vmPages_pointer hb hmaptable' hpdpt
    have hne : b ≠ a := by
      rintro rfl
      simp at hmem
    obtain ⟨m', ys, hrun', hfree', hys, hchange'⟩ := @freeVM_spec image m₂ a [] hfree₂
      (by simpa [hpages] using ⟨hb, ha⟩) (by simpa [hpages] using hne)
    rw [hpages] at hys hchange'
    refine ⟨m', ys, setupKVM_eq_freeVM hend ha.ne_zero hrun hchange₁ hmap hrun', hfree',
      hys.trans (List.Perm.swap a b []), ?_⟩
    exact ((hchange₁.mono (by simp)).trans hchange₂).trans (hchange'.mono (by simp))
  · simp only [List.length_cons] at hlen
    omega

/-! ### The user page -/

/-- The arguments that `SetupUVM` and `CopyUVM` pass to `MapPages`. -/
theorem mapPages_user (map phys : ℕ) (m : Memory) :
  mapPages image map userVirtualAddressBase (userVirtualAddressBase + pageSize) phys
      userAttributes m
    = mapPages image map (0 + 2 * pageSize) (0 + 3 * pageSize) phys userAttributes m
  := by
  have hstart : userVirtualAddressBase = 0 + 2 * pageSize := by
    rw [userVirtualAddressBase_eq, pageSize_eq]
  have hend : userVirtualAddressBase + pageSize = 0 + 3 * pageSize := by
    rw [userVirtualAddressBase_eq, pageSize_eq]
  rw [hend, hstart]

section User

variable {map pdpt pd p : ℕ}

/-- A map with the kernel gigabyte has no entry for the user gigabyte. -/
theorem KernelSpace.link_zero (h : KernelSpace m n map pdpt pd) :
  link (m.entry map 0) = none
  := by
  rw [h.mapTable 0 zero_lt_totalTableEntries, kernelMapEntries, singleEntry,
    Function.update_of_ne (by decide)]
  exact LarvaOS.link_zero

theorem KernelTables.changes {m' : Memory} {ps : List ℕ} (h : KernelTables m n pdpt pd)
    (hc : Changes ps m m') (hps : ∀ q ∈ ps, addrIsAligned q) (hp : addrIsAligned pdpt)
    (hd : addrIsAligned pd) (hp' : pdpt ∉ ps) (hd' : pd ∉ ps) :
  KernelTables m' n pdpt pd
  where
  pdptTable := h.pdptTable.changes hc hps hp hp'
  pdTable := h.pdTable.changes hc hps hd hd'

/-- Changes outside the tables keep an address space. -/
theorem UserSpace.changes {m' : Memory} {ps : List ℕ} {S : Space} (h : UserSpace m n S)
    (hc : Changes ps m m') (hps : ∀ q ∈ ps, addrIsAligned q)
    (haligned : ∀ q ∈ S.tables, addrIsAligned q) (hdisj : ∀ q ∈ S.tables, q ∉ ps) :
  UserSpace m' n S
  := by
  have htable : ∀ t f, t ∈ S.tables → Table m t f → Table m' t f :=
    fun t f ht hf => hf.changes hc hps (haligned t ht) (hdisj t ht)
  constructor
  · constructor
    · apply htable _ _ (by simp [Space.tables]) h.pdptTable
    · apply htable _ _ (by simp [Space.tables]) h.pdTable
  · apply htable _ _ (by simp [Space.tables]) h.mapTable
  · apply htable _ _ (by simp [Space.tables]) h.userPdptTable
  · apply htable _ _ (by simp [Space.tables]) h.userPdTable

theorem KernelSpace.changes {m' : Memory} {ps : List ℕ} (h : KernelSpace m n map pdpt pd)
    (hc : Changes ps m m') (hps : ∀ q ∈ ps, addrIsAligned q)
    (haligned : ∀ q ∈ [map, pdpt, pd], addrIsAligned q)
    (hdisj : ∀ q ∈ [map, pdpt, pd], q ∉ ps) :
  KernelSpace m' n map pdpt pd
  := by
  constructor
  · apply h.toKernelTables.changes hc hps (haligned _ (by simp)) (haligned _ (by simp))
    · exact hdisj _ (by simp)
    · exact hdisj _ (by simp)
  · apply h.mapTable.changes hc hps (haligned _ (by simp)) (hdisj _ (by simp))

/-- The bound on the physical address of a user page. -/
theorem userBound (hp : IsPage image p) :
  virToPhy p % 2097152 = 0 ∧ virToPhy p + (3 - 2) * 2097152 < 2 ^ 48
  := by
  obtain ⟨haligned, hlt, _⟩ := hp.virToPhy
  constructor
  · exact haligned
  · omega

/-- Mapping a user page with two free pages. -/
theorem mapUser_cons {d e : ℕ} (h : KernelSpace m n map pdpt pd)
    (hfree : Free image m (d :: e :: xs)) (hp : IsPage image p)
    (hpages : ∀ q ∈ [map, pdpt, pd], IsPage image q)
    (hnodup : ([map, pdpt, pd] ++ d :: e :: xs).Nodup) :
  ∃ m', mapPages image map userVirtualAddressBase (userVirtualAddressBase + pageSize)
      (virToPhy p) userAttributes m = some (true, m')
    ∧ Free image m' xs ∧ Changes [map, d, e] m m'
    ∧ UserSpace m' n ⟨map, pdpt, pd, d, e, p⟩
  := by
  obtain ⟨hphys, hbound⟩ := userBound hp
  have hmap := hpages map (by simp)
  have hpdpt := hpages pdpt (by simp)
  have hpd := hpages pd (by simp)
  have hd := hfree.isPage d (by simp)
  have he := hfree.isPage e (by simp)
  have hmem : map ∉ d :: e :: xs := by
    apply hnodup.not_mem_of_count_add_le [map]
    · intro a
      simp only [List.count_append, List.count_cons, List.count_nil]
      omega
    · simp
  have hkeep : ∀ t ∈ [pdpt, pd], t ∉ [map, d, e] := by
    intro t ht
    apply hnodup.not_mem_of_count_add_le [pdpt, pd] _ _ ht
    intro a
    simp only [List.count_append, List.count_cons, List.count_nil]
    omega
  obtain ⟨m', hrun, hfree', hchange, huserPd, huserPdpt, hmaptable⟩ := mapPages_cons userGigabyte
    (by decide) (by decide) hphys hbound h.link_zero hfree hmap.aligned hmem
    userAttributes_isAttribute
  have hchanged : ∀ q ∈ [map, d, e], addrIsAligned q := by
    simp [hmap.aligned, hd.aligned, he.aligned]
  refine ⟨m', ?_, hfree', hchange, ⟨?_, ?_, huserPdpt, huserPd⟩⟩
  · rw [mapPages_user]
    exact hrun
  · apply h.toKernelTables.changes hchange hchanged hpdpt.aligned hpd.aligned
    · exact hkeep pdpt (by simp)
    · exact hkeep pd (by simp)
  · intro i hi
    rw [hmaptable i hi, mapEntries]
    by_cases hi' : i = 0
    · rw [hi', Function.update_self, Function.update_self]
    · rw [Function.update_of_ne hi', Function.update_of_ne hi', h.mapTable i hi]

/-- Mapping a user page with fewer than two free pages fails, and the user page and the
pages of the map are freed. -/
theorem mapUser_fail (h : KernelSpace m n map pdpt pd) (hfree : Free image m xs)
    (hlen : xs.length < 2) (hp : IsPage image p)
    (hpages : ∀ q ∈ [map, pdpt, pd], IsPage image q)
    (hnodup : (p :: [map, pdpt, pd] ++ xs).Nodup) :
  ∃ m₁ m₂ m' ys, mapPages image map userVirtualAddressBase (userVirtualAddressBase + pageSize)
      (virToPhy p) userAttributes m = some (false, m₁)
    ∧ kfree image p m₁ = some m₂ ∧ freeVM image map m₂ = some m'
    ∧ Free image m' ys ∧ ys.Perm (p :: [map, pdpt, pd] ++ xs)
    ∧ Changes (p :: [map, pdpt, pd] ++ xs) m m'
  := by
  obtain ⟨hphys, hbound⟩ := userBound hp
  have hmap := hpages map (by simp)
  have hpdpt := hpages pdpt (by simp)
  have hpd := hpages pd (by simp)
  have hpkeep : ∀ t ∈ [map, pdpt, pd] ++ xs, t ∉ [p] := by
    intro t ht
    apply hnodup.not_mem_of_count_add_le ([map, pdpt, pd] ++ xs) _ _ ht
    intro a
    simp only [List.count_append, List.count_cons, List.count_nil]
    omega
  have hpaligned : ∀ q ∈ [p], addrIsAligned q := by
    simp [hp.aligned]
  rcases xs with _ | ⟨d, xs⟩
  · obtain ⟨m₂, hrun, hfree₂, hchange⟩ := hfree.kfree hp List.not_mem_nil
    have hspace : KernelSpace m₂ n map pdpt pd :=
      h.changes hchange hpaligned (fun q hq => (hpages q hq).aligned)
        (fun q hq => hpkeep q (by simpa using hq))
    have hvm := hspace.vmPages hpdpt hpd
    obtain ⟨m', ys, hrun', hfree', hys, hchange'⟩ := @freeVM_spec image m₂ map [p] hfree₂
      (by
        rw [hvm]
        intro q hq
        apply hpages
        simp only [List.mem_cons] at hq ⊢
        tauto)
      (by
        rw [hvm]
        apply hnodup.of_count_le
        intro a
        simp only [List.count_append, List.count_cons, List.count_nil]
        omega)
    rw [hvm] at hys hchange'
    refine ⟨m, m₂, m', ys, ?_, hrun, hrun', hfree', ?_, ?_⟩
    · rw [mapPages_user]
      exact mapPages_nil userGigabyte (by decide) (by decide) hphys hbound h.link_zero hfree
    · apply List.perm_iff_count.mpr
      intro a
      simp only [List.count_append, List.count_cons, List.count_nil, hys.count_eq]
      omega
    · exact (hchange.mono (by simp)).trans (hchange'.mono (by simp))
  rcases xs with _ | ⟨e, xs⟩
  · have hd := hfree.isPage d (by simp)
    have hmem : map ∉ [d] := by
      apply hnodup.not_mem_of_count_add_le [map]
      · intro a
        simp only [List.count_append, List.count_cons, List.count_nil]
        omega
      · simp
    have hkeep : ∀ t ∈ [pdpt, pd], t ∉ [map, d] := by
      intro t ht
      apply hnodup.not_mem_of_count_add_le [pdpt, pd] _ _ ht
      intro a
      simp only [List.count_append, List.count_cons, List.count_nil]
      omega
    obtain ⟨m₁, hrun₁, hfree₁, hchange₁, hpointer, hmaptable⟩ := mapPages_one userGigabyte
      (by decide) (by decide) hphys hbound h.link_zero hfree hmap.aligned hmem
      userAttributes_isAttribute
    have hchanged : ∀ q ∈ [map, d], addrIsAligned q := by
      simp [hmap.aligned, hd.aligned]
    have htables₁ : KernelTables m₁ n pdpt pd := by
      apply h.toKernelTables.changes hchange₁ hchanged hpdpt.aligned hpd.aligned
      · exact hkeep pdpt (by simp)
      · exact hkeep pd (by simp)
    have hmaptable₁ : Table m₁ map (mapEntries pdpt d) := by
      intro i hi
      rw [hmaptable i hi, mapEntries]
      by_cases hi' : i = 0
      · rw [hi', Function.update_self, Function.update_self]
      · rw [Function.update_of_ne hi', Function.update_of_ne hi', h.mapTable i hi]
    obtain ⟨m₂, hrun, hfree₂, hchange⟩ := hfree₁.kfree hp (by simp)
    have htables : KernelTables m₂ n pdpt pd := by
      apply htables₁.changes hchange hpaligned hpdpt.aligned hpd.aligned
      · exact hpkeep pdpt (by simp)
      · exact hpkeep pd (by simp)
    have hmaptable₂ := hmaptable₁.changes hchange hpaligned hmap.aligned (hpkeep map (by simp))
    have hpointer₂ := hpointer.changes hchange hpaligned hd.aligned (hpkeep d (by simp))
    have hvm := vmPages_userPointer htables hpdpt hpd hd hmaptable₂ hpointer₂
    obtain ⟨m', ys, hrun', hfree', hys, hchange'⟩ := @freeVM_spec image m₂ map [p] hfree₂
      (by
        intro q hq
        have hq' := hvm.mem_iff.mp hq
        simp only [List.mem_cons, List.not_mem_nil, or_false] at hq'
        rcases hq' with rfl | rfl | rfl | rfl
        · exact hpd
        · exact hd
        · exact hpdpt
        · exact hmap)
      (by
        apply hnodup.of_count_le
        intro a
        simp only [List.count_append, List.count_cons, List.count_nil, hvm.count_eq]
        omega)
    refine ⟨m₁, m₂, m', ys, ?_, hrun, hrun', hfree', ?_, ?_⟩
    · rw [mapPages_user]
      exact hrun₁
    · apply List.perm_iff_count.mpr
      intro a
      simp only [List.count_append, List.count_cons, List.count_nil, hys.count_eq, hvm.count_eq]
      omega
    · apply ((hchange₁.mono _).trans (hchange.mono _)).trans (hchange'.mono _)
      · simp
      · simp
      · intro q hq
        have hq' := hvm.mem_iff.mp hq
        simp only [List.mem_cons, List.mem_append, List.not_mem_nil, or_false] at hq' ⊢
        tauto
  · simp only [List.length_cons] at hlen
    omega

/-! ### Setting up and copying user pages -/

/-- The steps of `CopyUVM` when nothing fails. -/
theorem copyUVM_eq {current size : ℕ} {m₁ m₂ : Memory}
    (hrun₁ : kalloc image m = some (p, m₁)) (hp : p ≠ 0)
    (hmap : mapPages image map userVirtualAddressBase (userVirtualAddressBase + pageSize)
      (virToPhy p) userAttributes (m₁.clear p) = some (true, m₂))
    (hfind : findPageDirPointerTableEntry image current userVirtualAddressBase false 0 m₂
      = some (pd, m₂)) (hpd : pd ≠ 0) (hpresent : Present (m₂.entry pd 2)) :
  copyUVM image map current size m
    = some (true, m₂.copy p (phyToVir (pageAddress (m₂.entry pd 2))) size)
  := by
  unfold copyUVM
  rw [hrun₁]
  simp only [Option.bind_eq_bind, Option.bind_some]
  rw [if_pos hp, hmap, Option.bind_some, if_pos rfl, hfind, Option.bind_some, if_pos hpd,
    userVirtualAddressBase_index.2.2, assert_of hpresent, Option.bind_some]

/-- The steps of `CopyUVM` when `MapPages` fails. -/
theorem copyUVM_eq_fail {current size : ℕ} {m₁ m₂ m₃ m₄ : Memory}
    (hrun₁ : kalloc image m = some (p, m₁)) (hp : p ≠ 0)
    (hmap : mapPages image map userVirtualAddressBase (userVirtualAddressBase + pageSize)
      (virToPhy p) userAttributes (m₁.clear p) = some (false, m₂))
    (hfree : kfree image p m₂ = some m₃) (hvm : freeVM image map m₃ = some m₄) :
  copyUVM image map current size m = some (false, m₄)
  := by
  unfold copyUVM
  rw [hrun₁]
  simp only [Option.bind_eq_bind, Option.bind_some]
  rw [if_pos hp, hmap, Option.bind_some, if_neg Bool.false_ne_true, hfree, Option.bind_some, hvm,
    Option.bind_some]

/-- The steps of `SetupUVM` when nothing fails. -/
theorem setupUVM_eq {start size : ℕ} {m₁ m₂ : Memory}
    (hrun₁ : kalloc image m = some (p, m₁)) (hp : p ≠ 0)
    (hmap : mapPages image map userVirtualAddressBase (userVirtualAddressBase + pageSize)
      (virToPhy p) userAttributes (m₁.clear p) = some (true, m₂)) :
  setupUVM image map start size m = some (true, m₂.copy p start size)
  := by
  unfold setupUVM
  rw [hrun₁]
  simp only [Option.bind_eq_bind, Option.bind_some]
  rw [if_neg hp, hmap, Option.bind_some, if_pos rfl]

/-- With three free pages a user page is mapped, whatever is then copied to it. -/
theorem mapUserPage {d e : ℕ} (h : KernelSpace m n map pdpt pd)
    (hfree : Free image m (p :: d :: e :: xs)) (hpages : ∀ q ∈ [map, pdpt, pd], IsPage image q)
    (hnodup : ([map, pdpt, pd] ++ p :: d :: e :: xs).Nodup) :
  ∃ m₁ m₂, kalloc image m = some (p, m₁)
    ∧ mapPages image map userVirtualAddressBase (userVirtualAddressBase + pageSize)
      (virToPhy p) userAttributes (m₁.clear p) = some (true, m₂)
    ∧ Changes [map, p, d, e] m m₂
    ∧ ∀ src size, size ≤ pageSize → Free image (m₂.copy p src size) xs
      ∧ Changes [map, p, d, e] m (m₂.copy p src size)
      ∧ UserSpace (m₂.copy p src size) n ⟨map, pdpt, pd, d, e, p⟩
  := by
  have hp := hfree.isPage p (by simp)
  have hd := hfree.isPage d (by simp)
  have he := hfree.isPage e (by simp)
  have hmap := hpages map (by simp)
  have hp' : ∀ q ∈ [p], addrIsAligned q := by
    simp [hp.aligned]
  have hkeep : ∀ t ∈ [map, pdpt, pd], t ∉ [p] := by
    intro t ht
    apply hnodup.not_mem_of_count_add_le [map, pdpt, pd] _ _ ht
    intro a
    simp only [List.count_append, List.count_cons, List.count_nil]
    omega
  obtain ⟨hpmem, hnodup'⟩ := List.nodup_cons.mp hfree.nodup
  simp only [List.mem_cons, not_or] at hpmem
  obtain ⟨m₁, hrun₁, hfree₁, hchange₁, _⟩ := kalloc_clear hfree
  have h₁ : KernelSpace (m₁.clear p) n map pdpt pd :=
    h.changes hchange₁ hp' (fun q hq => (hpages q hq).aligned) hkeep
  obtain ⟨m₂, hrun₂, hfree₂, hchange₂, hspace₂⟩ := mapUser_cons h₁ hfree₁ hp hpages
    (by
      apply hnodup.of_count_le
      intro a
      simp only [List.count_append, List.count_cons]
      omega)
  have hchange : Changes [map, p, d, e] m m₂ :=
    (hchange₁.mono (by simp)).trans (hchange₂.mono (by simp))
  refine ⟨m₁, m₂, hrun₁, hrun₂, hchange, ?_⟩
  intro src size hsize
  have hcopy := Memory.changes_copy m₂ p src hsize
  refine ⟨?_, hchange.trans (hcopy.mono (by simp)), ?_⟩
  · apply hfree₂.changes hcopy (Memory.copy_freePageHead _ _ _ _) hp'
    simpa using hpmem.2.2
  · apply hspace₂.changes hcopy hp'
    · intro q hq
      simp only [Space.tables, List.mem_cons, List.not_mem_nil, or_false] at hq
      rcases hq with hq | hq | hq | hq | hq
      · exact hq ▸ he.aligned
      · exact hq ▸ (hpages pd (by simp)).aligned
      · exact hq ▸ hd.aligned
      · exact hq ▸ (hpages pdpt (by simp)).aligned
      · exact hq ▸ hmap.aligned
    · intro q hq hqp
      rw [List.mem_singleton.mp hqp] at hq
      simp only [Space.tables, List.mem_cons, List.not_mem_nil, or_false] at hq
      rcases hq with hq | hq | hq | hq | hq
      · exact hpmem.2.1 hq
      · exact hkeep p (by simp [hq]) (by simp)
      · exact hpmem.1 hq
      · exact hkeep p (by simp [hq]) (by simp)
      · exact hkeep p (by simp [hq]) (by simp)

/-- `CopyUVM` with three free pages copies the user page of the address space `S`. -/
theorem copyUVM_cons {d e : ℕ} {S : Space} (h : KernelSpace m n map pdpt pd)
    (hS : UserSpace m n S) (hSpages : ∀ q ∈ S.pages, IsPage image q)
    (hfree : Free image m (p :: d :: e :: xs))
    (hpages : ∀ q ∈ [map, pdpt, pd], IsPage image q)
    (hnodup : (S.pages ++ ([map, pdpt, pd] ++ p :: d :: e :: xs)).Nodup) :
  ∃ m', copyUVM image map S.map pageSize m = some (true, m') ∧ Free image m' xs
    ∧ Changes [map, p, d, e] m m' ∧ UserSpace m' n ⟨map, pdpt, pd, d, e, p⟩
    ∧ ∀ i, i < pageSize → m'.bytes (p + i) = m.bytes (S.page + i)
  := by
  have hp := hfree.isPage p (by simp)
  have hd := hfree.isPage d (by simp)
  have he := hfree.isPage e (by simp)
  have hpage := hSpages S.page (by simp [Space.pages])
  have huserPd := hSpages S.userPd (by simp [Space.pages, Space.tables])
  have hSkeep : ∀ t ∈ S.pages, t ∉ [map, p, d, e] := by
    intro t ht
    apply hnodup.not_mem_of_count_add_le S.pages _ _ ht
    intro a
    simp only [List.count_append, List.count_cons, List.count_nil]
    omega
  have hchanged : ∀ q ∈ [map, p, d, e], addrIsAligned q := by
    simp [(hpages map (by simp)).aligned, hp.aligned, hd.aligned, he.aligned]
  obtain ⟨m₁, m₂, hrun₁, hrun₂, hchange, hcopied⟩ := mapUserPage h hfree hpages
    (hnodup.of_count_le _ (by
      intro a
      simp only [List.count_append, List.count_cons]
      omega))
  have hS₂ : UserSpace m₂ n S := by
    apply hS.changes hchange hchanged
    · exact fun q hq => (hSpages q (List.mem_cons_of_mem _ hq)).aligned
    · exact fun q hq => hSkeep q (List.mem_cons_of_mem _ hq)
  have hfind := @findUserDirectory image m₂ S.map 0 (by
    intro q hq
    have hq' := (children_mapEntries hS₂.toKernelTables
      (hSpages _ (by simp [Space.pages, Space.tables]))
      (hSpages _ (by simp [Space.pages, Space.tables]))
      (hSpages _ (by simp [Space.pages, Space.tables])) hS₂.mapTable).1.mem_iff.mp hq
    apply (hSpages q _).ne_zero
    simp only [List.mem_cons, List.not_mem_nil, or_false] at hq'
    rcases hq' with rfl | rfl
    · simp [Space.pages, Space.tables]
    · simp [Space.pages, Space.tables])
  rw [hS₂.userDirectory hSpages, Option.getD_some] at hfind
  have hleaf := (hS₂.userEntry hpage).2
  have hpresent : Present (m₂.entry S.userPd 2) := by
    by_contra hn
    rw [leaf, if_neg hn] at hleaf
    cases hleaf
  rw [leaf, if_pos hpresent] at hleaf
  obtain ⟨hfree', hchange', hspace'⟩ := hcopied S.page pageSize (le_refl pageSize)
  refine ⟨m₂.copy p S.page pageSize, ?_, hfree', hchange', hspace', ?_⟩
  · rw [copyUVM_eq hrun₁ hp.ne_zero hrun₂ hfind huserPd.ne_zero hpresent,
      Option.some.inj hleaf]
  · intro i hi
    have hdisj : p + pageSize ≤ S.page ∨ S.page + pageSize ≤ p := by
      apply disjoint_of_aligned hp.aligned hpage.aligned
      intro e
      apply hSkeep S.page (by simp [Space.pages])
      simp [e]
    have hin : InPage S.page (S.page + i) := by
      constructor
      · omega
      · omega
    rw [Memory.copy_inside hdisj hi]
    apply hchange.byte hchanged hpage.aligned (hSkeep S.page (by simp [Space.pages])) hin

/-- `CopyUVM` without free pages fails at once. -/
theorem copyUVM_nil {current size : ℕ} (hfree : Free image m []) :
  copyUVM image map current size m = some (false, m)
  := by
  unfold copyUVM
  rw [hfree.kalloc_nil]
  rfl

/-- With one or two free pages the user page is not mapped, and the pages of the map are
freed with it. -/
theorem mapUserPage_fail (h : KernelSpace m n map pdpt pd)
    (hfree : Free image m (p :: xs)) (hlen : xs.length < 2)
    (hpages : ∀ q ∈ [map, pdpt, pd], IsPage image q)
    (hnodup : ([map, pdpt, pd] ++ p :: xs).Nodup) :
  ∃ m₁ m₂ m₃ m' ys, kalloc image m = some (p, m₁)
    ∧ mapPages image map userVirtualAddressBase (userVirtualAddressBase + pageSize)
      (virToPhy p) userAttributes (m₁.clear p) = some (false, m₂)
    ∧ kfree image p m₂ = some m₃ ∧ freeVM image map m₃ = some m'
    ∧ Free image m' ys ∧ ys.Perm ([map, pdpt, pd] ++ p :: xs)
    ∧ Changes ([map, pdpt, pd] ++ p :: xs) m m'
  := by
  have hp := hfree.isPage p (by simp)
  have hp' : ∀ q ∈ [p], addrIsAligned q := by
    simp [hp.aligned]
  obtain ⟨m₁, hrun₁, hfree₁, hchange₁, _⟩ := kalloc_clear hfree
  have h₁ : KernelSpace (m₁.clear p) n map pdpt pd := by
    apply h.changes hchange₁ hp' (fun q hq => (hpages q hq).aligned)
    intro q hq
    apply hnodup.not_mem_of_count_add_le [map, pdpt, pd] _ _ hq
    intro a
    simp only [List.count_append, List.count_cons, List.count_nil]
    omega
  obtain ⟨m₂, m₃, m', ys, hrun₂, hrun₃, hrun₄, hfree', hys, hchange'⟩ :=
    mapUser_fail h₁ hfree₁ hlen hp hpages (by
      apply hnodup.of_count_le
      intro a
      simp only [List.count_append, List.count_cons, List.count_nil]
      omega)
  refine ⟨m₁, m₂, m₃, m', ys, hrun₁, hrun₂, hrun₃, hrun₄, hfree', ?_, ?_⟩
  · apply List.perm_iff_count.mpr
    intro a
    simp only [List.count_append, List.count_cons, List.count_nil, hys.count_eq]
    omega
  · apply (hchange₁.mono _).trans (hchange'.mono _)
    · simp
    · intro q hq
      simp only [List.mem_cons, List.mem_append] at hq ⊢
      tauto

/-- `CopyUVM` with one or two free pages fails, and the pages of the new map are freed. -/
theorem copyUVM_fail {current size : ℕ} (h : KernelSpace m n map pdpt pd)
    (hfree : Free image m (p :: xs)) (hlen : xs.length < 2)
    (hpages : ∀ q ∈ [map, pdpt, pd], IsPage image q)
    (hnodup : ([map, pdpt, pd] ++ p :: xs).Nodup) :
  ∃ m' ys, copyUVM image map current size m = some (false, m') ∧ Free image m' ys
    ∧ ys.Perm ([map, pdpt, pd] ++ p :: xs) ∧ Changes ([map, pdpt, pd] ++ p :: xs) m m'
  := by
  obtain ⟨m₁, m₂, m₃, m', ys, hrun₁, hrun₂, hrun₃, hrun₄, hfree', hys, hchange⟩ :=
    mapUserPage_fail h hfree hlen hpages hnodup
  have hp := hfree.isPage p (by simp)
  exact ⟨m', ys, copyUVM_eq_fail hrun₁ hp.ne_zero hrun₂ hrun₃ hrun₄, hfree', hys, hchange⟩

/-- `SetupUVM` without free pages fails at once. -/
theorem setupUVM_nil {start size : ℕ} (hfree : Free image m []) :
  setupUVM image map start size m = some (false, m)
  := by
  unfold setupUVM
  rw [hfree.kalloc_nil]
  rfl

/-- `SetupUVM` with one or two free pages fails, and the pages of the map are freed. -/
theorem setupUVM_fail {start size : ℕ} (h : KernelSpace m n map pdpt pd)
    (hfree : Free image m (p :: xs)) (hlen : xs.length < 2)
    (hpages : ∀ q ∈ [map, pdpt, pd], IsPage image q)
    (hnodup : ([map, pdpt, pd] ++ p :: xs).Nodup) :
  ∃ m' ys, setupUVM image map start size m = some (false, m') ∧ Free image m' ys
    ∧ ys.Perm ([map, pdpt, pd] ++ p :: xs)
  := by
  obtain ⟨m₁, m₂, m₃, m', ys, hrun₁, hrun₂, hrun₃, hrun₄, hfree', hys, _⟩ :=
    mapUserPage_fail h hfree hlen hpages hnodup
  have hp := hfree.isPage p (by simp)
  refine ⟨m', ys, ?_, hfree', hys⟩
  unfold setupUVM
  rw [hrun₁]
  simp only [Option.bind_eq_bind, Option.bind_some]
  rw [if_neg hp.ne_zero, hrun₂, Option.bind_some, if_neg Bool.false_ne_true, hrun₃,
    Option.bind_some, hrun₄, Option.bind_some]

/-- `SetupUVM` with three free pages maps a user page. -/
theorem setupUVM_cons {d e start size : ℕ} (h : KernelSpace m n map pdpt pd)
    (hfree : Free image m (p :: d :: e :: xs)) (hsize : size ≤ pageSize)
    (hpages : ∀ q ∈ [map, pdpt, pd], IsPage image q)
    (hnodup : ([map, pdpt, pd] ++ p :: d :: e :: xs).Nodup) :
  ∃ m', setupUVM image map start size m = some (true, m') ∧ Free image m' xs
    ∧ Changes [map, p, d, e] m m' ∧ UserSpace m' n ⟨map, pdpt, pd, d, e, p⟩
  := by
  have hp := hfree.isPage p (by simp)
  obtain ⟨m₁, m₂, hrun₁, hrun₂, _, hcopied⟩ := mapUserPage h hfree hpages hnodup
  use m₂.copy p start size, setupUVM_eq hrun₁ hp.ne_zero hrun₂
  exact hcopied start size hsize

end User

end LarvaOS
