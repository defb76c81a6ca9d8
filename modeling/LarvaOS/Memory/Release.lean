import LarvaOS.Memory.Setup
import LarvaOS.Memory.Regions

/-!
# Giving back address spaces

`SetupKVM` takes three pages or none, and `FreeVM` gives back what `SetupKVM`,
`SetupUVM` and `CopyUVM` took.  When `SetupUVM` or `CopyUVM` fails, it gives back the
pages of the map as well, except when there was no free page at all, and when `CopyUVM`
does not find the page to copy: then it frees the new page twice.
-/

namespace LarvaOS

variable {image : Image} {m m' : Memory} {n : ℕ} {xs : List ℕ}

/-! ### Freeing without a free list

What the functions that free pages change in memory, whatever the free list is.
-/

/-- `kfree` puts a page in front of the list. -/
theorem kfree_changes {p : ℕ} (hrun : kfree image p m = some m') :
  Changes [p] m m' ∧ m'.freePageHead = p ∧ addrIsAligned p
    ∧ m'.bytes.readWord p = m.freePageHead % 256 ^ 8
  := by
  unfold kfree at hrun
  simp only [Option.bind_eq_bind, assert_bind_eq_some] at hrun
  obtain rfl := Option.some.inj hrun.2.2.2
  refine ⟨?_, rfl, hrun.1, ?_⟩
  · have hchange := @Changes.of_page p m (m.bytes.writeWord p m.freePageHead) (by
      intro x hx
      apply Bytes.writeWord_of_outside
      unfold InPage at hx
      rw [pageSize_eq] at hx
      omega)
    exact ⟨hchange.bytes, rfl, rfl⟩
  · apply Bytes.read_write_self

/-- The loop over the entries of a table changes the table and the pages it frees. -/
theorem freeEntries_changes {t : ℕ} (ht : addrIsAligned t) {indices : List ℕ}
    (hindices : indices.Nodup) (hlt : ∀ i ∈ indices, i < totalTableEntries)
    (hmem : t ∉ links m t indices) (hrun : freeEntries image t indices m = some m') :
  Changes (t :: links m t indices) m m' ∧ ∀ p ∈ links m t indices, addrIsAligned p
  := by
  induction indices generalizing m with
  | nil =>
      obtain rfl := Option.some.inj hrun
      exact ⟨Changes.refl _ _, by simp [links]⟩
  | cons i indices ih =>
      obtain ⟨hi, hindices⟩ := List.nodup_cons.mp hindices
      have hlt' : ∀ j ∈ indices, j < totalTableEntries :=
        fun j hj => hlt j (List.mem_cons_of_mem i hj)
      rw [freeEntries] at hrun
      by_cases hpresent : Present (m.entry t i)
      · rw [if_pos hpresent] at hrun
        rw [links_cons_of_present hpresent] at hmem ⊢
        generalize phyToVir (pageDirectoryTableAddress (m.entry t i)) = p at *
        rw [List.mem_cons, not_or] at hmem
        obtain ⟨m₁, hrun₁, hrun₂⟩ := Option.bind_eq_some_iff.mp hrun
        obtain ⟨hchange₁, _, hp, _⟩ := kfree_changes hrun₁
        have hset := Memory.changes_setEntry m₁ t (hlt i List.mem_cons_self) 0
        have hlinks : links (m₁.setEntry t i 0) t indices = links m t indices := by
          apply links_congr
          intro j hj
          have hne : j ≠ i := by
            rintro rfl
            exact hi hj
          rw [Memory.entry_setEntry_of_ne hne]
          exact hchange₁.entry (by simpa using hp) ht (by simpa using hmem.1) (hlt' j hj)
        obtain ⟨hchange₂, haligned⟩ := ih hindices hlt' (by rw [hlinks]; exact hmem.2) hrun₂
        rw [hlinks] at hchange₂ haligned
        constructor
        · apply ((hchange₁.mono _).trans (hset.mono _)).trans (hchange₂.mono _)
          · simp
          · simp
          · exact List.cons_subset_cons t (List.subset_cons_self p _)
        · intro q hq
          rcases List.mem_cons.mp hq with rfl | hq
          · exact hp
          · exact haligned q hq
      · rw [if_neg hpresent] at hrun
        rw [links_cons_of_not_present hpresent] at hmem ⊢
        exact ih hindices hlt' hmem hrun

/-- `FreePDTable` changes the tables that the map points to, and the pages it frees. -/
theorem freePDTableLoop_changes {map : ℕ} (hmap : addrIsAligned map) {indices : List ℕ}
    (hlt : ∀ i ∈ indices, i < totalTableEntries)
    (haligned : ∀ p ∈ links m map indices ++ (links m map indices).flatMap (children m),
      addrIsAligned p)
    (hnodup : (map :: (links m map indices
      ++ (links m map indices).flatMap (children m))).Nodup)
    (hrun : freePDTableLoop image map indices m = some m') :
  Changes (links m map indices ++ (links m map indices).flatMap (children m)) m m'
  := by
  induction indices generalizing m with
  | nil =>
      obtain rfl := Option.some.inj hrun
      exact Changes.refl _ _
  | cons i indices ih =>
      have hlt' : ∀ j ∈ indices, j < totalTableEntries :=
        fun j hj => hlt j (List.mem_cons_of_mem i hj)
      rw [freePDTableLoop] at hrun
      by_cases hpresent : Present (m.entry map i)
      · rw [if_pos hpresent] at hrun
        rw [links_cons_of_present hpresent] at hnodup haligned ⊢
        generalize phyToVir (pageDirectoryTableAddress (m.entry map i)) = d at *
        rw [List.flatMap_cons] at hnodup haligned ⊢
        obtain ⟨m₁, hrun₁, hrun₂⟩ := Option.bind_eq_some_iff.mp hrun
        have hd : addrIsAligned d := haligned d (by simp)
        have hself : d ∉ children m d := by
          apply hnodup.not_mem_of_count_add_le [d] _ _ (List.mem_singleton_self d)
          intro a
          simp only [List.count_cons, List.count_append, List.count_nil]
          omega
        obtain ⟨hchange₁, _⟩ := freeEntries_changes hd List.nodup_range
          (fun j hj => List.mem_range.mp hj) hself hrun₁
        change Changes (d :: children m d) m m₁ at hchange₁
        have hchanged : ∀ q ∈ d :: children m d, addrIsAligned q := by
          intro q hq
          apply haligned
          rcases List.mem_cons.mp hq with rfl | hq
          · simp
          · simp [hq]
        have hkeep : ∀ t ∈ map :: links m map indices, t ∉ d :: children m d := by
          intro t ht
          apply hnodup.not_mem_of_count_add_le (map :: links m map indices) _ _ ht
          intro a
          simp only [List.count_cons, List.count_append]
          omega
        have hlinks : links m₁ map indices = links m map indices :=
          hchange₁.links hchanged hmap (hkeep map (by simp)) hlt'
        have hflat : (links m map indices).flatMap (children m₁)
            = (links m map indices).flatMap (children m) := by
          apply List.flatMap_congr
          intro t ht
          apply hchange₁.children hchanged (haligned t (by simp [ht]))
          apply hkeep t (List.mem_cons_of_mem map ht)
        have hchange₂ := ih hlt'
          (by
            rw [hlinks, hflat]
            intro p hp
            apply haligned
            rcases List.mem_append.mp hp with hp | hp
            · simp [hp]
            · rw [List.mem_append, List.mem_append]
              exact Or.inr (Or.inr hp))
          (by
            rw [hlinks, hflat]
            apply hnodup.of_count_le
            intro a
            simp only [List.count_cons, List.count_append]
            omega) hrun₂
        rw [hlinks, hflat] at hchange₂
        apply (hchange₁.mono _).trans (hchange₂.mono _)
        · intro q hq
          rcases List.mem_cons.mp hq with rfl | hq
          · simp
          · simp [hq]
        · intro q hq
          rcases List.mem_append.mp hq with hq | hq
          · simp [hq]
          · rw [List.mem_append, List.mem_append]
            exact Or.inr (Or.inr hq)
      · rw [if_neg hpresent] at hrun
        rw [links_cons_of_not_present hpresent] at hnodup haligned ⊢
        exact ih hlt' haligned hnodup hrun

/-- Freeing the tables of an address space changes nothing but the tables. -/
theorem freeTables_changes {map : ℕ} {m₁ m₂ : Memory} (hmap : addrIsAligned map)
    (haligned : ∀ p ∈ children m map ++ (children m map).flatMap (children m), addrIsAligned p)
    (hnodup : (map :: (children m map ++ (children m map).flatMap (children m))).Nodup)
    (hrun₁ : freePDTable image map m = some m₁) (hrun₂ : freePDPTable image map m₁ = some m₂)
    (hrun₃ : freePML4Table image map m₂ = some m') :
  Changes (map :: (children m map ++ (children m map).flatMap (children m))) m m'
  := by
  have hchange₁ : Changes (children m map ++ (children m map).flatMap (children m)) m m₁ :=
    @freePDTableLoop_changes image m m₁ map hmap (List.range totalTableEntries)
      (fun i hi => List.mem_range.mp hi) haligned hnodup hrun₁
  obtain ⟨hmem, hnodup⟩ := List.nodup_cons.mp hnodup
  have hchildren := hchange₁.children haligned hmap hmem
  obtain ⟨hchange₂, _⟩ := @freeEntries_changes image m₁ m₂ map hmap (List.range totalTableEntries)
    List.nodup_range (fun i hi => List.mem_range.mp hi)
    (by
      change map ∉ children m₁ map
      rw [hchildren]
      exact fun h => hmem (List.mem_append_left _ h)) hrun₂
  change Changes (map :: children m₁ map) m₁ m₂ at hchange₂
  rw [hchildren] at hchange₂
  have hchange₃ := (kfree_changes hrun₃).1
  apply ((hchange₁.mono _).trans (hchange₂.mono _)).trans (hchange₃.mono _)
  · exact List.subset_cons_self _ _
  · exact List.cons_subset_cons map (List.subset_append_left _ _)
  · simp

/-! ### Freeing the user page twice -/

/-- The part of a free list from a page on. -/
theorem FreeList.suffix {b : Bytes} {p : ℕ} :
  ∀ {ys zs : List ℕ} {head : ℕ}, FreeList b head (ys ++ p :: zs) → FreeList b (b.readWord p) zs
  | [], _, _, h => h.2
  | _ :: _, _, _, h => FreeList.suffix h.2

/-- A page whose first word is its own address is on no free list. -/
theorem Free.not_mem_of_cycle {p : ℕ} (hfree : Free image m xs)
    (hcycle : m.bytes.readWord p = p) :
  p ∉ xs
  := by
  intro hmem
  obtain ⟨ys, zs, rfl⟩ := List.append_of_mem hmem
  have hp := hfree.isPage p hmem
  have hnodup := hfree.nodup
  have hlist := FreeList.suffix hfree.list
  rw [hcycle] at hlist
  cases zs with
  | nil => exact hp.ne_zero hlist
  | cons z zs =>
      obtain rfl := hlist.1
      exact (List.nodup_cons.mp hnodup.of_append_right).1 List.mem_cons_self

/-- The tables of an address space are what the map points to, directly or indirectly. -/
theorem UserSpace.tables_perm {S : Space} (h : UserSpace m n S)
    (hpages : ∀ q ∈ S.pages, IsPage image q) :
  (S.map :: (children m S.map ++ (children m S.map).flatMap (children m))).Perm S.tables
  := by
  have hpdpt := hpages S.pdpt (by simp [Space.pages, Space.tables])
  have hpd := hpages S.pd (by simp [Space.pages, Space.tables])
  have huserPdpt := hpages S.userPdpt (by simp [Space.pages, Space.tables])
  have huserPd := hpages S.userPd (by simp [Space.pages, Space.tables])
  obtain ⟨hchildren, hflat⟩ := children_mapEntries h.toKernelTables hpdpt hpd huserPdpt h.mapTable
  rw [children_pointer huserPd userAttributes_isAttribute h.userPdptTable] at hflat
  apply List.perm_iff_count.mpr
  intro a
  simp only [Space.tables, List.count_cons, List.count_append, List.count_nil, hchildren.count_eq,
    hflat.count_eq]
  omega

/-- `FreePages` on the user page of an address space. -/
theorem UserSpace.freePages {S : Space} (h : UserSpace m n S)
    (hpages : ∀ q ∈ S.pages, IsPage image q) {m₁ : Memory} (hrun : kfree image S.page m = some m₁) :
  LarvaOS.freePages image S.map userVirtualAddressBase (userVirtualAddressBase + pageSize) m
    = some (m₁.setEntry S.userPd 2 0)
  := by
  have haligned : addrIsAligned userVirtualAddressBase
      ∧ addrIsAligned (userVirtualAddressBase + pageSize) := by
    unfold addrIsAligned
    rw [userVirtualAddressBase_eq, pageSize_eq]
    decide
  have hpage := hpages S.page (by simp [Space.pages])
  have huserPd := hpages S.userPd (by simp [Space.pages, Space.tables])
  have hchildren := (children_mapEntries h.toKernelTables (hpages S.pdpt (by simp [Space.pages,
    Space.tables])) (hpages S.pd (by simp [Space.pages, Space.tables])) (hpages S.userPdpt
    (by simp [Space.pages, Space.tables])) h.mapTable).1
  have hfind := @findUserDirectory image m S.map 0 (by
    intro q hq
    rw [hchildren.mem_iff, List.mem_pair] at hq
    apply (hpages q _).ne_zero
    rcases hq with rfl | rfl
    · simp [Space.pages, Space.tables]
    · simp [Space.pages, Space.tables])
  rw [h.userDirectory hpages, Option.getD_some] at hfind
  have hleaf := (h.userEntry hpage).2
  have hpresent : Present (m.entry S.userPd 2) := by
    by_contra hn
    rw [leaf, if_neg hn] at hleaf
    cases hleaf
  rw [leaf, if_pos hpresent] at hleaf
  unfold LarvaOS.freePages
  rw [assert_of haligned.1, assert_of haligned.2]
  simp only [Option.bind_eq_bind, Option.bind_some]
  apply freePagesLoop_user (Nat.two_pow_pos 43) hfind
  rw [if_pos ⟨huserPd.ne_zero, hpresent⟩, Option.some.inj hleaf, hrun]
  rfl

/-- A user page that is freed before the address space it belongs to is linked to itself. -/
theorem UserSpace.freeVM_twice {S : Space} {m₁ : Memory} (h : UserSpace m n S)
    (hpages : ∀ q ∈ S.pages, IsPage image q) (hnodup : S.pages.Nodup)
    (hrun₁ : kfree image S.page m = some m₁) (hrun₂ : freeVM image S.map m₁ = some m') :
  m'.bytes.readWord S.page = S.page
  := by
  obtain ⟨hmem, hnodup⟩ := List.nodup_cons.mp hnodup
  have hpage := hpages S.page List.mem_cons_self
  have haligned : ∀ q ∈ S.tables, addrIsAligned q :=
    fun q hq => (hpages q (List.mem_cons_of_mem _ hq)).aligned
  obtain ⟨hchange₁, hhead, _⟩ := kfree_changes hrun₁
  have h₁ : UserSpace m₁ n S := by
    apply h.changes hchange₁ (by simpa using hpage.aligned) haligned
    intro q hq hqp
    exact hmem (List.mem_singleton.mp hqp ▸ hq)
  obtain ⟨m₂, hfree⟩ : ∃ m₂, kfree image S.page m₁ = some m₂ := by
    unfold kfree
    rw [assert_of hpage.aligned, assert_of hpage.lower, assert_of hpage.upper]
    exact ⟨_, rfl⟩
  obtain ⟨hchange₂, _, _, hcycle⟩ := kfree_changes hfree
  have hset := Memory.changes_setEntry m₂ S.userPd (i := 2) (by decide) 0
  obtain ⟨m₃, hrun₃, hrun⟩ := Option.bind_eq_some_iff.mp hrun₂
  obtain rfl := Option.some.inj (hrun₃.symm.trans (h₁.freePages hpages hfree))
  obtain ⟨m₄, hrun₄, hrun⟩ := Option.bind_eq_some_iff.mp hrun
  obtain ⟨m₅, hrun₅, hrun₆⟩ := Option.bind_eq_some_iff.mp hrun
  have hchange : Changes [S.page, S.userPd] m₁ (m₂.setEntry S.userPd 2 0) :=
    (hchange₂.mono (by simp)).trans (hset.mono (by simp))
  have hin : ∀ q ∈ [S.map, S.pdpt, S.userPdpt], q ∈ S.tables ∧ q ∉ [S.page, S.userPd] := by
    intro q hq
    have hmem' : q ∈ S.tables := by
      simp only [Space.tables, List.mem_cons, List.not_mem_nil, or_false] at hq ⊢
      rcases hq with rfl | rfl | rfl
      · simp
      · simp
      · simp
    use hmem'
    have huserPd := (List.nodup_cons.mp hnodup).1
    rw [List.mem_pair, not_or]
    constructor
    · rintro rfl
      exact hmem hmem'
    · rintro rfl
      apply huserPd
      simp only [List.mem_cons, List.not_mem_nil, or_false] at hq ⊢
      rcases hq with hq | hq | hq
      · simp [← hq]
      · simp [← hq]
      · simp [← hq]
  have hchanged : ∀ q ∈ [S.page, S.userPd], addrIsAligned q := by
    simp [hpage.aligned, haligned S.userPd (by simp [Space.tables])]
  have hsame : ∀ q ∈ [S.map, S.pdpt, S.userPdpt],
      children (m₂.setEntry S.userPd 2 0) q = children m₁ q := by
    intro q hq
    exact hchange.children hchanged (haligned q (hin q hq).1) (hin q hq).2
  have hchildren := (children_mapEntries h₁.toKernelTables
    (hpages S.pdpt (by simp [Space.pages, Space.tables]))
    (hpages S.pd (by simp [Space.pages, Space.tables]))
    (hpages S.userPdpt (by simp [Space.pages, Space.tables])) h₁.mapTable).1
  have hflat : (children m₁ S.map).flatMap (children (m₂.setEntry S.userPd 2 0))
      = (children m₁ S.map).flatMap (children m₁) := by
    apply List.flatMap_congr
    intro q hq
    apply hsame
    rw [hchildren.mem_iff, List.mem_pair] at hq
    rcases hq with rfl | rfl
    · simp
    · simp
  have hperm := h₁.tables_perm hpages
  rw [← hflat, ← hsame S.map (by simp)] at hperm
  have htables := freeTables_changes (haligned S.map (by simp [Space.tables]))
    (fun q hq => haligned q (hperm.mem_iff.mp (List.mem_cons_of_mem _ hq)))
    (hperm.nodup_iff.mpr hnodup) hrun₄ hrun₅ hrun₆
  have hword₁ := htables.word (fun q hq => haligned q (hperm.mem_iff.mp hq)) hpage.aligned
    (fun hq => hmem (hperm.mem_iff.mp hq)) 0 (by rw [pageSize_eq]; omega)
  have hword₂ := hset.word (by simpa using haligned S.userPd (by simp [Space.tables])) hpage.aligned
    (fun hq => hmem (by simp [Space.tables, List.mem_singleton.mp hq])) 0
    (by rw [pageSize_eq]; omega)
  rw [Nat.add_zero] at hword₁ hword₂
  rw [hword₁, hword₂, hcycle, hhead]
  exact Nat.mod_eq_of_lt (hpage.word.trans_le (by norm_num))

/-! ### What the functions that add a user page give back -/

/-- Looking for a directory without creating tables changes nothing. -/
theorem findDirectory_false (source v attr : ℕ) (m : Memory) :
  ∃ pd, findPageDirPointerTableEntry image source v false attr m = some (pd, m)
  := by
  unfold findPageDirPointerTableEntry findPML4TableEntry
  rw [findTableEntry_false, Option.bind_eq_bind, Option.bind_some]
  dsimp only
  split
  · exact ⟨0, rfl⟩
  · exact ⟨_, findTableEntry_false _ _ _ _⟩

section User

variable {map pdpt pd p d e : ℕ}

theorem Memory.copy_zero (m : Memory) (dest src : ℕ) :
  m.copy dest src 0 = m
  := by
  unfold Memory.copy memcpy
  rfl

/-- With three free pages `CopyUVM` either maps a user page, or it frees the page twice. -/
theorem copyUVM_outcome {source size : ℕ} {status : Bool} (h : KernelSpace m n map pdpt pd)
    (hfree : Free image m (p :: d :: e :: xs)) (hpages : ∀ q ∈ [map, pdpt, pd], IsPage image q)
    (hnodup : ([map, pdpt, pd] ++ p :: d :: e :: xs).Nodup)
    (hrun : copyUVM image map source size m = some (status, m')) :
  status = true ∧ (size ≤ pageSize → Free image m' xs ∧ UserSpace m' n ⟨map, pdpt, pd, d, e, p⟩)
    ∨ status = false ∧ m'.bytes.readWord p = p
  := by
  have hp := hfree.isPage p (by simp)
  have hSpages : ∀ q ∈ (Space.mk map pdpt pd d e p).pages, IsPage image q := by
    intro q hq
    simp only [Space.pages, Space.tables, List.mem_cons, List.not_mem_nil, or_false] at hq
    rcases hq with rfl | rfl | rfl | rfl | rfl | rfl
    · exact hp
    · exact hfree.isPage q (by simp)
    · exact hpages q (by simp)
    · exact hfree.isPage q (by simp)
    · exact hpages q (by simp)
    · exact hpages q (by simp)
  have hSnodup : (Space.mk map pdpt pd d e p).pages.Nodup := by
    apply hnodup.of_count_le
    intro a
    simp only [Space.pages, Space.tables, List.count_append, List.count_cons, List.count_nil]
    omega
  obtain ⟨m₁, m₂, hrun₁, hrun₂, _, hcopied⟩ := mapUserPage h hfree hpages hnodup
  have hspace := (hcopied 0 0 (Nat.zero_le _)).2.2
  rw [Memory.copy_zero] at hspace
  obtain ⟨pd', hfind⟩ := @findDirectory_false image source userVirtualAddressBase 0 m₂
  unfold copyUVM at hrun
  rw [hrun₁] at hrun
  simp only [Option.bind_eq_bind, Option.bind_some] at hrun
  rw [if_pos hp.ne_zero, hrun₂, Option.bind_some, if_pos rfl, hfind, Option.bind_some] at hrun
  split at hrun
  · obtain ⟨_, _, hrun⟩ := Option.bind_eq_some_iff.mp hrun
    obtain ⟨rfl, rfl⟩ := Prod.mk.inj (Option.some.inj hrun)
    left
    refine ⟨rfl, ?_⟩
    intro hsize
    obtain ⟨hfree', _, hspace'⟩ := hcopied _ size hsize
    exact ⟨hfree', hspace'⟩
  · obtain ⟨m₃, hkfree, hrun⟩ := Option.bind_eq_some_iff.mp hrun
    obtain ⟨m₄, hfreeVM, hrun⟩ := Option.bind_eq_some_iff.mp hrun
    obtain ⟨rfl, rfl⟩ := Prod.mk.inj (Option.some.inj hrun)
    right
    exact ⟨rfl, hspace.freeVM_twice hSpages hSnodup hkfree hfreeVM⟩

/-- The end of free memory that `RetrieveMemoryInfo` computes. -/
structure FreeMemoryEnd (m : Memory) : Prop where
  aligned : m.freeMemoryEndAddress % pageSize = 0
  lower : kernelVirtualAddressBase < m.freeMemoryEndAddress
  upper : m.freeMemoryEndAddress ≤ kernelVirtualAddressBase + 2 ^ 30

theorem FreeMemoryEnd.kernelEnd (h : FreeMemoryEnd m) :
  ∃ n, KernelEnd m n
  := by
  obtain ⟨haligned, hlo, hhi⟩ := h
  have hentries : totalTableEntries = 512 := rfl
  rw [kernelVirtualAddressBase_eq] at hlo hhi
  rw [pageSize_eq] at haligned
  refine ⟨(m.freeMemoryEndAddress - kernelVirtualAddressBase) / 2097152, ?_, ?_, ?_⟩
  · rw [kernelVirtualAddressBase_eq, pageSize_eq]
    omega
  · rw [kernelVirtualAddressBase_eq]
    omega
  · rw [kernelVirtualAddressBase_eq, hentries]
    omega

/-- The pages that are free after `FreeVM`. -/
def Restores (image : Image) (map : ℕ) (m : Memory) (xs : List ℕ) : Prop :=
  ∃ m' ys, freeVM image map m = some m' ∧ Free image m' ys ∧ ys.Perm xs

/-- `FreeVM` gives back a kernel map. -/
theorem KernelSpace.restores (h : KernelSpace m n map pdpt pd)
    (hpages : ∀ q ∈ [map, pdpt, pd], IsPage image q) (hfree : Free image m xs)
    (hnodup : ([map, pdpt, pd] ++ xs).Nodup) :
  Restores image map m ([map, pdpt, pd] ++ xs)
  := by
  have hvm := h.vmPages (hpages pdpt (by simp)) (hpages pd (by simp))
  obtain ⟨m', ys, hrun, hfree', hys, _⟩ := @freeVM_spec image m map xs hfree
    (by
      rw [hvm]
      intro q hq
      apply hpages
      simpa [or_comm, or_assoc, or_left_comm] using hq)
    (by
      rw [hvm]
      apply hnodup.of_count_le
      intro a
      simp only [List.count_append, List.count_cons, List.count_nil]
      omega)
  refine ⟨m', ys, hrun, hfree', hys.trans ?_⟩
  rw [hvm]
  apply List.perm_iff_count.mpr
  intro a
  simp only [List.count_append, List.count_cons, List.count_nil]
  omega

/-- `FreeVM` gives back an address space with a user page. -/
theorem UserSpace.restores {S : Space} (h : UserSpace m n S)
    (hpages : ∀ q ∈ S.pages, IsPage image q) (hfree : Free image m xs)
    (hnodup : (S.pages ++ xs).Nodup) :
  Restores image S.map m (S.pages ++ xs)
  := by
  have hvm := h.vmPages hpages
  obtain ⟨m', ys, hrun, hfree', hys, _⟩ := @freeVM_spec image m S.map xs hfree
    (fun q hq => hpages q (hvm.mem_iff.mp hq)) ((hvm.append_right xs).nodup_iff.mpr hnodup)
  exact ⟨m', ys, hrun, hfree', hys.trans (hvm.append_right xs)⟩

/-- What a successful `SetupKVM` did. -/
theorem setupKVM_taken (hfree : Free image m xs) (hend : KernelEnd m n)
    (hrun : setupKVM image m = some (map, m')) (hmap : map ≠ 0) :
  ∃ b c ys, xs = map :: b :: c :: ys ∧ Free image m' ys ∧ KernelSpace m' n map b c
    ∧ (∀ q ∈ [map, b, c], IsPage image q) ∧ ([map, b, c] ++ ys).Nodup
  := by
  by_cases hlen : xs.length < 3
  · obtain ⟨_, _, hfail, _⟩ := setupKVM_fail hend hfree hlen
    obtain ⟨rfl, _⟩ := Prod.mk.inj (Option.some.inj (hrun.symm.trans hfail))
    exact absurd rfl hmap
  · match xs, hlen with
    | a :: b :: c :: ys, _ =>
        obtain ⟨m₁, hrun₁, hfree₁, _, hspace⟩ := setupKVM_cons hend hfree
        obtain ⟨rfl, rfl⟩ := Prod.mk.inj (Option.some.inj (hrun.symm.trans hrun₁))
        refine ⟨b, c, ys, rfl, hfree₁, hspace, ?_, hfree.nodup⟩
        intro q hq
        apply hfree.isPage q
        simp only [List.mem_cons, List.not_mem_nil, or_false] at hq ⊢
        rcases hq with hq | hq | hq
        · exact Or.inl hq
        · exact Or.inr (Or.inl hq)
        · exact Or.inr (Or.inr (Or.inl hq))
    | [], h => exact absurd (Nat.zero_lt_succ 2) h
    | [_], h => exact absurd (Nat.succ_lt_succ (Nat.zero_lt_succ 1)) h
    | [_, _], h => exact absurd (Nat.lt_succ_self 2) h

/-- `SetupUVM` and `CopyUVM`, on the map. -/
inductive AddsUser (image : Image) (map : ℕ) (m : Memory) (status : Bool) (m' : Memory) : ℕ → Prop
  | setupUVM {start size : ℕ} : LarvaOS.setupUVM image map start size m = some (status, m') →
      AddsUser image map m status m' size
  | copyUVM {source size : ℕ} : LarvaOS.copyUVM image map source size m = some (status, m') →
      AddsUser image map m status m' size

/-- With three free pages a user page is added, or the page is freed twice. -/
theorem AddsUser.outcome {size : ℕ} {status : Bool} (hrun : AddsUser image map m status m' size)
    (h : KernelSpace m n map pdpt pd) (hfree : Free image m (p :: d :: e :: xs))
    (hpages : ∀ q ∈ [map, pdpt, pd], IsPage image q)
    (hnodup : ([map, pdpt, pd] ++ p :: d :: e :: xs).Nodup) :
  status = true ∧ (size ≤ pageSize → Free image m' xs ∧ UserSpace m' n ⟨map, pdpt, pd, d, e, p⟩)
    ∨ status = false ∧ m'.bytes.readWord p = p
  := by
  cases hrun with
  | copyUVM hrun => exact copyUVM_outcome h hfree hpages hnodup hrun
  | @setupUVM start size hrun =>
      have hp := hfree.isPage p (by simp)
      obtain ⟨m₁, m₂, hrun₁, hrun₂, _, hcopied⟩ := mapUserPage h hfree hpages hnodup
      obtain ⟨rfl, rfl⟩ := Prod.mk.inj (Option.some.inj
        (hrun.symm.trans (setupUVM_eq hrun₁ hp.ne_zero hrun₂)))
      left
      refine ⟨rfl, ?_⟩
      intro hsize
      obtain ⟨hfree', _, hspace'⟩ := hcopied start size hsize
      exact ⟨hfree', hspace'⟩

/-- With one or two free pages no user page is added, and the pages of the map are free. -/
theorem AddsUser.fail {size : ℕ} {status : Bool} (hrun : AddsUser image map m status m' size)
    (h : KernelSpace m n map pdpt pd) (hfree : Free image m (p :: xs)) (hlen : xs.length < 2)
    (hpages : ∀ q ∈ [map, pdpt, pd], IsPage image q)
    (hnodup : ([map, pdpt, pd] ++ p :: xs).Nodup) :
  status = false ∧ ∃ ys, Free image m' ys ∧ ys.Perm ([map, pdpt, pd] ++ p :: xs)
  := by
  cases hrun with
  | copyUVM hrun =>
      obtain ⟨m₁, ys, hrun₁, hfree₁, hys, _⟩ := copyUVM_fail h hfree hlen hpages hnodup
      obtain ⟨rfl, rfl⟩ := Prod.mk.inj (Option.some.inj (hrun.symm.trans hrun₁))
      exact ⟨rfl, ys, hfree₁, hys⟩
  | setupUVM hrun =>
      obtain ⟨m₁, ys, hrun₁, hfree₁, hys⟩ := setupUVM_fail h hfree hlen hpages hnodup
      obtain ⟨rfl, rfl⟩ := Prod.mk.inj (Option.some.inj (hrun.symm.trans hrun₁))
      exact ⟨rfl, ys, hfree₁, hys⟩

/-- Without free pages no user page is added, and nothing changes. -/
theorem AddsUser.nil {size : ℕ} {status : Bool} (hrun : AddsUser image map m status m' size)
    (hfree : Free image m []) :
  status = false ∧ m' = m
  := by
  cases hrun with
  | copyUVM hrun =>
      obtain ⟨rfl, rfl⟩ := Prod.mk.inj (Option.some.inj (hrun.symm.trans (copyUVM_nil hfree)))
      exact ⟨rfl, rfl⟩
  | setupUVM hrun =>
      obtain ⟨rfl, rfl⟩ := Prod.mk.inj (Option.some.inj (hrun.symm.trans (setupUVM_nil hfree)))
      exact ⟨rfl, rfl⟩

end User

/-- After a user page was added to a kernel map, `FreeVM` gives back all pages of it. -/
theorem AddsUser.restores {map b c size : ℕ} (hrun : AddsUser image map m true m' size)
    (hsize : size ≤ pageSize) (h : KernelSpace m n map b c)
    (hpages : ∀ q ∈ [map, b, c], IsPage image q) (hfree : Free image m xs)
    (hnodup : ([map, b, c] ++ xs).Nodup) :
  Restores image map m' ([map, b, c] ++ xs)
  := by
  match xs, hfree with
  | [], hfree => cases (hrun.nil hfree).1
  | [p], hfree => cases (hrun.fail h hfree Nat.two_pos hpages hnodup).1
  | [p, d], hfree => cases (hrun.fail h hfree Nat.one_lt_two hpages hnodup).1
  | p :: d :: e :: ys, hfree =>
      obtain ⟨_, hmapped⟩ | ⟨hstatus, _⟩ := hrun.outcome h hfree hpages hnodup
      · obtain ⟨hfree', hspace⟩ := hmapped hsize
        have hperm : ((Space.mk map b c d e p).pages ++ ys).Perm
            ([map, b, c] ++ p :: d :: e :: ys) := by
          apply List.perm_iff_count.mpr
          intro a
          simp only [Space.pages, Space.tables, List.count_append, List.count_cons,
            List.count_nil]
          omega
        have hSpages : ∀ q ∈ (Space.mk map b c d e p).pages, IsPage image q := by
          intro q hq
          have hmem := hperm.mem_iff.mp (List.mem_append_left ys hq)
          rcases List.mem_append.mp hmem with hq | hq
          · exact hpages q hq
          · exact hfree.isPage q hq
        obtain ⟨m'', zs, hfreeVM, hzs, hall⟩ :=
          hspace.restores hSpages hfree' (hperm.nodup_iff.mpr hnodup)
        exact ⟨m'', zs, hfreeVM, hzs, hall.trans hperm⟩
      · cases hstatus

/-- `SetupKVM` takes three pages or none, and `FreeVM` restores the free pages, also when
a user page was added. -/
theorem setupKVM_freeVM (hfree : Free image m xs) (hend : FreeMemoryEnd m) :
  ∃ map m₁, setupKVM image m = some (map, m₁)
    ∧ (map = 0 ∧ (∃ ys, Free image m₁ ys ∧ ys.Perm xs)
      ∨ map ≠ 0 ∧ (∃ a b c ys, xs = a :: b :: c :: ys ∧ Free image m₁ ys)
        ∧ Restores image map m₁ xs
        ∧ ∀ size m₂, size ≤ pageSize → AddsUser image map m₁ true m₂ size →
            Restores image map m₂ xs)
  := by
  obtain ⟨n, hn⟩ := hend.kernelEnd
  by_cases hlen : xs.length < 3
  · obtain ⟨m₁, ys, hrun, hfree₁, hys, _⟩ := setupKVM_fail hn hfree hlen
    exact ⟨0, m₁, hrun, Or.inl ⟨rfl, ys, hfree₁, hys⟩⟩
  · obtain ⟨map, m₁, hrun, hmap⟩ : ∃ map m₁, setupKVM image m = some (map, m₁) ∧ map ≠ 0 := by
      match xs, hlen with
      | a :: b :: c :: ys, _ =>
          obtain ⟨m₁, hrun, _⟩ := setupKVM_cons hn hfree
          exact ⟨a, m₁, hrun, (hfree.isPage a List.mem_cons_self).ne_zero⟩
      | [], h => exact absurd (Nat.zero_lt_succ 2) h
      | [_], h => exact absurd (Nat.succ_lt_succ (Nat.zero_lt_succ 1)) h
      | [_, _], h => exact absurd (Nat.lt_succ_self 2) h
    obtain ⟨b, c, ys, rfl, hfree₁, hspace, hpages, hnodup⟩ := setupKVM_taken hfree hn hrun hmap
    refine ⟨map, m₁, hrun, Or.inr ⟨hmap, ⟨map, b, c, ys, rfl, hfree₁⟩, ?_, ?_⟩⟩
    · exact hspace.restores hpages hfree₁ hnodup
    · intro size m₂ hsize hadds
      exact hadds.restores hsize hspace hpages hfree₁ hnodup

/-- Memory with `n` free pages. -/
theorem smallMemory {n : ℕ} (hlo : 0 < n) (hhi : n ≤ 510) :
  ∃ m, Free smallImage m (regionPages (kernelVirtualAddressBase + 0x400000) n) ∧ FreeMemoryEnd m
  := by
  have hlower : smallImage.lKernelEnd < kernelVirtualAddressBase + 0x400000 :=
    Nat.add_lt_add_left (by decide) _
  have hlt : n < 2 ^ 43 := by omega
  obtain ⟨m, _, hfree, hend⟩ := @retrieveMemoryInfo_pages smallImage emptyMemory
    (kernelVirtualAddressBase + 0x400000) ⟨n, hlt⟩ rfl (by rw [kernelVirtualAddressBase_eq]) hlower
    (by
      rw [virtualAddressEnd_eq, kernelVirtualAddressBase_eq, pageSize_eq]
      dsimp only
      omega) hlo
  rw [pageSize_eq] at hend
  dsimp only at hend
  refine ⟨m, hfree, ?_, ?_, ?_⟩
  · rw [hend, pageSize_eq, kernelVirtualAddressBase_eq]
    omega
  · rw [hend]
    omega
  · rw [hend]
    omega

/-- Memory with three free pages and more, after `SetupKVM`. -/
theorem smallMemory_setupKVM {n : ℕ} (hhi : n ≤ 507) :
  ∃ m m₁ xs ys map, Free smallImage m xs ∧ xs.length = n + 3 ∧ FreeMemoryEnd m
    ∧ setupKVM smallImage m = some (map, m₁) ∧ map ≠ 0 ∧ Free smallImage m₁ ys ∧ ys.length = n
  := by
  obtain ⟨m, hfree, hend⟩ := @smallMemory (n + 3) (by omega) (by omega)
  rw [regionPages_succ, regionPages_succ, regionPages_succ] at hfree
  obtain ⟨k, hk⟩ := hend.kernelEnd
  obtain ⟨m₁, hrun, hfree₁, _⟩ := setupKVM_cons hk hfree
  refine ⟨m, m₁, _, _, _, hfree, ?_, hend, hrun, (hfree.isPage _ List.mem_cons_self).ne_zero,
    hfree₁, ?_⟩
  · simp [regionPages]
  · simp [regionPages]

/-- The pages of an address space whose user part is new. -/
theorem space_pages {map pdpt pd p d e : ℕ} (hfree : Free image m (p :: d :: e :: xs))
    (hpages : ∀ q ∈ [map, pdpt, pd], IsPage image q)
    (hnodup : ([map, pdpt, pd] ++ p :: d :: e :: xs).Nodup) :
  (∀ q ∈ (Space.mk map pdpt pd d e p).pages, IsPage image q)
    ∧ ((Space.mk map pdpt pd d e p).pages ++ xs).Nodup
  := by
  constructor
  · intro q hq
    simp only [Space.pages, Space.tables, List.mem_cons, List.not_mem_nil, or_false] at hq
    rcases hq with rfl | rfl | rfl | rfl | rfl | rfl
    · exact hfree.isPage _ (by simp)
    · exact hfree.isPage _ (by simp)
    · exact hpages _ (by simp)
    · exact hfree.isPage _ (by simp)
    · exact hpages _ (by simp)
    · exact hpages _ (by simp)
  · apply (List.Perm.nodup_iff (List.perm_iff_count.mpr _)).mpr hnodup
    intro x
    simp only [Space.pages, Space.tables, List.cons_append, List.nil_append, List.count_cons]
    omega

/-- A memory with an address space and a free page. -/
theorem smallMemory_userSpace :
  ∃ m n S a xs, UserSpace m n S ∧ n ≤ totalTableEntries ∧ (∀ p ∈ S.pages, IsPage smallImage p)
    ∧ (S.pages ++ a :: xs).Nodup ∧ Free smallImage m (a :: xs)
  := by
  obtain ⟨m, hfree, hend⟩ := @smallMemory 7 (by decide) (by decide)
  simp only [regionPages_succ] at hfree
  obtain ⟨n, hn⟩ := hend.kernelEnd
  obtain ⟨m₁, hrun, hfree₁, _⟩ := setupKVM_cons hn hfree
  obtain ⟨b, c, ys, hxs, hfree', hspace, hpages, hnodup⟩ :=
    setupKVM_taken hfree hn hrun (hfree.isPage _ List.mem_cons_self).ne_zero
  simp only [List.cons.injEq, true_and] at hxs
  obtain ⟨rfl, rfl, rfl⟩ := hxs
  obtain ⟨m₂, _, hfree₂, _, huser⟩ := @setupUVM_cons _ _ _ _ _ _ _ _ _ _ 0 0 hspace hfree'
    (Nat.zero_le _) hpages hnodup
  obtain ⟨hpages', hnodup'⟩ := space_pages hfree' hpages hnodup
  exact ⟨m₂, n, _, _, _, huser, hn.le, hpages', hnodup', hfree₂⟩

/-- With five free pages `SetupKVM` takes three of them, and `FreeVM` gives them back. -/
theorem setupKVM_freeVM_small :
  ∃ m m₁ xs map, Free smallImage m xs ∧ xs.length = 5 ∧ setupKVM smallImage m = some (map, m₁)
    ∧ map ≠ 0 ∧ Restores smallImage map m₁ xs
  := by
  obtain ⟨m, m₁, xs, _, map, hfree, hlen, hend, hrun, hmap, _⟩ :=
    @smallMemory_setupKVM 2 (by decide)
  refine ⟨m, m₁, xs, map, hfree, hlen, hrun, hmap, ?_⟩
  obtain ⟨map', m₁', hrun', ⟨rfl, _⟩ | ⟨_, _, hrestores, _⟩⟩ := setupKVM_freeVM hfree hend
  · obtain ⟨rfl, _⟩ := Prod.mk.inj (Option.some.inj (hrun.symm.trans hrun'))
    exact absurd rfl hmap
  · obtain ⟨rfl, rfl⟩ := Prod.mk.inj (Option.some.inj (hrun.symm.trans hrun'))
    exact hrestores

/-- When no user page is added to a kernel map, the free pages are afterwards the pages that
were free before and the pages of the map, if and only if one or two pages were free. -/
theorem userMapping_releases {map : ℕ} (hfree : Free image m xs) (hend : FreeMemoryEnd m)
    (hrun : setupKVM image m = some (map, m')) (hmap : map ≠ 0) :
  ∃ tables ys, Free image m' ys ∧ xs = tables ++ ys ∧ (vmPages m' map).Perm tables
    ∧ ∀ size m₂, AddsUser image map m' false m₂ size →
      ((∃ zs, Free image m₂ zs ∧ zs.Perm (tables ++ ys)) ↔ ys.length = 1 ∨ ys.length = 2)
  := by
  obtain ⟨n, hn⟩ := hend.kernelEnd
  obtain ⟨b, c, ys, rfl, hfree', hspace, hpages, hnodup⟩ := setupKVM_taken hfree hn hrun hmap
  refine ⟨[map, b, c], ys, hfree', rfl, ?_, ?_⟩
  · rw [hspace.vmPages (hpages b (by simp)) (hpages c (by simp))]
    exact List.reverse_perm [map, b, c]
  · intro size m₂ hadds
    match ys, hfree' with
    | [], hfree' =>
        obtain ⟨_, rfl⟩ := hadds.nil hfree'
        constructor
        · rintro ⟨zs, hzs, hperm⟩
          obtain rfl := hzs.unique hfree'
          cases hperm.length_eq
        · simp
    | [p], hfree' =>
        have hfail := (hadds.fail hspace hfree' Nat.two_pos hpages hnodup).2
        exact iff_of_true hfail (Or.inl rfl)
    | [p, d], hfree' =>
        have hfail := (hadds.fail hspace hfree' Nat.one_lt_two hpages hnodup).2
        exact iff_of_true hfail (Or.inr rfl)
    | p :: d :: e :: ys, hfree' =>
        obtain ⟨hstatus, _⟩ | ⟨_, hcycle⟩ := hadds.outcome hspace hfree' hpages hnodup
        · cases hstatus
        · constructor
          · rintro ⟨zs, hzs, hperm⟩
            exact (hzs.not_mem_of_cycle hcycle (hperm.mem_iff.mpr (by simp))).elim
          · intro hlen
            simp only [List.length_cons] at hlen
            omega

/-- Without free pages `SetupUVM` does not give back the map that `SetupKVM` built. -/
theorem userMapping_leaks :
  ∃ m m₁ m₂ xs map, Free smallImage m xs ∧ FreeMemoryEnd m
    ∧ setupKVM smallImage m = some (map, m₁) ∧ map ≠ 0 ∧ Free smallImage m₁ []
    ∧ setupUVM smallImage map 0 0 m₁ = some (false, m₂)
    ∧ ¬ ∃ zs, Free smallImage m₂ zs ∧ zs.Perm xs
  := by
  obtain ⟨m, m₁, xs, ys, map, hfree, hlen, hend, hrun, hmap, hfree₁, hys⟩ :=
    @smallMemory_setupKVM 0 (Nat.zero_le _)
  obtain rfl := List.length_eq_zero_iff.mp hys
  refine ⟨m, m₁, m₁, xs, map, hfree, hend, hrun, hmap, hfree₁, setupUVM_nil hfree₁, ?_⟩
  rintro ⟨zs, hzs, hperm⟩
  obtain rfl := hzs.unique hfree₁
  rw [← hperm.length_eq] at hlen
  cases hlen

/-- With one free page `SetupUVM` gives back that page and the map. -/
theorem userMapping_releases_small :
  ∃ m m₁ m₂ xs map, Free smallImage m xs ∧ setupKVM smallImage m = some (map, m₁)
    ∧ setupUVM smallImage map 0 0 m₁ = some (false, m₂)
    ∧ ∃ zs, Free smallImage m₂ zs ∧ zs.Perm xs
  := by
  obtain ⟨m, m₁, xs, ys, map, hfree, hlen, hend, hrun, hmap, hfree₁, hys⟩ :=
    @smallMemory_setupKVM 1 (by decide)
  obtain ⟨tables, ys', hfree₁', rfl, _, hreleases⟩ := userMapping_releases hfree hend hrun hmap
  obtain rfl := hfree₁.unique hfree₁'
  obtain ⟨n, hn⟩ := hend.kernelEnd
  obtain ⟨b, c, zs, heq, hfree₂, hspace, hpages, hnodup⟩ := setupKVM_taken hfree hn hrun hmap
  obtain rfl := hfree₁.unique hfree₂
  obtain ⟨p, rfl⟩ := List.length_eq_one_iff.mp hys
  obtain ⟨m₂, _, hfail, _⟩ := @setupUVM_fail smallImage m₁ n [] map b c p 0 0 hspace hfree₁
    Nat.two_pos hpages hnodup
  refine ⟨m, m₁, m₂, _, map, hfree, hrun, hfail, ?_⟩
  exact (hreleases 0 m₂ (AddsUser.setupUVM hfail)).mpr (Or.inl rfl)

end LarvaOS
