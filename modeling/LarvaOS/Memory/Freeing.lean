import LarvaOS.Library.Counting
import LarvaOS.Memory.Tables

/-!
# Freeing an address space

`vmPages m map` are the pages of the address space `map` in the memory `m`: the user
page, the page directories, the page directory pointer tables and the map itself.
`FreeVM` puts exactly these pages on the free list, provided that they are different
pages and none of them is free already.
-/

namespace LarvaOS

variable {image : Image}

/-- The tables that the entries `indices` of the table `t` point to. -/
def links (m : Memory) (t : ℕ) (indices : List ℕ) : List ℕ :=
  indices.filterMap (fun i => link (m.entry t i))

/-- The tables that a table points to. -/
def children (m : Memory) (t : ℕ) : List ℕ := links m t (List.range totalTableEntries)

/-- The page directory that the walk of a user address reaches. -/
def userDirectory (m : Memory) (map : ℕ) : Option ℕ :=
  (link (m.entry map 0)).bind (fun pdpt => link (m.entry pdpt 0))

/-- The user page of an address space. -/
def userPage (m : Memory) (map : ℕ) : Option ℕ :=
  (userDirectory m map).bind (fun pd => leaf (m.entry pd 2))

/-- The pages of an address space. -/
def vmPages (m : Memory) (map : ℕ) : List ℕ :=
  (userPage m map).toList ++ (children m map).flatMap (children m) ++ children m map ++ [map]

theorem mem_vmPages {m : Memory} {map p : ℕ} :
  p ∈ vmPages m map ↔ userPage m map = some p ∨ p ∈ (children m map).flatMap (children m)
    ∨ p ∈ children m map ∨ p = map
  := by
  simp only [vmPages, List.mem_append, Option.mem_toList, List.mem_singleton,
    or_assoc]

/-- Links depend only on the entries of their table. -/
theorem links_congr {m m' : Memory} {t : ℕ} {indices : List ℕ}
    (h : ∀ i ∈ indices, m'.entry t i = m.entry t i) :
  links m' t indices = links m t indices
  := by
  apply List.filterMap_congr
  intro i hi
  rw [h i hi]

theorem Changes.links {m m' : Memory} {ps : List ℕ} {t : ℕ} {indices : List ℕ}
    (h : Changes ps m m') (hps : ∀ q ∈ ps, addrIsAligned q) (ht : addrIsAligned t)
    (hmem : t ∉ ps) (hlt : ∀ i ∈ indices, i < totalTableEntries) :
  LarvaOS.links m' t indices = LarvaOS.links m t indices
  := by
  apply links_congr
  intro i hi
  apply h.entry hps ht hmem (hlt i hi)

theorem Changes.children {m m' : Memory} {ps : List ℕ} {t : ℕ} (h : Changes ps m m')
    (hps : ∀ q ∈ ps, addrIsAligned q) (ht : addrIsAligned t) (hmem : t ∉ ps) :
  LarvaOS.children m' t = LarvaOS.children m t
  := by
  apply h.links hps ht hmem
  intro i hi
  exact List.mem_range.mp hi

theorem links_cons_of_not_present {m : Memory} {t i : ℕ} {indices : List ℕ}
    (h : ¬ Present (m.entry t i)) :
  links m t (i :: indices) = links m t indices
  := by
  apply List.filterMap_cons_none
  exact if_neg h

theorem links_cons_of_present {m : Memory} {t i : ℕ} {indices : List ℕ}
    (h : Present (m.entry t i)) :
  links m t (i :: indices)
    = phyToVir (pageDirectoryTableAddress (m.entry t i)) :: links m t indices
  := by
  apply List.filterMap_cons_some
  exact if_pos h

/-- Freeing the page that an entry points to, and clearing the entry. -/
theorem freeEntry {m : Memory} {t i p : ℕ} {xs : List ℕ} (hfree : Free image m xs)
    (ht : addrIsAligned t) (hi : i < totalTableEntries) (hp : IsPage image p)
    (hmem : p ∉ xs) (htp : t ≠ p) (htxs : t ∉ xs) :
  ∃ m', kfree image p m = some m' ∧ Free image (m'.setEntry t i 0) (p :: xs)
    ∧ Changes [t, p] m (m'.setEntry t i 0)
    ∧ ∀ j, j < totalTableEntries → j ≠ i → (m'.setEntry t i 0).entry t j = m.entry t j
  := by
  obtain ⟨m', hrun, hfree', hchange⟩ := hfree.kfree hp hmem
  have hset := Memory.changes_setEntry m' t hi 0
  use m', hrun
  refine ⟨?_, ?_, ?_⟩
  · apply hfree'.changes hset rfl
    · simpa using ht
    · simpa using ⟨htp, htxs⟩
  · exact (hchange.mono (by simp)).trans (hset.mono (by simp))
  · intro j hj hne
    rw [Memory.entry_setEntry_of_ne hne]
    apply hchange.entry (by simpa using hp.aligned) ht (by simpa using htp) hj

/-- The loop over the entries of a table frees the tables they point to. -/
theorem freeEntries_spec {t : ℕ} (ht : addrIsAligned t) {indices : List ℕ} {m : Memory}
    {xs : List ℕ} (hfree : Free image m xs) (hindices : indices.Nodup)
    (hlt : ∀ i ∈ indices, i < totalTableEntries) (hnodup : (links m t indices ++ xs).Nodup)
    (hpages : ∀ p ∈ links m t indices, IsPage image p) (hmem : t ∉ links m t indices ++ xs) :
  ∃ m' ys, freeEntries image t indices m = some m' ∧ Free image m' ys
    ∧ ys.Perm (links m t indices ++ xs) ∧ Changes (t :: links m t indices) m m'
  := by
  induction indices generalizing m xs with
  | nil => exact ⟨m, xs, rfl, hfree, List.Perm.refl _, Changes.refl _ _⟩
  | cons i indices ih =>
      obtain ⟨hi, hindices⟩ := List.nodup_cons.mp hindices
      have hlt' : ∀ j ∈ indices, j < totalTableEntries :=
        fun j hj => hlt j (List.mem_cons_of_mem i hj)
      rw [freeEntries]
      by_cases hpresent : Present (m.entry t i)
      · rw [if_pos hpresent]
        rw [links_cons_of_present hpresent] at hnodup hpages hmem ⊢
        generalize phyToVir (pageDirectoryTableAddress (m.entry t i)) = p at *
        rw [List.cons_append] at hnodup hmem
        obtain ⟨hpmem, hnodup'⟩ := List.nodup_cons.mp hnodup
        rw [List.mem_append, not_or] at hpmem
        rw [List.mem_cons, not_or, List.mem_append, not_or] at hmem
        obtain ⟨m₁, hrun, hfree₁, hchange₁, hentry⟩ := freeEntry hfree ht
          (hlt i List.mem_cons_self) (hpages p List.mem_cons_self) hpmem.2 hmem.1 hmem.2.2
        have hlinks : links (m₁.setEntry t i 0) t indices = links m t indices := by
          apply links_congr
          intro j hj
          apply hentry j (hlt' j hj)
          rintro rfl
          exact hi hj
        have hperm : (links m t indices ++ p :: xs).Perm (p :: (links m t indices ++ xs)) :=
          List.perm_middle
        rw [← hlinks] at hperm
        obtain ⟨m', ys, hrun', hfree', hys, hchange⟩ := ih hfree₁ hindices hlt'
          (hperm.nodup_iff.mpr (by rwa [hlinks]))
          (by
            rw [hlinks]
            exact fun q hq => hpages q (List.mem_cons_of_mem p hq))
          (by
            rw [hperm.mem_iff, hlinks]
            simpa using hmem)
        rw [hlinks] at hperm hchange
        use m', ys
        refine ⟨?_, hfree', hys.trans (by rwa [hlinks]), ?_⟩
        · rw [hrun]
          exact hrun'
        · apply (hchange₁.mono _).trans (hchange.mono _)
          · simp
          · apply List.cons_subset_cons t (List.subset_cons_self p _)
      · rw [if_neg hpresent]
        rw [links_cons_of_not_present hpresent] at hnodup hpages hmem ⊢
        apply ih hfree hindices hlt' hnodup hpages hmem

/-- Freeing everything that a table points to. -/
theorem freeChildren_spec {t : ℕ} (ht : addrIsAligned t) {m : Memory} {xs : List ℕ}
    (hfree : Free image m xs) (hpages : ∀ p ∈ children m t, IsPage image p)
    (hnodup : (t :: (children m t ++ xs)).Nodup) :
  ∃ m' ys, freeEntries image t (List.range totalTableEntries) m = some m' ∧ Free image m' ys
    ∧ ys.Perm (children m t ++ xs) ∧ Changes (t :: children m t) m m'
  := by
  obtain ⟨hmem, hnodup⟩ := List.nodup_cons.mp hnodup
  apply freeEntries_spec ht hfree List.nodup_range _ hnodup hpages hmem
  intro i hi
  exact List.mem_range.mp hi

/-- `FreePDTable` frees the page directories. -/
theorem freePDTableLoop_spec {map : ℕ} (hmap : addrIsAligned map) {indices : List ℕ} {m : Memory}
    {xs : List ℕ} (hfree : Free image m xs) (hlt : ∀ i ∈ indices, i < totalTableEntries)
    (hpages : ∀ p ∈ links m map indices ++ (links m map indices).flatMap (children m),
      IsPage image p)
    (hnodup : (map :: (links m map indices
      ++ ((links m map indices).flatMap (children m) ++ xs))).Nodup) :
  ∃ m' ys, freePDTableLoop image map indices m = some m' ∧ Free image m' ys
    ∧ ys.Perm ((links m map indices).flatMap (children m) ++ xs)
    ∧ Changes (links m map indices ++ (links m map indices).flatMap (children m)) m m'
  := by
  induction indices generalizing m xs with
  | nil => exact ⟨m, xs, rfl, hfree, List.Perm.refl _, Changes.refl _ _⟩
  | cons i indices ih =>
      have hlt' : ∀ j ∈ indices, j < totalTableEntries :=
        fun j hj => hlt j (List.mem_cons_of_mem i hj)
      rw [freePDTableLoop]
      by_cases hpresent : Present (m.entry map i)
      · rw [if_pos hpresent]
        rw [links_cons_of_present hpresent] at hnodup hpages ⊢
        generalize phyToVir (pageDirectoryTableAddress (m.entry map i)) = d at *
        rw [List.flatMap_cons] at hnodup hpages ⊢
        have hd : IsPage image d := hpages d (by simp)
        have hchild : ∀ p ∈ children m d, IsPage image p := by
          intro p hp
          apply hpages
          simp [hp]
        have hchanged : ∀ q ∈ d :: children m d, addrIsAligned q := by
          intro q hq
          rcases List.mem_cons.mp hq with rfl | hq
          · exact hd.aligned
          · exact (hchild q hq).aligned
        obtain ⟨m₁, ys₁, hrun, hfree₁, hys₁, hchange₁⟩ := freeChildren_spec hd.aligned hfree hchild
          (hnodup.of_count_le (d :: (children m d ++ xs)) (by
            intro a
            simp only [List.count_cons, List.count_append]
            omega))
        have hkeep : ∀ t ∈ map :: links m map indices, t ∉ d :: children m d := by
          intro t ht
          apply hnodup.not_mem_of_count_add_le (map :: links m map indices) _ _ ht
          intro a
          simp only [List.count_cons, List.count_append]
          omega
        have hlinks : links m₁ map indices = links m map indices :=
          hchange₁.links hchanged hmap (hkeep map (by simp)) hlt'
        have hchildren : ∀ t ∈ links m map indices, children m₁ t = children m t := by
          intro t ht
          apply hchange₁.children hchanged (hpages t (by simp [ht])).aligned
          apply hkeep t (List.mem_cons_of_mem map ht)
        have hflat : (links m map indices).flatMap (children m₁)
            = (links m map indices).flatMap (children m) :=
          List.flatMap_congr hchildren
        rw [← hlinks] at hflat
        obtain ⟨m', ys, hrun', hfree', hys, hchange⟩ := ih hfree₁ hlt'
          (by
            rw [hflat, hlinks]
            intro p hp
            apply hpages
            rcases List.mem_append.mp hp with hp | hp
            · simp [hp]
            · rw [List.mem_append, List.mem_append]
              exact Or.inr (Or.inr hp))
          (by
            rw [hflat, hlinks]
            apply hnodup.of_count_le _
            intro a
            simp only [List.count_cons, List.count_append, hys₁.count_eq]
            omega)
        rw [hflat] at hys hchange
        rw [hlinks] at hys hchange
        use m', ys
        refine ⟨?_, hfree', ?_, ?_⟩
        · rw [hrun]
          exact hrun'
        · apply List.perm_iff_count.mpr
          intro a
          simp only [hys.count_eq, hys₁.count_eq, List.count_append]
          omega
        · apply (hchange₁.mono _).trans (hchange.mono _)
          · intro q hq
            simp only [List.mem_cons, List.mem_append] at hq ⊢
            rcases hq with hq | hq <;> simp only [hq, true_or, or_true]
          · intro q hq
            simp only [List.mem_cons, List.mem_append] at hq ⊢
            rcases hq with hq | hq <;> simp only [hq, true_or, or_true]
      · rw [if_neg hpresent]
        rw [links_cons_of_not_present hpresent] at hnodup hpages ⊢
        apply ih hfree hlt' hpages hnodup

/-! ### The user page -/

/-- Without allocation the search for the table of an entry changes nothing. -/
theorem findTableEntry_false (m : Memory) (t i attr : ℕ) :
  findTableEntry image t i false attr m = some ((link (m.entry t i)).getD 0, m)
  := by
  unfold findTableEntry link
  by_cases hpresent : Present (m.entry t i)
  · rw [if_pos hpresent, if_pos hpresent, Option.getD_some]
  · rw [if_neg hpresent, if_neg hpresent, if_neg Bool.false_ne_true, Option.getD_none]

/-- The index of the user page in the tables of each level. -/
theorem userVirtualAddressBase_index :
  (userVirtualAddressBase >>> 39) &&& 0x1FF = 0 ∧ (userVirtualAddressBase >>> 30) &&& 0x1FF = 0
    ∧ (userVirtualAddressBase >>> 21) &&& 0x1FF = 2
  := by
  rw [userVirtualAddressBase_eq]
  decide

/-- Without allocation the search for the page directory of the user page changes
nothing. -/
theorem findUserDirectory (m : Memory) (map attr : ℕ)
    (hne : ∀ p ∈ children m map, p ≠ 0) :
  findPageDirPointerTableEntry image map userVirtualAddressBase false attr m
    = some ((userDirectory m map).getD 0, m)
  := by
  obtain ⟨hpml4, hpdpt, _⟩ := userVirtualAddressBase_index
  unfold findPageDirPointerTableEntry findPML4TableEntry userDirectory
  rw [hpml4, hpdpt, findTableEntry_false]
  cases hlink : link (m.entry map 0) with
  | none => rfl
  | some d =>
      have hd : d ≠ 0 := by
        apply hne d
        apply List.mem_filterMap.mpr
        use 0, List.mem_range.mpr (by decide)
      simp only [Option.getD_some, Option.bind_eq_bind, Option.bind_some]
      rw [if_neg hd, findTableEntry_false]

/-- The page directory of the user page is one of the page directories. -/
theorem userDirectory_mem {m : Memory} {map pd : ℕ} (h : userDirectory m map = some pd) :
  pd ∈ (children m map).flatMap (children m)
  := by
  obtain ⟨d, hd, hpd⟩ := Option.bind_eq_some_iff.mp h
  have hzero : 0 ∈ List.range totalTableEntries := List.mem_range.mpr (by decide)
  apply List.mem_flatMap.mpr
  use d, List.mem_filterMap.mpr ⟨0, hzero, hd⟩
  exact List.mem_filterMap.mpr ⟨0, hzero, hpd⟩

/-- There is one page in the range that `FreeVM` passes to `FreePages`. -/
theorem freePagesLoop_user {m m' : Memory} {map pd n : ℕ} (hn : 0 < n)
    (hfind : findPageDirPointerTableEntry image map userVirtualAddressBase false 0 m
      = some (pd, m))
    (hfreed : (if pd ≠ 0 ∧ Present (m.entry pd 2) then do
        let freed ← kfree image (phyToVir (pageAddress (m.entry pd 2))) m
        some (freed.setEntry pd 2 0)
      else some m) = some m') :
  freePagesLoop image map (userVirtualAddressBase + pageSize) n userVirtualAddressBase m = some m'
  := by
  obtain ⟨n, rfl⟩ := Nat.exists_eq_succ_of_ne_zero hn.ne'
  have hstop : ¬ ((userVirtualAddressBase + pageSize) % 2 ^ 64 + pageSize) % 2 ^ 64
      ≤ userVirtualAddressBase + pageSize := by
    rw [userVirtualAddressBase_eq, pageSize_eq]
    omega
  rw [freePagesLoop, hfind]
  simp only [Option.bind_eq_bind, Option.bind_some, userVirtualAddressBase_index.2.2,
    if_neg hstop] at hfreed ⊢
  rw [hfreed]

/-- `FreePages` frees the user page. -/
theorem freeUserPage {m : Memory} {map : ℕ} {xs : List ℕ} (hfree : Free image m xs)
    (hpages : ∀ p ∈ vmPages m map, IsPage image p) (hnodup : (vmPages m map ++ xs).Nodup) :
  ∃ m', freePages image map userVirtualAddressBase (userVirtualAddressBase + pageSize) m = some m'
    ∧ Free image m' ((userPage m map).toList ++ xs)
    ∧ Changes ((userPage m map).toList ++ (userDirectory m map).toList) m m'
  := by
  have haligned : addrIsAligned userVirtualAddressBase
      ∧ addrIsAligned (userVirtualAddressBase + pageSize) := by
    unfold addrIsAligned
    rw [userVirtualAddressBase_eq, pageSize_eq]
    decide
  have hfind := @findUserDirectory image m map 0 (fun p hp =>
    (hpages p (by simp [vmPages, hp])).ne_zero)
  unfold freePages
  rw [assert_of haligned.1, assert_of haligned.2]
  simp only [Option.bind_eq_bind, Option.bind_some]
  cases hpd : userDirectory m map with
  | none =>
      rw [hpd] at hfind
      have hpage : userPage m map = none := by
        rw [userPage, hpd]
        rfl
      rw [hpage]
      use m
      refine ⟨?_, hfree, Changes.refl _ _⟩
      apply freePagesLoop_user (Nat.two_pow_pos 43) hfind
      rfl
  | some pd =>
      rw [hpd] at hfind
      have hmem := userDirectory_mem hpd
      have hpd0 : pd ≠ 0 := (hpages pd (by simp only [vmPages, List.mem_append, hmem,
        true_or, or_true])).ne_zero
      have hpdaligned := (hpages pd (by simp only [vmPages, List.mem_append, hmem,
        true_or, or_true])).aligned
      have hpage : userPage m map = leaf (m.entry pd 2) := by
        rw [userPage, hpd]
        rfl
      rw [hpage]
      by_cases hpresent : Present (m.entry pd 2)
      · have hleaf : leaf (m.entry pd 2) = some (phyToVir (pageAddress (m.entry pd 2))) :=
          if_pos hpresent
        obtain ⟨p, hp⟩ : ∃ p, phyToVir (pageAddress (m.entry pd 2)) = p := ⟨_, rfl⟩
        rw [hp] at hleaf
        have hin : p ∈ vmPages m map := by
          simp [vmPages, hpage, hleaf]
        have hsplit : vmPages m map ++ xs = [p] ++ ((children m map).flatMap (children m)
            ++ (children m map ++ ([map] ++ xs))) := by
          simp [vmPages, hpage, hleaf]
        rw [hsplit] at hnodup
        have hpxs : p ∉ xs := by
          apply hnodup.not_mem_of_count_add_le [p] xs _ (by simp)
          intro a
          simp only [List.count_append]
          omega
        have hpdxs : pd ∉ [p] ++ xs := by
          apply hnodup.not_mem_of_count_add_le ((children m map).flatMap (children m)) _ _ hmem
          intro a
          simp only [List.count_append]
          omega
        simp only [List.singleton_append, List.mem_cons, not_or] at hpdxs
        obtain ⟨m', hrun, hfree', hchange, _⟩ := freeEntry (i := 2) hfree hpdaligned (by decide)
          (hpages p hin) hpxs hpdxs.1 hpdxs.2
        use m'.setEntry pd 2 0
        rw [hleaf]
        refine ⟨?_, hfree', hchange.mono (by simp)⟩
        apply freePagesLoop_user (Nat.two_pow_pos 43) hfind
        simp only [Option.getD_some]
        rw [if_pos ⟨hpd0, hpresent⟩, hp, hrun]
        rfl
      · have hleaf : leaf (m.entry pd 2) = none := if_neg hpresent
        rw [hleaf]
        use m
        refine ⟨?_, hfree, Changes.refl _ _⟩
        apply freePagesLoop_user (Nat.two_pow_pos 43) hfind
        rw [if_neg]
        simp only [Option.getD_some]
        exact fun h => hpresent h.2

/-! ### The whole address space -/

/-- `FreeVM` frees the pages of an address space. -/
theorem freeVM_spec {m : Memory} {map : ℕ} {xs : List ℕ} (hfree : Free image m xs)
    (hpages : ∀ p ∈ vmPages m map, IsPage image p) (hnodup : (vmPages m map ++ xs).Nodup) :
  ∃ m' ys, freeVM image map m = some m' ∧ Free image m' ys ∧ ys.Perm (vmPages m map ++ xs)
    ∧ Changes (vmPages m map) m m'
  := by
  obtain ⟨m₁, hrun₁, hfree₁, hchange₁⟩ := freeUserPage hfree hpages hnodup
  have hin : ∀ t, (userPage m map = some t ∨ t ∈ (children m map).flatMap (children m)
      ∨ t ∈ children m map ∨ t = map) → IsPage image t :=
    fun t ht => hpages t (mem_vmPages.mpr ht)
  have hmap := hin map (by simp)
  have hdirectory : ∀ t ∈ (userDirectory m map).toList,
      t ∈ (children m map).flatMap (children m) := by
    intro t ht
    exact userDirectory_mem (Option.mem_toList.mp ht)
  have hchanged : ∀ q ∈ (userPage m map).toList ++ (userDirectory m map).toList,
      addrIsAligned q := by
    intro q hq
    rcases List.mem_append.mp hq with hq | hq
    · exact (hin q (Or.inl (Option.mem_toList.mp hq))).aligned
    · exact (hin q (Or.inr (Or.inl (hdirectory q hq)))).aligned
  have hkeep : ∀ t ∈ children m map ++ [map],
      t ∉ (userPage m map).toList ++ (userDirectory m map).toList := by
    intro t ht hmem
    have hsep := hnodup.not_mem_of_count_add_le (children m map ++ [map])
      ((userPage m map).toList ++ (children m map).flatMap (children m))
      (by
        intro a
        simp only [vmPages, List.count_append]
        omega) ht
    apply hsep
    rcases List.mem_append.mp hmem with hq | hq
    · apply List.mem_append_left _ hq
    · apply List.mem_append_right _ (hdirectory t hq)
  have hchildren : children m₁ map = children m map :=
    hchange₁.children hchanged hmap.aligned (hkeep map (by simp))
  have hflat : (children m map).flatMap (children m₁)
      = (children m map).flatMap (children m) := by
    apply List.flatMap_congr
    intro t ht
    apply hchange₁.children hchanged (hin t (by simp [ht])).aligned (hkeep t (by simp [ht]))
  obtain ⟨m₂, ys₂, hrun₂, hfree₂, hys₂, hchange₂⟩ := freePDTableLoop_spec hmap.aligned hfree₁
    (fun i hi => List.mem_range.mp hi)
    (by
      change ∀ p ∈ children m₁ map ++ (children m₁ map).flatMap (children m₁), IsPage image p
      rw [hchildren, hflat]
      intro p hp
      apply hin
      rcases List.mem_append.mp hp with hp | hp
      · simp [hp]
      · exact Or.inr (Or.inl hp))
    (by
      change (map :: (children m₁ map ++ ((children m₁ map).flatMap (children m₁)
        ++ ((userPage m map).toList ++ xs)))).Nodup
      rw [hchildren, hflat]
      apply hnodup.of_count_le
      intro a
      simp only [vmPages, List.count_append, List.count_cons, List.count_nil]
      omega)
  change freePDTable image map m₁ = some m₂ at hrun₂
  change ys₂.Perm ((children m₁ map).flatMap (children m₁) ++ ((userPage m map).toList ++ xs))
    at hys₂
  change Changes (children m₁ map ++ (children m₁ map).flatMap (children m₁)) m₁ m₂ at hchange₂
  rw [hchildren, hflat] at hys₂ hchange₂
  have hchildren₂ : children m₂ map = children m map := by
    rw [← hchildren]
    apply hchange₂.children
    · intro q hq
      rcases List.mem_append.mp hq with hq | hq
      · exact (hin q (by simp [hq])).aligned
      · exact (hin q (Or.inr (Or.inl hq))).aligned
    · exact hmap.aligned
    · apply hnodup.not_mem_of_count_add_le [map]
      · intro a
        simp only [vmPages, List.count_append]
        omega
      · simp
  obtain ⟨m₃, ys₃, hrun₃, hfree₃, hys₃, hchange₃⟩ := freeChildren_spec hmap.aligned hfree₂
    (by
      rw [hchildren₂]
      intro p hp
      apply hin
      simp [hp])
    (by
      rw [hchildren₂]
      apply hnodup.of_count_le
      intro a
      simp only [vmPages, List.count_append, List.count_cons, List.count_nil, hys₂.count_eq]
      omega)
  rw [hchildren₂] at hys₃ hchange₃
  have hmem₃ : map ∉ ys₃ := by
    apply hnodup.not_mem_of_count_add_le [map]
    · intro a
      simp only [vmPages, List.count_append, hys₃.count_eq, hys₂.count_eq]
      omega
    · simp
  obtain ⟨m₄, hrun₄, hfree₄, hchange₄⟩ := hfree₃.kfree hmap hmem₃
  use m₄, map :: ys₃
  refine ⟨?_, hfree₄, ?_, ?_⟩
  · unfold freeVM freePDPTable freePML4Table
    rw [hrun₁]
    simp only [Option.bind_eq_bind, Option.bind_some]
    rw [hrun₂]
    simp only [Option.bind_some]
    rw [hrun₃]
    exact hrun₄
  · apply List.perm_iff_count.mpr
    intro a
    simp only [vmPages, List.count_append, List.count_cons, List.count_nil, hys₃.count_eq,
      hys₂.count_eq]
    omega
  · apply ((hchange₁.mono _).trans (hchange₂.mono _)).trans
      ((hchange₃.mono _).trans (hchange₄.mono _))
    · intro q hq
      apply mem_vmPages.mpr
      rcases List.mem_append.mp hq with hq | hq
      · exact Or.inl (Option.mem_toList.mp hq)
      · exact Or.inr (Or.inl (hdirectory q hq))
    · intro q hq
      apply mem_vmPages.mpr
      rcases List.mem_append.mp hq with hq | hq
      · exact Or.inr (Or.inr (Or.inl hq))
      · exact Or.inr (Or.inl hq)
    · intro q hq
      apply mem_vmPages.mpr
      rcases List.mem_cons.mp hq with hq | hq
      · exact Or.inr (Or.inr (Or.inr hq))
      · exact Or.inr (Or.inr (Or.inl hq))
    · intro q hq
      apply mem_vmPages.mpr
      exact Or.inr (Or.inr (Or.inr (List.mem_singleton.mp hq)))

end LarvaOS
