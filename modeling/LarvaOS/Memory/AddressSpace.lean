import LarvaOS.Memory.Freeing
import LarvaOS.Memory.Mapping

/-!
# Address spaces

The address space of a process consists of six pages: the page map, the pointer table
and the directory of the kernel gigabyte, the pointer table and the directory of the
user page, and the user page itself.  `KernelSpace` describes the tables after
`SetupKVM`, and `UserSpace` those after `SetupUVM` or `CopyUVM`.  Both functions give
back every page they took when they fail, and more: they free the map as well.
-/

namespace LarvaOS

variable {image : Image} {m : Memory}

/-- The attributes of kernel tables and kernel pages. -/
def kernelAttributes : ℕ := tableEntryPresentAttribute ||| tableEntryWritableAttribute

theorem kernelAttributes_isAttribute :
  IsAttribute kernelAttributes
  where
  odd := rfl
  small := by decide

theorem userAttributes_isAttribute :
  IsAttribute userAttributes
  where
  odd := rfl
  small := by decide

/-- The pages of an address space. -/
structure Space where
  map : ℕ
  pdpt : ℕ
  pd : ℕ
  userPdpt : ℕ
  userPd : ℕ
  page : ℕ

/-- The table pages of an address space. -/
def Space.tables (S : Space) : List ℕ := [S.userPd, S.pd, S.userPdpt, S.pdpt, S.map]

/-- All pages of an address space. -/
def Space.pages (S : Space) : List ℕ := S.page :: S.tables

/-- The entries of a table without present entries. -/
def noEntries : ℕ → ℕ := fun _ => 0

/-- The entries of a table with the single entry `v` at `i`. -/
def singleEntry (i v : ℕ) : ℕ → ℕ := Function.update noEntries i v

/-- The entries of a page map with the kernel gigabyte. -/
def kernelMapEntries (pdpt : ℕ) : ℕ → ℕ := singleEntry 256 (virToPhy pdpt ||| kernelAttributes)

/-- The entries of a page map with the kernel gigabyte and the user gigabyte. -/
def mapEntries (pdpt userPdpt : ℕ) : ℕ → ℕ :=
  Function.update (kernelMapEntries pdpt) 0 (virToPhy userPdpt ||| userAttributes)

/-- The tables of the kernel gigabyte, which map the first `n` pages of physical
memory. -/
structure KernelTables (m : Memory) (n pdpt pd : ℕ) : Prop where
  pdptTable : Table m pdpt (singleEntry 0 (virToPhy pd ||| kernelAttributes))
  pdTable : Table m pd (mappedEntries 0 n 0 kernelAttributes noEntries)

/-- An address space with the kernel gigabyte only. -/
structure KernelSpace (m : Memory) (n map pdpt pd : ℕ) : Prop extends
    KernelTables m n pdpt pd where
  mapTable : Table m map (kernelMapEntries pdpt)

/-- An address space with the kernel gigabyte and a user page. -/
structure UserSpace (m : Memory) (n : ℕ) (S : Space) : Prop extends
    KernelTables m n S.pdpt S.pd where
  mapTable : Table m S.map (mapEntries S.pdpt S.userPdpt)
  userPdptTable : Table m S.userPdpt (singleEntry 0 (virToPhy S.userPd ||| userAttributes))
  userPdTable : Table m S.userPd (mappedEntries 2 3 (virToPhy S.page) userAttributes noEntries)

/-! ### The children of a table -/

/-- One more present value in a sequence of values. -/
theorem filterMap_update_perm {f : ℕ → Option ℕ} {i p : ℕ} (hf : f i = none) :
  ∀ {is : List ℕ}, is.Nodup → i ∈ is →
    (is.filterMap (Function.update f i (some p))).Perm (p :: is.filterMap f)
  | j :: is, hnodup, hmem => by
      obtain ⟨hj, hnodup⟩ := List.nodup_cons.mp hnodup
      by_cases hji : j = i
      · subst hji
        have hsame : is.filterMap (Function.update f j (some p)) = is.filterMap f := by
          apply List.filterMap_congr
          intro k hk
          apply Function.update_of_ne
          rintro rfl
          exact hj hk
        rw [List.filterMap_cons_some (Function.update_self j (some p) f),
          List.filterMap_cons_none hf, hsame]
      · have hmem' : i ∈ is := (List.mem_cons.mp hmem).resolve_left (Ne.symm hji)
        have hperm := filterMap_update_perm (p := p) hf hnodup hmem'
        have hupdate : Function.update f i (some p) j = f j := Function.update_of_ne hji _ _
        cases hfj : f j with
        | none =>
            rw [List.filterMap_cons_none (hupdate.trans hfj), List.filterMap_cons_none hfj]
            exact hperm
        | some x =>
            rw [List.filterMap_cons_some (hupdate.trans hfj), List.filterMap_cons_some hfj]
            exact (hperm.cons x).trans (List.Perm.swap p x _)

/-- The tables that the entries `f` point to. -/
def childrenOf (f : ℕ → ℕ) : List ℕ :=
  (List.range totalTableEntries).filterMap (fun i => link (f i))

theorem Table.children {t : ℕ} {f : ℕ → ℕ} (h : Table m t f) :
  LarvaOS.children m t = childrenOf f
  := by
  unfold LarvaOS.children links childrenOf
  apply List.filterMap_congr
  intro i hi
  rw [h i (List.mem_range.mp hi)]

theorem childrenOf_noEntries :
  childrenOf noEntries = []
  := by
  apply List.filterMap_eq_nil_iff.mpr
  intro i _
  exact link_zero

/-- One more present entry. -/
theorem childrenOf_update {f : ℕ → ℕ} {i v p : ℕ} (hf : link (f i) = none)
    (hv : link v = some p) (hi : i < totalTableEntries) :
  (childrenOf (Function.update f i v)).Perm (p :: childrenOf f)
  := by
  have hlink : (fun j => link (Function.update f i v j))
      = Function.update (fun j => link (f j)) i (some p) := by
    funext j
    by_cases hji : j = i
    · rw [hji, Function.update_self, Function.update_self, hv]
    · rw [Function.update_of_ne hji, Function.update_of_ne hji]
  unfold childrenOf
  rw [hlink]
  generalize hrange : List.range totalTableEntries = indices
  apply @filterMap_update_perm (fun j => link (f j)) i p hf indices
  · rw [← hrange]
    exact List.nodup_range
  · rw [← hrange]
    exact List.mem_range.mpr hi

theorem childrenOf_singleEntry {i v p : ℕ} (hv : link v = some p) (hi : i < totalTableEntries) :
  childrenOf (singleEntry i v) = [p]
  := by
  have hperm := @childrenOf_update noEntries i v p link_zero hv hi
  rw [childrenOf_noEntries] at hperm
  exact List.perm_singleton.mp hperm

theorem childrenOf_mapEntries {pdpt userPdpt : ℕ} (hp : IsPage image pdpt)
    (hu : IsPage image userPdpt) :
  (childrenOf (mapEntries pdpt userPdpt)).Perm [userPdpt, pdpt]
  := by
  have hnone : link (kernelMapEntries pdpt 0) = none := by
    rw [kernelMapEntries, singleEntry, Function.update_of_ne (by decide)]
    exact link_zero
  have hperm := childrenOf_update hnone (link_entry hu userAttributes_isAttribute) (by decide)
  rwa [kernelMapEntries, childrenOf_singleEntry (link_entry hp kernelAttributes_isAttribute)
    (by decide)] at hperm

/-! ### The pages of an address space -/

section Pages

variable {n map pdpt pd userPdpt : ℕ}

theorem zero_lt_totalTableEntries : 0 < totalTableEntries := by decide

/-- A map without an entry for the user gigabyte has no user page. -/
theorem userPage_none (h : link (m.entry map 0) = none) :
  userPage m map = none
  := by
  rw [userPage, userDirectory, h]
  rfl

/-- The pages of a cleared map. -/
theorem vmPages_clear (hmap : Table m map noEntries) :
  vmPages m map = [map]
  := by
  have hpage : userPage m map = none := by
    apply userPage_none
    rw [hmap 0 zero_lt_totalTableEntries]
    exact link_zero
  rw [vmPages, hpage, hmap.children, childrenOf_noEntries]
  rfl

/-- The pages of a map whose kernel pointer table is still empty. -/
theorem vmPages_pointer (hp : IsPage image pdpt) (hmap : Table m map (kernelMapEntries pdpt))
    (hpdpt : Table m pdpt noEntries) :
  vmPages m map = [pdpt, map]
  := by
  have hpage : userPage m map = none := by
    apply userPage_none
    rw [hmap 0 zero_lt_totalTableEntries, kernelMapEntries, singleEntry,
      Function.update_of_ne (by decide)]
    exact link_zero
  have hchildren : children m map = [pdpt] := by
    rw [hmap.children]
    exact childrenOf_singleEntry (link_entry hp kernelAttributes_isAttribute) (by decide)
  rw [vmPages, hpage, hchildren, List.flatMap_singleton, hpdpt.children, childrenOf_noEntries]
  rfl

/-- A pointer table with one directory. -/
theorem children_pointer {t p attr : ℕ} (hp : IsPage image p) (ha : IsAttribute attr)
    (h : Table m t (singleEntry 0 (virToPhy p ||| attr))) :
  children m t = [p]
  := by
  rw [h.children]
  exact childrenOf_singleEntry (link_entry hp ha) zero_lt_totalTableEntries

/-- The pages of a map with the kernel gigabyte. -/
theorem KernelSpace.vmPages (h : KernelSpace m n map pdpt pd) (hp : IsPage image pdpt)
    (hd : IsPage image pd) :
  LarvaOS.vmPages m map = [pd, pdpt, map]
  := by
  have hpage : userPage m map = none := by
    apply userPage_none
    rw [h.mapTable 0 zero_lt_totalTableEntries, kernelMapEntries, singleEntry,
      Function.update_of_ne (by decide)]
    exact link_zero
  have hchildren : children m map = [pdpt] := by
    rw [h.mapTable.children]
    exact childrenOf_singleEntry (link_entry hp kernelAttributes_isAttribute) (by decide)
  rw [LarvaOS.vmPages, hpage, hchildren, List.flatMap_singleton,
    children_pointer hd kernelAttributes_isAttribute h.pdptTable]
  rfl

/-- The children of a map with two gigabytes, and their children. -/
theorem children_mapEntries (h : KernelTables m n pdpt pd) (hp : IsPage image pdpt)
    (hd : IsPage image pd) (hu : IsPage image userPdpt)
    (hmap : Table m map (mapEntries pdpt userPdpt)) :
  (children m map).Perm [userPdpt, pdpt]
    ∧ ((children m map).flatMap (children m)).Perm (children m userPdpt ++ [pd])
  := by
  have hperm : (children m map).Perm [userPdpt, pdpt] := by
    rw [hmap.children]
    exact childrenOf_mapEntries hp hu
  use hperm
  apply (hperm.flatMap_right _).trans
  rw [List.flatMap_cons, List.flatMap_singleton,
    children_pointer hd kernelAttributes_isAttribute h.pdptTable]

/-- The first entry of a map with two gigabytes. -/
theorem link_mapEntries (hu : IsPage image userPdpt) (hmap : Table m map (mapEntries pdpt userPdpt)) :
  link (m.entry map 0) = some userPdpt
  := by
  rw [hmap 0 zero_lt_totalTableEntries, mapEntries, Function.update_self]
  exact link_entry hu userAttributes_isAttribute

/-- The pages of a map whose user pointer table is still empty. -/
theorem vmPages_userPointer (h : KernelTables m n pdpt pd) (hp : IsPage image pdpt)
    (hd : IsPage image pd) (hu : IsPage image userPdpt)
    (hmap : Table m map (mapEntries pdpt userPdpt)) (huser : Table m userPdpt noEntries) :
  (vmPages m map).Perm [pd, userPdpt, pdpt, map]
  := by
  obtain ⟨hchildren, hflat⟩ := children_mapEntries h hp hd hu hmap
  have hpage : userPage m map = none := by
    have hlink : link (m.entry userPdpt 0) = none := by
      rw [huser 0 zero_lt_totalTableEntries]
      exact link_zero
    rw [userPage, userDirectory, link_mapEntries hu hmap, Option.bind_some, hlink]
    rfl
  rw [huser.children, childrenOf_noEntries] at hflat
  rw [vmPages, hpage]
  apply List.perm_iff_count.mpr
  intro a
  simp only [Option.toList_none, List.count_append, List.count_cons, List.count_nil,
    hchildren.count_eq, hflat.count_eq]
  omega

namespace UserSpace

variable {S : Space}

/-- The directory of the user page. -/
theorem userDirectory (h : UserSpace m n S) (hpages : ∀ p ∈ S.pages, IsPage image p) :
  LarvaOS.userDirectory m S.map = some S.userPd
  := by
  have hu : IsPage image S.userPdpt := hpages _ (by simp [Space.pages, Space.tables])
  have hd : IsPage image S.userPd := hpages _ (by simp [Space.pages, Space.tables])
  have hlink : link (m.entry S.userPdpt 0) = some S.userPd := by
    rw [h.userPdptTable 0 zero_lt_totalTableEntries, singleEntry, Function.update_self]
    exact link_entry hd userAttributes_isAttribute
  rw [LarvaOS.userDirectory, link_mapEntries hu h.mapTable, Option.bind_some, hlink]

/-- The entry of the user page. -/
theorem userEntry (h : UserSpace m n S) (hp : IsPage image S.page) :
  m.entry S.userPd 2 = virToPhy S.page + (userAttributes ||| 128)
    ∧ leaf (m.entry S.userPd 2) = some S.page
  := by
  obtain ⟨haligned, hlt, hback⟩ := hp.virToPhy
  have hentry : m.entry S.userPd 2 = virToPhy S.page + (userAttributes ||| 128) := by
    rw [h.userPdTable 2 (by decide), mappedEntries, if_pos (by decide), Nat.sub_self,
      Nat.zero_mul, Nat.add_zero]
    exact (leafEntry haligned (by omega) userAttributes_isAttribute).1
  have hattr : userAttributes ||| 128 = 135 := rfl
  rw [hattr] at hentry
  have hpresent : Present (m.entry S.userPd 2) := by
    rw [present_iff, hentry]
    omega
  have haddr : pageAddress (m.entry S.userPd 2) = virToPhy S.page := by
    rw [pageAddress_eq, hentry]
    omega
  rw [hattr]
  use hentry
  rw [leaf, if_pos hpresent, haddr, hback]

/-- The pages of a complete address space. -/
theorem vmPages (h : UserSpace m n S) (hpages : ∀ p ∈ S.pages, IsPage image p) :
  (LarvaOS.vmPages m S.map).Perm S.pages
  := by
  have hu : IsPage image S.userPdpt := hpages _ (by simp [Space.pages, Space.tables])
  have hd : IsPage image S.userPd := hpages _ (by simp [Space.pages, Space.tables])
  obtain ⟨hchildren, hflat⟩ := children_mapEntries h.toKernelTables
    (hpages _ (by simp [Space.pages, Space.tables])) (hpages _ (by simp [Space.pages, Space.tables])) hu h.mapTable
  rw [children_pointer hd userAttributes_isAttribute h.userPdptTable] at hflat
  have hpage : userPage m S.map = some S.page := by
    rw [userPage, h.userDirectory hpages, Option.bind_some]
    exact (h.userEntry (hpages _ (by simp [Space.pages, Space.tables]))).2
  rw [LarvaOS.vmPages, hpage]
  apply List.perm_iff_count.mpr
  intro a
  simp only [Option.toList_some, Space.pages, Space.tables, List.count_append, List.count_cons, List.count_nil,
    hchildren.count_eq, hflat.count_eq]
  omega

end UserSpace

end Pages

end LarvaOS
