import LarvaOS.File.Reading

/-!
# Stores through the pointers of programs

`Read` and `Lstat` copy to an address that the program passes.  `memcpy` stores one byte
after the other, until a store causes an exception, and here the addresses of these stores
are listed.  The user page lies between addresses that are not mapped.  So stores that start
at an address outside of the kernel's memory do not leave the user page, and stores that
start in the kernel's memory reach it.
-/

namespace LarvaOS

open FileSystem

variable {image : Image} {m m' : Memory} {n k dest s v : ℕ} {S : Space} {c : UInt8}

/-- The addresses at which `memcpy` stores a byte, in their order. -/
def memcpyStores (cr3 : ℕ) : ℕ → ℕ → ℕ → Memory → List ℕ
  | 0, _, _, _ => []
  | n + 1, dest, src, m =>
      match m.store cr3 dest (m.bytes src) with
      | none => []
      | some m => dest :: memcpyStores cr3 n (dest + 1) (src + 1) m

namespace FileSystem

variable (files : FileSystem)

/-- The addresses at which the loop of `Lstat` over the entries of a sector stores a byte. -/
def copyEntriesStores (cr3 statbuf sectorData : ℕ) : List ℕ → ℕ → Memory → List ℕ
  | [], _, _ => []
  | j :: entries, total, m =>
      if (DirEntry.load m.bytes (sectorData + sizeofDirEntry * j)).inUse then
        memcpyStores cr3 sizeofDirEntry (statbuf + sizeofDirEntry * total)
            (sectorData + sizeofDirEntry * j) m
          ++ match memcpyVirtual cr3 sizeofDirEntry (statbuf + sizeofDirEntry * total)
              (sectorData + sizeofDirEntry * j) m with
            | none => []
            | some m => copyEntriesStores cr3 statbuf sectorData entries (total + 1) m
      else
        copyEntriesStores cr3 statbuf sectorData entries total m

/-- The addresses at which the loop of `Lstat` over the sectors stores a byte. -/
def copySectorsStores (cr3 statbuf sectorData : ℕ) : List ℕ → ℕ → Memory → List ℕ
  | [], _, _ => []
  | i :: sectors, total, m =>
      let m := files.readRootSector sectorData i m
      copyEntriesStores cr3 statbuf sectorData (List.range files.entriesPerSector) total m
        ++ match copyEntries cr3 statbuf sectorData (List.range files.entriesPerSector) total m with
          | none => []
          | some (total, m) => copySectorsStores cr3 statbuf sectorData sectors total m

/-- The addresses at which `Lstat` stores a byte through the pointer of the program. -/
def lstatStores (image : Image) (cr3 statbuf : ℕ) (m : Memory) : List ℕ :=
  match kalloc image m with
  | none => []
  | some (sectorData, m) =>
      if sectorData = 0 then []
      else files.copySectorsStores cr3 statbuf sectorData files.rootSectors 0 m

/-- The addresses at which `ReadRawData` stores a byte through the pointer of the program. -/
def readRawDataStores (image : Image) (cr3 clusterIndex buf pos size : ℕ) (m : Memory) : List ℕ :=
  match files.readRawDataStart image clusterIndex pos size m with
  | none => []
  | some (buffer, m) => memcpyStores cr3 size buf (buffer + files.readOffset pos) m

end FileSystem

/-! ### Stores in an address space -/

/-- An address of the kernel's memory, which has `n` pages. -/
def KernelAddress (n v : ℕ) : Prop :=
  kernelVirtualAddressBase ≤ v ∧ v < kernelVirtualAddressBase + n * pageSize

/-- An address space of a process in memory. -/
structure Resident (image : Image) (m : Memory) (n : ℕ) (S : Space) : Prop where
  space : UserSpace m n S
  le : n ≤ totalTableEntries
  isPage : ∀ p ∈ S.pages, IsPage image p
  nodup : S.pages.Nodup

namespace Resident

theorem changes (h : Resident image m n S) (hc : Changes [S.page] m m') :
  Resident image m' n S
  where
  space := h.space.changes_page h.isPage h.nodup hc
  le := h.le
  isPage := h.isPage
  nodup := h.nodup

/-- A store to the user page. -/
theorem store (h : Resident image m n S) (hv : InUserPage v) (c : UInt8) :
  ∃ m', m.store (virToPhy S.map) v c = some m' ∧ Changes [S.page] m m'
  := ⟨_, h.space.store h.le h.isPage hv c, UserSpace.changes_store hv c⟩

/-- A store to an address that is not mapped. -/
theorem store_none (h : Resident image m n S) (hv : ¬ InUserPage v) (hk : ¬ KernelAddress n v)
    (c : UInt8) :
  m.store (virToPhy S.map) v c = none
  := by
  have hwalk : walk m (virToPhy S.map) v = none := by
    by_cases hlt : v < 2 ^ 64
    · rw [h.space.walk_eq h.le h.isPage hlt]
      exact (if_neg hv).trans (if_neg hk)
    · apply if_neg
      unfold Canonical
      omega
  rw [Memory.store, hwalk, Option.map_none]

/-- A store to the kernel's memory changes the byte at the address. -/
theorem store_kernel_eq (h : Resident image m n S) (hk : KernelAddress n v) (c : UInt8) :
  m.store (virToPhy S.map) v c = some { m with bytes := Function.update m.bytes v c }
  := by
  have hle : n ≤ 512 := h.le
  obtain ⟨hlo, hhi⟩ := hk
  have huser : ¬ (userVirtualAddressBase ≤ v ∧ v < userVirtualAddressBase + pageSize) := by
    rw [kernelVirtualAddressBase_eq] at hlo
    rw [userVirtualAddressBase_eq, pageSize_eq]
    omega
  have hlt : v < 2 ^ 64 := by
    rw [kernelVirtualAddressBase_eq, pageSize_eq] at hhi
    omega
  have haddress : phyToVir (v - kernelVirtualAddressBase) = v := by
    unfold phyToVir
    omega
  rw [Memory.store, h.space.walk_eq h.le h.isPage hlt, if_neg huser, if_pos ⟨hlo, hhi⟩,
    Option.map_some, Memory.storePhysical, haddress]

/-- A store to the kernel's memory. -/
theorem store_kernel (h : Resident image m n S) (hk : KernelAddress n v) (c : UInt8) :
  ∃ m', m.store (virToPhy S.map) v c = some m'
  := ⟨_, h.store_kernel_eq hk c⟩

/-- The kernel's memory does not overlap the user page. -/
theorem not_inUserPage (hk : KernelAddress n v) :
  ¬ InUserPage v
  := by
  rintro ⟨_, hhi⟩
  have hlo := hk.1
  rw [kernelVirtualAddressBase_eq] at hlo
  rw [userVirtualAddressBase_eq, pageSize_eq] at hhi
  omega

/-- The end of the user page is not an address of the kernel's memory. -/
theorem not_kernelAddress_of_le (hhi : v ≤ userVirtualAddressBase + pageSize) :
  ¬ KernelAddress n v
  := by
  rintro ⟨hlo, _⟩
  rw [kernelVirtualAddressBase_eq] at hlo
  rw [userVirtualAddressBase_eq, pageSize_eq] at hhi
  omega

/-! ### memcpy -/

/-- A copy to the user page stays there. -/
theorem memcpy_user (h : Resident image m n S) (hlo : userVirtualAddressBase ≤ dest)
    (hhi : dest ≤ userVirtualAddressBase + pageSize) :
  (∀ v ∈ memcpyStores (virToPhy S.map) k dest s m, InUserPage v)
    ∧ ∀ m', memcpyVirtual (virToPhy S.map) k dest s m = some m' →
      Changes [S.page] m m' ∧ dest + k ≤ userVirtualAddressBase + pageSize
  := by
  induction k generalizing m dest s with
  | zero =>
      constructor
      · intro v hv
        cases hv
      · intro m' hrun
        obtain rfl := Option.some.inj hrun
        exact ⟨Changes.refl _ _, hhi⟩
  | succ k ih =>
      rw [memcpyStores, memcpyVirtual]
      by_cases hend : dest < userVirtualAddressBase + pageSize
      · obtain ⟨m₁, hstore, hchange⟩ := h.store ⟨hlo, hend⟩ (m.bytes s)
        obtain ⟨hstores, hcopy⟩ := @ih m₁ (dest + 1) (s + 1) (h.changes hchange) (by omega) hend
        rw [hstore, Option.bind_eq_bind, Option.bind_some]
        constructor
        · intro v hv
          rcases List.mem_cons.mp hv with rfl | hv
          · exact ⟨hlo, hend⟩
          · exact hstores v hv
        · intro m' hrun
          obtain ⟨hchange', hle⟩ := hcopy m' hrun
          exact ⟨hchange.trans hchange', by omega⟩
      · have hnone := h.store_none (fun hv => hend hv.2) (not_kernelAddress_of_le hhi) (m.bytes s)
        rw [hnone]
        constructor
        · intro v hv
          cases hv
        · intro m' hrun
          cases hrun

/-- A copy to an address that is not mapped stops at the first byte. -/
theorem memcpy_unmapped (h : Resident image m n S) (hv : ¬ InUserPage dest)
    (hk : ¬ KernelAddress n dest) (hpos : 0 < k) :
  memcpyStores (virToPhy S.map) k dest s m = []
    ∧ memcpyVirtual (virToPhy S.map) k dest s m = none
  := by
  obtain ⟨k, rfl⟩ := Nat.exists_eq_add_one_of_ne_zero hpos.ne'
  have hnone := h.store_none hv hk (m.bytes s)
  rw [memcpyStores, memcpyVirtual, hnone]
  exact ⟨rfl, rfl⟩

/-- A copy to the kernel's memory stores the first byte. -/
theorem memcpy_kernel (h : Resident image m n S) (hk : KernelAddress n dest) (hpos : 0 < k) :
  dest ∈ memcpyStores (virToPhy S.map) k dest s m
  := by
  obtain ⟨k, rfl⟩ := Nat.exists_eq_add_one_of_ne_zero hpos.ne'
  obtain ⟨m', hstore⟩ := h.store_kernel hk (m.bytes s)
  rw [memcpyStores, hstore]
  exact List.mem_cons_self

/-- The stores of a copy are in the user page, unless it starts in the kernel's memory. -/
theorem memcpy_iff (h : Resident image m n S) :
  (∀ v ∈ memcpyStores (virToPhy S.map) k dest s m, InUserPage v)
    ↔ k = 0 ∨ ¬ KernelAddress n dest
  := by
  rcases Nat.eq_zero_or_pos k with rfl | hpos
  · rw [memcpyStores]
    simp
  constructor
  · intro hall
    right
    intro hk
    exact not_inUserPage hk (hall dest (h.memcpy_kernel hk hpos))
  · rintro (rfl | hk)
    · omega
    by_cases hv : InUserPage dest
    · exact (h.memcpy_user hv.1 hv.2.le).1
    · rw [(h.memcpy_unmapped hv hk hpos).1]
      intro v hv
      cases hv

/-! ### Lstat -/

section Lstat

variable {files : FileSystem} {statbuf sectorData total : ℕ} {js sectors : List ℕ}

/-- The loop over the entries of a sector stays in the user page. -/
theorem copyEntries_user (h : Resident image m n S) (hlo : userVirtualAddressBase ≤ statbuf)
    (hhi : statbuf + sizeofDirEntry * total ≤ userVirtualAddressBase + pageSize) :
  (∀ v ∈ copyEntriesStores (virToPhy S.map) statbuf sectorData js total m, InUserPage v)
    ∧ ∀ t m', copyEntries (virToPhy S.map) statbuf sectorData js total m = some (t, m') →
      Changes [S.page] m m'
        ∧ statbuf + sizeofDirEntry * t ≤ userVirtualAddressBase + pageSize
  := by
  induction js generalizing m total with
  | nil =>
      constructor
      · intro v hv
        cases hv
      · intro t m' hrun
        obtain ⟨rfl, rfl⟩ := Prod.mk.inj (Option.some.inj hrun)
        exact ⟨Changes.refl _ _, hhi⟩
  | cons j js ih =>
      rw [copyEntriesStores, copyEntries]
      by_cases huse : (DirEntry.load m.bytes (sectorData + sizeofDirEntry * j)).inUse
      · rw [if_pos huse, if_pos huse]
        obtain ⟨hstores, hcopy⟩ := h.memcpy_user (k := sizeofDirEntry)
          (s := sectorData + sizeofDirEntry * j) (by omega) hhi
        cases hrun₁ : memcpyVirtual (virToPhy S.map) sizeofDirEntry
            (statbuf + sizeofDirEntry * total) (sectorData + sizeofDirEntry * j) m with
        | none =>
            dsimp only
            rw [List.append_nil]
            constructor
            · exact hstores
            · intro t m' hrun
              cases hrun
        | some m₁ =>
            obtain ⟨hchange, hend⟩ := hcopy m₁ hrun₁
            obtain ⟨hrest, hrun⟩ := @ih m₁ (total + 1) (h.changes hchange)
              (by rw [Nat.mul_add_one]; omega)
            constructor
            · intro v hv
              rcases List.mem_append.mp hv with hv | hv
              · exact hstores v hv
              · exact hrest v hv
            · intro t m' hm
              obtain ⟨hchange', hle⟩ := hrun t m' hm
              exact ⟨hchange.trans hchange', hle⟩
      · rw [if_neg huse, if_neg huse]
        exact ih h hhi

/-- The loop over the entries of a sector without an entry in use. -/
theorem copyEntries_unused {cr3 : ℕ}
    (hjs : ∀ j ∈ js, ¬ (DirEntry.load m.bytes (sectorData + sizeofDirEntry * j)).inUse) :
  copyEntriesStores cr3 statbuf sectorData js total m = []
    ∧ copyEntries cr3 statbuf sectorData js total m = some (total, m)
  := by
  induction js with
  | nil => exact ⟨rfl, rfl⟩
  | cons j js ih =>
      rw [copyEntriesStores, copyEntries, if_neg (hjs j List.mem_cons_self),
        if_neg (hjs j List.mem_cons_self)]
      exact ih (fun j' hj' => hjs j' (List.mem_cons_of_mem j hj'))

/-- The loop over the entries of a sector stores nothing at an address that is not mapped: it
stops at the first entry in use. -/
theorem copyEntries_unmapped (h : Resident image m n S)
    (hv : ¬ InUserPage (statbuf + sizeofDirEntry * total))
    (hk : ¬ KernelAddress n (statbuf + sizeofDirEntry * total)) :
  copyEntriesStores (virToPhy S.map) statbuf sectorData js total m = []
    ∧ ∀ t m', copyEntries (virToPhy S.map) statbuf sectorData js total m = some (t, m') →
      t = total ∧ m' = m
  := by
  induction js with
  | nil =>
      refine ⟨rfl, ?_⟩
      intro t m' hrun
      obtain ⟨rfl, rfl⟩ := Prod.mk.inj (Option.some.inj hrun)
      exact ⟨rfl, rfl⟩
  | cons j js ih =>
      rw [copyEntriesStores, copyEntries]
      by_cases huse : (DirEntry.load m.bytes (sectorData + sizeofDirEntry * j)).inUse
      · obtain ⟨hstores, hcopy⟩ := h.memcpy_unmapped (k := sizeofDirEntry)
          (s := sectorData + sizeofDirEntry * j) hv hk (by decide)
        rw [if_pos huse, if_pos huse, hstores, hcopy]
        refine ⟨rfl, ?_⟩
        intro t m' hrun
        cases hrun
      · rw [if_neg huse, if_neg huse]
        exact ih

/-- The loop over the entries of a sector stores the first entry in use. -/
theorem copyEntries_kernel (h : Resident image m n S)
    (hk : KernelAddress n (statbuf + sizeofDirEntry * total))
    (hjs : ∃ j ∈ js, (DirEntry.load m.bytes (sectorData + sizeofDirEntry * j)).inUse) :
  statbuf + sizeofDirEntry * total
    ∈ copyEntriesStores (virToPhy S.map) statbuf sectorData js total m
  := by
  induction js with
  | nil =>
      obtain ⟨j, hj, _⟩ := hjs
      cases hj
  | cons j js ih =>
      rw [copyEntriesStores]
      by_cases huse : (DirEntry.load m.bytes (sectorData + sizeofDirEntry * j)).inUse
      · rw [if_pos huse]
        exact List.mem_append_left _ (h.memcpy_kernel hk (by decide))
      · rw [if_neg huse]
        apply ih
        obtain ⟨j', hj', huse'⟩ := hjs
        rcases List.mem_cons.mp hj' with rfl | hj'
        · exact absurd huse' huse
        · exact ⟨j', hj', huse'⟩

/-- Another page is changed. -/
theorem changes_apart {p : ℕ} (h : Resident image m n S) (hp : IsPage image p) (hne : p ∉ S.pages)
    (hc : Changes [p] m m') :
  Resident image m' n S
  where
  space := by
    apply h.space.changes hc
    · simpa using hp.aligned
    · exact fun q hq => (h.isPage q (List.mem_cons_of_mem _ hq)).aligned
    · intro q hq hx
      rw [List.mem_singleton.mp hx] at hq
      exact hne (List.mem_cons_of_mem _ hq)
  le := h.le
  isPage := h.isPage
  nodup := h.nodup

/-- The entries of a sector in use, in the temporary page. -/
theorem inUse_readRootSector {i j : ℕ} (hj : j < files.entriesPerSector) (m : Memory) :
  (DirEntry.load (files.readRootSector sectorData i m).bytes
      (sectorData + sizeofDirEntry * j)).inUse = true
    ↔ (i, j) ∈ files.sectorEntries i
  := by
  rw [readRootSector_entry hj]
  simp [sectorEntries, hj]

/-- A sector without an entry in use, in the temporary page. -/
theorem unused_readRootSector {i : ℕ} (hnil : files.sectorEntries i = []) (m : Memory) :
  ∀ j ∈ List.range files.entriesPerSector,
    ¬ (DirEntry.load (files.readRootSector sectorData i m).bytes
      (sectorData + sizeofDirEntry * j)).inUse
  := by
  intro j hj huse
  have hmem := (inUse_readRootSector (List.mem_range.mp hj) m).mp huse
  rw [hnil] at hmem
  cases hmem

/-- The loop over sectors without an entry in use stores nothing. -/
theorem copySectors_unused {cr3 : ℕ} (hnil : sectors.flatMap files.sectorEntries = []) :
  files.copySectorsStores cr3 statbuf sectorData sectors total m = []
  := by
  induction sectors generalizing m with
  | nil => rw [copySectorsStores]
  | cons i sectors ih =>
      obtain ⟨hi, hrest⟩ := List.append_eq_nil_iff.mp hnil
      obtain ⟨hstores, hcopy⟩ :=
        @copyEntries_unused _ statbuf sectorData total _ cr3 (unused_readRootSector hi m)
      rw [copySectorsStores, hstores, hcopy, List.nil_append]
      exact ih hrest

variable (hsector : files.bpb.bytesPerSector ≤ pageSize) (hdata : IsPage image sectorData)
  (hne : sectorData ∉ S.pages)

include hsector hdata hne

/-- The sectors that `Lstat` reads do not change the address space. -/
theorem readRootSector (h : Resident image m n S) (i : ℕ) :
  Resident image (files.readRootSector sectorData i m) n S
  := h.changes_apart hdata hne (changes_readRootSector hsector m)

/-- The loop over the sectors stays in the user page. -/
theorem copySectors_user (h : Resident image m n S) (hlo : userVirtualAddressBase ≤ statbuf)
    (hhi : statbuf + sizeofDirEntry * total ≤ userVirtualAddressBase + pageSize) :
  ∀ v ∈ files.copySectorsStores (virToPhy S.map) statbuf sectorData sectors total m, InUserPage v
  := by
  induction sectors generalizing m total with
  | nil =>
      intro v hv
      cases hv
  | cons i sectors ih =>
      have h₁ := h.readRootSector hsector hdata hne i
      obtain ⟨hstores, hcopy⟩ := @copyEntries_user image _ n S statbuf sectorData total
        (List.range files.entriesPerSector) h₁ hlo hhi
      intro v hv
      rw [copySectorsStores] at hv
      rcases List.mem_append.mp hv with hv | hv
      · exact hstores v hv
      · split at hv
        · cases hv
        · rename_i t m₂ hrun
          obtain ⟨hchange, hend⟩ := hcopy t m₂ hrun
          exact ih (h₁.changes hchange) hend v hv

/-- The loop over the sectors stores nothing at an address that is not mapped. -/
theorem copySectors_unmapped (h : Resident image m n S)
    (hv : ¬ InUserPage (statbuf + sizeofDirEntry * total))
    (hk : ¬ KernelAddress n (statbuf + sizeofDirEntry * total)) :
  files.copySectorsStores (virToPhy S.map) statbuf sectorData sectors total m = []
  := by
  induction sectors generalizing m with
  | nil => rw [copySectorsStores]
  | cons i sectors ih =>
      have h₁ := h.readRootSector hsector hdata hne i
      obtain ⟨hstores, hcopy⟩ := @copyEntries_unmapped image _ n S statbuf sectorData total
        (List.range files.entriesPerSector) h₁ hv hk
      rw [copySectorsStores, hstores, List.nil_append]
      split
      · rfl
      · rename_i t m₂ hrun
        obtain ⟨rfl, rfl⟩ := hcopy t m₂ hrun
        exact ih h₁

/-- The loop over the sectors stores the first entry in use. -/
theorem copySectors_kernel (h : Resident image m n S)
    (hk : KernelAddress n (statbuf + sizeofDirEntry * total))
    (hentries : sectors.flatMap files.sectorEntries ≠ []) :
  statbuf + sizeofDirEntry * total
    ∈ files.copySectorsStores (virToPhy S.map) statbuf sectorData sectors total m
  := by
  induction sectors generalizing m with
  | nil => exact absurd rfl hentries
  | cons i sectors ih =>
      have h₁ := h.readRootSector hsector hdata hne i
      rw [copySectorsStores]
      by_cases hnil : files.sectorEntries i = []
      · obtain ⟨hstores, hcopy⟩ := @copyEntries_unused _ statbuf sectorData total _
          (virToPhy S.map) (unused_readRootSector hnil m)
        rw [hstores, hcopy, List.nil_append]
        apply ih h₁
        rwa [List.flatMap_cons, hnil, List.nil_append] at hentries
      · apply List.mem_append_left
        apply h₁.copyEntries_kernel hk
        obtain ⟨e, he⟩ := List.exists_mem_of_ne_nil _ hnil
        have hlt := mem_sectorEntries he
        obtain ⟨_, j⟩ := e
        obtain rfl := sector_of_mem he
        exact ⟨j, List.mem_range.mpr hlt, (inUse_readRootSector hlt m).mpr he⟩

/-- The stores of `Lstat` are in the user page, unless there is an entry to store and the
buffer starts in the kernel's memory. -/
theorem copySectors_iff (h : Resident image m n S) :
  (∀ v ∈ files.copySectorsStores (virToPhy S.map) statbuf sectorData files.rootSectors 0 m,
      InUserPage v)
    ↔ files.rootEntries = [] ∨ ¬ KernelAddress n statbuf
  := by
  have hstart : statbuf = statbuf + sizeofDirEntry * 0 := rfl
  constructor
  · intro hall
    rw [← imp_iff_or_not]
    intro hk
    by_contra hentries
    rw [hstart] at hk
    exact not_inUserPage hk (hall _ (h.copySectors_kernel hsector hdata hne hk hentries))
  · rintro (hnil | hk)
    · rw [copySectors_unused hnil]
      intro v hv
      cases hv
    by_cases hv : InUserPage statbuf
    · exact h.copySectors_user hsector hdata hne hv.1 hv.2.le
    · rw [hstart] at hv hk
      rw [h.copySectors_unmapped hsector hdata hne hv hk]
      intro v hv
      cases hv

end Lstat

end Resident

/-! ### Calls -/

/-- A copy that does not cause an exception stores all its bytes. -/
theorem memcpyStores_eq {cr3 : ℕ} (hrun : memcpyVirtual cr3 k dest s m = some m') :
  memcpyStores cr3 k dest s m = List.range' dest k
  := by
  induction k generalizing m dest s with
  | zero => rw [memcpyStores, List.range'_zero]
  | succ k ih =>
      obtain ⟨m₁, hstore, hrun⟩ := Option.bind_eq_some_iff.mp hrun
      rw [memcpyStores, hstore, List.range'_succ]
      dsimp only
      rw [ih hrun]

section Completed

variable {files : FileSystem} {cr3 statbuf sectorData total t : ℕ} {js sectors : List ℕ}

/-- The stores of `ReadRawData` when it returns. -/
theorem readRawDataStores_eq {clusterIndex buf pos size : ℕ}
    (hrun : files.readRawData image cr3 clusterIndex buf pos size m = some m') :
  files.readRawDataStores image cr3 clusterIndex buf pos size m = List.range' buf size
  := by
  rw [readRawData_eq] at hrun
  obtain ⟨⟨buffer, m₁⟩, hstart, hrun⟩ := Option.bind_eq_some_iff.mp hrun
  obtain ⟨m₂, hcopy, _⟩ := Option.bind_eq_some_iff.mp hrun
  rw [readRawDataStores, hstart]
  exact memcpyStores_eq hcopy

/-- The stores for the entries of a sector when the loop ends. -/
theorem copyEntriesStores_eq
    (hrun : copyEntries cr3 statbuf sectorData js total m = some (t, m')) :
  total ≤ t ∧ copyEntriesStores cr3 statbuf sectorData js total m
    = List.range' (statbuf + sizeofDirEntry * total) (sizeofDirEntry * (t - total))
  := by
  induction js generalizing total m with
  | nil =>
      obtain ⟨rfl, rfl⟩ := Prod.mk.inj (Option.some.inj hrun)
      rw [Nat.sub_self, Nat.mul_zero, List.range'_zero]
      exact ⟨le_rfl, rfl⟩
  | cons j js ih =>
      rw [copyEntries] at hrun
      rw [copyEntriesStores]
      split at hrun
      case isTrue huse =>
        obtain ⟨m₁, hcopy, hrun⟩ := Option.bind_eq_some_iff.mp hrun
        obtain ⟨hle, hrest⟩ := ih hrun
        refine ⟨by omega, ?_⟩
        have hlen : sizeofDirEntry + sizeofDirEntry * (t - (total + 1))
            = sizeofDirEntry * (t - total) := by
          have hsplit : t - total = 1 + (t - (total + 1)) := by omega
          rw [hsplit, Nat.mul_add, Nat.mul_one]
        rw [if_pos huse, hcopy, memcpyStores_eq hcopy]
        dsimp only
        rw [hrest, Nat.mul_add_one, ← Nat.add_assoc, List.range'_append_1, hlen]
      case isFalse huse =>
        rw [if_neg huse]
        exact ih hrun

/-- The stores for the sectors when the loop ends. -/
theorem copySectorsStores_eq
    (hrun : files.copySectors cr3 statbuf sectorData sectors total m = some (t, m')) :
  total ≤ t ∧ files.copySectorsStores cr3 statbuf sectorData sectors total m
    = List.range' (statbuf + sizeofDirEntry * total) (sizeofDirEntry * (t - total))
  := by
  induction sectors generalizing total m with
  | nil =>
      obtain ⟨rfl, rfl⟩ := Prod.mk.inj (Option.some.inj hrun)
      rw [Nat.sub_self, Nat.mul_zero, List.range'_zero]
      exact ⟨le_rfl, rfl⟩
  | cons i sectors ih =>
      obtain ⟨⟨t₁, m₁⟩, hentries, hrun⟩ := Option.bind_eq_some_iff.mp hrun
      obtain ⟨hle₁, hstores₁⟩ := copyEntriesStores_eq hentries
      obtain ⟨hle, hstores⟩ := ih hrun
      have hlen : sizeofDirEntry * (t₁ - total) + sizeofDirEntry * (t - t₁)
          = sizeofDirEntry * (t - total) := by
        rw [← Nat.mul_add]
        congr 1
        omega
      have hstart : statbuf + sizeofDirEntry * t₁
          = statbuf + sizeofDirEntry * total + sizeofDirEntry * (t₁ - total) := by
        rw [Nat.add_assoc, ← Nat.mul_add]
        congr 2
        omega
      refine ⟨by omega, ?_⟩
      rw [copySectorsStores, hentries, hstores₁]
      dsimp only
      rw [hstores, hstart, List.range'_append_1, hlen]

/-- The stores of `Lstat` when it returns the number of entries. -/
theorem lstatStores_eq {total : Int}
    (hrun : files.lstat image cr3 statbuf m = some (total, m')) :
  files.lstatStores image cr3 statbuf m = List.range' statbuf (sizeofDirEntry * total.toNat)
  := by
  obtain ⟨⟨p, m₁⟩, halloc, hrun⟩ := Option.bind_eq_some_iff.mp hrun
  rw [lstatStores, halloc]
  dsimp only at hrun ⊢
  split at hrun
  case isTrue hzero =>
    obtain ⟨rfl, _⟩ := Prod.mk.inj (Option.some.inj hrun)
    rw [if_pos hzero]
    rfl
  case isFalse hzero =>
    obtain ⟨⟨n, m₂⟩, hsectors, hrun⟩ := Option.bind_eq_some_iff.mp hrun
    obtain ⟨m₃, _, hrun⟩ := Option.bind_eq_some_iff.mp hrun
    obtain ⟨rfl, _⟩ := Prod.mk.inj (Option.some.inj hrun)
    obtain ⟨_, hstores⟩ := copySectorsStores_eq hsectors
    rw [if_neg hzero, hstores]
    rfl

end Completed

namespace Resident

variable {files : FileSystem} {a clusterIndex buf pos size statbuf : ℕ} {xs : List ℕ}

/-- The stores of `ReadRawData` are in the user page, unless it copies to the kernel's memory. -/
theorem readRawData_iff (h : Resident image m n S) (hne : a ∉ S.pages)
    (hfree : Free image m (a :: xs)) (hreadable : files.Readable clusterIndex pos)
    (hfit : files.readSectors size * sectorSize ≤ pageSize) :
  (∀ v ∈ files.readRawDataStores image (virToPhy S.map) clusterIndex buf pos size m, InUserPage v)
    ↔ size = 0 ∨ ¬ KernelAddress n buf
  := by
  obtain ⟨m₁, hstart, _, hspace, _⟩ :=
    readRawDataStart_spec h.space h.isPage hne hfree hreadable hfit
  have h₁ : Resident image m₁ n S := ⟨hspace, h.le, h.isPage, h.nodup⟩
  rw [readRawDataStores, hstart]
  exact h₁.memcpy_iff

/-- A request for one byte to the kernel's memory overwrites the byte at the address, in the page
`p`, which may be any page that is not free. -/
theorem readRawData_kernelByte {p : ℕ} (h : Resident image m n S) (hne : a ∉ S.pages)
    (hfree : Free image m (a :: xs)) (hreadable : files.Readable clusterIndex pos)
    (hfit : files.readSectors 1 * sectorSize ≤ pageSize)
    (hoffset : files.readOffset pos < files.readSectors 1 * sectorSize)
    (hk : KernelAddress n buf) (hp : addrIsAligned p) (hmem : p ∉ a :: xs) (hbuf : InPage p buf) :
  ∃ m', files.readRawData image (virToPhy S.map) clusterIndex buf pos 1 m = some m'
    ∧ m'.bytes buf = files.diskByte (files.clusterSector (files.readCluster clusterIndex pos))
        (files.readOffset pos)
    ∧ ∀ x, ¬ InPage a x → x ≠ buf → m'.bytes x = m.bytes x
  := by
  have ha := hfree.isPage a List.mem_cons_self
  have hapart : ¬ InPage a buf := fun hx =>
    hmem ((InPage.unique hp ha.aligned hbuf hx) ▸ List.mem_cons_self)
  obtain ⟨m₁, hstart, hfree₁, hspace₁, hchange₁, hbytes₁⟩ :=
    readRawDataStart_spec h.space h.isPage hne hfree hreadable hfit
  have h₁ : Resident image m₁ n S := ⟨hspace₁, h.le, h.isPage, h.nodup⟩
  have hcopy : memcpyVirtual (virToPhy S.map) 1 buf (a + files.readOffset pos) m₁
      = some { m₁ with bytes := Function.update m₁.bytes buf (m₁.bytes (a + files.readOffset pos)) }
    := by
    rw [memcpyVirtual, h₁.store_kernel_eq hk, Option.bind_eq_bind, Option.bind_some, memcpyVirtual]
  have hchange₂ : Changes [p] m₁
      { m₁ with bytes := Function.update m₁.bytes buf (m₁.bytes (a + files.readOffset pos)) } := by
    apply Changes.of_page
    intro x hx
    apply Function.update_of_ne
    rintro rfl
    exact hx hbuf
  have hfree₂ := hfree₁.changes hchange₂ rfl (fun q hq => List.mem_singleton.mp hq ▸ hp)
    (fun q hq hx => hmem (List.mem_cons_of_mem _ (List.mem_singleton.mp hq ▸ hx)))
  obtain ⟨m₃, hkfree, _, hchange₃⟩ := hfree₂.kfree ha (List.nodup_cons.mp hfree.nodup).1
  have hsame : ∀ x, ¬ InPage a x → m₃.bytes x
      = Function.update m₁.bytes buf (m₁.bytes (a + files.readOffset pos)) x := by
    intro x hx
    apply hchange₃.bytes x
    rintro ⟨q, hq, hin⟩
    exact hx (List.mem_singleton.mp hq ▸ hin)
  refine ⟨m₃, ?_, ?_, ?_⟩
  · rw [readRawData_eq, hstart, Option.bind_some]
    dsimp only
    rw [hcopy, Option.bind_some, hkfree]
  · rw [hsame buf hapart, Function.update_self, hbytes₁ _ (by omega), if_pos hoffset]
  · intro x hx hxbuf
    rw [hsame x hx, Function.update_of_ne hxbuf]
    apply hchange₁.bytes x
    rintro ⟨q, hq, hin⟩
    exact hx (List.mem_singleton.mp hq ▸ hin)

/-- `ReadRawData` stops before the copy without a free page, and when the request is not
readable. -/
theorem readRawData_stopped {cr3 : ℕ}
    (hstop : m.freePageHead = 0 ∨ ¬ files.Readable clusterIndex pos) :
  files.readRawDataStores image cr3 clusterIndex buf pos size m = []
  := by
  rw [readRawDataStores]
  split
  · rfl
  · rename_i buffer m₁ hstart
    obtain ⟨hcluster, hstart⟩ := assert_bind_eq_some.mp hstart
    obtain ⟨⟨p, m₂⟩, halloc, hstart⟩ := Option.bind_eq_some_iff.mp hstart
    obtain ⟨hp, hstart⟩ := assert_bind_eq_some.mp hstart
    obtain ⟨m₃, hread, _⟩ := Option.bind_eq_some_iff.mp hstart
    obtain ⟨hle, _⟩ := assert_bind_eq_some.mp hread
    rcases hstop with hhead | hreadable
    · rw [kalloc, if_neg (not_not.mpr hhead)] at halloc
      obtain ⟨rfl, _⟩ := Prod.mk.inj (Option.some.inj halloc)
      exact absurd rfl hp
    · exact absurd ⟨hcluster, hle⟩ hreadable

/-- The stores of `Lstat` are in the user page, unless it copies to the kernel's memory. -/
theorem lstat_iff (h : Resident image m n S) (hne : a ∉ S.pages)
    (hfree : Free image m (a :: xs)) (hsector : files.bpb.bytesPerSector ≤ pageSize) :
  (∀ v ∈ files.lstatStores image (virToPhy S.map) statbuf m, InUserPage v)
    ↔ files.rootEntries = [] ∨ ¬ KernelAddress n statbuf
  := by
  have ha := hfree.isPage a List.mem_cons_self
  obtain ⟨m₁, hrun, _, _, hchange⟩ := hfree.kalloc_cons
  have h₁ := h.changes (hchange.mono (List.nil_subset [S.page]))
  rw [lstatStores, hrun]
  dsimp only
  rw [if_neg ha.ne_zero]
  exact h₁.copySectors_iff hsector ha hne

end Resident

end LarvaOS
