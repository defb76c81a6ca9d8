import LarvaOS.Memory.Tables

/-!
# Mapping pages

`MapPages` on a range inside one gigabyte of the address space, which one page
directory covers.  `Gigabyte base a` says that the gigabyte from `base` on is the one
under entry `a` of a page map and entry `0` of the page directory pointer table there.
-/

namespace LarvaOS

variable {image : Image}

/-! ### One entry -/

section Entry

variable {m : Memory} {t i p attr : ℕ} {xs : List ℕ}

/-- A present entry is followed. -/
theorem findTableEntry_present (h : link (m.entry t i) = some p) (alloc : Bool) :
  findTableEntry image t i alloc attr m = some (p, m)
  := by
  unfold link at h
  split at h
  next hpresent =>
    rw [findTableEntry, if_pos hpresent, Option.some.inj h]
  next => cases h

/-- Without a free page no table is found. -/
theorem findTableEntry_nil (h : link (m.entry t i) = none) (hfree : Free image m []) :
  findTableEntry image t i true attr m = some (0, m)
  := by
  have hpresent : ¬ Present (m.entry t i) := by
    intro hp
    rw [link, if_pos hp] at h
    cases h
  rw [findTableEntry, if_neg hpresent, if_pos rfl, hfree.kalloc_nil]
  rfl

/-- A new table is the first free page, cleared. -/
theorem findTableEntry_cons (h : link (m.entry t i) = none) (hfree : Free image m (p :: xs))
    (ht : addrIsAligned t) (hmem : t ∉ p :: xs) (hi : i < totalTableEntries)
    (ha : IsAttribute attr) :
  ∃ m', findTableEntry image t i true attr m = some (p, m') ∧ Free image m' xs
    ∧ Changes [t, p] m m' ∧ Table m' p (fun _ => 0)
    ∧ Table m' t (Function.update (m.entry t) i (virToPhy p ||| attr))
  := by
  have hpresent : ¬ Present (m.entry t i) := by
    intro hp
    rw [link, if_pos hp] at h
    cases h
  rw [List.mem_cons, not_or] at hmem
  have hp := hfree.isPage p List.mem_cons_self
  have hpxs := (List.nodup_cons.mp hfree.nodup).1
  obtain ⟨m₁, hrun, hfree₁, hbytes, hchange⟩ := hfree.kalloc_cons
  have hclear := Memory.changes_clear m₁ p
  have hset := Memory.changes_setEntry (m₁.clear p) t hi (virToPhy p ||| attr)
  use (m₁.clear p).setEntry t i (virToPhy p ||| attr)
  refine ⟨?_, ?_, ?_, ?_, ?_⟩
  · rw [findTableEntry, if_neg hpresent, if_pos rfl, hrun]
    simp only [Option.bind_eq_bind, Option.bind_some, if_pos hp.ne_zero]
  · have hfree₂ : Free image (m₁.clear p) xs := by
      apply hfree₁.changes hclear rfl
      · simpa using hp.aligned
      · simpa using hpxs
    apply hfree₂.changes hset rfl
    · simpa using ht
    · simpa using hmem.2
  · apply ((hchange.mono _).trans (hclear.mono _)).trans (hset.mono _)
    · simp
    · simp
    · simp
  · apply (Table.clear m₁ p).changes hset
    · simpa using ht
    · exact hp.aligned
    · simpa using Ne.symm hmem.1
  · apply Table.setEntry _ i (entry_lt hp ha)
    intro j hj
    rw [hclear.entry (by simpa using hp.aligned) ht (by simpa using hmem.1) hj]
    exact congrArg (fun b => Bytes.readWord b (t + 8 * j)) hbytes

end Entry

/-! ### A gigabyte -/

/-- The gigabyte from `base` on is under entry `a` of a page map and entry `0` of the
page directory pointer table there. -/
structure Gigabyte (base a : ℕ) : Prop where
  pml4 : ∀ k, k < totalTableEntries → ((base + k * pageSize) >>> 39) &&& 0x1FF = a
  pdpt : ∀ k, k < totalTableEntries → ((base + k * pageSize) >>> 30) &&& 0x1FF = 0
  pd : ∀ k, k < totalTableEntries → ((base + k * pageSize) >>> 21) &&& 0x1FF = k
  lt : a < totalTableEntries
  aligned : base % 2097152 = 0
  bound : base + 513 * pageSize < 2 ^ 64

theorem and_mask (x : ℕ) :
  x &&& 0x1FF = x % 512
  := Nat.and_two_pow_sub_one_eq_mod x 9

/-- The gigabyte of user pages. -/
theorem userGigabyte :
  Gigabyte 0 0
  where
  pml4 k hk := by
    have hk : k < 512 := hk
    rw [and_mask, pageSize_eq, Nat.shiftRight_eq_div_pow]
    omega
  pdpt k hk := by
    have hk : k < 512 := hk
    rw [and_mask, pageSize_eq, Nat.shiftRight_eq_div_pow]
    omega
  pd k hk := by
    have hk : k < 512 := hk
    rw [and_mask, pageSize_eq, Nat.shiftRight_eq_div_pow]
    omega
  lt := by decide
  aligned := rfl
  bound := by
    rw [pageSize_eq]
    omega

/-- The gigabyte of the kernel. -/
theorem kernelGigabyte :
  Gigabyte kernelVirtualAddressBase 256
  where
  pml4 k hk := by
    have hk : k < 512 := hk
    rw [and_mask, pageSize_eq, kernelVirtualAddressBase_eq, Nat.shiftRight_eq_div_pow]
    omega
  pdpt k hk := by
    have hk : k < 512 := hk
    rw [and_mask, pageSize_eq, kernelVirtualAddressBase_eq, Nat.shiftRight_eq_div_pow]
    omega
  pd k hk := by
    have hk : k < 512 := hk
    rw [and_mask, pageSize_eq, kernelVirtualAddressBase_eq, Nat.shiftRight_eq_div_pow]
    omega
  lt := by decide
  aligned := by rw [kernelVirtualAddressBase_eq]
  bound := by
    rw [pageSize_eq, kernelVirtualAddressBase_eq]
    omega

section Directory

variable {m : Memory} {map base a d e k attr : ℕ} {xs : List ℕ}

/-- The page directory of a gigabyte that has one. -/
theorem findDirectory_present (hg : Gigabyte base a) (hk : k < totalTableEntries)
    (hd : link (m.entry map a) = some d) (he : link (m.entry d 0) = some e) (hd0 : d ≠ 0)
    (alloc : Bool) :
  findPageDirPointerTableEntry image map (base + k * pageSize) alloc attr m = some (e, m)
  := by
  unfold findPageDirPointerTableEntry findPML4TableEntry
  rw [hg.pml4 k hk, hg.pdpt k hk, findTableEntry_present hd]
  simp only [Option.bind_eq_bind, Option.bind_some]
  rw [if_neg hd0, findTableEntry_present he]

/-- Without free pages there is no directory. -/
theorem findDirectory_nil (hg : Gigabyte base a) (hk : k < totalTableEntries)
    (hnone : link (m.entry map a) = none) (hfree : Free image m []) :
  findPageDirPointerTableEntry image map (base + k * pageSize) true attr m = some (0, m)
  := by
  unfold findPageDirPointerTableEntry findPML4TableEntry
  rw [hg.pml4 k hk, hg.pdpt k hk, findTableEntry_nil hnone hfree]
  rfl

/-- One free page becomes a pointer table, and there is no directory. -/
theorem findDirectory_one (hg : Gigabyte base a) (hk : k < totalTableEntries)
    (hnone : link (m.entry map a) = none) (hfree : Free image m [d]) (hmap : addrIsAligned map)
    (hmem : map ∉ [d]) (ha : IsAttribute attr) :
  ∃ m', findPageDirPointerTableEntry image map (base + k * pageSize) true attr m = some (0, m')
    ∧ Free image m' [] ∧ Changes [map, d] m m' ∧ Table m' d (fun _ => 0)
    ∧ Table m' map (Function.update (m.entry map) a (virToPhy d ||| attr))
  := by
  obtain ⟨m', hrun, hfree', hchange, htable, hentry⟩ :=
    findTableEntry_cons hnone hfree hmap hmem hg.lt ha
  have hd := hfree.isPage d List.mem_cons_self
  have hzero : link (m'.entry d 0) = none := by
    rw [htable 0 (by decide), link_zero]
  use m'
  refine ⟨?_, hfree', hchange, htable, hentry⟩
  unfold findPageDirPointerTableEntry findPML4TableEntry
  rw [hg.pml4 k hk, hg.pdpt k hk, hrun]
  simp only [Option.bind_eq_bind, Option.bind_some]
  rw [if_neg hd.ne_zero, findTableEntry_nil hzero hfree']

/-- Two free pages become a pointer table and a directory. -/
theorem findDirectory_cons (hg : Gigabyte base a) (hk : k < totalTableEntries)
    (hnone : link (m.entry map a) = none) (hfree : Free image m (d :: e :: xs))
    (hmap : addrIsAligned map) (hmem : map ∉ d :: e :: xs) (ha : IsAttribute attr) :
  ∃ m', findPageDirPointerTableEntry image map (base + k * pageSize) true attr m = some (e, m')
    ∧ Free image m' xs ∧ Changes [map, d, e] m m' ∧ Table m' e (fun _ => 0)
    ∧ Table m' d (Function.update (fun _ => 0) 0 (virToPhy e ||| attr))
    ∧ Table m' map (Function.update (m.entry map) a (virToPhy d ||| attr))
  := by
  obtain ⟨m₁, hrun, hfree₁, hchange₁, htable₁, hentry₁⟩ :=
    findTableEntry_cons hnone hfree hmap hmem hg.lt ha
  have hd := hfree.isPage d List.mem_cons_self
  have he := hfree.isPage e (by simp)
  have hnodup := List.nodup_cons.mp hfree.nodup
  have hzero : link (m₁.entry d 0) = none := by
    rw [htable₁ 0 (by decide), link_zero]
  obtain ⟨m', hrun', hfree', hchange', htable', hentry'⟩ :=
    findTableEntry_cons hzero hfree₁ hd.aligned hnodup.1 (by decide) ha
  have hpages : ∀ q ∈ [d, e], addrIsAligned q := by
    simp [hd.aligned, he.aligned]
  use m'
  refine ⟨?_, hfree', ?_, htable', ?_, ?_⟩
  · unfold findPageDirPointerTableEntry findPML4TableEntry
    rw [hg.pml4 k hk, hg.pdpt k hk, hrun]
    simp only [Option.bind_eq_bind, Option.bind_some]
    rw [if_neg hd.ne_zero, hrun']
  · exact (hchange₁.mono (by simp)).trans (hchange'.mono (by simp))
  · intro j hj
    rw [hentry' j hj]
    by_cases hj0 : j = 0
    · rw [hj0, Function.update_self, Function.update_self]
    · rw [Function.update_of_ne hj0, Function.update_of_ne hj0, htable₁ j hj]
  · apply hentry₁.changes hchange' hpages hmap
    simp only [List.mem_cons, not_or] at hmem ⊢
    exact ⟨hmem.1, hmem.2.1, by simp⟩

end Directory

/-! ### The loop -/

/-- The entry of a page of 2 MB. -/
theorem leafEntry {phys attr : ℕ} (hphys : phys % 2097152 = 0) (hlt : phys < 2 ^ 48)
    (ha : IsAttribute attr) :
  phys ||| attr ||| tableEntryEntryAttribute = phys + (attr ||| 128)
    ∧ phys ||| attr ||| tableEntryEntryAttribute < 2 ^ 64
  := by
  have hsmall : attr ||| 128 < 2 ^ 12 := Nat.or_lt_two_pow ha.small (by decide)
  have hor : phys ||| attr ||| tableEntryEntryAttribute = phys + (attr ||| 128) := by
    rw [Nat.or_assoc]
    apply or_attribute hphys
    exact Nat.lt_of_lt_of_le hsmall (by decide)
  rw [hor]
  constructor
  · rfl
  · omega

/-- The entries of a directory after its entries from `k` to `n` were set to consecutive
pages from `phys` on. -/
def mappedEntries (k n phys attr : ℕ) (f : ℕ → ℕ) (j : ℕ) : ℕ :=
  if k ≤ j ∧ j < n then
    (phys + (j - k) * 2097152) ||| attr ||| tableEntryEntryAttribute
  else f j

/-- The entry `k` is set before the entries after it. -/
theorem mappedEntries_succ {k n phys attr : ℕ} {f : ℕ → ℕ} (hk : k < n) :
  mappedEntries (k + 1) n (phys + 2097152) attr
      (Function.update f k (phys ||| attr ||| tableEntryEntryAttribute))
    = mappedEntries k n phys attr f
  := by
  funext j
  unfold mappedEntries
  by_cases hjk : j = k
  · subst hjk
    rw [Function.update_self, if_neg (by omega), if_pos ⟨Nat.le_refl j, hk⟩, Nat.sub_self,
      Nat.zero_mul, Nat.add_zero]
  · rw [Function.update_of_ne hjk]
    by_cases hin : k ≤ j ∧ j < n
    · have hoffset : phys + 2097152 + (j - (k + 1)) * 2097152 = phys + (j - k) * 2097152 := by
        omega
      rw [if_pos (by omega), if_pos hin, hoffset]
    · rw [if_neg (by omega), if_neg hin]

theorem mappedEntries_self {n phys attr : ℕ} {f : ℕ → ℕ} :
  mappedEntries n n phys attr f = f
  := by
  funext j
  apply if_neg
  omega

theorem mappedEntries_congr {k n phys attr : ℕ} {f g : ℕ → ℕ}
    (h : ∀ j, j < totalTableEntries → f j = g j) {j : ℕ} (hj : j < totalTableEntries) :
  mappedEntries k n phys attr f j = mappedEntries k n phys attr g j
  := by
  unfold mappedEntries
  rw [h j hj]

/-- The loop of `MapPages` in a gigabyte that has a directory, up to the end of page
`n - 1`: the entries of the pages are stored in the directory. -/
theorem mapPagesLoop_within {map base a d e n attr : ℕ} (hg : Gigabyte base a)
    (hn : n ≤ totalTableEntries) (ha : IsAttribute attr) (hmap : addrIsAligned map)
    (hd : IsPage image d) (he : IsPage image e) (hmape : map ≠ e) (hde : d ≠ e)
    {fuel k phys : ℕ} {m : Memory} (hfuel : n - k ≤ fuel) (hk : k < n)
    (hlink : link (m.entry map a) = some d) (hlink' : link (m.entry d 0) = some e)
    (habsent : ∀ j, k ≤ j → j < n → ¬ Present (m.entry e j))
    (hphys : phys % 2097152 = 0) (hbound : phys + (n - k) * 2097152 < 2 ^ 48) :
  ∃ m', mapPagesLoop image map attr (base + n * pageSize) fuel (base + k * pageSize) phys m
      = some (true, m')
    ∧ m'.freePageHead = m.freePageHead ∧ Changes [e] m m'
    ∧ Table m' e (mappedEntries k n phys attr (m.entry e))
  := by
  induction fuel generalizing k phys m with
  | zero => omega
  | succ fuel ih =>
      have hn' : n ≤ 512 := hn
      have hk' : k < totalTableEntries := Nat.lt_of_lt_of_le hk hn
      have hend := hg.bound
      obtain ⟨_, hword⟩ := leafEntry hphys (by omega) ha
      obtain ⟨v, hv⟩ : ∃ v, phys ||| attr ||| tableEntryEntryAttribute = v := ⟨_, rfl⟩
      have hset := Memory.changes_setEntry m e hk' v
      have htable : Table (m.setEntry e k v) e (Function.update (m.entry e) k v) := by
        rw [hv] at hword
        apply Table.setEntry (fun _ _ => rfl) k hword
      have hstart : (base + k * pageSize + pageSize) % 2 ^ 64 = base + (k + 1) * pageSize := by
        rw [pageSize_eq] at *
        omega
      have hnext : (phys + pageSize) % 2 ^ 64 = phys + 2097152 := by
        rw [pageSize_eq]
        omega
      have hcond : (base + (k + 1) * pageSize + pageSize) % 2 ^ 64 ≤ base + n * pageSize
          ↔ k + 1 < n := by
        rw [pageSize_eq] at *
        omega
      rw [mapPagesLoop, findDirectory_present hg hk' hlink hlink' hd.ne_zero]
      simp only [Option.bind_eq_bind, Option.bind_some]
      rw [if_neg he.ne_zero, hg.pd k hk', assert_of (habsent k (le_refl k) hk), hv,
        Option.bind_some, hstart, hnext]
      by_cases hlast : k + 1 < n
      · rw [if_pos (hcond.mpr hlast)]
        have hmapentry : (m.setEntry e k v).entry map a = m.entry map a :=
          hset.entry (by simpa using he.aligned) hmap (by simpa using hmape) hg.lt
        have hdentry : (m.setEntry e k v).entry d 0 = m.entry d 0 :=
          hset.entry (by simpa using he.aligned) hd.aligned (by simpa using hde) (by decide)
        obtain ⟨m', hrun, hhead, hchange, htable'⟩ := @ih (k + 1) (phys + 2097152)
          (m.setEntry e k v) (by omega) hlast (by rw [hmapentry]; exact hlink)
          (by rw [hdentry]; exact hlink')
          (by
            intro j hj hjn
            rw [htable j (Nat.lt_of_lt_of_le hjn hn), Function.update_of_ne (by omega)]
            apply habsent j (by omega) hjn)
          (by omega) (by omega)
        refine ⟨m', hrun, hhead, hset.trans hchange, ?_⟩
        intro j hj
        rw [htable' j hj, mappedEntries_congr htable hj, ← hv, mappedEntries_succ hk]
      · rw [if_neg (fun h => hlast (hcond.mp h))]
        refine ⟨m.setEntry e k v, rfl, rfl, hset, ?_⟩
        have hkn : k + 1 = n := by omega
        intro j hj
        rw [htable j hj, ← mappedEntries_succ hk, hkn, mappedEntries_self, hv]

/-- A loop that finds its directory runs on as if the directory had been there. -/
theorem mapPagesLoop_find {map attr vEnd n vStart phys e : ℕ} {m m' : Memory}
    (h : findPageDirPointerTableEntry image map vStart true attr m = some (e, m'))
    (h' : findPageDirPointerTableEntry image map vStart true attr m' = some (e, m')) :
  mapPagesLoop image map attr vEnd n vStart phys m = mapPagesLoop image map attr vEnd n vStart phys m'
  := by
  cases n with
  | zero => rfl
  | succ n => rw [mapPagesLoop, mapPagesLoop, h, h']

/-- A loop that finds no directory fails. -/
theorem mapPagesLoop_zero {map attr vEnd n vStart phys : ℕ} {m m' : Memory} (hn : 0 < n)
    (h : findPageDirPointerTableEntry image map vStart true attr m = some (0, m')) :
  mapPagesLoop image map attr vEnd n vStart phys m = some (false, m')
  := by
  cases n with
  | zero => cases hn
  | succ n =>
      rw [mapPagesLoop, h]
      rfl

section MapPages

variable {map base a d e k n attr phys : ℕ} {m : Memory} {xs : List ℕ}

/-- The pages `k` to `n - 1` of a gigabyte, as a range of addresses that passes the
assertions of `MapPages`. -/
theorem mapPages_eq (hg : Gigabyte base a) (hk : k < n) (hn : n ≤ totalTableEntries)
    (hphys : phys % 2097152 = 0) (hbound : phys + (n - k) * 2097152 < 2 ^ 48) :
  mapPages image map (base + k * pageSize) (base + n * pageSize) phys attr m
    = mapPagesLoop image map attr (base + n * pageSize) (2 ^ 43) (base + k * pageSize) phys m
  := by
  have hn' : n ≤ 512 := hn
  have haligned := hg.aligned
  have hend := hg.bound
  have hdown : pageAlignDown (base + k * pageSize) = base + k * pageSize := by
    rw [pageAlignDown_eq, pageSize_eq]
    omega
  have hup : pageAlignUp (base + n * pageSize) = base + n * pageSize := by
    rw [pageAlignUp_eq]
    rw [pageSize_eq] at *
    omega
  have hlt : base + k * pageSize < base + n * pageSize := by
    rw [pageSize_eq]
    omega
  have hphys' : addrIsAligned phys := by
    unfold addrIsAligned
    rw [pageSize_eq]
    exact hphys
  have hrange : (phys + (base + n * pageSize) + (2 ^ 64 - (base + k * pageSize))) % 2 ^ 64
      ≤ virtualAddressEnd := by
    rw [virtualAddressEnd_eq]
    rw [pageSize_eq] at *
    omega
  unfold mapPages
  rw [hdown, hup]
  dsimp only
  rw [assert_of hlt, assert_of hphys', assert_of hrange]
  rfl

/-- Without free pages no page is mapped. -/
theorem mapPages_nil (hg : Gigabyte base a) (hk : k < n) (hn : n ≤ totalTableEntries)
    (hphys : phys % 2097152 = 0) (hbound : phys + (n - k) * 2097152 < 2 ^ 48)
    (hnone : link (m.entry map a) = none) (hfree : Free image m []) :
  mapPages image map (base + k * pageSize) (base + n * pageSize) phys attr m = some (false, m)
  := by
  rw [mapPages_eq hg hk hn hphys hbound]
  apply mapPagesLoop_zero (Nat.two_pow_pos 43)
  apply findDirectory_nil hg (Nat.lt_of_lt_of_le hk hn) hnone hfree

/-- With one free page no page is mapped, and the page becomes a pointer table. -/
theorem mapPages_one (hg : Gigabyte base a) (hk : k < n) (hn : n ≤ totalTableEntries)
    (hphys : phys % 2097152 = 0) (hbound : phys + (n - k) * 2097152 < 2 ^ 48)
    (hnone : link (m.entry map a) = none) (hfree : Free image m [d]) (hmap : addrIsAligned map)
    (hmem : map ∉ [d]) (ha : IsAttribute attr) :
  ∃ m', mapPages image map (base + k * pageSize) (base + n * pageSize) phys attr m
      = some (false, m')
    ∧ Free image m' [] ∧ Changes [map, d] m m' ∧ Table m' d (fun _ => 0)
    ∧ Table m' map (Function.update (m.entry map) a (virToPhy d ||| attr))
  := by
  obtain ⟨m', hrun, hrest⟩ := findDirectory_one hg (Nat.lt_of_lt_of_le hk hn) hnone hfree hmap
    hmem ha
  refine ⟨m', ?_, hrest⟩
  rw [mapPages_eq hg hk hn hphys hbound]
  apply mapPagesLoop_zero (Nat.two_pow_pos 43) hrun

/-- With two free pages the pages are mapped, through a new pointer table and a new
directory. -/
theorem mapPages_cons (hg : Gigabyte base a) (hk : k < n) (hn : n ≤ totalTableEntries)
    (hphys : phys % 2097152 = 0) (hbound : phys + (n - k) * 2097152 < 2 ^ 48)
    (hnone : link (m.entry map a) = none) (hfree : Free image m (d :: e :: xs))
    (hmap : addrIsAligned map) (hmem : map ∉ d :: e :: xs) (ha : IsAttribute attr) :
  ∃ m', mapPages image map (base + k * pageSize) (base + n * pageSize) phys attr m
      = some (true, m')
    ∧ Free image m' xs ∧ Changes [map, d, e] m m'
    ∧ Table m' e (mappedEntries k n phys attr (fun _ => 0))
    ∧ Table m' d (Function.update (fun _ => 0) 0 (virToPhy e ||| attr))
    ∧ Table m' map (Function.update (m.entry map) a (virToPhy d ||| attr))
  := by
  have hk' : k < totalTableEntries := Nat.lt_of_lt_of_le hk hn
  have hd := hfree.isPage d (by simp)
  have he := hfree.isPage e (by simp)
  obtain ⟨hdmem, hnodup⟩ := List.nodup_cons.mp hfree.nodup
  have hemem := (List.nodup_cons.mp hnodup).1
  simp only [List.mem_cons, not_or] at hmem hdmem
  obtain ⟨m₁, hrun₁, hfree₁, hchange₁, hpd₁, hpdpt₁, hmap₁⟩ := findDirectory_cons hg hk' hnone
    hfree hmap (by simpa using hmem) ha
  have hlink : link (m₁.entry map a) = some d := by
    rw [hmap₁ a hg.lt, Function.update_self, link_entry hd ha]
  have hlink' : link (m₁.entry d 0) = some e := by
    rw [hpdpt₁ 0 (by decide), Function.update_self, link_entry he ha]
  have hfuel : n - k ≤ 2 ^ 43 :=
    Nat.le_trans (Nat.sub_le n k) (Nat.le_trans hn (by decide))
  obtain ⟨m', hrun, hhead, hchange, hpd⟩ := mapPagesLoop_within hg hn ha hmap hd he
    hmem.2.1 hdmem.1 hfuel hk hlink hlink'
    (by
      intro j _ hjn
      rw [hpd₁ j (Nat.lt_of_lt_of_le hjn hn)]
      exact not_present_zero)
    hphys hbound
  have hpages : ∀ q ∈ [e], addrIsAligned q := by
    simp [he.aligned]
  refine ⟨m', ?_, ?_, ?_, ?_, ?_, ?_⟩
  · rw [mapPages_eq hg hk hn hphys hbound, mapPagesLoop_find hrun₁]
    · exact hrun
    · exact findDirectory_present hg hk' hlink hlink' hd.ne_zero true
  · apply hfree₁.changes hchange hhead hpages
    simpa using hemem
  · exact hchange₁.trans (hchange.mono (by simp))
  · intro j hj
    rw [hpd j hj, mappedEntries_congr hpd₁ hj]
  · apply hpdpt₁.changes hchange hpages hd.aligned
    simpa using hdmem.1
  · apply hmap₁.changes hchange hpages hmap
    simpa using hmem.2.1

end MapPages

end LarvaOS
