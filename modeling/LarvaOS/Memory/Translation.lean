import LarvaOS.Memory.Setup

/-!
# Address translation

How the processor translates addresses: from the page map register it follows one entry
in each table, down to a page of 4 KB, or of 2 MB or 1 GB when the entry says so.  An
access is allowed to user programs, or to write, when every entry on the way allows it.
The walk through the address space of a process reaches the pages that `SetupKVM` and
`MapPages` put there, and nothing else.
-/

namespace LarvaOS

/-- The address that an entry holds of a frame of `2 ^ k` bytes. -/
def frame (entry k : ℕ) : ℕ := entry % 2 ^ 52 / 2 ^ k * 2 ^ k

/-- The result of a translation. -/
structure Translation where
  physical : ℕ
  writable : Bool
  user : Bool
  deriving DecidableEq

/-- The walk from the table at the physical address `table`, where a page table has
level zero. A page map has no large pages. -/
def walkTable (m : Memory) (v : ℕ) : (level table : ℕ) → (writable user : Bool) →
    Option Translation
  | 0, table, writable, user =>
      let entry := m.entry (phyToVir table) ((v >>> 12) &&& 0x1FF)
      if Present entry then
        some ⟨frame entry 12 + v % 2 ^ 12, writable && entry.testBit 1, user && entry.testBit 2⟩
      else
        none
  | level + 1, table, writable, user =>
      let shift := 21 + 9 * level
      let entry := m.entry (phyToVir table) ((v >>> shift) &&& 0x1FF)
      if ¬ Present entry then
        none
      else if entry.testBit 7 then
        if level < 2 then
          some ⟨frame entry shift + v % 2 ^ shift, writable && entry.testBit 1,
            user && entry.testBit 2⟩
        else
          none
      else
        walkTable m v level (frame entry 12) (writable && entry.testBit 1)
          (user && entry.testBit 2)

/-- The upper bits of an address agree with bit 47. -/
def Canonical (v : ℕ) : Prop := v < 2 ^ 47 ∨ 2 ^ 64 - 2 ^ 47 ≤ v ∧ v < 2 ^ 64

instance (v : ℕ) : Decidable (Canonical v) :=
  inferInstanceAs (Decidable (v < 2 ^ 47 ∨ 2 ^ 64 - 2 ^ 47 ≤ v ∧ v < 2 ^ 64))

/-- The translation of an address, given the page map register. -/
def walk (m : Memory) (cr3 v : ℕ) : Option Translation :=
  if Canonical v then walkTable m v 3 (frame cr3 12) true true else none

/-! ### One level -/

section Level

variable {image : Image} {m : Memory} {v level table p attr : ℕ} {w u : Bool}

/-- Low bits of an aligned address with attributes are bits of the attributes. -/
theorem testBit_or_attribute {x a k : ℕ} (hx : x % 2097152 = 0) (hk : k < 21) :
  (x ||| a).testBit k = a.testBit k
  := by
  have hzero : x.testBit k = false := by
    have hdvd : 2 ^ 21 ∣ x := Nat.dvd_of_mod_eq_zero hx
    obtain ⟨y, rfl⟩ := hdvd
    rw [Nat.testBit_two_pow_mul]
    simp only [Bool.and_eq_false_iff, decide_eq_false_iff_not, not_le]
    apply Or.inl hk
  rw [Nat.testBit_or, hzero, Bool.false_or]

/-- The walk ends at an empty entry. -/
theorem walkTable_zero (h : m.entry (phyToVir table) ((v >>> (21 + 9 * level)) &&& 0x1FF) = 0) :
  walkTable m v (level + 1) table w u = none
  := by
  rw [walkTable, h, if_pos not_present_zero]

/-- The walk follows an entry that points to a table. -/
theorem walkTable_link (hp : IsPage image p) (ha : IsAttribute attr)
    (hsize : attr.testBit 7 = false)
    (h : m.entry (phyToVir table) ((v >>> (21 + 9 * level)) &&& 0x1FF) = virToPhy p ||| attr) :
  walkTable m v (level + 1) table w u
    = walkTable m v level (virToPhy p) (w && attr.testBit 1) (u && attr.testBit 2)
  := by
  obtain ⟨haligned, hlt, _⟩ := hp.virToPhy
  obtain ⟨hodd, hsmall⟩ := ha
  have hor : virToPhy p ||| attr = virToPhy p + attr := or_attribute haligned (by omega)
  have hpresent : Present (virToPhy p ||| attr) := by
    rw [present_iff, hor]
    omega
  have hframe : frame (virToPhy p ||| attr) 12 = virToPhy p := by
    rw [frame, hor]
    omega
  rw [walkTable, h, if_neg (not_not.mpr hpresent), testBit_or_attribute haligned (by decide), hsize,
    if_neg Bool.false_ne_true, hframe, testBit_or_attribute haligned (by decide),
    testBit_or_attribute haligned (by decide)]

/-- The walk ends at an entry of a directory that points to a page of 2 MB. -/
theorem walkTable_leaf {phys : ℕ} (hphys : phys % 2097152 = 0) (hlt : phys < 2 ^ 48)
    (ha : IsAttribute attr)
    (h : m.entry (phyToVir table) ((v >>> 21) &&& 0x1FF)
      = phys ||| attr ||| tableEntryEntryAttribute) :
  walkTable m v 1 table w u
    = some ⟨phys + v % 2 ^ 21, w && attr.testBit 1, u && attr.testBit 2⟩
  := by
  obtain ⟨hodd, hsmall⟩ := ha
  have hor : phys ||| attr ||| tableEntryEntryAttribute
      = phys + (attr ||| tableEntryEntryAttribute) := by
    rw [Nat.or_assoc]
    apply or_attribute hphys
    have hlt : attr ||| tableEntryEntryAttribute < 2 ^ 12 := Nat.or_lt_two_pow hsmall (by decide)
    omega
  have hattr : attr ||| tableEntryEntryAttribute < 2 ^ 12 := Nat.or_lt_two_pow hsmall (by decide)
  have hpresent : Present (phys ||| attr ||| tableEntryEntryAttribute) := by
    have hpos : attr % 2 = 1 → (attr ||| tableEntryEntryAttribute) % 2 = 1 := by
      intro h
      have hbit := Nat.testBit_or attr tableEntryEntryAttribute 0
      simp only [Nat.testBit_zero, h] at hbit
      simpa using hbit
    have hattr' := hpos hodd
    rw [present_iff, hor]
    omega
  have hbits : ∀ k < 21, k ≠ 7 →
      (phys ||| attr ||| tableEntryEntryAttribute).testBit k = attr.testBit k := by
    intro k hk hne
    have hentry : tableEntryEntryAttribute = 2 ^ 7 := rfl
    rw [Nat.or_assoc, testBit_or_attribute hphys hk, Nat.testBit_or, hentry,
      Nat.testBit_two_pow_of_ne (Ne.symm hne), Bool.or_false]
  have hsize : (phys ||| attr ||| tableEntryEntryAttribute).testBit 7 = true := by
    have hentry : tableEntryEntryAttribute = 2 ^ 7 := rfl
    rw [Nat.testBit_or, hentry, Nat.testBit_two_pow_self, Bool.or_true]
  have hframe : frame (phys ||| attr ||| tableEntryEntryAttribute) 21 = phys := by
    rw [frame, hor]
    omega
  rw [walkTable, Nat.mul_zero, Nat.add_zero, h, if_neg (not_not.mpr hpresent), if_pos hsize,
    if_pos (by decide), hframe, hbits 1 (by decide) (by decide), hbits 2 (by decide) (by decide)]

end Level

/-! ### The walk through an address space -/

theorem testBit_kernelAttributes :
  kernelAttributes.testBit 7 = false ∧ kernelAttributes.testBit 1 = true
    ∧ kernelAttributes.testBit 2 = false
  := by decide

theorem testBit_userAttributes :
  userAttributes.testBit 7 = false ∧ userAttributes.testBit 1 = true
    ∧ userAttributes.testBit 2 = true
  := by decide

/-- The indices of an address in the four tables. -/
theorem index_eq (v k : ℕ) :
  (v >>> k) &&& 0x1FF = v / 2 ^ k % 512
  := by
  rw [and_mask, Nat.shiftRight_eq_div_pow]

section Space

variable {image : Image} {m : Memory} {n v : ℕ}

/-- The walk starts at the page map. -/
theorem walk_map {map : ℕ} (hmap : IsPage image map) (hv : Canonical v) :
  walk m (virToPhy map) v = walkTable m v 3 (virToPhy map) true true
  := by
  obtain ⟨haligned, hlt, _⟩ := hmap.virToPhy
  have hframe : frame (virToPhy map) 12 = virToPhy map := by
    rw [frame]
    omega
  rw [walk, if_pos hv, hframe]

/-- The entry of a table that the walk reads. -/
theorem Table.entry_index {t k : ℕ} {f : ℕ → ℕ} (h : Table m t f) (ht : IsPage image t) :
  m.entry (phyToVir (virToPhy t)) ((v >>> k) &&& 0x1FF) = f (v / 2 ^ k % 512)
  := by
  rw [ht.virToPhy.2.2, index_eq]
  apply h
  exact Nat.mod_lt _ (by decide)

/-- The walk through a pointer table with a single directory. -/
theorem walkTable_pointer {t p attr : ℕ} {w u : Bool} (ht : IsPage image t) (hp : IsPage image p)
    (ha : IsAttribute attr) (hsize : attr.testBit 7 = false)
    (h : Table m t (singleEntry 0 (virToPhy p ||| attr))) :
  walkTable m v 2 (virToPhy t) w u = if v / 2 ^ 30 % 512 = 0 then
    walkTable m v 1 (virToPhy p) (w && attr.testBit 1) (u && attr.testBit 2) else none
  := by
  have hentry := h.entry_index ht (v := v) (k := 21 + 9 * 1)
  split
  case isTrue hzero =>
    apply walkTable_link hp ha hsize
    rw [hentry, hzero, singleEntry, Function.update_self]
  case isFalse hne =>
    apply walkTable_zero
    rw [hentry, singleEntry, Function.update_of_ne hne, noEntries]

/-- The walk through a directory of consecutive pages. -/
theorem walkTable_directory {t k n phys attr : ℕ} {w u : Bool} (ht : IsPage image t)
    (ha : IsAttribute attr) (hphys : phys % 2097152 = 0) (hlt : phys + n * 2097152 < 2 ^ 48)
    (h : Table m t (mappedEntries k n phys attr noEntries)) :
  walkTable m v 1 (virToPhy t) w u
    = if k ≤ v / 2 ^ 21 % 512 ∧ v / 2 ^ 21 % 512 < n then
        some ⟨phys + (v / 2 ^ 21 % 512 - k) * 2097152 + v % 2 ^ 21, w && attr.testBit 1,
          u && attr.testBit 2⟩
      else none
  := by
  have hpage : ∀ i, k ≤ i ∧ i < n → (phys + (i - k) * 2097152) % 2097152 = 0
      ∧ phys + (i - k) * 2097152 < 2 ^ 48 := by
    intro i hi
    constructor
    · omega
    · have hle : (i - k) * 2097152 ≤ n * 2097152 := Nat.mul_le_mul_right _ (by omega)
      exact Nat.lt_of_le_of_lt (Nat.add_le_add_left hle phys) hlt
  have hentry := h.entry_index ht (v := v) (k := 21)
  rw [mappedEntries] at hentry
  split
  case isTrue hin =>
    rw [if_pos hin] at hentry
    exact walkTable_leaf (hpage _ hin).1 (hpage _ hin).2 ha hentry
  case isFalse hout =>
    rw [if_neg hout] at hentry
    exact walkTable_zero hentry

namespace UserSpace

variable {S : Space}

/-- The first step of the walk chooses the kernel gigabyte or the user gigabyte. -/
theorem walkTable_map (h : UserSpace m n S) (hpages : ∀ p ∈ S.pages, IsPage image p) :
  walkTable m v 3 (virToPhy S.map) true true
    = if v / 2 ^ 39 % 512 = 0 then walkTable m v 2 (virToPhy S.userPdpt) true true
      else if v / 2 ^ 39 % 512 = 256 then walkTable m v 2 (virToPhy S.pdpt) true false
      else none
  := by
  have hmap := hpages S.map (by simp [Space.pages, Space.tables])
  have hpdpt := hpages S.pdpt (by simp [Space.pages, Space.tables])
  have huser := hpages S.userPdpt (by simp [Space.pages, Space.tables])
  have hentry := h.mapTable.entry_index hmap (v := v) (k := 21 + 9 * 2)
  rw [mapEntries, kernelMapEntries, singleEntry] at hentry
  split
  case isTrue hzero =>
    obtain ⟨hsize, hwrite, huse⟩ := testBit_userAttributes
    rw [walkTable_link huser userAttributes_isAttribute hsize
      (hentry.trans (by rw [hzero, Function.update_self])), hwrite, huse]
    rfl
  case isFalse hzero =>
    split
    case isTrue hkernel =>
      obtain ⟨hsize, hwrite, huse⟩ := testBit_kernelAttributes
      rw [walkTable_link hpdpt kernelAttributes_isAttribute hsize
        (hentry.trans (by rw [hkernel, Function.update_of_ne (by decide), Function.update_self])),
        hwrite, huse]
      rfl
    case isFalse hkernel =>
      apply walkTable_zero
      rw [hentry, Function.update_of_ne hzero, Function.update_of_ne hkernel, noEntries]

/-- The translation of every address in the address space of a process. -/
theorem walk_eq (h : UserSpace m n S) (hn : n ≤ totalTableEntries)
    (hpages : ∀ p ∈ S.pages, IsPage image p) (hv : v < 2 ^ 64) :
  walk m (virToPhy S.map) v
    = if userVirtualAddressBase ≤ v ∧ v < userVirtualAddressBase + pageSize then
        some ⟨virToPhy S.page + (v - userVirtualAddressBase), true, true⟩
      else if kernelVirtualAddressBase ≤ v ∧ v < kernelVirtualAddressBase + n * pageSize then
        some ⟨v - kernelVirtualAddressBase, true, false⟩
      else none
  := by
  have hn' : n ≤ 512 := hn
  have hmap := hpages S.map (by simp [Space.pages, Space.tables])
  have hpdpt := hpages S.pdpt (by simp [Space.pages, Space.tables])
  have hpd := hpages S.pd (by simp [Space.pages, Space.tables])
  have huserPdpt := hpages S.userPdpt (by simp [Space.pages, Space.tables])
  have huserPd := hpages S.userPd (by simp [Space.pages, Space.tables])
  obtain ⟨haligned, hlt, _⟩ := (hpages S.page (by simp [Space.pages])).virToPhy
  obtain ⟨hsize, hwrite, huse⟩ := testBit_kernelAttributes
  obtain ⟨hsize', hwrite', huse'⟩ := testBit_userAttributes
  rw [userVirtualAddressBase_eq, kernelVirtualAddressBase_eq, pageSize_eq]
  by_cases hc : Canonical v
  · rw [walk_map hmap hc, h.walkTable_map hpages,
      walkTable_pointer huserPdpt huserPd userAttributes_isAttribute hsize' h.userPdptTable,
      walkTable_pointer hpdpt hpd kernelAttributes_isAttribute hsize h.pdptTable,
      walkTable_directory huserPd userAttributes_isAttribute haligned (by omega) h.userPdTable,
      walkTable_directory hpd kernelAttributes_isAttribute (by omega) (by omega) h.pdTable,
      hwrite, huse, hwrite', huse']
    simp only [Bool.and_true, Bool.and_false]
    unfold Canonical at hc
    by_cases huser : 4194304 ≤ v ∧ v < 4194304 + 2097152
    · rw [if_pos (by omega), if_pos (by omega), if_pos (by omega), if_pos huser]
      have hphys : virToPhy S.page + (v / 2 ^ 21 % 512 - 2) * 2097152 + v % 2 ^ 21
          = virToPhy S.page + (v - 4194304) := by omega
      rw [hphys]
    · rw [if_neg huser]
      by_cases hkernel : 18446603336221196288 ≤ v ∧ v < 18446603336221196288 + n * 2097152
      · rw [if_neg (by omega), if_pos (by omega), if_pos (by omega), if_pos (by omega),
          if_pos hkernel]
        have hphys : 0 + (v / 2 ^ 21 % 512 - 0) * 2097152 + v % 2 ^ 21
            = v - 18446603336221196288 := by omega
        rw [hphys]
      · rw [if_neg hkernel]
        by_cases hlow : v / 2 ^ 39 % 512 = 0
        · rw [if_pos hlow]
          by_cases hpointer : v / 2 ^ 30 % 512 = 0
          · rw [if_pos hpointer, if_neg (by omega)]
          · rw [if_neg hpointer]
        · rw [if_neg hlow]
          by_cases hhigh : v / 2 ^ 39 % 512 = 256
          · rw [if_pos hhigh]
            by_cases hpointer : v / 2 ^ 30 % 512 = 0
            · rw [if_pos hpointer, if_neg (by omega)]
            · rw [if_neg hpointer]
          · rw [if_neg hhigh]
  · have hnone : walk m (virToPhy S.map) v = none := if_neg hc
    unfold Canonical at hc
    rw [hnone, if_neg (by omega), if_neg (by omega)]

end UserSpace

/-! ### Accesses -/

namespace Memory

/-- Store a byte at a physical address. -/
def storePhysical (m : Memory) (physical : ℕ) (c : UInt8) : Memory :=
  { m with bytes := Function.update m.bytes (phyToVir physical) c }

/-- A store of the kernel. -/
def store (m : Memory) (cr3 v : ℕ) (c : UInt8) : Option Memory :=
  (walk m cr3 v).map (fun t => m.storePhysical t.physical c)

/-- A store of a user program; the outcome is `none` when it causes an exception. -/
def storeUser (m : Memory) (cr3 v : ℕ) (c : UInt8) : Option Memory :=
  (walk m cr3 v).bind (fun t =>
    if t.user && t.writable then some (m.storePhysical t.physical c) else none)

end Memory

/-- `memset` on memory that the kernel reaches through the page map. -/
def memsetVirtual (cr3 ptr : ℕ) (c : UInt8) : ℕ → Memory → Option Memory
  | 0, m => some m
  | n + 1, m => do
      let m ← memsetVirtual cr3 ptr c n m
      m.store cr3 (ptr + n) c

/-- `memcpy` from the kernel's memory to memory that the kernel reaches through the page
map. -/
def memcpyVirtual (cr3 : ℕ) : ℕ → ℕ → ℕ → Memory → Option Memory
  | 0, _, _, m => some m
  | n + 1, dest, src, m => do
      let m ← m.store cr3 dest (m.bytes src)
      memcpyVirtual cr3 n (dest + 1) (src + 1) m

/-- The addresses of the user page. -/
def InUserPage (v : ℕ) : Prop :=
  userVirtualAddressBase ≤ v ∧ v < userVirtualAddressBase + pageSize

namespace UserSpace

variable {S : Space}

/-- The walk reaches the user page. -/
theorem walk_user (h : UserSpace m n S) (hn : n ≤ totalTableEntries)
    (hpages : ∀ p ∈ S.pages, IsPage image p) (hv : InUserPage v) :
  walk m (virToPhy S.map) v
    = some ⟨virToPhy S.page + (v - userVirtualAddressBase), true, true⟩
  := by
  have hlt : v < 2 ^ 64 := by
    have hhi := hv.2
    rw [userVirtualAddressBase_eq, pageSize_eq] at hhi
    omega
  rw [h.walk_eq hn hpages hlt]
  exact if_pos hv

/-- The user page in the kernel's memory. -/
theorem phyToVir_user (hpages : ∀ p ∈ S.pages, IsPage image p) (hv : InUserPage v) :
  phyToVir (virToPhy S.page + (v - userVirtualAddressBase))
    = S.page + (v - userVirtualAddressBase)
  := by
  have hpage := hpages S.page (by simp [Space.pages])
  have hend := hpage.end_le
  have hkernel := hpage.kernel
  obtain ⟨_, hhi⟩ := hv
  unfold phyToVir virToPhy
  rw [pageSize_eq] at *
  rw [kernelVirtualAddressBase_eq] at *
  omega

/-- A byte of the user page in the kernel's memory. -/
theorem storePhysical_user (hpages : ∀ p ∈ S.pages, IsPage image p) (hv : InUserPage v)
    (c : UInt8) :
  m.storePhysical (virToPhy S.page + (v - userVirtualAddressBase)) c
    = { m with bytes := Function.update m.bytes (S.page + (v - userVirtualAddressBase)) c }
  := by
  rw [Memory.storePhysical, phyToVir_user hpages hv]

/-- Programs store to the user page only. -/
theorem storeUser (h : UserSpace m n S) (hn : n ≤ totalTableEntries)
    (hpages : ∀ p ∈ S.pages, IsPage image p) {m' : Memory} {c : UInt8}
    (hrun : m.storeUser (virToPhy S.map) v c = some m') :
  InUserPage v
    ∧ m' = { m with bytes := Function.update m.bytes (S.page + (v - userVirtualAddressBase)) c }
  := by
  obtain ⟨t, hwalk, hstore⟩ := Option.bind_eq_some_iff.mp hrun
  have hlt : v < 2 ^ 64 := by
    by_contra hge
    have hcanonical : ¬ Canonical v := by
      unfold Canonical
      omega
    rw [walk, if_neg hcanonical] at hwalk
    cases hwalk
  rw [h.walk_eq hn hpages hlt] at hwalk
  split at hwalk
  case isTrue hv =>
    obtain rfl := Option.some.inj hwalk
    refine ⟨hv, ?_⟩
    rw [← storePhysical_user hpages hv]
    exact (Option.some.inj hstore).symm
  case isFalse =>
    split at hwalk
    · obtain rfl := Option.some.inj hwalk
      cases hstore
    · cases hwalk

/-- A store of the kernel to the user page. -/
theorem store (h : UserSpace m n S) (hn : n ≤ totalTableEntries)
    (hpages : ∀ p ∈ S.pages, IsPage image p) (hv : InUserPage v) (c : UInt8) :
  m.store (virToPhy S.map) v c
    = some { m with bytes := Function.update m.bytes (S.page + (v - userVirtualAddressBase)) c }
  := by
  rw [Memory.store, h.walk_user hn hpages hv, Option.map_some, storePhysical_user hpages hv]

/-- A byte stored in the user page changes nothing else. -/
theorem changes_store {m : Memory} {p : ℕ} (hv : InUserPage v) (c : UInt8) :
  Changes [p] m
    { m with bytes := Function.update m.bytes (p + (v - userVirtualAddressBase)) c }
  := by
  apply Changes.of_page
  intro x hx
  apply Function.update_of_ne
  rintro rfl
  apply hx
  obtain ⟨_, hhi⟩ := hv
  constructor
  · omega
  · omega

/-- Changes of the user page keep the tables. -/
theorem changes_page {m' : Memory} (h : UserSpace m n S) (hpages : ∀ p ∈ S.pages, IsPage image p)
    (hnodup : S.pages.Nodup) (hc : Changes [S.page] m m') :
  UserSpace m' n S
  := by
  obtain ⟨hmem, _⟩ := List.nodup_cons.mp hnodup
  apply h.changes hc
  · simpa using (hpages S.page (by simp [Space.pages])).aligned
  · exact fun q hq => (hpages q (List.mem_cons_of_mem _ hq)).aligned
  · intro q hq hqp
    rw [List.mem_singleton.mp hqp] at hq
    exact hmem hq

/-- Copying to the user page. -/
theorem memcpyVirtual {k dest src : ℕ} (h : UserSpace m n S) (hn : n ≤ totalTableEntries)
    (hpages : ∀ p ∈ S.pages, IsPage image p) (hnodup : S.pages.Nodup)
    (hlo : userVirtualAddressBase ≤ dest) (hhi : dest + k ≤ userVirtualAddressBase + pageSize) :
  LarvaOS.memcpyVirtual (virToPhy S.map) k dest src m
    = some (m.copy (S.page + (dest - userVirtualAddressBase)) src k)
  := by
  induction k generalizing m dest src with
  | zero =>
      rw [LarvaOS.memcpyVirtual, Memory.copy, memcpy]
  | succ k ih =>
      have hv : InUserPage dest := ⟨hlo, by omega⟩
      have hchange := changes_store (m := m) (p := S.page) hv (m.bytes src)
      have hnext : S.page + (dest + 1 - userVirtualAddressBase)
          = S.page + (dest - userVirtualAddressBase) + 1 := by omega
      rw [LarvaOS.memcpyVirtual, h.store hn hpages hv, Option.bind_eq_bind, Option.bind_some,
        ih (h.changes_page hpages hnodup hchange) (by omega) (by omega), Memory.copy, Memory.copy,
        memcpy, hnext]

/-- Filling a part of the user page. -/
theorem memsetVirtual_eq {k ptr : ℕ} {c : UInt8} (h : UserSpace m n S)
    (hn : n ≤ totalTableEntries) (hpages : ∀ p ∈ S.pages, IsPage image p) (hnodup : S.pages.Nodup)
    (hlo : userVirtualAddressBase ≤ ptr) (hhi : ptr + k ≤ userVirtualAddressBase + pageSize) :
  LarvaOS.memsetVirtual (virToPhy S.map) ptr c k m
      = some { m with bytes := memset m.bytes (S.page + (ptr - userVirtualAddressBase)) c k }
    ∧ Changes [S.page] m
      { m with bytes := memset m.bytes (S.page + (ptr - userVirtualAddressBase)) c k }
  := by
  induction k with
  | zero =>
      rw [memset]
      exact ⟨rfl, Changes.refl _ _⟩
  | succ k ih =>
      obtain ⟨hrun, hchange⟩ := ih (by omega)
      have hv : InUserPage (ptr + k) := ⟨by omega, by omega⟩
      have hstore := (h.changes_page hpages hnodup hchange).store hn hpages hv c
      have hnext : S.page + (ptr + k - userVirtualAddressBase)
          = S.page + (ptr - userVirtualAddressBase) + k := by omega
      have hchange' := hchange.trans (changes_store hv c)
      rw [hnext] at hstore hchange'
      rw [memset]
      refine ⟨?_, hchange'⟩
      rw [LarvaOS.memsetVirtual, hrun, Option.bind_eq_bind, Option.bind_some, hstore]

/-- Filling a part of the user page changes nothing else. -/
theorem memsetVirtual {k ptr : ℕ} {c : UInt8} (h : UserSpace m n S) (hn : n ≤ totalTableEntries)
    (hpages : ∀ p ∈ S.pages, IsPage image p) (hnodup : S.pages.Nodup)
    (hlo : userVirtualAddressBase ≤ ptr) (hhi : ptr + k ≤ userVirtualAddressBase + pageSize) :
  ∃ m', LarvaOS.memsetVirtual (virToPhy S.map) ptr c k m = some m' ∧ Changes [S.page] m m'
    ∧ m'.freePageHead = m.freePageHead
  := by
  obtain ⟨hrun, hchange⟩ := h.memsetVirtual_eq (c := c) hn hpages hnodup hlo hhi
  exact ⟨_, hrun, hchange, rfl⟩

end UserSpace

end Space

end LarvaOS
