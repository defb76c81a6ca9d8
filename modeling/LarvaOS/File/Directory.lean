import LarvaOS.File.FileSystem
import Mathlib.Data.List.Find

/-!
# The root directory

The root directory is a region of the disk.  `rootEntries` are its entries in use, in the
order of the directory, and what `FindFileInRootDir` and `Lstat` read depends on the disk
alone: the entries of a sector are those of the disk, whatever the temporary page held
before.
-/

namespace LarvaOS

variable {image : Image}

namespace FileSystem

variable (files : FileSystem)

/-- A byte of a sector of the root directory, as the kernel sees it after it cleared the
temporary page and read the sector. -/
def rootByte (i o : ℕ) : UInt8 :=
  if o < sectorSize then
    files.disk ((files.bpb.getRootDirectoryStartSector + i) % 2 ^ 28 * sectorSize + o)
  else 0

/-- An entry of a sector of the root directory. -/
def rootEntry (i j : ℕ) : DirEntry := DirEntry.load (files.rootByte i) (sizeofDirEntry * j)

/-- The entries in use in a sector of the root directory. -/
def sectorEntries (i : ℕ) : List (ℕ × ℕ) :=
  ((List.range files.entriesPerSector).filter (fun j => (files.rootEntry i j).inUse)).map
    (fun j => (i, j))

/-- The entries in use of the root directory: the sector and the index in the sector. -/
def rootEntries : List (ℕ × ℕ) := files.rootSectors.flatMap files.sectorEntries

/-- The entry has the name, apart from the case of letters. -/
def named (filename : List UInt8) (e : ℕ × ℕ) : Bool :=
  strcasecmp filename (getRelativeFileName (files.rootEntry e.1 e.2)) = 0

/-- The index and the contents of an entry. -/
def indexed (e : ℕ × ℕ) : ℕ × DirEntry :=
  (e.1 * files.entriesPerSector + e.2, files.rootEntry e.1 e.2)

/-- The first entry in use with the name. -/
def lookup (filename : List UInt8) : Option (ℕ × DirEntry) :=
  (files.rootEntries.find? (files.named filename)).map files.indexed

end FileSystem

/-! ### Reading a sector -/

theorem sectorSize_eq :
  sectorSize = 512
  := rfl

theorem sizeofDirEntry_eq :
  sizeofDirEntry = 32
  := rfl

/-- An entry depends on its bytes. -/
theorem DirEntry.load_congr {b b' : Bytes} {a a' : ℕ}
    (h : ∀ i, i < sizeofDirEntry → b' (a' + i) = b (a + i)) :
  DirEntry.load b' a' = DirEntry.load b a
  := by
  have hread : ∀ o n, o + n ≤ sizeofDirEntry → Bytes.read n b' (a' + o) = Bytes.read n b (a + o) :=
    fun o n ho => Bytes.read_inside h ho
  have hsize := sizeofDirEntry_eq
  unfold DirEntry.load
  rw [hread 26 2 (by omega), hread 28 4 (by omega), h 11 (by omega)]
  congr 1
  · apply List.map_congr_left
    intro i hi
    exact h i (by have := List.mem_range.mp hi; omega)
  · apply List.map_congr_left
    intro i hi
    rw [Nat.add_assoc, Nat.add_assoc]
    exact h (8 + i) (by have := List.mem_range.mp hi; omega)

namespace FileSystem

variable {files : FileSystem} {sectorData i j : ℕ} {m : Memory}

/-- The bytes of a sector that was read. -/
theorem readRootSector_byte {o : ℕ} (ho : o < files.bpb.bytesPerSector) :
  (files.readRootSector sectorData i m).bytes (sectorData + o) = files.rootByte i o
  := by
  have hsize := sectorSize_eq
  unfold readRootSector diskReadSectors rootByte
  dsimp only
  by_cases hlt : o < sectorSize
  · rw [if_pos ⟨by omega, by omega⟩, if_pos hlt, Nat.add_sub_cancel_left]
  · rw [if_neg (by omega), if_neg hlt, memset_of_inside (by omega) (by omega)]

/-- Entries lie inside the sector. -/
theorem entry_le {o : ℕ} (hj : j < files.entriesPerSector) (ho : o < sizeofDirEntry) :
  sizeofDirEntry * j + o < files.bpb.bytesPerSector
  := by
  unfold entriesPerSector at hj
  rw [sizeofDirEntry_eq] at hj ho ⊢
  omega

/-- The entries of a sector that was read. -/
theorem readRootSector_entry (hj : j < files.entriesPerSector) :
  DirEntry.load (files.readRootSector sectorData i m).bytes (sectorData + sizeofDirEntry * j)
    = files.rootEntry i j
  := by
  apply DirEntry.load_congr
  intro o ho
  rw [Nat.add_assoc]
  exact readRootSector_byte (entry_le hj ho)

/-- Reading a sector changes the temporary page only. -/
theorem changes_readRootSector (hsector : files.bpb.bytesPerSector ≤ pageSize) (m : Memory) :
  Changes [sectorData] m (files.readRootSector sectorData i m)
  := by
  have hsize := sectorSize_eq
  apply Changes.of_page
  intro x hx
  unfold InPage at hx
  rw [pageSize_eq] at hx hsector
  dsimp only
  rw [if_neg (by omega), memset_of_outside (by omega)]

/-! ### FindFileInRootDir -/

/-- The scan of one sector. -/
theorem find_sector (filename : List UInt8) :
  (List.range files.entriesPerSector).find? (fun j =>
      (DirEntry.load (files.readRootSector sectorData i m).bytes
        (sectorData + sizeofDirEntry * j)).inUse
      && strcasecmp filename (getRelativeFileName
        (DirEntry.load (files.readRootSector sectorData i m).bytes
          (sectorData + sizeofDirEntry * j))) = 0)
    = ((files.sectorEntries i).find? (files.named filename)).map Prod.snd
  := by
  have hid : Prod.snd ∘ (fun j : ℕ => (i, j)) = id := rfl
  rw [sectorEntries, List.find?_map, List.find?_filter, Option.map_map, hid, Option.map_id, id]
  apply List.find?_congr
  intro j hj
  rw [readRootSector_entry (List.mem_range.mp hj)]
  simp [named]

/-- An entry found in a sector is one of its entries. -/
theorem sector_of_mem {e : ℕ × ℕ} (he : e ∈ files.sectorEntries i) :
  e.1 = i
  := by
  obtain ⟨j, _, rfl⟩ := List.mem_map.mp he
  rfl

theorem mem_sectorEntries {e : ℕ × ℕ} (he : e ∈ files.sectorEntries i) :
  e.2 < files.entriesPerSector
  := by
  obtain ⟨j, hj, rfl⟩ := List.mem_map.mp he
  exact List.mem_range.mp (List.mem_filter.mp hj).1

/-- The scan of the sectors finds the first entry in use with the name. -/
theorem findInSectors_spec (hsector : files.bpb.bytesPerSector ≤ pageSize)
    (filename : List UInt8) (sectorData : ℕ) (sectors : List ℕ) (m : Memory) :
  ∃ m', files.findInSectors filename sectorData sectors m
      = (((sectors.flatMap files.sectorEntries).find? (files.named filename)).map files.indexed, m')
    ∧ Changes [sectorData] m m' ∧ m'.freePageHead = m.freePageHead
  := by
  induction sectors generalizing m with
  | nil => exact ⟨m, rfl, Changes.refl _ _, rfl⟩
  | cons i sectors ih =>
      have hchange : Changes [sectorData] m (files.readRootSector sectorData i m) :=
        changes_readRootSector hsector m
      unfold findInSectors
      dsimp only
      rw [find_sector, List.flatMap_cons, List.find?_append]
      cases hfind : (files.sectorEntries i).find? (files.named filename) with
      | none =>
          obtain ⟨m', hrun, hchange', hhead⟩ := ih (files.readRootSector sectorData i m)
          exact ⟨m', hrun, hchange.trans hchange', hhead⟩
      | some e =>
          have hmem := List.mem_of_find?_eq_some hfind
          refine ⟨files.readRootSector sectorData i m, ?_, hchange, rfl⟩
          dsimp only [Option.map_some, Option.or_some]
          rw [readRootSector_entry (mem_sectorEntries hmem), ← sector_of_mem hmem]
          rfl

/-- `FindFileInRootDir` with a free page finds the file and restores the free list. -/
theorem findFileInRootDir_spec {a : ℕ} {xs : List ℕ} (hsector : files.bpb.bytesPerSector ≤ pageSize)
    (hfree : Free image m (a :: xs)) (filename : List UInt8) :
  ∃ m', files.findFileInRootDir image filename m = some (files.lookup filename, m')
    ∧ Free image m' (a :: xs) ∧ Changes [a] m m'
  := by
  have ha := hfree.isPage a List.mem_cons_self
  obtain ⟨hmem, _⟩ := List.nodup_cons.mp hfree.nodup
  have haligned : ∀ q ∈ [a], addrIsAligned q := by
    intro q hq
    rw [List.mem_singleton.mp hq]
    exact ha.aligned
  obtain ⟨m₁, hrun₁, hfree₁, _, hchange₁⟩ := hfree.kalloc_cons
  obtain ⟨m₂, hrun₂, hchange₂, hhead⟩ :=
    findInSectors_spec hsector filename a files.rootSectors m₁
  have hfree₂ : Free image m₂ xs := by
    apply hfree₁.changes hchange₂ hhead haligned
    intro q hq
    rwa [List.mem_singleton.mp hq]
  obtain ⟨m₃, hrun₃, hfree₃, hchange₃⟩ := hfree₂.kfree ha hmem
  refine ⟨m₃, ?_, hfree₃, ?_⟩
  · unfold findFileInRootDir
    simp only [Option.bind_eq_bind]
    rw [hrun₁, Option.bind_some]
    dsimp only
    rw [assert_of ha.ne_zero, Option.bind_some, hrun₂]
    dsimp only
    rw [hrun₃, Option.bind_some]
    rfl
  · exact ((hchange₁.mono (List.nil_subset _)).trans hchange₂).trans hchange₃

/-! ### Lstat -/

/-- The bytes from the address `a` on are the entries `es`, one after the other. -/
def Records (files : FileSystem) (b : Bytes) : ℕ → List (ℕ × ℕ) → Prop
  | _, [] => True
  | a, e :: es =>
      (∀ o, o < sizeofDirEntry → b (a + o) = files.rootByte e.1 (sizeofDirEntry * e.2 + o))
        ∧ Records files b (a + sizeofDirEntry) es

theorem Records.congr {b b' : Bytes} {a : ℕ} {es : List (ℕ × ℕ)} (h : Records files b a es)
    (hb : ∀ x, a ≤ x → x < a + sizeofDirEntry * es.length → b' x = b x) :
  Records files b' a es
  := by
  induction es generalizing a with
  | nil => trivial
  | cons e es ih =>
      rw [List.length_cons, Nat.mul_add_one] at hb
      refine ⟨?_, ih h.2 ?_⟩
      · intro o ho
        rw [← h.1 o ho]
        apply hb
        · omega
        · omega
      · intro x hlo hhi
        apply hb
        · omega
        · omega

theorem Records.append {b : Bytes} {a : ℕ} {es es' : List (ℕ × ℕ)} (h : Records files b a es)
    (h' : Records files b (a + sizeofDirEntry * es.length) es') :
  Records files b a (es ++ es')
  := by
  induction es generalizing a with
  | nil => exact h'
  | cons e es ih =>
      refine ⟨h.1, ih h.2 ?_⟩
      rw [List.length_cons, Nat.mul_add_one] at h'
      rwa [Nat.add_assoc, Nat.add_comm sizeofDirEntry]

/-- What has been written to the buffer at `buf` from `m` to `m'`: the entries `es`. -/
structure Written (files : FileSystem) (m m' : Memory) (buf : ℕ) (es : List (ℕ × ℕ)) : Prop where
  records : Records files m'.bytes buf es
  outside : ∀ x, x < buf ∨ buf + sizeofDirEntry * es.length ≤ x → m'.bytes x = m.bytes x
  head : m'.freePageHead = m.freePageHead
  freeMemoryEndAddress : m'.freeMemoryEndAddress = m.freeMemoryEndAddress
  totalMem : m'.totalMem = m.totalMem

theorem Written.nil (m : Memory) (buf : ℕ) :
  Written files m m buf []
  := ⟨trivial, fun _ _ => rfl, rfl, rfl, rfl⟩

theorem Written.append {m m' m'' : Memory} {buf : ℕ} {es es' : List (ℕ × ℕ)}
    (h : Written files m m' buf es)
    (h' : Written files m' m'' (buf + sizeofDirEntry * es.length) es') :
  Written files m m'' buf (es ++ es')
  where
  records := by
    apply Records.append _ h'.records
    apply h.records.congr
    intro x _ hhi
    exact h'.outside x (Or.inl hhi)
  outside x hx := by
    rw [List.length_append, Nat.mul_add] at hx
    rw [h'.outside x (by omega), h.outside x (by omega)]
  head := h'.head.trans h.head
  freeMemoryEndAddress := h'.freeMemoryEndAddress.trans h.freeMemoryEndAddress
  totalMem := h'.totalMem.trans h.totalMem

/-- Entries inside a page change this page only. -/
theorem Written.changes {m m' : Memory} {buf p : ℕ} {es : List (ℕ × ℕ)}
    (h : Written files m m' buf es) (hlo : p ≤ buf)
    (hhi : buf + sizeofDirEntry * es.length ≤ p + pageSize) :
  Changes [p] m m'
  where
  bytes x hx := by
    apply h.outside
    by_contra hin
    apply hx
    refine ⟨p, List.mem_singleton_self p, ?_, ?_⟩
    · omega
    · omega
  freeMemoryEndAddress := h.freeMemoryEndAddress
  totalMem := h.totalMem

section Copy

variable {n statbuf : ℕ} {S : Space}

/-- The address in the user page of an address in the buffer. -/
def userAddress (S : Space) (v : ℕ) : ℕ := S.page + (v - userVirtualAddressBase)

/-- Copying one entry from the temporary page to the user page. -/
theorem copyEntry_spec (h : UserSpace m n S) (hn : n ≤ totalTableEntries)
    (hpages : ∀ p ∈ S.pages, IsPage image p) (hnodup : S.pages.Nodup)
    (hdata : IsPage image sectorData) (hne : sectorData ≠ S.page)
    (hsector : files.bpb.bytesPerSector ≤ pageSize)
    (hbytes : ∀ o, o < files.bpb.bytesPerSector → m.bytes (sectorData + o) = files.rootByte i o)
    (hj : j < files.entriesPerSector) (hlo : userVirtualAddressBase ≤ statbuf)
    (hhi : statbuf + sizeofDirEntry ≤ userVirtualAddressBase + pageSize) :
  ∃ m', memcpyVirtual (virToPhy S.map) sizeofDirEntry statbuf (sectorData + sizeofDirEntry * j) m
      = some m' ∧ Written files m m' (userAddress S statbuf) [(i, j)]
  := by
  have hsplit := disjoint_of_aligned hdata.aligned (hpages S.page List.mem_cons_self).aligned hne
  have hend : ∀ o, o < sizeofDirEntry → sizeofDirEntry * j + o < files.bpb.bytesPerSector :=
    fun o ho => entry_le hj ho
  have hsize := sizeofDirEntry_eq
  have hlast := hend 31 (by omega)
  refine ⟨_, h.memcpyVirtual hn hpages hnodup hlo hhi, ⟨?_, trivial⟩, ?_, rfl, rfl, rfl⟩
  · intro o ho
    rw [← hbytes _ (hend o ho), ← Nat.add_assoc]
    apply memcpy_of_inside _ ho
    omega
  · intro x hx
    apply memcpy_of_outside
    rwa [List.length_singleton, Nat.mul_one] at hx

/-- The entries in use among the entries `js` of a sector. -/
def usedEntries (files : FileSystem) (i : ℕ) (js : List ℕ) : List (ℕ × ℕ) :=
  (js.filter (fun j => (files.rootEntry i j).inUse)).map (fun j => (i, j))

/-- The loop of `Lstat` over the entries of a sector. -/
theorem copyEntries_spec {js : List ℕ} {total : ℕ} (h : UserSpace m n S)
    (hn : n ≤ totalTableEntries) (hpages : ∀ p ∈ S.pages, IsPage image p) (hnodup : S.pages.Nodup)
    (hdata : IsPage image sectorData) (hne : sectorData ≠ S.page)
    (hsector : files.bpb.bytesPerSector ≤ pageSize)
    (hbytes : ∀ o, o < files.bpb.bytesPerSector → m.bytes (sectorData + o) = files.rootByte i o)
    (hjs : ∀ j ∈ js, j < files.entriesPerSector) (hlo : userVirtualAddressBase ≤ statbuf)
    (hhi : statbuf + sizeofDirEntry * (total + (files.usedEntries i js).length)
      ≤ userVirtualAddressBase + pageSize) :
  ∃ m', copyEntries (virToPhy S.map) statbuf sectorData js total m
      = some (total + (files.usedEntries i js).length, m')
    ∧ Written files m m' (userAddress S (statbuf + sizeofDirEntry * total))
      (files.usedEntries i js)
  := by
  induction js generalizing m total with
  | nil => exact ⟨m, rfl, Written.nil _ _⟩
  | cons j js ih =>
      have hj := hjs j List.mem_cons_self
      have hentry : DirEntry.load m.bytes (sectorData + sizeofDirEntry * j)
          = files.rootEntry i j := by
        apply DirEntry.load_congr
        intro o ho
        rw [Nat.add_assoc]
        exact hbytes _ (entry_le hj ho)
      unfold copyEntries
      rw [hentry]
      cases huse : (files.rootEntry i j).inUse with
      | false =>
          have hused : files.usedEntries i (j :: js) = files.usedEntries i js := by
            simp [usedEntries, huse]
          rw [hused] at hhi ⊢
          exact ih h hbytes (fun j' hj' => hjs j' (List.mem_cons_of_mem j hj')) hhi
      | true =>
          have hused : files.usedEntries i (j :: js) = (i, j) :: files.usedEntries i js := by
            simp [usedEntries, huse]
          rw [hused, List.length_cons] at hhi ⊢
          have hpage := hpages S.page List.mem_cons_self
          rw [Nat.mul_add, Nat.mul_add_one] at hhi
          obtain ⟨m₁, hcopy, hwritten⟩ := copyEntry_spec h hn hpages hnodup hdata hne hsector
            hbytes hj (Nat.le_add_right_of_le hlo (k := sizeofDirEntry * total)) (by omega)
          have hchange : Changes [S.page] m m₁ := by
            apply hwritten.changes
            · exact Nat.le_add_right _ _
            · unfold userAddress
              rw [List.length_singleton]
              omega
          have haligned : ∀ q ∈ [S.page], addrIsAligned q := by
            intro q hq
            rw [List.mem_singleton.mp hq]
            exact hpage.aligned
          have hbytes' : ∀ o, o < files.bpb.bytesPerSector →
              m₁.bytes (sectorData + o) = files.rootByte i o := by
            intro o ho
            rw [← hbytes o ho]
            apply hchange.byte haligned hdata.aligned
            · simpa using hne
            · exact ⟨by omega, by omega⟩
          have hhi' : statbuf + sizeofDirEntry * (total + 1 + (files.usedEntries i js).length)
              ≤ userVirtualAddressBase + pageSize := by
            rw [Nat.mul_add, Nat.mul_add_one]
            omega
          obtain ⟨m₂, hrun, hwritten'⟩ := ih (h.changes_page hpages hnodup hchange) hbytes'
            (fun j' hj' => hjs j' (List.mem_cons_of_mem j hj')) hhi'
          refine ⟨m₂, ?_, ?_⟩
          · simp only [Option.bind_eq_bind, if_true]
            rw [hcopy, Option.bind_some, hrun, Nat.add_assoc, Nat.add_comm 1]
          · have haddr : userAddress S (statbuf + sizeofDirEntry * (total + 1))
                = userAddress S (statbuf + sizeofDirEntry * total)
                  + sizeofDirEntry * [(i, j)].length := by
              unfold userAddress
              rw [List.length_singleton, Nat.mul_add_one]
              omega
            rw [haddr] at hwritten'
            exact hwritten.append hwritten'

/-- The loop of `Lstat` over the sectors. -/
theorem copySectors_spec {sectors : List ℕ} {total : ℕ} (h : UserSpace m n S)
    (hn : n ≤ totalTableEntries) (hpages : ∀ p ∈ S.pages, IsPage image p) (hnodup : S.pages.Nodup)
    (hdata : IsPage image sectorData) (hne : sectorData ∉ S.pages)
    (hsector : files.bpb.bytesPerSector ≤ pageSize) (hlo : userVirtualAddressBase ≤ statbuf)
    (hhi : statbuf + sizeofDirEntry * (total + (sectors.flatMap files.sectorEntries).length)
      ≤ userVirtualAddressBase + pageSize) :
  ∃ m', copySectors files (virToPhy S.map) statbuf sectorData sectors total m
      = some (total + (sectors.flatMap files.sectorEntries).length, m')
    ∧ Changes [sectorData, S.page] m m' ∧ m'.freePageHead = m.freePageHead
    ∧ Records files m'.bytes (userAddress S (statbuf + sizeofDirEntry * total))
      (sectors.flatMap files.sectorEntries)
    ∧ ∀ x, InPage S.page x → x < userAddress S (statbuf + sizeofDirEntry * total)
      ∨ userAddress S (statbuf + sizeofDirEntry * total)
        + sizeofDirEntry * (sectors.flatMap files.sectorEntries).length ≤ x →
      m'.bytes x = m.bytes x
  := by
  induction sectors generalizing m total with
  | nil => exact ⟨m, rfl, Changes.refl _ _, rfl, trivial, fun _ _ _ => rfl⟩
  | cons i sectors ih =>
      have hpage := hpages S.page List.mem_cons_self
      have hne' : sectorData ≠ S.page := fun e => hne (e ▸ List.mem_cons_self)
      have hread : Changes [sectorData] m (files.readRootSector sectorData i m) :=
        changes_readRootSector hsector m
      have hspace : UserSpace (files.readRootSector sectorData i m) n S := by
        apply h.changes hread
        · intro q hq
          rw [List.mem_singleton.mp hq]
          exact hdata.aligned
        · exact fun q hq => (hpages q (List.mem_cons_of_mem _ hq)).aligned
        · intro q hq hmem
          rw [List.mem_singleton.mp hmem] at hq
          exact hne (List.mem_cons_of_mem _ hq)
      have hused : files.sectorEntries i = files.usedEntries i (List.range files.entriesPerSector) :=
        rfl
      rw [List.flatMap_cons, List.length_append, ← Nat.add_assoc, hused] at hhi
      rw [List.flatMap_cons, List.length_append, ← Nat.add_assoc, hused]
      have hhi' : statbuf + sizeofDirEntry
          * (total + (files.usedEntries i (List.range files.entriesPerSector)).length)
          ≤ userVirtualAddressBase + pageSize := by
        rw [Nat.mul_add] at hhi
        omega
      obtain ⟨m₁, hrun, hwritten⟩ := copyEntries_spec hspace hn hpages hnodup hdata hne' hsector
        (fun o ho => readRootSector_byte ho) (fun j hj => List.mem_range.mp hj) hlo
        hhi'
      have hwrite : Changes [S.page] (files.readRootSector sectorData i m) m₁ := by
        apply hwritten.changes
        · exact Nat.le_add_right _ _
        · unfold userAddress
          rw [Nat.mul_add] at hhi'
          omega
      obtain ⟨m₂, hrun', hchange, hhead, hrecords, hbefore⟩ :=
        ih (hspace.changes_page hpages hnodup hwrite) hhi
      have haddr : userAddress S (statbuf + sizeofDirEntry
            * (total + (files.usedEntries i (List.range files.entriesPerSector)).length))
          = userAddress S (statbuf + sizeofDirEntry * total)
            + sizeofDirEntry * (files.usedEntries i (List.range files.entriesPerSector)).length := by
        unfold userAddress
        rw [Nat.mul_add]
        omega
      rw [haddr] at hrecords hbefore
      have hin : ∀ x, userAddress S (statbuf + sizeofDirEntry * total) ≤ x →
          x < userAddress S (statbuf + sizeofDirEntry * total)
            + sizeofDirEntry * (files.usedEntries i (List.range files.entriesPerSector)).length →
          InPage S.page x := by
        intro x hlo' hhi''
        unfold userAddress at hlo' hhi''
        rw [Nat.mul_add] at hhi'
        exact ⟨by omega, by omega⟩
      refine ⟨m₂, ?_, ?_, ?_, ?_, ?_⟩
      · unfold copySectors
        simp only [Option.bind_eq_bind]
        rw [hrun, Option.bind_some, hrun']
      · apply Changes.trans _ hchange
        apply (hread.mono _).trans (hwrite.mono _)
        · simp
        · simp
      · exact hhead.trans hwritten.head
      · apply Records.append _ hrecords
        apply hwritten.records.congr
        intro x hlo' hhi''
        exact hbefore x (hin x hlo' hhi'') (Or.inl hhi'')
      · intro x hx hlt
        rw [Nat.mul_add] at hlt
        rw [hbefore x hx (by omega), hwritten.outside x (by omega)]
        apply hread.byte _ hpage.aligned _ hx
        · intro q hq
          rw [List.mem_singleton.mp hq]
          exact hdata.aligned
        · simpa using hne'.symm

/-- `Lstat` with a free page writes the entries in use and restores the free list. -/
theorem lstat_spec {a : ℕ} {xs : List ℕ} (h : UserSpace m n S) (hn : n ≤ totalTableEntries)
    (hpages : ∀ p ∈ S.pages, IsPage image p) (hnodup : (S.pages ++ a :: xs).Nodup)
    (hfree : Free image m (a :: xs)) (hsector : files.bpb.bytesPerSector ≤ pageSize)
    (hlo : userVirtualAddressBase ≤ statbuf)
    (hhi : statbuf + sizeofDirEntry * files.rootEntries.length
      ≤ userVirtualAddressBase + pageSize) :
  ∃ m', files.lstat image (virToPhy S.map) statbuf m
      = some ((files.rootEntries.length : Int), m')
    ∧ Free image m' (a :: xs) ∧ Changes [a, S.page] m m'
    ∧ Records files m'.bytes (userAddress S statbuf) files.rootEntries
    ∧ ∀ x, InPage S.page x → x < userAddress S statbuf
      ∨ userAddress S statbuf + sizeofDirEntry * files.rootEntries.length ≤ x →
      m'.bytes x = m.bytes x
  := by
  have ha := hfree.isPage a List.mem_cons_self
  have hpage := hpages S.page List.mem_cons_self
  obtain ⟨hmem, _⟩ := List.nodup_cons.mp hfree.nodup
  obtain ⟨hnodup', _, hdisj⟩ := List.nodup_append.mp hnodup
  have haS : a ∉ S.pages := fun hx => hdisj a hx a List.mem_cons_self rfl
  have haligned : ∀ q ∈ [a, S.page], addrIsAligned q := by
    intro q hq
    simp only [List.mem_cons, List.not_mem_nil, or_false] at hq
    rcases hq with rfl | rfl
    · exact ha.aligned
    · exact hpage.aligned
  obtain ⟨m₁, hrun₁, hfree₁, hbytes₁, hchange₁⟩ := hfree.kalloc_cons
  have hspace₁ : UserSpace m₁ n S := by
    apply h.changes hchange₁
    · simp
    · exact fun q hq => (hpages q (List.mem_cons_of_mem _ hq)).aligned
    · simp
  have hhi' : statbuf + sizeofDirEntry * (0 + (files.rootSectors.flatMap
      files.sectorEntries).length) ≤ userVirtualAddressBase + pageSize := by
    rwa [Nat.zero_add]
  obtain ⟨m₂, hrun₂, hchange₂, hhead, hrecords, houtside⟩ :=
    copySectors_spec hspace₁ hn hpages hnodup' ha haS hsector hlo hhi'
  have hfree₂ : Free image m₂ xs := by
    apply hfree₁.changes hchange₂ hhead haligned
    intro q hq
    simp only [List.mem_cons, List.not_mem_nil, or_false] at hq
    rcases hq with rfl | rfl
    · exact hmem
    · exact fun hx => hdisj S.page List.mem_cons_self S.page (List.mem_cons_of_mem a hx) rfl
  obtain ⟨m₃, hrun₃, hfree₃, hchange₃⟩ := hfree₂.kfree ha hmem
  rw [Nat.mul_zero, Nat.add_zero] at hrecords houtside
  rw [Nat.zero_add] at hrun₂
  have hfreed : ∀ x, InPage S.page x → m₃.bytes x = m₂.bytes x := by
    intro x hx
    apply hchange₃.byte
    · intro q hq
      exact haligned q (by simp [List.mem_singleton.mp hq])
    · exact hpage.aligned
    · intro hmem'
      exact haS (List.mem_singleton.mp hmem' ▸ List.mem_cons_self)
    · exact hx
  refine ⟨m₃, ?_, hfree₃, ?_, ?_, ?_⟩
  · unfold lstat
    simp only [Option.bind_eq_bind]
    rw [hrun₁, Option.bind_some]
    dsimp only
    rw [if_neg ha.ne_zero, hrun₂, Option.bind_some]
    dsimp only
    rw [hrun₃, Option.bind_some]
    rfl
  · apply ((hchange₁.mono (List.nil_subset _)).trans hchange₂).trans
    exact hchange₃.mono (by simp)
  · apply hrecords.congr
    intro x hlo' hhi₂
    unfold userAddress at hlo' hhi₂
    rw [rootEntries] at hhi
    exact hfreed x ⟨by omega, by omega⟩
  · intro x hx hx'
    rw [hfreed x hx, houtside x hx hx', hbytes₁]

end Copy

end FileSystem

end LarvaOS
