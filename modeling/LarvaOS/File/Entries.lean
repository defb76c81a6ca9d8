import LarvaOS.File.References

/-!
# The entries of the tables in memory

`s_fd_table` and `s_fcb_table` are arrays in two pages.  An `FD` has 16 bytes and begins with the
address of its file control block, and an `FCB` has 28 bytes, with a byte of padding after the
extension.  `storeTables` stores the tables to their pages, and `reloadTables` reads back the
entries whose bytes have been overwritten.
-/

namespace LarvaOS

/-- `sizeof(FD)`. -/
def sizeofFD : ℕ := 16

/-- `sizeof(FCB)`. -/
def sizeofFCB : ℕ := 28

/-- The address of an entry of the FCB table at `table`; no entry is the null pointer. -/
def fcbAddress (table : ℕ) : Option ℕ → ℕ
  | none => 0
  | some c => table + sizeofFCB * c

/-- The entry of the FCB table at `table` with this address. An address that is not null and not
the one of an entry has none. -/
def fcbOfAddress (table a : ℕ) : Option (Option ℕ) :=
  if a = 0 then some none
  else if table ≤ a ∧ (a - table) % sizeofFCB = 0
      ∧ (a - table) / sizeofFCB < getMaxEntriesOfFCBTable then
    some (some ((a - table) / sizeofFCB))
  else none

/-- The bytes of a file descriptor, for the FCB table at `table`. -/
def FD.bytes (table : ℕ) (d : FD) : Bytes :=
  ((Bytes.zero.write 8 0 (fcbAddress table d.fcb)).write 4 8 d.position).write 4 12
    (unsigned 32 d.openCount)

/-- The file descriptor with these bytes. -/
def FD.load (table : ℕ) (b : Bytes) : Option FD :=
  (fcbOfAddress table (b.read 8 0)).map (fun fcb =>
    { fcb := fcb, position := b.read 4 8, openCount := int32 (b.read 4 12) })

/-- The bytes of a file control block. -/
def FCB.bytes (fcb : FCB) : Bytes :=
  (((((Bytes.zero.put 0 8 (fun i => fcb.name.getD i 0)).put 8 3 (fun i => fcb.ext.getD i 0)).write 4
    12 fcb.startCluster).write 4 16 fcb.dirEntry).write 4 20 fcb.fileSize).write 4 24
    (unsigned 32 fcb.openCount)

/-- The file control block with these bytes. -/
def FCB.load (b : Bytes) : FCB where
  name := (List.range 8).map b
  ext := (List.range 3).map (fun i => b (8 + i))
  startCluster := b.read 4 12
  dirEntry := b.read 4 16
  fileSize := b.read 4 20
  openCount := int32 (b.read 4 24)

namespace FileSystem

variable (files : FileSystem)

/-- Store the tables to their pages. -/
def storeTables (b : Bytes) : Bytes :=
  (b.putEntries files.fcbTableAddress sizeofFCB getMaxEntriesOfFCBTable
    (fun c => (files.fcbTable c).bytes)).putEntries files.fdTableAddress sizeofFD
    getMaxEntriesOfFDTable (fun d => (files.fdTable d).bytes files.fcbTableAddress)

/-- The bytes from `a` on. -/
def bytesFrom (b : Bytes) (a : ℕ) : Bytes := fun o => b (a + o)

/-- The file control block `c`, when the bytes `before` have become `after`. -/
def reloadFCB (before after : Bytes) (c : ℕ) : FCB :=
  let a := files.fcbTableAddress + sizeofFCB * c
  if c < getMaxEntriesOfFCBTable ∧ ¬ ∀ o < sizeofFCB, after (a + o) = before (a + o) then
    FCB.load (bytesFrom after a)
  else files.fcbTable c

/-- The file descriptor `d`, when the bytes `before` have become `after`. -/
def reloadFD (before after : Bytes) (d : ℕ) : Option FD :=
  let a := files.fdTableAddress + sizeofFD * d
  if d < getMaxEntriesOfFDTable ∧ ¬ ∀ o < sizeofFD, after (a + o) = before (a + o) then
    FD.load files.fcbTableAddress (bytesFrom after a)
  else some (files.fdTable d)

/-- Read back the entries whose bytes have changed. The model has no file descriptor that points
to something else than a file control block. -/
def reloadTables (before after : Bytes) : Option FileSystem := do
  assert (∀ d < getMaxEntriesOfFDTable, (files.reloadFD before after d).isSome)
  some { files with
    fcbTable := files.reloadFCB before after
    fdTable := fun d => (files.reloadFD before after d).getD (files.fdTable d) }

variable {files} {before after : Bytes}

/-! ### Tables whose bytes are the same -/

theorem sizeofFD_mul :
  sizeofFD * getMaxEntriesOfFDTable = pageSize
  := by
  rw [sizeofFD, getMaxEntriesOfFDTable, pageSize_eq]

theorem sizeofFCB_mul_le :
  sizeofFCB * getMaxEntriesOfFCBTable ≤ pageSize
  := by
  rw [sizeofFCB, getMaxEntriesOfFCBTable, pageSize_eq]
  decide

/-- The tables are stored to their pages. -/
theorem storeTables_of_outside {b : Bytes} {x : ℕ} (hfcb : ¬ InPage files.fcbTableAddress x)
    (hfd : ¬ InPage files.fdTableAddress x) :
  files.storeTables b x = b x
  := by
  have hle := sizeofFCB_mul_le
  have heq := sizeofFD_mul
  unfold InPage at hfcb hfd
  unfold storeTables
  rw [Bytes.putEntries_of_outside, Bytes.putEntries_of_outside]
  · omega
  · omega

/-- The bytes of a file descriptor in its page. -/
theorem storeTables_fd {b : Bytes} {d o : ℕ} (hd : d < getMaxEntriesOfFDTable) (ho : o < sizeofFD) :
  files.storeTables b (files.fdTableAddress + sizeofFD * d + o)
    = (files.fdTable d).bytes files.fcbTableAddress o
  := Bytes.putEntries_inside hd ho

/-- Storing the tables again overwrites them. -/
theorem storeTables_storeTables (files files' : FileSystem)
    (hfcb : files'.fcbTableAddress = files.fcbTableAddress)
    (hfd : files'.fdTableAddress = files.fdTableAddress) (b : Bytes) :
  files'.storeTables (files.storeTables b) = files'.storeTables b
  := by
  funext x
  unfold storeTables Bytes.putEntries Bytes.put
  rw [hfcb, hfd]
  split
  · rfl
  · split
    · rfl
    · rfl

theorem reloadFCB_of_same {c : ℕ}
    (h : ∀ o < sizeofFCB, after (files.fcbTableAddress + sizeofFCB * c + o)
      = before (files.fcbTableAddress + sizeofFCB * c + o)) :
  files.reloadFCB before after c = files.fcbTable c
  := if_neg fun hc => hc.2 h

theorem reloadFD_of_same {d : ℕ}
    (h : ∀ o < sizeofFD, after (files.fdTableAddress + sizeofFD * d + o)
      = before (files.fdTableAddress + sizeofFD * d + o)) :
  files.reloadFD before after d = some (files.fdTable d)
  := if_neg fun hd => hd.2 h

/-- Entries behind the table are not read back. -/
theorem reloadFCB_of_le {c : ℕ} (h : getMaxEntriesOfFCBTable ≤ c) :
  files.reloadFCB before after c = files.fcbTable c
  := if_neg fun hc => absurd hc.1 (Nat.not_lt.mpr h)

theorem reloadFD_of_le {d : ℕ} (h : getMaxEntriesOfFDTable ≤ d) :
  files.reloadFD before after d = some (files.fdTable d)
  := if_neg fun hd => absurd hd.1 (Nat.not_lt.mpr h)

/-- An address in an entry of a table lies in its page. -/
theorem entry_inPage {a size n i o : ℕ} (hn : size * n ≤ pageSize) (hi : i < n)
    (ho : o < size) :
  InPage a (a + size * i + o)
  := by
  have hle := Nat.mul_le_mul_left size (Nat.succ_le_of_lt hi)
  rw [Nat.mul_succ] at hle
  unfold InPage
  omega

/-- When the bytes of its page are the same, the FCB table is the same. -/
theorem reloadFCB_eq (hfcb : ∀ x, InPage files.fcbTableAddress x → after x = before x) :
  files.reloadFCB before after = files.fcbTable
  := by
  funext c
  by_cases hc : c < getMaxEntriesOfFCBTable
  · exact reloadFCB_of_same fun o ho => hfcb _ (entry_inPage sizeofFCB_mul_le hc ho)
  · exact reloadFCB_of_le (Nat.not_lt.mp hc)

/-- When the bytes of their pages are the same, the tables are the same. -/
theorem reloadTables_of_same (hfcb : ∀ x, InPage files.fcbTableAddress x → after x = before x)
    (hfd : ∀ x, InPage files.fdTableAddress x → after x = before x) :
  files.reloadTables before after = some files
  := by
  have hfds : ∀ d, files.reloadFD before after d = some (files.fdTable d) := by
    intro d
    by_cases hd : d < getMaxEntriesOfFDTable
    · exact reloadFD_of_same fun o ho => hfd _ (entry_inPage sizeofFD_mul.le hd ho)
    · exact reloadFD_of_le (Nat.not_lt.mp hd)
  have hassert : ∀ d < getMaxEntriesOfFDTable, (files.reloadFD before after d).isSome := by
    intro d _
    rw [hfds]
    rfl
  unfold reloadTables
  rw [assert_of hassert, Option.bind_eq_bind, Option.bind_some, reloadFCB_eq hfcb]
  simp only [hfds, Option.getD_some]

/-- When one file descriptor is overwritten, it is read back. -/
theorem reloadTables_of_entry {d : ℕ} {fd : FD} (hd : d < getMaxEntriesOfFDTable)
    (hfcb : ∀ x, InPage files.fcbTableAddress x → after x = before x)
    (hothers : ∀ d' < getMaxEntriesOfFDTable, d' ≠ d → ∀ o < sizeofFD,
      after (files.fdTableAddress + sizeofFD * d' + o)
        = before (files.fdTableAddress + sizeofFD * d' + o))
    (hchanged : ∃ o < sizeofFD, after (files.fdTableAddress + sizeofFD * d + o)
      ≠ before (files.fdTableAddress + sizeofFD * d + o))
    (hload : FD.load files.fcbTableAddress
      (bytesFrom after (files.fdTableAddress + sizeofFD * d)) = some fd) :
  files.reloadTables before after = some (files.setFD d fd)
  := by
  have hentry : files.reloadFD before after d = some fd := by
    obtain ⟨o, ho, hne⟩ := hchanged
    exact (if_pos ⟨hd, fun hall => hne (hall o ho)⟩).trans hload
  have hfds : ∀ d', d' ≠ d → files.reloadFD before after d' = some (files.fdTable d') := by
    intro d' hne
    by_cases hd' : d' < getMaxEntriesOfFDTable
    · exact reloadFD_of_same (hothers d' hd' hne)
    · exact reloadFD_of_le (Nat.not_lt.mp hd')
  have hassert : ∀ d' < getMaxEntriesOfFDTable, (files.reloadFD before after d').isSome := by
    intro d' _
    by_cases hne : d' = d
    · rw [hne, hentry]
      rfl
    · rw [hfds d' hne]
      rfl
  have htable : (fun d' => (files.reloadFD before after d').getD (files.fdTable d'))
      = Function.update files.fdTable d fd := by
    funext d'
    by_cases hne : d' = d
    · rw [hne, hentry, Function.update_self]
      rfl
    · rw [hfds d' hne, Function.update_of_ne hne]
      rfl
  unfold reloadTables
  rw [assert_of hassert, Option.bind_eq_bind, Option.bind_some, reloadFCB_eq hfcb, htable]
  rfl

end FileSystem

/-! ### Entries that are read back -/

/-- The numbers of a file descriptor fit its fields. -/
structure FD.Fits (d : FD) : Prop where
  fcb : ∀ c, d.fcb = some c → c < getMaxEntriesOfFCBTable
  position : d.position < 2 ^ 32
  openCount : -(2 ^ 31) ≤ d.openCount ∧ d.openCount < 2 ^ 31

/-- An `int` is read back from its bytes. -/
theorem int32_unsigned {n : Int} (hlo : -(2 ^ 31) ≤ n) (hhi : n < 2 ^ 31) :
  int32 (unsigned 32 n % 256 ^ 4 : ℕ) = n
  := by
  have hlt : unsigned 32 n < 256 ^ 4 := by
    unfold unsigned
    omega
  have hcast : ((unsigned 32 n : ℕ) : Int) = n % 2 ^ 32 := by
    unfold unsigned
    omega
  calc int32 (unsigned 32 n % 256 ^ 4 : ℕ)
      = int32 (n % 2 ^ 32) := by rw [Nat.mod_eq_of_lt hlt, hcast]
    _ = int32 n := by exact_mod_cast Int.emod_bmod n (2 ^ 32)
    _ = n := int32_of_range hlo hhi

/-- The pointer to an entry of the FCB table leads back to it. -/
theorem fcbOfAddress_fcbAddress {table : ℕ} (hpos : 0 < table) {fcb : Option ℕ}
    (h : ∀ c, fcb = some c → c < getMaxEntriesOfFCBTable) :
  fcbOfAddress table (fcbAddress table fcb) = some fcb
  := by
  cases fcb with
  | none => exact if_pos rfl
  | some c =>
      have hc := h c rfl
      have hsub : table + sizeofFCB * c - table = sizeofFCB * c := Nat.add_sub_cancel_left _ _
      have hdiv : sizeofFCB * c / sizeofFCB = c := Nat.mul_div_cancel_left c (by decide)
      unfold fcbOfAddress fcbAddress
      dsimp only
      rw [if_neg (by omega), hsub, hdiv, if_pos ⟨Nat.le_add_right _ _, Nat.mul_mod_right _ _, hc⟩]

/-- The pointer of a file descriptor. -/
theorem FD.read_pointer {table : ℕ} {d : FD} (hhi : table + pageSize ≤ 2 ^ 64) (h : d.Fits) :
  (d.bytes table).read 8 0 = fcbAddress table d.fcb
  := by
  have haddress : fcbAddress table d.fcb < 256 ^ 8 := by
    cases hfcb : d.fcb with
    | none => exact Nat.pow_pos (by decide)
    | some c =>
        have hc := h.fcb c hfcb
        rw [getMaxEntriesOfFCBTable, pageSize_eq] at hc
        rw [pageSize_eq] at hhi
        show table + 28 * c < 256 ^ 8
        omega
  unfold FD.bytes
  rw [Bytes.read_write_of_disjoint (by decide), Bytes.read_write_of_disjoint (by decide),
    Bytes.read_write_self, Nat.mod_eq_of_lt haddress]

/-- The position of a file descriptor. -/
theorem FD.read_position {d : FD} (table : ℕ) (h : d.Fits) :
  (d.bytes table).read 4 8 = d.position
  := by
  unfold FD.bytes
  rw [Bytes.read_write_of_disjoint (by decide), Bytes.read_write_self]
  exact Nat.mod_eq_of_lt h.position

/-- A file descriptor is read back from its bytes. -/
theorem FD.load_bytes {table : ℕ} {d : FD} (hpos : 0 < table) (hhi : table + pageSize ≤ 2 ^ 64)
    (h : d.Fits) :
  FD.load table (d.bytes table) = some d
  := by
  have hcount : int32 ((d.bytes table).read 4 12) = d.openCount := by
    unfold FD.bytes
    rw [Bytes.read_write_self]
    exact int32_unsigned h.openCount.1 h.openCount.2
  rw [FD.load, FD.read_pointer hhi h, fcbOfAddress_fcbAddress hpos h.fcb, FD.read_position table h,
    hcount]
  rfl

/-- A file descriptor depends on its bytes only. -/
theorem FD.load_congr {table : ℕ} {b b' : Bytes} (h : ∀ o < sizeofFD, b' o = b o) :
  FD.load table b' = FD.load table b
  := by
  unfold sizeofFD at h
  have hpointer : b'.read 8 0 = b.read 8 0 := Bytes.read_congr fun x _ hx => h x (by omega)
  have hposition : b'.read 4 8 = b.read 4 8 := Bytes.read_congr fun x _ hx => h x (by omega)
  have hcount : b'.read 4 12 = b.read 4 12 := Bytes.read_congr fun x _ hx => h x (by omega)
  rw [FD.load, FD.load, hpointer, hposition, hcount]

/-- The texts and numbers of a file control block fit its fields. -/
structure FCB.Fits (fcb : FCB) : Prop where
  name : fcb.name.length = 8
  ext : fcb.ext.length = 3
  startCluster : fcb.startCluster < 2 ^ 32
  dirEntry : fcb.dirEntry < 2 ^ 32
  fileSize : fcb.fileSize < 2 ^ 32
  openCount : -(2 ^ 31) ≤ fcb.openCount ∧ fcb.openCount < 2 ^ 31

/-- The characters of a text, one for each index. -/
theorem map_getD_range {n : ℕ} {text : List UInt8} (h : text.length = n) {b : ℕ → UInt8}
    (hb : ∀ i < n, b i = text.getD i 0) :
  (List.range n).map b = text
  := by
  apply List.ext_getElem
  · rw [List.length_map, List.length_range, h]
  · intro i hi hi'
    rw [List.getElem_map, List.getElem_range, hb i (h ▸ hi'), List.getD_eq_getElem _ _ hi']

/-- The texts come before the numbers. -/
theorem FCB.bytes_text {fcb : FCB} {o : ℕ} (ho : o < 12) :
  fcb.bytes o = ((Bytes.zero.put 0 8 (fun i => fcb.name.getD i 0)).put 8 3
    (fun i => fcb.ext.getD i 0)) o
  := by
  unfold FCB.bytes
  rw [Bytes.write_of_outside (by omega), Bytes.write_of_outside (by omega),
    Bytes.write_of_outside (by omega), Bytes.write_of_outside (by omega)]

/-- A file control block is read back from its bytes. -/
theorem FCB.load_bytes {fcb : FCB} (h : fcb.Fits) :
  FCB.load fcb.bytes = fcb
  := by
  have hname : (List.range 8).map fcb.bytes = fcb.name := by
    apply map_getD_range h.name
    intro i hi
    rw [FCB.bytes_text (by omega), Bytes.put_of_outside (by omega)]
    exact (congrArg _ (Nat.zero_add i).symm).trans (Bytes.put_inside hi)
  have hext : (List.range 3).map (fun i => fcb.bytes (8 + i)) = fcb.ext := by
    apply map_getD_range h.ext
    intro i hi
    rw [FCB.bytes_text (by omega)]
    exact Bytes.put_inside hi
  have hcluster : fcb.bytes.read 4 12 = fcb.startCluster := by
    unfold FCB.bytes
    rw [Bytes.read_write_of_disjoint (by decide), Bytes.read_write_of_disjoint (by decide),
      Bytes.read_write_of_disjoint (by decide), Bytes.read_write_self]
    exact Nat.mod_eq_of_lt h.startCluster
  have hentry : fcb.bytes.read 4 16 = fcb.dirEntry := by
    unfold FCB.bytes
    rw [Bytes.read_write_of_disjoint (by decide), Bytes.read_write_of_disjoint (by decide),
      Bytes.read_write_self]
    exact Nat.mod_eq_of_lt h.dirEntry
  have hsize : fcb.bytes.read 4 20 = fcb.fileSize := by
    unfold FCB.bytes
    rw [Bytes.read_write_of_disjoint (by decide), Bytes.read_write_self]
    exact Nat.mod_eq_of_lt h.fileSize
  have hcount : int32 (fcb.bytes.read 4 24) = fcb.openCount := by
    unfold FCB.bytes
    rw [Bytes.read_write_self]
    exact int32_unsigned h.openCount.1 h.openCount.2
  rw [FCB.load, hname, hext, hcluster, hentry, hsize, hcount]

end LarvaOS
