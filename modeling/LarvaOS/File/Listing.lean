import LarvaOS.File.Lookup

/-!
# Listing the root directory

`ls` calls `lstat`, and prints the name of every entry that it finds in the buffer.  The
entries are those that `FindFileInRootDir` searches, in the same order, so a name that
`ls` prints leads to an entry with this name.
-/

namespace LarvaOS

variable {image : Image}

namespace Ls

/-- `GetRelativeFileName` of `ls`, a copy of that of the kernel. -/
def getRelativeFileName (entry : DirEntry) : List UInt8 :=
  let text := fun s : List UInt8 => s.takeWhile (fun c => c ≠ 0 && c ≠ 0x20)
  text entry.name ++ [0x2E] ++ text entry.ext

/-- `toLowers`. -/
def toLowers (str : List UInt8) : List UInt8 :=
  str.map (fun c => UInt8.ofNat (unsigned 8 (tolower (char c))))

/-- The name that `ls` prints for an entry. -/
def printedName (entry : DirEntry) : List UInt8 := toLowers (getRelativeFileName entry)

/-- `toLowers` converts letters to lower case, and keeps all other bytes. -/
theorem toLowers_eq (str : List UInt8) :
  toLowers str = str.map lowerCase
  := by
  apply List.map_congr_left
  intro c _
  rw [tolower_char]
  have hc := (lowerCase c).toNat_lt
  have hchar : unsigned 8 (char (lowerCase c)) = (lowerCase c).toNat := by
    unfold unsigned char
    rw [Int.bmod_def]
    split <;> omega
  rw [hchar, UInt8.ofNat_toNat]

theorem lowerCase_idempotent (c : UInt8) :
  lowerCase (lowerCase c) = lowerCase c
  := by
  rw [← UInt8.toNat_inj, toNat_lowerCase, toNat_lowerCase]
  split_ifs <;> omega

/-- The printed name is the text of the name up to case. -/
theorem sameText_printedName (entry : DirEntry) :
  SameText (printedName entry) (LarvaOS.getRelativeFileName entry)
  := by
  unfold printedName SameText
  rw [toLowers_eq, List.map_map]
  apply List.map_congr_left
  intro c _
  exact lowerCase_idempotent c

end Ls

namespace FileSystem

variable {files : FileSystem} {m : Memory} {a n statbuf : ℕ} {xs : List ℕ} {S : Space}

/-- All entries of the root directory, in order: the sector and the index in the sector. -/
def directory (files : FileSystem) : List (ℕ × ℕ) :=
  files.rootSectors.flatMap (fun i => (List.range files.entriesPerSector).map (fun j => (i, j)))

/-- The entries in use are the entries of the directory that are not empty, not deleted, and
not a part of a long name. -/
theorem rootEntries_eq :
  files.rootEntries = files.directory.filter (fun e => (files.rootEntry e.1 e.2).inUse)
  := by
  unfold rootEntries directory
  rw [List.filter_flatMap]
  congr 1
  funext i
  rw [List.filter_map]
  rfl

/-- The bytes of an entry among the records. -/
theorem Records.getElem {b : Bytes} {es : List (ℕ × ℕ)} {i : ℕ} {e : ℕ × ℕ}
    (h : Records files b a es) (he : es[i]? = some e) :
  ∀ o, o < sizeofDirEntry →
    b (a + sizeofDirEntry * i + o) = files.rootByte e.1 (sizeofDirEntry * e.2 + o)
  := by
  induction es generalizing a i with
  | nil => simp at he
  | cons e' es ih =>
      cases i with
      | zero =>
          obtain rfl := Option.some.inj he
          exact h.1
      | succ i =>
          have haddr : a + sizeofDirEntry + sizeofDirEntry * i = a + sizeofDirEntry * (i + 1) := by
            rw [Nat.mul_add_one]
            omega
          have hrest := ih h.2 he
          rwa [haddr] at hrest

/-- An entry in use leads back to an entry with the same text. -/
theorem lookup_printedName {e : ℕ × ℕ} (he : e ∈ files.rootEntries) :
  ∃ e' ∈ files.rootEntries, SameText (files.entryText e') (files.entryText e)
    ∧ files.lookup (Ls.printedName (files.rootEntry e.1 e.2)) = some (files.indexed e')
  := by
  have hsame : SameText (Ls.printedName (files.rootEntry e.1 e.2)) (files.entryText e) :=
    Ls.sameText_printedName _
  have hzero : 0 ∉ Ls.printedName (files.rootEntry e.1 e.2) :=
    hsame.zero_not_mem (zero_not_mem_getRelativeFileName _)
  cases hlookup : files.lookup (Ls.printedName (files.rootEntry e.1 e.2)) with
  | none => exact absurd hsame ((lookup_eq_none_iff hzero).mp hlookup e he)
  | some r =>
      obtain ⟨e', hsame', ⟨before, after, hentries, _⟩, rfl⟩ :=
        (lookup_eq_some_iff hzero).mp hlookup
      use e'
      refine ⟨?_, hsame'.symm.trans hsame, rfl⟩
      rw [hentries]
      exact List.mem_append_right before List.mem_cons_self

/-- `Lstat` writes the entries in use, in the order of the directory, and nothing else, and
returns their number; `FindFileInRootDir` returns the first of them whose text is the name up
to case; the name that `ls` prints for an entry leads to an entry with the same text; and both
functions give the temporary page back. -/
theorem lstat_findFileInRootDir (h : UserSpace m n S) (hn : n ≤ totalTableEntries)
    (hpages : ∀ p ∈ S.pages, IsPage image p) (hnodup : (S.pages ++ a :: xs).Nodup)
    (hfree : Free image m (a :: xs)) (hsector : files.bpb.bytesPerSector ≤ pageSize)
    (hlo : userVirtualAddressBase ≤ statbuf)
    (hhi : statbuf + sizeofDirEntry * files.rootEntries.length
      ≤ userVirtualAddressBase + pageSize) :
  files.rootEntries = files.directory.filter (fun e => (files.rootEntry e.1 e.2).inUse)
    ∧ (∃ m', files.lstat image (virToPhy S.map) statbuf m
        = some ((files.rootEntries.length : Int), m')
      ∧ Free image m' (a :: xs)
      ∧ (∀ i e, files.rootEntries[i]? = some e →
        (∀ o, o < sizeofDirEntry → m'.bytes (userAddress S statbuf + sizeofDirEntry * i + o)
          = files.rootByte e.1 (sizeofDirEntry * e.2 + o))
        ∧ ∃ e' m'', files.findFileInRootDir image
            (Ls.printedName (DirEntry.load m'.bytes (userAddress S statbuf + sizeofDirEntry * i))) m'
            = some (some (files.indexed e'), m'')
          ∧ SameText (files.entryText e') (files.entryText e))
      ∧ ∀ x, InPage S.page x → x < userAddress S statbuf
        ∨ userAddress S statbuf + sizeofDirEntry * files.rootEntries.length ≤ x →
        m'.bytes x = m.bytes x)
    ∧ (∀ s, 0 ∉ s → ∃ found m', files.findFileInRootDir image s m = some (found, m')
      ∧ Free image m' (a :: xs)
      ∧ (∀ r, found = some r ↔ ∃ before e after, files.rootEntries = before ++ e :: after
          ∧ SameText s (files.entryText e) ∧ (∀ e' ∈ before, ¬ SameText s (files.entryText e'))
          ∧ r = files.indexed e)
      ∧ (found = none ↔ ∀ e ∈ files.rootEntries, ¬ SameText s (files.entryText e)))
    ∧ ∀ e, (files.entryText e).length + 1 ≤ 13
  := by
  refine ⟨rootEntries_eq, ?_⟩
  refine ⟨?_, ?_, ?_⟩
  · obtain ⟨m', hrun, hfree', _, hrecords, houtside⟩ :=
      lstat_spec h hn hpages hnodup hfree hsector hlo hhi
    refine ⟨m', hrun, hfree', ?_, houtside⟩
    intro i e he
    have hbytes := hrecords.getElem he
    refine ⟨hbytes, ?_⟩
    have hload : DirEntry.load m'.bytes (userAddress S statbuf + sizeofDirEntry * i)
        = files.rootEntry e.1 e.2 := DirEntry.load_congr hbytes
    rw [hload]
    obtain ⟨e', _, hsame, hlookup⟩ := lookup_printedName (List.mem_of_getElem? he)
    obtain ⟨m'', hrun', _⟩ := findFileInRootDir_spec hsector hfree'
      (Ls.printedName (files.rootEntry e.1 e.2))
    rw [hlookup] at hrun'
    exact ⟨e', m'', hrun', hsame⟩
  · intro s hs
    obtain ⟨m', hrun, hfree', _⟩ := findFileInRootDir_spec hsector hfree s
    refine ⟨_, m', hrun, hfree', ?_, lookup_eq_none_iff hs⟩
    intro r
    rw [lookup_eq_some_iff hs]
    constructor
    · rintro ⟨e, hsame, ⟨before, after, hentries, hbefore⟩, hr⟩
      exact ⟨before, e, after, hentries, hsame, hbefore, hr⟩
    · rintro ⟨before, e, after, hentries, hsame, hbefore, hr⟩
      exact ⟨e, hsame, ⟨before, after, hentries, hbefore⟩, hr⟩
  · intro e
    obtain ⟨hname, hext⟩ := DirEntry.length_load (files.rootByte e.1) (sizeofDirEntry * e.2)
    exact length_getRelativeFileName hname hext

/-- `Lstat` reports `README` and `HELLO.TXT`. -/
theorem lstat_findFileInRootDir_small :
  ∃ m cr3 a xs m', Free smallImage m (a :: xs)
    ∧ namesVolume.lstat smallImage cr3 userVirtualAddressBase m = some (2, m')
    ∧ Free smallImage m' (a :: xs)
  := by
  obtain ⟨m, n, S, a, xs, hspace, hn, hpages, hnodup, hfree⟩ := smallMemory_userSpace
  have hsize := pageSize_eq
  have hroom : userVirtualAddressBase + sizeofDirEntry * namesVolume.rootEntries.length
      ≤ userVirtualAddressBase + pageSize := by
    have hlength : namesVolume.rootEntries.length = 2 := by rw [namesVolume_entries]; rfl
    rw [hlength, sizeofDirEntry_eq]
    omega
  obtain ⟨_, ⟨m', hrun, hfree', _⟩, _⟩ := lstat_findFileInRootDir hspace hn hpages hnodup hfree
    namesVolume_sector le_rfl hroom
  rw [namesVolume_entries] at hrun
  exact ⟨m, _, a, xs, m', hfree, hrun, hfree'⟩

end FileSystem

end LarvaOS
