import LarvaOS.File.Names
import LarvaOS.Memory.Release

/-!
# Finding files by name

`FindFileInRootDir` returns the first entry in use whose text is the name up to case, and
`Lstat` reports the entries in use in the same order.  So the text that `ls` prints for an
entry leads back to an entry with this text.  The ordinary text of a name leads to its
entry when the extension is not empty: `GetRelativeFileName` puts a dot after every base.
-/

namespace LarvaOS

variable {image : Image} {s : List UInt8} {e : ℕ × ℕ}

namespace FileSystem

variable {files : FileSystem} {m : Memory} {a : ℕ} {xs : List ℕ}

/-- The text of the name of an entry. -/
def entryText (files : FileSystem) (e : ℕ × ℕ) : List UInt8 :=
  getRelativeFileName (files.rootEntry e.1 e.2)

theorem named_iff (hs : 0 ∉ s) :
  files.named s e = true ↔ SameText s (files.entryText e)
  := by
  unfold named
  rw [decide_eq_true_iff]
  exact strcasecmp_eq_zero hs (zero_not_mem_getRelativeFileName _)

/-- The entry is in use, and no entry in use before it has the same text. -/
def First (files : FileSystem) (s : List UInt8) (e : ℕ × ℕ) : Prop :=
  ∃ before after, files.rootEntries = before ++ e :: after
    ∧ ∀ e' ∈ before, ¬ SameText s (files.entryText e')

/-- The outcome is the first entry with the name. -/
theorem lookup_eq_some_iff (hs : 0 ∉ s) {r : ℕ × DirEntry} :
  files.lookup s = some r
    ↔ ∃ e, SameText s (files.entryText e) ∧ files.First s e ∧ r = files.indexed e
  := by
  have hnot : ∀ e', (!files.named s e') = true ↔ ¬ SameText s (files.entryText e') := by
    intro e'
    rw [Bool.not_eq_true', ← Bool.not_eq_true, named_iff hs]
  unfold lookup First
  constructor
  · intro h
    obtain ⟨e, hfind, rfl⟩ := Option.map_eq_some_iff.mp h
    obtain ⟨he, before, after, hentries, hbefore⟩ := List.find?_eq_some_iff_append.mp hfind
    exact ⟨e, (named_iff hs).mp he,
      ⟨before, after, hentries, fun e' he' => (hnot e').mp (hbefore e' he')⟩, rfl⟩
  · rintro ⟨e, he, ⟨before, after, hentries, hbefore⟩, rfl⟩
    apply Option.map_eq_some_iff.mpr
    use e
    exact ⟨List.find?_eq_some_iff_append.mpr ⟨(named_iff hs).mpr he, before, after, hentries,
      fun e' he' => (hnot e').mpr (hbefore e' he')⟩, rfl⟩

/-- There is no outcome when no entry has the name. -/
theorem lookup_eq_none_iff (hs : 0 ∉ s) :
  files.lookup s = none ↔ ∀ e ∈ files.rootEntries, ¬ SameText s (files.entryText e)
  := by
  unfold lookup
  rw [Option.map_eq_none_iff, List.find?_eq_none]
  constructor
  · exact fun h e he => mt (named_iff hs).mpr (h e he)
  · exact fun h e he => mt (named_iff hs).mp (h e he)

theorem mem_rootEntries (he : e ∈ files.rootEntries) :
  e.2 < files.entriesPerSector
  := by
  obtain ⟨i, _, hi⟩ := List.mem_flatMap.mp he
  exact mem_sectorEntries hi

/-- Entries in use have different indices. -/
theorem indexed_injective {e' : ℕ × ℕ} (he : e ∈ files.rootEntries)
    (he' : e' ∈ files.rootEntries) (h : (files.indexed e).1 = (files.indexed e').1) :
  e = e'
  := by
  have hlt := mem_rootEntries he
  have hlt' := mem_rootEntries he'
  have hindex : e.1 * files.entriesPerSector + e.2 = e'.1 * files.entriesPerSector + e'.2 := h
  have hdiv : ∀ q r, r < files.entriesPerSector →
      (q * files.entriesPerSector + r) / files.entriesPerSector = q
        ∧ (q * files.entriesPerSector + r) % files.entriesPerSector = r := by
    intro q r hr
    have hpos := Nat.zero_lt_of_lt hr
    constructor
    · rw [Nat.mul_comm, Nat.mul_add_div hpos, Nat.div_eq_of_lt hr, Nat.add_zero]
    · rw [Nat.mul_comm, Nat.mul_add_mod, Nat.mod_eq_of_lt hr]
  apply Prod.ext
  · rw [← (hdiv e.1 e.2 hlt).1, hindex, (hdiv e'.1 e'.2 hlt').1]
  · rw [← (hdiv e.1 e.2 hlt).2, hindex, (hdiv e'.1 e'.2 hlt').2]

end FileSystem

theorem SameText.symm {t : List UInt8} (h : SameText s t) :
  SameText t s
  := Eq.symm h

theorem SameText.trans {t u : List UInt8} (h : SameText s t) (h' : SameText t u) :
  SameText s u
  := Eq.trans h h'

/-- A text that is the same as a string is a string. -/
theorem SameText.zero_not_mem {t : List UInt8} (h : SameText s t) (ht : 0 ∉ t) :
  0 ∉ s
  := by
  intro hs
  have hmem : (0 : UInt8) ∈ t.map lowerCase := by
    rw [← h]
    exact List.mem_map.mpr ⟨0, hs, lowerCase_zero⟩
  obtain ⟨c, hc, hzero⟩ := List.mem_map.mp hmem
  exact ht (lowerCase_eq_zero.mp hzero ▸ hc)

theorem SameText.length_eq {t : List UInt8} (h : SameText s t) :
  s.length = t.length
  := by
  have hlength := congrArg List.length h
  rwa [List.length_map, List.length_map] at hlength

/-- The ordinary text of a name is the text that the kernel compares, up to case, if and
only if the extension is not empty. -/
theorem sameText_shortText {base ext : List UInt8} :
  SameText (shortText base ext) (base ++ [0x2E] ++ ext) ↔ ext ≠ []
  := by
  unfold shortText
  split
  · rename_i hext
    constructor
    · intro h
      have hlength := h.length_eq
      rw [List.length_append, List.length_append, List.length_singleton] at hlength
      omega
    · exact fun h => absurd hext h
  · rename_i hext
    exact ⟨fun _ => hext, fun _ => rfl⟩

theorem zero_not_mem_shortText {entry : DirEntry} {base ext : List UInt8}
    (h : ShortName entry base ext) :
  0 ∉ shortText base ext
  := by
  have hmem : ∀ c, c ∈ shortText base ext → c ∈ base ∨ c = 0x2E ∨ c ∈ ext := by
    intro c hc
    unfold shortText at hc
    split at hc
    · exact Or.inl hc
    · rw [List.append_assoc, List.mem_append, List.mem_append, List.mem_singleton] at hc
      exact hc
  intro hzero
  rcases hmem 0 hzero with hc | hc | hc
  · exact (h.base_chars 0 hc).1 rfl
  · exact absurd hc (by decide)
  · exact (h.ext_chars 0 hc).1 rfl

namespace FileSystem

variable {files : FileSystem} {m : Memory} {a : ℕ} {xs : List ℕ}

/-- The ordinary text of a valid name, in any mixture of letter case, leads to the entry if
and only if the extension is not empty, and no entry before has the same text. -/
theorem lookup_shortText_iff (he : e ∈ files.rootEntries) {base ext : List UInt8}
    (hname : ShortName (files.rootEntry e.1 e.2) base ext) :
  (∀ s, SameText s (shortText base ext) → files.lookup s = some (files.indexed e))
    ↔ ext ≠ [] ∧ files.First (files.entryText e) e
  := by
  have htext : files.entryText e = base ++ [0x2E] ++ ext := hname.getRelativeFileName
  have hzero := zero_not_mem_shortText hname
  constructor
  · intro h
    obtain ⟨e', hsame, hfirst, hindexed⟩ := (lookup_eq_some_iff hzero).mp (h _ rfl)
    obtain ⟨before, after, hentries, hbefore⟩ := hfirst
    have he' : e' ∈ files.rootEntries := by
      rw [hentries]
      exact List.mem_append_right before List.mem_cons_self
    obtain rfl := indexed_injective he he' (congrArg Prod.fst hindexed)
    refine ⟨sameText_shortText.mp (htext ▸ hsame), before, after, hentries, ?_⟩
    exact fun e' he' hsame' => hbefore e' he' (hsame.trans hsame')
  · rintro ⟨hext, before, after, hentries, hbefore⟩ s hs
    have hsame : SameText s (files.entryText e) := by
      rw [htext]
      exact hs.trans (sameText_shortText.mpr hext)
    apply (lookup_eq_some_iff (hs.zero_not_mem hzero)).mpr
    use e
    refine ⟨hsame, ⟨before, after, hentries, ?_⟩, rfl⟩
    exact fun e' he' hsame' => hbefore e' he' (hsame.symm.trans hsame')

/-- Among valid names, a name that no other entry has up to case is not hidden by an entry
before it. -/
theorem first_of_unique (he : e ∈ files.rootEntries) {base ext : List UInt8}
    (hname : ShortName (files.rootEntry e.1 e.2) base ext)
    (hvalid : ∀ e' ∈ files.rootEntries,
      ∃ base' ext', ShortName (files.rootEntry e'.1 e'.2) base' ext')
    (hunique : ∀ e' ∈ files.rootEntries,
      SameText (files.rootEntry e'.1 e'.2).name (files.rootEntry e.1 e.2).name →
      SameText (files.rootEntry e'.1 e'.2).ext (files.rootEntry e.1 e.2).ext → e' = e) :
  files.First (files.entryText e) e
  := by
  obtain ⟨before, after, hentries, hmem⟩ := List.eq_append_cons_of_mem he
  refine ⟨before, after, hentries, fun e' he' hsame => ?_⟩
  have he'' : e' ∈ files.rootEntries := by
    rw [hentries]
    exact List.mem_append_left _ he'
  obtain ⟨base', ext', hname'⟩ := hvalid e' he''
  have htext : files.entryText e = base ++ [0x2E] ++ ext := hname.getRelativeFileName
  have htext' : files.entryText e' = base' ++ [0x2E] ++ ext' := hname'.getRelativeFileName
  rw [htext, htext'] at hsame
  obtain ⟨hbase, hext⟩ := sameText_dot (fun hc => (hname.base_chars _ hc).2.2 rfl)
    (fun hc => (hname'.base_chars _ hc).2.2 rfl) hsame
  have hpad : ∀ s t : List UInt8, ∀ n, SameText s t →
      SameText (t ++ List.replicate (n - t.length) 0x20) (s ++ List.replicate (n - s.length) 0x20) := by
    intro s t n h
    rw [h.length_eq]
    unfold SameText
    rw [List.map_append, List.map_append, h]
  have heq : e' = e := by
    apply hunique e' he''
    · rw [hname.name_eq, hname'.name_eq]
      exact hpad base base' 8 hbase
    · rw [hname.ext_eq, hname'.ext_eq]
      exact hpad ext ext' 3 hext
  exact hmem (heq ▸ he')

/-- `FindFileInRootDir` finds the entry of a valid name under its ordinary text, in any
mixture of letter case, if and only if the extension is not empty and no entry in use before
it has the same text; and among valid names no entry with another name has the same text. -/
theorem findFileInRootDir_shortText (hsector : files.bpb.bytesPerSector ≤ pageSize)
    (hfree : Free image m (a :: xs)) (he : e ∈ files.rootEntries) {base ext : List UInt8}
    (hname : ShortName (files.rootEntry e.1 e.2) base ext) :
  ((∀ s, SameText s (shortText base ext) →
      ∃ m', files.findFileInRootDir image s m = some (some (files.indexed e), m'))
      ↔ ext ≠ [] ∧ files.First (files.entryText e) e)
    ∧ ((∀ e' ∈ files.rootEntries, ∃ base' ext', ShortName (files.rootEntry e'.1 e'.2) base' ext') →
      (∀ e' ∈ files.rootEntries,
        SameText (files.rootEntry e'.1 e'.2).name (files.rootEntry e.1 e.2).name →
        SameText (files.rootEntry e'.1 e'.2).ext (files.rootEntry e.1 e.2).ext → e' = e) →
      files.First (files.entryText e) e)
  := by
  refine ⟨?_, first_of_unique he hname⟩
  rw [← lookup_shortText_iff he hname]
  constructor
  · intro h s hs
    obtain ⟨m₁, hrun⟩ := h s hs
    obtain ⟨m₂, hrun', _⟩ := findFileInRootDir_spec hsector hfree s
    rw [hrun'] at hrun
    exact (Prod.mk.inj (Option.some.inj hrun)).1
  · intro h s hs
    obtain ⟨m', hrun, _⟩ := findFileInRootDir_spec hsector hfree s
    use m'
    rw [hrun, h s hs]

/-- The root directory of a volume with the files `README`, without an extension, and
`HELLO.TXT`. -/
def namesDirectory : List UInt8 :=
  [0x52, 0x45, 0x41, 0x44, 0x4D, 0x45, 0x20, 0x20, 0x20, 0x20, 0x20] ++ List.replicate 21 0x20
    ++ [0x48, 0x45, 0x4C, 0x4C, 0x4F, 0x20, 0x20, 0x20, 0x54, 0x58, 0x54] ++ List.replicate 21 0x20

/-- A volume with one sector of root directory, after one reserved sector. -/
def namesVolume : FileSystem where
  disk o := namesDirectory.getD (o - 512) 0
  bpb := ⟨512, 1, 1, 0, 16, 0, 0x29⟩
  fcbTable _ := FCB.zero
  fdTable _ := FD.zero
  fcbTableAddress := 0
  fdTableAddress := 0

theorem namesVolume_entries :
  namesVolume.rootEntries = [(0, 0), (0, 1)]
  := by decide +kernel

/-- The names `README`, `HELLO` and `TXT`. -/
def readmeText : List UInt8 := [0x52, 0x45, 0x41, 0x44, 0x4D, 0x45]
def helloText : List UInt8 := [0x48, 0x45, 0x4C, 0x4C, 0x4F]
def txtText : List UInt8 := [0x54, 0x58, 0x54]

theorem namesVolume_readme :
  ShortName (namesVolume.rootEntry 0 0) readmeText []
  where
  name_eq := by decide +kernel
  ext_eq := by decide +kernel
  base_length := by decide
  ext_length := by decide
  base_chars := by decide +kernel
  ext_chars := by decide +kernel

theorem namesVolume_hello :
  ShortName (namesVolume.rootEntry 0 1) helloText txtText
  where
  name_eq := by decide +kernel
  ext_eq := by decide +kernel
  base_length := by decide
  ext_length := by decide
  base_chars := by decide +kernel
  ext_chars := by decide +kernel

theorem namesVolume_sector :
  namesVolume.bpb.bytesPerSector ≤ pageSize
  := by
  rw [pageSize_eq]
  decide

/-- `HELLO.TXT` is found in any mixture of letter case. -/
theorem findFileInRootDir_hello :
  ∃ m a xs, Free smallImage m (a :: xs) ∧ ∀ s, SameText s (shortText helloText txtText) →
    ∃ m', namesVolume.findFileInRootDir smallImage s m
      = some (some (namesVolume.indexed (0, 1)), m')
  := by
  obtain ⟨m, hfree, _⟩ := smallMemory Nat.one_pos (by decide)
  rw [regionPages_succ] at hfree
  refine ⟨m, _, _, hfree, ?_⟩
  have hmem : (0, 1) ∈ namesVolume.rootEntries := by
    rw [namesVolume_entries]
    decide
  apply (findFileInRootDir_shortText namesVolume_sector hfree hmem namesVolume_hello).1.mpr
  refine ⟨by decide, [(0, 0)], [], namesVolume_entries, ?_⟩
  decide +kernel

/-- `README` is the only entry with its name, and is not found by it. -/
theorem findFileInRootDir_readme :
  (0, 0) ∈ namesVolume.rootEntries ∧ ShortName (namesVolume.rootEntry 0 0) readmeText []
    ∧ (∀ e' ∈ namesVolume.rootEntries,
      SameText (namesVolume.rootEntry e'.1 e'.2).name (namesVolume.rootEntry 0 0).name → e' = (0, 0))
    ∧ ∃ m a xs, Free smallImage m (a :: xs)
      ∧ ∃ m', namesVolume.findFileInRootDir smallImage (shortText readmeText []) m = some (none, m')
  := by
  obtain ⟨m, hfree, _⟩ := smallMemory Nat.one_pos (by decide)
  rw [regionPages_succ] at hfree
  obtain ⟨m', hrun, _⟩ := findFileInRootDir_spec namesVolume_sector hfree (shortText readmeText [])
  have hnone : namesVolume.lookup (shortText readmeText []) = none := by
    rw [lookup_eq_none_iff (by decide), namesVolume_entries]
    decide +kernel
  rw [hnone] at hrun
  refine ⟨?_, namesVolume_readme, ?_, m, _, _, hfree, m', hrun⟩
  · rw [namesVolume_entries]
    decide
  · rw [namesVolume_entries]
    decide +kernel

end FileSystem

end LarvaOS
