import LarvaOS.Console.Numbers
import LarvaOS.Libc.Comparing

/-!
# The shell

`main` and `ReadCmd` of `usr/shell.c`.  The shell reads the characters of a line to a buffer of 80
bytes, which it uses again for the next line, and hands the bytes of the buffer up to the first zero
to `open` and `exec`.  `edited` is the line that was typed, after its backspaces.  The shell runs
this line exactly when there is a zero in the buffer where the line ends: no character was stored
there, neither for this line nor for an earlier one.
-/

namespace LarvaOS

namespace Shell

/-- The size of the buffer of `main`. -/
def bufferLength : ℕ := 80

/-- The newline character. -/
def newline : UInt8 := 0x0A

/-- The backspace character. -/
def backspace : UInt8 := 0x08

/-- The word `cat`. -/
def catText : List UInt8 := [0x63, 0x61, 0x74]

/-- The word `mem`. -/
def memText : List UInt8 := [0x6D, 0x65, 0x6D]

/-! ### The code -/

/-- The loop of `ReadCmd` on the characters that are typed. It is `none` when it still waits for
a character; otherwise it gives the number of characters, the buffer, and the characters that are
typed after the line. -/
def readCmd : List UInt8 → Buffer → ℕ → Option (ℕ × Buffer × List UInt8)
  | [], _, _ => none
  | c :: input, buffer, bufferSize =>
      if c = newline ∨ bufferLength ≤ bufferSize then
        some (bufferSize, buffer, input)
      else if c = backspace then
        readCmd input buffer (if 0 < bufferSize then bufferSize - 1 else bufferSize)
      else
        readCmd input (buffer.store bufferSize c) (bufferSize + 1)

/-- `memcmp` of a text with the first bytes of the buffer: the first difference, in a signed
byte. -/
def memcmp : List UInt8 → Bytes → ℕ → Int
  | [], _, _ => 0
  | c :: text, buffer, i =>
      let res := Int.bmod ((c.toNat : Int) - (buffer i).toNat) (2 ^ 8)
      if res ≠ 0 then res else memcmp text buffer (i + 1)

/-- `ParseCmd`. -/
def parseCmd (buffer : Bytes) (length : ℕ) : Int :=
  if length = 3 ∧ memcmp memText buffer 0 = 0 then 0 else -1

/-- What the kernel says: whether `open` finds the file, and whether `read` gives any bytes. -/
structure Answers where
  found : Bool
  readable : Bool

/-- A string that is handed to another function: the bytes of the buffer from `start` on. -/
structure Text where
  bytes : Bytes
  start : ℕ

/-- What the shell does for a line: the number of characters, whether it takes the line for a
`cat` command, the strings that it hands to `open` and `exec` and those that it prints, and the
buffer and the remaining characters afterwards. -/
structure Round where
  bufferSize : ℕ
  cat : Bool
  opened : List Text
  printed : List Text
  buffer : Buffer
  input : List UInt8

/-- The branch of `main` for a `cat` command. -/
def catCommand (answers : Answers) (bufferSize : ℕ) (buffer : Buffer) (input : List UInt8) : Round :=
  if answers.found then
    { bufferSize := bufferSize, cat := true, opened := [⟨buffer.bytes, 4⟩],
      printed := if answers.readable then [] else [⟨buffer.bytes, 4⟩],
      buffer := buffer, input := input }
  else
    let cut := buffer.store bufferSize 0
    { bufferSize := bufferSize, cat := true, opened := [⟨buffer.bytes, 4⟩],
      printed := [⟨cut.bytes, 4⟩], buffer := cut, input := input }

/-- The branch of `main` for the name of a program. -/
def programCommand (answers : Answers) (bufferSize : ℕ) (buffer : Buffer) (input : List UInt8) :
    Round :=
  if answers.found then
    { bufferSize := bufferSize, cat := false, opened := [⟨buffer.bytes, 0⟩, ⟨buffer.bytes, 0⟩],
      printed := [], buffer := buffer, input := input }
  else
    let cut := buffer.store bufferSize 0
    { bufferSize := bufferSize, cat := false, opened := [⟨buffer.bytes, 0⟩],
      printed := [⟨cut.bytes, 0⟩], buffer := cut, input := input }

/-- A round of the loop of `main` that opens no file. -/
def noFile (bufferSize : ℕ) (buffer : Buffer) (input : List UInt8) : Round :=
  { bufferSize := bufferSize, cat := false, opened := [], printed := [], buffer := buffer,
    input := input }

/-- What the loop of `main` does after `ReadCmd`. -/
def command (answers : Answers) (bufferSize : ℕ) (buffer : Buffer) (input : List UInt8) : Round :=
  if bufferSize = 0 then noFile bufferSize buffer input
  else if memcmp catText buffer.bytes 0 = 0 then catCommand answers bufferSize buffer input
  else if parseCmd buffer.bytes bufferSize < 0 then programCommand answers bufferSize buffer input
  else noFile bufferSize buffer input

/-- A round of the loop of `main`. -/
def round (answers : Answers) (input : List UInt8) (buffer : Buffer) : Option Round :=
  (readCmd input buffer 0).map (fun r => command answers r.1 r.2.1 r.2.2)

/-- The rounds for the first lines: the characters that remain, and the buffer. -/
def rounds : List Answers → List UInt8 → Buffer → Option (List UInt8 × Buffer)
  | [], input, buffer => some (input, buffer)
  | answers :: rest, input, buffer =>
      (round answers input buffer).bind (fun r => rounds rest r.input r.buffer)

/-- The buffer of `main` at the start, `char buffer[80] = {0}`, with any bytes after it. -/
def startBuffer (b : Bytes) : Buffer where
  bytes i := if i < bufferLength then 0 else b i
  stores := []

/-! ### The line that was typed -/

/-- The characters of the next line. -/
def typed (input : List UInt8) : List UInt8 := input.takeWhile (fun c => c ≠ newline)

/-- The characters that are left of `line` and `keys` when every backspace takes away the last
one. -/
def edit (line keys : List UInt8) : List UInt8 :=
  keys.foldl (fun line c => if c = backspace then line.dropLast else line ++ [c]) line

/-- The line that was typed. -/
def edited (input : List UInt8) : List UInt8 := edit [] (typed input)

/-- The string is `s`, and its end is in the buffer. -/
structure Text.Is (t : Text) (s : List UInt8) : Prop where
  bytes : ∀ i, i < s.length → s[i]? = some (t.bytes (t.start + i))
  nonzero : 0 ∉ s
  terminated : t.bytes (t.start + s.length) = 0
  inside : t.start + s.length < bufferLength

/-- The string ends in the buffer. -/
def Text.Ends (t : Text) : Prop := ∃ i, t.start ≤ i ∧ i < bufferLength ∧ t.bytes i = 0

/-- The shell runs the line: a `cat` command opens the file that is named after its first four
characters, any other command opens and runs the line itself, and no access goes beyond the
buffer. -/
structure Runs (line : List UInt8) (buffer : Buffer) (r : Round) : Prop where
  cat : r.cat = true ↔ catText <+: line
  opened : ∀ t ∈ r.opened, t.Is (line.drop t.start)
  printed : ∀ t ∈ r.printed, t.Ends
  stores : ∀ i ∈ r.buffer.stores, i ∈ buffer.stores ∨ i < bufferLength

/-- The index of the byte that has to be zero: the end of the line, and for a `cat` command at least
the index at which the name of the file starts. -/
def endIndex (line : List UInt8) : ℕ :=
  if catText <+: line then max 4 line.length else line.length

/-- The line never has 80 characters while it is typed. -/
def Fits (input : List UInt8) : Prop :=
  ∀ keys, keys <+: typed input → (edit [] keys).length < bufferLength

/-- The byte at the end of the line is free: it was zero before the line was typed, and while it was
typed there were never more characters. -/
structure EndFree (input : List UInt8) (buffer : Buffer) : Prop where
  zero : buffer.bytes (endIndex (edited input)) = 0
  short : ∀ keys, keys <+: typed input → (edit [] keys).length ≤ endIndex (edited input)

variable {input rest line keys : List UInt8} {buffer buffer' : Buffer} {n k : ℕ} {c : UInt8}

/-! ### Editing -/

theorem edit_cons (line : List UInt8) (c : UInt8) (keys : List UInt8) :
  edit line (c :: keys) = edit (if c = backspace then line.dropLast else line ++ [c]) keys
  := rfl

theorem zero_not_mem_dropLast (hline : 0 ∉ line) :
  0 ∉ line.dropLast
  := fun hmem => hline (List.mem_of_mem_dropLast hmem)

theorem zero_not_mem_concat (hline : 0 ∉ line) (hc : 0 ≠ c) :
  0 ∉ line ++ [c]
  := by
  intro hmem
  rcases List.mem_append.mp hmem with hmem | hmem
  · exact hline hmem
  · exact hc (List.mem_singleton.mp hmem)

theorem zero_not_mem_edit (hline : 0 ∉ line) (hkeys : 0 ∉ keys) :
  0 ∉ edit line keys
  := by
  induction keys generalizing line with
  | nil => exact hline
  | cons c keys ih =>
      obtain ⟨hc, hkeys⟩ := not_or.mp (List.mem_cons.not.mp hkeys)
      rw [edit_cons]
      apply ih _ hkeys
      split
      · exact zero_not_mem_dropLast hline
      · exact zero_not_mem_concat hline hc

theorem typed_newline (input : List UInt8) :
  typed (newline :: input) = []
  := List.takeWhile_cons_of_neg (by simp)

theorem typed_cons (h : c ≠ newline) (input : List UInt8) :
  typed (c :: input) = c :: typed input
  := List.takeWhile_cons_of_pos (by simpa using h)

/-- Every beginning of `c :: keys` is empty or begins with `c`. -/
theorem forall_prefix_cons {P : List UInt8 → Prop} :
  (∀ l, l <+: c :: keys → P l) ↔ P [] ∧ ∀ l, l <+: keys → P (c :: l)
  := by
  constructor
  · intro h
    exact ⟨h [] List.nil_prefix, fun l hl => h (c :: l) ((List.prefix_cons_inj c).mpr hl)⟩
  · rintro ⟨hnil, hcons⟩ l hl
    rcases List.prefix_cons_iff.mp hl with rfl | ⟨t, rfl, ht⟩
    · exact hnil
    · exact hcons t ht

/-! ### Reading a line -/

/-- The first bytes of the buffer are `text`. -/
def Holds (buffer : Buffer) (text : List UInt8) : Prop :=
  ∀ i, i < text.length → text[i]? = some (buffer.bytes i)

theorem Holds.ne_zero (h : Holds buffer line) (hzero : 0 ∉ line) {m : ℕ} (hm : m < line.length) :
  buffer.bytes m ≠ 0
  := by
  intro hbyte
  have hmem := List.mem_of_getElem? (h m hm)
  rw [hbyte] at hmem
  exact hzero hmem

theorem Holds.dropLast (h : Holds buffer line) :
  Holds buffer line.dropLast
  := by
  intro i hi
  rw [List.length_dropLast] at hi
  rw [List.getElem?_dropLast, if_pos hi]
  exact h i (by omega)

theorem Holds.concat (h : Holds buffer line) (c : UInt8) :
  Holds (buffer.store line.length c) (line ++ [c])
  := by
  intro i hi
  rw [List.length_append, List.length_singleton] at hi
  rcases Nat.lt_or_ge i line.length with hlt | hge
  · rw [List.getElem?_append_left hlt, h i hlt]
    exact congrArg some (Function.update_of_ne hlt.ne _ _).symm
  · obtain rfl : i = line.length := by omega
    have hbyte : (buffer.store line.length c).bytes line.length = c := Function.update_self _ _ _
    rw [List.getElem?_concat_length, hbyte]

/-- What the loop does with a character when the buffer holds `line`. -/
theorem readCmd_cases (h : readCmd (c :: input) buffer line.length = some (n, buffer', rest)) :
  ((c = newline ∨ bufferLength ≤ line.length) ∧ n = line.length ∧ buffer' = buffer ∧ rest = input)
  ∨ (c ≠ newline ∧ line.length < bufferLength ∧ c = backspace
    ∧ readCmd input buffer line.dropLast.length = some (n, buffer', rest))
  ∨ (c ≠ newline ∧ line.length < bufferLength ∧ c ≠ backspace
    ∧ readCmd input (buffer.store line.length c) (line ++ [c]).length = some (n, buffer', rest))
  := by
  rw [readCmd] at h
  split at h
  · rename_i hend
    obtain ⟨rfl, hrest⟩ := Prod.mk.inj (Option.some.inj h)
    obtain ⟨rfl, rfl⟩ := Prod.mk.inj hrest
    exact Or.inl ⟨hend, rfl, rfl, rfl⟩
  · rename_i hend
    obtain ⟨hnewline, hroom⟩ := not_or.mp hend
    right
    split at h
    · rename_i hbackspace
      have hlength : (if 0 < line.length then line.length - 1 else line.length)
          = line.dropLast.length := by
        rw [List.length_dropLast]
        split
        · rfl
        · omega
      rw [hlength] at h
      exact Or.inl ⟨hnewline, Nat.lt_of_not_le hroom, hbackspace, h⟩
    · rename_i hbackspace
      rw [← List.length_singleton (a := c), ← List.length_append] at h
      exact Or.inr ⟨hnewline, Nat.lt_of_not_le hroom, hbackspace, h⟩

/-- All stores of the loop are inside of the buffer. -/
theorem readCmd_stores :
  ∀ {input : List UInt8} {buffer : Buffer} {line : List UInt8},
    readCmd input buffer line.length = some (n, buffer', rest) →
    ∀ i ∈ buffer'.stores, i ∈ buffer.stores ∨ i < bufferLength
  | c :: input, buffer, line, h, i, hi => by
      obtain ⟨_, _, rfl, _⟩ | ⟨_, _, _, hnext⟩ | ⟨_, hroom, _, hnext⟩ := readCmd_cases h
      · exact Or.inl hi
      · exact readCmd_stores hnext i hi
      · rcases readCmd_stores hnext i hi with hbefore | hinside
        · rcases List.mem_append.mp hbefore with hbefore | hnew
          · exact Or.inl hbefore
          · right
            rw [List.mem_singleton.mp hnew]
            exact hroom
        · exact Or.inr hinside

/-- The characters after the line are some of those that were typed. -/
theorem readCmd_rest :
  ∀ {input : List UInt8} {buffer : Buffer} {line : List UInt8},
    readCmd input buffer line.length = some (n, buffer', rest) → rest <:+ input
  | c :: input, buffer, line, h => by
      obtain ⟨_, _, _, rfl⟩ | ⟨_, _, _, hnext⟩ | ⟨_, _, _, hnext⟩ := readCmd_cases h
      · exact List.suffix_cons c rest
      · exact (readCmd_rest hnext).trans (List.suffix_cons c input)
      · exact (readCmd_rest hnext).trans (List.suffix_cons c input)

/-- After a line of less than 80 characters the buffer begins with the edited line, and the byte
`m`, which is not part of it, is zero exactly when it was zero before and the line never had more
than `m` characters. -/
structure LineRead (line : List UInt8) (input : List UInt8) (buffer : Buffer) (n : ℕ)
    (buffer' : Buffer) : Prop where
  length : n = (edit line (typed input)).length
  holds : Holds buffer' (edit line (typed input))
  zero : ∀ m, n ≤ m → (buffer'.bytes m = 0
    ↔ buffer.bytes m = 0 ∧ ∀ keys, keys <+: typed input → (edit line keys).length ≤ m)

/-- A line that ends is in the buffer. -/
theorem lineRead_newline (hholds : Holds buffer line) (input : List UInt8) :
  LineRead line (newline :: input) buffer line.length buffer
  := by
  constructor
  · rw [typed_newline]
    rfl
  · rw [typed_newline]
    exact hholds
  · intro m hm
    rw [typed_newline]
    constructor
    · intro hzero
      refine ⟨hzero, ?_⟩
      intro keys hkeys
      rw [List.prefix_nil.mp hkeys]
      exact hm
    · exact fun h => h.1

/-- A backspace takes away the last character of the line. -/
theorem lineRead_backspace (hline : 0 ∉ line) (hholds : Holds buffer line)
    (h : LineRead line.dropLast input buffer n buffer') :
  LineRead line (backspace :: input) buffer n buffer'
  := by
  have htyped : typed (backspace :: input) = backspace :: typed input :=
    typed_cons (by decide) input
  constructor
  · rw [htyped]
    exact h.length
  · rw [htyped]
    exact h.holds
  · intro m hm
    rw [htyped, forall_prefix_cons, h.zero m hm]
    constructor
    · rintro ⟨hzero, hshort⟩
      refine ⟨hzero, ?_, hshort⟩
      by_contra hlong
      exact hholds.ne_zero hline (Nat.lt_of_not_le hlong) hzero
    · rintro ⟨hzero, _, hshort⟩
      exact ⟨hzero, hshort⟩

/-- Any other character is appended to the line. -/
theorem lineRead_character (hnewline : c ≠ newline) (hbackspace : c ≠ backspace)
    (h : LineRead (line ++ [c]) input (buffer.store line.length c) n buffer') :
  LineRead line (c :: input) buffer n buffer'
  := by
  have htyped : typed (c :: input) = c :: typed input := typed_cons hnewline input
  have hedit : ∀ keys, edit line (c :: keys) = edit (line ++ [c]) keys := by
    intro keys
    rw [edit_cons, if_neg hbackspace]
  constructor
  · rw [htyped, hedit]
    exact h.length
  · rw [htyped, hedit]
    exact h.holds
  · intro m hm
    have hbyte : m ≠ line.length → (buffer.store line.length c).bytes m = buffer.bytes m :=
      fun hne => Function.update_of_ne hne _ _
    have hself : (buffer.store line.length c).bytes line.length = c := Function.update_self _ _ _
    rw [htyped, forall_prefix_cons, h.zero m hm]
    simp only [hedit]
    constructor
    · rintro ⟨hzero, hshort⟩
      have hlt := hshort [] List.nil_prefix
      rw [edit, List.foldl_nil, List.length_append, List.length_singleton] at hlt
      rw [hbyte (by omega)] at hzero
      exact ⟨hzero, Nat.le_of_succ_le hlt, hshort⟩
    · rintro ⟨hzero, _, hshort⟩
      refine ⟨?_, hshort⟩
      by_cases hm' : m = line.length
      · have hlt := hshort [] List.nil_prefix
        rw [edit, List.foldl_nil, List.length_append, List.length_singleton] at hlt
        omega
      · rw [hbyte hm']
        exact hzero

/-- The loop leaves the edited line in the buffer. -/
theorem readCmd_spec :
  ∀ {input : List UInt8} {buffer : Buffer} {line : List UInt8},
    0 ∉ input → 0 ∉ line → Holds buffer line →
    readCmd input buffer line.length = some (n, buffer', rest) → n < bufferLength →
    LineRead line input buffer n buffer'
  | c :: input, buffer, line, hinput, hline, hholds, h, hn => by
      obtain ⟨hc, hkeys⟩ := not_or.mp (List.mem_cons.not.mp hinput)
      obtain ⟨hend, rfl, rfl, _⟩ | ⟨_, _, rfl, hnext⟩ | ⟨hnewline, _, hbackspace, hnext⟩ :=
        readCmd_cases h
      · obtain rfl := hend.resolve_right (Nat.not_le_of_lt hn)
        exact lineRead_newline hholds input
      · apply lineRead_backspace hline hholds
        exact readCmd_spec hkeys (zero_not_mem_dropLast hline) hholds.dropLast hnext hn
      · apply lineRead_character hnewline hbackspace
        exact readCmd_spec hkeys (zero_not_mem_concat hline hc) (hholds.concat c) hnext hn

/-- The loop ends with less than 80 characters when the line never has more. -/
theorem readCmd_fits :
  ∀ {input : List UInt8} {buffer : Buffer} {line : List UInt8},
    readCmd input buffer line.length = some (n, buffer', rest) →
    (n < bufferLength ↔ ∀ keys, keys <+: typed input → (edit line keys).length < bufferLength)
  | c :: input, buffer, line, h => by
      obtain ⟨rfl | hfull, rfl, _, _⟩ | ⟨hnewline, hroom, rfl, hnext⟩ |
        ⟨hnewline, hroom, hbackspace, hnext⟩ := readCmd_cases h
      · rw [typed_newline]
        constructor
        · intro hn keys hkeys
          rw [List.prefix_nil.mp hkeys]
          exact hn
        · exact fun hfits => hfits [] List.nil_prefix
      · constructor
        · exact fun hn => absurd hfull (Nat.not_le_of_lt hn)
        · exact fun hfits => hfits [] List.nil_prefix
      · have hfirst : (edit line []).length < bufferLength := hroom
        rw [typed_cons hnewline, forall_prefix_cons, and_iff_right hfirst]
        exact readCmd_fits hnext
      · have hfirst : (edit line []).length < bufferLength := hroom
        rw [typed_cons hnewline, forall_prefix_cons, and_iff_right hfirst]
        simp only [edit_cons, if_neg hbackspace]
        exact readCmd_fits hnext

/-- A line of 80 characters leaves no zero in the buffer. -/
theorem readCmd_full :
  ∀ {input : List UInt8} {buffer : Buffer} {line : List UInt8},
    0 ∉ input → 0 ∉ line → Holds buffer line →
    readCmd input buffer line.length = some (n, buffer', rest) → bufferLength ≤ n →
    ∀ i, i < bufferLength → buffer'.bytes i ≠ 0
  | c :: input, buffer, line, hinput, hline, hholds, h, hn, i, hi => by
      obtain ⟨hc, hkeys⟩ := not_or.mp (List.mem_cons.not.mp hinput)
      obtain ⟨_, rfl, rfl, _⟩ | ⟨_, _, _, hnext⟩ | ⟨_, _, _, hnext⟩ := readCmd_cases h
      · exact hholds.ne_zero hline (hi.trans_le hn)
      · exact readCmd_full hkeys (zero_not_mem_dropLast hline) hholds.dropLast hnext hn i hi
      · exact readCmd_full hkeys (zero_not_mem_concat hline hc) (hholds.concat c) hnext hn i hi

/-! ### Running a line -/

theorem memcmp_eq_zero :
  ∀ (text : List UInt8) (bytes : Bytes) (i : ℕ),
    memcmp text bytes i = 0 ↔ ∀ j, j < text.length → text[j]? = some (bytes (i + j))
  | [], _, _ => by
      constructor
      · exact fun _ j hj => absurd hj (Nat.not_lt_zero j)
      · exact fun _ => rfl
  | c :: text, bytes, i => by
      rw [memcmp]
      by_cases hfirst : c = bytes i
      · rw [if_neg (not_not.mpr ((bmod_byte_sub c (bytes i)).mpr hfirst)),
          memcmp_eq_zero text bytes (i + 1)]
        constructor
        · intro h j hj
          cases j with
          | zero => exact congrArg some hfirst
          | succ j =>
              rw [List.getElem?_cons_succ, h j (Nat.lt_of_succ_lt_succ hj), Nat.add_right_comm]
              rfl
        · intro h j hj
          have hnext := h (j + 1) (Nat.succ_lt_succ hj)
          rw [List.getElem?_cons_succ] at hnext
          rw [hnext, Nat.add_right_comm]
          rfl
      · have hres := (bmod_byte_sub c (bytes i)).not.mpr hfirst
        rw [if_pos hres]
        apply iff_of_false hres
        intro h
        exact hfirst (Option.some.inj (h 0 (Nat.succ_pos _)))

/-- The comparison of a text with the buffer is the `memcmp` of the two areas of memory. -/
theorem memcmp_bytesAt :
  ∀ {text : List UInt8} {buffer b : Bytes} {i p q : ℕ},
    bytesAt b text.length p = text → (∀ j, j < text.length → b (q + j) = buffer (i + j)) →
    LarvaOS.memcmp text.length b p q = memcmp text buffer i
  | [], _, _, _, _, _, _, _ => rfl
  | c :: text, buffer, b, i, p, q, htext, hbuffer => by
      rw [List.length_cons, bytesAt] at htext
      obtain ⟨hc, hrest⟩ := List.cons.inj htext
      have hfirst := hbuffer 0 (Nat.succ_pos _)
      rw [Nat.add_zero, Nat.add_zero] at hfirst
      rw [List.length_cons, LarvaOS.memcmp, memcmp, hc, hfirst, memcmp_bytesAt hrest]
      intro j hj
      rw [Nat.add_right_comm, Nat.add_right_comm i]
      exact hbuffer (j + 1) (Nat.succ_lt_succ hj)

/-- `memcmp` compares the text with the beginning of the buffer. -/
theorem memcmp_buffer (text : List UInt8) (buffer : Buffer) :
  memcmp text buffer.bytes 0 = 0 ↔ Holds buffer text
  := by
  rw [memcmp_eq_zero]
  simp only [Nat.zero_add]
  rfl

/-- A text that is not longer than the line is in the buffer exactly when the line begins with it. -/
theorem Holds.iff_prefix (h : Holds buffer line) {text : List UInt8}
    (hlength : text.length ≤ line.length) :
  Holds buffer text ↔ text <+: line
  := by
  rw [List.prefix_iff_getElem?]
  constructor
  · intro htext i hi
    rw [h i (hi.trans_le hlength), ← htext i hi, List.getElem?_eq_getElem hi]
  · intro hpre i hi
    rw [List.getElem?_eq_getElem hi, ← hpre i hi, h i (hi.trans_le hlength)]

/-- The bytes from `k` on are the rest of the line exactly when the byte after it is zero. -/
theorem Text.is_drop_iff (hholds : Holds buffer line) (hzero : 0 ∉ line) {k : ℕ}
    (hinside : max k line.length < bufferLength) :
  Text.Is ⟨buffer.bytes, k⟩ (line.drop k) ↔ buffer.bytes (max k line.length) = 0
  := by
  have hend : k + (line.drop k).length = max k line.length := by
    rw [List.length_drop]
    omega
  constructor
  · intro h
    have hterminated := h.terminated
    dsimp only at hterminated
    rwa [hend] at hterminated
  · intro h
    constructor
    · intro i hi
      rw [List.length_drop] at hi
      rw [List.getElem?_drop]
      exact hholds (k + i) (by omega)
    · exact fun hmem => hzero (List.mem_of_mem_drop hmem)
    · dsimp only
      rw [hend]
      exact h
    · dsimp only
      rw [hend]
      exact hinside

/-- Cutting the line keeps the zero after it. -/
theorem store_zero (h : buffer.bytes k = 0) :
  (buffer.store n 0).bytes k = 0
  := by
  by_cases hk : k = n
  · rw [hk]
    exact Function.update_self _ _ _
  · exact (Function.update_of_ne hk _ _).trans h

theorem store_stores {stores : List ℕ} (h : ∀ i ∈ buffer'.stores, i ∈ stores ∨ i < bufferLength)
    (hn : n < bufferLength) :
  ∀ i ∈ (buffer'.store n 0).stores, i ∈ stores ∨ i < bufferLength
  := by
  intro i hi
  rcases List.mem_append.mp hi with hbefore | hnew
  · exact h i hbefore
  · right
    rw [List.mem_singleton.mp hnew]
    exact hn

variable {answers : Answers}

/-- The shell runs a `cat` command exactly when there is a zero at the end of the name. -/
theorem runs_catCommand (hholds : Holds buffer' line) (hzero : 0 ∉ line) (hcat : catText <+: line)
    (hlength : line.length < bufferLength)
    (hstores : ∀ i ∈ buffer'.stores, i ∈ buffer.stores ∨ i < bufferLength) :
  Runs line buffer (catCommand answers line.length buffer' input)
  ↔ buffer'.bytes (max 4 line.length) = 0
  := by
  have hinside : max 4 line.length < bufferLength := max_lt (by decide) hlength
  have hname := Text.is_drop_iff hholds hzero hinside
  rw [← hname]
  rw [catCommand]
  split
  · constructor
    · exact fun h => h.opened _ (List.mem_singleton_self _)
    · intro h
      refine ⟨iff_of_true rfl hcat, ?_, ?_, hstores⟩
      · intro t ht
        rw [List.mem_singleton.mp ht]
        exact h
      · intro t ht
        dsimp only at ht
        split at ht
        · exact absurd ht List.not_mem_nil
        · rw [List.mem_singleton.mp ht]
          exact ⟨_, le_max_left 4 _, hinside, hname.mp h⟩
  · constructor
    · exact fun h => h.opened _ (List.mem_singleton_self _)
    · intro h
      refine ⟨iff_of_true rfl hcat, ?_, ?_, store_stores hstores hlength⟩
      · intro t ht
        rw [List.mem_singleton.mp ht]
        exact h
      · intro t ht
        rw [List.mem_singleton.mp ht]
        exact ⟨_, le_max_left 4 _, hinside, store_zero (hname.mp h)⟩

/-- The shell runs a program exactly when there is a zero at the end of the line. -/
theorem runs_programCommand (hholds : Holds buffer' line) (hzero : 0 ∉ line)
    (hcat : ¬ catText <+: line) (hlength : line.length < bufferLength)
    (hstores : ∀ i ∈ buffer'.stores, i ∈ buffer.stores ∨ i < bufferLength) :
  Runs line buffer (programCommand answers line.length buffer' input)
  ↔ buffer'.bytes line.length = 0
  := by
  have hinside : max 0 line.length < bufferLength := max_lt (by decide) hlength
  have hname := Text.is_drop_iff hholds hzero hinside
  rw [Nat.zero_max] at hinside hname
  rw [← hname]
  rw [programCommand]
  split
  · constructor
    · exact fun h => h.opened _ List.mem_cons_self
    · intro h
      refine ⟨iff_of_false Bool.false_ne_true hcat, ?_, ?_, hstores⟩
      · intro t ht
        rcases List.mem_cons.mp ht with rfl | ht
        · exact h
        · rw [List.mem_singleton.mp ht]
          exact h
      · exact fun t ht => absurd ht List.not_mem_nil
  · constructor
    · exact fun h => h.opened _ List.mem_cons_self
    · intro h
      refine ⟨iff_of_false Bool.false_ne_true hcat, ?_, ?_, store_stores hstores hlength⟩
      · intro t ht
        rw [List.mem_singleton.mp ht]
        exact h
      · intro t ht
        rw [List.mem_singleton.mp ht]
        exact ⟨_, Nat.zero_le _, hinside, store_zero (hname.mp h)⟩

/-- A round that opens no file runs a line that is not a `cat` command. -/
theorem runs_noFile (hcat : ¬ catText <+: line)
    (hstores : ∀ i ∈ buffer'.stores, i ∈ buffer.stores ∨ i < bufferLength) :
  Runs line buffer (noFile n buffer' input)
  := by
  refine ⟨iff_of_false Bool.false_ne_true hcat, ?_, ?_, hstores⟩
  · exact fun t ht => absurd ht List.not_mem_nil
  · exact fun t ht => absurd ht List.not_mem_nil

/-- The buffer begins with `mem` and the line has three characters exactly when the line is `mem`. -/
theorem parseCmd_neg_iff (hholds : Holds buffer line) :
  parseCmd buffer.bytes line.length < 0 ↔ line ≠ memText
  := by
  have hmem : (line.length = 3 ∧ memcmp memText buffer.bytes 0 = 0) ↔ line = memText := by
    rw [memcmp_buffer]
    constructor
    · rintro ⟨hlength, htext⟩
      have hle : memText.length ≤ line.length := hlength.ge
      have hpre := (hholds.iff_prefix hle).mp htext
      exact (hpre.eq_of_length hlength.symm).symm
    · rintro rfl
      exact ⟨rfl, hholds⟩
  rw [parseCmd, ne_eq, ← hmem]
  split
  · rename_i h
    exact iff_of_false (Int.lt_irrefl 0) (not_not.mpr h)
  · rename_i h
    exact iff_of_true (by decide) h

/-- After a line of less than 80 characters the shell runs it exactly when it is empty, when it is
`mem`, or when there is a zero at its end. -/
theorem runs_command (hholds : Holds buffer' line) (hzero : 0 ∉ line)
    (hlength : line.length < bufferLength)
    (hstores : ∀ i ∈ buffer'.stores, i ∈ buffer.stores ∨ i < bufferLength) :
  Runs line buffer (command answers line.length buffer' input)
  ↔ (line = [] ∨ line = memText) ∨ buffer'.bytes (endIndex line) = 0
  := by
  rw [command]
  split
  · rename_i hempty
    have hline := List.length_eq_zero_iff.mp hempty
    apply iff_of_true _ (Or.inl (Or.inl hline))
    apply runs_noFile _ hstores
    rw [hline]
    decide
  · rename_i hempty
    have hline : line ≠ [] := fun h => hempty (List.length_eq_zero_iff.mpr h)
    split
    · rename_i hcompare
      have htext := (memcmp_buffer catText buffer').mp hcompare
      by_cases hcat : catText <+: line
      · have hmem : line ≠ memText := by
          rintro rfl
          exact absurd hcat (by decide)
        rw [runs_catCommand hholds hzero hcat hlength hstores, endIndex, if_pos hcat]
        rw [or_iff_right (not_or.mpr ⟨hline, hmem⟩)]
      · have hshort : line.length < catText.length := by
          by_contra hlong
          exact hcat ((hholds.iff_prefix (Nat.le_of_not_lt hlong)).mp htext)
        have hmem : line ≠ memText := by
          rintro rfl
          exact absurd hshort (by decide)
        rw [endIndex, if_neg hcat]
        apply iff_of_false
        · intro h
          apply hcat
          apply h.cat.mp
          rw [catCommand]
          split
          · rfl
          · rfl
        · apply not_or.mpr
          exact ⟨not_or.mpr ⟨hline, hmem⟩, htext.ne_zero (by decide) hshort⟩
    · rename_i hcompare
      have hcat : ¬ catText <+: line := fun h =>
        hcompare ((memcmp_buffer catText buffer').mpr ((hholds.iff_prefix h.length_le).mpr h))
      split
      · rename_i hparse
        have hmem := (parseCmd_neg_iff hholds).mp hparse
        rw [runs_programCommand hholds hzero hcat hlength hstores, endIndex, if_neg hcat]
        rw [or_iff_right (not_or.mpr ⟨hline, hmem⟩)]
      · rename_i hparse
        have hmem := not_not.mp ((parseCmd_neg_iff hholds).not.mp hparse)
        exact iff_of_true (runs_noFile hcat hstores) (Or.inl (Or.inr hmem))

/-- A line of 80 characters is not run: no string of the buffer ends. -/
theorem not_runs_full (hn : bufferLength ≤ n)
    (hfull : ∀ i, i < bufferLength → buffer'.bytes i ≠ 0) :
  ¬ Runs line buffer (command answers n buffer' input)
  := by
  have hname : ∀ k s, ¬ Text.Is ⟨buffer'.bytes, k⟩ s :=
    fun k s h => hfull _ h.inside h.terminated
  have hparse : parseCmd buffer'.bytes n = -1 := by
    rw [parseCmd, if_neg]
    rintro ⟨rfl, _⟩
    exact absurd hn (by decide)
  have hempty : n ≠ 0 := by
    rintro rfl
    exact absurd hn (by decide)
  intro h
  rw [command, if_neg hempty, hparse] at h
  split at h
  · rw [catCommand] at h
    split at h
    · exact hname _ _ (h.opened _ (List.mem_singleton_self _))
    · exact hname _ _ (h.opened _ (List.mem_singleton_self _))
  · rw [if_pos (by decide), programCommand] at h
    split at h
    · exact hname _ _ (h.opened _ List.mem_cons_self)
    · exact hname _ _ (h.opened _ List.mem_cons_self)

/-! ### All lines -/

theorem command_input (n : ℕ) (buffer : Buffer) (input : List UInt8) :
  (command answers n buffer input).input = input
  := by
  rw [command]
  split
  · rfl
  · split
    · rw [catCommand]
      split
      · rfl
      · rfl
    · split
      · rw [programCommand]
        split
        · rfl
        · rfl
      · rfl

theorem round_eq_some {r : Round} (h : round answers input buffer = some r) :
  ∃ n buffer' rest, readCmd input buffer ([] : List UInt8).length = some (n, buffer', rest)
    ∧ r = command answers n buffer' rest
  := by
  obtain ⟨⟨n, buffer', rest⟩, hread, rfl⟩ := Option.map_eq_some_iff.mp h
  exact ⟨n, buffer', rest, hread, rfl⟩

/-- The rounds read the characters in order. -/
theorem rounds_rest :
  ∀ {os : List Answers} {input : List UInt8} {buffer : Buffer},
    rounds os input buffer = some (rest, buffer') → rest <:+ input
  | [], input, buffer, h => by
      obtain ⟨rfl, _⟩ := Prod.mk.inj (Option.some.inj h)
      exact List.suffix_refl input
  | answers :: os, input, buffer, h => by
      obtain ⟨r, hround, hrounds⟩ := Option.bind_eq_some_iff.mp h
      obtain ⟨n, next, after, hread, rfl⟩ := round_eq_some hround
      apply (rounds_rest hrounds).trans
      rw [command_input]
      exact readCmd_rest hread

/-- After any lines the shell runs the next line, which has at most 79 characters, exactly when the
line never has 80 characters and is empty or `mem`, or the byte at its end is free. -/
theorem shell_line_iff {os : List Answers} {b : Bytes} {r : Round} (hzero : 0 ∉ input)
    (hrounds : rounds os input (startBuffer b) = some (rest, buffer))
    (hround : round answers rest buffer = some r) (hlength : (edited rest).length < bufferLength) :
  Runs (edited rest) buffer r
  ↔ (Fits rest ∧ (edited rest = [] ∨ edited rest = memText)) ∨ EndFree rest buffer
  := by
  have hrest : 0 ∉ rest := fun hmem => hzero ((rounds_rest hrounds).subset hmem)
  obtain ⟨n, buffer', after, hread, rfl⟩ := round_eq_some hround
  have hnil : Holds buffer [] := fun i hi => absurd hi (Nat.not_lt_zero i)
  have hstores := readCmd_stores hread
  have hfits : n < bufferLength ↔ Fits rest := readCmd_fits hread
  by_cases hn : n < bufferLength
  · obtain ⟨rfl, hholds, hend⟩ := readCmd_spec hrest List.not_mem_nil hnil hread hn
    have hline : 0 ∉ edited rest :=
      zero_not_mem_edit List.not_mem_nil (fun hmem => hrest (List.takeWhile_subset _ hmem))
    have hle : (edited rest).length ≤ endIndex (edited rest) := by
      rw [endIndex]
      split
      · exact le_max_right 4 _
      · exact le_refl _
    have hfree : EndFree rest buffer ↔ buffer'.bytes (endIndex (edited rest)) = 0 := by
      rw [hend _ hle]
      exact ⟨fun h => ⟨h.zero, h.short⟩, fun h => ⟨h.1, h.2⟩⟩
    rw [hfree, and_iff_right (hfits.mp hn)]
    exact runs_command hholds hline hlength hstores
  · apply iff_of_false
    · apply not_runs_full (Nat.le_of_not_lt hn)
      exact readCmd_full hrest List.not_mem_nil hnil hread (Nat.le_of_not_lt hn)
    · rintro (⟨h, _⟩ | h)
      · exact hn (hfits.mpr h)
      · apply hn
        apply hfits.mpr
        intro keys hkeys
        apply (h.short keys hkeys).trans_lt
        rw [endIndex]
        split
        · exact max_lt (by decide) hlength
        · exact hlength

/-- After a line `ls` the shell runs the line `ab`. -/
theorem shell_line_small :
  ∃ r, round ⟨true, true⟩ [0x61, 0x62, newline]
      ((((startBuffer fun _ => 0).store 0 0x6C).store 1 0x73).store 2 0) = some r
    ∧ Runs [0x61, 0x62] ((((startBuffer fun _ => 0).store 0 0x6C).store 1 0x73).store 2 0) r
  := by
  have hrounds : rounds [⟨false, false⟩] [0x6C, 0x73, newline, 0x61, 0x62, newline]
      (startBuffer fun _ => 0) = some ([0x61, 0x62, newline],
        (((startBuffer fun _ => 0).store 0 0x6C).store 1 0x73).store 2 0) := rfl
  refine ⟨_, rfl, ?_⟩
  apply (shell_line_iff (by decide) hrounds rfl (by decide)).mpr
  right
  constructor
  · decide
  · intro keys hkeys
    have hshort : ∀ keys ∈ (typed [0x61, 0x62, newline]).inits, (edit [] keys).length ≤ 2 := by
      decide
    exact hshort keys ((List.mem_inits _ _).mpr hkeys)

/-- After the line `hello`, which is not the name of a file, the line `ls` opens `lsllo`. -/
theorem not_shell_line :
  ¬ ∀ (os : List Answers) (b : Bytes) (answers : Answers) (input rest : List UInt8)
      (buffer : Buffer) (r : Round),
    0 ∉ input → rounds os input (startBuffer b) = some (rest, buffer) →
    round answers rest buffer = some r → (edited rest).length < bufferLength →
    Runs (edited rest) buffer r
  := by
  intro h
  have hruns := h [⟨false, false⟩] (fun _ => 0) ⟨false, false⟩
    [0x68, 0x65, 0x6C, 0x6C, 0x6F, newline, 0x6C, 0x73, newline] _ _ _ (by decide) rfl rfl
    (by decide)
  have hend := (hruns.opened _ (List.mem_singleton_self _)).terminated
  exact absurd hend (by decide)

end Shell

end LarvaOS
