import LarvaOS.Common
import LarvaOS.Library.Bytes
import Mathlib.Data.List.TakeWhile

/-!
# Printing

`printk` of the kernel and `printf` of the programs expand a format in the same way,
into a buffer of 1024 bytes.  `printk` hands the buffer to `WriteVGA`, and `printf` to
the system call `write`, which hands it to `printk` as a format.  Strings are the bytes
before the terminating zero.  The variable arguments are a sequence of words, and
`strings` are the strings at the addresses of the memory in use.
-/

namespace LarvaOS

/-! ### The expansion of a format -/

/-- `PRINT_MAX_BUFFER_SIZE`. -/
def printMaxBufferSize : ℕ := 1024

/-- The character `%`. -/
def percent : UInt8 := 0x25

/-- The digits that the loop of `WriteHexToBuffer` and of `WriteUDecimalToBuffer` puts in
`digits_buffer`, from the lowest on; the first argument is the room in the buffer. -/
def digitsBuffer (base : ℕ) : ℕ → ℕ → List ℕ
  | 0, _ => []
  | n + 1, integer =>
      integer % base :: if integer / base ≠ 0 then digitsBuffer base n (integer / base) else []

/-- `digits_map`. -/
def digitsMap (d : ℕ) : UInt8 := UInt8.ofNat (if d < 10 then 0x30 + d else 0x41 + (d - 10))

/-- `WriteHexToBuffer`. -/
def writeHexToBuffer (integer : ℕ) : List UInt8 :=
  0x30 :: 0x78 :: ((digitsBuffer 16 25 integer).map digitsMap).reverse

/-- `WriteUDecimalToBuffer`. -/
def writeUDecimalToBuffer (integer : ℕ) : List UInt8 :=
  ((digitsBuffer 10 25 integer).map digitsMap).reverse

/-- `WriteDecimalToBuffer`, for a word that holds a signed number. -/
def writeDecimalToBuffer (integer : ℕ) : List UInt8 :=
  if 2 ^ 63 ≤ integer then 0x2D :: writeUDecimalToBuffer ((2 ^ 64 - integer) % 2 ^ 64)
  else writeUDecimalToBuffer integer

/-- The conversion characters `x`, `u`, `d` and `s`. -/
def specifiers : List UInt8 := [0x78, 0x75, 0x64, 0x73]

/-- What the branches of the loop of `printk` write for a conversion character. -/
def conversion (strings : ℕ → List UInt8) (c : UInt8) (arg : ℕ) : Option (List UInt8) :=
  if c = 0x78 then some (writeHexToBuffer arg)
  else if c = 0x75 then some (writeUDecimalToBuffer arg)
  else if c = 0x64 then some (writeDecimalToBuffer arg)
  else if c = 0x73 then some (strings arg)
  else none

/-- The loop of `printk` and of `printf` over the format. A `%` before another character,
or at the end, is written, and the loop goes on with the character after it. -/
def formatLoop (strings : ℕ → List UInt8) : List UInt8 → (ℕ → ℕ) → List UInt8
  | [], _ => []
  | [c], _ => [c]
  | c :: d :: format, args =>
      if c ≠ percent then
        c :: formatLoop strings (d :: format) args
      else
        match conversion strings d (args 0) with
        | some bytes => bytes ++ formatLoop strings format (fun n => args (n + 1))
        | none => percent :: formatLoop strings (d :: format) args

/-! ### The screen -/

/-- `struct ScreenBuffer`. -/
structure ScreenBuffer where
  buffer : Bytes
  column : ℕ
  row : ℕ

/-- `LINE_SIZE`. -/
def lineSize : ℕ := 80 * 2

/-- `DEFAULT_COLOR`. -/
def defaultColor : UInt8 := 0xA

namespace ScreenBuffer

/-- The screen moves up by one line. -/
def scroll (s : ScreenBuffer) : ScreenBuffer where
  buffer o :=
    if o < lineSize * 24 then s.buffer (o + lineSize)
    else if o < lineSize * 25 then 0
    else s.buffer o
  column := s.column
  row := s.row - 1

/-- Store a character and its color. -/
def put (s : ScreenBuffer) (column row : ℕ) (c color : UInt8) : ScreenBuffer :=
  let o := column * 2 + row * lineSize
  { s with buffer := Function.update (Function.update s.buffer o c) (o + 1) color }

/-- The body of the loop of `WriteVGA`. -/
def writeByte (s : ScreenBuffer) (c : UInt8) : ScreenBuffer :=
  let s := if 25 ≤ s.row then s.scroll else s
  if c = 0x0A then
    { s with column := 0, row := s.row + 1 }
  else if c = 0x08 then
    if s.column = 0 ∧ s.row = 0 then s
    else
      let row := if s.column = 0 then s.row - 1 else s.row
      let column := (if s.column = 0 then 80 else s.column) - 1
      { s.put column row 0 0 with column := column, row := row }
  else
    let column := s.column + 1
    let t := s.put s.column s.row c defaultColor
    if 80 ≤ column then { t with column := 0, row := s.row + 1 }
    else { t with column := column }

/-- `WriteVGA`. -/
def writeVGA (s : ScreenBuffer) (bytes : List UInt8) : ScreenBuffer := bytes.foldl writeByte s

end ScreenBuffer

/-! ### The functions that print -/

/-- The bytes that reach `WriteVGA`, and the screen afterwards. -/
structure Printed where
  bytes : List UInt8
  screen : ScreenBuffer

/-- `printk`. It is `none` when the expansion does not fit the buffer. -/
def printk (strings : ℕ → List UInt8) (format : List UInt8) (args : ℕ → ℕ)
    (screen : ScreenBuffer) : Option Printed := do
  let buffer := formatLoop strings format args
  assert (buffer.length ≤ printMaxBufferSize)
  some ⟨buffer, screen.writeVGA buffer⟩

/-- `SysWrite`, for a buffer that holds the string `buffer`. The arguments that `printk`
finds are what the registers and the stack hold. -/
def sysWrite (strings : ℕ → List UInt8) (args : ℕ → ℕ) (buffer : List UInt8) (length : Int)
    (screen : ScreenBuffer) : Option (Int × Printed) :=
  (printk strings buffer args screen).map (fun printed => (int32 length, printed))

/-- The string at the start of a buffer that is filled up with zeros. -/
def bufferString (buffer : List UInt8) : List UInt8 := buffer.takeWhile (· ≠ 0)

/-- `printf` of the user runtime. It is `none` when the expansion and the terminating zero
do not fit the buffer. -/
def printf (strings : ℕ → List UInt8) (format : List UInt8) (args : ℕ → ℕ)
    (kernelStrings : ℕ → List UInt8) (kernelArgs : ℕ → ℕ) (screen : ScreenBuffer) :
    Option (Int × Printed) := do
  let buffer := formatLoop strings format args
  assert (buffer.length < printMaxBufferSize)
  sysWrite kernelStrings kernelArgs (bufferString buffer) buffer.length screen

/-! ### Texts that are printed as they are -/

/-- The text has no `%` before a conversion character. -/
def Plain (text : List UInt8) : Prop := ∀ d ∈ specifiers, ¬ [percent, d] <:+: text

instance (text : List UInt8) : Decidable (Plain text) :=
  inferInstanceAs (Decidable (∀ d ∈ specifiers, ¬ [percent, d] <:+: text))

variable {strings : ℕ → List UInt8} {args : ℕ → ℕ} {text : List UInt8} {c d : UInt8}

theorem conversion_eq_none {arg : ℕ} :
  conversion strings d arg = none ↔ d ∉ specifiers
  := by
  unfold conversion specifiers
  split
  · simp_all
  · split
    · simp_all
    · split
      · simp_all
      · split
        · simp_all
        · simp_all

theorem Plain.tail (h : Plain (c :: text)) :
  Plain text
  := fun d hd hinside => h d hd (hinside.trans (List.suffix_cons c text).isInfix)

theorem plain_of_length (h : text.length < 2) :
  Plain text
  := fun _ _ hinside => absurd hinside.length_le (Nat.not_le.mpr h)

theorem plain_cons :
  Plain (c :: d :: text) ↔ ¬ (c = percent ∧ d ∈ specifiers) ∧ Plain (d :: text)
  := by
  constructor
  · intro h
    refine ⟨?_, h.tail⟩
    rintro ⟨rfl, hd⟩
    exact h d hd ⟨[], text, rfl⟩
  · rintro ⟨hnot, h⟩ e he hinside
    rcases List.infix_cons_iff.mp hinside with hpre | hinside
    · obtain ⟨rest, hrest⟩ := hpre
      obtain ⟨hc, hrest⟩ := List.cons.inj hrest
      obtain ⟨hd, _⟩ := List.cons.inj hrest
      exact hnot ⟨hc.symm, hd ▸ he⟩
    · exact h e he hinside

theorem plain_or (strings : ℕ → List UInt8) (c d : UInt8) (arg : ℕ) (text : List UInt8) :
  (c = percent ∧ ∃ bytes, conversion strings d arg = some bytes)
    ∨ ((c = percent → conversion strings d arg = none)
        ∧ (Plain (c :: d :: text) ↔ Plain (d :: text)))
  := by
  by_cases h : c = percent ∧ d ∈ specifiers
  · left
    use h.1
    apply Option.ne_none_iff_exists'.mp
    rw [Ne, conversion_eq_none]
    exact not_not.mpr h.2
  · right
    constructor
    · intro hc
      rw [conversion_eq_none]
      exact fun hd => h ⟨hc, hd⟩
    · rw [plain_cons]
      exact and_iff_right h

theorem formatLoop_step (h : c = percent → conversion strings d (args 0) = none) :
  formatLoop strings (c :: d :: text) args = c :: formatLoop strings (d :: text) args
  := by
  rw [formatLoop]
  by_cases hc : c = percent
  · rw [if_neg (not_not.mpr hc), h hc, hc]
  · rw [if_pos hc]

/-- A plain text is printed as it is, whatever the arguments are. -/
theorem formatLoop_plain (strings : ℕ → List UInt8) (args : ℕ → ℕ) (h : Plain text) :
  formatLoop strings text args = text
  := by
  induction text with
  | nil => rfl
  | cons c text ih =>
      cases text with
      | nil => rfl
      | cons d text =>
          rw [formatLoop_step, ih h.tail]
          intro hc
          rw [conversion_eq_none]
          exact fun hd => (plain_cons.mp h).1 ⟨hc, hd⟩

/-- Arguments whose conversions are longer than the two characters for which they are
written. -/
def longArgs (_ : ℕ) : ℕ := 1234

/-- Strings of four characters. -/
def longStrings (_ : ℕ) : List UInt8 := [0x61, 0x61, 0x61, 0x61]

theorem length_conversion {bytes : List UInt8} (h : conversion longStrings d 1234 = some bytes) :
  2 < bytes.length
  := by
  unfold conversion at h
  split at h
  · obtain rfl := Option.some.inj h
    decide
  · split at h
    · obtain rfl := Option.some.inj h
      decide
    · split at h
      · obtain rfl := Option.some.inj h
        decide
      · split at h
        · obtain rfl := Option.some.inj h
          decide
        · cases h

/-- There are arguments for which a text that is not plain becomes longer. -/
theorem length_formatLoop (text : List UInt8) :
  text.length ≤ (formatLoop longStrings text longArgs).length
    ∧ (¬ Plain text → text.length < (formatLoop longStrings text longArgs).length)
  := by
  induction hn : text.length using Nat.strong_induction_on generalizing text with
  | _ n ih =>
  match text, hn with
  | [], rfl => exact ⟨le_rfl, fun h => (h (plain_of_length (by decide))).elim⟩
  | [c], rfl => exact ⟨le_rfl, fun h => (h (plain_of_length Nat.one_lt_two)).elim⟩
  | c :: d :: text, rfl =>
      rcases plain_or longStrings c d 1234 text with ⟨rfl, bytes, hbytes⟩ | ⟨hnone, hplain⟩
      · have hlength := length_conversion hbytes
        have htext := (ih text.length (Nat.lt_add_of_pos_right Nat.two_pos) text rfl).1
        have heq : formatLoop longStrings (percent :: d :: text) longArgs
            = bytes ++ formatLoop longStrings text longArgs := by
          rw [formatLoop, if_neg (not_not.mpr rfl), longArgs, hbytes]
          rfl
        rw [heq, List.length_append, List.length_cons, List.length_cons]
        omega
      · obtain ⟨hle, hlt⟩ := ih _ (Nat.lt_succ_self _) (d :: text) rfl
        rw [formatLoop_step hnone, hplain]
        exact ⟨Nat.succ_le_succ hle, fun h => Nat.succ_lt_succ (hlt h)⟩

/-! ### What reaches the screen -/

theorem printk_eq {screen : ScreenBuffer}
    (h : (formatLoop strings text args).length ≤ printMaxBufferSize) :
  printk strings text args screen
    = some ⟨formatLoop strings text args, screen.writeVGA (formatLoop strings text args)⟩
  := by
  unfold printk
  dsimp only
  rw [assert_of h]
  rfl

theorem sysWrite_plain (strings : ℕ → List UInt8) (args : ℕ → ℕ) (screen : ScreenBuffer)
    (hlength : text.length < printMaxBufferSize) (h : Plain text) :
  sysWrite strings args text text.length screen
    = some ((text.length : Int), ⟨text, screen.writeVGA text⟩)
  := by
  have hint : int32 (text.length : Int) = text.length := by
    unfold printMaxBufferSize at hlength
    apply int32_of_range
    · omega
    · omega
  unfold sysWrite
  rw [printk_eq, formatLoop_plain strings args h, hint, Option.map_some]
  rw [formatLoop_plain strings args h]
  exact hlength.le

/-- What `printk` sends to the screen when the arguments are the long ones. -/
theorem sysWrite_eq_some {length : Int} {screen : ScreenBuffer} {ret : Int} {printed : Printed}
    (h : sysWrite longStrings longArgs text length screen = some (ret, printed))
    (hprinted : printed.bytes = text) :
  Plain text
  := by
  obtain ⟨printed', hprintk, heq⟩ := Option.map_eq_some_iff.mp h
  obtain ⟨_, rfl⟩ := Prod.mk.inj heq
  obtain ⟨_, _, hsome⟩ := Option.bind_eq_some_iff.mp hprintk
  obtain rfl := Option.some.inj hsome
  by_contra hplain
  have hlt := (length_formatLoop text).2 hplain
  rw [show formatLoop longStrings text longArgs = text from hprinted] at hlt
  exact lt_irrefl _ hlt

theorem bufferString_eq (h : 0 ∉ text) :
  bufferString text = text
  := by
  unfold bufferString
  rw [List.takeWhile_eq_self_iff]
  intro b hb
  exact decide_eq_true (fun hzero => h (hzero ▸ hb))

theorem printf_eq {format : List UInt8} (kernelStrings : ℕ → List UInt8)
    (kernelArgs : ℕ → ℕ) (screen : ScreenBuffer)
    (hlength : (formatLoop strings format args).length < printMaxBufferSize)
    (hzero : 0 ∉ formatLoop strings format args) :
  printf strings format args kernelStrings kernelArgs screen
    = sysWrite kernelStrings kernelArgs (formatLoop strings format args)
        (formatLoop strings format args).length screen
  := by
  unfold printf
  dsimp only
  rw [assert_of hlength, Option.bind_eq_bind, Option.bind_some, bufferString_eq hzero]

/-- `write` sends exactly the bytes of a string `s` to the screen, whatever `printk` finds for
its arguments, if and only if no `%` of the string stands before a conversion character;
and `printf` sends exactly the expansion of its format if and only if the same holds of the
expansion. -/
theorem console_exact {s : List UInt8} (hs : s.length < printMaxBufferSize)
    (userStrings : ℕ → List UInt8) (format : List UInt8) (userArgs : ℕ → ℕ) {e : List UInt8}
    (he : e = formatLoop userStrings format userArgs) (hlength : e.length < printMaxBufferSize)
    (hzero : 0 ∉ e) :
  ((∀ (strings : ℕ → List UInt8) (args : ℕ → ℕ) (screen : ScreenBuffer),
      sysWrite strings args s s.length screen = some ((s.length : Int), ⟨s, screen.writeVGA s⟩))
      ↔ Plain s)
    ∧ ((∀ (strings : ℕ → List UInt8) (args : ℕ → ℕ) (screen : ScreenBuffer),
      printf userStrings format userArgs strings args screen
        = some ((e.length : Int), ⟨e, screen.writeVGA e⟩))
      ↔ Plain e)
  := by
  constructor
  · constructor
    · intro h
      exact sysWrite_eq_some (h longStrings longArgs ⟨fun _ => 0, 0, 0⟩) rfl
    · intro h strings args screen
      exact sysWrite_plain strings args screen hs h
  · subst he
    constructor
    · intro h
      have hwrite := h longStrings longArgs ⟨fun _ => 0, 0, 0⟩
      rw [printf_eq _ _ _ hlength hzero] at hwrite
      exact sysWrite_eq_some hwrite rfl
    · intro h strings args screen
      rw [printf_eq _ _ _ hlength hzero]
      exact sysWrite_plain strings args screen hlength h

/-- The text `%d`. -/
def decimalText : List UInt8 := [percent, 0x64]

/-- When the first argument register holds `7`, `write` of `%d` prints `7`. -/
theorem decimalText_written :
  decimalText.length < printMaxBufferSize ∧ 0 ∉ decimalText ∧ decimalText ≠ [0x37]
    ∧ ∀ screen : ScreenBuffer, sysWrite (fun _ => []) (fun _ => 7) decimalText 2 screen
        = some (2, ⟨[0x37], screen.writeVGA [0x37]⟩)
  := ⟨by decide, by decide, by decide, fun _ => rfl⟩

/-- A `%` at the end is printed as it is. -/
theorem plain_hundred :
  Plain [0x31, 0x30, 0x30, percent]
  := by
  apply plain_cons.mpr ⟨by decide, _⟩
  apply plain_cons.mpr ⟨by decide, _⟩
  apply plain_cons.mpr ⟨by decide, _⟩
  exact plain_of_length (by decide)

/-- The string `100%` is written and printed as it is. -/
theorem console_exact_small :
  (∀ (strings : ℕ → List UInt8) (args : ℕ → ℕ) (screen : ScreenBuffer),
      sysWrite strings args [0x31, 0x30, 0x30, percent] 4 screen
        = some (4, ⟨[0x31, 0x30, 0x30, percent], screen.writeVGA [0x31, 0x30, 0x30, percent]⟩))
    ∧ ∀ (strings : ℕ → List UInt8) (args : ℕ → ℕ) (screen : ScreenBuffer),
      printf (fun _ => []) [percent, 0x64, percent] (fun _ => 100) strings args screen
        = some (4, ⟨[0x31, 0x30, 0x30, percent], screen.writeVGA [0x31, 0x30, 0x30, percent]⟩)
  := by
  obtain ⟨hwrite, hprintf⟩ := @console_exact [0x31, 0x30, 0x30, percent] (by decide)
    (fun _ => []) [percent, 0x64, percent] (fun _ => 100) _ rfl (by decide) (by decide)
  exact ⟨hwrite.mpr plain_hundred, hprintf.mpr plain_hundred⟩

end LarvaOS
