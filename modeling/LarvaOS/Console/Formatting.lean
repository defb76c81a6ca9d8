import LarvaOS.Console.Numbers

/-!
# The buffer of a format

The loop that `printk`, `sprintk` and `printf` share expands a format into a buffer of 1024 bytes
on the stack of the function.  `formatLoop` is the text that it writes.  The stores of the loop are
inside of the buffer exactly when this text is not longer than the buffer, and what `sprintk`
leaves in its destination is a C string exactly when the destination was already terminated.
-/

namespace LarvaOS

namespace Buffer

/-- The local buffer of a function, `char buffer[PRINT_MAX_BUFFER_SIZE] = {0}`. -/
def zero : Buffer where
  bytes _ := 0
  stores := []

/-- The loop over the format, from the index `bufferSize` of the buffer on. -/
def expand (strings : ℕ → List UInt8) :
    List UInt8 → (ℕ → BitVec 64) → Buffer → ℕ → Option (ℕ × Buffer)
  | [], _, buffer, bufferSize => some (bufferSize, buffer)
  | [c], _, buffer, bufferSize => some (bufferSize + 1, buffer.store bufferSize c)
  | c :: d :: format, args, buffer, bufferSize =>
      if c ≠ percent then
        expand strings (d :: format) args (buffer.store bufferSize c) (bufferSize + 1)
      else if d = 0x78 then
        (buffer.writeHexToBuffer bufferSize (args 0)).bind (fun r =>
          expand strings format (fun n => args (n + 1)) r.2 (bufferSize + r.1))
      else if d = 0x75 then
        (buffer.writeUDecimalToBuffer bufferSize (args 0)).bind (fun r =>
          expand strings format (fun n => args (n + 1)) r.2 (bufferSize + r.1))
      else if d = 0x64 then
        (buffer.writeDecimalToBuffer bufferSize (args 0)).bind (fun r =>
          expand strings format (fun n => args (n + 1)) r.2 (bufferSize + r.1))
      else if d = 0x73 then
        let r := buffer.writeStringToBuffer bufferSize (strings (args 0).toNat)
        expand strings format (fun n => args (n + 1)) r.2 (bufferSize + r.1)
      else
        expand strings (d :: format) args (buffer.store bufferSize percent) (bufferSize + 1)

/-- All stores were made inside of the array. -/
def Inside (buffer : Buffer) : Prop := ∀ i ∈ buffer.stores, i < printMaxBufferSize

end Buffer

/-- `memcpy` from the local buffer of `sprintk` to the destination `str`. -/
def memcpyBuffer (str buffer : Bytes) : ℕ → Bytes
  | 0 => str
  | n + 1 => Function.update (memcpyBuffer str buffer n) n (buffer n)

/-- What a function that expands a format leaves: the number of bytes, which it returns, its
local buffer, and the memory or the screen to which it writes. -/
structure Expanded (α : Type) where
  bufferSize : ℕ
  buffer : Buffer
  result : α

/-- `printk`. -/
def Printk.printk (strings : ℕ → List UInt8) (format : List UInt8) (args : ℕ → BitVec 64)
    (screen : ScreenBuffer) : Option (Expanded ScreenBuffer) :=
  (Buffer.zero.expand strings format args 0).map (fun r =>
    ⟨r.1, r.2, screen.writeVGA ((List.range r.1).map r.2.bytes)⟩)

/-- `sprintk`, for the bytes of the destination from `str` on. -/
def Printk.sprintk (strings : ℕ → List UInt8) (str : Bytes) (format : List UInt8)
    (args : ℕ → BitVec 64) : Option (Expanded Bytes) :=
  (Buffer.zero.expand strings format args 0).map (fun r =>
    ⟨r.1, r.2, Function.update (memcpyBuffer str r.2.bytes r.1) (r.1 + 1) 0⟩)

/-- `SysWrite`, for a buffer of the program that holds the string `buffer`, and what the argument
registers and the stack hold when `printk` reads its arguments. -/
def Printk.sysWrite (strings : ℕ → List UInt8) (buffer : List UInt8) (length : Int)
    (args : ℕ → BitVec 64) (screen : ScreenBuffer) : Option (Int × Expanded ScreenBuffer) :=
  (Printk.printk strings buffer args screen).map (fun r => (int32 length, r))

/-- `printf` of the user runtime, up to the system call `write`, whose arguments are the
descriptor 1 and the buffer with the number of its bytes. -/
def Stdio.printf (strings : ℕ → List UInt8) (format : List UInt8) (args : ℕ → BitVec 64) :
    Option (Expanded Int) :=
  (Buffer.zero.expand strings format args 0).map (fun r => ⟨r.1, r.2, 1⟩)

/-! ### How long a text gets -/

/-- The length of what is written for a conversion character. -/
def conversionLength (strings : ℕ → List UInt8) (c : UInt8) (arg : BitVec 64) : Option ℕ :=
  if c = 0x78 then some (2 + (Nat.log 16 arg.toNat + 1))
  else if c = 0x75 then some (Nat.log 10 arg.toNat + 1)
  else if c = 0x64 then
    some ((if arg.toInt < 0 then 1 else 0) + (Nat.log 10 arg.toInt.natAbs + 1))
  else if c = 0x73 then some (strings arg.toNat).length
  else none

/-- The number of literal characters, digits and characters of strings for which a format and its
arguments call. -/
def formatLength (strings : ℕ → List UInt8) : List UInt8 → (ℕ → BitVec 64) → ℕ
  | [], _ => 0
  | [_], _ => 1
  | c :: d :: format, args =>
      if c ≠ percent then
        1 + formatLength strings (d :: format) args
      else
        match conversionLength strings d (args 0) with
        | some n => n + formatLength strings format (fun n => args (n + 1))
        | none => 1 + formatLength strings (d :: format) args

/-- The bytes of the memory from its start on are the C string `s`. -/
structure IsString (b : Bytes) (s : List UInt8) : Prop where
  bytes : ∀ i, i < s.length → s[i]? = some (b i)
  nonzero : 0 ∉ s
  terminated : b s.length = 0

variable {strings : ℕ → List UInt8} {c d : UInt8} {format : List UInt8} {args : ℕ → BitVec 64}

/-! ### The text of a format -/

theorem digitsBuffer_eq {base : ℕ} (hbase : 1 < base) :
  ∀ (fuel integer : ℕ), (Numeral.lowDigits base integer).length ≤ fuel →
    digitsBuffer base fuel integer = Numeral.lowDigits base integer
  | 0, integer, hfuel => by
      rw [Numeral.lowDigits_eq hbase, List.length_cons] at hfuel
      exact absurd hfuel (Nat.not_succ_le_zero _)
  | fuel + 1, integer, hfuel => by
      rw [Numeral.lowDigits_eq hbase, List.length_cons] at hfuel
      rw [digitsBuffer, Numeral.lowDigits_eq hbase]
      by_cases hdiv : integer / base = 0
      · rw [if_neg (not_not.mpr hdiv), if_neg (not_not.mpr hdiv)]
      · rw [if_pos hdiv] at hfuel
        rw [if_pos hdiv, if_pos hdiv, digitsBuffer_eq hbase fuel _ (Nat.le_of_succ_le_succ hfuel)]

/-- The text of a number of 64 bits is that of its digits. -/
theorem digitsBuffer_text (base k : ℕ) (hbase : 1 < base) (hk : 0 < k) (hsize : k ≤ 25)
    (hpow : 2 ^ 64 ≤ base ^ k) {n : ℕ} (hn : n < 2 ^ 64) :
  ((digitsBuffer base 25 n).map digitsMap).reverse = numeralText base n
  := by
  have hlength := Numeral.length_numeral_le hbase hk (hn.trans_le hpow)
  rw [Numeral.numeral, List.length_reverse] at hlength
  rw [digitsBuffer_eq hbase 25 n (hlength.trans hsize), numeralText, Numeral.numeral,
    List.map_reverse]

theorem writeUDecimalToBuffer_text {n : ℕ} (hn : n < 2 ^ 64) :
  writeUDecimalToBuffer n = numeralText 10 n
  := digitsBuffer_text 10 20 (by decide) (by decide) (by decide) (by norm_num) hn

theorem writeHexToBuffer_text {n : ℕ} (hn : n < 2 ^ 64) :
  writeHexToBuffer n = 0x30 :: 0x78 :: numeralText 16 n
  := by
  rw [writeHexToBuffer, digitsBuffer_text 16 16 (by decide) (by decide) (by decide) (by norm_num) hn]

theorem writeDecimalToBuffer_text (integer : BitVec 64) :
  writeDecimalToBuffer integer.toNat = integerText integer.toInt
  := by
  have hlt := integer.isLt
  unfold writeDecimalToBuffer integerText
  by_cases h : integer.toInt < 0
  · have hneg := Buffer.toNat_neg_of_toInt_neg h
    rw [BitVec.toNat_neg] at hneg
    have hle : 2 ^ 63 ≤ integer.toNat := by
      rw [BitVec.toInt_eq_toNat_cond] at h
      split at h
      · omega
      · omega
    rw [if_pos h, if_pos hle, hneg, writeUDecimalToBuffer_text (by omega)]
  · have hpos := Buffer.toNat_of_toInt_nonneg h
    have hle : ¬ 2 ^ 63 ≤ integer.toNat := by
      rw [BitVec.toInt_eq_toNat_cond] at h
      split at h
      · omega
      · omega
    rw [if_neg h, if_neg hle, writeUDecimalToBuffer_text hlt, hpos]

/-- The length of the text of a conversion. -/
theorem conversionLength_eq (strings : ℕ → List UInt8) (d : UInt8) (arg : BitVec 64) :
  conversionLength strings d arg = (conversion strings d arg.toNat).map List.length
  := by
  unfold conversionLength conversion
  rw [writeHexToBuffer_text arg.isLt, writeUDecimalToBuffer_text arg.isLt,
    writeDecimalToBuffer_text]
  split
  · rw [Option.map_some, List.length_cons, List.length_cons,
      Buffer.length_numeralText (by decide)]
    apply congrArg some
    omega
  split
  · rw [Option.map_some, Buffer.length_numeralText (by decide)]
  split
  · rw [Option.map_some, integerText]
    split
    · rw [List.length_cons, Buffer.length_numeralText (by decide)]
      apply congrArg some
      omega
    · rw [Buffer.length_numeralText (by decide), Nat.zero_add]
  split
  · rfl
  · rfl

/-- The words of the arguments as numbers. -/
def words (args : ℕ → BitVec 64) (n : ℕ) : ℕ := (args n).toNat

theorem formatLength_eq (strings : ℕ → List UInt8) :
  ∀ (format : List UInt8) (args : ℕ → BitVec 64),
    formatLength strings format args = (formatLoop strings format (words args)).length
  | [], _ => rfl
  | [_], _ => rfl
  | c :: d :: format, args => by
      have hrest := formatLength_eq strings (d :: format) args
      rw [formatLength, formatLoop]
      by_cases hc : c ≠ percent
      · rw [if_pos hc, if_pos hc, hrest, List.length_cons, Nat.add_comm]
      · rw [if_neg hc, if_neg hc, conversionLength_eq, words]
        cases conversion strings d (args 0).toNat with
        | some bytes =>
            rw [Option.map_some]
            dsimp only
            rw [List.length_append, formatLength_eq strings format]
            rfl
        | none =>
            rw [Option.map_none]
            dsimp only
            rw [hrest, List.length_cons, Nat.add_comm]

/-! ### What the loop writes -/

/-- The loop stores the text of the format from `bufferSize` on. -/
theorem expand_eq (strings : ℕ → List UInt8) :
  ∀ (format : List UInt8) (args : ℕ → BitVec 64) (buffer : Buffer) (bufferSize : ℕ),
    buffer.expand strings format args bufferSize
      = some (bufferSize + (formatLoop strings format (words args)).length,
          buffer.storeAll bufferSize (formatLoop strings format (words args)))
  | [], _, _, _ => rfl
  | [_], _, _, _ => rfl
  | c :: d :: format, args, buffer, bufferSize => by
      have hliteral : ∀ c, (buffer.store bufferSize c).expand strings (d :: format) args
            (bufferSize + 1)
          = some (bufferSize + (c :: formatLoop strings (d :: format) (words args)).length,
              buffer.storeAll bufferSize (c :: formatLoop strings (d :: format) (words args))) := by
        intro c
        rw [expand_eq strings (d :: format), List.length_cons, Nat.add_assoc, Nat.add_comm 1]
        rfl
      have hconversion : ∀ text, (buffer.storeAll bufferSize text).expand strings format
            (fun n => args (n + 1)) (bufferSize + text.length)
          = some (bufferSize
                + (text ++ formatLoop strings format (words (fun n => args (n + 1)))).length,
              buffer.storeAll bufferSize
                (text ++ formatLoop strings format (words (fun n => args (n + 1))))) := by
        intro text
        rw [expand_eq strings format, List.length_append, Buffer.storeAll_append, Nat.add_assoc]
      rw [Buffer.expand, formatLoop]
      by_cases hc : c ≠ percent
      · rw [if_pos hc, if_pos hc]
        exact hliteral c
      rw [if_neg hc, if_neg hc, conversion, words]
      split
      · rw [Buffer.writeHexToBuffer_eq, Option.bind_some, writeHexToBuffer_text (args 0).isLt]
        exact hconversion _
      split
      · rw [Buffer.writeUDecimalToBuffer_eq, Option.bind_some,
          writeUDecimalToBuffer_text (args 0).isLt]
        exact hconversion _
      split
      · rw [Buffer.writeDecimalToBuffer_eq, Option.bind_some, writeDecimalToBuffer_text]
        exact hconversion _
      split
      · rw [Buffer.writeStringToBuffer_eq]
        exact hconversion _
      · exact hliteral percent

/-- The local buffer after the loop. -/
theorem expand_zero (strings : ℕ → List UInt8) (format : List UInt8) (args : ℕ → BitVec 64) :
  Buffer.zero.expand strings format args 0
    = some (formatLength strings format args,
        Buffer.zero.storeAll 0 (formatLoop strings format (words args)))
  := by
  rw [expand_eq, Nat.zero_add, formatLength_eq]

/-- The stores of a text from the start of the buffer on are inside of it exactly when it is not
longer than the buffer. -/
theorem inside_storeAll (text : List UInt8) :
  (Buffer.zero.storeAll 0 text).Inside ↔ text.length ≤ printMaxBufferSize
  := by
  rw [Buffer.Inside, Buffer.storeAll_stores]
  constructor
  · intro h
    by_contra hlong
    have hlast := h printMaxBufferSize (by
      apply List.mem_append_right
      rw [List.mem_range'_1]
      omega)
    exact lt_irrefl _ hlast
  · intro h i hi
    rcases List.mem_append.mp hi with hi | hi
    · exact absurd hi List.not_mem_nil
    · rw [List.mem_range'_1] at hi
      omega

/-- A function that expands a format makes its stores inside of its buffer. -/
def StoresInside {α : Type} (run : Option (Expanded α)) : Prop :=
  ∃ r, run = some r ∧ r.buffer.Inside

/-- What a function does after the loop does not matter for the stores of the loop. -/
theorem storesInside_iff {α : Type} (strings : ℕ → List UInt8) (format : List UInt8)
    (args : ℕ → BitVec 64) (f : ℕ × Buffer → α) :
  StoresInside ((Buffer.zero.expand strings format args 0).map (fun r => ⟨r.1, r.2, f r⟩))
    ↔ formatLength strings format args ≤ printMaxBufferSize
  := by
  rw [expand_zero, Option.map_some, formatLength_eq, ← inside_storeAll]
  constructor
  · rintro ⟨r, heq, hinside⟩
    obtain rfl := Option.some.inj heq
    exact hinside
  · intro h
    exact ⟨_, rfl, h⟩

/-- `SysWrite` hands the text of the program to `printk` as the format. -/
theorem storesInside_sysWrite (strings : ℕ → List UInt8) (text : List UInt8) (length : Int)
    (args : ℕ → BitVec 64) (screen : ScreenBuffer) :
  StoresInside ((Printk.sysWrite strings text length args screen).map Prod.snd)
    ↔ formatLength strings text args ≤ printMaxBufferSize
  := by
  rw [← storesInside_iff strings text args
    (fun r => screen.writeVGA ((List.range r.1).map r.2.bytes)), Printk.sysWrite, Option.map_map]
  change StoresInside (Option.map (fun r => r) _) ↔ _
  rw [Option.map_id']
  rfl

/-- The stores of `printk`, of `sprintk`, of `printf` and of `SysWrite` while they expand a format
are inside of the local buffer if and only if the literal characters, the digits and the characters
of the strings are at most 1024. -/
theorem format_inside_iff (strings : ℕ → List UInt8) (format : List UInt8) (args : ℕ → BitVec 64)
    (screen : ScreenBuffer) (str : Bytes) (length : Int) :
  (StoresInside (Printk.printk strings format args screen)
      ↔ formatLength strings format args ≤ printMaxBufferSize)
    ∧ (StoresInside (Printk.sprintk strings str format args)
      ↔ formatLength strings format args ≤ printMaxBufferSize)
    ∧ (StoresInside (Stdio.printf strings format args)
      ↔ formatLength strings format args ≤ printMaxBufferSize)
    ∧ (StoresInside ((Printk.sysWrite strings format length args screen).map Prod.snd)
      ↔ formatLength strings format args ≤ printMaxBufferSize)
  := by
  refine ⟨?_, ?_, ?_, storesInside_sysWrite strings format length args screen⟩
  · exact storesInside_iff strings format args _
  · exact storesInside_iff strings format args _
  · exact storesInside_iff strings format args _

/-- A text without `%` is as long as it is written. -/
theorem formatLength_replicate (strings : ℕ → List UInt8) (args : ℕ → BitVec 64) (n : ℕ) :
  formatLength strings (List.replicate n 0x61) args = n
  := by
  induction n with
  | zero => rfl
  | succ n ih =>
      cases n with
      | zero => rfl
      | succ n =>
          rw [List.replicate_succ, List.replicate_succ, formatLength, if_pos (by decide),
            ← List.replicate_succ, ih, Nat.add_comm]

/-- A program that writes 1025 letters makes `printk` store outside of its buffer. -/
theorem not_format_inside :
  ¬ StoresInside ((Printk.sysWrite (fun _ => []) (List.replicate 1025 0x61) 1025 (fun _ => 0)
      ⟨fun _ => 0, 0, 0⟩).map Prod.snd)
  := by
  rw [storesInside_sysWrite, formatLength_replicate]
  decide

/-! ### The string of `sprintk` -/

theorem memcpyBuffer_of_inside {str buffer : Bytes} {n x : ℕ} (h : x < n) :
  memcpyBuffer str buffer n x = buffer x
  := by
  induction n with
  | zero => exact absurd h (Nat.not_lt_zero x)
  | succ n ih =>
      rw [memcpyBuffer]
      by_cases hx : x = n
      · rw [hx, Function.update_self]
      · rw [Function.update_of_ne hx, ih (by omega)]

theorem memcpyBuffer_of_outside {str buffer : Bytes} {n x : ℕ} (h : n ≤ x) :
  memcpyBuffer str buffer n x = str x
  := by
  induction n with
  | zero => rfl
  | succ n ih =>
      rw [memcpyBuffer, Function.update_of_ne (by omega), ih (by omega)]

/-- `sprintk` copies the text to the destination, and stores the terminating zero one byte after
its end. -/
theorem sprintk_eq (strings : ℕ → List UInt8) (str : Bytes) (format : List UInt8)
    (args : ℕ → BitVec 64) {e : List UInt8} (he : e = formatLoop strings format (words args)) :
  ∃ r, Printk.sprintk strings str format args = some r ∧ r.bufferSize = e.length
    ∧ (∀ i, i < e.length → e[i]? = some (r.result i))
    ∧ r.result e.length = str e.length
    ∧ r.result (e.length + 1) = 0
    ∧ ∀ x, e.length + 1 < x → r.result x = str x
  := by
  rw [Printk.sprintk, expand_zero, formatLength_eq, ← he, Option.map_some]
  refine ⟨_, rfl, rfl, ?_, ?_, Function.update_self _ _ _, ?_⟩
  · intro i hi
    dsimp only
    have hbyte := @Buffer.storeAll_getElem? Buffer.zero 0 e i hi
    rw [Nat.zero_add] at hbyte
    rw [Function.update_of_ne (by omega), memcpyBuffer_of_inside hi]
    exact hbyte
  · dsimp only
    rw [Function.update_of_ne (by omega), memcpyBuffer_of_outside le_rfl]
  · intro x hx
    dsimp only
    rw [Function.update_of_ne (by omega), memcpyBuffer_of_outside (by omega)]

/-- `sprintk` leaves the text of the format as a C string in the destination, returns its length
and changes no other byte. -/
def ProducesString (run : Option (Expanded Bytes)) (str : Bytes) (e : List UInt8) : Prop :=
  ∃ r, run = some r ∧ IsString r.result e ∧ r.bufferSize = e.length
    ∧ ∀ x, e.length < x → r.result x = str x

/-- When the text has less than 1023 bytes and no zero, `sprintk` leaves it as a C string and
changes no other byte if and only if the two bytes of the destination from the end of the text on
were zero before. -/
theorem sprintk_string_iff (strings : ℕ → List UInt8) (str : Bytes) (format : List UInt8)
    (args : ℕ → BitVec 64) {e : List UInt8} (he : e = formatLoop strings format (words args))
    (_ : e.length < 1023) (hzero : 0 ∉ e) :
  ProducesString (Printk.sprintk strings str format args) str e
    ↔ str e.length = 0 ∧ str (e.length + 1) = 0
  := by
  obtain ⟨r, hrun, hsize, htext, hend, hterm, hrest⟩ := sprintk_eq strings str format args he
  constructor
  · rintro ⟨r', hrun', hstring, _, hother⟩
    obtain rfl := Option.some.inj (hrun.symm.trans hrun')
    exact ⟨hend.symm.trans hstring.terminated, (hother _ (Nat.lt_succ_self _)).symm.trans hterm⟩
  · rintro ⟨hfirst, hsecond⟩
    refine ⟨r, hrun, ⟨htext, hzero, hend.trans hfirst⟩, hsize, ?_⟩
    intro x hx
    rcases Nat.eq_or_lt_of_le (Nat.succ_le_of_lt hx) with rfl | hlt
    · exact hterm.trans hsecond.symm
    · exact hrest x hlt

/-- The text `a` in a destination of zeros. -/
theorem sprintk_string_small :
  ProducesString (Printk.sprintk (fun _ => []) (fun _ => 0) [0x61] (fun _ => 0)) (fun _ => 0) [0x61]
  := (sprintk_string_iff (fun _ => []) (fun _ => 0) [0x61] (fun _ => 0) rfl (by decide)
    (by decide)).mpr ⟨rfl, rfl⟩

/-- The text `a` in a destination whose bytes are all `0xFF` is not terminated. -/
theorem not_sprintk_string :
  [0x61] = formatLoop (fun _ => []) [0x61] (words (fun _ => 0))
    ∧ ¬ ProducesString (Printk.sprintk (fun _ => []) (fun _ => 0xFF) [0x61] (fun _ => 0))
      (fun _ => 0xFF) [0x61]
  := by
  constructor
  · rfl
  · rintro ⟨r, hrun, hstring, _⟩
    obtain rfl := Option.some.inj hrun
    have hbyte : (0xFF : UInt8) = 0 := hstring.terminated
    exact absurd hbyte (by decide)

end LarvaOS
