import LarvaOS.Console.Printing
import LarvaOS.Library.Numeral

/-!
# Numbers in a buffer

The functions of `kernel/printk.c` and of `usr/runtime/stdio.c` that write numbers and strings to
a buffer.  A `Buffer` records the indices at which it was stored to, and a store outside of the
array that it stands for goes to a byte of its own.  The digits of a number are first stored to
`digits_buffer`, from the lowest one on, and a store outside of that array is not made: the
functions return `none` there.
-/

namespace LarvaOS

/-! ### The code -/

/-- A buffer, and the indices at which it was stored to. -/
structure Buffer where
  bytes : Bytes
  stores : List ℕ

/-- The size of `digits_buffer`. -/
def digitsBufferSize : ℕ := 25

namespace Buffer

/-- The assignment of `c` to the element `i`. -/
def store (buffer : Buffer) (i : ℕ) (c : UInt8) : Buffer where
  bytes := Function.update buffer.bytes i c
  stores := buffer.stores ++ [i]

/-- The loop that stores the digits of `integer` to `digits_buffer`. It is `none` after `fuel`
rounds, and at a store outside of the array. -/
def digitsLoop (base : ℕ) : ℕ → Bytes → ℕ → ℕ → Option (ℕ × Bytes)
  | 0, _, _, _ => none
  | fuel + 1, digits, size, integer => do
      assert (size < digitsBufferSize)
      let digits := Function.update digits size (digitsMap (integer % base))
      let size := size + 1
      let integer := integer / base
      if integer ≠ 0 then digitsLoop base fuel digits size integer else some (size, digits)

/-- The loop that copies the digits from the index `size - 1` down to the index 0. -/
def copyDigits (digits : Bytes) : ℕ → Buffer → ℕ → Buffer
  | 0, buffer, _ => buffer
  | i + 1, buffer, pos => copyDigits digits i (buffer.store pos (digits i)) (pos + 1)

/-- `WriteHexToBuffer`. -/
def writeHexToBuffer (buffer : Buffer) (pos : ℕ) (integer : BitVec 64) : Option (ℕ × Buffer) := do
  let (size, digits) ← digitsLoop 16 64 (fun _ => 0) 0 integer.toNat
  let buffer := buffer.store pos 0x30
  let pos := pos + 1
  let buffer := buffer.store pos 0x78
  let pos := pos + 1
  some (size + 2, copyDigits digits size buffer pos)

/-- `WriteUDecimalToBuffer`. -/
def writeUDecimalToBuffer (buffer : Buffer) (pos : ℕ) (integer : BitVec 64) :
    Option (ℕ × Buffer) := do
  let (size, digits) ← digitsLoop 10 64 (fun _ => 0) 0 integer.toNat
  some (size, copyDigits digits size buffer pos)

/-- `WriteDecimalToBuffer`. -/
def writeDecimalToBuffer (buffer : Buffer) (pos : ℕ) (integer : BitVec 64) :
    Option (ℕ × Buffer) :=
  if integer.toInt < 0 then
    (writeUDecimalToBuffer (buffer.store pos 0x2D) (pos + 1) (-integer)).map
      (fun r => (1 + r.1, r.2))
  else
    writeUDecimalToBuffer buffer pos integer

/-- The loop of `WriteStringToBuffer`. -/
def stringLoop (index : ℕ) : List UInt8 → Buffer → ℕ → ℕ × Buffer
  | [], buffer, _ => (index, buffer)
  | c :: str, buffer, pos => stringLoop (index + 1) str (buffer.store pos c) (pos + 1)

/-- `WriteStringToBuffer`. -/
def writeStringToBuffer (buffer : Buffer) (pos : ℕ) (str : List UInt8) : ℕ × Buffer :=
  stringLoop 0 str buffer pos

end Buffer

/-- `WriteHexToBuffer` of the kernel. -/
def Printk.writeHexToBuffer : Buffer → ℕ → BitVec 64 → Option (ℕ × Buffer) :=
  Buffer.writeHexToBuffer

/-- `WriteUDecimalToBuffer` of the kernel. -/
def Printk.writeUDecimalToBuffer : Buffer → ℕ → BitVec 64 → Option (ℕ × Buffer) :=
  Buffer.writeUDecimalToBuffer

/-- `WriteDecimalToBuffer` of the kernel. -/
def Printk.writeDecimalToBuffer : Buffer → ℕ → BitVec 64 → Option (ℕ × Buffer) :=
  Buffer.writeDecimalToBuffer

/-- `WriteHexToBuffer` of the user runtime. -/
def Stdio.writeHexToBuffer : Buffer → ℕ → BitVec 64 → Option (ℕ × Buffer) :=
  Buffer.writeHexToBuffer

/-- `WriteUDecimalToBuffer` of the user runtime. -/
def Stdio.writeUDecimalToBuffer : Buffer → ℕ → BitVec 64 → Option (ℕ × Buffer) :=
  Buffer.writeUDecimalToBuffer

/-- `WriteDecimalToBuffer` of the user runtime. -/
def Stdio.writeDecimalToBuffer : Buffer → ℕ → BitVec 64 → Option (ℕ × Buffer) :=
  Buffer.writeDecimalToBuffer

/-! ### Numerals as text -/

/-- The text of a number in a base. -/
def numeralText (base n : ℕ) : List UInt8 := (Numeral.numeral base n).map digitsMap

/-- The text of an integer: a minus sign when it is negative, and the decimal numeral of its
absolute value. -/
def integerText (z : Int) : List UInt8 :=
  if z < 0 then 0x2D :: numeralText 10 z.natAbs else numeralText 10 z.natAbs

/-- The value of a digit. -/
def digitValue (c : UInt8) : ℕ := if c.toNat < 0x3A then c.toNat - 0x30 else c.toNat - 0x41 + 10

/-- The number that a text denotes in a base. -/
def readNumber (base : ℕ) (text : List UInt8) : ℕ := Numeral.value base (text.map digitValue)

/-- The integer that a text denotes. -/
def readInteger (text : List UInt8) : Int :=
  match text with
  | c :: digits => if c = 0x2D then - (readNumber 10 digits : Int) else readNumber 10 (c :: digits)
  | [] => 0

/-- The text is a numeral in a base, without leading zeros. -/
structure CanonicalText (base : ℕ) (text : List UInt8) : Prop where
  nonempty : text ≠ []
  digit : ∀ c ∈ text, ∃ d < base, c = digitsMap d
  leading : text.head? = some 0x30 → text = [0x30]

/-- The function writes the text of the number from `pos` on and nothing else, and returns the
number of its bytes. -/
def Writes (write : Buffer → ℕ → BitVec 64 → Option (ℕ × Buffer))
    (text : BitVec 64 → List UInt8) : Prop :=
  ∀ (buffer : Buffer) (pos : ℕ) (integer : BitVec 64), ∃ buffer',
    write buffer pos integer = some ((text integer).length, buffer')
      ∧ (∀ i, i < (text integer).length → (text integer)[i]? = some (buffer'.bytes (pos + i)))
      ∧ (∀ x, x < pos ∨ pos + (text integer).length ≤ x → buffer'.bytes x = buffer.bytes x)
      ∧ buffer'.stores = buffer.stores ++ List.range' pos (text integer).length

namespace Buffer

/-! ### Stores one after another -/

/-- Store the bytes of a list from `pos` on. -/
def storeAll : Buffer → ℕ → List UInt8 → Buffer
  | buffer, _, [] => buffer
  | buffer, pos, c :: cs => (buffer.store pos c).storeAll (pos + 1) cs

variable {buffer : Buffer} {pos x : ℕ} {text : List UInt8}

theorem storeAll_append (buffer : Buffer) (pos : ℕ) (cs ds : List UInt8) :
  buffer.storeAll pos (cs ++ ds) = (buffer.storeAll pos cs).storeAll (pos + cs.length) ds
  := by
  induction cs generalizing buffer pos with
  | nil => rfl
  | cons c cs ih =>
      rw [List.cons_append, storeAll, ih, storeAll, List.length_cons, Nat.add_right_comm]
      rfl

theorem storeAll_stores (buffer : Buffer) (pos : ℕ) (text : List UInt8) :
  (buffer.storeAll pos text).stores = buffer.stores ++ List.range' pos text.length
  := by
  induction text generalizing buffer pos with
  | nil => exact (List.append_nil _).symm
  | cons c text ih =>
      rw [storeAll, ih, store, List.length_cons, List.range'_succ, List.append_assoc,
        List.singleton_append]

theorem storeAll_of_outside (h : x < pos ∨ pos + text.length ≤ x) :
  (buffer.storeAll pos text).bytes x = buffer.bytes x
  := by
  induction text generalizing buffer pos with
  | nil => rfl
  | cons c text ih =>
      rw [List.length_cons] at h
      have hne : x ≠ pos := by omega
      rw [storeAll, ih (by omega)]
      exact Function.update_of_ne hne _ _

theorem storeAll_getElem? {i : ℕ} (h : i < text.length) :
  text[i]? = some ((buffer.storeAll pos text).bytes (pos + i))
  := by
  induction text generalizing buffer pos i with
  | nil => exact absurd h (Nat.not_lt_zero i)
  | cons c text ih =>
      rw [storeAll]
      cases i with
      | zero =>
          have hlow : ((buffer.store pos c).storeAll (pos + 1) text).bytes pos = c := by
            rw [storeAll_of_outside (Or.inl (Nat.lt_add_one pos))]
            exact Function.update_self _ _ _
          exact congrArg some hlow.symm
      | succ i =>
          rw [List.getElem?_cons_succ, ih (Nat.lt_of_succ_lt_succ h), Nat.add_right_comm]
          rfl

/-- A function that stores a text from `pos` on and returns its length writes the text. -/
theorem writes {write : Buffer → ℕ → BitVec 64 → Option (ℕ × Buffer)}
    {text : BitVec 64 → List UInt8}
    (h : ∀ buffer pos integer, write buffer pos integer
      = some ((text integer).length, buffer.storeAll pos (text integer))) :
  Writes write text
  := by
  intro buffer pos integer
  use buffer.storeAll pos (text integer), h buffer pos integer
  refine ⟨?_, ?_, storeAll_stores buffer pos _⟩
  · intro i hi
    exact storeAll_getElem? hi
  · intro x hx
    exact storeAll_of_outside hx

/-! ### The digits -/

/-- The loop stores the digits of the number from the lowest one on. -/
theorem digitsLoop_eq {base : ℕ} (hbase : 1 < base) :
  ∀ (fuel : ℕ) (buffer : Buffer) (size integer : ℕ),
    (Numeral.lowDigits base integer).length ≤ fuel →
    size + (Numeral.lowDigits base integer).length ≤ digitsBufferSize →
    digitsLoop base fuel buffer.bytes size integer
      = some (size + (Numeral.lowDigits base integer).length,
          (buffer.storeAll size ((Numeral.lowDigits base integer).map digitsMap)).bytes)
  | 0, _, _, integer, hfuel, _ => by
      rw [Numeral.lowDigits_eq hbase, List.length_cons] at hfuel
      exact absurd hfuel (Nat.not_succ_le_zero _)
  | fuel + 1, buffer, size, integer, hfuel, hsize => by
      rw [Numeral.lowDigits_eq hbase, List.length_cons] at hfuel hsize
      rw [digitsLoop, assert_of (by omega), Option.bind_eq_bind, Option.bind_some,
        Numeral.lowDigits_eq hbase]
      dsimp only
      by_cases hdiv : integer / base = 0
      · rw [if_neg (not_not.mpr hdiv), if_neg (not_not.mpr hdiv)]
        rfl
      · rw [if_pos hdiv] at hfuel hsize
        rw [if_pos hdiv, if_pos hdiv]
        have hrest := digitsLoop_eq hbase fuel (buffer.store size (digitsMap (integer % base)))
          (size + 1) (integer / base) (by omega) (by omega)
        rw [List.length_cons, List.map_cons, storeAll, ← Nat.add_assoc, Nat.add_right_comm]
        exact hrest

theorem copyDigits_eq (digits : Bytes) (n : ℕ) (buffer : Buffer) (pos : ℕ) :
  copyDigits digits n buffer pos = buffer.storeAll pos ((List.range n).map digits).reverse
  := by
  induction n generalizing buffer pos with
  | zero => rfl
  | succ n ih =>
      rw [copyDigits, ih, List.range_succ, List.map_append, List.reverse_append]
      rfl

/-- The bytes of a buffer after a text was stored at its start. -/
theorem map_storeAll (buffer : Buffer) (text : List UInt8) :
  (List.range text.length).map (buffer.storeAll 0 text).bytes = text
  := by
  apply List.ext_getElem?
  intro i
  by_cases hi : i < text.length
  · have htext := @storeAll_getElem? buffer 0 text i hi
    rw [htext, Nat.zero_add, List.getElem?_map, List.getElem?_range hi]
    rfl
  · rw [List.getElem?_eq_none (Nat.not_lt.mp hi), List.getElem?_eq_none]
    rw [List.length_map, List.length_range]
    exact Nat.not_lt.mp hi

theorem length_numeralText {base : ℕ} (hbase : 1 < base) (n : ℕ) :
  (numeralText base n).length = Nat.log base n + 1
  := by
  rw [numeralText, List.length_map, Numeral.length_numeral hbase]

/-- A number of 64 bits has at most 20 digits in base 10 and at most 16 in base 16. -/
theorem length_numeralText_le {base k : ℕ} (hbase : 1 < base) (hk : 0 < k)
    (hpow : 2 ^ 64 ≤ base ^ k) (integer : BitVec 64) :
  (numeralText base integer.toNat).length ≤ k
  := by
  rw [numeralText, List.length_map]
  exact Numeral.length_numeral_le hbase hk (integer.isLt.trans_le hpow)

/-- The digits of a number of 64 bits fit `digits_buffer`, and are copied in reverse. -/
theorem digitsLoop_copyDigits (base k : ℕ) (hbase : 1 < base) (hk : 0 < k) (hsize : k ≤ 25)
    (hpow : 2 ^ 64 ≤ base ^ k) (integer : BitVec 64) :
  ∃ digits, digitsLoop base 64 (fun _ => 0) 0 integer.toNat
      = some ((numeralText base integer.toNat).length, digits)
    ∧ ∀ buffer pos, copyDigits digits (numeralText base integer.toNat).length buffer pos
      = buffer.storeAll pos (numeralText base integer.toNat)
  := by
  have hlength : (numeralText base integer.toNat).length
      = (Numeral.lowDigits base integer.toNat).length := by
    rw [numeralText, List.length_map, Numeral.numeral, List.length_reverse]
  have hle := length_numeralText_le hbase hk hpow integer
  rw [hlength] at hle ⊢
  have hloop := digitsLoop_eq hbase 64 ⟨fun _ => 0, []⟩ 0 integer.toNat (by omega)
    (by unfold digitsBufferSize; omega)
  rw [Nat.zero_add] at hloop
  refine ⟨_, hloop, ?_⟩
  intro buffer pos
  have hmap := map_storeAll ⟨fun _ => 0, []⟩ ((Numeral.lowDigits base integer.toNat).map digitsMap)
  rw [List.length_map] at hmap
  rw [copyDigits_eq, hmap, numeralText, Numeral.numeral, List.map_reverse]

/-! ### The functions -/

theorem writeUDecimalToBuffer_eq (buffer : Buffer) (pos : ℕ) (integer : BitVec 64) :
  writeUDecimalToBuffer buffer pos integer
    = some ((numeralText 10 integer.toNat).length,
        buffer.storeAll pos (numeralText 10 integer.toNat))
  := by
  obtain ⟨digits, hloop, hcopy⟩ := digitsLoop_copyDigits 10 20 (by decide) (by decide)
    (by decide) (by norm_num) integer
  rw [writeUDecimalToBuffer, hloop, Option.bind_eq_bind, Option.bind_some]
  dsimp only
  rw [hcopy]

theorem writeHexToBuffer_eq (buffer : Buffer) (pos : ℕ) (integer : BitVec 64) :
  writeHexToBuffer buffer pos integer
    = some ((0x30 :: 0x78 :: numeralText 16 integer.toNat).length,
        buffer.storeAll pos (0x30 :: 0x78 :: numeralText 16 integer.toNat))
  := by
  obtain ⟨digits, hloop, hcopy⟩ := digitsLoop_copyDigits 16 16 (by decide) (by decide)
    (by decide) (by norm_num) integer
  rw [writeHexToBuffer, hloop, Option.bind_eq_bind, Option.bind_some]
  dsimp only
  rw [hcopy]
  rfl

/-- The 64-bit negation of a negative number is its absolute value, also for the least one. -/
theorem toNat_neg_of_toInt_neg {integer : BitVec 64} (h : integer.toInt < 0) :
  (-integer).toNat = integer.toInt.natAbs
  := by
  have hlt := integer.isLt
  rw [BitVec.toInt_eq_toNat_cond] at h ⊢
  rw [BitVec.toNat_neg]
  split at h
  · omega
  · rw [if_neg (by assumption)]
    omega

theorem toNat_of_toInt_nonneg {integer : BitVec 64} (h : ¬ integer.toInt < 0) :
  integer.toNat = integer.toInt.natAbs
  := by
  have hlt := integer.isLt
  rw [BitVec.toInt_eq_toNat_cond] at h ⊢
  split at h
  · rw [if_pos (by assumption)]
    omega
  · omega

theorem writeDecimalToBuffer_eq (buffer : Buffer) (pos : ℕ) (integer : BitVec 64) :
  writeDecimalToBuffer buffer pos integer
    = some ((integerText integer.toInt).length, buffer.storeAll pos (integerText integer.toInt))
  := by
  unfold writeDecimalToBuffer integerText
  by_cases h : integer.toInt < 0
  · rw [if_pos h, if_pos h, writeUDecimalToBuffer_eq, toNat_neg_of_toInt_neg h, Option.map_some,
      List.length_cons, Nat.add_comm]
    rfl
  · rw [if_neg h, if_neg h, writeUDecimalToBuffer_eq, toNat_of_toInt_nonneg h]

theorem stringLoop_eq (str : List UInt8) (index : ℕ) (buffer : Buffer) (pos : ℕ) :
  stringLoop index str buffer pos = (index + str.length, buffer.storeAll pos str)
  := by
  induction str generalizing index buffer pos with
  | nil => rfl
  | cons c str ih =>
      rw [stringLoop, ih, storeAll, List.length_cons, Nat.add_assoc, Nat.add_comm 1]

theorem writeStringToBuffer_eq (buffer : Buffer) (pos : ℕ) (str : List UInt8) :
  writeStringToBuffer buffer pos str = (str.length, buffer.storeAll pos str)
  := by
  rw [writeStringToBuffer, stringLoop_eq, Nat.zero_add]

end Buffer

/-! ### Numbers print and read back -/

theorem digitValue_digitsMap :
  ∀ d < 16, digitValue (digitsMap d) = d
  := by
  decide

theorem digitsMap_zero :
  ∀ d < 16, digitsMap d = 0x30 → d = 0
  := by
  decide

theorem digitsMap_minus :
  ∀ d < 16, digitsMap d ≠ 0x2D
  := by
  decide

theorem readNumber_numeralText {base : ℕ} (hbase : 1 < base) (hle : base ≤ 16) (n : ℕ) :
  readNumber base (numeralText base n) = n
  := by
  have hdigits : (numeralText base n).map digitValue = Numeral.numeral base n := by
    rw [numeralText, List.map_map]
    conv_rhs => rw [← List.map_id (Numeral.numeral base n)]
    apply List.map_congr_left
    intro d hd
    exact digitValue_digitsMap d (((Numeral.canonical_numeral hbase n).digit d hd).trans_le hle)
  rw [readNumber, hdigits, Numeral.value_numeral]

theorem canonicalText_numeralText {base : ℕ} (hbase : 1 < base) (hle : base ≤ 16) (n : ℕ) :
  CanonicalText base (numeralText base n)
  := by
  have h := Numeral.canonical_numeral hbase n
  constructor
  · exact fun hnil => h.nonempty (List.map_eq_nil_iff.mp hnil)
  · intro c hc
    obtain ⟨d, hd, rfl⟩ := List.mem_map.mp hc
    exact ⟨d, h.digit d hd, rfl⟩
  · intro hhead
    rw [numeralText, List.head?_map] at hhead
    obtain ⟨d, hd, hzero⟩ := Option.map_eq_some_iff.mp hhead
    obtain rfl := digitsMap_zero d ((h.digit d (List.mem_of_mem_head? hd)).trans_le hle) hzero
    rw [numeralText, h.leading hd]
    rfl

theorem readInteger_integerText (z : Int) :
  readInteger (integerText z) = z
  := by
  unfold integerText
  split
  · rw [readInteger, if_pos rfl, readNumber_numeralText (by decide) (by decide)]
    omega
  · have htext := @canonicalText_numeralText 10 (by decide) (by decide) z.natAbs
    have hread := @readNumber_numeralText 10 (by decide) (by decide) z.natAbs
    cases hcons : numeralText 10 z.natAbs with
    | nil => exact absurd hcons htext.nonempty
    | cons c digits =>
        obtain ⟨d, hd, rfl⟩ := htext.digit c (hcons ▸ List.mem_cons_self)
        rw [readInteger, if_neg (digitsMap_minus d (by omega)), ← hcons, hread]
        omega

/-- The functions of the kernel and of the user runtime write every number of 64 bits as its
canonical decimal numeral, as `0x` and its canonical hexadecimal numeral, and, as a signed number,
as the canonical decimal numeral of its absolute value after a minus sign when it is negative;
reading the text gives the number back. -/
theorem numbers_written :
  (Writes Printk.writeUDecimalToBuffer (fun n => numeralText 10 n.toNat)
      ∧ Writes Stdio.writeUDecimalToBuffer (fun n => numeralText 10 n.toNat))
    ∧ (Writes Printk.writeHexToBuffer (fun n => 0x30 :: 0x78 :: numeralText 16 n.toNat)
      ∧ Writes Stdio.writeHexToBuffer (fun n => 0x30 :: 0x78 :: numeralText 16 n.toNat))
    ∧ (Writes Printk.writeDecimalToBuffer (fun n => integerText n.toInt)
      ∧ Writes Stdio.writeDecimalToBuffer (fun n => integerText n.toInt))
    ∧ ∀ n : BitVec 64, CanonicalText 10 (numeralText 10 n.toNat)
      ∧ CanonicalText 16 (numeralText 16 n.toNat)
      ∧ CanonicalText 10 (numeralText 10 n.toInt.natAbs)
      ∧ readNumber 10 (numeralText 10 n.toNat) = n.toNat
      ∧ readNumber 16 (numeralText 16 n.toNat) = n.toNat
      ∧ readInteger (integerText n.toInt) = n.toInt
  := by
  have hdecimal := Buffer.writes Buffer.writeUDecimalToBuffer_eq
  have hhex := Buffer.writes Buffer.writeHexToBuffer_eq
  have hinteger := Buffer.writes Buffer.writeDecimalToBuffer_eq
  refine ⟨⟨hdecimal, hdecimal⟩, ⟨hhex, hhex⟩, ⟨hinteger, hinteger⟩, ?_⟩
  intro n
  refine ⟨?_, ?_, ?_, ?_, ?_, readInteger_integerText n.toInt⟩
  · exact canonicalText_numeralText (by decide) (by decide) n.toNat
  · exact canonicalText_numeralText (by decide) (by decide) n.toNat
  · exact canonicalText_numeralText (by decide) (by decide) n.toInt.natAbs
  · exact readNumber_numeralText (by decide) (by decide) n.toNat
  · exact readNumber_numeralText (by decide) (by decide) n.toNat

end LarvaOS
