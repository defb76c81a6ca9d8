import Mathlib.Algebra.Ring.Parity
import Mathlib.Data.List.Basic
import Mathlib.Data.List.Induction

/-!
# The keyboard

`ReadCharacter` of `kernel/keyboard.c` takes the bytes that the keyboard sends, one at a time.
It keeps three flags in one word: that the last byte was the prefix `0xE0`, that a shift key is
held, and that caps lock is on.  `codes keys` are the codes among the bytes `keys` that a prefix
has not consumed, and what the flags say is compared with these.
-/

namespace LarvaOS

/-! ### The code -/

/-- `E0_SIGN`. -/
def e0Sign : BitVec 32 := 1#32 <<< 0

/-- `SHIFT`. -/
def shift : BitVec 32 := 1#32 <<< 1

/-- `CAPS_LOCK`. -/
def capsLock : BitVec 32 := 1#32 <<< 2

/-- The codes of the shift keys: the make codes of the left and of the right one, and their break
codes. -/
def shiftCodes : List UInt8 := [0x2A, 0x36, 0xAA, 0xB6]

/-- `s_shift_code`. -/
def shiftCode (scanCode : UInt8) : BitVec 32 := if scanCode ∈ shiftCodes then shift else 0

/-- `s_lock_code`. -/
def lockCode (scanCode : UInt8) : BitVec 32 := if scanCode = 0x3A then capsLock else 0

/-- `s_key_map`. -/
def keyMap (scanCode : UInt8) : UInt8 :=
  [0x00, 0x00, 0x31, 0x32, 0x33, 0x34, 0x35, 0x36, 0x37, 0x38, 0x39, 0x30,
    0x2D, 0x3D, 0x08, 0x00, 0x71, 0x77, 0x65, 0x72, 0x74, 0x79, 0x75,
    0x69, 0x6F, 0x70, 0x5B, 0x5D, 0x0A, 0x00, 0x61, 0x73, 0x64, 0x66,
    0x67, 0x68, 0x6A, 0x6B, 0x6C, 0x3B, 0x27, 0x60, 0x00, 0x5C, 0x7A,
    0x78, 0x63, 0x76, 0x62, 0x6E, 0x6D, 0x2C, 0x2E, 0x2F, 0x00, 0x2A, 0x00, 0x20].getD
      scanCode.toNat 0

/-- `s_shift_key_map`. -/
def shiftKeyMap (scanCode : UInt8) : UInt8 :=
  [0x00, 0x01, 0x21, 0x40, 0x23, 0x24, 0x25, 0x5E, 0x26, 0x2A, 0x28, 0x29,
    0x5F, 0x2B, 0x08, 0x09, 0x51, 0x57, 0x45, 0x52, 0x54, 0x59, 0x55,
    0x49, 0x4F, 0x50, 0x7B, 0x7D, 0x0A, 0x00, 0x41, 0x53, 0x44, 0x46, 0x47,
    0x48, 0x4A, 0x4B, 0x4C, 0x3A, 0x22, 0x7E, 0x00, 0x7C, 0x5A, 0x58, 0x43,
    0x56, 0x42, 0x4E, 0x4D, 0x3C, 0x3E, 0x3F, 0x00, 0x2A, 0x00, 0x20].getD scanCode.toNat 0

/-- The character `c`, in the other case when it is a letter. -/
def otherCase (c : UInt8) : UInt8 :=
  if 0x61 ≤ c ∧ c ≤ 0x7A then c - 32
  else if 0x41 ≤ c ∧ c ≤ 0x5A then c + 32
  else c

/-- `ReadCharacter`, for the byte that it reads from the port and the word `s_flag`. -/
def readCharacter (scanCode : UInt8) (flag : BitVec 32) : UInt8 × BitVec 32 :=
  if scanCode = 0xE0 then
    (0, flag ||| e0Sign)
  else if flag &&& e0Sign ≠ 0 then
    (0, flag &&& ~~~e0Sign)
  else if scanCode &&& 0x80 ≠ 0 then
    (0, flag &&& ~~~(shiftCode scanCode))
  else
    let flag := flag ||| shiftCode scanCode
    let flag := flag ^^^ lockCode scanCode
    let c := if flag &&& shift ≠ 0 then shiftKeyMap scanCode else keyMap scanCode
    let c := if flag &&& capsLock ≠ 0 then otherCase c else c
    (c, flag)

/-- The word `s_flag` after the bytes `keys` since power-on. -/
def flagAfter (keys : List UInt8) : BitVec 32 :=
  keys.foldl (fun flag scanCode => (readCharacter scanCode flag).2) 0

/-! ### What the keys are -/

/-- Of a byte and the byte before it, neither is a prefix. -/
def unprefixed (p : UInt8 × UInt8) : Bool := p.1 ≠ 0xE0 ∧ p.2 ≠ 0xE0

/-- The codes among the bytes that no prefix has consumed. -/
def codes (keys : List UInt8) : List UInt8 :=
  (((0 :: keys).zip keys).filter unprefixed).map Prod.snd

/-- The key is held: the last of its make codes `make` has not been followed by its break code. -/
def Held (make release : UInt8) (codes : List UInt8) : Prop :=
  ∃ before after, codes = before ++ make :: after ∧ release ∉ after

/-- The left shift key is held. -/
def LeftHeld (keys : List UInt8) : Prop := Held 0x2A 0xAA (codes keys)

/-- The right shift key is held. -/
def RightHeld (keys : List UInt8) : Prop := Held 0x36 0xB6 (codes keys)

/-- The flags say what the keys are. -/
structure FlagsFollow (keys : List UInt8) (flag : BitVec 32) : Prop where
  shifted : flag &&& shift ≠ 0 ↔ LeftHeld keys ∨ RightHeld keys
  e0 : flag &&& e0Sign ≠ 0 ↔ keys.getLast? = some 0xE0
  caps : flag &&& capsLock ≠ 0 ↔ Odd ((codes keys).count 0x3A)

/-- The last code of a shift key. -/
def lastShiftCode (codes : List UInt8) : Option UInt8 :=
  (codes.filter (fun c => c ∈ shiftCodes)).getLast?

/-- The last code of a shift key is the break code of one of them while the other one is held. -/
def ReleasedWhileHeld (keys : List UInt8) : Prop :=
  (lastShiftCode (codes keys) = some 0xAA ∧ RightHeld keys)
    ∨ (lastShiftCode (codes keys) = some 0xB6 ∧ LeftHeld keys)

variable {keys : List UInt8} {c make release : UInt8} {e s l : Bool}

/-! ### The codes -/

theorem zip_concat {α : Type} (p : α) (xs : List α) (x : α) :
  (p :: (xs ++ [x])).zip (xs ++ [x]) = (p :: xs).zip xs ++ [((p :: xs).getLast (by simp), x)]
  := by
  induction xs generalizing p with
  | nil => rfl
  | cons y xs ih =>
      have hzip := ih y
      rw [List.cons_append, List.zip_cons_cons, hzip, List.zip_cons_cons, List.cons_append]
      rfl

/-- The codes after one more byte. -/
theorem codes_concat (keys : List UInt8) (c : UInt8) :
  codes (keys ++ [c])
    = if c ≠ 0xE0 ∧ keys.getLast? ≠ some 0xE0 then codes keys ++ [c] else codes keys
  := by
  have hlast : (0 :: keys).getLast (by simp) ≠ 0xE0 ↔ keys.getLast? ≠ some 0xE0 := by
    rcases List.eq_nil_or_concat' keys with rfl | ⟨rest, d, rfl⟩
    · simp
    · simp [List.getLast_cons]
  unfold codes
  rw [zip_concat, List.filter_append, List.map_append]
  by_cases h : c ≠ 0xE0 ∧ keys.getLast? ≠ some 0xE0
  · have hcode : unprefixed ((0 :: keys).getLast (by simp), c) = true :=
      decide_eq_true ⟨hlast.mpr h.2, h.1⟩
    rw [if_pos h, List.filter_cons_of_pos hcode]
    rfl
  · have hcode : ¬ unprefixed ((0 :: keys).getLast (by simp), c) = true := by
      intro hcode
      obtain ⟨hbefore, hc⟩ := of_decide_eq_true hcode
      exact h ⟨hc, hlast.mp hbefore⟩
    rw [if_neg h, List.filter_cons_of_neg hcode]
    exact List.append_nil _

theorem not_held_nil :
  ¬ Held make release []
  := by
  rintro ⟨before, after, heq, _⟩
  simp at heq

/-- A key is held after its make code, and otherwise when it was held and this is not its break
code. -/
theorem held_concat {xs : List UInt8} (hne : make ≠ release) :
  Held make release (xs ++ [c]) ↔ c = make ∨ (c ≠ release ∧ Held make release xs)
  := by
  constructor
  · rintro ⟨before, after, heq, hnot⟩
    rcases List.eq_nil_or_concat' after with rfl | ⟨rest, d, rfl⟩
    · left
      exact (List.append_inj' heq rfl).2 |> List.singleton_inj.mp
    · right
      have heq : xs ++ [c] = (before ++ make :: rest) ++ [d] := by
        rw [heq, List.append_assoc, List.cons_append]
      obtain ⟨rfl, hcd⟩ := List.append_inj' heq rfl
      obtain rfl := List.singleton_inj.mp hcd
      constructor
      · rintro rfl
        exact hnot (List.mem_append_right _ (List.mem_singleton_self c))
      · exact ⟨before, rest, rfl, fun hmem => hnot (List.mem_append_left _ hmem)⟩
  · rintro (rfl | ⟨hc, before, after, rfl, hnot⟩)
    · exact ⟨xs, [], rfl, List.not_mem_nil⟩
    · refine ⟨before, after ++ [c], by rw [List.append_assoc, List.cons_append], ?_⟩
      intro hmem
      rcases List.mem_append.mp hmem with hmem | hmem
      · exact hnot hmem
      · exact hc (List.mem_singleton.mp hmem).symm

theorem lastShiftCode_concat (xs : List UInt8) (c : UInt8) :
  lastShiftCode (xs ++ [c]) = if c ∈ shiftCodes then some c else lastShiftCode xs
  := by
  unfold lastShiftCode
  rw [List.filter_append]
  by_cases hc : c ∈ shiftCodes
  · have hcode : decide (c ∈ shiftCodes) = true := decide_eq_true hc
    rw [if_pos hc, List.filter_cons, if_pos hcode]
    exact List.getLast?_concat
  · have hcode : ¬ decide (c ∈ shiftCodes) = true := fun h => hc (of_decide_eq_true h)
    rw [if_neg hc, List.filter_cons, if_neg hcode, List.filter_nil, List.append_nil]

/-! ### The flags -/

/-- The word whose flags are `e`, `s` and `l`. -/
def pack (e s l : Bool) : BitVec 32 :=
  (if e then e0Sign else 0) ||| (if s then shift else 0) ||| (if l then capsLock else 0)

theorem pack_e0Sign : pack e s l &&& e0Sign ≠ 0 ↔ e = true := by
  revert e s l
  decide

theorem pack_shift : pack e s l &&& shift ≠ 0 ↔ s = true := by
  revert e s l
  decide

theorem pack_capsLock : pack e s l &&& capsLock ≠ 0 ↔ l = true := by
  revert e s l
  decide

/-- The shift flag after a code. -/
def shiftFlag (c : UInt8) (s : Bool) : Bool :=
  if c = 0x2A ∨ c = 0x36 then true else if c = 0xAA ∨ c = 0xB6 then false else s

/-- A code that is in neither table changes no flag. -/
theorem readCharacter_other {flag : BitVec 32} (hsign : c ≠ 0xE0) (hflag : ¬ flag &&& e0Sign ≠ 0)
    (hshift : c ∉ shiftCodes) (hlock : c ≠ 0x3A) :
  (readCharacter c flag).2 = flag
  := by
  have hshiftCode : shiftCode c = 0 := if_neg hshift
  have hlockCode : lockCode c = 0 := if_neg hlock
  unfold readCharacter
  rw [if_neg hsign, if_neg hflag, hshiftCode, hlockCode]
  split
  · change flag &&& ~~~0#32 = flag
    rw [BitVec.not_zero, BitVec.and_allOnes]
  · change (flag ||| 0#32) ^^^ 0#32 = flag
    rw [BitVec.xor_zero, BitVec.or_zero]

/-- The flags after a byte. -/
theorem readCharacter_pack (c : UInt8) (e s l : Bool) :
  (readCharacter c (pack e s l)).2 =
    if c = 0xE0 then pack true s l
    else if e then pack false s l
    else pack false (shiftFlag c s) (l ^^ decide (c = 0x3A))
  := by
  by_cases hsign : c = 0xE0
  · subst hsign
    revert e s l
    decide
  rw [if_neg hsign]
  cases e with
  | true =>
      unfold readCharacter
      rw [if_neg hsign, if_pos (pack_e0Sign.mpr rfl), if_pos rfl]
      revert s l
      decide
  | false =>
      rw [if_neg Bool.false_ne_true]
      by_cases hlock : c = 0x3A
      · subst hlock
        revert s l
        decide
      by_cases hshift : c ∈ shiftCodes
      · unfold shiftCodes at hshift
        simp only [List.mem_cons, List.not_mem_nil, or_false] at hshift
        rcases hshift with rfl | rfl | rfl | rfl
        all_goals
          revert s l
          decide
      · have hflag : ¬ pack false s l &&& e0Sign ≠ 0 :=
          fun h => Bool.false_ne_true (pack_e0Sign.mp h)
        have hkeep : shiftFlag c s = s := by
          unfold shiftCodes at hshift
          simp only [List.mem_cons, List.not_mem_nil, or_false, not_or] at hshift
          obtain ⟨hleft, hright, hleftBreak, hrightBreak⟩ := hshift
          rw [shiftFlag, if_neg (not_or.mpr ⟨hleft, hright⟩),
            if_neg (not_or.mpr ⟨hleftBreak, hrightBreak⟩)]
        rw [readCharacter_other hsign hflag hshift hlock, hkeep, decide_eq_false hlock,
          Bool.xor_false]

/-- The shift flag after the codes. -/
def shiftRun (xs : List UInt8) : Bool := xs.foldl (fun s c => shiftFlag c s) false

/-- The word `s_flag` consists of the flags that the codes and the last byte give. -/
theorem flagAfter_eq (keys : List UInt8) :
  flagAfter keys = pack (decide (keys.getLast? = some 0xE0)) (shiftRun (codes keys))
    (decide (Odd ((codes keys).count 0x3A)))
  := by
  induction keys using List.reverseRecOn with
  | nil => rfl
  | append_singleton keys c ih =>
      have hstep : flagAfter (keys ++ [c]) = (readCharacter c (flagAfter keys)).2 := by
        unfold flagAfter
        rw [List.foldl_append]
        rfl
      rw [hstep, ih, readCharacter_pack, codes_concat, List.getLast?_concat]
      by_cases hsign : c = 0xE0
      · rw [if_pos hsign, if_neg (fun h => h.1 hsign), hsign, decide_eq_true rfl]
      have hlast : decide (some c = some (0xE0 : UInt8)) = false :=
        decide_eq_false (fun h => hsign (Option.some.inj h))
      rw [if_neg hsign, hlast]
      by_cases hbefore : keys.getLast? = some 0xE0
      · rw [if_pos (decide_eq_true hbefore), if_neg (fun h => h.2 hbefore)]
      · have hrun : shiftRun (codes keys ++ [c]) = shiftFlag c (shiftRun (codes keys)) := by
          unfold shiftRun
          rw [List.foldl_append]
          rfl
        have hcount : decide (Odd ((codes keys ++ [c]).count 0x3A))
            = (decide (Odd ((codes keys).count 0x3A)) ^^ decide (c = 0x3A)) := by
          rw [List.count_append, List.count_singleton]
          by_cases hlock : c = 0x3A
          · subst hlock
            rw [if_pos (beq_self_eq_true _), decide_eq_true rfl, Bool.xor_true, ← decide_not]
            exact decide_eq_decide.mpr Nat.odd_add_one
          · simp [hlock]
        rw [if_neg (by simpa using hbefore), if_pos ⟨hsign, hbefore⟩, hrun, hcount]

/-! ### The shift keys -/

/-- What the last code of a shift key says about the shift flag and about the keys. -/
structure LastShift (xs : List UInt8) (last : Option UInt8) : Prop where
  flag : shiftRun xs = true ↔ last = some 0x2A ∨ last = some 0x36
  code : ∀ c, last = some c → c ∈ shiftCodes
  released : last = none → ¬ Held 0x2A 0xAA xs ∧ ¬ Held 0x36 0xB6 xs
  left : last = some 0x2A → Held 0x2A 0xAA xs
  right : last = some 0x36 → Held 0x36 0xB6 xs
  leftBreak : last = some 0xAA → ¬ Held 0x2A 0xAA xs
  rightBreak : last = some 0xB6 → ¬ Held 0x36 0xB6 xs

theorem LastShift.nil :
  LastShift [] none
  where
  flag := by decide
  code := nofun
  released _ := ⟨not_held_nil, not_held_nil⟩
  left := nofun
  right := nofun
  leftBreak := nofun
  rightBreak := nofun

/-- A code that is not one of a shift key changes nothing. -/
theorem LastShift.other {xs : List UInt8} {last : Option UInt8} (h : LastShift xs last)
    (hc : c ∉ shiftCodes) :
  LastShift (xs ++ [c]) last
  := by
  unfold shiftCodes at hc
  simp only [List.mem_cons, List.not_mem_nil, or_false, not_or] at hc
  obtain ⟨hleft, hright, hleftBreak, hrightBreak⟩ := hc
  have hleftHeld : Held 0x2A 0xAA (xs ++ [c]) ↔ Held 0x2A 0xAA xs := by
    rw [held_concat (by decide)]
    tauto
  have hrightHeld : Held 0x36 0xB6 (xs ++ [c]) ↔ Held 0x36 0xB6 xs := by
    rw [held_concat (by decide)]
    tauto
  have hrun : shiftRun (xs ++ [c]) = shiftRun xs := by
    unfold shiftRun
    rw [List.foldl_append, List.foldl_cons, List.foldl_nil, shiftFlag,
      if_neg (not_or.mpr ⟨hleft, hright⟩), if_neg (not_or.mpr ⟨hleftBreak, hrightBreak⟩)]
  constructor
  · rw [hrun]
    exact h.flag
  · exact h.code
  · rw [hleftHeld, hrightHeld]
    exact h.released
  · rw [hleftHeld]
    exact h.left
  · rw [hrightHeld]
    exact h.right
  · rw [hleftHeld]
    exact h.leftBreak
  · rw [hrightHeld]
    exact h.rightBreak

/-- The code of a shift key is the last one. -/
theorem LastShift.code_concat (xs : List UInt8) (hc : c ∈ shiftCodes) :
  LastShift (xs ++ [c]) (some c)
  := by
  have hrun : shiftRun (xs ++ [c]) = shiftFlag c (shiftRun xs) := by
    unfold shiftRun
    rw [List.foldl_append]
    rfl
  have hmem : c = 0x2A ∨ c = 0x36 ∨ c = 0xAA ∨ c = 0xB6 := by
    unfold shiftCodes at hc
    simpa using hc
  constructor
  · rw [hrun]
    rcases hmem with rfl | rfl | rfl | rfl
    all_goals
      cases shiftRun xs
      all_goals decide
  · intro d hd
    exact Option.some.inj hd ▸ hc
  · nofun
  · intro h
    exact (held_concat (by decide)).mpr (Or.inl (Option.some.inj h))
  · intro h
    exact (held_concat (by decide)).mpr (Or.inl (Option.some.inj h))
  · intro h hheld
    obtain rfl := Option.some.inj h
    rcases (held_concat (by decide)).mp hheld with hmake | ⟨hbreak, _⟩
    · exact absurd hmake (by decide)
    · exact hbreak rfl
  · intro h hheld
    obtain rfl := Option.some.inj h
    rcases (held_concat (by decide)).mp hheld with hmake | ⟨hbreak, _⟩
    · exact absurd hmake (by decide)
    · exact hbreak rfl

theorem lastShift (xs : List UInt8) :
  LastShift xs (lastShiftCode xs)
  := by
  induction xs using List.reverseRecOn with
  | nil => exact LastShift.nil
  | append_singleton xs c ih =>
      rw [lastShiftCode_concat]
      by_cases hc : c ∈ shiftCodes
      · rw [if_pos hc]
        exact LastShift.code_concat xs hc
      · rw [if_neg hc]
        exact ih.other hc

/-- The shift flag is set exactly when a shift key is held, unless the last code of a shift key
released one of them while the other one is held. -/
theorem shiftRun_iff (keys : List UInt8) :
  (shiftRun (codes keys) = true ↔ LeftHeld keys ∨ RightHeld keys) ↔ ¬ ReleasedWhileHeld keys
  := by
  have h := lastShift (codes keys)
  unfold ReleasedWhileHeld LeftHeld RightHeld
  rw [h.flag]
  rcases hlast : lastShiftCode (codes keys) with _ | c
  · have hnone := h.released hlast
    simp [hnone]
  · have hmem := h.code c hlast
    unfold shiftCodes at hmem
    simp only [List.mem_cons, List.not_mem_nil, or_false] at hmem
    rcases hmem with rfl | rfl | rfl | rfl
    · have hleft := h.left hlast
      simp [hleft]
    · have hright := h.right hlast
      simp [hright]
    · have hleft := h.leftBreak hlast
      simp [hleft]
    · have hright := h.rightBreak hlast
      simp [hright]

/-- The flags of the prefix and of caps lock are right in any case. -/
theorem flagAfter_e0_caps (keys : List UInt8) :
  (flagAfter keys &&& e0Sign ≠ 0 ↔ keys.getLast? = some 0xE0)
    ∧ (flagAfter keys &&& capsLock ≠ 0 ↔ Odd ((codes keys).count 0x3A))
  := by
  rw [flagAfter_eq, pack_e0Sign, pack_capsLock, decide_eq_true_iff, decide_eq_true_iff]
  exact ⟨Iff.rfl, Iff.rfl⟩

/-- After any bytes, the flag of the prefix says what the last byte was, the flag of caps lock says
whether its key was pressed an odd number of times, and the shift flag says whether a shift key is
held, if and only if the last code of a shift key was not the release of one of them while the
other one is held. -/
theorem flagsFollow_iff (keys : List UInt8) :
  FlagsFollow keys (flagAfter keys) ↔ ¬ ReleasedWhileHeld keys
  := by
  have hshift : flagAfter keys &&& shift ≠ 0 ↔ shiftRun (codes keys) = true := by
    rw [flagAfter_eq, pack_shift]
  have hrest := flagAfter_e0_caps keys
  rw [← shiftRun_iff, ← hshift]
  constructor
  · intro h
    exact h.shifted
  · intro h
    exact ⟨h, hrest.1, hrest.2⟩

/-- Both shift keys are pressed and the left one is released: the right one is held, and the
shift flag is clear. -/
theorem not_flagsFollow :
  ¬ FlagsFollow [0x2A, 0x36, 0xAA] (flagAfter [0x2A, 0x36, 0xAA])
    ∧ RightHeld [0x2A, 0x36, 0xAA] ∧ flagAfter [0x2A, 0x36, 0xAA] &&& shift = 0
  := by
  have hheld : RightHeld [0x2A, 0x36, 0xAA] := ⟨[0x2A], [0xAA], rfl, by decide⟩
  have hclear : flagAfter [0x2A, 0x36, 0xAA] &&& shift = 0 := by decide
  refine ⟨?_, hheld, hclear⟩
  intro h
  exact h.shifted.mpr (Or.inr hheld) hclear

end LarvaOS
