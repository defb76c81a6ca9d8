import LarvaOS.File.Directory
import Mathlib.Data.List.TakeWhile
import Mathlib.Tactic.SplitIfs

/-!
# File names

A directory entry has a name of 8 bytes and an extension of 3 bytes, padded with blanks.
`GetRelativeFileName` puts a dot between them, also when the extension is empty, and
`strcasecmp` compares the result with the name that a program asks for.  `ls` has its own
copy of `GetRelativeFileName`, and converts the result to lower case.

Two texts are the same up to case when `lowerCase` maps them to the same text.
-/

namespace LarvaOS

/-! ### Letter case -/

/-- The lower case letter of an upper case letter, and every other byte itself. -/
def lowerCase (c : UInt8) : UInt8 := if 0x41 ≤ c ∧ c ≤ 0x5A then c + 0x20 else c

/-- The texts are the same up to the case of letters. -/
def SameText (s t : List UInt8) : Prop := s.map lowerCase = t.map lowerCase

instance (s t : List UInt8) : Decidable (SameText s t) :=
  inferInstanceAs (Decidable (s.map lowerCase = t.map lowerCase))

variable {s t : List UInt8} {c d : UInt8}

theorem toNat_lowerCase (c : UInt8) :
  (lowerCase c).toNat = if 65 ≤ c.toNat ∧ c.toNat ≤ 90 then c.toNat + 32 else c.toNat
  := by
  unfold lowerCase
  have hiff : (0x41 ≤ c ∧ c ≤ 0x5A) ↔ 65 ≤ c.toNat ∧ c.toNat ≤ 90 := by
    rw [UInt8.le_iff_toNat_le, UInt8.le_iff_toNat_le]
    rfl
  by_cases hc : 65 ≤ c.toNat ∧ c.toNat ≤ 90
  · rw [if_pos hc, if_pos (hiff.mpr hc), UInt8.toNat_add]
    exact Nat.mod_eq_of_lt (by have : (0x20 : UInt8).toNat = 32 := rfl; omega)
  · rw [if_neg hc, if_neg (mt hiff.mp hc)]

theorem isupper_iff {n : Int} :
  isupper n = true ↔ 65 ≤ n ∧ n ≤ 90
  := by
  unfold isupper
  rw [Bool.and_eq_true, decide_eq_true_iff, decide_eq_true_iff]

/-- `tolower` on the value of a `char`. -/
theorem tolower_char (c : UInt8) :
  tolower (char c) = char (lowerCase c)
  := by
  have hc := c.toNat_lt
  unfold tolower char
  rw [toNat_lowerCase, Int.bmod_def, Int.bmod_def]
  simp only [isupper_iff]
  split_ifs <;> omega

theorem char_zero :
  char 0 = 0
  := by
  unfold char
  rw [UInt8.toNat_zero, Nat.cast_zero, Int.zero_bmod]

theorem char_injective :
  Function.Injective char
  := by
  intro c d h
  apply UInt8.toNat.inj
  have hc := c.toNat_lt
  have hd := d.toNat_lt
  unfold char at h
  rw [Int.bmod_def, Int.bmod_def] at h
  split at h <;> split at h <;> omega

theorem lowerCase_zero :
  lowerCase 0 = 0
  := rfl

theorem lowerCase_eq_zero :
  lowerCase c = 0 ↔ c = 0
  := by
  rw [← UInt8.toNat_inj, ← UInt8.toNat_inj, toNat_lowerCase, UInt8.toNat_zero]
  split <;> omega

theorem tolower_sub_eq_zero :
  tolower (char c) - tolower (char d) = 0 ↔ lowerCase c = lowerCase d
  := by
  rw [tolower_char, tolower_char, sub_eq_zero, char_injective.eq_iff]

/-- `strcasecmp` of strings is zero if and only if they are the same up to case. -/
theorem strcasecmp_eq_zero (hs : 0 ∉ s) (ht : 0 ∉ t) :
  strcasecmp s t = 0 ↔ SameText s t
  := by
  unfold SameText
  induction s generalizing t with
  | nil =>
      cases t with
      | nil => exact ⟨fun _ => rfl, fun _ => rfl⟩
      | cons d t =>
          have hd : d ≠ 0 := fun e => ht (e ▸ List.mem_cons_self)
          have hne : tolower (char 0) - tolower (char d) ≠ 0 := by
            rw [Ne, tolower_sub_eq_zero, eq_comm, lowerCase_zero, lowerCase_eq_zero]
            exact hd
          rw [char_zero] at hne
          exact ⟨fun h => absurd h hne, fun h => absurd h.symm (List.cons_ne_nil _ _)⟩
  | cons c s ih =>
      have hc : c ≠ 0 := fun e => hs (e ▸ List.mem_cons_self)
      cases t with
      | nil =>
          have hne : tolower (char c) - tolower (char 0) ≠ 0 := by
            rw [Ne, tolower_sub_eq_zero, lowerCase_zero, lowerCase_eq_zero]
            exact hc
          rw [char_zero] at hne
          exact ⟨fun h => absurd h hne, fun h => absurd h (List.cons_ne_nil _ _)⟩
      | cons d t =>
          have hrest := ih (fun h => hs (List.mem_cons_of_mem c h))
            (fun h => ht (List.mem_cons_of_mem d h))
          unfold strcasecmp
          rw [List.map_cons, List.map_cons, List.cons.injEq]
          by_cases heq : lowerCase c = lowerCase d
          · rw [if_neg (not_not.mpr (tolower_sub_eq_zero.mpr heq)), hrest]
            exact (and_iff_right heq).symm
          · have hne : tolower (char c) - tolower (char d) ≠ 0 := mt tolower_sub_eq_zero.mp heq
            rw [if_pos hne]
            exact ⟨fun h => absurd h hne, fun h => absurd h.1 heq⟩

/-! ### The text of a name -/

/-- The bytes of a field before its first zero or blank. -/
def fieldText (field : List UInt8) : List UInt8 := field.takeWhile (fun c => c ≠ 0 && c ≠ 0x20)

theorem getRelativeFileName_eq (entry : DirEntry) :
  getRelativeFileName entry = fieldText entry.name ++ [0x2E] ++ fieldText entry.ext
  := rfl

theorem mem_fieldText {field : List UInt8} (hc : c ∈ fieldText field) :
  c ≠ 0 ∧ c ≠ 0x20
  := by
  have h := List.mem_takeWhile_imp hc
  rwa [Bool.and_eq_true, decide_eq_true_iff, decide_eq_true_iff] at h

/-- The text of a name is a string. -/
theorem zero_not_mem_getRelativeFileName (entry : DirEntry) :
  0 ∉ getRelativeFileName entry
  := by
  rw [getRelativeFileName_eq]
  intro h
  rcases List.mem_append.mp h with h | h
  · rcases List.mem_append.mp h with h | h
    · exact (mem_fieldText h).1 rfl
    · exact absurd h (by decide)
  · exact (mem_fieldText h).1 rfl

/-- The text of a name and its terminating zero fit the buffer of 13 bytes. -/
theorem length_getRelativeFileName {entry : DirEntry} (hname : entry.name.length = 8)
    (hext : entry.ext.length = 3) :
  (getRelativeFileName entry).length + 1 ≤ 13
  := by
  have hlength : ∀ field : List UInt8, (fieldText field).length ≤ field.length :=
    fun field => (List.takeWhile_sublist _).length_le
  have hname' := hlength entry.name
  have hext' := hlength entry.ext
  rw [getRelativeFileName_eq, List.length_append, List.length_append, List.length_singleton]
  omega

theorem DirEntry.length_load (b : Bytes) (a : ℕ) :
  (DirEntry.load b a).name.length = 8 ∧ (DirEntry.load b a).ext.length = 3
  := by
  constructor
  · exact (List.length_map _).trans List.length_range
  · exact (List.length_map _).trans List.length_range

/-- The entry has a valid name, padded with blanks: a base of 1 to 8 bytes and an extension
of at most 3 bytes, without blanks, dots and zeros. -/
structure ShortName (entry : DirEntry) (base ext : List UInt8) : Prop where
  name_eq : entry.name = base ++ List.replicate (8 - base.length) 0x20
  ext_eq : entry.ext = ext ++ List.replicate (3 - ext.length) 0x20
  base_length : 1 ≤ base.length ∧ base.length ≤ 8
  ext_length : ext.length ≤ 3
  base_chars : ∀ c ∈ base, c ≠ 0 ∧ c ≠ 0x20 ∧ c ≠ 0x2E
  ext_chars : ∀ c ∈ ext, c ≠ 0 ∧ c ≠ 0x20 ∧ c ≠ 0x2E

/-- The ordinary text of a name: the extension follows after a dot, if there is one. -/
def shortText (base ext : List UInt8) : List UInt8 :=
  if ext = [] then base else base ++ [0x2E] ++ ext

theorem fieldText_padded {text : List UInt8} (h : ∀ c ∈ text, c ≠ 0 ∧ c ≠ 0x20 ∧ c ≠ 0x2E)
    (n : ℕ) :
  fieldText (text ++ List.replicate n 0x20) = text
  := by
  have hpad : (List.replicate n (0x20 : UInt8)).takeWhile (fun c => c ≠ 0 && c ≠ 0x20) = [] := by
    cases n with
    | zero => rfl
    | succ n => rfl
  unfold fieldText
  rw [List.takeWhile_append_of_pos, hpad, List.append_nil]
  intro c hc
  rw [Bool.and_eq_true, decide_eq_true_iff, decide_eq_true_iff]
  exact ⟨(h c hc).1, (h c hc).2.1⟩

/-- `GetRelativeFileName` puts a dot after the base in any case. -/
theorem ShortName.getRelativeFileName {entry : DirEntry} {base ext : List UInt8}
    (h : ShortName entry base ext) :
  LarvaOS.getRelativeFileName entry = base ++ [0x2E] ++ ext
  := by
  rw [getRelativeFileName_eq, h.name_eq, h.ext_eq, fieldText_padded h.base_chars,
    fieldText_padded h.ext_chars]

theorem lowerCase_eq_dot :
  lowerCase c = 0x2E ↔ c = 0x2E
  := by
  rw [← UInt8.toNat_inj, ← UInt8.toNat_inj, toNat_lowerCase]
  have hdot : (0x2E : UInt8).toNat = 46 := rfl
  split <;> omega

/-- Texts with one dot are the same up to case when the parts before and after it are. -/
theorem sameText_dot {base ext base' ext' : List UInt8} (hbase : 0x2E ∉ base)
    (hbase' : 0x2E ∉ base') (h : SameText (base ++ [0x2E] ++ ext) (base' ++ [0x2E] ++ ext')) :
  SameText base base' ∧ SameText ext ext'
  := by
  have hbefore : ∀ s t : List UInt8, 0x2E ∉ s →
      ((s ++ [0x2E] ++ t).map lowerCase).takeWhile (· ≠ 0x2E) = s.map lowerCase := by
    intro s t hs
    rw [List.append_assoc, List.map_append, List.takeWhile_append_of_pos]
    · exact List.append_nil _
    · intro d hd
      obtain ⟨c, hc, rfl⟩ := List.mem_map.mp hd
      rw [decide_eq_true_iff, Ne, lowerCase_eq_dot]
      rintro rfl
      exact hs hc
  have hparts : SameText base base' := by
    have htake := congrArg (List.takeWhile (· ≠ 0x2E)) h
    rwa [hbefore _ _ hbase, hbefore _ _ hbase'] at htake
  refine ⟨hparts, ?_⟩
  unfold SameText at h hparts ⊢
  rw [List.map_append, List.map_append, List.map_append, List.map_append, hparts] at h
  exact List.append_cancel_left h

end LarvaOS
