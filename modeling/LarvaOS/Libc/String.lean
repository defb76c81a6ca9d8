import LarvaOS.Library.Bytes

/-!
# Memory and strings

The functions of `libc/string.c`, `libc/strings.c` and `libc/ctype.c` that the kernel and the shell
use, and `memmove`.  The loops of `memset` and `memcpy` store one byte at a time, in order of
address.  Addresses are natural numbers, since an area of memory does not wrap around.  A C string
is the list of its bytes before the terminating zero.
-/

namespace LarvaOS

/-- `memset`. -/
def memset (b : Bytes) (ptr : ℕ) (c : UInt8) : ℕ → Bytes
  | 0 => b
  | n + 1 => Function.update (memset b ptr c n) (ptr + n) c

/-- `memcpy`. -/
def memcpy : ℕ → Bytes → ℕ → ℕ → Bytes
  | 0, b, _, _ => b
  | n + 1, b, dest, src => memcpy n (Function.update b dest (b src)) (dest + 1) (src + 1)

/-- The second loop of `memmove`; the pointers start behind the two areas. -/
def memmoveDown : ℕ → Bytes → ℕ → ℕ → Bytes
  | 0, b, _, _ => b
  | n + 1, b, dest, src =>
      memmoveDown n (Function.update b (dest - 1) (b (src - 1))) (dest - 1) (src - 1)

/-- `memmove`; its first loop is the one of `memcpy`. -/
def memmove (n : ℕ) (b : Bytes) (dest src : ℕ) : Bytes :=
  if dest < src then memcpy n b dest src else memmoveDown n b (dest + n) (src + n)

/-- `memcmp`; the difference of the bytes is stored in a `signed char`. -/
def memcmp : ℕ → Bytes → ℕ → ℕ → Int
  | 0, _, _, _ => 0
  | c + 1, b, su1, su2 =>
      let res := Int.bmod ((b su1).toNat - (b su2).toNat) (2 ^ 8)
      if res ≠ 0 then res else memcmp c b (su1 + 1) (su2 + 1)

theorem memset_of_outside {b : Bytes} {ptr x : ℕ} {c : UInt8} :
  ∀ {n : ℕ}, x < ptr ∨ ptr + n ≤ x → memset b ptr c n x = b x
  | 0, _ => rfl
  | n + 1, h => by
      have hne : x ≠ ptr + n := by omega
      rw [memset, Function.update_of_ne hne, memset_of_outside (by omega)]

theorem memset_of_inside {b : Bytes} {ptr x : ℕ} {c : UInt8} :
  ∀ {n : ℕ}, ptr ≤ x → x < ptr + n → memset b ptr c n x = c
  | 0, h, h' => absurd h' (Nat.not_lt.mpr h)
  | n + 1, h, h' => by
      rw [memset]
      by_cases e : x = ptr + n
      · rw [e, Function.update_self]
      · rw [Function.update_of_ne e, memset_of_inside h (by omega)]

theorem memcpy_of_outside :
  ∀ {n : ℕ} {b : Bytes} {dest src x : ℕ}, x < dest ∨ dest + n ≤ x → memcpy n b dest src x = b x
  | 0, _, _, _, _, _ => rfl
  | n + 1, b, dest, src, x, h => by
      have hne : x ≠ dest := by omega
      rw [memcpy, memcpy_of_outside (by omega), Function.update_of_ne hne]

/-- A copy between disjoint ranges carries the bytes of the source over. -/
theorem memcpy_of_inside :
  ∀ {n : ℕ} {b : Bytes} {dest src i : ℕ}, dest + n ≤ src ∨ src + n ≤ dest → i < n →
    memcpy n b dest src (dest + i) = b (src + i)
  | n + 1, b, dest, src, 0, h, _ => by
      rw [memcpy, memcpy_of_outside (by omega), Nat.add_zero, Nat.add_zero, Function.update_self]
  | n + 1, b, dest, src, i + 1, h, hi => by
      have hsucc : dest + (i + 1) = dest + 1 + i := by omega
      have hsrc : src + 1 + i ≠ dest := by omega
      have hsrc' : src + 1 + i = src + (i + 1) := by omega
      rw [memcpy, hsucc, memcpy_of_inside (by omega) (by omega), Function.update_of_ne hsrc, hsrc']

attribute [irreducible] memset memcpy

/-- The value of a `char`. -/
def char (c : UInt8) : Int := Int.bmod c.toNat (2 ^ 8)

/-- `isupper`. -/
def isupper (c : Int) : Bool := 65 ≤ c && c ≤ 90

/-- `tolower`; the bit `0x20` of an upper case letter is not set. -/
def tolower (c : Int) : Int := if isupper c then c + 0x20 else c

/-- `strcasecmp`: the difference at the first position where the strings differ up to
case, or at their end. -/
def strcasecmp : List UInt8 → List UInt8 → Int
  | [], [] => 0
  | c :: _, [] => tolower (char c) - tolower 0
  | [], c :: _ => tolower 0 - tolower (char c)
  | c₁ :: s₁, c₂ :: s₂ =>
      if tolower (char c₁) - tolower (char c₂) ≠ 0 then
        tolower (char c₁) - tolower (char c₂)
      else strcasecmp s₁ s₂

end LarvaOS
