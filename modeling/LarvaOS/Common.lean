import Mathlib.Algebra.Group.Int.Defs
import Mathlib.Algebra.Group.Nat.Defs
import Mathlib.Logic.Basic

/-!
# Assertions and machine integers

`assert p` is the macro `ASSERT`: when `p` fails, `error_point` prints a message and
`panic` loops forever, so nothing after it happens; the outcome is `none`.  `int32 n`
is the value an `int` holds after `n` is stored in it.
-/

namespace LarvaOS

/-- `ASSERT(p)`. -/
def assert (p : Prop) [Decidable p] : Option Unit :=
  if p then some () else none

theorem assert_of {p : Prop} [Decidable p] (h : p) :
  assert p = some ()
  := if_pos h

theorem assert_eq_some {p : Prop} [Decidable p] {u : Unit} :
  assert p = some u ↔ p
  := by
  unfold assert
  split <;> simp_all

@[simp]
theorem assert_bind_eq_some {α : Type} {p : Prop} [Decidable p] {f : Unit → Option α} {x : α} :
  (assert p).bind f = some x ↔ p ∧ f () = some x
  := by
  unfold assert
  split <;> simp_all

/-- The value of a 32-bit signed integer after `n` is stored in it. -/
def int32 (n : Int) : Int := Int.bmod n (2 ^ 32)

theorem int32_of_range {n : Int} (hlo : -(2 ^ 31) ≤ n) (hhi : n < 2 ^ 31) :
  int32 n = n
  := by
  unfold int32
  rw [Int.bmod_def]
  split
  · omega
  · omega

theorem int32_add (n m : Int) :
  int32 (int32 n + m) = int32 (n + m)
  := Int.bmod_add_bmod

end LarvaOS
