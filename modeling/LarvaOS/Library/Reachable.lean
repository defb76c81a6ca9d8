/-!
# Reachable states

A transition function `step : ι → σ → Option σ` takes an operation and a state to the
next state, or to `none` when the operation is not possible in the state.
`Reachable step Ok s t` says that the state `t` is reached from `s` by operations that
satisfy `Ok` in the states in which they are performed.  A predicate that every such
step preserves holds in every state reached from a state in which it holds.
-/

universe u v

variable {ι : Type u} {σ : Type v}

/-- The state is reached from `s` by operations that satisfy `Ok`. -/
inductive Reachable (step : ι → σ → Option σ) (Ok : ι → σ → Prop) (s : σ) : σ → Prop where
  | refl : Reachable step Ok s s
  | step {t t' : σ} (op : ι) : Reachable step Ok s t → Ok op t → step op t = some t' →
      Reachable step Ok s t'

namespace Reachable

variable {step : ι → σ → Option σ} {Ok : ι → σ → Prop} {s t u : σ}

/-- A predicate preserved by every step that satisfies `Ok` holds in every reachable
state. -/
theorem invariant {P : σ → Prop}
    (hstep : ∀ op t t', P t → Ok op t → step op t = some t' → P t')
    (hs : P s) (h : Reachable step Ok s t) :
  P t
  := by
  induction h with
  | refl => exact hs
  | step op _ hok hop ih => exact hstep op _ _ ih hok hop

theorem trans (h : Reachable step Ok s t) (h' : Reachable step Ok t u) :
  Reachable step Ok s u
  := by
  induction h' with
  | refl => exact h
  | step op _ hok hop ih => exact Reachable.step op ih hok hop

/-- Reachability by operations that satisfy a stronger condition. -/
theorem mono {Ok' : ι → σ → Prop} (hok : ∀ op t, Ok op t → Ok' op t)
    (h : Reachable step Ok s t) :
  Reachable step Ok' s t
  := by
  induction h with
  | refl => exact Reachable.refl
  | step op _ h hop ih => exact Reachable.step op ih (hok op _ h) hop

end Reachable
