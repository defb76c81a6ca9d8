import LarvaOS.Library.Reachable
import Mathlib.Data.Nat.Notation

/-!
# Runs and simulations

`Run step Ok s ops t` says that the operations `ops`, performed one after the other, lead
from `s` to `t`, and that every one of them satisfies `Ok` in the state in which it is
performed.

A simulation relates the states of a system to the states of a more abstract one, in
which an operation of the system is an event, or nothing at all.  A run of the system is
then a run of the abstract system on the events of its operations.

A rank is a bound on the number of ticks after which a goal is reached.  When no step
raises it and every tick lowers it, a run with more ticks than the rank reaches the goal.
-/

universe u v w x

variable {ι : Type u} {σ : Type v} {κ : Type w} {τ : Type x}

/-- The operations lead from one state to another, and satisfy `Ok`. -/
inductive Run (step : ι → σ → Option σ) (Ok : ι → σ → Prop) : σ → List ι → σ → Prop where
  | nil (s : σ) : Run step Ok s [] s
  | cons {s s' t : σ} {ops : List ι} (op : ι) : Ok op s → step op s = some s' →
      Run step Ok s' ops t → Run step Ok s (op :: ops) t

namespace Run

variable {step : ι → σ → Option σ} {Ok : ι → σ → Prop} {s t u : σ} {ops : List ι}

/-- One more operation at the end of a run. -/
theorem snoc (h : Run step Ok s ops t) (op : ι) (hok : Ok op t) (hop : step op t = some u) :
  Run step Ok s (ops ++ [op]) u
  := by
  induction h with
  | nil => exact Run.cons op hok hop (Run.nil u)
  | cons op' hok' hop' _ ih => exact Run.cons op' hok' hop' (ih hok hop)

/-- A run that goes on where another ends. -/
theorem append {ops' : List ι} (h : Run step Ok s ops t) (h' : Run step Ok t ops' u) :
  Run step Ok s (ops ++ ops') u
  := by
  induction h with
  | nil => exact h'
  | cons op hok hop _ ih => exact Run.cons op hok hop (ih h')

/-- The end of a run is reachable. -/
theorem reachable (h : Run step Ok s ops t) :
  Reachable step Ok s t
  := by
  induction h with
  | nil => exact Reachable.refl
  | cons op hok hop _ ih => exact (Reachable.step op .refl hok hop).trans ih

/-- A run whose operations satisfy a stronger condition. -/
theorem mono {Ok' : ι → σ → Prop} (hok : ∀ op s, Ok op s → Ok' op s) (h : Run step Ok s ops t) :
  Run step Ok' s ops t
  := by
  induction h with
  | nil => exact Run.nil _
  | cons op hop hstep _ ih => exact Run.cons op (hok op _ hop) hstep ih

/-- A predicate that every step preserves holds in the states of a run in which its
operations are performed. -/
theorem invariant {P : σ → Prop} (hstep : ∀ op s s', P s → Ok op s → step op s = some s' → P s')
    (hs : P s) (h : Run step Ok s ops t) :
  Run step (fun op s => Ok op s ∧ P s) s ops t
  := by
  induction h with
  | nil => exact Run.nil _
  | cons op hok hop _ ih => exact Run.cons op ⟨hok, hs⟩ hop (ih (hstep op _ _ hs hok hop))

/-- A predicate that holds before a step when it holds after it holds in every state of a
run when it holds at the end. -/
theorem strengthen {Ok' : ι → σ → Prop} {P : σ → Prop}
    (hback : ∀ op s s', Ok op s → step op s = some s' → P s' → P s)
    (hok : ∀ op s s', Ok op s → step op s = some s' → P s' → Ok' op s)
    (h : Run step Ok s ops t) (ht : P t) :
  P s ∧ Run step Ok' s ops t
  := by
  induction h with
  | nil => exact ⟨ht, Run.nil _⟩
  | cons op hop hstep _ ih =>
      obtain ⟨hs, hrun⟩ := ih ht
      exact ⟨hback op _ _ hop hstep hs, Run.cons op (hok op _ _ hop hstep hs) hstep hrun⟩

/-- A run with more ticks than the rank of its first state reaches the goal, with at most
that many ticks and one. -/
theorem reaches {R : ℕ → σ → Prop} {G : σ → Prop} {tick : ι → Bool} {n : ℕ}
    (hstep : ∀ n op s s', R n s → Ok op s → step op s = some s' →
      G s' ∨ ∃ m, R m s' ∧ m + (if tick op then 1 else 0) ≤ n)
    (h : Run step Ok s ops t) (hs : R n s) (hn : n < ops.countP tick) :
  ∃ before after u, ops = before ++ after ∧ before.countP tick ≤ n + 1
    ∧ Run step Ok s before u ∧ Run step Ok u after t ∧ G u
  := by
  induction h generalizing n with
  | nil => cases hn
  | @cons s s' t ops op hok hop hrun ih =>
      rcases hstep n op s s' hs hok hop with hgoal | ⟨m, hm, hle⟩
      · refine ⟨[op], ops, s', rfl, ?_, Run.cons op hok hop (Run.nil s'), hrun, hgoal⟩
        rw [List.countP_singleton]
        split <;> omega
      · rw [List.countP_cons] at hn
        obtain ⟨before, after, u, rfl, hcount, hbefore, hafter, hgoal⟩ := ih hm (by omega)
        refine ⟨op :: before, after, u, rfl, ?_, Run.cons op hok hop hbefore, hafter, hgoal⟩
        rw [List.countP_cons]
        omega

end Run

/-- An event of the abstract system, or nothing. -/
def stutter (step : κ → τ → Option τ) : Option κ → τ → Option τ
  | none, t => some t
  | some e, t => step e t

@[simp]
theorem stutter_none (step : κ → τ → Option τ) (t : τ) :
  stutter step none t = some t
  := rfl

@[simp]
theorem stutter_some (step : κ → τ → Option τ) (e : κ) (t : τ) :
  stutter step (some e) t = step e t
  := rfl

/-- The events that the operations are, one after the other. -/
def events (step : ι → σ → Option σ) (event : ι → σ → Option κ) : List ι → σ → List κ
  | [], _ => []
  | op :: ops, s => (event op s).toList ++ (step op s).elim [] (events step event ops)

/-- The last operation of a run comes last in the events. -/
theorem Run.events_snoc {step : ι → σ → Option σ} {Ok : ι → σ → Prop} {event : ι → σ → Option κ}
    {s t : σ} {ops : List ι} (h : Run step Ok s ops t) (op : ι) :
  events step event (ops ++ [op]) s = events step event ops s ++ events step event [op] t
  := by
  induction h with
  | nil s => rfl
  | @cons s s' t ops op' _ hstep _ ih =>
      have hcons (l : List ι) : events step event (op' :: l) s
          = (event op' s).toList ++ events step event l s' := by
        rw [events, hstep, Option.elim_some]
      rw [List.cons_append, hcons, hcons, ih, List.append_assoc]

/-- A step of a system that satisfies `Ok` is the event of an abstract system that `event`
says it is, or nothing. -/
structure Simulation (step : ι → σ → Option σ) (Ok : ι → σ → Prop) (step' : κ → τ → Option τ)
    (event : ι → σ → Option κ) (R : σ → τ → Prop) : Prop where
  step : ∀ op s s' t, R s t → Ok op s → step op s = some s' →
    ∃ t', stutter step' (event op s) t = some t' ∧ R s' t'

/-- A run of a system is a run of the abstract system on its events. -/
theorem Simulation.run {step : ι → σ → Option σ} {Ok : ι → σ → Prop} {step' : κ → τ → Option τ}
    {event : ι → σ → Option κ} {R : σ → τ → Prop} {s s' : σ} {t : τ} {ops : List ι}
    (h : Simulation step Ok step' event R) (hR : R s t) (hrun : Run step Ok s ops s') :
  ∃ t', Run step' (fun _ _ => True) t (events step event ops s) t' ∧ R s' t'
  := by
  induction hrun generalizing t with
  | nil => exact ⟨t, Run.nil t, hR⟩
  | @cons s₁ s₂ s₃ ops op hok hop _ ih =>
      obtain ⟨t₁, he, hR₁⟩ := h.step op s₁ s₂ t hR hok hop
      obtain ⟨t', hes, hR'⟩ := ih hR₁
      refine ⟨t', ?_, hR'⟩
      rw [events, hop, Option.elim_some]
      cases hevent : event op s₁ with
      | none =>
          rw [hevent] at he
          obtain rfl := Option.some.inj he
          exact hes
      | some e =>
          rw [hevent] at he
          exact Run.cons e trivial he hes
