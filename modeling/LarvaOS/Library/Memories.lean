import LarvaOS.Library.Simulation
import Mathlib.Data.List.Basic
import Mathlib.Logic.Function.Basic

/-!
# Private memories

Every owner `ι` has a memory of its own, or none: a value `β` at every address `α`.  An owner
stores in its own memory, a memory is copied to an owner that has none, and an owner loses its
memory.  Nothing else happens, so what an owner finds at an address is what it has last stored
there, whatever the other owners do in between.
-/

universe u v w

/-- The memories of the owners. -/
abbrev Memories (ι : Type u) (α : Type v) (β : Type w) : Type max u v w := ι → Option (α → β)

/-- What happens to memories. `set i f` stores `f a` at the addresses `a` at which `f` is
defined. -/
inductive MemoryEvent (ι : Type u) (α : Type v) (β : Type w) where
  | set (i : ι) (f : α → Option β)
  | copy (i j : ι)
  | drop (i : ι)

namespace MemoryEvent

variable {ι : Type u} {α : Type v} {β : Type w} {i : ι} {a : α} {e : MemoryEvent ι α β}
  {es : List (MemoryEvent ι α β)} {M M' : Memories ι α β}

/-- The memory after values are stored in it. -/
def overlay (f : α → Option β) (m : α → β) : α → β := fun a => (f a).getD (m a)

/-- An event. -/
def step [DecidableEq ι] : MemoryEvent ι α β → Memories ι α β → Option (Memories ι α β)
  | set i f, M => (M i).map (fun m => Function.update M i (some (overlay f m)))
  | copy i j, M =>
      match M j with
      | none => (M i).map (fun m => Function.update M j (some m))
      | some _ => none
  | drop i, M => (M i).map (fun _ => Function.update M i none)

/-- The owner whose memory changes. -/
def target : MemoryEvent ι α β → ι
  | set i _ => i
  | copy _ j => j
  | drop i => i

/-- The memory of the owner stays, though its values may change. -/
def Keeps (i : ι) : MemoryEvent ι α β → Prop
  | set _ _ => True
  | copy _ j => j ≠ i
  | drop j => j ≠ i

/-- The value that the owner stores at the address. -/
def stored [DecidableEq ι] (i : ι) (a : α) : MemoryEvent ι α β → Option β
  | set j f => if j = i then f a else none
  | copy _ _ => none
  | drop _ => none

/-- The value that the owner has last stored at the address. -/
def lastStored [DecidableEq ι] (es : List (MemoryEvent ι α β)) (i : ι) (a : α) : Option β :=
  (es.filterMap (stored i a)).getLast?

variable [DecidableEq ι]

/-- An event changes the memory of its target only. -/
theorem step_other (h : e.step M = some M') (hi : e.target ≠ i) :
  M' i = M i
  := by
  cases e with
  | set j f =>
      obtain ⟨m, _, rfl⟩ := Option.map_eq_some_iff.mp h
      exact Function.update_of_ne hi.symm _ _
  | copy j j' =>
      rw [step] at h
      cases hj : M j' with
      | none =>
          rw [hj] at h
          obtain ⟨m, _, rfl⟩ := Option.map_eq_some_iff.mp h
          exact Function.update_of_ne hi.symm _ _
      | some m =>
          rw [hj] at h
          cases h
  | drop j =>
      obtain ⟨m, _, rfl⟩ := Option.map_eq_some_iff.mp h
      exact Function.update_of_ne hi.symm _ _

/-- An event that keeps the memory of an owner stores what the owner stores. -/
theorem step_keeps (h : e.step M = some M') (hi : e.Keeps i) :
  M' i = (M i).map (fun m a => (e.stored i a).getD (m a))
  := by
  have hid : (M i).map (fun m a => (none : Option β).getD (m a)) = M i := by
    cases M i with
    | none => rfl
    | some m => rfl
  cases e with
  | set j f =>
      by_cases hj : j = i
      · subst hj
        obtain ⟨m, hm, rfl⟩ := Option.map_eq_some_iff.mp h
        rw [Function.update_self, hm, Option.map_some]
        simp only [stored, if_true]
        rfl
      · simp only [stored, if_neg hj]
        rw [hid]
        exact step_other h hj
  | copy j j' => exact (step_other h hi).trans hid.symm
  | drop j => exact (step_other h hi).trans hid.symm

/-- An owner keeps its memory in an event when it has one before and after it. -/
theorem keeps_of_step (h : e.step M = some M') (hi : M i ≠ none) (hi' : M' i ≠ none) :
  e.Keeps i
  := by
  cases e with
  | set j f => exact trivial
  | copy j j' =>
      rintro rfl
      rw [step] at h
      cases hj : M j' with
      | none => exact hi hj
      | some m =>
          rw [hj] at h
          cases h
  | drop j =>
      rintro rfl
      obtain ⟨m, _, rfl⟩ := Option.map_eq_some_iff.mp h
      exact hi' (Function.update_self _ _ _)

/-- In a run that keeps the memory of an owner, the owner finds what it has last stored. -/
theorem run_lastStored (h : Run step (fun _ _ => True) M es M') (hi : ∀ e ∈ es, e.Keeps i) :
  M' i = (M i).map (fun m a => (lastStored es i a).getD (m a))
  := by
  induction h with
  | nil M =>
      cases M i with
      | none => rfl
      | some m => rfl
  | @cons M₀ M₁ M₂ es e _ hstep _ ih =>
      rw [ih (fun e' he' => hi e' (List.mem_cons_of_mem e he')),
        step_keeps hstep (hi e List.mem_cons_self), Option.map_map]
      apply congrArg (fun f => (M₀ i).map f)
      funext m a
      unfold lastStored
      simp only [Function.comp]
      cases hstored : e.stored i a with
      | none => rw [List.filterMap_cons_none hstored, Option.getD_none]
      | some c =>
          rw [List.filterMap_cons_some hstored, List.getLast?_cons, Option.getD_some,
            Option.getD_some]

end MemoryEvent
