import LarvaOS.Library.Simulation
import Mathlib.Logic.Function.Basic

/-!
# Handles

The processes `π` hold handles: the table of a process maps numbers to descriptions, and
several numbers, of one or of several processes, may stand for the same description.  What
a description describes is seen through every handle to it, and it exists as long as some
number of some process stands for it.  There are no counters: that a description is not
used anymore is a property of the tables.
-/

universe u v w x

/-- The handles of the processes, and what they describe. -/
@[ext]
structure Handles (π : Type u) (ν : Type v) (δ : Type w) (χ : Type x) where
  table : π → ν → Option δ
  description : δ → Option χ

namespace Handles

variable {π : Type u} {ν : Type v} {δ : Type w} {χ : Type x}

/-- What happens to the handles of a process `p`: it gets a handle to a new description,
gives one up, changes what one describes, gives all to a process without handles, or
gives all up. -/
inductive Event (π : Type u) (ν : Type v) (δ : Type w) (χ : Type x) where
  | opened (p : π) (n : ν) (d : δ) (x : χ)
  | closed (p : π) (n : ν)
  | changed (p : π) (n : ν) (x : χ)
  | shared (p p' : π)
  | dropped (p : π)

/-- Some process has a handle to the description. -/
def Held (h : Handles π ν δ χ) (d : δ) : Prop := ∃ p n, h.table p n = some d

open Classical in
/-- Descriptions to which there is no handle are given up. -/
noncomputable def collect (h : Handles π ν δ χ) : Handles π ν δ χ :=
  { h with description := fun d => if h.Held d then h.description d else none }

open Classical in
/-- An event. -/
noncomputable def step [DecidableEq π] [DecidableEq ν] [DecidableEq δ] :
    Event π ν δ χ → Handles π ν δ χ → Option (Handles π ν δ χ)
  | .opened p n d x, h =>
      if h.table p n = none ∧ h.description d = none then
        some {
          table := Function.update h.table p (Function.update (h.table p) n (some d))
          description := Function.update h.description d (some x) }
      else none
  | .closed p n, h =>
      if h.table p n = none then none
      else some (collect { h with
        table := Function.update h.table p (Function.update (h.table p) n none) })
  | .changed p n x, h => (h.table p n).map (fun d =>
      { h with description := Function.update h.description d (some x) })
  | .shared p p', h =>
      if ∀ n, h.table p' n = none then
        some { h with table := Function.update h.table p' (h.table p) }
      else none
  | .dropped p, h =>
      some (collect { h with table := Function.update h.table p (fun _ => none) })

/-- The descriptions that are left are those to which there are handles. -/
theorem collect_eq {h h' : Handles π ν δ χ} (htable : h'.table = h.table)
    (hheld : ∀ d, h'.Held d → h'.description d = h.description d)
    (hnot : ∀ d, ¬ h'.Held d → h'.description d = none) :
  h' = h.collect
  := by
  have hiff : ∀ d, h.Held d ↔ h'.Held d := by
    intro d
    unfold Held
    rw [htable]
  apply Handles.ext
  · exact htable
  · funext d
    unfold collect
    dsimp only
    split
    next hd => exact hheld d ((hiff d).mp hd)
    next hd => exact hnot d (fun hd' => hd ((hiff d).mpr hd'))

end Handles
