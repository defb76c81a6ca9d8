import LarvaOS.Library.Simulation
import Mathlib.Data.List.Nodup

/-!
# Rotas

A rota shares one processor among tasks, first come, first served.  At most one task
runs; the others are ready, wait for a reason, or are dead.  A tick takes the processor
from the running task, which becomes ready behind the others; waking a reason makes the
tasks that wait for it ready, in the order in which they came.

No event loses or duplicates a task, except that a dead one is taken away.  A ready task
never moves back, and every tick brings it nearer to the processor.
-/

universe u v

/-- The state of the tasks. -/
@[ext]
structure Rota (π : Type u) (ω : Type v) where
  running : Option π
  ready : List π
  waiting : List (π × ω)
  dead : List π

namespace Rota

/-- What happens to the tasks. -/
inductive Event (π : Type u) (ω : Type v) where
  | tick
  | wait (reason : ω)
  | wake (reason : ω)
  | leave (reason : ω)
  | spawn (p : π)
  | reap (p : π)

variable {π : Type u} {ω : Type v}

/-- The tasks. -/
def members (r : Rota π ω) : List π :=
  r.running.toList ++ (r.ready ++ (r.waiting.map Prod.fst ++ r.dead))

/-- The first ready task runs. -/
def dispatch (r : Rota π ω) : Rota π ω :=
  { r with running := r.ready.head?, ready := r.ready.tail }

section

variable [DecidableEq π] [DecidableEq ω]

/-- The tasks that wait for the reason become ready. -/
def wake (reason : ω) (r : Rota π ω) : Rota π ω :=
  { r with
    ready := r.ready ++ (r.waiting.filter (fun p => p.2 = reason)).map Prod.fst
    waiting := r.waiting.filter (fun p => ¬ p.2 = reason) }

/-- An event. A task can wait or leave only while it runs, and a task that leaves wakes
a reason. -/
def step : Event π ω → Rota π ω → Option (Rota π ω)
  | .tick, r =>
      if r.ready = [] then some r
      else some (dispatch { r with ready := r.ready ++ r.running.toList })
  | .wait reason, r => r.running.map (fun p =>
      dispatch { r with running := none, waiting := r.waiting ++ [(p, reason)] })
  | .wake reason, r => some (r.wake reason)
  | .leave reason, r => r.running.map (fun p =>
      dispatch (wake reason { r with running := none, dead := r.dead ++ [p] }))
  | .spawn p, r => if p ∈ r.members then none else some { r with ready := r.ready ++ [p] }
  | .reap p, r => if p ∈ r.dead then some { r with dead := r.dead.erase p } else none

end

/-! ### The tasks -/

/-- The tasks that an event brings. -/
def Event.spawned : Event π ω → List π
  | .spawn p => [p]
  | .tick | .wait _ | .wake _ | .leave _ | .reap _ => []

/-- The tasks that an event takes away. -/
def Event.reaped : Event π ω → List π
  | .reap p => [p]
  | .tick | .wait _ | .wake _ | .leave _ | .spawn _ => []

variable {r r' : Rota π ω}

theorem mem_members_of_running {p : π} (h : r.running = some p) :
  p ∈ r.members
  := by
  unfold members
  rw [h]
  exact List.mem_cons_self

theorem mem_members_of_ready {p : π} (h : p ∈ r.ready) :
  p ∈ r.members
  := List.mem_append_right _ (List.mem_append_left _ h)

theorem mem_members_of_waiting {p : π} {reason : ω} (h : (p, reason) ∈ r.waiting) :
  p ∈ r.members
  := by
  have hmem : p ∈ r.waiting.map Prod.fst := List.mem_map_of_mem h
  exact List.mem_append_right _ (List.mem_append_right _ (List.mem_append_left _ hmem))

/-- Dispatching a task changes no task, when no task runs. -/
theorem members_dispatch (h : r.running = none) :
  r.dispatch.members = r.members
  := by
  unfold members dispatch
  rw [h]
  cases r.ready with
  | nil => rfl
  | cons p ready => rfl

section

variable [DecidableEq ω]

/-- Waking changes the order of the tasks. -/
theorem members_wake (reason : ω) (r : Rota π ω) :
  (r.wake reason).members.Perm r.members
  := by
  unfold members wake
  apply List.Perm.append_left
  rw [List.append_assoc]
  apply List.Perm.append_left
  rw [← List.append_assoc, ← List.map_append]
  apply List.Perm.append_right
  apply List.Perm.map
  simpa using List.filter_append_perm (fun p : π × ω => decide (p.2 = reason)) r.waiting

end

variable [DecidableEq π] [DecidableEq ω]

/-- An event neither loses nor duplicates a task. -/
theorem step_members {e : Event π ω} (h : step e r = some r') :
  (r'.members ++ e.reaped).Perm (r.members ++ e.spawned)
  := by
  cases e with
  | tick =>
      simp only [Event.reaped, Event.spawned, List.append_nil]
      simp only [step] at h
      split at h
      next => rw [← Option.some.inj h]
      next hready =>
        rw [← Option.some.inj h]
        obtain ⟨p, ready, hr⟩ := List.exists_cons_of_ne_nil hready
        apply List.perm_iff_count.mpr
        intro a
        simp only [members, dispatch, hr, List.cons_append, List.head?_cons, List.tail_cons,
          Option.toList_some, List.count_append, List.count_cons, List.count_nil]
        omega
  | wait reason =>
      simp only [Event.reaped, Event.spawned, List.append_nil]
      obtain ⟨p, hp, rfl⟩ := Option.map_eq_some_iff.mp h
      rw [members_dispatch rfl]
      apply List.perm_iff_count.mpr
      intro a
      simp only [members, hp, Option.toList_none, Option.toList_some, List.map_append, List.map_cons,
        List.map_nil, List.count_append, List.count_nil]
      omega
  | wake reason =>
      simp only [Event.reaped, Event.spawned, List.append_nil]
      obtain rfl := Option.some.inj h
      exact members_wake reason r
  | leave reason =>
      simp only [Event.reaped, Event.spawned, List.append_nil]
      obtain ⟨p, hp, rfl⟩ := Option.map_eq_some_iff.mp h
      rw [members_dispatch rfl]
      apply (members_wake reason _).trans
      apply List.perm_iff_count.mpr
      intro a
      simp only [members, hp, Option.toList_none, Option.toList_some, List.count_append,
        List.count_nil]
      omega
  | spawn p =>
      simp only [step] at h
      split at h
      · cases h
      next =>
        obtain rfl := Option.some.inj h
        apply List.perm_iff_count.mpr
        intro a
        simp only [members, Event.reaped, Event.spawned, List.count_append, List.count_nil]
        omega
  | reap p =>
      simp only [step] at h
      split at h
      next hp =>
        obtain rfl := Option.some.inj h
        have hdead : (r.dead.erase p ++ [p]).Perm r.dead :=
          (List.perm_append_singleton p _).trans (List.perm_cons_erase hp).symm
        unfold members
        simp only [Event.reaped, Event.spawned, List.append_nil, List.append_assoc]
        apply List.Perm.append_left
        apply List.Perm.append_left
        apply List.Perm.append_left
        exact hdead
      · cases h

/-- A run neither loses nor duplicates a task. -/
theorem run_members {es : List (Event π ω)} (h : Run step (fun _ _ => True) r es r') :
  (r'.members ++ es.flatMap Event.reaped).Perm (r.members ++ es.flatMap Event.spawned)
  := by
  induction h with
  | nil => simp
  | @cons r r₁ r' es e _ hstep _ ih =>
      have he := step_members hstep
      rw [List.flatMap_cons, List.flatMap_cons]
      apply List.perm_iff_count.mpr
      intro a
      have hcount := List.perm_iff_count.mp ih a
      have hcount' := List.perm_iff_count.mp he a
      simp only [List.count_append] at hcount hcount' ⊢
      omega

/-! ### The waiting tasks -/

/-- The reason that an event wakes. -/
def Event.wakes : Event π ω → Option ω
  | .wake reason | .leave reason => some reason
  | .tick | .wait _ | .spawn _ | .reap _ => none

/-- A task waits until its reason is woken. -/
theorem step_waits {e : Event π ω} {p : π} {reason : ω} (hp : (p, reason) ∈ r.waiting)
    (he : e.wakes ≠ some reason) (h : step e r = some r') :
  (p, reason) ∈ r'.waiting
  := by
  have hwake : ∀ reason', reason' ≠ reason →
      (p, reason) ∈ r.waiting.filter (fun p => ¬ p.2 = reason') := by
    intro reason' hne
    exact List.mem_filter.mpr ⟨hp, by simpa using Ne.symm hne⟩
  cases e with
  | tick =>
      simp only [step] at h
      split at h
      · rwa [← Option.some.inj h]
      · rwa [← Option.some.inj h]
  | wait reason' =>
      obtain ⟨p', _, rfl⟩ := Option.map_eq_some_iff.mp h
      exact List.mem_append_left _ hp
  | wake reason' =>
      obtain rfl := Option.some.inj h
      exact hwake reason' (fun e => he (congrArg some e))
  | leave reason' =>
      obtain ⟨p', _, rfl⟩ := Option.map_eq_some_iff.mp h
      exact hwake reason' (fun e => he (congrArg some e))
  | spawn p' =>
      simp only [step] at h
      split at h
      · cases h
      · rwa [← Option.some.inj h]
  | reap p' =>
      simp only [step] at h
      split at h
      · rwa [← Option.some.inj h]
      · cases h

/-- A task is ready or runs when its reason is woken. -/
theorem step_wakes {e : Event π ω} {p : π} {reason : ω} (hp : (p, reason) ∈ r.waiting)
    (he : e.wakes = some reason) (h : step e r = some r') :
  r'.running = some p ∨ p ∈ r'.ready
  := by
  have hwake : p ∈ r.ready ++ (r.waiting.filter (fun p => p.2 = reason)).map Prod.fst := by
    apply List.mem_append_right
    exact List.mem_map.mpr ⟨(p, reason), List.mem_filter.mpr ⟨hp, by simp⟩, rfl⟩
  cases e with
  | tick | wait | spawn | reap => cases he
  | wake reason' =>
      obtain rfl := Option.some.inj he
      obtain rfl := Option.some.inj h
      exact Or.inr hwake
  | leave reason' =>
      obtain rfl := Option.some.inj he
      obtain ⟨p', _, rfl⟩ := Option.map_eq_some_iff.mp h
      simp only [dispatch, wake]
      cases hr : r.ready ++ (r.waiting.filter (fun p => p.2 = reason')).map Prod.fst with
      | nil =>
          rw [hr] at hwake
          cases hwake
      | cons p₁ ready =>
          rw [hr] at hwake
          rw [List.head?_cons, List.tail_cons, Option.some_inj]
          exact (List.mem_cons.mp hwake).imp Eq.symm id

/-! ### The order of the ready tasks -/

/-- The task is ready, and at most `n` ready tasks are before it. -/
def Behind (p : π) (n : ℕ) (r : Rota π ω) : Prop := p ∈ r.ready ∧ r.ready.idxOf p ≤ n

omit [DecidableEq ω] in
/-- More ready tasks behind a task do not hold it up. -/
theorem Behind.append {p : π} {n : ℕ} {ready : List π} (h : Behind p n r)
    (hready : r'.ready = r.ready ++ ready) :
  Behind p n r'
  := by
  obtain ⟨hmem, hle⟩ := h
  unfold Behind
  rw [hready, List.idxOf_append_of_mem hmem]
  exact ⟨List.mem_append_left ready hmem, hle⟩

omit [DecidableEq ω] in
/-- A task runs or moves forward when the processor is given away. -/
theorem Behind.dispatch {p : π} {n : ℕ} (h : Behind p n r) :
  r.dispatch.running = some p ∨ ∃ m, Behind p m r.dispatch ∧ m + 1 ≤ n
  := by
  obtain ⟨hmem, hle⟩ := h
  unfold Behind Rota.dispatch
  cases hr : r.ready with
  | nil =>
      rw [hr] at hmem
      cases hmem
  | cons p' ready =>
      rw [hr] at hmem hle
      by_cases e : p' = p
      · left
        rw [List.head?_cons, e]
      · right
        rw [List.idxOf_cons_ne ready e] at hle
        rw [List.tail_cons]
        exact ⟨ready.idxOf p, ⟨(List.mem_cons.mp hmem).resolve_left (Ne.symm e), Nat.le_refl _⟩, hle⟩

/-- No event moves a ready task back, and a tick moves it forward. -/
theorem Behind.step {p : π} {n : ℕ} {e : Event π ω} (h : Behind p n r)
    (hstep : step e r = some r') :
  r'.running = some p ∨ ∃ m, Behind p m r' ∧ m ≤ n ∧ (e = .tick → m + 1 ≤ n)
  := by
  cases e with
  | tick =>
      simp only [Rota.step] at hstep
      split at hstep
      next hready =>
        have hmem := h.1
        rw [hready] at hmem
        cases hmem
      next =>
        obtain rfl := Option.some.inj hstep
        have hbehind : Behind p n { r with ready := r.ready ++ r.running.toList } := h.append rfl
        rcases hbehind.dispatch with hrun | ⟨m, hm, hle⟩
        · exact Or.inl hrun
        · exact Or.inr ⟨m, hm, by omega, fun _ => hle⟩
  | wait reason =>
      obtain ⟨p', hp', rfl⟩ := Option.map_eq_some_iff.mp hstep
      rcases Behind.dispatch (r := { r with
        running := none, waiting := r.waiting ++ [(p', reason)] }) h with hrun | ⟨m, hm, hle⟩
      · exact Or.inl hrun
      · exact Or.inr ⟨m, hm, by omega, fun _ => hle⟩
  | wake reason =>
      obtain rfl := Option.some.inj hstep
      exact Or.inr ⟨n, h.append rfl, Nat.le_refl n, fun e => by cases e⟩
  | leave reason =>
      obtain ⟨p', hp', rfl⟩ := Option.map_eq_some_iff.mp hstep
      have hwake : Behind p n (wake reason { r with running := none, dead := r.dead ++ [p'] }) :=
        h.append rfl
      rcases hwake.dispatch with hrun | ⟨m, hm, hle⟩
      · exact Or.inl hrun
      · exact Or.inr ⟨m, hm, by omega, fun _ => hle⟩
  | spawn p' =>
      simp only [Rota.step] at hstep
      split at hstep
      · cases hstep
      next =>
        obtain rfl := Option.some.inj hstep
        exact Or.inr ⟨n, h.append rfl, Nat.le_refl n, fun e => by cases e⟩
  | reap p' =>
      simp only [Rota.step] at hstep
      split at hstep
      next =>
        obtain rfl := Option.some.inj hstep
        exact Or.inr ⟨n, h, Nat.le_refl n, fun e => by cases e⟩
      · cases hstep

end Rota
