import LarvaOS.Kernel.Lifetimes

/-!
# Progress of Wait and failures of Fork

`Wait` sleeps only when no process is killed.  When there are killed processes, but none
with the awaited pid, its loop goes round again in the same state.  `Fork` gives back
what it took when it fails in `CreateNewProcess`, but not when it fails in `CopyUVM`.
-/

namespace LarvaOS

open Linked

variable {image : Image} {k k' k₀ : Kernel} {q : Queues} {xs : List ℕ} {machine : Machine}

/-! ### Wait -/

/-- An iteration of `Wait` reaps a process or sleeps. -/
def Progresses (image : Image) (pid : Int) (k : Kernel) : Prop :=
  (∃ k', waitIteration image pid k = some (.reaped k'))
    ∨ ∃ k', waitIteration image pid k = some (.slept k')

/-- An iteration of `Wait` that finds killed processes, but not the awaited one, changes
no list and no process. -/
theorem Queued.waitIteration_again (hq : Queued k.scheduler q (some k.currentProc) none) {pid : Int}
    (hfull : q .killProcList ≠ []) (hpid : ∀ i ∈ q .killProcList, (k.process i).pid ≠ pid) :
  ∃ k', waitIteration image pid k = some (.again k')
    ∧ (∀ list, Represents k'.scheduler.links (.head list) ((q list).map .proc))
    ∧ k'.scheduler.processManager = k.scheduler.processManager
    ∧ k'.currentProc = k.currentProc ∧ k'.memory = k.memory ∧ k'.files = k.files
  := by
  obtain ⟨s, hrun, hprocess, _, hcurrent, hq'⟩ := @Queued.waitIteration_cons image q _ k hq pid hfull
  have hnone : k.awaited q pid = none := by
    rw [Kernel.awaited]
    simpa using hpid
  have hsame : q.remove .killProcList (fun i => (k.process i).pid = pid) = q := by
    rw [Queues.remove, List.eraseP_of_forall_not (by simpa using hpid), Function.update_eq_self]
  rw [hnone] at hrun hq'
  rw [hsame] at hq'
  exact ⟨_, hrun, hq'.holds.represents, hprocess, hcurrent, rfl, rfl⟩

/-- In every state of a run an iteration of `Wait` makes progress exactly when no process
is killed or the awaited process is killed. -/
theorem reachable_progresses {pid : Int} (hmap : DisjointRegions machine.memMap)
    (h₀ : kMain image machine = some k₀)
    (h : Reachable (Kernel.step image) (Admitted image) k₀ k) (hidle : k.currentProc ≠ idleSlot)
    (hlists : ∀ list, Represents k.scheduler.links (.head list) ((q list).map .proc)) :
  Progresses image pid k
    ↔ q .killProcList = [] ∨ ∃ i ∈ q .killProcList, (k.process i).pid = pid
  := by
  obtain ⟨⟨q', hq⟩, xs, L, howned⟩ := Reachable.apart hmap h₀ h
  obtain rfl := hq.eq_of_represents hlists
  constructor
  · intro hprogress
    by_contra hcontra
    obtain ⟨hfull, hnone⟩ := not_or.mp hcontra
    obtain ⟨k', hagain, _⟩ := @Queued.waitIteration_again image k q hq pid hfull (by
      intro i hi hpid
      exact hnone ⟨i, hi, hpid⟩)
    rcases hprogress with ⟨k₁, hrun⟩ | ⟨k₁, hrun⟩
    · cases hagain.symm.trans hrun
    · cases hagain.symm.trans hrun
  · rintro (hempty | ⟨i, hi, hpid⟩)
    · obtain ⟨s, hsleep, _⟩ := hq.sleep hidle initProcessWaitId
      right
      rw [hq.waitIteration_nil pid hempty, hsleep]
      exact ⟨_, rfl⟩
    · obtain ⟨m, files₀, cr3, hinit⟩ := kMain_initProcess h₀
      obtain ⟨_, href⟩ := Reachable.referenced (fun _ _ hok => hok.1)
        (initProcess_consistent hinit) (kMain_referenced h₀) h
      cases hfind : k.awaited q pid with
      | none =>
          rw [Kernel.awaited, List.find?_eq_none] at hfind
          exact absurd (decide_eq_true hpid) (hfind i hi)
      | some j =>
          obtain ⟨files, refs, hdrop, _⟩ := href.drop j
          obtain ⟨k', _, hrun, _⟩ := howned.waitIteration hq hfind hdrop
          exact Or.inl ⟨k', hrun⟩

/-- The shell waits for its child, which has exited. -/
theorem reachable_progresses_small :
  ∃ k₀ k, kMain smallImage (smallMachine 64) = some k₀
    ∧ Run (Kernel.step smallImage) (Admitted smallImage) k₀ [.yield, .fork, .yield, .exit] k
    ∧ k.currentProc = 1 ∧ (k.process 2).state = .killed ∧ Progresses smallImage 2 k
  := by
  obtain ⟨k₀, k, xs, hboot, hrun, hquiet, hlen, hcurrent, hpid, hpidNum, _⟩ :=
    kMain_shell (n := 64) (by decide) (by decide)
  have hlen₀ : xs.length = 52 := hlen
  obtain ⟨k₁, ys, hrun₁, h₁, _, hcurrent₁, hpid₁, _⟩ := hquiet.fork_exit
    (by
      rw [hcurrent]
      decide)
    (by
      rw [hcurrent, hpid]
      decide) (by decide) (by decide) (by omega)
  have hidle : k₁.currentProc ≠ idleSlot := by
    rw [hcurrent₁, hcurrent]
    decide
  have hreach := (hrun.append hrun₁).reachable
  refine ⟨k₀, k₁, hboot, hrun.append hrun₁, hcurrent₁.trans hcurrent, ?_, ?_⟩
  · exact h₁.queued.state .killProcList 2 List.mem_cons_self (by simp)
  · apply (reachable_progresses (smallMachine_disjoint 64) hboot hreach hidle
      h₁.queued.holds.represents).mpr
    exact Or.inr ⟨2, List.mem_cons_self, hpid₁.trans hpidNum⟩

/-- The shell creates a process, which exits, and another one, and waits for the latter. -/
theorem not_progresses_small :
  ∃ k₀ k k', kMain smallImage (smallMachine 64) = some k₀
    ∧ Reachable (Kernel.step smallImage) (Admitted smallImage) k₀ k ∧ k.currentProc = 1
    ∧ (k.process 3).pid = 3 ∧ (k.process 3).state = .ready
    ∧ waitIteration smallImage 3 k = some (.again k')
    ∧ k'.scheduler.processManager = k.scheduler.processManager ∧ k'.memory = k.memory
    ∧ ¬ Progresses smallImage 3 k
  := by
  obtain ⟨k₀, k, xs, hboot, hrun, hquiet, hlen, hcurrent, hpid, hpidNum, _⟩ :=
    kMain_shell (n := 64) (by decide) (by decide)
  have hlen₀ : xs.length = 52 := hlen
  obtain ⟨k₁, ys, hrun₁, h₁, hlen₁, hcurrent₁, hpid₁, _, hpidNum₁, _⟩ := hquiet.fork_exit
    (by
      rw [hcurrent]
      decide)
    (by
      rw [hcurrent, hpid]
      decide) (by decide) (by decide) (by omega)
  have hidle : k₁.currentProc ≠ idleSlot := by
    rw [hcurrent₁, hcurrent]
    decide
  obtain ⟨k₂, zs, _, hfork, _, h₂, hcurrent₂, hpid₂, hother₂, _⟩ :=
    h₁.fork hidle (by decide) (by omega)
  have hkill : ∀ i ∈ (Queues.of [] [] [2]).push .readyProcList 3 .killProcList,
      (k₂.process i).pid ≠ 3 := by
    intro i hi
    rw [Queues.push_of_ne (by simp)] at hi
    obtain rfl : i = 2 := List.mem_singleton.mp hi
    have hpid' : (k₂.process 2).pid = 2 := by
      rw [hother₂ 2 (by decide)]
      exact hpid₁.trans hpidNum
    rw [hpid']
    decide
  obtain ⟨k₃, hagain, _, hsame, _, hmemory, _⟩ := @Queued.waitIteration_again smallImage _ _ h₂.queued 3
    (by simp [Queues.of]) hkill
  have hpidNum₂ : k₁.scheduler.pidNum = 3 := by
    rw [hpidNum₁, hpidNum]
    rfl
  refine ⟨k₀, k₂, k₃, hboot, ?_, ?_, hpid₂.trans hpidNum₂, ?_, hagain, hsame, hmemory, ?_⟩
  · exact Reachable.step .fork (hrun.append hrun₁).reachable ⟨fun _ => hidle, trivial⟩ hfork
  · rw [hcurrent₂, hcurrent₁, hcurrent]
  · apply h₂.queued.state .readyProcList 3 _ (by simp)
    rw [Queues.push_self]
    exact List.mem_append_right _ List.mem_cons_self
  · rintro (⟨k₄, hrun⟩ | ⟨k₄, hrun⟩)
    · cases hagain.symm.trans hrun
    · cases hagain.symm.trans hrun

/-! ### Fork -/

/-- In every state of a run a `Fork` that returns `-ENOMEM` gives everything back exactly
when there is no unused slot, or fewer than four free pages, or seven of them, as long as
the next pid is not `-ENOMEM`. -/
theorem reachable_fork_rolledBack {ret : Int} (hmap : DisjointRegions machine.memMap)
    (h₀ : kMain image machine = some k₀)
    (h : Reachable (Kernel.step image) (Admitted image) k₀ k) (hidle : k.currentProc ≠ idleSlot)
    (hfree : Free image k.memory xs) (hrun : fork image k = some (ret, k')) :
  (ret = -enomem → RolledBack image k k')
    ↔ (∀ i, (k.process i).state ≠ .unused) ∨ xs.length < 4
      ∨ 7 ≤ xs.length ∧ k.scheduler.pidNum ≠ -enomem
  := by
  obtain ⟨⟨q, hq⟩, ys, L, howned⟩ := Reachable.apart hmap h₀ h
  obtain rfl := hfree.unique howned.free
  rw [← findFreeProcessSlot_eq_none]
  rcases howned.fork_outcome hq hidle hrun with
    ⟨hcond, _, hback, _⟩ | ⟨i, ys, a, hlo, hhi, hret, hleaked⟩ | ⟨i, ys, a, S, hlo, hret, hcopied⟩
  · apply iff_of_true (fun _ => hback)
    rw [← or_assoc]
    exact Or.inl hcond
  · apply iff_of_false
    · intro hback
      have hinitialized := hleaked.initialized
      rw [(hback hret).process, state_of_findFreeProcessSlot hleaked.slot] at hinitialized
      cases hinitialized
    · rw [hleaked.slot]
      rintro (hnone | hlen | ⟨hlen, _⟩)
      · cases hnone
      · omega
      · omega
  · have hslot := hcopied.slot
    have hready : (k'.process i).state = .ready := by rw [hcopied.forked.child]
    constructor
    · intro hback
      refine Or.inr (Or.inr ⟨hlo, fun hpid => ?_⟩)
      rw [(hback (hret.trans hpid)).process, state_of_findFreeProcessSlot hslot] at hready
      cases hready
    · rw [hslot]
      rintro (hnone | hlen | ⟨_, hpid⟩) heq
      · cases hnone
      · omega
      · exact absurd (hret.symm.trans heq) hpid

/-- With three free pages the `Fork` of the shell fails and gives them back. -/
theorem reachable_fork_rolledBack_small :
  ∃ k₀ k k', kMain smallImage (smallMachine 15) = some k₀
    ∧ Reachable (Kernel.step smallImage) (Admitted smallImage) k₀ k ∧ k.currentProc = 1
    ∧ fork smallImage k = some (-enomem, k') ∧ RolledBack smallImage k k'
  := by
  obtain ⟨k₀, k, xs, hboot, hrun, hquiet, hlen, hcurrent, _⟩ :=
    kMain_shell (n := 15) (by decide) (by decide)
  have hlen' : xs.length = 3 := hlen
  have hidle : k.currentProc ≠ idleSlot := by
    rw [hcurrent]
    decide
  obtain ⟨L, howned⟩ := hquiet.owned
  obtain ⟨a, b, c, rfl⟩ : ∃ a b c, xs = [a, b, c] := List.length_eq_three.mp hlen'
  obtain ⟨k', _, hfork, _⟩ := howned.fork_fail hquiet.queued
    (findFreeProcessSlot_of_used (by decide) hquiet.used) (by simp)
  have hback := (reachable_fork_rolledBack (smallMachine_disjoint 15) hboot hrun.reachable hidle
    howned.free hfork).mpr (Or.inr (Or.inl (by simp)))
  exact ⟨k₀, k, k', hboot, hrun.reachable, hcurrent, hfork, hback rfl⟩

/-- With four free pages the shell forks: the new process stays `INITIALIZED`. -/
theorem not_rolledBack_small :
  ∃ k₀ k k', kMain smallImage (smallMachine 16) = some k₀
    ∧ Reachable (Kernel.step smallImage) (Admitted smallImage) k₀ k ∧ k.currentProc = 1
    ∧ fork smallImage k = some (-enomem, k')
    ∧ (k.process 2).state = .unused ∧ (k'.process 2).state = .initialized
    ∧ ¬ RolledBack smallImage k k'
  := by
  obtain ⟨k₀, k, xs, hboot, hrun, hquiet, hlen, hcurrent, _⟩ :=
    kMain_shell (n := 16) (by decide) (by decide)
  have hlen' : xs.length = 4 := hlen
  have hidle : k.currentProc ≠ idleSlot := by
    rw [hcurrent]
    decide
  have hunused : (k.process 2).state = .unused := (hquiet.used 2).mpr le_rfl
  obtain ⟨L, howned⟩ := hquiet.owned
  obtain ⟨a, b, c, d, rfl⟩ : ∃ a b c d, xs = [a, b, c, d] := List.length_eq_four.mp hlen'
  obtain ⟨k', ys, hfork, _, _, _, hscheduler, _⟩ := howned.fork_leak hquiet.queued
    (findFreeProcessSlot_of_used (by decide) hquiet.used) (by simp)
  have hinitialized : (k'.process 2).state = .initialized := by
    rw [Kernel.process, hscheduler]
    exact congrArg Process.state (newProcess_process _ _ _ _)
  refine ⟨k₀, k, k', hboot, hrun.reachable, hcurrent, hfork, hunused, hinitialized, fun hback => ?_⟩
  rw [hback.process, hunused] at hinitialized
  cases hinitialized

end LarvaOS
