import LarvaOS.Kernel.Boot
import LarvaOS.Library.Simulation

/-!
# Runs of processes without open files

`Quiet image k xs q n` says that the pages are apart, with the free list `xs`, that the
scheduler holds the queues `q`, that the slots in use are the first `n`, and that no
process has an open file.  In such a state every operation of the scheduler succeeds,
and so do `Fork`, when there are seven free pages, and `Wait` for a killed process.
-/

namespace LarvaOS

variable {image : Image} {k : Kernel} {xs : List ℕ} {q : Queues} {n : ℕ}

/-- The queues with the given lists. -/
def Queues.of (ready wait kill : List Slot) : Queues
  | .readyProcList => ready
  | .waitProcList => wait
  | .killProcList => kill

/-- No process has open files, and the first `n` slots are in use. -/
structure Quiet (image : Image) (k : Kernel) (xs : List ℕ) (q : Queues) (n : ℕ) : Prop where
  owned : ∃ L, Owned image k xs L
  queued : Queued k.scheduler q (some k.currentProc) none
  files : ∀ j, (k.process j).file = fun _ => none
  used : ∀ j, (k.process j).state = .unused ↔ n ≤ j.val

namespace Quiet

/-- The state after an operation of the scheduler. -/
theorem schedule {s : Scheduler} {q' : Queues} (h : Quiet image k xs q n)
    (hres : SameResources k.scheduler s) (hq : Queued s q' (some s.currentProc) none) :
  Quiet image { k with scheduler := s } xs q' n
  where
  owned := by
    obtain ⟨L, howned⟩ := h.owned
    exact ⟨L, howned.schedule hres⟩
  queued := hq
  files j := (hres.file j).trans (h.files j)
  used j := (hres.unused j).trans (h.used j)

/-- The timer interrupt when there is a ready process. -/
theorem yield (h : Quiet image k xs q n) (hready : q .readyProcList ≠ []) :
  ∃ k', k.step image .yield = some k' ∧ k'.currentProc = (Queued.yielded k.scheduler q).head
    ∧ SameResources k.scheduler k'.scheduler
    ∧ Quiet image k' xs (Queued.yielded k.scheduler q).tail n
  := by
  obtain ⟨s, hrun, hcurrent, hres, _, hq⟩ := h.queued.yield_cons hready
  refine ⟨{ k with scheduler := s }, ?_, hcurrent, hres, h.schedule hres ?_⟩
  · rw [Kernel.step, Kernel.schedule, hrun, Option.map_some]
  · rw [hcurrent]
    exact hq

/-- The current process exits. -/
theorem exit (h : Quiet image k xs q n) (hidle : k.currentProc ≠ idleSlot) :
  ∃ k', k.step image .exit = some k' ∧ k'.currentProc = (Queued.exited k.scheduler q).head
    ∧ SameResources k.scheduler k'.scheduler
    ∧ Quiet image k' xs (Queued.exited k.scheduler q).tail n
  := by
  obtain ⟨s, hrun, hcurrent, hres, _, hq⟩ := h.queued.exit hidle
  refine ⟨{ k with scheduler := s }, ?_, hcurrent, hres, h.schedule hres ?_⟩
  · rw [Kernel.step, Kernel.exit, hrun, Option.map_some]
  · rw [hcurrent]
    exact hq

/-- The current process forks, with seven free pages and a free slot. -/
theorem fork (h : Quiet image k xs q n) (hidle : k.currentProc ≠ idleSlot)
    (hn : n < maximumNumberOfProcess) (hlen : 7 ≤ xs.length) :
  ∃ k' ys, LarvaOS.fork image k = some (k.scheduler.pidNum, k') ∧ k.step image .fork = some k'
    ∧ xs.length = ys.length + 7 ∧ Quiet image k' ys (q.push .readyProcList ⟨n, hn⟩) (n + 1)
    ∧ k'.currentProc = k.currentProc ∧ (k'.process ⟨n, hn⟩).pid = k.scheduler.pidNum
    ∧ (∀ j, j ≠ ⟨n, hn⟩ → k'.process j = k.process j)
    ∧ k'.scheduler.pidNum = int32 (k.scheduler.pidNum + 1)
    ∧ k'.scheduler.created = k.scheduler.created + 1
  := by
  obtain ⟨L, howned⟩ := h.owned
  have hfiles : k.files.addReferences (k.process k.currentProc).openFiles = some k.files := by
    rw [Process.openFiles, h.files, List.filterMap_none]
    rfl
  obtain ⟨k', ys, L', _, _, hfork, _, hlen', howned', hforked, hq, hused⟩ :=
    howned.forks h.queued hidle hn h.used hlen hfiles
  have hfile : (k'.process ⟨n, hn⟩).file = fun _ => none := by
    rw [hforked.child]
    exact h.files _
  have hpid : (k'.process ⟨n, hn⟩).pid = k.scheduler.pidNum := by
    rw [hforked.child, Kernel.process, newProcess_process]
  refine ⟨k', ys, hfork, ?_, hlen', ⟨⟨_, howned'⟩, ?_, ?_, hused⟩, hforked.currentProc, hpid,
    hforked.others, ?_⟩
  · rw [Kernel.step, hfork, Option.map_some]
  · rw [hforked.currentProc]
    exact hq
  · intro j
    by_cases hj : j = ⟨n, hn⟩
    · rw [hj, hfile]
    · rw [hforked.others j hj]
      exact h.files j
  · obtain ⟨new, hgrown, _⟩ := h.queued.fork hfork
    rcases hgrown.counters with ⟨rfl, _, _⟩ | hcounters
    · have hsame : k'.process ⟨n, hn⟩ = k.process ⟨n, hn⟩ := hgrown.process _ (by simp)
      have hstate : (k'.process ⟨n, hn⟩).state = .ready := by rw [hforked.child]
      rw [hsame, (h.used _).mpr le_rfl] at hstate
      cases hstate
    · exact hcounters

/-- The current process reaps a killed process, in the last slot that is in use. -/
theorem wait (h : Quiet image k xs q (n + 1)) {pid : Int} {i : Slot} (hn : i.val = n)
    (hi : k.awaited q pid = some i) :
  ∃ k' ys, k.step image (.wait pid) = some k' ∧ ys.length = xs.length + 7
    ∧ Quiet image k' ys (q.remove .killProcList (fun i => (k.process i).pid = pid)) n
    ∧ k'.currentProc = k.currentProc ∧ (∀ j, j ≠ i → k'.process j = k.process j)
    ∧ k'.scheduler.pidNum = k.scheduler.pidNum ∧ k'.scheduler.created = k.scheduler.created
  := by
  obtain ⟨L, howned⟩ := h.owned
  have hfiles : k.files.dropReferences (k.process i).openFiles = some k.files := by
    rw [Process.openFiles, h.files, List.filterMap_none]
    rfl
  obtain ⟨k', ys, hrun, howned', hperm, _, _, hzero, hother, hcurrent, hq⟩ :=
    howned.waitIteration h.queued hi hfiles
  have hwait : k.wait image pid = some k' := by
    rw [Kernel.wait, hrun]
    rfl
  refine ⟨k', ys, hwait, ?_, ⟨⟨L, howned'⟩, ?_, ?_, ?_⟩, hcurrent, hother, ?_⟩
  · rw [hperm.length_eq, List.length_append, Nat.add_comm]
    rfl
  · rw [hcurrent]
    exact hq
  · intro j
    by_cases hj : j = i
    · rw [hj, hzero]
      rfl
    · rw [hother j hj]
      exact h.files j
  · intro j
    by_cases hj : j = i
    · rw [hj, hzero, hn]
      exact iff_of_true rfl le_rfl
    · have hne : j.val ≠ n := fun e => hj (Fin.ext (e.trans hn.symm))
      rw [hother j hj, h.used j]
      omega
  · rcases h.queued.wait hwait with ⟨_, _, _, _, _, _, hpid, hcreated, _⟩ | ⟨hempty, _⟩
    · exact ⟨hpid, hcreated⟩
    · have hmem : i ∈ q .killProcList := List.mem_of_find?_eq_some hi
      rw [hempty] at hmem
      cases hmem

/-- The only process forks, and the child runs and exits. -/
theorem fork_exit (h : Quiet image k xs (fun _ => []) n) (hidle : k.currentProc ≠ idleSlot)
    (hpid : (k.process k.currentProc).pid ≠ idleProcessPid) (hn : n < maximumNumberOfProcess)
    (hpos : 0 < n) (hlen : 7 ≤ xs.length) :
  ∃ k' ys, Run (Kernel.step image) (Admitted image) k [.fork, .yield, .exit] k'
    ∧ Quiet image k' ys (Queues.of [] [] [⟨n, hn⟩]) (n + 1) ∧ xs.length = ys.length + 7
    ∧ k'.currentProc = k.currentProc ∧ (k'.process ⟨n, hn⟩).pid = k.scheduler.pidNum
    ∧ (∀ j, j ≠ ⟨n, hn⟩ → (k'.process j).pid = (k.process j).pid)
    ∧ k'.scheduler.pidNum = int32 (k.scheduler.pidNum + 1)
    ∧ k'.scheduler.created = k.scheduler.created + 1
  := by
  have hchild : (⟨n, hn⟩ : Slot) ≠ idleSlot := fun e => hpos.ne' (congrArg Fin.val e)
  obtain ⟨k₁, ys, _, hfork, hlen', h₁, hcurrent₁, hpid₁, hother₁, hpidNum₁, hcreated₁⟩ :=
    h.fork hidle hn hlen
  have hne : k.currentProc ≠ ⟨n, hn⟩ := by
    intro e
    have hused : (k.process k.currentProc).state ≠ .unused := h.queued.current_used
    rw [e] at hused
    exact hused ((h.used _).mpr le_rfl)
  have hyielded : Queued.yielded k₁.scheduler (Queues.push (fun _ => []) .readyProcList ⟨n, hn⟩)
      = Queues.of [⟨n, hn⟩, k.currentProc] [] [] := by
    have hpid' : ¬ (k₁.scheduler.process k₁.scheduler.currentProc).pid = idleProcessPid := by
      have hcurrent : k₁.scheduler.currentProc = k.currentProc := hcurrent₁
      rw [hcurrent]
      have hprocess : k₁.scheduler.process k.currentProc = k.process k.currentProc := hother₁ _ hne
      rwa [hprocess]
    have hcurrent : k₁.scheduler.currentProc = k.currentProc := hcurrent₁
    rw [Queued.yielded, if_neg hpid', hcurrent]
    funext list
    cases list <;> rfl
  obtain ⟨k₂, hyield, hcurrent₂, hres₂, h₂⟩ := h₁.yield (by simp)
  rw [hyielded] at hcurrent₂ h₂
  have hcurrent₂' : k₂.currentProc = ⟨n, hn⟩ := hcurrent₂
  have htail : (Queues.of [⟨n, hn⟩, k.currentProc] [] []).tail
      = Queues.of [k.currentProc] [] [] := by
    funext list
    cases list <;> rfl
  rw [htail] at h₂
  obtain ⟨k₃, hexit, hcurrent₃, hres₃, h₃⟩ := h₂.exit (by rwa [hcurrent₂'])
  have hexited : Queued.exited k₂.scheduler (Queues.of [k.currentProc] [] [])
      = Queues.of [k.currentProc] [] [⟨n, hn⟩] := by
    have hcurrent : k₂.scheduler.currentProc = ⟨n, hn⟩ := hcurrent₂'
    rw [Queued.exited, hcurrent]
    funext list
    cases list <;> rfl
  rw [hexited] at hcurrent₃ h₃
  have htail' : (Queues.of [k.currentProc] [] [⟨n, hn⟩]).tail = Queues.of [] [] [⟨n, hn⟩] := by
    funext list
    cases list <;> rfl
  rw [htail'] at h₃
  refine ⟨k₃, ys, ?_, h₃, hlen', hcurrent₃, ?_, ?_, ?_, ?_⟩
  · refine Run.cons Operation.fork ⟨fun _ => hidle, trivial⟩ hfork ?_
    refine Run.cons Operation.yield ⟨Bool.noConfusion, trivial⟩ hyield ?_
    exact Run.cons Operation.exit ⟨fun _ => by rwa [hcurrent₂'], trivial⟩ hexit (Run.nil k₃)
  · rw [Kernel.process, hres₃.pid, hres₂.pid]
    exact hpid₁
  · intro j hj
    rw [Kernel.process, hres₃.pid, hres₂.pid]
    exact congrArg Process.pid (hother₁ j hj)
  · rw [hres₃.pidNum, hres₂.pidNum, hpidNum₁]
  · rw [hres₃.created, hres₂.created, hcreated₁]

/-- The only process forks and reaps its child. -/
theorem cycle (h : Quiet image k xs (fun _ => []) n) (hidle : k.currentProc ≠ idleSlot)
    (hpid : (k.process k.currentProc).pid ≠ idleProcessPid) (hn : n < maximumNumberOfProcess)
    (hpos : 0 < n) (hlen : 7 ≤ xs.length) :
  ∃ k' ys, Run (Kernel.step image) (Admitted image) k
      [.fork, .yield, .exit, .wait k.scheduler.pidNum] k'
    ∧ Quiet image k' ys (fun _ => []) n ∧ ys.length = xs.length
    ∧ k'.currentProc = k.currentProc
    ∧ (∀ j, j ≠ ⟨n, hn⟩ → (k'.process j).pid = (k.process j).pid)
    ∧ k'.scheduler.pidNum = int32 (k.scheduler.pidNum + 1)
    ∧ k'.scheduler.created = k.scheduler.created + 1
  := by
  obtain ⟨k₁, ys, hrun, h₁, hlen₁, hcurrent₁, hpid₁, hother₁, hpidNum₁, hcreated₁⟩ :=
    h.fork_exit hidle hpid hn hpos hlen
  have hi : k₁.awaited (Queues.of [] [] [⟨n, hn⟩]) k.scheduler.pidNum = some ⟨n, hn⟩ :=
    List.find?_cons_of_pos (decide_eq_true hpid₁)
  obtain ⟨k₂, zs, hwait, hlen₂, h₂, hcurrent₂, hother₂, hpidNum₂, hcreated₂⟩ := h₁.wait rfl hi
  have hqueues : (Queues.of [] [] [⟨n, hn⟩]).remove .killProcList
      (fun i => (k₁.process i).pid = k.scheduler.pidNum) = fun _ => [] := by
    funext list
    cases list with
    | readyProcList => rfl
    | waitProcList => rfl
    | killProcList =>
        rw [Queues.remove_self]
        exact List.eraseP_cons_of_pos (decide_eq_true hpid₁)
  rw [hqueues] at h₂
  refine ⟨k₂, zs, ?_, h₂, by omega, hcurrent₂.trans hcurrent₁, ?_, hpidNum₂.trans hpidNum₁,
    hcreated₂.trans hcreated₁⟩
  · exact hrun.snoc (.wait k.scheduler.pidNum) ⟨fun _ => by rwa [hcurrent₁], trivial⟩ hwait
  · intro j hj
    rw [hother₂ j hj]
    exact hother₁ j hj

/-- The counter of pids runs through all numbers, and wraps. -/
theorem cycles (h : Quiet image k xs (fun _ => []) n) (hidle : k.currentProc ≠ idleSlot)
    (hpid : (k.process k.currentProc).pid ≠ idleProcessPid) (hn : n < maximumNumberOfProcess)
    (hpos : 0 < n) (hlen : 7 ≤ xs.length) (N : ℕ) :
  ∃ k' ys, Reachable (Kernel.step image) (Admitted image) k k'
    ∧ Quiet image k' ys (fun _ => []) n ∧ ys.length = xs.length
    ∧ k'.currentProc = k.currentProc
    ∧ (k'.process k.currentProc).pid = (k.process k.currentProc).pid
    ∧ k'.scheduler.pidNum = if N = 0 then k.scheduler.pidNum else int32 (k.scheduler.pidNum + N)
  := by
  have hne : k.currentProc ≠ ⟨n, hn⟩ := by
    intro e
    have hused : (k.process k.currentProc).state ≠ .unused := h.queued.current_used
    rw [e] at hused
    exact hused ((h.used _).mpr le_rfl)
  induction N with
  | zero => exact ⟨k, xs, .refl, h, rfl, rfl, rfl, (if_pos rfl).symm⟩
  | succ N ih =>
      obtain ⟨k₁, ys, hreach, h₁, hlen₁, hcurrent₁, hpid₁, hpidNum₁⟩ := ih
      obtain ⟨k₂, zs, hrun₂, h₂, hlen₂, hcurrent₂, hother₂, hpidNum₂, _⟩ := h₁.cycle
        (by rwa [hcurrent₁]) (by rwa [hcurrent₁, hpid₁]) hn hpos (by omega)
      refine ⟨k₂, zs, hreach.trans hrun₂.reachable, h₂, hlen₂.trans hlen₁, hcurrent₂.trans hcurrent₁,
        (hother₂ _ hne).trans hpid₁, ?_⟩
      rw [hpidNum₂, hpidNum₁, if_neg (Nat.succ_ne_zero N)]
      split
      case isTrue hzero =>
        rw [hzero]
        rfl
      case isFalse =>
        rw [int32_add, Nat.cast_succ, Int.add_assoc]

end Quiet

/-! ### The shell -/

/-- After booting, and when the shell runs, no process has open files. -/
theorem Booted.quiet {disk : ℕ → UInt8} {L : Layout} (h : Booted image disk k xs L) :
  Quiet image k xs (Queues.push (fun _ => []) .readyProcList 1) 2
  where
  owned := ⟨L, h.owned⟩
  queued := by
    rw [h.currentProc]
    exact h.queued
  files j := by
    by_cases hidle : j = idleSlot
    · rw [hidle, h.idle]
    · by_cases hj : j = 1
      · rw [hj, h.shell.2]
      · rw [h.others j hidle hj]
        rfl
  used j := by
    by_cases hidle : j = idleSlot
    · rw [hidle]
      exact iff_of_false h.queued.idle_used (by decide)
    · by_cases hj : j = 1
      · have hstate := h.queued.state .readyProcList 1 (by simp) (by simp)
        rw [hj, Kernel.process, hstate]
        exact iff_of_false (by simp [ListHead.state]) (by decide)
      · have hne : j.val ≠ 0 := fun e => hidle (Fin.ext e)
        have hne' : j.val ≠ 1 := fun e => hj (Fin.ext e)
        rw [h.others j hidle hj]
        exact iff_of_true rfl (by omega)

/-- A small machine runs the shell after the first timer interrupt. -/
theorem kMain_shell {n : Fin (2 ^ 43)} (hlo : 12 ≤ n.val) (hhi : n.val ≤ 510) :
  ∃ k₀ k xs, kMain smallImage (smallMachine n) = some k₀
    ∧ Run (Kernel.step smallImage) (Admitted smallImage) k₀ [.yield] k
    ∧ Quiet smallImage k xs (fun _ => []) 2 ∧ xs.length = n.val - 12
    ∧ k.currentProc = 1 ∧ (k.process 1).pid = 1
    ∧ k.scheduler.pidNum = 2 ∧ k.scheduler.created = 1
  := by
  obtain ⟨k₀, L, hboot, hbooted⟩ := kMain_smallMachine hlo hhi
  have hpid : (k₀.scheduler.process k₀.scheduler.currentProc).pid = idleProcessPid := by
    have hcurrent : k₀.scheduler.currentProc = idleSlot := hbooted.currentProc
    rw [hcurrent]
    exact hbooted.queued.idlePid
  have hqueues : Queued.yielded k₀.scheduler (Queues.push (fun _ => []) .readyProcList 1)
      = Queues.push (fun _ => []) .readyProcList 1 := if_pos hpid
  have htail : (Queues.push (fun _ => []) .readyProcList (1 : Slot)).tail = fun _ => [] := by
    funext list
    cases list <;> rfl
  obtain ⟨k, hyield, hcurrent, hres, hquiet⟩ := hbooted.quiet.yield (by simp)
  rw [hqueues] at hcurrent hquiet
  rw [htail] at hquiet
  refine ⟨k₀, k, _, hboot, ?_, hquiet, by simp [regionPages], hcurrent, ?_, ?_, ?_⟩
  · exact Run.cons Operation.yield ⟨Bool.noConfusion, trivial⟩ hyield (Run.nil k)
  · exact (hres.pid 1).trans hbooted.shell.1
  · exact hres.pidNum.trans hbooted.pidNum
  · exact hres.created.trans hbooted.created

/-- The shell of the small machine makes a child, which runs and exits, and reaps it. -/
theorem smallMachine_reaps :
  ∃ k₀ k xs, kMain smallImage (smallMachine 64) = some k₀
    ∧ Run (Kernel.step smallImage) (Admitted smallImage) k₀
      [.yield, .fork, .yield, .exit, .wait 2] k
    ∧ Quiet smallImage k xs (fun _ => []) 2 ∧ k.currentProc = 1 ∧ k.scheduler.created = 2
  := by
  obtain ⟨k₀, k, xs, hboot, hrun, hquiet, hlen, hcurrent, hpid, hpidNum, hcreated⟩ :=
    kMain_shell (n := 64) (by decide) (by decide)
  have hlen' : xs.length = 52 := hlen
  obtain ⟨k', ys, hrun', hquiet', _, hcurrent', _, _, hcreated'⟩ := hquiet.cycle
    (by
      rw [hcurrent]
      decide)
    (by
      rw [hcurrent, hpid]
      decide) (by decide) (by decide) (by omega)
  rw [hpidNum] at hrun'
  refine ⟨k₀, k', ys, hboot, ?_, hquiet', hcurrent'.trans hcurrent, ?_⟩
  · exact hrun.append hrun'
  · rw [hcreated', hcreated]

end LarvaOS
