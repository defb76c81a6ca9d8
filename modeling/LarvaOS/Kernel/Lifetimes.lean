import LarvaOS.Kernel.Isolation
import LarvaOS.Kernel.References
import LarvaOS.Kernel.Scheduling

/-!
# Processes from their creation to their reaping

`Fork` makes a copy of the current process, and `Wait` gives back everything that was
acquired for a process.  The pages of a process are the same from its creation on, until
it is reaped.
-/

namespace LarvaOS

open Linked FileSystem

variable {image : Image} {k k' : Kernel} {q : Queues} {xs ys : List ℕ} {L : Layout} {i j : Slot}

/-! ### The pages of a process in a run -/

/-- A process that stays alive keeps its kernel stack. -/
theorem SchedulerStep.stack {op : Operation} (h : SchedulerStep image op k k')
    (hq : Queued k.scheduler q (some k.currentProc) none) (hj : k.Live j) (hj' : k'.Live j) :
  (k'.process j).stack = (k.process j).stack
  := by
  cases h with
  | yield h =>
      by_cases hready : q .readyProcList = []
      · have heq : k.scheduler = k'.scheduler := Option.some.inj ((hq.yield_nil hready).symm.trans h)
        rw [Kernel.process, ← heq]
      · obtain ⟨s, hrun, _, hres, _⟩ := hq.yield_cons hready
        obtain rfl := Option.some.inj (hrun.symm.trans h)
        exact hres.stack j
  | wakeup waitId h =>
      obtain ⟨s, hrun, _, hres, _⟩ := hq.wakeup waitId
      obtain rfl := Option.some.inj (hrun.symm.trans h)
      exact hres.stack j
  | sleep waitId _ hidle h =>
      obtain ⟨s, hrun, _, hres, _⟩ := hq.sleep hidle waitId
      obtain rfl := Option.some.inj (hrun.symm.trans h)
      exact hres.stack j
  | files h => exact h.stack j
  | exit s hidle hs h =>
      have hqs := hs.queued hq
      rw [Kernel.currentProc, ← hs.currentProc] at hqs
      obtain ⟨s', hrun, _, hres, _⟩ := hqs.exit (by rwa [hs.currentProc])
      obtain rfl := Option.some.inj (hrun.symm.trans h)
      exact (hres.stack j).trans (hs.stack j)
  | wait pid _ hidle h =>
      rcases hq.wait h with ⟨i, _, _, _, hzero, hother, _⟩ | ⟨_, s, hsleep, rfl⟩
      · have hne : j ≠ i := by
          rintro rfl
          apply not_live_of_unused _ hj'
          rw [hzero]
          rfl
        rw [hother j hne]
      · obtain ⟨s', hrun, _, hres, _⟩ := hq.sleep hidle initProcessWaitId
        obtain rfl := Option.some.inj (hrun.symm.trans hsleep)
        exact hres.stack j
  | fork ret _ h =>
      obtain ⟨new, hgrown, _⟩ := hq.fork h
      have hne : new ≠ some j := fun hnew => not_live_of_unused (hgrown.unused j hnew) hj
      exact congrArg Process.stack (hgrown.process j hne)

/-- A process that stays alive keeps its pages. -/
theorem Owned.step_slotPages {op : Operation} (h : Owned image k xs L)
    (hq : Consistent k.scheduler) (hop : Admitted image op k)
    (hrun : k.step image op = some k') :
  ∃ ys L', Owned image k' ys L'
    ∧ ∀ j, k.Live j → k'.Live j → L'.slotPages k' j = L.slotPages k j
  := by
  obtain ⟨ys, L', howned, hspace⟩ := h.step hq hop.1 hop.2 hrun
  obtain ⟨q, hq⟩ := hq
  refine ⟨ys, L', howned, fun j hj hj' => ?_⟩
  have hstep := Kernel.step_cases hq.current_used hop.1 hrun
  rw [slotPages_of_live hj, slotPages_of_live hj', hspace j hj, hstep.stack hq hj hj']

/-- A process keeps its pages in a run in which it is alive. -/
theorem Reachable.slotPages {k₁ : Kernel} (h : Owned image k₁ xs L) (hq : Consistent k₁.scheduler)
    (hreach : Reachable (Kernel.step image) (fun op k => Admitted image op k ∧ k.Live i) k₁ k) :
  Consistent k.scheduler ∧ ∃ ys L', Owned image k ys L'
    ∧ (k.Live i → L'.slotPages k i = L.slotPages k₁ i)
  := by
  apply hreach.invariant (P := fun k => Consistent k.scheduler ∧ ∃ ys L', Owned image k ys L'
    ∧ (k.Live i → L'.slotPages k i = L.slotPages k₁ i))
  · rintro op k₂ k₃ ⟨⟨q, hq₂⟩, ys, L₂, h₂, hpages⟩ ⟨hop, hlive⟩ hrun
    obtain ⟨zs, L₃, h₃, hsame⟩ := h₂.step_slotPages ⟨q, hq₂⟩ hop hrun
    refine ⟨(Kernel.step_cases hq₂.current_used hop.1 hrun).consistent ⟨q, hq₂⟩, zs, L₃, h₃, ?_⟩
    intro hlive'
    exact (hsame i hlive hlive').trans (hpages hlive)
  · exact ⟨hq, xs, L, h, fun _ => rfl⟩

/-- The pages that `Fork` takes are those of the new process. -/
theorem Owned.fork_slotPages (h : Owned image k xs L) (hq : Consistent k.scheduler)
    (hop : Admitted image .fork k) (hrun : k.step image .fork = some k') (hi : ¬ k.Live i)
    (hi' : k'.Live i) :
  ∃ ys L', Owned image k' ys L' ∧ xs.Perm (L'.slotPages k' i ++ ys)
  := by
  obtain ⟨q, hq⟩ := hq
  obtain ⟨⟨ret, k₁⟩, hfork, rfl⟩ := Option.map_eq_some_iff.mp hrun
  rcases h.fork_outcome hq (hop.1 rfl) hfork with
    ⟨_, _, hback, _⟩ | ⟨j, ys, a, _, _, _, hleaked⟩ | ⟨j, ys, a, S, _, _, hcopied⟩
  · exact absurd ((SamePages.of_process (hback.process i)).live.mp hi') hi
  · by_cases hij : i = j
    · subst hij
      exact absurd hi' (not_live_of_initialized hleaked.initialized)
    · exact absurd ((SamePages.of_process (hleaked.others i hij)).live.mp hi') hi
  · by_cases hij : i = j
    · subst hij
      refine ⟨ys, _, hcopied.owned, ?_⟩
      have hstack : (k₁.process i).stack = a := by
        rw [hcopied.forked.child, Kernel.process, newProcess_process]
      rw [slotPages_of_live hi', hstack, hcopied.pages]
      apply List.perm_iff_count.mpr
      intro x
      simp only [Layout.setSpace_self, Space.pages, Space.tables, List.count_append,
        List.count_cons, List.count_nil]
      omega
    · exact absurd ((SamePages.of_process (hcopied.forked.others i hij)).live.mp hi') hi

/-- The pages of a process are the pages that `Fork` took when it made the process. -/
theorem Owned.acquired {k₁ k₂ : Kernel} {xs₁ xs₂ : List ℕ} {L₁ : Layout}
    (h : Owned image k₁ xs₁ L₁) (hq : Consistent k₁.scheduler) (hop : Admitted image .fork k₁)
    (hrun : k₁.step image .fork = some k₂) (hi : ¬ k₁.Live i) (hi₂ : k₂.Live i)
    (hreach : Reachable (Kernel.step image) (fun op k => Admitted image op k ∧ k.Live i) k₂ k)
    (hlive : k.Live i) (hfree : Free image k₂.memory xs₂) :
  xs₁.Perm (k.processPages i ++ xs₂)
  := by
  obtain ⟨ys, L₂, h₂, hperm⟩ := h.fork_slotPages hq hop hrun hi hi₂
  obtain rfl := hfree.unique h₂.free
  have hq₂ : Consistent k₂.scheduler := by
    obtain ⟨q, hq⟩ := hq
    exact (Kernel.step_cases hq.current_used hop.1 hrun).consistent ⟨q, hq⟩
  obtain ⟨_, zs, L₃, h₃, hsame⟩ := Reachable.slotPages h₂ hq₂ hreach
  apply hperm.trans
  rw [← hsame hlive]
  exact (h₃.processPages_perm i).symm.append_right _

/-! ### Fork -/

/-- Sharing the files of a process adds their references. -/
theorem Referenced.share (h : Referenced k) {files : FileSystem} {new : Slot}
    (hadd : k.files.addReferences (k.process i).openFiles = some files)
    (hk : k'.files = files) (hnew : (k'.process new).file = (k.process i).file)
    (hunused : (k.process new).openFiles = [])
    (hother : ∀ j, j ≠ new → (k'.process j).file = (k.process j).file) :
  (∀ d, (k'.files.fdTable d).openCount
      = (k.files.fdTable d).openCount + (k.process i).openFiles.count d)
    ∧ ∀ c, (k'.files.fcbTable c).openCount = (k.files.fcbTable c).openCount
      + (k.process i).openFiles.countP (fun d => (k.files.fdTable d).fcb = some c)
  := by
  have hopen : (k'.process new).openFiles = (k.process i).openFiles := by
    rw [Process.openFiles, hnew]
    rfl
  have hperm := references_append hother hunused
  rw [hopen] at hperm
  obtain ⟨files', hadd', hcounted, hlink⟩ := h.counted.addReferences
    (fun d hd => mem_references.mpr ⟨i, hd⟩) (by
      unfold Few
      rw [hperm.length_eq]
      exact few_references k')
  obtain rfl := Option.some.inj (hadd.symm.trans hadd')
  rw [hk]
  constructor
  · intro d
    rw [hcounted.count, h.counted.count, List.count_append]
    omega
  · intro c
    have hlinked : k.files.linkedTo c = fun d => decide ((k.files.fdTable d).fcb = some c) := rfl
    rw [hcounted.openCount, h.counted.openCount, linkedTo_congr hlink, List.countP_append, hlinked]
    omega

namespace Copied

variable {S : Space} {stack : ℕ}

/-- The pages of the new process were free. -/
theorem page_free (h : Copied image k k' xs ys L q i stack S) {p : ℕ} (hp : p ∈ stack :: S.pages) :
  p ∈ xs
  := by
  rw [h.pages]
  simp only [Space.pages, Space.tables, List.mem_cons, List.not_mem_nil, or_false] at hp ⊢
  tauto

/-- The pages of the processes are the same after a `Fork`. -/
theorem byte (h : Copied image k k' xs ys L q i stack S) (howned : Owned image k xs L) {p o : ℕ}
    (hp : p ∈ k.processPages j) (ho : o < pageSize) :
  k'.memory.bytes (p + o) = k.memory.bytes (p + o)
  := by
  have hheld : p ∈ L.held k := by
    apply howned.mem_heldPages.mp
    apply List.mem_append_right
    exact List.mem_flatMap.mpr ⟨j, List.mem_finRange j, hp⟩
  have hnew : p ∉ stack :: S.pages := fun hmem => howned.not_mem_held (h.page_free hmem) hheld
  apply h.forked.changes.byte _ (howned.isPage p hheld).aligned hnew
  · exact ⟨Nat.le_add_right _ _, Nat.add_lt_add_left ho _⟩
  · exact fun x hx => (howned.free.isPage x (h.page_free hx)).aligned

theorem live (h : Copied image k k' xs ys L q i stack S)
    (hq : Queued k.scheduler q (some k.currentProc) none) :
  k'.Live i
  := by
  have hstate : (k'.process i).state = .ready := by rw [h.forked.child]
  refine ⟨(hq.free_slot h.slot).2.2.1, ?_, ?_⟩
  · rw [hstate]
    simp
  · rw [hstate]
    simp

theorem child_pid (h : Copied image k k' xs ys L q i stack S) :
  (k'.process i).pid = k.scheduler.pidNum
  := by rw [h.forked.child, Kernel.process, newProcess_process]

theorem child_tf (h : Copied image k k' xs ys L q i stack S) :
  (k'.process i).tf = trapFrameAddress stack
  := by rw [h.forked.child, Kernel.process, newProcess_process]

end Copied

/-- Until the counter of pids overflows, no process has the next pid. -/
theorem DistinctPids.next (h : DistinctPids k.scheduler) (hcreated : k.scheduler.created < 2 ^ 31 - 1)
    (hj : (k.process j).state ≠ .unused) :
  (k.process j).pid ≠ k.scheduler.pidNum
  := by
  have hpids := h hcreated
  rw [hpids.pidNum]
  by_cases hidle : j = idleSlot
  · rw [hidle, hpids.idle, idleProcessPid]
    omega
  · have hbound : (k.process j).pid ≤ k.scheduler.created := (hpids.bound j hidle hj).2
    omega

/-- In every state of a run, a `Fork` that returns a pid makes a process with this pid in
an unused slot, at the end of the ready list. Its trap frame and its user page are copies,
in pages of its own, and it shares the files. The other processes and their pages are the
same. Until the counter of pids overflows, no other process has the pid. -/
theorem reachable_fork {machine : Machine} {k₀ : Kernel} {ret : Int}
    (hmap : DisjointRegions machine.memMap) (h₀ : kMain image machine = some k₀)
    (h : Reachable (Kernel.step image) (Admitted image) k₀ k) (hidle : k.currentProc ≠ idleSlot)
    (hlists : ∀ list, Represents k.scheduler.links (.head list) ((q list).map .proc))
    (hrun : fork image k = some (ret, k')) (hret : 0 ≤ ret) :
  ∃ i page page', (k.process i).state = .unused ∧ (k'.process i).pid = ret
    ∧ (k.scheduler.created < 2 ^ 31 - 1 →
      ∀ j, (k.process j).state ≠ .unused → (k.process j).pid ≠ ret)
    ∧ (∀ o, o < sizeofTrapFrame → o < 112 ∨ 120 ≤ o →
      k'.memory.bytes ((k'.process i).tf + o) = k.memory.bytes ((k.process k.currentProc).tf + o))
    ∧ k'.memory.bytes.readWord ((k'.process i).tf + 112) = 0
    ∧ k.userPage k.currentProc = some page ∧ k'.userPage i = some page' ∧ page' ≠ page
    ∧ (∀ o, o < pageSize → k'.memory.bytes (page' + o) = k.memory.bytes (page + o))
    ∧ (k'.process i).file = (k.process k.currentProc).file
    ∧ (∀ d, (k'.files.fdTable d).openCount
      = (k.files.fdTable d).openCount + (k.process k.currentProc).openFiles.count d)
    ∧ (∀ c, (k'.files.fcbTable c).openCount = (k.files.fcbTable c).openCount
      + (k.process k.currentProc).openFiles.countP (fun d => (k.files.fdTable d).fcb = some c))
    ∧ (∀ list, Represents k'.scheduler.links (.head list)
      ((q.push .readyProcList i list).map .proc))
    ∧ (∀ j, j ≠ i → k'.process j = k.process j) ∧ k'.currentProc = k.currentProc
    ∧ ∀ j p o, p ∈ k.processPages j → o < pageSize →
      k'.memory.bytes (p + o) = k.memory.bytes (p + o)
  := by
  obtain ⟨⟨q', hq⟩, xs, L, howned⟩ := Reachable.apart hmap h₀ h
  obtain rfl := hq.eq_of_represents hlists
  obtain ⟨m, files₀, cr3, hinit⟩ := kMain_initProcess h₀
  obtain ⟨_, href⟩ := Reachable.referenced (fun _ _ hok => hok.1) (initProcess_consistent hinit)
    (kMain_referenced h₀) h
  obtain ⟨_, hdistinct⟩ := Reachable.distinct (fun _ _ hok => hok.1) hinit h
  rcases howned.fork_outcome hq hidle hrun with
    ⟨_, rfl, _⟩ | ⟨i, ys, a, _, _, rfl, _⟩ | ⟨i, ys, a, S, _, rfl, hcopied⟩
  · exact absurd hret (by decide)
  · exact absurd hret (by decide)
  have hcurrent := hq.live_current hidle
  have hpage : k'.userPage i = some S.page := by
    rw [hcopied.owned.userPage (hcopied.live hq), Layout.setSpace_self]
  obtain ⟨hcount, hopenCount⟩ := href.share hcopied.files rfl
    (by rw [hcopied.forked.child])
    (by
      have hzero : k.process i = Process.zero := (hq.free_slot hcopied.slot).2.1
      rw [hzero, openFiles_zero])
    (fun j hj => congrArg Process.file (hcopied.forked.others j hj))
  refine ⟨i, (L.space k.currentProc).page, S.page, state_of_findFreeProcessSlot hcopied.slot,
    hcopied.child_pid, fun hcreated j hj => hdistinct.next hcreated hj, ?_, ?_,
    howned.userPage hcurrent, hpage, ?_, hcopied.forked.page, ?_, hcount, hopenCount,
    hcopied.queued.holds.represents, hcopied.forked.others, hcopied.forked.currentProc, ?_⟩
  · rw [hcopied.child_tf]
    exact hcopied.forked.frame
  · rw [hcopied.child_tf]
    exact hcopied.forked.rax
  · intro heq
    apply howned.not_mem_held (hcopied.page_free (List.mem_cons_of_mem _ List.mem_cons_self))
    rw [heq]
    exact Owned.mem_held_of_live hcurrent (List.mem_cons_of_mem _ List.mem_cons_self)
  · rw [hcopied.forked.child]
  · exact fun j p o hp ho => hcopied.byte howned hp ho

theorem reachable_fork_small :
  ∃ k₀ k k', kMain smallImage (smallMachine 64) = some k₀
    ∧ Reachable (Kernel.step smallImage) (Admitted smallImage) k₀ k ∧ k.currentProc = 1
    ∧ fork smallImage k = some (2, k')
    ∧ ∃ i page page', (k'.process i).pid = 2 ∧ k.userPage 1 = some page
      ∧ k'.userPage i = some page' ∧ page' ≠ page
      ∧ ∀ o, o < pageSize → k'.memory.bytes (page' + o) = k.memory.bytes (page + o)
  := by
  obtain ⟨k₀, k, xs, hboot, hrun, hquiet, hlen, hcurrent, _, hpidNum, _⟩ :=
    kMain_shell (n := 64) (by decide) (by decide)
  have hlen' : xs.length = 52 := hlen
  have hidle : k.currentProc ≠ idleSlot := by
    rw [hcurrent]
    decide
  obtain ⟨k', ys, hfork, _⟩ := hquiet.fork hidle (by decide) (by omega)
  rw [hpidNum] at hfork
  obtain ⟨i, page, page', _, hpid, _, _, _, hpage, hpage', hne, hcopy, _⟩ :=
    reachable_fork (smallMachine_disjoint 64) hboot hrun.reachable hidle hquiet.queued.holds.represents
      hfork (by decide)
  rw [hcurrent] at hpage
  exact ⟨k₀, k, k', hboot, hrun.reachable, hcurrent, hfork, i, page, page', hpid, hpage, hpage',
    hne, hcopy⟩

/-- After `2 ^ 32 - 1` processes have come and gone, the next pid is that of the shell. -/
theorem fork_pid_reused :
  ∃ k₀ k k', kMain smallImage (smallMachine 64) = some k₀
    ∧ Reachable (Kernel.step smallImage) (Admitted smallImage) k₀ k ∧ k.currentProc = 1
    ∧ fork smallImage k = some (1, k')
    ∧ (k.process 1).state ≠ .unused ∧ (k.process 1).pid = 1
  := by
  obtain ⟨k₀, k, xs, hboot, hrun, hquiet, hlen, hcurrent, hpid, hpidNum, _⟩ :=
    kMain_shell (n := 64) (by decide) (by decide)
  have hlen' : xs.length = 52 := hlen
  obtain ⟨k₁, ys, hreach₁, h₁, hlen₁, hcurrent₁, hpid₁, hpidNum₁⟩ := hquiet.cycles
    (by
      rw [hcurrent]
      decide)
    (by
      rw [hcurrent, hpid]
      decide) (by decide) (by decide) (by omega) (2 ^ 32 - 1)
  have hidle : k₁.currentProc ≠ idleSlot := by
    rw [hcurrent₁, hcurrent]
    decide
  have hone : k₁.scheduler.pidNum = 1 := by
    rw [hpidNum₁, hpidNum]
    decide
  obtain ⟨k', _, hfork, _⟩ := h₁.fork hidle (by decide) (by omega)
  rw [hone] at hfork
  rw [hcurrent, hpid] at hpid₁
  refine ⟨k₀, k₁, k', hboot, hrun.reachable.trans hreach₁, hcurrent₁.trans hcurrent, hfork, ?_, hpid₁⟩
  rw [Ne, h₁.used]
  decide

/-! ### Wait -/

/-- Reaping a process drops the references of its files. -/
theorem Referenced.drop (h : Referenced k) (i : Slot) :
  ∃ (files : FileSystem) (refs : List ℕ),
    k.files.dropReferences (k.process i).openFiles = some files
    ∧ (∀ d, (files.fdTable d).openCount
      = (k.files.fdTable d).openCount - (k.process i).openFiles.count d)
    ∧ (∀ c, (files.fcbTable c).openCount = (k.files.fcbTable c).openCount
      - (k.process i).openFiles.countP (fun d => (k.files.fdTable d).fcb = some c))
    ∧ (∀ d, (files.fdTable d).fcb = none ↔ d ∉ refs)
    ∧ ∀ d, d ∈ refs ↔ ∃ j, j ≠ i ∧ d ∈ (k.process j).openFiles
  := by
  have hother : ∀ j, j ≠ i → (k.process j).file = ((k.setProcess i Process.zero).process j).file :=
    fun j hj => congrArg Process.file (Scheduler.setProcess_of_ne hj _ _).symm
  have hself : (k.setProcess i Process.zero).process i = Process.zero :=
    Scheduler.setProcess_self _ _ _
  have hperm := references_append hother (by rw [hself, openFiles_zero])
  have hcounted := h.counted.congr hperm.symm
  obtain ⟨files, hdrop, hcounted', hkept⟩ := hcounted.dropReferences (by
    unfold Few
    rw [hperm.length_eq]
    exact few_references k)
  refine ⟨files, _, hdrop, ?_, ?_, hcounted'.linked, ?_⟩
  · intro d
    rw [hcounted.count, hcounted'.count, List.count_append]
    omega
  · intro c
    have hsame : (k.setProcess i Process.zero).references.countP (files.linkedTo c)
        = (k.setProcess i Process.zero).references.countP (k.files.linkedTo c) := by
      apply List.countP_congr
      intro d hd
      rw [linkedTo, linkedTo, hkept d hd]
    have hlinked : k.files.linkedTo c = fun d => decide ((k.files.fdTable d).fcb = some c) := rfl
    rw [hcounted.openCount, hcounted'.openCount, hsame, List.countP_append, hlinked]
    omega
  · intro d
    rw [mem_references]
    constructor
    · rintro ⟨j, hj⟩
      have hne : j ≠ i := by
        rintro rfl
        rw [hself, openFiles_zero] at hj
        cases hj
      refine ⟨j, hne, ?_⟩
      rw [Process.openFiles, hother j hne]
      exact hj
    · rintro ⟨j, hne, hj⟩
      use j
      rw [Process.openFiles, ← hother j hne]
      exact hj

/-- `Wait` finds the first process on the kill list with the pid. -/
theorem awaited_eq_some {pid : Int} {ys zs : List Slot} (hkill : q .killProcList = ys ++ i :: zs)
    (hpid : (k.process i).pid = pid) (hys : ∀ j ∈ ys, (k.process j).pid ≠ pid) :
  k.awaited q pid = some i
    ∧ q.remove .killProcList (fun i => (k.process i).pid = pid)
      = Function.update q .killProcList (ys ++ zs)
  := by
  have hnone : ys.find? (fun j => decide ((k.process j).pid = pid)) = none := by
    simpa using hys
  constructor
  · rw [Kernel.awaited, hkill, List.find?_append, hnone, Option.none_or,
      List.find?_cons_of_pos (p := fun j => decide ((k.process j).pid = pid)) (decide_eq_true hpid)]
  · rw [Queues.remove, hkill, List.eraseP_append_right _ (by simpa using hys),
      List.eraseP_cons_of_pos (p := fun j => decide ((k.process j).pid = pid))
        (decide_eq_true hpid)]

/-- The pages of a process are seven. -/
theorem Owned.length_processPages (h : Owned image k xs L) (hi : k.Live i) :
  (k.processPages i).length = 7
  := by
  rw [(h.processPages_perm i).length_eq, slotPages_of_live hi]
  rfl

/-- In every state of a run `Wait` reaps the killed process that it waits for: it
removes the process from the kill list and clears its slot, it drops its files, and it
gives back the pages of the process, which are those that `Fork` took for it. -/
theorem reachable_wait {machine : Machine} {k₀ : Kernel} {pid : Int} {ys zs : List Slot}
    (hmap : DisjointRegions machine.memMap) (h₀ : kMain image machine = some k₀)
    (h : Reachable (Kernel.step image) (Admitted image) k₀ k)
    (hlists : ∀ list, Represents k.scheduler.links (.head list) ((q list).map .proc))
    (hkill : q .killProcList = ys ++ i :: zs) (hpid : (k.process i).pid = pid)
    (hys : ∀ j ∈ ys, (k.process j).pid ≠ pid) :
  ∃ k' xs xs', k.step image (.wait pid) = some k'
    ∧ (∀ list, Represents k'.scheduler.links (.head list)
      ((Function.update q .killProcList (ys ++ zs) list).map .proc))
    ∧ k'.process i = Process.zero ∧ (∀ j, j ≠ i → k'.process j = k.process j)
    ∧ k'.currentProc = k.currentProc
    ∧ (∀ d, (k'.files.fdTable d).openCount
      = (k.files.fdTable d).openCount - (k.process i).openFiles.count d)
    ∧ (∀ c, (k'.files.fcbTable c).openCount = (k.files.fcbTable c).openCount
      - (k.process i).openFiles.countP (fun d => (k.files.fdTable d).fcb = some c))
    ∧ (∀ d ∈ (k.process i).openFiles, ((k'.files.fdTable d).fcb = none
      ↔ ∀ j, j ≠ i → ∀ fd, (k.process j).file fd ≠ some d))
    ∧ Free image k.memory xs ∧ Free image k'.memory xs' ∧ xs'.Perm (k.processPages i ++ xs)
    ∧ (k.processPages i).length = 7
    ∧ ∀ k₁ k₂ xs₁ xs₂, Reachable (Kernel.step image) (Admitted image) k₀ k₁ →
      k₁.currentProc ≠ idleSlot → k₁.step image .fork = some k₂ → ¬ k₁.Live i → k₂.Live i →
      Reachable (Kernel.step image) (fun op k => Admitted image op k ∧ k.Live i) k₂ k →
      Free image k₁.memory xs₁ → Free image k₂.memory xs₂ →
      xs₁.Perm (k.processPages i ++ xs₂)
  := by
  obtain ⟨⟨q', hq⟩, xs, L, howned⟩ := Reachable.apart hmap h₀ h
  obtain rfl := hq.eq_of_represents hlists
  obtain ⟨m, files₀, cr3, hinit⟩ := kMain_initProcess h₀
  obtain ⟨_, href⟩ := Reachable.referenced (fun _ _ hok => hok.1) (initProcess_consistent hinit)
    (kMain_referenced h₀) h
  obtain ⟨hi, hremove⟩ := awaited_eq_some hkill hpid hys
  have hmem : i ∈ q .killProcList := List.mem_of_find?_eq_some hi
  have hlive : k.Live i := hq.live_of_mem hmem
  obtain ⟨files, refs, hdrop, hcount, hopenCount, hfreed, hrefs⟩ := href.drop i
  obtain ⟨k', xs', hrun, howned', hperm, _, rfl, hzero, hother, hcurrent, hq'⟩ :=
    howned.waitIteration hq hi hdrop
  have hstep : k.step image (.wait pid) = some k' := by
    rw [Kernel.step, Kernel.wait, hrun]
    rfl
  rw [hremove] at hq'
  refine ⟨k', xs, xs', hstep, hq'.holds.represents, hzero, hother, hcurrent, hcount, hopenCount,
    ?_, howned.free, howned'.free, ?_, howned.length_processPages hlive, ?_⟩
  · intro d _
    rw [hfreed, hrefs]
    constructor
    · intro hnone j hj fd hfile
      exact hnone ⟨j, hj, mem_openFiles.mpr ⟨fd, href.user_fd hfile, hfile⟩⟩
    · rintro hnone ⟨j, hj, hopen⟩
      obtain ⟨fd, _, hfile⟩ := mem_openFiles.mp hopen
      exact hnone j hj fd hfile
  · apply hperm.trans
    apply List.Perm.append_right
    rw [← Owned.slotPages_of_live hlive]
    exact (howned.processPages_perm i).symm
  · intro k₁ k₂ xs₁ xs₂ h₁ hidle₁ hfork hi₁ hi₂ hreach hfree₁ hfree₂
    obtain ⟨hq₁, ys₁, L₁, howned₁⟩ := Reachable.apart hmap h₀ h₁
    obtain rfl := hfree₁.unique howned₁.free
    exact howned₁.acquired hq₁ ⟨fun _ => hidle₁, trivial⟩ hfork hi₁ hi₂ hreach hlive hfree₂

theorem reachable_wait_small :
  ∃ k₀ k k', kMain smallImage (smallMachine 64) = some k₀
    ∧ Reachable (Kernel.step smallImage) (Admitted smallImage) k₀ k
    ∧ k.step smallImage (.wait 2) = some k' ∧ k'.process 2 = Process.zero
    ∧ ∃ xs xs', Free smallImage k.memory xs ∧ Free smallImage k'.memory xs'
      ∧ xs'.Perm (k.processPages 2 ++ xs) ∧ (k.processPages 2).length = 7
  := by
  obtain ⟨k₀, k, xs, hboot, hrun, hquiet, hlen, hcurrent, hpid, hpidNum, _⟩ :=
    kMain_shell (n := 64) (by decide) (by decide)
  have hlen' : xs.length = 52 := hlen
  obtain ⟨k₁, ys, hrun₁, h₁, _, _, hpid₁, _⟩ := hquiet.fork_exit
    (by
      rw [hcurrent]
      decide)
    (by
      rw [hcurrent, hpid]
      decide) (by decide) (by decide) (by omega)
  have hpid₂ : (k₁.process 2).pid = 2 := hpid₁.trans hpidNum
  have hreach := (hrun.append hrun₁).reachable
  obtain ⟨k', zs, zs', hstep, _, hzero, _, _, _, _, _, hfree, hfree', hperm, hlength, _⟩ :=
    @reachable_wait _ _ _ 2 _ _ _ [] [] (smallMachine_disjoint 64) hboot hreach
      h₁.queued.holds.represents rfl hpid₂ (by simp)
  exact ⟨k₀, k₁, k', hboot, hreach, hstep, hzero, zs, zs', hfree, hfree', hperm,
    hlength⟩

end LarvaOS
