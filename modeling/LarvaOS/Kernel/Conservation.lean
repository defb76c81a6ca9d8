import LarvaOS.Kernel.Descriptors
import LarvaOS.Kernel.Lifetimes
import LarvaOS.Kernel.Rotation

/-!
# The pages of the machine in runs

Every page that `KMain` found is free, or held by the kernel or a process, or it was lost
by a `Fork` that ran out of pages.  Such a `Fork` also leaves a slot that no process gets
any more, so the lost pages are at most four for each of these slots.
-/

namespace LarvaOS

open FileSystem

variable {image : Image} {k k' : Kernel} {q : Queues} {xs ys : List ℕ} {L : Layout} {i : Slot}
  {op : Operation}

/-- The slots that a `Fork` has left `INITIALIZED`. -/
def Kernel.abandoned (k : Kernel) : Finset Slot :=
  Finset.univ.filter (fun i => (k.process i).state = .initialized)

/-- The slots of the processes other than IDLE. -/
def Kernel.live (k : Kernel) : Finset Slot := Finset.univ.filter k.Live

/-- Pages and slots that a step loses: none, or up to four pages and one slot. -/
def Loses (k k' : Kernel) (lost : List ℕ) : Prop :=
  lost = [] ∧ k'.abandoned = k.abandoned
    ∨ (lost.length = 1 ∨ lost.length = 4)
      ∧ ∃ i, i ∉ k.abandoned ∧ k'.abandoned = insert i k.abandoned

/-- The free and the held pages after a step are those before it, apart from the lost ones. -/
def Moves (image : Image) (k k' : Kernel) (xs : List ℕ) (L : Layout) : Prop :=
  ∃ ys L' lost, Owned image k' ys L' ∧ (ys ++ L'.held k' ++ lost).Perm (xs ++ L.held k)
    ∧ Loses k k' lost

/-! ### Steps -/

/-- The slots are left alone when no process becomes `INITIALIZED` or was. -/
theorem abandoned_congr (h : ∀ i, (k'.process i).state = .initialized
    ↔ (k.process i).state = .initialized) :
  k'.abandoned = k.abandoned
  := by
  unfold Kernel.abandoned
  ext i
  simp only [Finset.mem_filter, Finset.mem_univ, true_and, h i]

namespace Owned

theorem SamePages.trans {k₁ : Kernel} (h₁ : SamePages k k₁ i) (h₂ : SamePages k₁ k' i) :
  SamePages k k' i
  where
  live := h₂.live.trans h₁.live
  pageMap hi := (h₂.pageMap (hi.imp_left h₁.live.mpr)).trans (h₁.pageMap hi)
  stack hi := (h₂.stack (h₁.live.mpr hi)).trans (h₁.stack hi)
  tf hi := (h₂.tf (h₁.live.mpr hi)).trans (h₁.tf hi)

/-- The held pages are the same when the pages of the slots are. -/
theorem held_eq (hv : SameDisk k.files k'.files) (hsame : ∀ i, SamePages k k' i) :
  L.held k' = L.held k
  := by
  have hslot : L.slotPages k' = L.slotPages k := by
    funext i
    exact (hsame i).slotPages rfl
  unfold Layout.held
  rw [hslot, (hsame idleSlot).kernelPages hv rfl rfl]

/-- Nothing moves when the pages of the slots are the same. -/
theorem moves_none (h : Owned image k' xs L) (hv : SameDisk k.files k'.files)
    (hsame : ∀ i, SamePages k k' i)
    (hstate : ∀ i, (k'.process i).state = .initialized ↔ (k.process i).state = .initialized) :
  Moves image k k' xs L
  := by
  refine ⟨xs, L, [], h, ?_, Or.inl ⟨rfl, abandoned_congr hstate⟩⟩
  rw [held_eq hv hsame, List.append_nil]

/-- Operations of the scheduler and on files move no pages. -/
theorem moves_kept {s : Scheduler} (h : Owned image k' xs L) (hv : SameDisk k.files k'.files)
    (hfiles : OnlyFiles k.scheduler s) (hres : SameResources s k'.scheduler) :
  Moves image k k' xs L
  := by
  have hsame₁ : ∀ i, SamePages k { k with scheduler := s } i :=
    fun i => @OnlyFiles.samePages k { k with scheduler := s } hfiles i
  have hsame₂ : ∀ i, SamePages { k with scheduler := s } k' i :=
    fun i => SameResources.samePages (k := { k with scheduler := s }) hres i
  apply h.moves_none hv (fun i => (hsame₁ i).trans (hsame₂ i))
  intro i
  have hstate : (s.process i).state = (k.process i).state := hfiles.state i
  rw [← hstate]
  exact hres.initialized i

/-- The pages move between the free list and one slot. -/
theorem held_perm {L' : Layout} (hkernel : L'.kernelPages k' = L.kernelPages k)
    (hother : ∀ j, j ≠ i → L'.slotPages k' j = L.slotPages k j)
    (hpages : (ys ++ L'.slotPages k' i).Perm (xs ++ L.slotPages k i)) :
  (ys ++ L'.held k').Perm (xs ++ L.held k)
  := by
  apply List.perm_iff_count.mpr
  intro a
  have hcount := count_held hkernel hother a
  have hslot := List.perm_iff_count.mp hpages a
  simp only [List.count_append] at hslot ⊢
  omega

/-- Nothing is lost when the pages of one slot change. -/
theorem moves_slot {L' : Layout} (h : Owned image k' ys L')
    (hkernel : L'.kernelPages k' = L.kernelPages k)
    (hother : ∀ j, j ≠ i → L'.slotPages k' j = L.slotPages k j)
    (hpages : (ys ++ L'.slotPages k' i).Perm (xs ++ L.slotPages k i))
    (habandoned : k'.abandoned = k.abandoned) :
  Moves image k k' xs L
  := by
  refine ⟨ys, L', [], h, ?_, Or.inl ⟨rfl, habandoned⟩⟩
  rw [List.append_nil]
  exact held_perm hkernel hother hpages

/-- `Wait` gives back the pages of the process that it reaps. -/
theorem wait_moves {pid : Int} (h : Owned image k xs L) (href : Referenced k)
    (hq : Queued k.scheduler q (some k.currentProc) none) (hidle : k.currentProc ≠ idleSlot)
    (hv : SameDisk k.files k'.files) (hrun : k.wait image pid = some k') :
  Moves image k k' xs L
  := by
  by_cases hempty : q .killProcList = []
  · obtain ⟨s, hs, _, hres, _⟩ := hq.sleep hidle initProcessWaitId
    rw [Kernel.wait, hq.waitIteration_nil pid hempty, hs] at hrun
    obtain rfl := Option.some.inj hrun
    exact (h.schedule hres).moves_kept hv (OnlyFiles.refl _) hres
  · obtain ⟨i, hi⟩ := hq.wait_awaited hempty hrun
    have hmem : i ∈ q .killProcList := List.mem_of_find?_eq_some hi
    have hlive : k.Live i := hq.live_of_mem hmem
    obtain ⟨files, _, hdrop, _⟩ := href.drop i
    obtain ⟨k₁, ys, hiter, howned, hperm, _, _, hzero, hother, _⟩ := h.waitIteration hq hi hdrop
    rw [Kernel.wait, hiter] at hrun
    obtain rfl : k₁ = k' := Option.some.inj hrun
    have hlive' : ¬ k₁.Live i := by
      apply not_live_of_unused
      rw [hzero]
      rfl
    have hidle' : idleSlot ≠ i := by
      rintro rfl
      exact hq.idle _ hmem
    apply howned.moves_slot (L := L) (i := i)
    · exact (SamePages.of_process (hother _ hidle')).kernelPages hv rfl rfl
    · exact fun j hj => (SamePages.of_process (hother j hj)).slotPages rfl
    · rw [slotPages_of_live hlive, Layout.slotPages, if_neg hlive', List.append_nil]
      exact hperm.trans List.perm_append_comm
    · apply abandoned_congr
      intro j
      by_cases hj : j = i
      · have hkilled : (k.process i).state = .killed := hq.state _ i hmem (by simp)
        rw [hj, hzero, hkilled]
        simp [Process.zero]
      · rw [hother j hj]

/-- `Fork` with four to six free pages loses one page, or with four all of them. -/
theorem fork_loses {a b c d : ℕ} (h : Owned image k (a :: b :: c :: d :: xs) L)
    (hq : Queued k.scheduler q (some k.currentProc) none)
    (hfind : findFreeProcessSlot k.scheduler = some i) (hlen : xs.length < 3) :
  ∃ k' ys lost, LarvaOS.fork image k = some (-enomem, k') ∧ Free image k'.memory ys
    ∧ (ys ++ lost).Perm (a :: b :: c :: d :: xs) ∧ (lost.length = 1 ∨ lost.length = 4)
  := by
  obtain ⟨m, hcreate, hmemory, hspace, hnodup, hpages, _⟩ := h.fork_create hq hfind
  have hmap : ((Kernel.mk m k.files (k.scheduler.newProcess i a b)).process i).pageMap = b :=
    congrArg Process.pageMap (newProcess_process k.scheduler i a b)
  rcases xs with _ | ⟨p, xs⟩
  · refine ⟨_, [], [a, b, c, d], fork_eq_fail hcreate (m := m) ?_, hmemory.free, ?_, Or.inr rfl⟩
    · rw [hmap]
      exact copyUVM_nil hmemory.free
    · exact List.Perm.refl _
  · obtain ⟨m', ys, hcopy, hfree', hys, _⟩ := @copyUVM_fail image m L.size xs b c d p
      ((Kernel.mk m k.files (k.scheduler.newProcess i a b)).process k.currentProc).pageMap
      pageSize hspace hmemory.free (Nat.lt_of_succ_lt_succ hlen) hpages (by
        apply hnodup.of_count_le
        intro x
        simp only [List.count_append, List.count_cons, List.count_nil]
        omega)
    refine ⟨_, ys, [a], fork_eq_fail hcreate (m := m') ?_, hfree', ?_, Or.inl rfl⟩
    · rw [hmap]
      exact hcopy
    · exact (hys.append_right [a]).trans List.perm_append_comm

/-- `Fork` moves pages to the new process, or it stops and may lose some. -/
theorem fork_moves {ret : Int} (h : Owned image k xs L)
    (hq : Queued k.scheduler q (some k.currentProc) none) (hidle : k.currentProc ≠ idleSlot)
    (hv : SameDisk k.files k'.files) (hrun : LarvaOS.fork image k = some (ret, k')) :
  Moves image k k' xs L
  := by
  rcases h.fork_outcome hq hidle hrun with
    ⟨_, _, hback, ys, howned⟩ | ⟨i, ys, a, hle, hlt, _, hleaked⟩ | ⟨i, ys, a, S, _, _, hcopied⟩
  · obtain ⟨zs, hfree, hperm⟩ := hback.pages xs h.free
    obtain rfl := hfree.unique howned.free
    refine ⟨zs, L, [], howned, ?_, Or.inl ⟨rfl, abandoned_congr fun j => by rw [hback.process j]⟩⟩
    rw [held_eq hv (fun j => SamePages.of_process (hback.process j)), List.append_nil]
    exact hperm.append_right _
  · obtain ⟨hunused, _, hne, _⟩ := hq.free_slot hleaked.slot
    have hsame : ∀ j, SamePages k k' j := by
      intro j
      by_cases hj : j = i
      · subst hj
        exact SamePages.of_not_live hne (not_live_of_unused hunused)
          (not_live_of_initialized hleaked.initialized)
      · exact SamePages.of_process (hleaked.others j hj)
    obtain ⟨b, c, d, e, zs, rfl⟩ : ∃ b c d e zs, xs = b :: c :: d :: e :: zs := by
      rcases xs with _ | ⟨b, _ | ⟨c, _ | ⟨d, _ | ⟨e, zs⟩⟩⟩⟩
      · simp at hle
      · simp at hle
      · simp at hle
      · simp at hle
      · exact ⟨b, c, d, e, zs, rfl⟩
    simp only [List.length_cons] at hlt
    obtain ⟨k₁, ys', lost, hrun', hfree, hperm, hlost⟩ := h.fork_loses hq hleaked.slot (by omega)
    rw [hrun'] at hrun
    obtain ⟨_, rfl⟩ := Prod.mk.inj (Option.some.inj hrun)
    obtain rfl := hfree.unique hleaked.owned.free
    refine ⟨ys', L, lost, hleaked.owned, ?_, Or.inr ⟨hlost, i, ?_, ?_⟩⟩
    · rw [held_eq hv hsame, List.append_assoc]
      apply (List.Perm.append_left ys' List.perm_append_comm).trans
      rw [← List.append_assoc]
      exact hperm.append_right _
    · simp [Kernel.abandoned, hunused]
    · ext j
      by_cases hj : j = i
      · subst hj
        simp [Kernel.abandoned, hleaked.initialized]
      · simp [Kernel.abandoned, hj, hleaked.others j hj]
  · have hlive := hcopied.live hq
    obtain ⟨hunused, _, hne, _⟩ := hq.free_slot hcopied.slot
    have hstack : (k'.process i).stack = a := by
      rw [hcopied.forked.child, Kernel.process, newProcess_process]
    apply hcopied.owned.moves_slot (i := i)
    · exact (SamePages.of_process (hcopied.forked.others _ (Ne.symm hne))).kernelPages hv rfl rfl
    · intro j hj
      exact (SamePages.of_process (hcopied.forked.others j hj)).slotPages
        (Layout.setSpace_of_ne L hj S)
    · rw [slotPages_of_live hlive, Layout.slotPages, if_neg (not_live_of_unused hunused),
        List.append_nil, hstack, hcopied.pages]
      apply List.perm_iff_count.mpr
      intro x
      simp only [Layout.setSpace_self, Space.pages, Space.tables, List.count_append,
        List.count_cons, List.count_nil]
      omega
    · apply abandoned_congr
      intro j
      by_cases hj : j = i
      · subst hj
        have hready : (k'.process j).state = .ready := by rw [hcopied.forked.child]
        rw [hready, hunused]
        simp
      · rw [hcopied.forked.others j hj]

/-- A process that is terminated keeps its pages until it is reaped. -/
theorem exit_moves {s : Scheduler} (h : Owned image k' xs L) (hv : SameDisk k.files k'.files)
    (hq : Queued k.scheduler q (some k.currentProc) none) (hidle : k.currentProc ≠ idleSlot)
    (hs : OnlyFiles k.scheduler s) (hexit : LarvaOS.exit s = some k'.scheduler) :
  Moves image k k' xs L
  := by
  have hqs := hs.queued hq
  rw [Kernel.currentProc, ← hs.currentProc] at hqs
  obtain ⟨s', hs', _, hres, _⟩ := hqs.exit (by rwa [hs.currentProc])
  obtain rfl := Option.some.inj (hs'.symm.trans hexit)
  exact h.moves_kept hv hs hres

/-- Every step moves pages between the free list and the processes, or loses some. -/
theorem step_moves (h : Owned image k xs L) (href : Referenced k)
    (hq : Queued k.scheduler q (some k.currentProc) none) (hop : Admitted image op k)
    (hrun : k.step image op = some k') :
  Moves image k k' xs L
  := by
  obtain ⟨hallowed, hfits⟩ := hop
  have hv : SameDisk k.files k'.files := (href.step_keeps ⟨q, hq⟩ h.sector hrun).disk
  have hscheduled {run : Scheduler → Option Scheduler} {s : Scheduler}
      (hs : run k.scheduler = some s) (hres : SameResources k.scheduler s)
      (hrun : k.schedule run = some k') : Moves image k k' xs L := by
    apply (h.scheduled hs hres hrun).moves_kept hv (OnlyFiles.refl _)
    obtain ⟨s', hs', rfl⟩ := Kernel.schedule_eq_some.mp hrun
    obtain rfl := Option.some.inj (hs.symm.trans hs')
    exact hres
  have hfiles (howned : Owned image k' xs L) (hfiles : OnlyFiles k.scheduler k'.scheduler) :
      Moves image k k' xs L := howned.moves_kept hv hfiles (SameResources.refl _)
  have hexited (howned : Owned image k' xs L) (hidle : k.currentProc ≠ idleSlot)
      (hexit : k.exit = some k') : Moves image k k' xs L := by
    obtain ⟨s, hs, rfl⟩ := Kernel.exit_eq_some.mp hexit
    exact howned.exit_moves hv hq hidle (OnlyFiles.refl _) hs
  cases op with
  | yield =>
      by_cases hready : q .readyProcList = []
      · exact hscheduled (hq.yield_nil hready) (SameResources.refl _) hrun
      · obtain ⟨s, hs, _, hres, _⟩ := hq.yield_cons hready
        exact hscheduled hs hres hrun
  | sleep waitId =>
      obtain ⟨s, hs, _, hres, _⟩ := hq.sleep (hallowed rfl) waitId
      exact hscheduled hs hres hrun
  | wakeup waitId =>
      obtain ⟨s, hs, _, hres, _⟩ := hq.wakeup waitId
      exact hscheduled hs hres hrun
  | exit => exact hexited (h.exit hq (hallowed rfl) hrun) (hallowed rfl) hrun
  | wait pid => exact h.wait_moves href hq (hallowed rfl) hv hrun
  | fork =>
      obtain ⟨⟨ret, k₁⟩, hfork, rfl⟩ := Option.map_eq_some_iff.mp hrun
      exact h.fork_moves hq (hallowed rfl) hv hfork
  | openFile fileName =>
      obtain ⟨⟨ret, k₁⟩, hopen, rfl⟩ := Option.map_eq_some_iff.mp hrun
      obtain ⟨a, ys, rfl⟩ := h.free.exists_cons hfits
      exact hfiles (h.openFile hq.current_used hopen) (openFile_onlyFiles hq.current_used hopen)
  | closeFile fd =>
      exact hfiles (h.closeFile hq.current_used hrun) (closeFile_onlyFiles hq.current_used hrun)
  | readFile fd buffer size =>
      obtain ⟨⟨ret, k₁⟩, hread, rfl⟩ := Option.map_eq_some_iff.mp hrun
      obtain ⟨a, ys, rfl⟩ := h.free.exists_cons hfits.1
      apply hfiles (h.readFile hq (hallowed rfl) hfits.2 hread)
      rw [readFile_scheduler hread]
      exact OnlyFiles.refl _
  | lstat statbuf =>
      obtain ⟨⟨ret, k₁⟩, hlstat, rfl⟩ := Option.map_eq_some_iff.mp hrun
      obtain ⟨a, ys, rfl⟩ := h.free.exists_cons hfits.1
      apply hfiles (h.lstat hq (hallowed rfl) hfits.2.1 hfits.2.2 hlstat)
      obtain ⟨⟨total, m⟩, _, hk⟩ := Option.bind_eq_some_iff.mp hlstat
      obtain ⟨rfl, rfl⟩ := Prod.mk.inj (Option.some.inj hk)
      exact OnlyFiles.refl _
  | exec filename =>
      obtain ⟨a, ys, rfl⟩ := h.free.exists_cons hfits.1
      have howned := h.exec hq (hallowed rfl) hfits.2 hrun
      obtain ⟨s, hs, hend | hexit⟩ := exec_scheduler hq.current_used hrun
      · rw [← hend] at hs
        exact hfiles howned hs
      · exact howned.exit_moves hv hq (hallowed rfl) hs hexit
  | store v c =>
      have howned := h.store hq (hallowed rfl) hrun
      unfold Kernel.step Kernel.store at hrun
      dsimp only at hrun
      split at hrun
      next m _ =>
        obtain rfl := Option.some.inj hrun
        exact hfiles howned (OnlyFiles.refl _)
      next => exact hexited howned (hallowed rfl) hrun
  | push offset c =>
      apply hfiles (h.push hq (hallowed rfl) hrun)
      unfold Kernel.step Kernel.push at hrun
      dsimp only at hrun
      split at hrun
      case isTrue =>
        obtain rfl := Option.some.inj hrun
        exact OnlyFiles.refl _
      case isFalse => cases hrun

/-- The held pages are five of the kernel and seven for each process. -/
theorem length_heldPages (h : Owned image k xs L) :
  k.heldPages.length = 5 + 7 * k.live.card
  := by
  have hslot : ∀ i, (L.slotPages k i).length = if k.Live i then 7 else 0 := by
    intro i
    unfold Layout.slotPages
    split
    · rfl
    · rfl
  have hsum : ((List.finRange maximumNumberOfProcess).map (fun i => (L.slotPages k i).length)).sum
      = ∑ i : Slot, if k.Live i then 7 else 0 := by
    simp only [hslot]
    exact (Fin.sum_univ_def _).symm
  rw [h.heldPages_perm.length_eq, Layout.held, List.length_append, List.length_flatMap, hsum,
    ← Finset.sum_filter, Finset.sum_const, smul_eq_mul, Nat.mul_comm]
  rfl

end Owned

/-! ### Runs -/

/-- IDLE is not counted as a process. -/
theorem not_live_idle {m : Memory} {files : FileSystem} {cr3 : Fin (2 ^ 64)} (i : Slot) :
  ¬ Kernel.Live ⟨m, files, Scheduler.idle cr3⟩ i
  := by
  rintro ⟨hi, hunused, _⟩
  apply hunused
  rw [Kernel.process, idle_process_of_ne cr3 hi]
  rfl

/-- The pages that are held while IDLE is alone. -/
theorem held_idle {m : Memory} {files : FileSystem} {cr3 : Fin (2 ^ 64)} :
  L.held ⟨m, files, Scheduler.idle cr3⟩
    = [files.fcbTableAddress, files.fdTableAddress, L.idlePd, L.idlePdpt, phyToVir cr3]
  := by
  have hslots : L.slotPages ⟨m, files, Scheduler.idle cr3⟩ = fun _ => [] := by
    funext i
    exact if_neg (not_live_idle i)
  unfold Layout.held Layout.kernelPages
  rw [hslots, Kernel.process, idle_process_self]
  simp

/-- After `KMain` every page that `RetrieveMemoryInfo` has freed is free or held. -/
theorem kMain_balance {machine : Machine} {k₀ : Kernel} (hmap : DisjointRegions machine.memMap)
    (hrun : kMain image machine = some k₀) :
  ∃ m pages xs L, retrieveMemoryInfo image machine.memMap (Kernel.initial machine).memory = some m
    ∧ Free image m pages ∧ Owned image k₀ xs L ∧ (xs ++ L.held k₀).Perm pages
  := by
  obtain ⟨m, hmemory, hrun'⟩ := Option.bind_eq_some_iff.mp hrun
  obtain ⟨k₁, hinit, hrun'⟩ := Option.bind_eq_some_iff.mp hrun'
  obtain ⟨⟨files, m₂⟩, hfiles, hrun'⟩ := Option.bind_eq_some_iff.mp hrun'
  obtain ⟨xs, hfree, haddress⟩ := retrieveMemoryInfo_spec rfl hmap hmemory
  obtain ⟨n, a, b, c, xs, hend, rfl⟩ := initMemory_pages hfree haddress hinit
  obtain ⟨m₁, hinit', hfree₁, hchange₁, hspace⟩ :=
    initMemory_cons (k := { Kernel.initial machine with memory := m }) hend hfree
  obtain rfl := Option.some.inj (hinit'.symm.trans hinit)
  obtain ⟨hdisk, p, p', xs, rfl⟩ := initFileSystem_pages hfree₁ hfiles
  obtain ⟨m₃, hfiles', hfree₂, hchange₂⟩ := initFileSystem_cons hfree₁ hdisk
  obtain ⟨rfl, rfl⟩ := Prod.mk.inj (Option.some.inj (hfiles'.symm.trans hfiles))
  have ha := hfree.isPage a List.mem_cons_self
  have hpages : ∀ q ∈ [a, b, c], IsPage image q := by
    intro q hq
    apply hfree.isPage
    simp only [List.mem_cons, List.not_mem_nil, or_false] at hq ⊢
    tauto
  have hcr3 : phyToVir (pageMapRegister a) = a := phyToVir_virToPhy ha.word
  have howned := owned_initProcess machine.disk (hend.changes hchange₁) hspace hcr3 hpages
    hfree.nodup hfree₁ hfree₂ hchange₂
  have hshell : initProcess image ⟨m₃, FileSystem.booted machine.disk p p',
      Scheduler.initial (pageMapRegister a)⟩ = some k₀ := hrun'
  unfold initProcess at hshell
  rw [initIDLEProcess_eq, Option.bind_eq_bind, Option.bind_some] at hshell
  obtain ⟨s, d, e, f, g, h, l, ys, rfl⟩ := howned.initShellProcess_pages
    (queued_idle (pageMapRegister a)) (findFreeProcessSlot_idle (pageMapRegister a)) hshell
  obtain ⟨k₂, hrun₂, howned₂, _, hsame, hself, hothers, _⟩ := howned.initShellProcess_cons
    (queued_idle (pageMapRegister a)) (findFreeProcessSlot_idle (pageMapRegister a))
  obtain rfl := Option.some.inj (hrun₂.symm.trans hshell)
  refine ⟨m, _, ys, _, hmemory, hfree, howned₂, ?_⟩
  have hzero : ¬ Kernel.Live ⟨m₃, FileSystem.booted machine.disk p p',
      Scheduler.idle (pageMapRegister a)⟩ 1 := not_live_idle 1
  have hlive : k₂.Live 1 := by
    refine ⟨by decide, ?_, ?_⟩
    · rw [hself]
      simp
    · rw [hself]
      simp
  apply (@Owned.held_perm ⟨m₃, FileSystem.booted machine.disk p p',
    Scheduler.idle (pageMapRegister a)⟩ _ (s :: d :: e :: f :: g :: h :: l :: ys) _
    ⟨n, b, c, fun _ => ⟨0, 0, 0, 0, 0, 0⟩⟩ 1 _ ?_ ?_ ?_).trans
  · rw [held_idle, hcr3]
    apply List.perm_iff_count.mpr
    intro x
    simp only [FileSystem.booted, List.count_append, List.count_cons, List.count_nil]
    omega
  · have hidle := hothers idleSlot (by decide)
    exact (Owned.SamePages.of_process hidle).kernelPages (SameDisk.of_eq hsame) rfl rfl
  · intro j hj
    exact (Owned.SamePages.of_process (hothers j hj)).slotPages (Layout.setSpace_of_ne _ hj _)
  · rw [Owned.slotPages_of_live hlive, Layout.slotPages, if_neg hzero, List.append_nil, hself,
      newProcess_process]
    apply List.perm_iff_count.mpr
    intro x
    simp only [Layout.setSpace_self, Space.pages, Space.tables, List.count_append,
      List.count_cons, List.count_nil]
    omega

/-- No slot is abandoned when the shell starts. -/
theorem Booted.abandoned {disk : ℕ → UInt8} (h : Booted image disk k xs L) :
  k.abandoned = ∅
  := by
  apply Finset.filter_eq_empty_iff.mpr
  intro i _
  by_cases hidle : i = idleSlot
  · rw [hidle]
    rcases h.queued.idleState with hstate | hstate
    · rw [Kernel.process, hstate]
      simp
    · rw [Kernel.process, hstate]
      simp
  · by_cases hshell : i = 1
    · have hstate : (k.process 1).state = ListHead.readyProcList.state :=
        h.queued.state .readyProcList 1 (by simp) (by simp)
      rw [hshell, hstate]
      simp [ListHead.state]
    · rw [h.others i hidle hshell]
      simp [Process.zero]

/-- The pages of a machine are free, held or lost, and the lost ones are few. -/
def Balanced (image : Image) (pages : List ℕ) (k : Kernel) : Prop :=
  ∃ xs L lost, Owned image k xs L ∧ (xs ++ L.held k ++ lost).Perm pages
    ∧ k.abandoned.card ≤ lost.length ∧ lost.length ≤ 4 * k.abandoned.card

/-- Every step keeps the balance. -/
theorem Balanced.step {pages : List ℕ} (h : Balanced image pages k) (href : Referenced k)
    (hq : Consistent k.scheduler) (hop : Admitted image op k) (hrun : k.step image op = some k') :
  Balanced image pages k'
  := by
  obtain ⟨xs, L, lost, howned, hperm, hle, hge⟩ := h
  obtain ⟨q, hq⟩ := hq
  obtain ⟨ys, L', lost', howned', hperm', hloses⟩ := howned.step_moves href hq hop hrun
  refine ⟨ys, L', lost' ++ lost, howned', ?_, ?_⟩
  · rw [← List.append_assoc]
    exact (hperm'.append_right lost).trans hperm
  · rw [List.length_append]
    rcases hloses with ⟨rfl, hsame⟩ | ⟨hlength, i, hi, hinsert⟩
    · rw [hsame, List.length_nil, Nat.zero_add]
      exact ⟨hle, hge⟩
    · rw [hinsert, Finset.card_insert_of_notMem hi]
      omega

/-- In every state of a run, each page that `RetrieveMemoryInfo` has freed is free, held or
lost. The kernel holds five pages and each process seven, and from one to four pages are
lost for each slot that a `Fork` has left `INITIALIZED`, so none if there is no such slot. -/
theorem run_pages {machine : Machine} {k₀ : Kernel} (hmap : DisjointRegions machine.memMap)
    (h₀ : kMain image machine = some k₀)
    (h : Reachable (Kernel.step image) (Admitted image) k₀ k) :
  ∃ m pages xs lost,
    retrieveMemoryInfo image machine.memMap (Kernel.initial machine).memory = some m
    ∧ Free image m pages ∧ Free image k.memory xs ∧ (xs ++ k.heldPages ++ lost).Perm pages
    ∧ k.heldPages.length = 5 + 7 * k.live.card
    ∧ k.abandoned.card ≤ lost.length ∧ lost.length ≤ 4 * k.abandoned.card
  := by
  obtain ⟨m, pages, xs₀, L₀, hmemory, hfree, howned₀, hperm₀⟩ := kMain_balance hmap h₀
  obtain ⟨_, _, hbooted⟩ := kMain_spec hmap h₀
  have hnone : k₀.abandoned = ∅ := hbooted.abandoned
  have hinv : (Consistent k.scheduler ∧ Referenced k) ∧ Balanced image pages k := by
    apply h.invariant
      (P := fun k => (Consistent k.scheduler ∧ Referenced k) ∧ Balanced image pages k)
    · rintro op k₁ k₂ ⟨⟨⟨q, hq⟩, href⟩, hbalanced⟩ hop hrun
      exact ⟨⟨(Kernel.step_cases hq.current_used hop.1 hrun).consistent ⟨q, hq⟩,
        href.step ⟨q, hq⟩ hop.1 hrun⟩, hbalanced.step href ⟨q, hq⟩ hop hrun⟩
    · refine ⟨⟨hbooted.consistent, kMain_referenced h₀⟩, xs₀, L₀, [], howned₀, ?_, ?_, ?_⟩
      · rw [List.append_nil]
        exact hperm₀
      · simp [hnone]
      · simp
  obtain ⟨_, xs, L, lost, howned, hperm, hle, hge⟩ := hinv
  refine ⟨m, pages, xs, lost, hmemory, hfree, howned.free, ?_, howned.length_heldPages, hle, hge⟩
  exact ((howned.heldPages_perm.append_left xs).append_right lost).trans hperm

theorem run_pages_small :
  ∃ k₀ k, kMain smallImage (smallMachine 64) = some k₀
    ∧ Reachable (Kernel.step smallImage) (Admitted smallImage) k₀ k
    ∧ (k.process 2).state = .killed
    ∧ ∃ pages xs lost, Free smallImage k.memory xs ∧ (xs ++ k.heldPages ++ lost).Perm pages
      ∧ k.heldPages.length = 5 + 7 * k.live.card ∧ lost.length ≤ 4 * k.abandoned.card
  := by
  obtain ⟨k₀, k, xs, hboot, hrun, hquiet, hlen, hcurrent, hpid, hpidNum, _⟩ :=
    kMain_shell (n := 64) (by decide) (by decide)
  have hlen' : xs.length = 52 := hlen
  obtain ⟨k₁, ys, hrun₁, h₁, _⟩ := hquiet.fork_exit
    (by
      rw [hcurrent]
      decide)
    (by
      rw [hcurrent, hpid]
      decide) (by decide) (by decide) (by omega)
  have hkilled : (k₁.process 2).state = ListHead.killProcList.state :=
    h₁.queued.state .killProcList 2 List.mem_cons_self (by simp)
  obtain ⟨_, pages, zs, lost, _, _, hfree, hperm, hlength, _, hlost⟩ :=
    run_pages (smallMachine_disjoint 64) hboot (hrun.append hrun₁).reachable
  exact ⟨k₀, k₁, hboot, (hrun.append hrun₁).reachable, hkilled, pages, zs, lost, hfree, hperm,
    hlength, hlost⟩

end LarvaOS
