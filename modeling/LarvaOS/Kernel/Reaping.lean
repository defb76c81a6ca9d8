import LarvaOS.Kernel.Forking

/-!
# The memory when processes are reaped

`Wait` frees the kernel stack and the address space of a killed process: the pages that
it got since its creation, each of them once, and no other page.
-/

namespace LarvaOS

variable {image : Image} {k k' : Kernel} {q : Queues} {L : Layout} {xs : List ℕ} {i : Slot}

/-- The slots before and after a process is removed from the table. -/
theorem samePages_clearProcess (hk : k'.scheduler = k.scheduler.clearProcess i) {j : Slot}
    (hj : j ≠ i) :
  Owned.SamePages k k' j
  := by
  apply Owned.SamePages.of_process
  rw [Kernel.process, hk]
  exact Scheduler.setProcess_of_ne hj _ _

/-- A slot that was removed from the table is not alive. -/
theorem not_live_clearProcess (hk : k'.scheduler = k.scheduler.clearProcess i) :
  ¬ k'.Live i
  := by
  apply not_live_of_unused
  rw [Kernel.process, hk, Scheduler.clearProcess, Scheduler.setProcess_self]
  rfl

/-- The kernel stack and the address space of a process are freed. -/
theorem Owned.free_process (h : Owned image k xs L) (hi : k.Live i) :
  ∃ m m' ys, kfree image (k.process i).stack k.memory = some m
    ∧ freeVM image (k.process i).pageMap m = some m' ∧ Free image m' ys
    ∧ ys.Perm ((k.process i).stack :: (L.space i).pages ++ xs)
    ∧ Changes ((k.process i).stack :: (L.space i).pages) k.memory m'
  := by
  have hstack := h.stack_isPage hi
  have hpages := h.space_isPage hi
  have hnodup : ((k.process i).stack :: (L.space i).pages ++ xs).Nodup := by
    apply (h.slot_nodup i).of_count_le
    intro x
    rw [slotPages_of_live hi]
    simp only [List.count_append]
    omega
  have hnodup' : ((L.space i).pages ++ (k.process i).stack :: xs).Nodup := by
    apply hnodup.of_count_le
    intro x
    simp only [List.count_append, List.count_cons]
    omega
  have hmem : (k.process i).stack ∉ (L.space i).pages ++ xs := (List.nodup_cons.mp hnodup).1
  obtain ⟨m, hrun, hfree, hchange⟩ :=
    h.free.kfree hstack (fun hx => hmem (List.mem_append_right _ hx))
  have hspace : UserSpace m L.size (L.space i) := by
    apply h.space_changes hchange _ hi
    intro p hp
    exact Or.inr ⟨i, hi, Or.inl (List.mem_singleton.mp hp)⟩
  have hperm := hspace.vmPages hpages
  rw [h.pageMap i hi]
  obtain ⟨m', ys, hvm, hfree', hys, hchange'⟩ := freeVM_spec hfree
    (fun p hp => hpages p (hperm.mem_iff.mp hp))
    ((hperm.append_right _).nodup_iff.mpr hnodup')
  refine ⟨m, m', ys, hrun, hvm, hfree', ?_, ?_⟩
  · apply hys.trans
    apply (hperm.append_right _).trans
    exact List.perm_middle
  · apply (hchange.mono _).trans (hchange'.mono _)
    · simp
    · intro p hp
      exact List.mem_cons_of_mem _ (hperm.mem_iff.mp hp)

/-- The clean-up of a killed process when its files can be dropped. -/
theorem Owned.reap {files : FileSystem} (h : Owned image k xs L) (hi : k.Live i)
    (hkilled : (k.process i).state = .killed)
    (hfiles : k.files.dropReferences (k.process i).openFiles = some files) :
  ∃ k' ys, reap image i k = some k' ∧ Owned image k' ys L
    ∧ ys.Perm ((k.process i).stack :: (L.space i).pages ++ xs)
    ∧ Changes ((k.process i).stack :: (L.space i).pages) k.memory k'.memory
    ∧ k'.files = files ∧ k'.scheduler = k.scheduler.clearProcess i
  := by
  obtain ⟨m, m', ys, hstack, hvm, hfree, hperm, hchange⟩ := h.free_process hi
  refine ⟨⟨m', files, k.scheduler.clearProcess i⟩, ys, ?_, ?_, hperm, hchange, rfl, rfl⟩
  · unfold LarvaOS.reap
    simp only [Option.bind_eq_bind]
    rw [assert_of hkilled, Option.bind_some, hstack, Option.bind_some, hvm, Option.bind_some,
      hfiles, Option.bind_some]
  · apply h.shrink hi (not_live_clearProcess rfl) _ _ hchange hfree hperm
    · exact FileSystem.SameDisk.dropReferences hfiles
    · exact fun j hj => samePages_clearProcess rfl hj

/-- The clean-up drops the files. -/
theorem reap_files (h : LarvaOS.reap image i k = some k') :
  k.files.dropReferences (k.process i).openFiles = some k'.files
  := by
  obtain ⟨_, _, h⟩ := Option.bind_eq_some_iff.mp h
  obtain ⟨m, _, h⟩ := Option.bind_eq_some_iff.mp h
  obtain ⟨m', _, h⟩ := Option.bind_eq_some_iff.mp h
  obtain ⟨files, hfiles, h⟩ := Option.bind_eq_some_iff.mp h
  obtain rfl := Option.some.inj h
  exact hfiles

/-- The operations of the scheduler move no pages. -/
theorem SameResources.samePages (h : SameResources k.scheduler k'.scheduler) (j : Slot) :
  Owned.SamePages k k' j
  where
  live := by
    have hunused := h.unused j
    have hinitialized := h.initialized j
    unfold Kernel.Live Process.Live
    exact and_congr Iff.rfl (and_congr (not_congr hunused) (not_congr hinitialized))
  pageMap _ := h.pageMap j
  stack _ := h.stack j
  tf _ := h.tf j

/-- Processes on a list are alive. -/
theorem Queued.live_of_mem {list : ListHead} {r : Option Slot} (hq : Queued k.scheduler q r none)
    (hi : i ∈ q list) :
  k.Live i
  := by
  have hstate := hq.state list i hi (by simp)
  refine ⟨?_, ?_, ?_⟩
  · rintro rfl
    exact hq.idle list hi
  · rw [hstate]
    exact list.state_ne_unused
  · rw [hstate]
    exact list.state_ne_initialized

/-- Steps of the scheduler keep the pages apart. -/
theorem Owned.schedule {s : Scheduler} (h : Owned image k xs L)
    (hres : SameResources k.scheduler s) :
  Owned image { k with scheduler := s } xs L
  := by
  apply h.of_scheduler
  · rfl
  · exact FileSystem.SameDisk.refl _
  · exact fun j => hres.samePages j

/-- An iteration of `Wait` that finds the process reaps it. -/
theorem Owned.waitIteration {files : FileSystem} {pid : Int} (h : Owned image k xs L)
    (hq : Queued k.scheduler q (some k.currentProc) none) (hi : k.awaited q pid = some i)
    (hfiles : k.files.dropReferences (k.process i).openFiles = some files) :
  ∃ k' ys, LarvaOS.waitIteration image pid k = some (.reaped k') ∧ Owned image k' ys L
    ∧ ys.Perm ((k.process i).stack :: (L.space i).pages ++ xs)
    ∧ Changes ((k.process i).stack :: (L.space i).pages) k.memory k'.memory
    ∧ k'.files = files ∧ k'.process i = Process.zero ∧ (∀ j, j ≠ i → k'.process j = k.process j)
    ∧ k'.currentProc = k.currentProc
    ∧ Queued k'.scheduler (q.remove .killProcList (fun i => (k.process i).pid = pid))
      (some k.currentProc) none
  := by
  have hmem : i ∈ q .killProcList := List.mem_of_find?_eq_some hi
  have hfull : q .killProcList ≠ [] := List.ne_nil_of_mem hmem
  obtain ⟨s, hrun, hprocess, hres, hcurrent, hq₁⟩ :=
    @Queued.waitIteration_cons image q _ k hq pid hfull
  have hprocess' : ∀ j, s.process j = k.process j := congrFun hprocess
  have h₁ := h.schedule hres
  rw [hi] at hrun hq₁
  have hsame : Owned.SamePages k { k with scheduler := s } i := hres.samePages i
  have hlive : Kernel.Live { k with scheduler := s } i := hsame.live.mpr (hq.live_of_mem hmem)
  have hne : i ≠ s.currentProc := by
    rintro rfl
    rw [hcurrent] at hq₁
    exact (hq₁.detached _ rfl).2.1 rfl
  obtain ⟨k', ys, hreap, howned, hperm, hchange, hfiles', hs⟩ :=
    @Owned.reap image _ L xs i files h₁ hlive (by
      rw [Kernel.process, hprocess']
      exact hq.state .killProcList i hmem (by simp)) (by
      rw [Kernel.process, hprocess']
      exact hfiles)
  obtain ⟨_, _, hq₂⟩ := Queued.reap hq₁ hne hreap
  rw [Kernel.process, hprocess'] at hperm hchange
  refine ⟨k', ys, ?_, howned, hperm, hchange, hfiles', ?_, ?_, ?_, hq₂⟩
  · rw [hrun]
    dsimp only
    rw [hreap, Option.map_some]
  · rw [Kernel.process, hs]
    exact Function.update_self _ _ _
  · intro j hj
    rw [← hprocess' j, Kernel.process, hs]
    exact Function.update_of_ne hj _ _
  · rw [Kernel.currentProc, hs]
    exact hcurrent

/-- `Wait` sleeps, or gives back the pages of a process. -/
theorem Owned.wait_changes {pid : Int} (h : Owned image k xs L)
    (hq : Queued k.scheduler q (some k.currentProc) none) (hidle : k.currentProc ≠ idleSlot)
    (hrun : k.wait image pid = some k') :
  ∃ ys, Owned image k' ys L
    ∧ (k'.memory = k.memory ∨ ∃ i, k.Live i ∧ k'.process i = Process.zero
      ∧ Changes ((k.process i).stack :: (L.space i).pages) k.memory k'.memory)
  := by
  by_cases hempty : q .killProcList = []
  · obtain ⟨s, hsleep, _, hres, _⟩ := hq.sleep hidle initProcessWaitId
    rw [Kernel.wait, hq.waitIteration_nil pid hempty, hsleep] at hrun
    obtain rfl := Option.some.inj hrun
    exact ⟨xs, h.schedule hres, Or.inl rfl⟩
  · obtain ⟨s, hiter, hprocess, _⟩ := @Queued.waitIteration_cons image q _ k hq pid hempty
    cases hi : k.awaited q pid with
    | none =>
        rw [Kernel.wait, hiter, hi] at hrun
        cases hrun
    | some i =>
        rw [hi] at hiter
        obtain ⟨_, houtcome, hrun⟩ := Option.bind_eq_some_iff.mp hrun
        rw [hiter] at houtcome
        obtain ⟨k₁, hreap, rfl⟩ := Option.map_eq_some_iff.mp houtcome
        obtain rfl := Option.some.inj hrun
        have hfiles := reap_files hreap
        rw [Kernel.process, Scheduler.process, hprocess] at hfiles
        obtain ⟨k₂, ys, hiter', howned, _, hchange, _, hzero, _⟩ := h.waitIteration hq hi hfiles
        rw [hiter] at hiter'
        cases houtcome.symm.trans hiter'
        have hlive : k.Live i := hq.live_of_mem (List.mem_of_find?_eq_some hi)
        exact ⟨ys, howned, Or.inr ⟨i, hlive, hzero, hchange⟩⟩

/-- `Wait` keeps the pages apart. -/
theorem Owned.wait {pid : Int} (h : Owned image k xs L)
    (hq : Queued k.scheduler q (some k.currentProc) none) (hidle : k.currentProc ≠ idleSlot)
    (hrun : k.wait image pid = some k') :
  ∃ ys, Owned image k' ys L
  := by
  obtain ⟨ys, howned, _⟩ := h.wait_changes hq hidle hrun
  exact ⟨ys, howned⟩

end LarvaOS
