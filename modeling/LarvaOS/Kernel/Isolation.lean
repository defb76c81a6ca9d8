import LarvaOS.Kernel.Quiet

/-!
# The pages of processes in runs

In every reachable state, each page of the machine has at most one holder, and the page
map of a process translates the user page to a page of its own, the kernel half to all
of the kernel's memory, and nothing else.
-/

namespace LarvaOS

variable {image : Image} {k k' : Kernel} {xs : List ℕ} {L : Layout} {i j : Slot}

/-- In a run from `KMain` the pages are apart and the scheduler is consistent. -/
theorem Reachable.apart {machine : Machine} {k₀ : Kernel} (hmap : DisjointRegions machine.memMap)
    (h₀ : kMain image machine = some k₀)
    (h : Reachable (Kernel.step image) (Admitted image) k₀ k) :
  Consistent k.scheduler ∧ ∃ xs L, Owned image k xs L
  := by
  obtain ⟨xs, L, hbooted⟩ := kMain_spec hmap h₀
  obtain ⟨ys, L', howned⟩ :=
    Reachable.owned (fun _ _ hok => hok) hbooted.consistent hbooted.owned h
  exact ⟨Reachable.consistent (fun _ _ hok => hok.1) hbooted.consistent h, ys, L', howned⟩

/-! ### The holders of pages -/

/-- The pages that the process of a slot holds: its kernel stack and the pages of its
address space. -/
def Kernel.processPages (k : Kernel) (i : Slot) : List ℕ :=
  if k.Live i then (k.process i).stack :: vmPages k.memory (k.process i).pageMap else []

/-- The pages that are held: by the tables of open files, by IDLE, and by the processes. -/
def Kernel.heldPages (k : Kernel) : List ℕ :=
  [k.files.fcbTableAddress, k.files.fdTableAddress]
    ++ vmPages k.memory (k.process idleSlot).pageMap
    ++ (List.finRange maximumNumberOfProcess).flatMap k.processPages

namespace Owned

theorem kernelPages_isPage (h : Owned image k xs L) {p : ℕ} (hp : p ∈ L.kernelPages k) :
  IsPage image p
  := h.isPage p (mem_held_of_kernel hp)

/-- The pages of the page map of IDLE. -/
theorem idle_vmPages (h : Owned image k xs L) :
  vmPages k.memory (k.process idleSlot).pageMap
    = [L.idlePd, L.idlePdpt, (k.process idleSlot).pageMap]
  := by
  apply h.idle.vmPages
  · exact h.kernelPages_isPage (by simp [Layout.kernelPages])
  · exact h.kernelPages_isPage (by simp [Layout.kernelPages])

/-- The pages of a process are the pages of its address space and its kernel stack. -/
theorem processPages_perm (h : Owned image k xs L) (i : Slot) :
  (k.processPages i).Perm (L.slotPages k i)
  := by
  unfold Kernel.processPages Layout.slotPages
  split
  case isTrue hi =>
    rw [h.pageMap i hi]
    exact ((h.space i hi).vmPages (h.space_isPage hi)).cons _
  case isFalse => exact List.Perm.refl _

/-- The held pages are those of the layout. -/
theorem heldPages_perm (h : Owned image k xs L) :
  k.heldPages.Perm (L.held k)
  := by
  unfold Kernel.heldPages Layout.held
  rw [h.idle_vmPages]
  apply List.Perm.append_left
  apply List.Perm.flatMap_left
  intro i _
  exact h.processPages_perm i

theorem mem_heldPages (h : Owned image k xs L) {p : ℕ} :
  p ∈ k.heldPages ↔ p ∈ L.held k
  := h.heldPages_perm.mem_iff

/-- The page map of the current process is in use. -/
theorem currentPageMap {q : Queues} (h : Owned image k xs L)
    (hq : Queued k.scheduler q (some k.currentProc) none) :
  phyToVir k.scheduler.cr3 = (k.process k.currentProc).pageMap
    ∧ (k.process k.currentProc).pageMap ∈ k.heldPages
  := by
  have hmem : (k.process k.currentProc).pageMap ∈ L.held k := by
    by_cases hidle : k.currentProc = idleSlot
    · rw [hidle]
      apply mem_held_of_kernel
      simp [Layout.kernelPages]
    · have hlive := hq.live_current hidle
      rw [h.pageMap _ hlive]
      apply mem_held_of_live hlive
      simp [Space.pages, Space.tables]
  refine ⟨?_, h.mem_heldPages.mpr hmem⟩
  have hregister : (k.scheduler.cr3 : ℕ) = switchVM (k.process k.currentProc).pageMap :=
    hq.pageMapRegister
  rw [hregister]
  exact (h.isPage _ hmem).virToPhy.2.2

end Owned

/-- In every state of a run each page has at most one holder: no page occurs twice among
the free pages and the held pages. The page map and the kernel stack in use are not free. -/
theorem reachable_heldPages {machine : Machine} {k₀ : Kernel}
    (hmap : DisjointRegions machine.memMap) (h₀ : kMain image machine = some k₀)
    (h : Reachable (Kernel.step image) (Admitted image) k₀ k) :
  ∃ xs, FreeList k.memory.bytes k.memory.freePageHead xs
    ∧ (∀ p ∈ xs ++ k.heldPages, addrIsAligned p)
    ∧ (xs ++ k.heldPages).Nodup
    ∧ phyToVir k.scheduler.cr3 = (k.process k.currentProc).pageMap
    ∧ (k.process k.currentProc).pageMap ∉ xs
    ∧ (k.currentProc ≠ idleSlot → (k.process k.currentProc).stack ∉ xs)
  := by
  obtain ⟨⟨q, hq⟩, xs, L, howned⟩ := Reachable.apart hmap h₀ h
  obtain ⟨hcr3, hmem⟩ := howned.currentPageMap hq
  have hnodup : (xs ++ k.heldPages).Nodup :=
    (howned.heldPages_perm.append_left xs).nodup_iff.mpr howned.nodup
  have hdisjoint : ∀ p ∈ k.heldPages, p ∉ xs :=
    fun p hp hx => (List.nodup_append.mp hnodup).2.2 p hx p hp rfl
  refine ⟨xs, howned.free.list, ?_, hnodup, hcr3, hdisjoint _ hmem, ?_⟩
  · intro p hp
    rcases List.mem_append.mp hp with hp | hp
    · exact (howned.free.isPage p hp).aligned
    · exact (howned.isPage p (howned.mem_heldPages.mp hp)).aligned
  · intro hidle
    apply hdisjoint
    apply howned.mem_heldPages.mpr
    exact Owned.mem_held_of_live (hq.live_current hidle) List.mem_cons_self

/-- The pages have one holder when the shell has made a child that exits, and reaped it. -/
theorem reachable_heldPages_small :
  ∃ k₀ k, kMain smallImage (smallMachine 64) = some k₀
    ∧ Run (Kernel.step smallImage) (Admitted smallImage) k₀
      [.yield, .fork, .yield, .exit, .wait 2] k
    ∧ k.currentProc = 1
    ∧ ∃ xs, FreeList k.memory.bytes k.memory.freePageHead xs ∧ (xs ++ k.heldPages).Nodup
  := by
  obtain ⟨k₀, k, _, hboot, hrun, _, hcurrent, _⟩ := smallMachine_reaps
  obtain ⟨xs, hlist, _, hnodup, _⟩ :=
    reachable_heldPages (smallMachine_disjoint 64) hboot hrun.reachable
  exact ⟨k₀, k, hboot, hrun, hcurrent, xs, hlist, hnodup⟩

/-! ### The address spaces of processes -/

/-- The table pages of the page map of a process. -/
def Kernel.tablePages (k : Kernel) (i : Slot) : List ℕ :=
  (children k.memory (k.process i).pageMap).flatMap (children k.memory)
    ++ children k.memory (k.process i).pageMap ++ [(k.process i).pageMap]

/-- The user page of a process. -/
def Kernel.userPage (k : Kernel) (i : Slot) : Option ℕ :=
  LarvaOS.userPage k.memory (k.process i).pageMap

namespace Owned

theorem userPage (h : Owned image k xs L) (hi : k.Live i) :
  k.userPage i = some (L.space i).page
  := by
  have hspace := h.space i hi
  rw [Kernel.userPage, h.pageMap i hi, LarvaOS.userPage, hspace.userDirectory (h.space_isPage hi)]
  exact (hspace.userEntry (h.space_isPage hi _ List.mem_cons_self)).2

/-- The pages of a process are its kernel stack, its user page and its tables. -/
theorem processPages_eq (h : Owned image k xs L) (hi : k.Live i) :
  k.processPages i = (k.process i).stack :: (L.space i).page :: k.tablePages i
  := by
  have hpage : LarvaOS.userPage k.memory (k.process i).pageMap = some (L.space i).page :=
    h.userPage hi
  rw [Kernel.processPages, if_pos hi, vmPages, hpage, Kernel.tablePages]
  simp only [Option.toList_some, List.cons_append, List.nil_append]

theorem mem_processPages (h : Owned image k xs L) {p : ℕ} :
  p ∈ k.processPages i ↔ p ∈ L.slotPages k i
  := (h.processPages_perm i).mem_iff

/-- The user page of a process is no other page of a process. -/
theorem userPage_unique (h : Owned image k xs L) (hi : k.Live i) (hj : k.Live j) :
  (L.space i).page ≠ (k.process j).stack ∧ (L.space i).page ∉ k.tablePages j
    ∧ (j ≠ i → k.userPage j ≠ some (L.space i).page)
  := by
  by_cases hij : j = i
  · subst hij
    have hnodup : (k.processPages j).Nodup :=
      (h.processPages_perm j).nodup_iff.mpr (List.nodup_append.mp (h.slot_nodup j)).1
    rw [h.processPages_eq hi, List.nodup_cons, List.nodup_cons] at hnodup
    refine ⟨?_, hnodup.2.1, fun hne => absurd rfl hne⟩
    rintro heq
    exact hnodup.1 (heq ▸ List.mem_cons_self)
  · have hnot : (L.space i).page ∉ k.processPages j := by
      intro hmem
      apply hij
      apply h.slot_unique (h.mem_processPages.mp hmem)
      rw [slotPages_of_live hi]
      exact List.mem_cons_of_mem _ List.mem_cons_self
    rw [h.processPages_eq hj] at hnot
    obtain ⟨hstack, hnot⟩ := List.ne_and_not_mem_of_not_mem_cons hnot
    obtain ⟨hpage, htables⟩ := List.ne_and_not_mem_of_not_mem_cons hnot
    refine ⟨hstack, htables, fun _ heq => ?_⟩
    rw [h.userPage hj] at heq
    exact hpage (Option.some.inj heq).symm

/-- The translation of every address in the page map of a process. -/
theorem walk_eq (h : Owned image k xs L) (hi : k.Live i) {v : ℕ} (hv : v < 2 ^ 64) :
  walk k.memory (virToPhy (k.process i).pageMap) v
    = if userVirtualAddressBase ≤ v ∧ v < userVirtualAddressBase + pageSize then
        some ⟨virToPhy (L.space i).page + (v - userVirtualAddressBase), true, true⟩
      else if kernelVirtualAddressBase ≤ v ∧ v < k.memory.freeMemoryEndAddress then
        some ⟨v - kernelVirtualAddressBase, true, false⟩
      else none
  := by
  rw [h.pageMap i hi, (h.space i hi).walk_eq h.kernelEnd.le (h.space_isPage hi) hv,
    h.kernelEnd.address]

end Owned

/-- In every state of a run the page map of a process translates the addresses of the
user page to a page of its own, the addresses of the kernel's memory to physical memory,
for the kernel only, and no other address. -/
theorem reachable_isolation {machine : Machine} {k₀ : Kernel}
    (hmap : DisjointRegions machine.memMap) (h₀ : kMain image machine = some k₀)
    (h : Reachable (Kernel.step image) (Admitted image) k₀ k) (hi : k.Live i) :
  ∃ page, k.userPage i = some page ∧ addrIsAligned page ∧ image.lKernelEnd ≤ page
    ∧ (∀ j, k.Live j → page ≠ (k.process j).stack ∧ page ∉ k.tablePages j
      ∧ (j ≠ i → k.userPage j ≠ some page))
    ∧ ∀ v, v < 2 ^ 64 → walk k.memory (virToPhy (k.process i).pageMap) v
      = if userVirtualAddressBase ≤ v ∧ v < userVirtualAddressBase + pageSize then
          some ⟨virToPhy page + (v - userVirtualAddressBase), true, true⟩
        else if kernelVirtualAddressBase ≤ v ∧ v < k.memory.freeMemoryEndAddress then
          some ⟨v - kernelVirtualAddressBase, true, false⟩
        else none
  := by
  obtain ⟨_, xs, L, howned⟩ := Reachable.apart hmap h₀ h
  have hpage := howned.space_isPage hi _ List.mem_cons_self
  refine ⟨(L.space i).page, howned.userPage hi, hpage.aligned, hpage.lower, ?_, ?_⟩
  · exact fun j hj => howned.userPage_unique hi hj
  · exact fun v hv => howned.walk_eq hi hv

/-- The null address is not mapped for the shell, when it has made a child that exits, and reaped
it. -/
theorem reachable_isolation_small :
  ∃ k₀ k, kMain smallImage (smallMachine 64) = some k₀
    ∧ Run (Kernel.step smallImage) (Admitted smallImage) k₀
      [.yield, .fork, .yield, .exit, .wait 2] k
    ∧ k.currentProc = 1 ∧ k.Live 1 ∧ walk k.memory (virToPhy (k.process 1).pageMap) 0 = none
  := by
  obtain ⟨k₀, k, _, hboot, hrun, hquiet, hcurrent, _⟩ := smallMachine_reaps
  have hidle : k.currentProc ≠ idleSlot := by
    rw [hcurrent]
    decide
  have hlive : k.Live 1 := by
    have hlive' := hquiet.queued.live_current hidle
    rwa [hcurrent] at hlive'
  obtain ⟨page, _, _, _, _, hwalk⟩ :=
    reachable_isolation (smallMachine_disjoint 64) hboot hrun.reachable hlive
  refine ⟨k₀, k, hboot, hrun, hcurrent, hlive, ?_⟩
  rw [hwalk 0 (by decide), if_neg, if_neg]
  · rintro ⟨hlo, _⟩
    rw [kernelVirtualAddressBase_eq] at hlo
    omega
  · rintro ⟨hlo, _⟩
    rw [userVirtualAddressBase_eq] at hlo
    omega

end LarvaOS
