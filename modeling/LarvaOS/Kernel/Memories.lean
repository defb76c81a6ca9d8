import LarvaOS.Kernel.Conservation
import LarvaOS.Kernel.Handles
import LarvaOS.Kernel.InPlace
import LarvaOS.Kernel.Pointers
import LarvaOS.Library.Memories

/-!
# The memories of the processes

The user page of a process is a memory of its own.  Every step of the system is an event of the
private memories, or nothing: the current process stores in its own memory, or a system call of
the current process delivers bytes to an area of it, `Fork` copies the memory of the current
process, and `Wait` drops the memory of the process that it reaps.
-/

namespace LarvaOS

variable {image : Image} {k k' : Kernel} {q : Queues} {L L' : Layout} {xs ys ps : List ℕ}
  {i j : Slot} {p : ℕ} {op : Operation} {ops : List Operation}

/-! ### Memories -/

/-- The offsets in a user page. -/
abbrev Offset : Type := Fin pageSize

/-- The start of a user page. -/
def firstOffset : Offset := ⟨0, by
  rw [pageSize_eq]
  decide⟩

/-- The memories of the processes. -/
def Kernel.memories (k : Kernel) : Memories Slot Offset UInt8 := fun i =>
  if k.Live i then (k.userPage i).map (fun page o => k.memory.bytes (page + o)) else none

/-- The number of bytes that `Read` delivers, none without an open file. -/
def Kernel.delivered (fd size : Int) (k : Kernel) : ℕ :=
  ((k.descriptor fd).map (fun (d, c) => k.readLength d c size)).getD 0

/-- The area of the user page to which a system call delivers bytes, an address and a length. -/
def Operation.area (op : Operation) (k : Kernel) : ℕ × ℕ :=
  match op with
  | .readFile fd buffer size => (buffer, k.delivered fd size)
  | .lstat statbuf => (statbuf, sizeofDirEntry * k.files.rootEntries.length)
  | .exec _ => (userVirtualAddressBase, pageSize)
  | _ => (0, 0)

/-- The offset lies in an area. -/
def Covers (area : ℕ × ℕ) (o : Offset) : Prop :=
  area.1 ≤ userVirtualAddressBase + o ∧ userVirtualAddressBase + o < area.1 + area.2

instance (area : ℕ × ℕ) (o : Offset) : Decidable (Covers area o) :=
  inferInstanceAs (Decidable (area.1 ≤ userVirtualAddressBase + o
    ∧ userVirtualAddressBase + o < area.1 + area.2))

/-- The slot with this property, the first one. -/
def findSlot (P : Slot → Bool) : Option Slot := (List.finRange maximumNumberOfProcess).find? P

/-- The event that a step is for the memories. -/
def Kernel.memoryEvent (image : Image) (op : Operation) (k : Kernel) :
    Option (MemoryEvent Slot Offset UInt8) :=
  match op with
  | .store v c =>
      if userVirtualAddressBase ≤ v ∧ v < userVirtualAddressBase + pageSize then
        some (.set k.currentProc (fun o => if userVirtualAddressBase + o = v then some c else none))
      else none
  | .fork => (k.step image op).bind (fun k' =>
      (findSlot (fun i => ¬ k.Live i ∧ k'.Live i)).map (.copy k.currentProc))
  | .wait _ => (k.step image op).bind (fun k' =>
      (findSlot (fun i => k.Live i ∧ ¬ k'.Live i)).map .drop)
  | .readFile _ _ _ | .lstat _ | .exec _ => (k.step image op).map (fun k' =>
      .set k.currentProc (fun o =>
        if Covers (op.area k) o then (k'.memories k.currentProc).map (fun m => m o) else none))
  | _ => none

/-! ### The pages of other processes -/

/-- A page that is not the user page of a process: it is free, or a kernel stack, or part of
another address space. -/
def Spares (k : Kernel) (L : Layout) (xs : List ℕ) (j : Slot) (p : ℕ) : Prop :=
  p ∈ xs ∨ (∃ i, k.Live i ∧ p = (k.process i).stack)
    ∨ ∃ i, i ≠ j ∧ k.Live i ∧ p ∈ (L.space i).pages

namespace Owned

theorem spares_ne (h : Owned image k xs L) (hj : k.Live j) (hp : Spares k L xs j p) :
  p ≠ (L.space j).page
  := by
  rintro rfl
  rcases hp with hfree | ⟨i, hi, heq⟩ | ⟨i, hij, hi, hmem⟩
  · exact h.not_mem_held hfree (mem_held_of_live hj (List.mem_cons_of_mem _ List.mem_cons_self))
  · exact (h.userPage_unique hj hi).1 heq
  · apply hij
    apply h.slot_unique (p := (L.space j).page)
    · rw [slotPages_of_live hi]
      exact List.mem_cons_of_mem _ hmem
    · rw [slotPages_of_live hj]
      exact List.mem_cons_of_mem _ List.mem_cons_self

theorem spares_aligned (h : Owned image k xs L) (hp : Spares k L xs j p) :
  addrIsAligned p
  := by
  rcases hp with hfree | ⟨i, hi, rfl⟩ | ⟨i, _, hi, hmem⟩
  · exact (h.free.isPage p hfree).aligned
  · exact (h.isPage _ (mem_held_of_live hi List.mem_cons_self)).aligned
  · exact (h.isPage p (mem_held_of_live hi (List.mem_cons_of_mem _ hmem))).aligned

/-- The memory of a process. -/
theorem memories_live (h : Owned image k xs L) (hi : k.Live i) :
  k.memories i = some (fun o : Offset => k.memory.bytes ((L.space i).page + o))
  := by
  unfold Kernel.memories
  rw [if_pos hi, h.userPage hi, Option.map_some]

theorem memories_not_live (hi : ¬ k.Live i) :
  k.memories i = none
  := if_neg hi

/-- The memory of a process stays when other pages change. -/
theorem memories_spared (h : Owned image k xs L) (h' : Owned image k' ys L')
    (hlive : k'.Live j ↔ k.Live j) (hspace : k.Live j → L'.space j = L.space j)
    (hc : Changes ps k.memory k'.memory) (hps : k.Live j → ∀ p ∈ ps, Spares k L xs j p) :
  k'.memories j = k.memories j
  := by
  by_cases hj : k.Live j
  · rw [h.memories_live hj, h'.memories_live (hlive.mpr hj), hspace hj]
    apply congrArg some
    funext o
    have hpage := h.space_isPage hj _ List.mem_cons_self
    apply hc.byte (fun p hp => h.spares_aligned (hps hj p hp)) hpage.aligned
    · exact fun hmem => h.spares_ne hj (hps hj _ hmem) rfl
    · exact ⟨Nat.le_add_right _ _, Nat.add_lt_add_left o.isLt _⟩
  · rw [memories_not_live hj, memories_not_live (fun hj' => hj (hlive.mp hj'))]

/-- Free pages and kernel stacks are no part of any memory. -/
theorem memories_kept (h : Owned image k xs L) (h' : Owned image k' ys L)
    (hlive : ∀ j, k'.Live j ↔ k.Live j) (hc : Changes ps k.memory k'.memory)
    (hps : ∀ p ∈ ps, p ∈ xs ∨ ∃ i, k.Live i ∧ p = (k.process i).stack) :
  k'.memories = k.memories
  := by
  funext j
  apply h.memories_spared h' (hlive j) (fun _ => rfl) hc
  intro _ p hp
  exact (hps p hp).imp_right Or.inl

/-- A step that changes the user page of the current process in an area only stores there. -/
theorem memories_set {area : ℕ × ℕ} (h : Owned image k xs L) (h' : Owned image k' ys L)
    (hlive : ∀ j, k'.Live j ↔ k.Live j) (hi : k.Live i) (hp : p ∈ xs)
    (hc : Changes [p, (L.space i).page, (k.process i).stack] k.memory k'.memory)
    (houtside : ∀ o : Offset, ¬ Covers area o →
      k'.memory.bytes ((L.space i).page + o) = k.memory.bytes ((L.space i).page + o)) :
  (MemoryEvent.set i (fun o =>
    if Covers area o then (k'.memories i).map (fun m => m o) else none)).step k.memories
    = some k'.memories
  := by
  have hi' : k'.Live i := (hlive i).mpr hi
  rw [MemoryEvent.step, h.memories_live hi, Option.map_some, h'.memories_live hi']
  apply congrArg some
  funext j
  by_cases hj : j = i
  · subst hj
    rw [Function.update_self, h'.memories_live hi']
    apply congrArg some
    funext o
    unfold MemoryEvent.overlay
    dsimp only
    split
    case isTrue => rfl
    case isFalse ho => exact (houtside o ho).symm
  · rw [Function.update_of_ne hj]
    symm
    apply h.memories_spared h' (hlive j) (fun _ => rfl) hc
    intro _ x hx
    simp only [List.mem_cons, List.not_mem_nil, or_false] at hx
    rcases hx with rfl | rfl | rfl
    · exact Or.inl hp
    · exact Or.inr (Or.inr ⟨i, Ne.symm hj, hi, List.mem_cons_self⟩)
    · exact Or.inr (Or.inl ⟨i, hi, rfl⟩)

/-! ### System calls on files -/

/-- `Read` writes to the user page only what it delivers. -/
theorem readFile_outside {fd size ret : Int} {buffer : ℕ} {o : Offset}
    (h : Owned image k (p :: xs) L) (hq : Queued k.scheduler q (some k.currentProc) none)
    (hidle : k.currentProc ≠ idleSlot) (hfits : ReadFits k.currentProc fd buffer size k)
    (hrun : LarvaOS.readFile image k.currentProc fd buffer size k = some (ret, k'))
    (ho : ¬ Covers (buffer, k.delivered fd size) o) :
  k'.memory.bytes ((L.space k.currentProc).page + o)
    = k.memory.bytes ((L.space k.currentProc).page + o)
  := by
  have hlive := hq.live_current hidle
  rcases readFile_cases hrun with ⟨rfl, _⟩ | ⟨i, d, c, m, hi, hd, hc, hread, _, rfl⟩
  · rfl
  · obtain ⟨hfit, hlo, hhi⟩ := hfits i d c hi hd hc
    have hlength : k.delivered fd size = unsigned 32
        (clipSize (k.files.fdTable d).position (k.files.fcbTable c).fileSize size) := by
      unfold Kernel.delivered Kernel.descriptor
      simp only [Option.bind_eq_bind, hi, Option.bind_some, hd, hc]
      rfl
    rw [h.pageMapRegister hq hidle] at hread
    obtain ⟨m', hread', _, _, _, houtside, _⟩ := FileSystem.readRawData_spec
      (h.space k.currentProc hlive) h.kernelEnd.le (h.space_isPage hlive) (h.space_nodup hlive)
      h.free (FileSystem.readRawData_readable hread) hfit hlo hhi
    obtain rfl := Option.some.inj (hread'.symm.trans hread)
    apply houtside
    · exact ⟨Nat.le_add_right _ _, Nat.add_lt_add_left o.isLt _⟩
    · unfold Covers at ho
      rw [hlength] at ho
      unfold FileSystem.userAddress
      dsimp only at ho
      omega

/-- `Lstat` writes to the user page only the entries. -/
theorem lstat_outside {statbuf : ℕ} {ret : Int} {o : Offset} (h : Owned image k (p :: xs) L)
    (hq : Queued k.scheduler q (some k.currentProc) none) (hidle : k.currentProc ≠ idleSlot)
    (hlo : userVirtualAddressBase ≤ statbuf)
    (hhi : statbuf + sizeofDirEntry * k.files.rootEntries.length
      ≤ userVirtualAddressBase + pageSize)
    (hrun : LarvaOS.lstat image statbuf k = some (ret, k'))
    (ho : ¬ Covers (statbuf, sizeofDirEntry * k.files.rootEntries.length) o) :
  k'.memory.bytes ((L.space k.currentProc).page + o)
    = k.memory.bytes ((L.space k.currentProc).page + o)
  := by
  have hlive := hq.live_current hidle
  obtain ⟨⟨total, m⟩, hlstat, hrun⟩ := Option.bind_eq_some_iff.mp hrun
  obtain ⟨rfl, rfl⟩ := Prod.mk.inj (Option.some.inj hrun)
  rw [h.pageMapRegister hq hidle] at hlstat
  obtain ⟨m', hlstat', _, _, _, houtside⟩ := FileSystem.lstat_spec
    (h.space k.currentProc hlive) h.kernelEnd.le (h.space_isPage hlive) (h.space_nodup hlive)
    h.free h.sector hlo hhi
  obtain ⟨_, rfl⟩ := Prod.mk.inj (Option.some.inj (hlstat'.symm.trans hlstat))
  apply houtside
  · exact ⟨Nat.le_add_right _ _, Nat.add_lt_add_left o.isLt _⟩
  · unfold Covers at ho
    unfold FileSystem.userAddress
    dsimp only at ho
    omega

/-! ### Fork and Wait -/

theorem findSlot_eq {P : Slot → Bool} (hi : P i) (hunique : ∀ j, P j → j = i) :
  findSlot P = some i
  := by
  unfold findSlot
  cases hfind : (List.finRange maximumNumberOfProcess).find? P with
  | none => exact absurd hi (List.find?_eq_none.mp hfind i (List.mem_finRange i))
  | some j => rw [hunique j (List.find?_some hfind)]

theorem findSlot_none {P : Slot → Bool} (h : ∀ j, ¬ P j) :
  findSlot P = none
  := List.find?_eq_none.mpr (fun j _ => h j)

/-- `Fork` copies the memory of the current process, or changes no memory. -/
theorem fork_memories {ret : Int} (h : Owned image k xs L)
    (hq : Queued k.scheduler q (some k.currentProc) none) (hidle : k.currentProc ≠ idleSlot)
    (hrun : LarvaOS.fork image k = some (ret, k')) :
  stutter MemoryEvent.step (k.memoryEvent image .fork) k.memories = some k'.memories
  := by
  have hevent : k.memoryEvent image .fork
      = (findSlot (fun i => ¬ k.Live i ∧ k'.Live i)).map (.copy k.currentProc) := by
    have hstep : k.step image .fork = some k' := by
      rw [Kernel.step, hrun, Option.map_some]
    rw [Kernel.memoryEvent, hstep, Option.bind_some]
  obtain ⟨hchange, ⟨_, _, hback, ys, howned⟩ | ⟨i, ys, a, _, _, _, hleaked⟩
    | ⟨i, ys, a, S, _, _, hcopied, _⟩⟩ := h.fork_changes hq hidle hrun
  · have hlive : ∀ j, k'.Live j ↔ k.Live j := by
      intro j
      unfold Kernel.Live
      rw [hback.process]
    rw [hevent, findSlot_none (by simp [hlive]), Option.map_none, stutter_none,
      h.memories_kept howned hlive hchange (fun p hp => Or.inl hp)]
  · obtain ⟨hunused, _, _, _⟩ := hq.free_slot hleaked.slot
    have hlive : ∀ j, k'.Live j ↔ k.Live j := by
      intro j
      by_cases hj : j = i
      · subst hj
        exact iff_of_false (not_live_of_initialized hleaked.initialized)
          (not_live_of_unused hunused)
      · unfold Kernel.Live
        rw [hleaked.others j hj]
    rw [hevent, findSlot_none (by simp [hlive]), Option.map_none, stutter_none,
      h.memories_kept hleaked.owned hlive hchange (fun p hp => Or.inl hp)]
  · obtain ⟨hunused, _, _, _⟩ := hq.free_slot hcopied.slot
    have hnew : ¬ k.Live i := not_live_of_unused hunused
    have hlive : ∀ j, j ≠ i → (k'.Live j ↔ k.Live j) := by
      intro j hj
      unfold Kernel.Live
      rw [hcopied.forked.others j hj]
    have hi' : k'.Live i := hcopied.live hq
    have hfind : findSlot (fun j => ¬ k.Live j ∧ k'.Live j) = some i := by
      apply findSlot_eq
      · simp [hnew, hi']
      · intro j hj
        by_contra hne
        simp [hlive j hne] at hj
    rw [hevent, hfind, Option.map_some, stutter_some, MemoryEvent.step, memories_not_live hnew,
      h.memories_live (hq.live_current hidle)]
    apply congrArg some
    funext j
    dsimp only
    by_cases hj : j = i
    · subst hj
      rw [Function.update_self, hcopied.owned.memories_live hi']
      apply congrArg some
      funext o
      rw [Layout.setSpace_self, hcopied.forked.page o o.isLt]
    · rw [Function.update_of_ne hj]
      symm
      apply h.memories_spared hcopied.owned (hlive j hj)
        (fun _ => Layout.setSpace_of_ne L hj S) hchange
      exact fun _ p hp => Or.inl hp

/-- `Wait` drops the memory of the process that it reaps. -/
theorem wait_memories {pid : Int} (h : Owned image k xs L) (href : Referenced k)
    (hq : Queued k.scheduler q (some k.currentProc) none) (hidle : k.currentProc ≠ idleSlot)
    (hrun : k.wait image pid = some k') :
  stutter MemoryEvent.step (k.memoryEvent image (.wait pid)) k.memories = some k'.memories
  := by
  have hevent : k.memoryEvent image (.wait pid)
      = (findSlot (fun i => k.Live i ∧ ¬ k'.Live i)).map .drop := by
    have hstep : k.step image (.wait pid) = some k' := hrun
    rw [Kernel.memoryEvent, hstep, Option.bind_some]
  by_cases hempty : q .killProcList = []
  · obtain ⟨s, hs, _, hres, _⟩ := hq.sleep hidle initProcessWaitId
    rw [Kernel.wait, hq.waitIteration_nil pid hempty, hs] at hrun
    obtain rfl := Option.some.inj hrun
    have hlive : ∀ j, Kernel.Live { k with scheduler := s } j ↔ k.Live j :=
      fun j => (hres.samePages j).live
    rw [hevent, findSlot_none (by simp [hlive]), Option.map_none, stutter_none,
      h.memories_kept (h.schedule hres) hlive (Changes.refl [] _) (by simp)]
  · obtain ⟨i, hi⟩ := hq.wait_awaited hempty hrun
    have hmem : i ∈ q .killProcList := List.mem_of_find?_eq_some hi
    have hlivei : k.Live i := hq.live_of_mem hmem
    obtain ⟨files, _, hdrop, _⟩ := href.drop i
    obtain ⟨k₁, ys, hiter, howned, _, hchange, _, hzero, hother, _⟩ :=
      h.waitIteration hq hi hdrop
    rw [Kernel.wait, hiter] at hrun
    obtain rfl : k₁ = k' := Option.some.inj hrun
    have hnot : ¬ k₁.Live i := by
      apply not_live_of_unused
      rw [hzero]
      rfl
    have hlive : ∀ j, j ≠ i → (k₁.Live j ↔ k.Live j) := by
      intro j hj
      unfold Kernel.Live
      rw [hother j hj]
    have hfind : findSlot (fun j => k.Live j ∧ ¬ k₁.Live j) = some i := by
      apply findSlot_eq
      · simp [hnot, hlivei]
      · intro j hj
        by_contra hne
        simp [hlive j hne] at hj
    rw [hevent, hfind, Option.map_some, stutter_some, MemoryEvent.step, h.memories_live hlivei]
    apply congrArg some
    funext j
    dsimp only
    by_cases hj : j = i
    · subst hj
      rw [Function.update_self, memories_not_live hnot]
    · rw [Function.update_of_ne hj]
      symm
      apply h.memories_spared howned (hlive j hj) (fun _ => rfl) hchange
      intro _ p hp
      rcases List.mem_cons.mp hp with rfl | hmem'
      · exact Or.inr (Or.inl ⟨i, hlivei, rfl⟩)
      · exact Or.inr (Or.inr ⟨i, Ne.symm hj, hlivei, hmem'⟩)

/-- A store to the user page. -/
theorem store_user {v : ℕ} {c : UInt8} (h : Owned image k xs L)
    (hq : Queued k.scheduler q (some k.currentProc) none) (hidle : k.currentProc ≠ idleSlot)
    (hv : InUserPage v) :
  k.store v c = some { k with
    memory := { k.memory with
      bytes := Function.update k.memory.bytes
        ((L.space k.currentProc).page + (v - userVirtualAddressBase)) c } }
  := by
  have hlive := hq.live_current hidle
  have hstore : k.memory.storeUser (virToPhy (L.space k.currentProc).map) v c = some { k.memory with
      bytes := Function.update k.memory.bytes
        ((L.space k.currentProc).page + (v - userVirtualAddressBase)) c } := by
    rw [← UserSpace.storePhysical_user (h.space_isPage hlive) hv, Memory.storeUser,
      (h.space k.currentProc hlive).walk_user h.kernelEnd.le (h.space_isPage hlive) hv]
    rfl
  rw [Kernel.store, h.pageMapRegister hq hidle, hstore]

/-- A store changes one byte of the memory of the current process, or terminates it. -/
theorem store_memories {v : ℕ} {c : UInt8} (h : Owned image k xs L)
    (hq : Queued k.scheduler q (some k.currentProc) none) (hidle : k.currentProc ≠ idleSlot)
    (hrun : k.store v c = some k') :
  stutter MemoryEvent.step (k.memoryEvent image (.store v c)) k.memories = some k'.memories
  := by
  have hlive := hq.live_current hidle
  have h' := h.store hq hidle hrun
  by_cases hv : InUserPage v
  · rw [h.store_user hq hidle hv] at hrun
    obtain rfl := Option.some.inj hrun
    have hevent : k.memoryEvent image (.store v c) = some (.set k.currentProc
        (fun o => if userVirtualAddressBase + o = v then some c else none)) := if_pos hv
    rw [hevent, stutter_some, MemoryEvent.step, h.memories_live hlive]
    apply congrArg some
    funext j
    dsimp only
    by_cases hj : j = k.currentProc
    · rw [hj, Function.update_self, h'.memories_live hlive]
      apply congrArg some
      funext o
      unfold InUserPage at hv
      unfold MemoryEvent.overlay
      dsimp only
      rw [Function.update_apply]
      split
      · rw [if_pos (by omega)]
        rfl
      · rw [if_neg (by omega)]
        rfl
    · rw [Function.update_of_ne hj]
      symm
      apply h.memories_spared h' Iff.rfl (fun _ => rfl) (UserSpace.changes_store hv c)
      intro _ p hp
      rw [List.mem_singleton.mp hp]
      exact Or.inr (Or.inr ⟨k.currentProc, Ne.symm hj, hlive, List.mem_cons_self⟩)
  · have hstore : k.memory.storeUser (virToPhy (L.space k.currentProc).map) v c = none := by
      rw [Option.eq_none_iff_forall_not_mem]
      intro m hm
      have hspace := h.space k.currentProc hlive
      exact hv (hspace.storeUser h.kernelEnd.le (h.space_isPage hlive) hm).1
    rw [Kernel.store, h.pageMapRegister hq hidle, hstore] at hrun
    obtain ⟨s, hs, _, hres, _⟩ := hq.exit hidle
    obtain ⟨s', hs', rfl⟩ := Kernel.exit_eq_some.mp hrun
    obtain rfl := Option.some.inj (hs.symm.trans hs')
    have hevent : k.memoryEvent image (.store v c) = none := if_neg hv
    rw [hevent, stutter_none, h.memories_kept h' (fun j => (hres.samePages j).live)
      (Changes.refl [] _) (by simp)]

end Owned

/-! ### Runs -/

/-- What every step keeps. -/
structure Separated (image : Image) (k : Kernel) : Prop where
  filed : Filed k
  owned : ∃ xs L, Owned image k xs L

theorem Separated.step (h : Separated image k) (hop : Admitted image op k)
    (hrun : k.step image op = some k') :
  Separated image k'
  where
  filed := h.filed.step hop.1 hrun
  owned := by
    obtain ⟨xs, L, howned⟩ := h.owned
    obtain ⟨q, hq⟩ := h.filed.consistent
    obtain ⟨ys, L', _, howned', _⟩ := howned.step_moves h.filed.referenced hq hop hrun
    exact ⟨ys, L', howned'⟩

/-- Every step of the system is an event of the memories, or nothing. -/
theorem simulation_memories :
  Simulation (Kernel.step image) (Admitted image) MemoryEvent.step (Kernel.memoryEvent image)
    (fun k M => Separated image k ∧ M = k.memories)
  where
  step op k k' M hM hop hstep := by
    obtain ⟨hsep, rfl⟩ := hM
    refine ⟨k'.memories, ?_, hsep.step hop hstep, rfl⟩
    obtain ⟨xs, L, h⟩ := hsep.owned
    obtain ⟨q, hq⟩ := hsep.filed.consistent
    have href := hsep.filed.referenced
    obtain ⟨hallowed, hfits⟩ := hop
    have hscheduled {run : Scheduler → Option Scheduler} {s : Scheduler}
        (hevent : k.memoryEvent image op = none) (hs : run k.scheduler = some s)
        (hres : SameResources k.scheduler s) (hrun : k.schedule run = some k') :
        stutter MemoryEvent.step (k.memoryEvent image op) k.memories = some k'.memories := by
      have h' := h.scheduled hs hres hrun
      obtain ⟨s', hs', rfl⟩ := Kernel.schedule_eq_some.mp hrun
      obtain rfl := Option.some.inj (hs.symm.trans hs')
      rw [hevent, stutter_none, h.memories_kept h' (fun j => (hres.samePages j).live)
        (Changes.refl [] _) (by simp)]
    have hkept (ps : List ℕ) (hevent : k.memoryEvent image op = none) (h' : Owned image k' xs L)
        (hlive : ∀ j, k'.Live j ↔ k.Live j) (hc : Changes ps k.memory k'.memory)
        (hps : ∀ p ∈ ps, p ∈ xs ∨ ∃ i, k.Live i ∧ p = (k.process i).stack) :
        stutter MemoryEvent.step (k.memoryEvent image op) k.memories = some k'.memories := by
      rw [hevent, stutter_none, h.memories_kept h' hlive hc hps]
    cases op with
    | yield =>
        by_cases hready : q .readyProcList = []
        · exact hscheduled rfl (hq.yield_nil hready) (SameResources.refl _) hstep
        · obtain ⟨s, hs, _, hres, _⟩ := hq.yield_cons hready
          exact hscheduled rfl hs hres hstep
    | sleep waitId =>
        obtain ⟨s, hs, _, hres, _⟩ := hq.sleep (hallowed rfl) waitId
        exact hscheduled rfl hs hres hstep
    | wakeup waitId =>
        obtain ⟨s, hs, _, hres, _⟩ := hq.wakeup waitId
        exact hscheduled rfl hs hres hstep
    | exit =>
        obtain ⟨s, hs, _, hres, _⟩ := hq.exit (hallowed rfl)
        exact hscheduled rfl hs hres hstep
    | wait pid => exact h.wait_memories href hq (hallowed rfl) hstep
    | fork =>
        obtain ⟨⟨ret, k₁⟩, hfork, rfl⟩ := Option.map_eq_some_iff.mp hstep
        exact h.fork_memories hq (hallowed rfl) hfork
    | openFile fileName =>
        obtain ⟨⟨ret, k₁⟩, hopen, rfl⟩ := Option.map_eq_some_iff.mp hstep
        obtain ⟨a, ys, rfl⟩ := h.free.exists_cons hfits
        apply hkept _ rfl (h.openFile hq.current_used hopen)
          (fun j => ((openFile_onlyFiles hq.current_used hopen).samePages j).live)
          (h.openFile_memory hopen).1
        exact fun p hp => Or.inl (List.mem_singleton.mp hp ▸ List.mem_cons_self)
    | closeFile fd =>
        have hmemory : k'.memory = k.memory := by
          rcases closeFile_cases hstep with rfl | ⟨_, _, _, _, _, _, rfl⟩
          · rfl
          · rfl
        apply hkept [] rfl (h.closeFile hq.current_used hstep)
          (fun j => ((closeFile_onlyFiles hq.current_used hstep).samePages j).live)
        · rw [hmemory]
          exact Changes.refl _ _
        · simp
    | readFile fd buffer size =>
        obtain ⟨⟨ret, k₁⟩, hread, rfl⟩ := Option.map_eq_some_iff.mp hstep
        obtain ⟨a, ys, rfl⟩ := h.free.exists_cons hfits.1
        have hidle := hallowed rfl
        have hsame := readFile_scheduler hread
        rw [Kernel.memoryEvent, hstep, Option.map_some, stutter_some]
        apply h.memories_set (h.readFile hq hidle hfits.2 hread) _ (hq.live_current hidle)
          List.mem_cons_self ((h.readFile_memory hq hidle hfits.2 hread).1.mono (by simp))
        · exact fun o ho => h.readFile_outside hq hidle hfits.2 hread ho
        · intro j
          unfold Kernel.Live Kernel.process
          rw [hsame]
    | lstat statbuf =>
        obtain ⟨⟨ret, k₁⟩, hlstat, rfl⟩ := Option.map_eq_some_iff.mp hstep
        obtain ⟨a, ys, rfl⟩ := h.free.exists_cons hfits.1
        have hidle := hallowed rfl
        have h' := h.lstat hq hidle hfits.2.1 hfits.2.2 hlstat
        have houtside := fun o ho => h.lstat_outside (o := o) hq hidle hfits.2.1 hfits.2.2 hlstat ho
        rw [Kernel.memoryEvent, hstep, Option.map_some, stutter_some]
        obtain ⟨m, rfl, hchange, _⟩ := h.lstat_memory hq hidle hfits.2.1 hfits.2.2 hlstat
        exact h.memories_set h' (fun _ => Iff.rfl) (hq.live_current hidle) List.mem_cons_self
          (hchange.mono (by simp)) houtside
    | exec filename =>
        obtain ⟨a, ys, rfl⟩ := h.free.exists_cons hfits.1
        have hidle := hallowed rfl
        obtain ⟨hchange, hlive⟩ := h.exec_changes hq hidle hfits.2 hstep
        rw [Kernel.memoryEvent, hstep, Option.map_some, stutter_some]
        apply h.memories_set (h.exec hq hidle hfits.2 hstep) hlive (hq.live_current hidle)
          List.mem_cons_self hchange
        exact fun o ho => absurd ⟨Nat.le_add_right _ _, Nat.add_lt_add_left o.isLt _⟩ ho
    | store v c => exact h.store_memories hq (hallowed rfl) hstep
    | push offset c =>
        have hidle := hallowed rfl
        have h' := h.push hq hidle hstep
        rw [Kernel.step, Kernel.push] at hstep
        split at hstep
        case isTrue hoffset =>
          obtain rfl := Option.some.inj hstep
          apply hkept [(k.process k.currentProc).stack] rfl h' (fun _ => Iff.rfl)
          · apply Changes.of_page
            intro x hx
            apply Function.update_of_ne
            rintro rfl
            exact hx ⟨Nat.le_add_right _ _, Nat.add_lt_add_left hoffset _⟩
          · exact fun p hp =>
              Or.inr ⟨k.currentProc, hq.live_current hidle, List.mem_singleton.mp hp⟩
        case isFalse => cases hstep

/-- The pages are apart when the shell starts. -/
theorem kMain_separated {machine : Machine} {k₀ : Kernel} (hmap : DisjointRegions machine.memMap)
    (hboot : kMain image machine = some k₀) :
  Separated image k₀
  := by
  obtain ⟨xs, L, hbooted⟩ := kMain_spec hmap hboot
  exact ⟨⟨hbooted.consistent, kMain_referenced hboot, (kMain_cached hboot).1⟩, xs, L,
    hbooted.owned⟩

/-- Every run of the system is a run of private memories: a process changes its own memory
only, `Fork` copies the memory of the process, and `Wait` drops the one of a killed process. -/
theorem run_memories {machine : Machine} {k₀ : Kernel}
    (hmap : DisjointRegions machine.memMap) (hboot : kMain image machine = some k₀)
    (h : Run (Kernel.step image) (Admitted image) k₀ ops k) :
  Run MemoryEvent.step (fun _ _ => True) k₀.memories
    (events (Kernel.step image) (Kernel.memoryEvent image) ops k₀) k.memories
  := by
  obtain ⟨M, hrun, _, rfl⟩ := simulation_memories.run ⟨kMain_separated hmap hboot, rfl⟩ h
  exact hrun

/-- The shell stores a byte. -/
theorem shell_stores (c : UInt8) :
  ∃ (k₀ k k' : Kernel) (before : List Operation), kMain smallImage (smallMachine 64) = some k₀
    ∧ Run (Kernel.step smallImage) (Admitted smallImage) k₀ before k
    ∧ k.Live 1 ∧ k'.Live 1 ∧ (∃ m, k.memories 1 = some m)
    ∧ Admitted smallImage (.store userVirtualAddressBase c) k
    ∧ k.step smallImage (.store userVirtualAddressBase c) = some k'
    ∧ k.memoryEvent smallImage (.store userVirtualAddressBase c)
      = some (.set 1 (fun o => if o = firstOffset then some c else none))
  := by
  obtain ⟨k₀, k, xs, hboot, hrun, hquiet, _, hcurrent, _⟩ :=
    kMain_shell (n := 64) (by decide) (by decide)
  obtain ⟨L, howned⟩ := hquiet.owned
  have hidle : k.currentProc ≠ idleSlot := by
    rw [hcurrent]
    decide
  have hlive : k.Live 1 := by
    rw [← hcurrent]
    exact hquiet.queued.live_current hidle
  have hv : InUserPage userVirtualAddressBase :=
    ⟨le_rfl, Nat.lt_add_of_pos_right firstOffset.isLt⟩
  refine ⟨k₀, k, _, _, hboot, hrun, hlive, ?_, ⟨_, howned.memories_live hlive⟩,
    ⟨fun _ => hidle, trivial⟩, howned.store_user hquiet.queued hidle hv, ?_⟩
  · exact hlive
  · have hset : k.memoryEvent smallImage (.store userVirtualAddressBase c)
        = some (.set k.currentProc (fun o : Offset =>
          if userVirtualAddressBase + o = userVirtualAddressBase then some c else none)) :=
      if_pos hv
    rw [hset, hcurrent]
    simp [firstOffset, Fin.ext_iff]

theorem run_memories_small :
  ∃ (k₀ k : Kernel) (ops : List Operation), kMain smallImage (smallMachine 64) = some k₀
    ∧ MemoryEvent.set 1 (fun o => if o = firstOffset then some 7 else none)
      ∈ events (Kernel.step smallImage) (Kernel.memoryEvent smallImage) ops k₀
    ∧ Run MemoryEvent.step (fun _ _ => True) k₀.memories
      (events (Kernel.step smallImage) (Kernel.memoryEvent smallImage) ops k₀) k.memories
  := by
  obtain ⟨k₀, k, k', before, hboot, hbefore, _, _, _, hop, hstep, hevent⟩ := shell_stores 7
  have hrun := hbefore.snoc _ hop hstep
  refine ⟨k₀, k', _, hboot, ?_, run_memories (smallMachine_disjoint 64) hboot hrun⟩
  rw [hbefore.events_snoc, events, hevent]
  simp

/-- The event of a step that leaves a process in its slot keeps the memory of the process. -/
theorem Separated.keeps {e : MemoryEvent Slot Offset UInt8} (h : Separated image k)
    (hop : Admitted image op k) (hrun : k.step image op = some k')
    (he : k.memoryEvent image op = some e) (hi : k.Live i) (hi' : k'.Live i) :
  e.Keeps i
  := by
  obtain ⟨xs, L, howned⟩ := h.owned
  obtain ⟨ys, L', howned'⟩ := (h.step hop hrun).owned
  obtain ⟨M, hM, _, rfl⟩ := simulation_memories.step op k k' _ ⟨h, rfl⟩ hop hrun
  rw [he, stutter_some] at hM
  apply MemoryEvent.keeps_of_step hM
  · rw [howned.memories_live hi]
    simp
  · rw [howned'.memories_live hi']
    simp

/-- A run in which a process stays in its slot keeps the memory of the process. -/
theorem Separated.run_keeps (h : Separated image k)
    (hrun : Run (Kernel.step image) (fun op k => Admitted image op k ∧ k.Live i) k ops k')
    (hend : k'.Live i) :
  ∀ e ∈ events (Kernel.step image) (Kernel.memoryEvent image) ops k, e.Keeps i
  := by
  induction hrun with
  | nil => simp [events]
  | @cons k k₁ k₂ ops op hop hstep hrun ih =>
      have hlive : k₁.Live i := by
        cases hrun with
        | nil => exact hend
        | cons _ hop' _ _ => exact hop'.2
      intro e he
      rw [events, hstep, Option.elim_some] at he
      rcases List.mem_append.mp he with hhead | htail
      · exact h.keeps hop.1 hstep (Option.mem_toList.mp hhead) hop.2 hlive
      · exact ih (h.step hop.1 hstep) hend e htail

/-- While a process is in its slot, every byte of its memory is the one that it has last
stored there itself or by a system call, or the one from the start. -/
theorem run_ownBytes {machine : Machine} {k₀ : Kernel} {before : List Operation}
    (hmap : DisjointRegions machine.memMap) (hboot : kMain image machine = some k₀)
    (hbefore : Run (Kernel.step image) (Admitted image) k₀ before k)
    (h : Run (Kernel.step image) (fun op k => Admitted image op k ∧ k.Live i) k ops k')
    (hend : k'.Live i) :
  k'.memories i = (k.memories i).map (fun m o => (MemoryEvent.lastStored
    (events (Kernel.step image) (Kernel.memoryEvent image) ops k) i o).getD (m o))
  := by
  have hsep : Separated image k := by
    apply hbefore.reachable.invariant (P := Separated image) _ (kMain_separated hmap hboot)
    exact fun op k k' hk hop hstep => hk.step hop hstep
  obtain ⟨M, hrun, _, rfl⟩ := simulation_memories.run ⟨hsep, rfl⟩ (h.mono fun _ _ hop => hop.1)
  exact MemoryEvent.run_lastStored hrun (hsep.run_keeps h hend)

theorem run_ownBytes_small :
  ∃ k k' : Kernel, k.Live 1 ∧ (k'.memories 1).map (fun m => m firstOffset) = some 7
  := by
  obtain ⟨k₀, k, k', before, hboot, hbefore, hlive, hlive', ⟨m, hm⟩, hop, hstep, hevent⟩ :=
    shell_stores 7
  refine ⟨k, k', hlive, ?_⟩
  rw [run_ownBytes (smallMachine_disjoint 64) hboot hbefore
    (Run.cons _ ⟨hop, hlive⟩ hstep (Run.nil k')) hlive', events, hevent, hm]
  simp [MemoryEvent.lastStored, MemoryEvent.stored, events, hstep]

end LarvaOS
