import LarvaOS.Kernel.Ownership

/-!
# The memory when processes are created

What `CreateNewProcess` and `Fork` do for every number of free pages.  A kernel stack
and three tables make a process, and three more pages its user page: with fewer than
four free pages `Fork` takes nothing, with seven or more it makes a process, and in
between the slot of the new process stays `INITIALIZED` and its pages are not all given
back.
-/

namespace LarvaOS

open Linked

variable {image : Image}

/-! ### The kernel stack -/

theorem trapFrameAddress_eq (stack : ℕ) :
  trapFrameAddress stack = stack + 2096976
  := by
  unfold trapFrameAddress sizeofTrapFrame stackSize
  rw [pageSize_eq]
  omega

theorem contextAddress_eq (stack : ℕ) :
  contextAddress stack = stack + 2096920
  := by
  unfold contextAddress sizeofTrapFrame stackSize
  rw [pageSize_eq]
  omega

theorem Memory.changes_storeWord (m : Memory) (p v : ℕ) {offset : ℕ}
    (hoffset : offset + 8 ≤ pageSize) :
  Changes [p] m (m.storeWord (p + offset) v)
  := by
  apply Changes.of_page
  intro x hx
  apply Bytes.writeWord_of_outside
  unfold InPage at hx
  omega

/-- Starting a trap frame changes only the page of the stack. -/
theorem Memory.changes_startTrapFrame (m : Memory) (stack : ℕ) :
  Changes [stack] m (m.startTrapFrame (trapFrameAddress stack))
  := by
  unfold Memory.startTrapFrame
  rw [trapFrameAddress_eq]
  simp only [Nat.add_assoc]
  have hword : ∀ (m : Memory) (offset v : ℕ), offset ≤ 2097144 →
      Changes [stack] m (m.storeWord (stack + offset) v) := by
    intro m offset v hoffset
    apply Memory.changes_storeWord
    rw [pageSize_eq]
    omega
  apply Changes.trans _ (hword _ _ _ (by omega))
  apply Changes.trans _ (hword _ _ _ (by omega))
  apply Changes.trans _ (hword _ _ _ (by omega))
  apply Changes.trans _ (hword _ _ _ (by omega))
  apply hword _ _ _ (by omega)

/-- Starting a kernel stack changes only its page. -/
theorem Memory.changes_startStack (m : Memory) (stack : ℕ) :
  Changes [stack] m (m.startStack image stack)
  := by
  unfold Memory.startStack
  apply ((Memory.changes_clear m stack).trans _).trans (Memory.changes_startTrapFrame _ _)
  rw [contextAddress_eq]
  apply Memory.changes_storeWord
  rw [pageSize_eq]
  omega

/-- The first context of a process ends with the address of `TrapReturn`. -/
theorem Memory.readWord_startStack (m : Memory) (stack : ℕ) :
  (m.startStack image stack).bytes.readWord (contextAddress stack + 6 * 8) = image.trapReturn
  := by
  have htf := trapFrameAddress_eq stack
  have hcontext := contextAddress_eq stack
  unfold Memory.startStack Memory.startTrapFrame Memory.storeWord
  rw [Bytes.readWord_writeWord_of_disjoint (by omega),
    Bytes.readWord_writeWord_of_disjoint (by omega),
    Bytes.readWord_writeWord_of_disjoint (by omega),
    Bytes.readWord_writeWord_of_disjoint (by omega),
    Bytes.readWord_writeWord_of_disjoint (by omega), Bytes.readWord_writeWord_self _ _ image.word]

/-- The kernel stack holds what `CreateNewProcess` stored there. -/
def StartedStack (image : Image) (m : Memory) (stack : ℕ) : Prop :=
  ∃ m₁ : Memory, ∀ x, InPage stack x → m.bytes x = (m₁.startStack image stack).bytes x

/-- The stack is unchanged when pages change that come after it in the free list. -/
theorem StartedStack.changes {m₀ m m' : Memory} {stack : ℕ} {ps xs : List ℕ}
    (h : StartedStack image m stack) (hc : Changes ps m m') (hfree : Free image m₀ (stack :: xs))
    (hps : ps ⊆ xs) :
  StartedStack image m' stack
  := by
  obtain ⟨m₁, h⟩ := h
  use m₁
  intro x hx
  rw [← h x hx]
  apply hc.byte _ (hfree.isPage stack List.mem_cons_self).aligned _ hx
  · exact fun q hq => (hfree.isPage q (List.mem_cons_of_mem stack (hps hq))).aligned
  · exact fun hmem => (List.nodup_cons.mp hfree.nodup).1 (hps hmem)

/-- The process is resumed at `TrapReturn`. -/
theorem StartedStack.readWord {m : Memory} {stack : ℕ} (h : StartedStack image m stack) :
  m.bytes.readWord (contextAddress stack + 6 * 8) = image.trapReturn
  := by
  obtain ⟨m₁, h⟩ := h
  rw [← m₁.readWord_startStack stack]
  apply Bytes.readWord_congr
  intro x hx hlt
  apply h
  rw [contextAddress_eq] at hx hlt
  unfold InPage
  rw [pageSize_eq]
  omega

theorem Memory.startStack_freePageHead (m : Memory) (stack : ℕ) :
  (m.startStack image stack).freePageHead = m.freePageHead
  := rfl

/-! ### CreateNewProcess -/

section Create

variable {k : Kernel} {n a b c d : ℕ} {xs : List ℕ} {i : Slot}

/-- Without an unused slot no process is created. -/
theorem createNewProcess_full (hfind : findFreeProcessSlot k.scheduler = none) :
  createNewProcess image k = some (none, k)
  := by
  unfold createNewProcess
  rw [hfind]

/-- Without a free page no process is created. -/
theorem createNewProcess_nil (hfind : findFreeProcessSlot k.scheduler = some i)
    (hfree : Free image k.memory []) :
  createNewProcess image k = some (none, k.setProcess i { k.process i with stack := 0 })
  := by
  unfold createNewProcess
  rw [hfind]
  dsimp only
  rw [hfree.kalloc_nil]
  rfl

/-- The steps of `CreateNewProcess` after the stack is allocated. -/
theorem createNewProcess_eq {m m' : Memory} {pageMap : ℕ}
    (hfind : findFreeProcessSlot k.scheduler = some i)
    (hrun : kalloc image k.memory = some (a, m)) (ha : a ≠ 0)
    (hsetup : setupKVM image (m.startStack image a) = some (pageMap, m')) (hmap : pageMap ≠ 0) :
  createNewProcess image k
    = some (some i, { k with memory := m', scheduler := k.scheduler.newProcess i a pageMap })
  := by
  unfold createNewProcess
  rw [hfind]
  dsimp only
  rw [hrun, Option.bind_eq_bind, Option.bind_some]
  dsimp only
  rw [if_neg ha, hsetup, Option.bind_some]
  dsimp only
  rw [if_neg hmap]
  rfl

/-- The steps of `CreateNewProcess` when `SetupKVM` fails. -/
theorem createNewProcess_eq_fail {m m₁ m' : Memory}
    (hfind : findFreeProcessSlot k.scheduler = some i)
    (hrun : kalloc image k.memory = some (a, m)) (ha : a ≠ 0)
    (hsetup : setupKVM image (m.startStack image a) = some (0, m₁))
    (hkfree : kfree image a m₁ = some m') :
  createNewProcess image k = some (none, { k with
    memory := m', scheduler := (k.scheduler.startProcess i a).clearProcess i })
  := by
  unfold createNewProcess
  rw [hfind]
  dsimp only
  rw [hrun, Option.bind_eq_bind, Option.bind_some]
  dsimp only
  rw [if_neg ha, hsetup, Option.bind_some]
  dsimp only
  rw [if_pos rfl, hkfree]
  rfl

/-- The stack page is taken from the free list and started. -/
theorem startStack_spec (hfree : Free image k.memory (a :: xs)) :
  ∃ m, kalloc image k.memory = some (a, m) ∧ Free image (m.startStack image a) xs
    ∧ Changes [a] k.memory (m.startStack image a) ∧ m.bytes = k.memory.bytes
  := by
  obtain ⟨m, hrun, hfree', hbytes, hchange⟩ := hfree.kalloc_cons
  have ha := hfree.isPage a List.mem_cons_self
  have hstart : Changes [a] m (m.startStack image a) := Memory.changes_startStack m a
  refine ⟨m, hrun, ?_, (hchange.mono (by simp)).trans hstart, hbytes⟩
  apply hfree'.changes hstart (Memory.startStack_freePageHead m a)
  · simpa using ha.aligned
  · simpa using (List.nodup_cons.mp hfree.nodup).1

/-- With one to three free pages no process is created, and the pages are given back. -/
theorem createNewProcess_fail (hfind : findFreeProcessSlot k.scheduler = some i)
    (hend : KernelEnd k.memory n) (hfree : Free image k.memory (a :: xs)) (hlen : xs.length < 3) :
  ∃ m' ys, createNewProcess image k = some (none, { k with
      memory := m', scheduler := (k.scheduler.startProcess i a).clearProcess i })
    ∧ Free image m' ys ∧ ys.Perm (a :: xs) ∧ Changes (a :: xs) k.memory m'
  := by
  have ha := hfree.isPage a List.mem_cons_self
  obtain ⟨m, hrun, hfree₁, hchange₁, _⟩ := startStack_spec hfree
  obtain ⟨m₂, ys, hsetup, hfree₂, hys, hchange₂⟩ :=
    setupKVM_fail (hend.changes hchange₁) hfree₁ hlen
  have hmem : a ∉ ys := by
    rw [hys.mem_iff]
    exact (List.nodup_cons.mp hfree.nodup).1
  obtain ⟨m', hkfree, hfree', hchange'⟩ := hfree₂.kfree ha hmem
  refine ⟨m', a :: ys, createNewProcess_eq_fail hfind hrun ha.ne_zero hsetup hkfree, hfree',
    hys.cons a, ?_⟩
  exact ((hchange₁.mono (by simp)).trans (hchange₂.mono (by simp))).trans (hchange'.mono (by simp))

/-- With four free pages a process is created. -/
theorem createNewProcess_cons (hfind : findFreeProcessSlot k.scheduler = some i)
    (hend : KernelEnd k.memory n) (hfree : Free image k.memory (a :: b :: c :: d :: xs)) :
  ∃ m', createNewProcess image k
      = some (some i, { k with memory := m', scheduler := k.scheduler.newProcess i a b })
    ∧ Free image m' xs ∧ Changes [a, b, c, d] k.memory m' ∧ KernelSpace m' n b c d
    ∧ ∃ m : Memory, m.bytes = k.memory.bytes ∧ Changes [b, c, d] (m.startStack image a) m'
  := by
  have ha := hfree.isPage a List.mem_cons_self
  have hb := hfree.isPage b (by simp)
  obtain ⟨m, hrun, hfree₁, hchange₁, hbytes⟩ := startStack_spec hfree
  obtain ⟨m', hsetup, hfree', hchange', hspace⟩ :=
    setupKVM_cons (hend.changes hchange₁) hfree₁
  refine ⟨m', createNewProcess_eq hfind hrun ha.ne_zero hsetup hb.ne_zero, hfree', ?_, hspace,
    m, hbytes, hchange'⟩
  exact (hchange₁.mono (by simp)).trans (hchange'.mono (by simp))

end Create

/-! ### The slots of new processes -/

section Slots

variable {k k' : Kernel} {q : Queues} {i : Slot}

/-- The current process owns memory, unless it is IDLE. -/
theorem Queued.live_current (hq : Queued k.scheduler q (some k.currentProc) none)
    (hidle : k.currentProc ≠ idleSlot) :
  k.Live k.currentProc
  := by
  have hstate := (hq.running k.currentProc hidle (by simp)).mpr rfl
  use hidle
  unfold Process.Live
  rw [hstate]
  simp

/-- An unused slot owns no memory. -/
theorem not_live_of_unused (hi : (k.process i).state = .unused) :
  ¬ k.Live i
  := fun h => h.2.1 hi

theorem not_live_of_initialized (hi : (k.process i).state = .initialized) :
  ¬ k.Live i
  := fun h => h.2.2 hi

/-- A process with the same fields has the same pages. -/
theorem Owned.SamePages.of_process (h : k'.process i = k.process i) :
  Owned.SamePages k k' i
  where
  live := by
    unfold Kernel.Live
    rw [h]
  pageMap _ := by rw [h]
  stack _ := by rw [h]
  tf _ := by rw [h]

/-- A slot that never becomes a process has no pages. -/
theorem Owned.SamePages.of_not_live (hidle : i ≠ idleSlot) (h : ¬ k.Live i) (h' : ¬ k'.Live i) :
  Owned.SamePages k k' i
  where
  live := iff_of_false h' h
  pageMap hi := absurd hi (not_or.mpr ⟨h, hidle⟩)
  stack hi := absurd hi h
  tf hi := absurd hi h

/-- The slot that `FindFreeProcessSlot` finds. -/
theorem Queued.free_slot (hq : Queued k.scheduler q (some k.currentProc) none)
    (hfind : findFreeProcessSlot k.scheduler = some i) :
  (k.process i).state = .unused ∧ k.process i = Process.zero ∧ i ≠ idleSlot
    ∧ i ≠ k.currentProc
  := by
  have hunused := state_of_findFreeProcessSlot hfind
  refine ⟨hunused, hq.unused i (by simp) hunused, ((hq.detach_unused hunused).detached i rfl).1, ?_⟩
  rintro rfl
  exact hq.current_used hunused

end Slots

/-! ### Fork -/

section Fork

variable {k k' k₁ : Kernel} {q : Queues} {L : Layout} {a b c d p e f : ℕ} {xs : List ℕ} {i : Slot}

theorem fork_eq_none (hcreate : createNewProcess image k = some (none, k₁)) :
  fork image k = some (-enomem, k₁)
  := by
  unfold fork
  rw [hcreate]
  rfl

theorem fork_eq_fail {m : Memory} (hcreate : createNewProcess image k = some (some i, k₁))
    (hcopy : copyUVM image (k₁.process i).pageMap (k₁.process k.currentProc).pageMap pageSize
      k₁.memory = some (false, m)) :
  fork image k = some (-enomem, { k₁ with memory := m })
  := by
  unfold fork
  simp only [Option.bind_eq_bind]
  rw [hcreate, Option.bind_some]
  dsimp only
  rw [hcopy]
  rfl

theorem fork_eq {m : Memory} (hcreate : createNewProcess image k = some (some i, k₁))
    (hcopy : copyUVM image (k₁.process i).pageMap (k₁.process k.currentProc).pageMap pageSize
      k₁.memory = some (true, m))
    (hstart : startFork i k.currentProc { k₁ with memory := m } = some k') :
  fork image k = some ((k'.process i).pid, k')
  := by
  unfold fork
  simp only [Option.bind_eq_bind]
  rw [hcreate, Option.bind_some]
  dsimp only
  rw [hcopy, Option.bind_some]
  dsimp only
  rw [if_pos rfl, hstart]
  rfl

/-- `Fork` with no unused slot changes nothing. -/
theorem fork_full (hfind : findFreeProcessSlot k.scheduler = none) :
  fork image k = some (-enomem, k)
  := fork_eq_none (createNewProcess_full hfind)

/-- `Fork` with no free page changes nothing. -/
theorem Owned.fork_nil (h : Owned image k [] L)
    (hq : Queued k.scheduler q (some k.currentProc) none)
    (hfind : findFreeProcessSlot k.scheduler = some i) :
  fork image k = some (-enomem, k)
  := by
  have hcreate := createNewProcess_nil hfind h.free
  have hzero := (hq.free_slot hfind).2.1
  have hp : { k.process i with stack := 0 } = k.process i := by
    rw [hzero]
    rfl
  rw [hp] at hcreate
  have hsame : k.setProcess i (k.process i) = k := by
    unfold Kernel.setProcess Scheduler.setProcess
    rw [Function.update_eq_self]
  rw [hsame] at hcreate
  exact fork_eq_none hcreate

/-- `Fork` with one to three free pages gives them back. -/
theorem Owned.fork_fail (h : Owned image k (a :: xs) L)
    (hq : Queued k.scheduler q (some k.currentProc) none)
    (hfind : findFreeProcessSlot k.scheduler = some i) (hlen : xs.length < 3) :
  ∃ k' ys, fork image k = some (-enomem, k') ∧ Owned image k' ys L ∧ ys.Perm (a :: xs)
    ∧ k'.files = k.files ∧ k'.scheduler = (k.scheduler.startProcess i a).clearProcess i
    ∧ Changes (a :: xs) k.memory k'.memory
  := by
  obtain ⟨m', ys, hcreate, hfree, hys, hchange⟩ :=
    createNewProcess_fail hfind h.kernelEnd h.free hlen
  obtain ⟨_, hzero, _, _⟩ := hq.free_slot hfind
  refine ⟨_, ys, fork_eq_none hcreate, ?_, hys, rfl, rfl, hchange⟩
  have hmemory := h.of_memory hchange (fun p hp => Or.inl hp) hfree
    (fun x => (hys.count_eq x).le)
  apply hmemory.of_scheduler
  · rfl
  · exact FileSystem.SameDisk.refl _
  · intro j
    apply SamePages.of_process
    exact clear_startProcess hzero a j

/-- The slots of other processes when a process is created. -/
theorem samePages_newProcess (hfind : findFreeProcessSlot k.scheduler = some i)
    (hidle : i ≠ idleSlot) (hk : k'.scheduler = k.scheduler.newProcess i a b) (j : Slot) :
  Owned.SamePages k k' j
  := by
  by_cases e : j = i
  · subst e
    apply Owned.SamePages.of_not_live hidle
    · exact not_live_of_unused (state_of_findFreeProcessSlot hfind)
    · apply not_live_of_initialized
      rw [Kernel.process, hk, newProcess_process]
  · apply Owned.SamePages.of_process
    rw [Kernel.process, hk]
    exact newProcess_of_ne e _ _ _

/-- The state of `Fork` after `CreateNewProcess`. -/
theorem Owned.fork_create (h : Owned image k (a :: b :: c :: d :: xs) L)
    (hq : Queued k.scheduler q (some k.currentProc) none)
    (hfind : findFreeProcessSlot k.scheduler = some i) :
  ∃ m, createNewProcess image k
      = some (some i, { k with memory := m, scheduler := k.scheduler.newProcess i a b })
    ∧ Owned image { k with memory := m, scheduler := k.scheduler.newProcess i a b } xs L
    ∧ KernelSpace m L.size b c d
    ∧ ([b, c, d] ++ (xs ++ L.held k)).Nodup ∧ (∀ q ∈ [b, c, d], IsPage image q)
    ∧ Changes [a, b, c, d] k.memory m ∧ StartedStack image m a
  := by
  obtain ⟨m, hcreate, hfree, hchange, hspace, m₁, _, hchange₁⟩ :=
    createNewProcess_cons hfind h.kernelEnd h.free
  obtain ⟨_, _, hidle, _⟩ := hq.free_slot hfind
  have hstarted : StartedStack image (m₁.startStack image a) a := ⟨m₁, fun _ _ => rfl⟩
  refine ⟨m, hcreate, ?_, hspace, ?_, ?_, hchange, ?_⟩
  · have hmemory := h.of_memory hchange (fun p hp => Or.inl (by
        simp only [List.mem_cons, List.not_mem_nil, or_false] at hp
        rcases hp with hp | hp | hp | hp <;> simp [hp])) hfree (by
        intro x
        simp only [List.count_cons]
        omega)
    apply hmemory.of_scheduler
    · rfl
    · exact FileSystem.SameDisk.refl _
    · exact samePages_newProcess (k := { k with memory := m }) hfind hidle rfl
  · apply h.nodup.of_count_le
    intro x
    simp only [List.count_append, List.count_cons, List.count_nil]
    omega
  · intro q hq
    apply h.free.isPage
    simp only [List.mem_cons, List.not_mem_nil, or_false] at hq
    rcases hq with hq | hq | hq <;> simp [hq]
  · exact hstarted.changes hchange₁ h.free (List.subset_append_left [b, c, d] xs)

/-- `Fork` with four to six free pages leaves the slot `INITIALIZED`, and does not give
all pages back. -/
theorem Owned.fork_leak (h : Owned image k (a :: b :: c :: d :: xs) L)
    (hq : Queued k.scheduler q (some k.currentProc) none)
    (hfind : findFreeProcessSlot k.scheduler = some i) (hlen : xs.length < 3) :
  ∃ k' ys, fork image k = some (-enomem, k') ∧ Owned image k' ys L
    ∧ (∀ x, ys.count x + [a].count x ≤ (a :: b :: c :: d :: xs).count x)
    ∧ k'.files = k.files ∧ k'.scheduler = k.scheduler.newProcess i a b
    ∧ Changes (a :: b :: c :: d :: xs) k.memory k'.memory
  := by
  obtain ⟨m, hcreate, hmemory, hspace, hnodup, hpages, hchange, _⟩ := h.fork_create hq hfind
  have hmap : ((Kernel.mk m k.files (k.scheduler.newProcess i a b)).process i).pageMap = b :=
    congrArg Process.pageMap (newProcess_process k.scheduler i a b)
  rcases xs with _ | ⟨p, xs⟩
  · refine ⟨_, [], fork_eq_fail hcreate (m := m) ?_, hmemory, ?_, rfl, rfl, hchange⟩
    · rw [hmap]
      exact copyUVM_nil hmemory.free
    · intro x
      simp only [List.count_cons, List.count_nil]
      omega
  · obtain ⟨m', ys, hcopy, hfree', hys, hchange'⟩ := @copyUVM_fail image m L.size xs b c d p
      ((Kernel.mk m k.files (k.scheduler.newProcess i a b)).process k.currentProc).pageMap
      pageSize hspace hmemory.free (Nat.lt_of_succ_lt_succ hlen) hpages (by
        apply hnodup.of_count_le
        intro x
        simp only [List.count_append, List.count_cons, List.count_nil]
        omega)
    obtain ⟨_, _, hidle, _⟩ := hq.free_slot hfind
    have hcount : ∀ x, ys.count x + [a].count x ≤ (a :: b :: c :: d :: p :: xs).count x := by
      intro x
      simp only [hys.count_eq, List.count_append, List.count_cons, List.count_nil]
      omega
    have hall : Changes (a :: b :: c :: d :: p :: xs) k.memory m' := by
      apply (hchange.mono _).trans (hchange'.mono _)
      · intro x hx
        simp only [List.mem_cons, List.not_mem_nil, or_false] at hx
        rcases hx with hx | hx | hx | hx <;> simp [hx]
      · intro x hx
        simp only [List.mem_append, List.mem_cons, List.not_mem_nil, or_false] at hx
        rcases hx with (hx | hx | hx) | hx | hx <;> simp [hx]
    refine ⟨_, ys, fork_eq_fail hcreate (m := m') ?_, ?_, hcount, rfl, rfl, hall⟩
    · rw [hmap]
      exact hcopy
    · have hmemory' := h.of_memory hall (fun p hp => Or.inl hp) hfree'
        (fun x => Nat.le_of_add_right_le (hcount x))
      apply hmemory'.of_scheduler
      · rfl
      · exact FileSystem.SameDisk.refl _
      · exact samePages_newProcess (k := { k with memory := m' }) hfind hidle rfl

/-- The last part of `Fork` runs when the files can be shared. -/
theorem Queued.startFork_exists {r : Option Slot} {current : Slot} {files : FileSystem}
    (hq : Queued k.scheduler q r (some i)) (hi : i ≠ k.currentProc)
    (hfiles : k.files.addReferences (k.process current).openFiles = some files) :
  ∃ k', LarvaOS.startFork i current k = some k'
  := by
  have hset := hq.setProcess (p := { k.process i with
    file := (k.process current).file, state := .ready }) (Or.inr hi)
  obtain ⟨s, hrun, _⟩ := hset.attach_ready (congrArg Process.state (Scheduler.setProcess_self _ _ _))
  unfold LarvaOS.startFork
  simp only [Option.bind_eq_bind]
  rw [Process.openFiles] at hfiles
  rw [Process.openFiles, hfiles, Option.bind_some, hrun, Option.bind_some]
  exact ⟨_, rfl⟩

/-- Copying a trap frame changes only the page of the new stack. -/
theorem changes_copyTrapFrame (m : Memory) (stack src : ℕ) :
  Changes [stack] m
    ((m.copy (trapFrameAddress stack) src sizeofTrapFrame).storeWord
      (trapFrameAddress stack + 112) 0)
  := by
  have hcopy : Changes [stack] m (m.copy (trapFrameAddress stack) src sizeofTrapFrame) := by
    apply Changes.of_page
    intro x hx
    apply memcpy_of_outside
    unfold InPage at hx
    rw [trapFrameAddress_eq, sizeofTrapFrame]
    rw [pageSize_eq] at hx
    omega
  apply hcopy.trans
  rw [trapFrameAddress_eq]
  apply Memory.changes_storeWord
  rw [pageSize_eq]
  omega

/-- The pages that `Fork` takes for the user page come last. -/
theorem Owned.fork_copy (h : Owned image k (a :: b :: c :: d :: p :: e :: f :: xs) L)
    (hq : Queued k.scheduler q (some k.currentProc) none) (hidle : k.currentProc ≠ idleSlot)
    (hfind : findFreeProcessSlot k.scheduler = some i) :
  ∃ m m', createNewProcess image k
      = some (some i, { k with memory := m, scheduler := k.scheduler.newProcess i a b })
    ∧ copyUVM image ((k.scheduler.newProcess i a b).process i).pageMap
      ((k.scheduler.newProcess i a b).process k.currentProc).pageMap pageSize m = some (true, m')
    ∧ Free image m' xs ∧ Changes [a, b, c, d, p, e, f] k.memory m'
    ∧ UserSpace m' L.size ⟨b, c, d, e, f, p⟩
    ∧ (∀ j, j < pageSize → m'.bytes (p + j)
      = k.memory.bytes ((L.space k.currentProc).page + j))
    ∧ StartedStack image m' a
  := by
  obtain ⟨m, hcreate, hmemory, hspace, hnodup, hpages, hchange, hstarted⟩ :=
    h.fork_create hq hfind
  have hlive := hq.live_current hidle
  obtain ⟨_, _, hi, hne⟩ := hq.free_slot hfind
  have hlive' : (Kernel.mk m k.files (k.scheduler.newProcess i a b)).Live k.currentProc :=
    (samePages_newProcess (k := k) hfind hi rfl k.currentProc).live.mpr hlive
  obtain ⟨m', hcopy, hfree', hchange', hspace', hcontents⟩ := copyUVM_cons hspace
    (hmemory.space k.currentProc hlive') (h.space_isPage hlive) hmemory.free hpages (by
      apply hnodup.of_count_le
      intro x
      have hle := count_slot_le L k k.currentProc x
      rw [slotPages_of_live hlive, List.count_cons] at hle
      simp only [List.count_append, List.count_cons, List.count_nil] at hle ⊢
      omega)
  refine ⟨m, m', hcreate, ?_, hfree', ?_, hspace', ?_⟩
  · rw [newProcess_process, newProcess_of_ne (Ne.symm hne)]
    exact (h.pageMap k.currentProc hlive).symm ▸ hcopy
  · apply (hchange.mono _).trans (hchange'.mono _)
    · intro x hx
      simp only [List.mem_cons, List.not_mem_nil, or_false] at hx
      rcases hx with hx | hx | hx | hx <;> simp [hx]
    · intro x hx
      simp only [List.mem_cons, List.not_mem_nil, or_false] at hx
      rcases hx with hx | hx | hx | hx <;> simp [hx]
  constructor
  · intro j hj
    rw [hcontents j hj]
    have haligned : ∀ q ∈ [a, b, c, d], addrIsAligned q := by
      intro x hx
      apply (h.free.isPage x _).aligned
      simp only [List.mem_cons, List.not_mem_nil, or_false] at hx
      rcases hx with hx | hx | hx | hx <;> simp [hx]
    have hpage := h.space_isPage hlive (L.space k.currentProc).page List.mem_cons_self
    apply hchange.byte haligned hpage.aligned
    · intro hmem
      apply h.not_mem_held (p := (L.space k.currentProc).page)
      · simp only [List.mem_cons, List.not_mem_nil, or_false] at hmem
        rcases hmem with hx | hx | hx | hx <;> simp [hx]
      · exact mem_held_of_live hlive (List.mem_cons_of_mem _ List.mem_cons_self)
    · constructor
      · omega
      · omega
  · apply hstarted.changes hchange' h.free
    intro x hx
    simp only [List.mem_cons, List.not_mem_nil, or_false] at hx
    rcases hx with hx | hx | hx | hx <;> simp [hx]

/-- The copy of a trap frame changes no word below it. -/
theorem readWord_copyTrapFrame_below (m : Memory) {stack src x : ℕ}
    (hx : x + 8 ≤ trapFrameAddress stack) :
  ((m.copy (trapFrameAddress stack) src sizeofTrapFrame).storeWord
    (trapFrameAddress stack + 112) 0).bytes.readWord x = m.bytes.readWord x
  := by
  unfold Memory.storeWord
  rw [Bytes.readWord_writeWord_of_disjoint (by omega)]
  apply Bytes.readWord_congr
  intro y _ hy
  apply memcpy_of_outside
  omega

/-- The copy of a trap frame, with zero in `rax`. -/
theorem readWord_copyTrapFrame (m : Memory) (stack src : ℕ) :
  ((m.copy (trapFrameAddress stack) src sizeofTrapFrame).storeWord
    (trapFrameAddress stack + 112) 0).bytes.readWord (trapFrameAddress stack + 112) = 0
  := Bytes.readWord_writeWord_self _ _ (by decide)

theorem byte_copyTrapFrame (m : Memory) {stack src j : ℕ}
    (hsrc : stack + pageSize ≤ src ∨ src + sizeofTrapFrame ≤ stack) (hj : j < sizeofTrapFrame)
    (hrax : j < 112 ∨ 120 ≤ j) :
  ((m.copy (trapFrameAddress stack) src sizeofTrapFrame).storeWord
    (trapFrameAddress stack + 112) 0).bytes (trapFrameAddress stack + j) = m.bytes (src + j)
  := by
  have hframe : sizeofTrapFrame = 176 := rfl
  have haddr := trapFrameAddress_eq stack
  generalize trapFrameAddress stack = dest at haddr ⊢
  have hout : dest + j < dest + 112 ∨ dest + 112 + 8 ≤ dest + j := by omega
  have hapart : dest + sizeofTrapFrame ≤ src ∨ src + sizeofTrapFrame ≤ dest := by
    rw [pageSize_eq] at hsrc
    omega
  unfold Memory.storeWord Memory.copy
  dsimp only
  rw [Bytes.writeWord_of_outside hout, memcpy_of_inside hapart hj]

/-- The outcome of a successful `Fork`: the slot `i` is a copy of the current process,
with the kernel stack `stack` and the address space `S`. -/
structure Forked (k k' : Kernel) (L : Layout) (i : Slot) (stack : ℕ) (S : Space) : Prop where
  changes : Changes (stack :: S.pages) k.memory k'.memory
  child : k'.process i = { (k.scheduler.newProcess i stack S.map).process i with
    file := (k.process k.currentProc).file, state := .ready }
  others : ∀ j, j ≠ i → k'.process j = k.process j
  currentProc : k'.currentProc = k.currentProc
  page : ∀ j, j < pageSize →
    k'.memory.bytes (S.page + j) = k.memory.bytes ((L.space k.currentProc).page + j)
  frame : ∀ j, j < sizeofTrapFrame → j < 112 ∨ 120 ≤ j →
    k'.memory.bytes (trapFrameAddress stack + j)
      = k.memory.bytes ((k.process k.currentProc).tf + j)
  rax : k'.memory.bytes.readWord (trapFrameAddress stack + 112) = 0

/-- `Fork` with seven free pages makes a process, if the files can be shared. -/
theorem Owned.fork_cons {files : FileSystem}
    (h : Owned image k (a :: b :: c :: d :: p :: e :: f :: xs) L)
    (hq : Queued k.scheduler q (some k.currentProc) none) (hidle : k.currentProc ≠ idleSlot)
    (hfind : findFreeProcessSlot k.scheduler = some i)
    (hfiles : k.files.addReferences (k.process k.currentProc).openFiles = some files) :
  ∃ k', fork image k = some (k.scheduler.pidNum, k') ∧ k'.files = files
    ∧ Owned image k' xs (L.setSpace i ⟨b, c, d, e, f, p⟩)
    ∧ Forked k k' L i a ⟨b, c, d, e, f, p⟩
    ∧ Queued k'.scheduler (q.push .readyProcList i) (some k.currentProc) none
    ∧ k'.memory.bytes.readWord (contextAddress a + 6 * 8) = image.trapReturn
  := by
  obtain ⟨hunused, _, hi, hne⟩ := hq.free_slot hfind
  have hlive := hq.live_current hidle
  obtain ⟨m, m', hcreate, hcopy, hfree, hchange, hspace, hpage, hstarted⟩ :=
    h.fork_copy hq hidle hfind
  obtain ⟨_, _, hq', _⟩ := hq.createNewProcess hcreate
  have hchild := newProcess_process k.scheduler i a b
  have hcurrent : (k.scheduler.newProcess i a b).process k.currentProc
      = k.process k.currentProc := newProcess_of_ne (Ne.symm hne) _ _ _
  have hq₁ : Queued (Kernel.mk m' k.files (k.scheduler.newProcess i a b)).scheduler q
      (some k.currentProc) (some i) := hq'
  have hfiles₁ : k.files.addReferences
      ((k.scheduler.newProcess i a b).process k.currentProc).openFiles = some files := by
    rw [hcurrent]
    exact hfiles
  obtain ⟨k', hstart⟩ := hq₁.startFork_exists hne hfiles₁
  obtain ⟨hfiles', hproc, _, _, hothers, hself, hmemory, hqueued⟩ := hq₁.startFork hne hstart
  have hfork := fork_eq hcreate hcopy hstart
  have hstack : IsPage image a := h.free.isPage a List.mem_cons_self
  have htf : (k.process k.currentProc).tf = trapFrameAddress (k.process k.currentProc).stack :=
    h.tf k.currentProc hlive
  have hmemory' : k'.memory = (m'.copy (trapFrameAddress a) (k.process k.currentProc).tf
      sizeofTrapFrame).storeWord (trapFrameAddress a + 112) 0 := by
    rw [hmemory]
    show (m'.copy ((k.scheduler.newProcess i a b).process i).tf
      ((k.scheduler.newProcess i a b).process k.currentProc).tf sizeofTrapFrame).storeWord
      (((k.scheduler.newProcess i a b).process i).tf + 112) 0 = _
    rw [hchild, hcurrent]
  have hself' : k'.process i = { (k.scheduler.newProcess i a b).process i with
      file := (k.process k.currentProc).file, state := .ready } := by
    rw [hself]
    show ({ (k.scheduler.newProcess i a b).process i with
      file := ((k.scheduler.newProcess i a b).process k.currentProc).file
      state := .ready } : Process) = _
    rw [hcurrent]
  have hnodup := h.free.nodup
  have hpage' := h.free.isPage
  have hframe : Changes [a] m' k'.memory := by
    rw [hmemory']
    exact changes_copyTrapFrame m' a _
  have hps : [a, b, c, d, p, e, f] ⊆ a :: b :: c :: d :: p :: e :: f :: xs := by
    intro x hx
    simp only [List.mem_cons, List.not_mem_nil, or_false] at hx ⊢
    tauto
  have hall : Changes [a, b, c, d, p, e, f] k.memory k'.memory := by
    apply hchange.trans (hframe.mono _)
    simp
  have haligned : ∀ q ∈ [a], addrIsAligned q := by
    intro x hx
    rw [List.mem_singleton.mp hx]
    exact hstack.aligned
  have hapart : a ∉ b :: c :: d :: p :: e :: f :: xs := (List.nodup_cons.mp hnodup).1
  have hfree' : Free image k'.memory xs := by
    apply hfree.changes hframe (by rw [hmemory']; rfl) haligned
    intro x hx hmem
    rw [List.mem_singleton.mp hx] at hmem
    apply hapart
    simp [hmem]
  have hspace' : UserSpace k'.memory L.size ⟨b, c, d, e, f, p⟩ := by
    apply hspace.changes hframe haligned
    · intro x hx
      apply (hpage' x _).aligned
      simp only [Space.tables, List.mem_cons, List.not_mem_nil, or_false] at hx ⊢
      tauto
    · intro x hx hmem
      obtain rfl := List.mem_singleton.mp hmem
      apply hapart
      simp only [Space.tables, List.mem_cons, List.not_mem_nil, or_false] at hx ⊢
      tauto
  have hfiles'' : k'.files = files := Option.some.inj (hfiles'.symm.trans hfiles₁)
  have hothers' : ∀ j, j ≠ i → k'.process j = k.process j := by
    intro j hj
    exact (hothers j hj).trans (newProcess_of_ne hj _ _ _)
  refine ⟨k', ?_, hfiles'', ?_, ⟨?_, hself', hothers', hproc, ?_, ?_, ?_⟩, hqueued, ?_⟩
  · rw [hfork, hself', newProcess_process]
  · apply h.grow hi (not_live_of_unused hunused) _ _ _ hall hps hfree' _ hspace'
    · rw [hself', newProcess_process]
    · rw [hself', newProcess_process]
    · refine ⟨hi, ?_, ?_⟩
      · rw [hself']
        simp
      · rw [hself']
        simp
    · rw [hfiles'']
      exact FileSystem.SameDisk.addReferences hfiles
    · exact fun j hj => SamePages.of_process (hothers' j hj)
    · intro x
      rw [hself', newProcess_process]
      simp only [Space.pages, Space.tables, List.count_cons, List.count_nil]
      omega
  · apply hall.mono
    intro x hx
    simp only [Space.pages, Space.tables, List.mem_cons, List.not_mem_nil, or_false] at hx ⊢
    tauto
  · intro j hj
    rw [← hpage j hj]
    apply hframe.byte haligned (hpage' p (by simp)).aligned
    · intro hmem
      apply hapart
      rw [← List.mem_singleton.mp hmem]
      simp
    · exact ⟨Nat.le_add_right p j, Nat.add_lt_add_left hj p⟩
  · intro j hj hrax
    have hparent := h.stack_isPage hlive
    have hout : (k.process k.currentProc).stack ∉ a :: b :: c :: d :: p :: e :: f :: xs :=
      fun hmem => h.not_mem_held hmem (mem_held_of_live hlive List.mem_cons_self)
    have hsize : sizeofTrapFrame = 176 := rfl
    have hsplit := disjoint_of_aligned hstack.aligned hparent.aligned
      (fun e => hout (e ▸ List.mem_cons_self))
    have haddr := trapFrameAddress_eq (k.process k.currentProc).stack
    have hapart' : a + pageSize ≤ trapFrameAddress (k.process k.currentProc).stack
        ∨ trapFrameAddress (k.process k.currentProc).stack + sizeofTrapFrame ≤ a := by
      rw [pageSize_eq] at hsplit ⊢
      omega
    rw [hmemory', htf, byte_copyTrapFrame m' hapart' hj hrax]
    apply hchange.byte (fun x hx => (hpage' x (hps hx)).aligned) hparent.aligned
    · exact fun hmem => hout (hps hmem)
    · constructor
      · omega
      · rw [pageSize_eq]
        omega
  · rw [hmemory']
    exact readWord_copyTrapFrame m' a _
  · have hbelow : contextAddress a + 6 * 8 + 8 ≤ trapFrameAddress a := by
      rw [contextAddress_eq, trapFrameAddress_eq]
    rw [hmemory', readWord_copyTrapFrame_below m' hbelow]
    exact hstarted.readWord

/-- `Fork` with seven free pages shares the files. -/
theorem Owned.fork_references {ret : Int}
    (h : Owned image k (a :: b :: c :: d :: p :: e :: f :: xs) L)
    (hq : Queued k.scheduler q (some k.currentProc) none) (hidle : k.currentProc ≠ idleSlot)
    (hfind : findFreeProcessSlot k.scheduler = some i) (hfork : fork image k = some (ret, k')) :
  ∃ files, k.files.addReferences (k.process k.currentProc).openFiles = some files
  := by
  obtain ⟨_, _, _, hne⟩ := hq.free_slot hfind
  obtain ⟨m, m', hcreate, hcopy, _⟩ := h.fork_copy hq hidle hfind
  obtain ⟨_, _, hq', _⟩ := hq.createNewProcess hcreate
  obtain ⟨new, k₁, hcreate', hcases⟩ := fork_cases hfork
  obtain ⟨rfl, rfl⟩ := Prod.mk.inj (Option.some.inj (hcreate.symm.trans hcreate'))
  rcases hcases with ⟨hnone, _⟩ | ⟨j, copied, m₁, hsome, hcopy', hcases⟩
  · cases hnone
  · obtain rfl := Option.some.inj hsome
    obtain ⟨rfl, rfl⟩ := Prod.mk.inj (Option.some.inj (hcopy.symm.trans hcopy'))
    rcases hcases with ⟨hfalse, _⟩ | ⟨_, hstart, _⟩
    · cases hfalse
    · have hq₁ : Queued (Kernel.mk m' k.files (k.scheduler.newProcess i a b)).scheduler q
        (some k.currentProc) (some i) := hq'
      obtain ⟨hfiles, _⟩ := hq₁.startFork hne hstart
      have hcurrent : (k.scheduler.newProcess i a b).process k.currentProc
          = k.process k.currentProc := newProcess_of_ne (Ne.symm hne) _ _ _
      use k'.files
      rw [← hfiles]
      exact congrArg (fun p => k.files.addReferences (Process.openFiles p)) hcurrent.symm

/-! ### The outcomes of Fork -/

/-- The lists of a scheduler are determined by its links. -/
theorem Queued.eq_of_represents {s : Scheduler} {q' : Queues} {r d : Option Slot}
    (hq : Queued s q r d)
    (h : ∀ list, Represents s.links (.head list) ((q' list).map .proc)) :
  q' = q
  := by
  funext list
  apply List.map_injective_iff.mpr (fun a b hab => ListNode.proc.inj hab)
  exact (h list).unique (hq.holds.represents list)

/-- Nothing has changed besides the counter of pids and the order of the free list. -/
structure RolledBack (image : Image) (k k' : Kernel) : Prop where
  process : ∀ j, k'.process j = k.process j
  currentProc : k'.currentProc = k.currentProc
  lists : ∀ q : Queues, (∀ list, Represents k.scheduler.links (.head list) ((q list).map .proc)) →
    ∀ list, Represents k'.scheduler.links (.head list) ((q list).map .proc)
  files : k'.files = k.files
  pages : ∀ xs, Free image k.memory xs → ∃ ys, Free image k'.memory ys ∧ ys.Perm xs

theorem RolledBack.refl (k : Kernel) :
  RolledBack image k k
  where
  process _ := rfl
  currentProc := rfl
  lists _ h := h
  files := rfl
  pages xs h := ⟨xs, h, List.Perm.refl _⟩

/-- `Fork` takes pages and makes a process. -/
structure Copied (image : Image) (k k' : Kernel) (xs ys : List ℕ) (L : Layout) (q : Queues)
    (i : Slot) (stack : ℕ) (S : Space) : Prop where
  slot : findFreeProcessSlot k.scheduler = some i
  pages : xs = stack :: S.map :: S.pdpt :: S.pd :: S.page :: S.userPdpt :: S.userPd :: ys
  files : k.files.addReferences (k.process k.currentProc).openFiles = some k'.files
  owned : Owned image k' ys (L.setSpace i S)
  forked : Forked k k' L i stack S
  queued : Queued k'.scheduler (q.push .readyProcList i) (some k.currentProc) none

/-- `Fork` stops at `CopyUVM`: the slot of the new process stays `INITIALIZED`, and its
kernel stack is lost. -/
structure Leaked (image : Image) (k k' : Kernel) (xs ys : List ℕ) (L : Layout) (i : Slot)
    (stack : ℕ) : Prop where
  slot : findFreeProcessSlot k.scheduler = some i
  pages : ∀ x, ys.count x + [stack].count x ≤ xs.count x
  owned : Owned image k' ys L
  initialized : (k'.process i).state = .initialized
  others : ∀ j, j ≠ i → k'.process j = k.process j

/-- The pages of a new process come first in the free list. -/
theorem stackPages_subset (stack : ℕ) (S : Space) (ys : List ℕ) :
  stack :: S.pages
    ⊆ stack :: S.map :: S.pdpt :: S.pd :: S.page :: S.userPdpt :: S.userPd :: ys
  := by
  intro x hx
  simp only [Space.pages, Space.tables, List.mem_cons, List.not_mem_nil, or_false] at hx
  rcases hx with hx | hx | hx | hx | hx | hx | hx <;> simp [hx]

/-- `Fork` for every number of free pages. It changes only pages that were free, and a new
process is first resumed at `TrapReturn`. -/
theorem Owned.fork_changes {ret : Int} (h : Owned image k xs L)
    (hq : Queued k.scheduler q (some k.currentProc) none) (hidle : k.currentProc ≠ idleSlot)
    (hfork : fork image k = some (ret, k')) :
  Changes xs k.memory k'.memory
    ∧ ((findFreeProcessSlot k.scheduler = none ∨ xs.length < 4) ∧ ret = -enomem
        ∧ RolledBack image k k' ∧ (∃ ys, Owned image k' ys L)
      ∨ (∃ i ys stack, 4 ≤ xs.length ∧ xs.length < 7 ∧ ret = -enomem
        ∧ Leaked image k k' xs ys L i stack)
      ∨ ∃ i ys stack S, 7 ≤ xs.length ∧ ret = k.scheduler.pidNum
        ∧ Copied image k k' xs ys L q i stack S
        ∧ k'.memory.bytes.readWord (contextAddress stack + 6 * 8) = image.trapReturn)
  := by
  cases hfind : findFreeProcessSlot k.scheduler with
  | none =>
      rw [fork_full hfind] at hfork
      obtain ⟨rfl, rfl⟩ := Prod.mk.inj (Option.some.inj hfork)
      exact ⟨Changes.refl _ _, Or.inl ⟨Or.inl rfl, rfl, RolledBack.refl k, xs, h⟩⟩
  | some i =>
      rcases xs with _ | ⟨a, xs⟩
      · rw [h.fork_nil hq hfind] at hfork
        obtain ⟨rfl, rfl⟩ := Prod.mk.inj (Option.some.inj hfork)
        exact ⟨Changes.refl _ _, Or.inl ⟨Or.inr (by simp), rfl, RolledBack.refl k, [], h⟩⟩
      by_cases hlen : xs.length < 3
      · obtain ⟨k₁, ys, hrun, howned, hperm, hfiles, hscheduler, hchange⟩ :=
          h.fork_fail hq hfind hlen
        rw [hrun] at hfork
        obtain ⟨rfl, rfl⟩ := Prod.mk.inj (Option.some.inj hfork)
        refine ⟨hchange, Or.inl ⟨Or.inr (Nat.succ_lt_succ hlen), rfl, ?_, ys, howned⟩⟩
        obtain ⟨hunused, hzero, _, _⟩ := hq.free_slot hfind
        constructor
        · intro j
          rw [Kernel.process, hscheduler]
          exact clear_startProcess hzero a j
        · rw [Kernel.currentProc, hscheduler]
          rfl
        · intro q' hlists list
          obtain rfl := hq.eq_of_represents hlists
          rw [hscheduler]
          apply (hlists list).congr
          · intro y hy
            apply Function.update_of_ne
            rintro rfl
            have hmem : i ∈ q' list := by simpa using hy
            exact list.state_ne_unused ((hq.state list i hmem (by simp)).symm.trans hunused)
          · rfl
        · exact hfiles
        · intro zs hzs
          obtain rfl := h.free.unique hzs
          exact ⟨ys, howned.free, hperm⟩
      obtain ⟨b, c, d, xs, rfl⟩ : ∃ b c d zs, xs = b :: c :: d :: zs := by
        rcases xs with _ | ⟨b, _ | ⟨c, _ | ⟨d, zs⟩⟩⟩
        · simp at hlen
        · simp at hlen
        · simp at hlen
        · exact ⟨b, c, d, zs, rfl⟩
      by_cases hlen' : xs.length < 3
      · obtain ⟨k₁, ys, hrun, howned, hcount, _, hscheduler, hchange⟩ :=
          h.fork_leak hq hfind hlen'
        rw [hrun] at hfork
        obtain ⟨rfl, rfl⟩ := Prod.mk.inj (Option.some.inj hfork)
        refine ⟨hchange, Or.inr (Or.inl ⟨i, ys, a, ?_, ?_, rfl, hfind, hcount, howned, ?_, ?_⟩)⟩
        · simp
        · simp only [List.length_cons]
          omega
        · rw [Kernel.process, hscheduler, newProcess_process]
        · intro j hj
          rw [Kernel.process, hscheduler]
          exact newProcess_of_ne hj _ _ _
      obtain ⟨p, e, f, xs, rfl⟩ : ∃ p e f zs, xs = p :: e :: f :: zs := by
        rcases xs with _ | ⟨p, _ | ⟨e, _ | ⟨f, zs⟩⟩⟩
        · simp at hlen'
        · simp at hlen'
        · simp at hlen'
        · exact ⟨p, e, f, zs, rfl⟩
      obtain ⟨files, hfiles⟩ := h.fork_references hq hidle hfind hfork
      obtain ⟨k₁, hrun, hfiles', howned, hforked, hq', hreturn⟩ :=
        h.fork_cons hq hidle hfind hfiles
      rw [hrun] at hfork
      obtain ⟨rfl, rfl⟩ := Prod.mk.inj (Option.some.inj hfork)
      constructor
      · exact hforked.changes.mono (stackPages_subset a ⟨b, c, d, e, f, p⟩ xs)
      · refine Or.inr (Or.inr ⟨i, xs, a, _, ?_, rfl, ⟨hfind, rfl, ?_, howned, hforked, hq'⟩, hreturn⟩)
        · simp only [List.length_cons]
          omega
        · rw [hfiles', hfiles]

/-- `Fork` for every number of free pages. -/
theorem Owned.fork_outcome {ret : Int} (h : Owned image k xs L)
    (hq : Queued k.scheduler q (some k.currentProc) none) (hidle : k.currentProc ≠ idleSlot)
    (hfork : fork image k = some (ret, k')) :
  (findFreeProcessSlot k.scheduler = none ∨ xs.length < 4) ∧ ret = -enomem ∧ RolledBack image k k'
      ∧ (∃ ys, Owned image k' ys L)
    ∨ (∃ i ys stack, 4 ≤ xs.length ∧ xs.length < 7 ∧ ret = -enomem
      ∧ Leaked image k k' xs ys L i stack)
    ∨ ∃ i ys stack S, 7 ≤ xs.length ∧ ret = k.scheduler.pidNum
      ∧ Copied image k k' xs ys L q i stack S
  := by
  obtain ⟨_, hback | hleaked | ⟨i, ys, stack, S, hlen, hret, hcopied, _⟩⟩ :=
    h.fork_changes hq hidle hfork
  · exact Or.inl hback
  · exact Or.inr (Or.inl hleaked)
  · exact Or.inr (Or.inr ⟨i, ys, stack, S, hlen, hret, hcopied⟩)

/-- `Fork` keeps the pages apart, and the address spaces of the processes. -/
theorem Owned.fork {ret : Int} (h : Owned image k xs L)
    (hq : Queued k.scheduler q (some k.currentProc) none) (hidle : k.currentProc ≠ idleSlot)
    (hfork : fork image k = some (ret, k')) :
  ∃ ys L', Owned image k' ys L' ∧ ∀ j, k.Live j → L'.space j = L.space j
  := by
  rcases h.fork_outcome hq hidle hfork with
    ⟨_, _, _, ys, howned⟩ | ⟨i, ys, a, _, _, _, hleaked⟩ | ⟨i, ys, a, S, _, _, hcopied⟩
  · exact ⟨ys, L, howned, fun _ _ => rfl⟩
  · exact ⟨ys, L, hleaked.owned, fun _ _ => rfl⟩
  · refine ⟨ys, _, hcopied.owned, fun j hj => Layout.setSpace_of_ne L ?_ _⟩
    rintro rfl
    exact not_live_of_unused (state_of_findFreeProcessSlot hcopied.slot) hj

/-- The first slot that is not in use, when those in use are the first `n`. -/
theorem findFreeProcessSlot_of_used {n : ℕ} (hn : n < maximumNumberOfProcess)
    (hused : ∀ j, (k.process j).state = .unused ↔ n ≤ j.val) :
  findFreeProcessSlot k.scheduler = some ⟨n, hn⟩
  := by
  apply List.find?_eq_some_iff_getElem.mpr
  refine ⟨decide_eq_true ((hused ⟨n, hn⟩).mpr le_rfl), n, by simpa using hn, by simp, ?_⟩
  intro j hj
  have hj' : j < maximumNumberOfProcess := hj.trans hn
  have hstate : (k.process ⟨j, hj'⟩).state ≠ .unused := by
    rw [Ne, hused ⟨j, hj'⟩]
    exact Nat.not_le_of_lt hj
  simpa using hstate

/-- `Fork` with seven free pages takes the first slot that is not in use. -/
theorem Owned.forks {n : ℕ} {files : FileSystem} (h : Owned image k xs L)
    (hq : Queued k.scheduler q (some k.currentProc) none) (hidle : k.currentProc ≠ idleSlot)
    (hn : n < maximumNumberOfProcess) (hused : ∀ j, (k.process j).state = .unused ↔ n ≤ j.val)
    (hlen : 7 ≤ xs.length)
    (hfiles : k.files.addReferences (k.process k.currentProc).openFiles = some files) :
  ∃ k' ys L' stack S, LarvaOS.fork image k = some (k.scheduler.pidNum, k') ∧ k'.files = files
    ∧ xs.length = ys.length + 7 ∧ Owned image k' ys L' ∧ Forked k k' L ⟨n, hn⟩ stack S
    ∧ Queued k'.scheduler (q.push .readyProcList ⟨n, hn⟩) (some k.currentProc) none
    ∧ ∀ j, (k'.process j).state = .unused ↔ n + 1 ≤ j.val
  := by
  obtain ⟨a, b, c, d, p, e, f, ys, rfl⟩ :
      ∃ a b c d p e f zs, xs = a :: b :: c :: d :: p :: e :: f :: zs := by
    rcases xs with _ | ⟨a, _ | ⟨b, _ | ⟨c, _ | ⟨d, _ | ⟨p, _ | ⟨e, _ | ⟨f, zs⟩⟩⟩⟩⟩⟩⟩
    iterate 7 simp at hlen
    exact ⟨a, b, c, d, p, e, f, zs, rfl⟩
  obtain ⟨k', hfork, hfiles', howned', hforked, hq', _⟩ :=
    h.fork_cons hq hidle (findFreeProcessSlot_of_used hn hused) hfiles
  refine ⟨k', ys, _, a, _, hfork, hfiles', rfl, howned', hforked, hq', ?_⟩
  intro j
  by_cases hj : j = ⟨n, hn⟩
  · rw [hj, hforked.child]
    simp
  · have hne : j.val ≠ n := fun e => hj (Fin.ext e)
    rw [hforked.others j hj, hused j]
    omega

end Fork

end LarvaOS
