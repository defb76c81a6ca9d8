import LarvaOS.Kernel.Exhaustion
import LarvaOS.Kernel.Lifetimes
import LarvaOS.Process.TrapFrame

/-!
# Kernel stacks

A process runs in the kernel on the page that `CreateNewProcess` took for it, and IDLE on the
first 2 MB of the kernel's memory, where `kernel.asm` starts the kernel.  The functions of the
kernel store to no kernel stack through a pointer, apart from `Exec`, which rewrites the trap
frame of its process, and `Fork`, which starts the stack of a new one, provided that the file
operations keep to the user page and to the temporary page.
-/

namespace LarvaOS

variable {image : Image} {k k' : Kernel} {q : Queues} {xs ys ps : List ℕ} {L : Layout} {i j : Slot}
  {op : Operation}

/-- The process of a slot has a kernel stack. -/
def Kernel.HasStack (k : Kernel) (i : Slot) : Prop := i = idleSlot ∨ k.Live i

/-- The start of the kernel stack of a slot. -/
def Kernel.stackBase (k : Kernel) (i : Slot) : ℕ :=
  if i = idleSlot then kernelVirtualAddressBase else (k.process i).stack

theorem Kernel.stackBase_idle (k : Kernel) :
  k.stackBase idleSlot = kernelVirtualAddressBase
  := if_pos rfl

theorem Kernel.stackBase_of_ne (hi : i ≠ idleSlot) :
  k.stackBase i = (k.process i).stack
  := if_neg hi

/-- The bytes of the kernel stacks that processes have before and after are the same. -/
def SameStacks (k k' : Kernel) : Prop :=
  ∀ i x, k.HasStack i → k'.HasStack i → InPage (k.stackBase i) x →
    k'.memory.bytes x = k.memory.bytes x

theorem SameStacks.of_memory (h : k'.memory = k.memory) :
  SameStacks k k'
  := by
  intro i x _ _ _
  rw [h]

/-- The operations that are calls of functions of the kernel; the others are stores. -/
def Operation.entersKernel : Operation → Bool
  | .store _ _ => false
  | .push _ _ => false
  | _ => true

/-- The operation is a call of `Exec`. -/
def Operation.isExec : Operation → Bool
  | .exec _ => true
  | _ => false

/-- The call is `Exec`, and the process goes on with the new program. -/
def Operation.Restarts (op : Operation) (k k' : Kernel) : Prop :=
  op.isExec ∧ k'.currentProc = k.currentProc

instance (op : Operation) (k k' : Kernel) : Decidable (op.Restarts k k') :=
  inferInstanceAs (Decidable (op.isExec ∧ k'.currentProc = k.currentProc))

namespace Owned

theorem stackBase_aligned (h : Owned image k xs L) (hi : k.HasStack i) :
  addrIsAligned (k.stackBase i)
  := by
  rcases hi with rfl | hi
  · rw [Kernel.stackBase_idle]
    unfold addrIsAligned
    rw [kernelVirtualAddressBase_eq, pageSize_eq]
  · rw [Kernel.stackBase_of_ne hi.1]
    exact (h.stack_isPage hi).aligned

/-- A page that is not the kernel stack of the process. -/
theorem ne_stackBase {p : ℕ} (hp : IsPage image p)
    (hne : k.Live i → p ≠ (k.process i).stack) (hi : k.HasStack i) :
  p ≠ k.stackBase i
  := by
  rcases hi with rfl | hi
  · have hlo := hp.kernel
    rw [Kernel.stackBase_idle]
    omega
  · rw [Kernel.stackBase_of_ne hi.1]
    exact hne hi

theorem free_ne_stack {p : ℕ} (h : Owned image k xs L) (hp : p ∈ xs) (hi : k.Live i) :
  p ≠ (k.process i).stack
  := by
  rintro rfl
  exact h.not_mem_held hp (mem_held_of_live hi List.mem_cons_self)

theorem space_ne_stack {p : ℕ} (h : Owned image k xs L) (hj : k.Live j)
    (hp : p ∈ (L.space j).pages) (hi : k.Live i) :
  p ≠ (k.process i).stack
  := by
  rintro rfl
  have hij : i = j := by
    apply h.slot_unique (p := (k.process i).stack)
    · rw [slotPages_of_live hi]
      exact List.mem_cons_self
    · rw [slotPages_of_live hj]
      exact List.mem_cons_of_mem _ hp
  subst hij
  have hnodup := (List.nodup_append.mp (h.slot_nodup i)).1
  rw [slotPages_of_live hi] at hnodup
  exact (List.nodup_cons.mp hnodup).1 hp

theorem stack_ne_stack (h : Owned image k xs L) (hj : k.Live j) (hij : i ≠ j) (hi : k.Live i) :
  (k.process j).stack ≠ (k.process i).stack
  := by
  intro heq
  apply hij
  apply h.slot_unique (p := (k.process i).stack)
  · rw [slotPages_of_live hi]
    exact List.mem_cons_self
  · rw [slotPages_of_live hj, heq]
    exact List.mem_cons_self

/-- The kernel stacks of two processes are different. -/
theorem stackBase_injective (h : Owned image k xs L) (hi : k.HasStack i) (hj : k.HasStack j)
    (hij : i ≠ j) :
  k.stackBase j ≠ k.stackBase i
  := by
  rcases hj with rfl | hj
  · apply Ne.symm
    have hi' : k.Live i := hi.resolve_left hij
    rw [Kernel.stackBase_of_ne hij]
    exact ne_stackBase (h.stack_isPage hi') (fun hlive => absurd rfl hlive.1) (Or.inl rfl)
  · rw [Kernel.stackBase_of_ne hj.1]
    exact ne_stackBase (h.stack_isPage hj) (h.stack_ne_stack hj hij) hi

/-- Changes of other pages leave a kernel stack as it is. -/
theorem stack_byte {m : Memory} {x : ℕ} (h : Owned image k xs L) (hc : Changes ps k.memory m)
    (hps : ∀ p ∈ ps, IsPage image p ∧ (k.Live i → p ≠ (k.process i).stack)) (hi : k.HasStack i)
    (hx : InPage (k.stackBase i) x) :
  m.bytes x = k.memory.bytes x
  := by
  apply hc.byte (fun p hp => (hps p hp).1.aligned) (h.stackBase_aligned hi) _ hx
  intro hmem
  exact ne_stackBase (hps _ hmem).1 (hps _ hmem).2 hi rfl

/-- The kernel changes free pages and user pages. -/
theorem same_stacks (h : Owned image k xs L) (hc : Changes ps k.memory k'.memory)
    (hps : ∀ p ∈ ps, p ∈ xs ∨ ∃ j, k.Live j ∧ p ∈ (L.space j).pages) :
  SameStacks k k'
  := by
  intro i x hi _ hx
  apply h.stack_byte hc _ hi hx
  intro p hp
  rcases hps p hp with hp | ⟨j, hj, hp⟩
  · exact ⟨h.free.isPage p hp, h.free_ne_stack hp⟩
  · exact ⟨h.space_isPage hj p hp, h.space_ne_stack hj hp⟩

/-- No page of the machine is the boot stack. -/
theorem ne_bootStack {p a : ℕ} (hp : IsPage image p) (ha : a ∈ [kernelVirtualAddressBase]) :
  a ≠ p
  := by
  have hlo := hp.kernel
  rw [List.mem_singleton.mp ha]
  omega

theorem bootStack_aligned {a : ℕ} (ha : a ∈ [kernelVirtualAddressBase]) :
  addrIsAligned a
  := by
  rw [List.mem_singleton.mp ha]
  unfold addrIsAligned
  rw [kernelVirtualAddressBase_eq, pageSize_eq]

/-- The boot stack is not one of the pages. -/
theorem bootStack_changes {m : Memory} (h : Owned image k xs L)
    (hc : Changes [kernelVirtualAddressBase] k.memory m)
    (hhead : m.freePageHead = k.memory.freePageHead) :
  Owned image { k with memory := m } xs L
  := by
  have hpage {p : ℕ} (hp : IsPage image p) : p ∉ [kernelVirtualAddressBase] :=
    fun hmem => ne_bootStack hp hmem rfl
  apply h.of_outside hc hhead (fun _ => bootStack_aligned)
  · exact fun p hp => hpage (h.free.isPage p hp)
  · exact fun p hp => hpage (h.isPage p (mem_held_of_kernel (idle_kernelPages p hp)))
  · exact fun i hi p hp => hpage (h.space_isPage hi p (List.mem_cons_of_mem _ hp))

/-- Stores to a kernel stack keep the pages apart. -/
theorem stack_changes {m : Memory} (h : Owned image k xs L) (hi : k.HasStack i)
    (hc : Changes [k.stackBase i] k.memory m) (hhead : m.freePageHead = k.memory.freePageHead) :
  Owned image { k with memory := m } xs L
  := by
  rcases hi with rfl | hi
  · rw [Kernel.stackBase_idle] at hc
    exact h.bootStack_changes hc hhead
  · rw [Kernel.stackBase_of_ne hi.1] at hc
    exact h.change_live hi (Or.inl rfl) hc hhead

/-- Stores to a kernel stack leave the others as they are. -/
theorem other_stack {m : Memory} {x : ℕ} (h : Owned image k xs L) (hj : k.HasStack j)
    (hc : Changes [k.stackBase j] k.memory m) (hi : k.HasStack i) (hij : i ≠ j)
    (hx : InPage (k.stackBase i) x) :
  m.bytes x = k.memory.bytes x
  := by
  apply hc.byte _ (h.stackBase_aligned hi) _ hx
  · intro p hp
    rw [List.mem_singleton.mp hp]
    exact h.stackBase_aligned hj
  · intro hmem
    exact h.stackBase_injective hi hj hij (List.mem_singleton.mp hmem).symm

/-- Stores to the user page of the current process keep the pages apart and store to no kernel
stack. -/
theorem user_stacks {m : Memory} (h : Owned image k xs L) (hlive : k.Live k.currentProc)
    (hc : Changes [(L.space k.currentProc).page] k.memory m)
    (hhead : m.freePageHead = k.memory.freePageHead) :
  Owned image { k with memory := m } xs L ∧ SameStacks k { k with memory := m }
  := by
  refine ⟨h.change_live hlive (Or.inr rfl) hc hhead,
    @same_stacks image k { k with memory := m } xs _ L h hc ?_⟩
  intro p hp
  rw [List.mem_singleton.mp hp]
  exact Or.inr ⟨k.currentProc, hlive, List.mem_cons_self⟩

/-! ### The file operations -/

theorem head_ne_zero {m : Memory} {a : ℕ} (h : Free image m (a :: xs)) :
  m.freePageHead ≠ 0
  := by
  rw [h.list.1]
  exact (h.isPage a List.mem_cons_self).ne_zero

/-- The file operations find no free page, or their requests fit. -/
def Confined (image : Image) (op : Operation) (k : Kernel) : Prop :=
  k.memory.freePageHead ≠ 0 → Fits image op k

theorem transfer_stacks {a : ℕ} (h : Owned image k (a :: xs) L) (hlive : k.Live k.currentProc)
    (hc : Changes [a, (L.space k.currentProc).page] k.memory k'.memory) :
  SameStacks k k'
  := by
  apply h.same_stacks hc
  intro p hp
  simp only [List.mem_cons, List.not_mem_nil, or_false] at hp
  rcases hp with rfl | rfl
  · exact Or.inl List.mem_cons_self
  · exact Or.inr ⟨k.currentProc, hlive, List.mem_cons_self⟩

theorem openFile_stacks {proc : Slot} {fileName : List UInt8} {ret : Int}
    (h : Owned image k xs L) (hproc : (k.process proc).state ≠ .unused)
    (hrun : LarvaOS.openFile image proc fileName k = some (ret, k')) :
  Owned image k' xs L ∧ SameStacks k k'
  := by
  cases xs with
  | nil =>
      obtain ⟨_, rfl⟩ := openFile_withoutPages h.free.list hrun
      exact ⟨h, SameStacks.of_memory rfl⟩
  | cons a xs =>
      refine ⟨h.openFile hproc hrun, h.same_stacks (h.openFile_memory hrun).1 ?_⟩
      intro p hp
      exact Or.inl (List.mem_singleton.mp hp ▸ List.mem_cons_self)

theorem readFile_stacks {fd size ret : Int} {buffer : ℕ} (h : Owned image k xs L)
    (hq : Queued k.scheduler q (some k.currentProc) none) (hidle : k.currentProc ≠ idleSlot)
    (hfits : Confined image (.readFile fd buffer size) k)
    (hrun : LarvaOS.readFile image k.currentProc fd buffer size k = some (ret, k')) :
  Owned image k' xs L ∧ SameStacks k k'
  := by
  cases xs with
  | nil =>
      obtain rfl := readFile_withoutPages h.free.list hrun
      exact ⟨h, SameStacks.of_memory rfl⟩
  | cons a xs =>
      have hfits' := (hfits (head_ne_zero h.free)).2
      exact ⟨h.readFile hq hidle hfits' hrun, h.transfer_stacks (hq.live_current hidle)
        (h.readFile_memory hq hidle hfits' hrun).1⟩

theorem lstat_stacks {statbuf : ℕ} {ret : Int} (h : Owned image k xs L)
    (hq : Queued k.scheduler q (some k.currentProc) none) (hidle : k.currentProc ≠ idleSlot)
    (hfits : Confined image (.lstat statbuf) k)
    (hrun : LarvaOS.lstat image statbuf k = some (ret, k')) :
  Owned image k' xs L ∧ SameStacks k k'
  := by
  cases xs with
  | nil =>
      have hsame := @lstat_withoutPages image k h.free.list statbuf
      obtain ⟨_, rfl⟩ := Prod.mk.inj (Option.some.inj (hsame.symm.trans hrun))
      exact ⟨h, SameStacks.of_memory rfl⟩
  | cons a xs =>
      obtain ⟨hlo, hhi⟩ := (hfits (head_ne_zero h.free)).2
      refine ⟨h.lstat hq hidle hlo hhi hrun, ?_⟩
      obtain ⟨m, rfl, hchange, _⟩ := h.lstat_memory hq hidle hlo hhi hrun
      exact h.transfer_stacks (hq.live_current hidle) hchange

/-- `Exec` up to its last part stores to no kernel stack. -/
theorem exec_stacks {filename : List UInt8} (h : Owned image k xs L)
    (hq : Queued k.scheduler q (some k.currentProc) none) (hidle : k.currentProc ≠ idleSlot)
    (hfits : Confined image (.exec filename) k)
    (hrun : LarvaOS.exec image k.currentProc filename k = some k') :
  ∃ k₁, Owned image k₁ xs L ∧ SameStacks k k₁ ∧ OnlyFiles k.scheduler k₁.scheduler
    ∧ (k₁.exit = some k' ∨ k' = LarvaOS.startExec k.currentProc k₁)
  := by
  cases xs with
  | nil =>
      exact ⟨k, h, SameStacks.of_memory rfl, OnlyFiles.refl _,
        Or.inl (exec_withoutPages h.free.list hrun)⟩
  | cons a xs =>
      obtain ⟨k₁, h₁, hchange, hfiles, hcases⟩ :=
        h.exec_memory hq hidle (hfits (head_ne_zero h.free)).2 hrun
      exact ⟨k₁, h₁, h.transfer_stacks (hq.live_current hidle) hchange, hfiles, hcases⟩

/-! ### Steps -/

theorem wait_stacks {pid : Int} (h : Owned image k xs L)
    (hq : Queued k.scheduler q (some k.currentProc) none) (hidle : k.currentProc ≠ idleSlot)
    (hrun : k.wait image pid = some k') :
  SameStacks k k'
  := by
  obtain ⟨ys, _, hmemory | ⟨j, hj, hzero, hchange⟩⟩ := h.wait_changes hq hidle hrun
  · exact SameStacks.of_memory hmemory
  · intro i x hi hi' hx
    apply h.stack_byte hchange _ hi hx
    have hij : k.Live i → i ≠ j := by
      rintro hlive rfl
      have hlive' := hi'.resolve_left hlive.1
      apply not_live_of_unused _ hlive'
      rw [hzero]
      rfl
    intro p hp
    refine ⟨h.isPage p (mem_held_of_live hj hp), fun hlive => ?_⟩
    rcases List.mem_cons.mp hp with rfl | hp
    · exact h.stack_ne_stack hj (hij hlive) hlive
    · exact h.space_ne_stack hj hp hlive

/-- The process that exits does not go on. -/
theorem exit_currentProc {s s' : Scheduler} (h : Queued s q (some s.currentProc) none)
    (hidle : s.currentProc ≠ idleSlot) (hrun : LarvaOS.exit s = some s') :
  s'.currentProc ≠ s.currentProc
  := by
  obtain ⟨s'', hrun', hcurrent, _, _, hq⟩ := h.exit hidle
  obtain rfl := Option.some.inj (hrun'.symm.trans hrun)
  intro heq
  have hmem : s.currentProc ∈ (Queued.exited s q).tail .killProcList := by
    have hkill : (Queued.exited s q).tail .killProcList = q .killProcList ++ [s.currentProc] := rfl
    rw [hkill]
    simp
  have hkilled := hq.state .killProcList _ hmem (by simp)
  have hrunning := (hq.running _ hidle (by simp)).mpr (congrArg some (hcurrent.symm.trans heq))
  exact ListHead.state_ne_running _ (hkilled.symm.trans hrunning)

/-- A call of a function of the kernel stores to no kernel stack, unless `Exec` restarts the
process. -/
theorem step_stacks (h : Owned image k xs L)
    (hq : Queued k.scheduler q (some k.currentProc) none) (hop : op.entersKernel)
    (hallowed : Allowed op k) (hfits : Confined image op k) (hrun : k.step image op = some k') :
  (∃ ys L', Owned image k' ys L')
    ∧ (SameStacks k k' ∧ ¬ op.Restarts k k'
      ∨ ∃ k₁, k.currentProc ≠ idleSlot ∧ op.Restarts k k' ∧ Owned image k₁ xs L ∧ SameStacks k k₁
        ∧ OnlyFiles k.scheduler k₁.scheduler ∧ k' = LarvaOS.startExec k.currentProc k₁)
  := by
  have howned (hfits : Fits image op k) : ∃ ys L', Owned image k' ys L' := by
    obtain ⟨ys, L', howned, _⟩ := h.step ⟨q, hq⟩ hallowed hfits hrun
    exact ⟨ys, L', howned⟩
  cases op with
  | yield =>
      obtain ⟨s, _, rfl⟩ := Kernel.schedule_eq_some.mp hrun
      exact ⟨howned trivial, Or.inl ⟨SameStacks.of_memory rfl, fun he => nomatch he.1⟩⟩
  | sleep waitId =>
      obtain ⟨s, _, rfl⟩ := Kernel.schedule_eq_some.mp hrun
      exact ⟨howned trivial, Or.inl ⟨SameStacks.of_memory rfl, fun he => nomatch he.1⟩⟩
  | wakeup waitId =>
      obtain ⟨s, _, rfl⟩ := Kernel.schedule_eq_some.mp hrun
      exact ⟨howned trivial, Or.inl ⟨SameStacks.of_memory rfl, fun he => nomatch he.1⟩⟩
  | exit =>
      obtain ⟨s, _, rfl⟩ := Kernel.exit_eq_some.mp hrun
      exact ⟨howned trivial, Or.inl ⟨SameStacks.of_memory rfl, fun he => nomatch he.1⟩⟩
  | wait pid =>
      exact ⟨howned trivial,
        Or.inl ⟨h.wait_stacks hq (hallowed rfl) hrun, fun he => nomatch he.1⟩⟩
  | fork =>
      obtain ⟨⟨ret, k₁⟩, hfork, rfl⟩ := Option.map_eq_some_iff.mp hrun
      refine ⟨howned trivial, Or.inl ⟨?_, fun he => nomatch he.1⟩⟩
      apply h.same_stacks (h.fork_changes hq (hallowed rfl) hfork).1
      exact fun p hp => Or.inl hp
  | openFile fileName =>
      obtain ⟨⟨ret, k₁⟩, hopen, rfl⟩ := Option.map_eq_some_iff.mp hrun
      obtain ⟨howned', hsame⟩ := h.openFile_stacks hq.current_used hopen
      exact ⟨⟨xs, L, howned'⟩, Or.inl ⟨hsame, fun he => nomatch he.1⟩⟩
  | closeFile fd =>
      refine ⟨howned trivial, Or.inl ⟨SameStacks.of_memory ?_, fun he => nomatch he.1⟩⟩
      rcases closeFile_cases hrun with rfl | ⟨i, d, files, _, _, _, rfl⟩
      · rfl
      · rfl
  | readFile fd buffer size =>
      obtain ⟨⟨ret, k₁⟩, hread, rfl⟩ := Option.map_eq_some_iff.mp hrun
      obtain ⟨howned', hsame⟩ := h.readFile_stacks hq (hallowed rfl) hfits hread
      exact ⟨⟨xs, L, howned'⟩, Or.inl ⟨hsame, fun he => nomatch he.1⟩⟩
  | lstat statbuf =>
      obtain ⟨⟨ret, k₁⟩, hlstat, rfl⟩ := Option.map_eq_some_iff.mp hrun
      obtain ⟨howned', hsame⟩ := h.lstat_stacks hq (hallowed rfl) hfits hlstat
      exact ⟨⟨xs, L, howned'⟩, Or.inl ⟨hsame, fun he => nomatch he.1⟩⟩
  | exec filename =>
      have hidle := hallowed rfl
      obtain ⟨k₁, h₁, hsame, hfiles, hexit | rfl⟩ := h.exec_stacks hq hidle hfits hrun
      · have hq₁ := hfiles.queued hq
        have hcurrent : k₁.currentProc = k.currentProc := hfiles.currentProc
        rw [← hcurrent] at hq₁ hidle
        refine ⟨⟨xs, L, h₁.exit hq₁ hidle hexit⟩, Or.inl ⟨?_, ?_⟩⟩
        · obtain ⟨s, _, rfl⟩ := Kernel.exit_eq_some.mp hexit
          intro i x hi _ hx
          exact hsame i x hi (hi.imp_right (hfiles.samePages i).live.mpr) hx
        · obtain ⟨s, hs, rfl⟩ := Kernel.exit_eq_some.mp hexit
          exact fun he => exit_currentProc hq₁ hidle hs (he.2.trans hcurrent.symm)
      · have howned' := h₁.startExec ((hfiles.samePages _).live.mpr (hq.live_current hidle))
        exact ⟨⟨xs, L, howned'⟩, Or.inr ⟨k₁, hidle, ⟨rfl, hfiles.currentProc⟩, h₁, hsame, hfiles, rfl⟩⟩
  | store v c => cases hop
  | push offset c => cases hop

end Owned

end LarvaOS
