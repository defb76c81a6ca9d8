import LarvaOS.Kernel.Loading
import LarvaOS.Kernel.Traps

/-!
# Saved registers

While a process does not run, its registers lie on its kernel stack: the frame of its last trap at
`tf`, and the context of its last call of `ContextSwitch` at the address in the field `context`.
`Resting image k h r` says so of all processes that have a kernel stack, with the registers that
the history `h` has recorded; the process `r` runs, and its context does not matter.  Calls of the
kernel, `ContextSwitch` and the stores of running functions preserve it.
-/

namespace LarvaOS

variable {image : Image} {k k' : Kernel} {h h' : History} {i r : Slot} {xs : List ℕ} {L : Layout}
  {q : Queues} {op : Operation} {c : Cpu} {s s' : Core}

/-! ### The kernel stack of a process -/

/-- The addresses in the kernel stack of a process. -/
structure StackAddresses (k : Kernel) (i : Slot) : Prop where
  base : k.stackBase i = (k.process i).stack
  tf : (k.process i).tf + 176 = (k.process i).stack + 2097152
  stackEnd : k.stackEnd i = (k.process i).tf - 8
  context : contextAddress (k.process i).stack + 56 = (k.process i).tf
  aligned : (k.process i).stack % 2097152 = 0
  upper : (k.process i).stack + 2097152 ≤ 2 ^ 64

theorem Owned.stackAddresses (hk : Owned image k xs L) (hi : k.Live i) :
  StackAddresses k i
  := by
  have htf := hk.tf i hi
  have hpage := hk.stack_isPage hi
  have haligned : (k.process i).stack % pageSize = 0 := hpage.aligned
  have hend := hpage.end_le
  rw [trapFrameAddress_eq] at htf
  rw [pageSize_eq] at haligned hend
  constructor
  · exact Kernel.stackBase_of_ne hi.1
  · omega
  · exact if_neg hi.1
  · rw [contextAddress_eq]
    omega
  · exact haligned
  · exact hend

/-- Functions run inside the kernel stack. -/
theorem Owned.stackEnd_le (hk : Owned image k xs L) (hi : k.HasStack i) :
  k.stackEnd i < 2 ^ 64 ∧ k.stackEnd i ≤ k.stackBase i + pageSize
  := by
  rcases hi with rfl | hi
  · have hend : k.stackEnd idleSlot = kernelVirtualAddressBase + stackSize := if_pos rfl
    rw [hend, Kernel.stackBase_idle]
    unfold stackSize
    rw [kernelVirtualAddressBase_eq, pageSize_eq]
    omega
  · obtain ⟨hbase, htf, hend, _, _, hupper⟩ := hk.stackAddresses hi
    rw [hend, hbase, pageSize_eq]
    omega

/-- The frame of a process is the one of the history, and the handler of its trap returns to
`TrapReturn`. -/
structure Framed (image : Image) (k : Kernel) (h : History) (i : Slot) : Prop where
  frame : TrapFrame.load k.memory.bytes (k.process i).tf = h.saved i
  user : (h.saved i).cpu.ring = 3
  returns : k.memory.bytes.wordAt ((k.process i).tf - 8) = image.trapReturnWord

/-- The context that was saved when a process called `ContextSwitch` with the registers `c`. -/
structure Paused (image : Image) (k : Kernel) (i : Slot) (c : Cpu) : Prop where
  inKernel : Core.InKernel image c
  lower : k.stackBase i ≤ (k.process i).context
  upper : (k.process i).context + 56 ≤ k.stackEnd i
  words : k.memory.bytes.words (k.process i).context 7 = c.contextWords
  rsp : c.reg .rsp = UInt64.ofNat ((k.process i).context + 56)

/-- A process that does not run waits in `ContextSwitch`, or it is new. -/
structure Waits (image : Image) (k : Kernel) (h : History) (i : Slot) : Prop where
  paused : ∀ c, h.paused i = some c → Paused image k i c
  new : h.paused i = none →
    i ≠ idleSlot ∧ (k.process i).context = contextAddress (k.process i).stack

/-- The kernel while functions run on the kernel stack of the process `r`. -/
structure Resting (image : Image) (k : Kernel) (h : History) (r : Slot) : Prop where
  apart : ∃ xs L, Owned image k xs L
  consistent : Consistent k.scheduler
  runner : k.HasStack r
  rsp0 : k.currentProc ≠ idleSlot →
    k.scheduler.rsp0 = (k.process k.currentProc).stack + stackSize
  framed : ∀ i, k.Live i → Framed image k h i
  waits : ∀ i, k.HasStack i → i ≠ r → Waits image k h i

/-- The frame of a process whose bytes are unchanged. -/
theorem Framed.congr (hf : Framed image k h i) (hsame : SameFrame k k' i)
    (haddr : StackAddresses k i)
    (hbytes : ∀ x, InPage (k.stackBase i) x → k.stackEnd i ≤ x → k'.memory.bytes x = k.memory.bytes x)
    (hsaved : h'.saved i = h.saved i) :
  Framed image k' h' i
  := by
  obtain ⟨hbase, htf, hend, _, haligned, _⟩ := haddr
  have hbytes' : ∀ x, (k.process i).tf - 8 ≤ x → x < (k.process i).tf + 176 →
      k'.memory.bytes x = k.memory.bytes x := by
    intro x hx hlt
    apply hbytes x _ (by omega)
    rw [hbase]
    constructor
    · omega
    · rw [pageSize_eq]
      omega
  constructor
  · rw [hsame.tf, hsaved, ← hf.frame]
    apply TrapFrame.load_congr
    intro x hx hlt
    apply hbytes' x (by omega)
    exact hlt
  · rw [hsaved]
    exact hf.user
  · rw [hsame.tf, ← hf.returns]
    apply Bytes.wordAt_congr
    intro x hx hlt
    apply hbytes' x hx
    omega

theorem Framed.stores {m : Memory} (hf : Framed image k h i) (haddr : StackAddresses k i)
    (hbytes : ∀ x, InPage (k.stackBase i) x → k.stackEnd i ≤ x → m.bytes x = k.memory.bytes x)
    (hsaved : h'.saved i = h.saved i) :
  Framed image { k with memory := m } h' i
  := by
  have hsame : SameFrame k { k with memory := m } i := SameFrame.of_process rfl
  exact hf.congr hsame haddr hbytes hsaved

/-- The context of a process whose kernel stack is unchanged. -/
theorem Waits.congr (hw : Waits image k h i) (hsame : SameFrame k k' i)
    (hle : k.stackEnd i ≤ k.stackBase i + pageSize)
    (hbytes : ∀ x, InPage (k.stackBase i) x → k'.memory.bytes x = k.memory.bytes x)
    (hpaused : h'.paused i = h.paused i) :
  Waits image k' h' i
  := by
  constructor
  · intro c hc
    obtain ⟨hin, hlower, hupper, hwords, hrsp⟩ := hw.paused c (hpaused.symm.trans hc)
    constructor
    · exact hin
    · rwa [hsame.stackBase, hsame.context]
    · rwa [hsame.stackEnd, hsame.context]
    · rw [hsame.context, ← hwords]
      apply Bytes.words_congr
      intro x hx hlt
      apply hbytes
      constructor
      · omega
      · omega
    · rwa [hsame.context]
  · intro hnone
    obtain ⟨hidle, hcontext⟩ := hw.new (hpaused.symm.trans hnone)
    exact ⟨hidle, by rw [hsame.context, hsame.stack, hcontext]⟩

/-- Stores that leave the stacks of the other processes as they are. -/
theorem Resting.stores {m : Memory} (hr : Resting image k h r)
    (howned : ∃ xs L, Owned image { k with memory := m } xs L)
    (hbytes : ∀ i x, k.HasStack i → i ≠ r → InPage (k.stackBase i) x →
      m.bytes x = k.memory.bytes x)
    (hother : ∀ i, i ≠ r → h'.saved i = h.saved i ∧ h'.paused i = h.paused i)
    (hframed : k.Live r → Framed image { k with memory := m } h' r) :
  Resting image { k with memory := m } h' r
  where
  apart := howned
  consistent := hr.consistent
  runner := hr.runner
  rsp0 := hr.rsp0
  framed i hi := by
    by_cases e : i = r
    · subst e
      exact hframed hi
    · obtain ⟨xs, L, hk⟩ := hr.apart
      apply (hr.framed i hi).stores (hk.stackAddresses hi)
      · exact fun x hx _ => hbytes i x (Or.inr hi) e hx
      · exact (hother i e).1
  waits i hi hne := by
    obtain ⟨xs, L, hk⟩ := hr.apart
    have hsame : SameFrame k { k with memory := m } i := SameFrame.of_process rfl
    apply (hr.waits i hi hne).congr hsame (hk.stackEnd_le hi).2
    · exact fun x hx => hbytes i x hi hne hx
    · exact (hother i hne).2

/-! ### Calls of the kernel -/

namespace History

theorem fork_kept (hi : k.HasStack i) :
  (h.fork k k').saved i = h.saved i ∧ (h.fork k k').paused i = h.paused i
  := ⟨if_neg (fun hn => hn.1 hi), if_neg (fun hn => hn.1 hi)⟩

theorem fork_new (hi : ¬ k.HasStack i) (hi' : k'.HasStack i) :
  (h.fork k k').saved i = { h.saved k.currentProc with rax := 0 } ∧ (h.fork k k').paused i = none
  := ⟨if_pos ⟨hi, hi'⟩, if_pos ⟨hi, hi'⟩⟩

/-- A call does not change with which registers a process was stopped in `ContextSwitch`. -/
theorem called_paused (hi : k.HasStack i) :
  (h.called op k k').paused i = h.paused i
  := by
  have hfork : (h.fork k k').paused i = h.paused i := (fork_kept hi).2
  unfold called
  split
  · exact hfork
  · exact hfork

/-- The history depends on the current process and on the processes that have a kernel stack. -/
theorem called_congr {k₁ : Kernel} (hcurrent : k₁.currentProc = k'.currentProc)
    (hstack : ∀ i, k₁.HasStack i ↔ k'.HasStack i) :
  h.called op k k₁ = h.called op k k'
  := by
  have hrestart : op.Restarts k k₁ ↔ op.Restarts k k' := by
    unfold Operation.Restarts
    rw [hcurrent]
  have hfork : h.fork k k₁ = h.fork k k' := by
    unfold fork
    simp only [hstack]
  unfold called
  rw [hfork]
  simp only [hrestart]

end History

/-- The current process has a kernel stack. -/
theorem Consistent.hasStack (hq : Consistent k.scheduler) :
  k.HasStack k.currentProc
  := by
  obtain ⟨q, hq⟩ := hq
  by_cases hidle : k.currentProc = idleSlot
  · exact Or.inl hidle
  · exact Or.inr (hq.live_current hidle)

/-- The frame of the child of `Fork`. -/
theorem Framed.child (hf : Framed image k h k.currentProc) (haddr : StackAddresses k' i)
    (hchild : k.Child image k' i) (hsaved : h'.saved i = { h.saved k.currentProc with rax := 0 }) :
  Framed image k' h' i
  := by
  constructor
  · rw [hchild.frame, hf.frame, hsaved]
  · rw [hsaved]
    exact hf.user
  · have htf : (k'.process i).tf - 8 = contextAddress (k'.process i).stack + 6 * 8 := by
      have hcontext := haddr.context
      omega
    rw [htf]
    exact congrArg UInt64.ofNat hchild.returns

/-- The task state segment leads to the kernel stack of the current process. -/
theorem SetsTSS.rsp0 (ht : SetsTSS k.scheduler k'.scheduler)
    (hsame : k'.currentProc = k.currentProc → SameFrame k k' k.currentProc)
    (hk : k.currentProc ≠ idleSlot →
      k.scheduler.rsp0 = (k.process k.currentProc).stack + stackSize)
    (hidle : k'.currentProc ≠ idleSlot) :
  k'.scheduler.rsp0 = (k'.process k'.currentProc).stack + stackSize
  := by
  rcases ht with ht | ht
  · have hcurrent : k'.currentProc = k.currentProc := ht.currentProc
    rw [hcurrent] at hidle ⊢
    rw [(hsame hcurrent).stack, ← hk hidle]
    exact ht.rsp0
  · exact ht

/-- A call that stores to no kernel stack. -/
theorem Resting.forked (hr : Resting image k h k.currentProc)
    (howned : ∃ ys L', Owned image k' ys L') (hq : Consistent k'.scheduler)
    (hsame : SameStacks k k') (hstep : ProcessStep image k k')
    (htss : SetsTSS k.scheduler k'.scheduler) :
  Resting image k' (h.fork k k') k.currentProc
  := by
  obtain ⟨xs, L, hk⟩ := hr.apart
  have hrunner := hstep.current_hasStack hr.runner hq.hasStack
  constructor
  · exact howned
  · exact hq
  · exact hrunner
  · apply htss.rsp0 _ hr.rsp0
    intro _
    rcases hstep.kept_or_child hrunner with hkept | ⟨hnew, _⟩
    · exact hkept.2
    · exact absurd hr.runner hnew
  · intro i hi
    rcases hstep.kept_or_child (Or.inr hi) with ⟨hi', hframe⟩ | ⟨hnew, hchild⟩
    · have hlive := hi'.resolve_left hi.1
      apply (hr.framed i hlive).congr hframe (hk.stackAddresses hlive)
      · exact fun x hx _ => hsame i x hi' (Or.inr hi) hx
      · exact (History.fork_kept hi').1
    · obtain ⟨ys, L', hk'⟩ := howned
      have hlive := hr.runner.resolve_left hchild.parent
      exact (hr.framed _ hlive).child (hk'.stackAddresses hi) hchild
        (History.fork_new hnew (Or.inr hi)).1
  · intro i hi hne
    rcases hstep.kept_or_child hi with ⟨hi', hframe⟩ | ⟨hnew, hchild⟩
    · apply (hr.waits i hi' hne).congr hframe (hk.stackEnd_le hi').2
      · exact fun x hx => hsame i x hi' hi hx
      · exact (History.fork_kept hi').2
    · constructor
      · intro c hc
        rw [(History.fork_new hnew hi).2] at hc
        cases hc
      · intro _
        exact ⟨fun e => hnew (Or.inl e), hchild.context⟩

/-- The last part of `Exec` stores to the frame only. -/
theorem startExec_outside {x : ℕ} (hx : x < (k.process i).tf ∨ (k.process i).tf + 176 ≤ x) :
  (LarvaOS.startExec i k).memory.bytes x = k.memory.bytes x
  := by
  have hframe : sizeofTrapFrame = 176 := rfl
  unfold LarvaOS.startExec Memory.startTrapFrame Memory.storeWord
  dsimp only
  rw [Bytes.writeWord_of_outside (by omega), Bytes.writeWord_of_outside (by omega),
    Bytes.writeWord_of_outside (by omega), Bytes.writeWord_of_outside (by omega),
    Bytes.writeWord_of_outside (by omega)]
  apply memset_of_outside
  omega

/-- `Exec` restarts the process with the frame of a new program. -/
theorem Resting.restarted (hr : Resting image k h i) (hi : i ≠ idleSlot)
    (hother : ∀ j, j ≠ i → h'.saved j = h.saved j ∧ h'.paused j = h.paused j)
    (hsaved : h'.saved i = TrapFrame.user) :
  Resting image (LarvaOS.startExec i k) h' i
  := by
  obtain ⟨xs, L, hk⟩ := hr.apart
  have hlive := hr.runner.resolve_left hi
  have haddr := hk.stackAddresses hlive
  have hchange := Owned.startExec_changes (hk.tf i hlive)
  rw [← haddr.base] at hchange
  apply hr.stores (m := (LarvaOS.startExec i k).memory)
  · exact ⟨xs, L, hk.startExec hlive⟩
  · exact fun j x hj hne hx => hk.other_stack hr.runner hchange hj hne hx
  · exact hother
  · intro _
    constructor
    · rw [hsaved]
      exact startExec_frame k i
    · rw [hsaved]
      rfl
    · rw [← (hr.framed i hlive).returns]
      apply Bytes.wordAt_congr
      intro x _ hlt
      have hlt' : x < (k.process i).tf - 8 + 8 := hlt
      apply startExec_outside
      have htf := haddr.tf
      omega

/-- A call of a function of the kernel, up to `ContextSwitch`. -/
theorem Resting.called (hr : Resting image k h k.currentProc) (hop : op.entersKernel)
    (hallowed : Allowed op k) (hfits : Owned.Confined image op k)
    (hrun : k.step image op = some k') :
  Resting image k' (h.called op k k') k.currentProc
  := by
  obtain ⟨xs, L, hk⟩ := hr.apart
  obtain ⟨q, hq⟩ := hr.consistent
  have hconsistent := (Kernel.step_cases hq.current_used hallowed hrun).consistent ⟨q, hq⟩
  have htss := Kernel.step_setsTSS hop hrun
  obtain ⟨howned, ⟨hsame, hrestart⟩ | ⟨k₁, hidle, hrestart, hk₁, hsame, hfiles, rfl⟩⟩ :=
    hk.step_stacks hq hop hallowed hfits hrun
  · unfold History.called
    rw [if_neg hrestart]
    exact hr.forked howned hconsistent hsame (hk.processStep hq hallowed hrun) htss
  · unfold History.called
    rw [if_pos hrestart]
    have hr₁ : Resting image k₁ (h.fork k k₁) k.currentProc := by
      apply hr.forked ⟨xs, L, hk₁⟩ hconsistent hsame _ htss
      exact .schedules k₁.scheduler hfiles (SameResources.refl _)
    apply hr₁.restarted hidle
    · intro j hj
      exact ⟨Function.update_of_ne hj _ _, rfl⟩
    · exact Function.update_self _ _ _

/-! ### ContextSwitch -/

/-- `ContextSwitch` stores the address of a context. -/
theorem setContext_process (k : Kernel) (i j : Slot) (a : ℕ) :
  ∃ a', (k.setContext i a).process j = { k.process j with context := a' }
    ∧ (j ≠ i → a' = (k.process j).context)
  := by
  by_cases e : j = i
  · subst e
    exact ⟨a, Scheduler.setProcess_self _ _ _, fun hne => absurd rfl hne⟩
  · exact ⟨(k.process j).context, Scheduler.setProcess_of_ne e _ _, fun _ => rfl⟩

theorem Queued.setContext {d : Option Slot} (hq : Queued k.scheduler q d none)
    (hi : (k.process i).state ≠ .unused) (a : ℕ) :
  Queued (k.setContext i a).scheduler q d none
  := by
  have hprocess : ∀ j, ∃ a', (k.setContext i a).scheduler.process j
      = { k.scheduler.process j with context := a' } := by
    intro j
    obtain ⟨a', ha', _⟩ := setContext_process k i j a
    exact ⟨a', ha'⟩
  have hstate : ∀ j, ((k.setContext i a).scheduler.process j).state
      = (k.scheduler.process j).state := by
    intro j
    obtain ⟨a', ha'⟩ := hprocess j
    rw [ha']
  have hpid : ∀ j, ((k.setContext i a).scheduler.process j).pid = (k.scheduler.process j).pid := by
    intro j
    obtain ⟨a', ha'⟩ := hprocess j
    rw [ha']
  constructor
  · exact hq.holds
  · intro list j hj hd
    rw [hstate]
    exact hq.state list j hj hd
  · intro list j hidle hd hj
    rw [hstate] at hj
    rw [hpid]
    exact hq.mem list j hidle hd hj
  · intro j hidle hd
    rw [hstate]
    exact hq.running j hidle hd
  · intro j hd hj
    rw [hstate] at hj
    have hne : j ≠ i := by
      rintro rfl
      exact hi hj
    exact (Scheduler.setProcess_of_ne hne _ _).trans (hq.unused j hd hj)
  · exact hq.detached
  · exact hq.idle
  · rw [hstate]
    exact hq.idleState
  · rw [hpid]
    exact hq.idlePid
  · obtain ⟨a', ha'⟩ := hprocess k.scheduler.currentProc
    refine hq.pageMapRegister.trans ?_
    exact congrArg (fun p => switchVM p.pageMap) ha'.symm
  · exact hq.history

/-- The field `context` belongs to no page. -/
theorem Owned.setContext (hk : Owned image k xs L) (i : Slot) (a : ℕ) :
  Owned image (k.setContext i a) xs L
  := by
  have hmemory : (k.setContext i a).memory = k.memory := rfl
  apply hk.of_scheduler hmemory (FileSystem.SameDisk.refl _)
  intro j
  obtain ⟨a', ha', _⟩ := setContext_process k i j a
  constructor
  · unfold Kernel.Live
    rw [ha']
    rfl
  · intro _
    rw [ha']
  · intro _
    rw [ha']
  · intro _
    rw [ha']

/-- A process that has called `ContextSwitch` waits. -/
theorem Resting.pause {a : ℕ} (hr : Resting image k h r) (hc : Paused image (k.setContext r a) r c) :
  Resting image (k.setContext r a) (h.pause r c) k.currentProc
  := by
  obtain ⟨xs, L, hk⟩ := hr.apart
  obtain ⟨q, hq⟩ := hr.consistent
  have hused : (k.process r).state ≠ .unused := by
    rcases hr.runner with rfl | hlive
    · exact hq.idle_used
    · exact hlive.2.1
  have hconsistent : Consistent (k.setContext r a).scheduler := ⟨q, hq.setContext hused a⟩
  have hprocess := setContext_process k r
  have hlive : ∀ i, (k.setContext r a).Live i ↔ k.Live i := by
    intro i
    obtain ⟨a', ha', _⟩ := hprocess i a
    unfold Kernel.Live
    rw [ha']
    rfl
  constructor
  · exact ⟨xs, L, hk.setContext r a⟩
  · exact hconsistent
  · exact hconsistent.hasStack
  · intro hidle
    obtain ⟨a', ha', _⟩ := hprocess k.currentProc a
    exact (hr.rsp0 hidle).trans (congrArg (fun p => p.stack + stackSize) ha'.symm)
  · intro i hi
    obtain ⟨hframe, huser, hreturns⟩ := hr.framed i ((hlive i).mp hi)
    obtain ⟨a', ha', _⟩ := hprocess i a
    constructor
    · rw [ha']
      exact hframe
    · exact huser
    · rw [ha']
      exact hreturns
  · intro i hi hne
    by_cases e : i = r
    · subst e
      have hpaused : (h.pause i c).paused i = some c := Function.update_self _ _ _
      constructor
      · intro c' hc'
        rw [hpaused] at hc'
        exact Option.some.inj hc' ▸ hc
      · intro hnone
        rw [hpaused] at hnone
        cases hnone
    · obtain ⟨a', ha', hsame⟩ := hprocess i a
      have hi' : k.HasStack i := hi.imp_right (hlive i).mp
      have hframe : SameFrame k (k.setContext r a) i := by
        apply SameFrame.of_process
        rw [ha', hsame e]
      apply (hr.waits i hi' e).congr hframe (hk.stackEnd_le hi').2
      · exact fun _ _ => rfl
      · exact Function.update_of_ne e _ _

/-- `ContextSwitch` takes and gives no kernel stack. -/
theorem switch_hasStack (r i : Slot) (c : Cpu) (k : Kernel) :
  (Core.switch r c k).kernel.HasStack i ↔ k.HasStack i
  := by
  obtain ⟨b, a, hkernel⟩ := Core.switch_kernel r c k
  obtain ⟨a', ha', _⟩ := setContext_process (k.setBytes b) r i a
  unfold Kernel.HasStack Kernel.Live
  rw [hkernel, ha']
  rfl

/-- The registers with which a process goes on: those with which it called `ContextSwitch`, or, the
first time, those with which `TrapReturn` finds its frame. -/
structure Core.Resumes (image : Image) (s : Core) (h : History) : Prop where
  ring : s.cpu.ring = 0
  paused : ∀ c, h.paused s.current = some c →
    s.cpu.contextWords = c.contextWords ∧ s.cpu.reg .rsp = c.reg .rsp
  new : h.paused s.current = none → s.cpu.rip = image.trapReturnWord
    ∧ s.cpu.reg .rsp = UInt64.ofNat (s.kernel.process s.current).tf

/-- The address of a context ends its words. -/
theorem Cpu.rip_of_contextWords {ws : List UInt64} {v : UInt64} (hc : c.contextWords = ws ++ [v]) :
  c.rip = v
  := List.head_eq_of_cons_eq (List.append_inj' hc rfl).2

/-- The context of a waiting process is in its kernel stack. -/
theorem Waits.inStack (hw : Waits image k h i) (hk : Owned image k xs L) (hi : k.HasStack i) :
  k.stackBase i ≤ (k.process i).context
    ∧ (k.process i).context + 56 ≤ k.stackBase i + pageSize
    ∧ (k.process i).context + 56 ≤ 2 ^ 64
  := by
  cases hc : h.paused i with
  | some c =>
      obtain ⟨_, hlower, hupper, _, _⟩ := hw.paused c hc
      obtain ⟨hlt, hle⟩ := hk.stackEnd_le hi
      omega
  | none =>
      obtain ⟨hidle, hcontext⟩ := hw.new hc
      obtain ⟨hbase, htf, _, haddr, _, hupper⟩ := hk.stackAddresses (hi.resolve_left hidle)
      rw [hcontext, hbase, pageSize_eq]
      omega

/-- `ContextSwitch` away from `r`, which called it with the registers `c`. -/
theorem Resting.switch {a : ℕ} (hr : Resting image k h r) (hne : k.currentProc ≠ r)
    (hc : Core.InKernel image c) (hlo : k.stackBase r ≤ a) (hhi : a + 56 ≤ k.stackEnd r)
    (hrsp : c.reg .rsp = UInt64.ofNat (a + 56)) (hs : Core.switch r c k = s) :
  Resting image s.kernel (h.pause r c) s.current ∧ s.Resumes image h
    ∧ s.current = k.currentProc
  := by
  obtain ⟨xs, L, hk⟩ := hr.apart
  obtain ⟨hlt, hle⟩ := hk.stackEnd_le hr.runner
  have hn := hr.consistent.hasStack
  have hw := hr.waits _ hn hne
  obtain ⟨hdlo, hdhi, hdlt⟩ := hw.inStack hk hn
  generalize hd : (k.process k.currentProc).context = d at hdlo hdhi hdlt
  obtain ⟨t, ht, hcontext, hring, hresumed, hwords, houtside⟩ :=
    @contextSwitch_spec ⟨c.set .rsi (UInt64.ofNat d), k.memory.bytes, 0⟩ a d (by omega) hdlt
      hrsp (Cpu.set_self _ _ _)
  have hchange : Changes [k.stackBase r] k.memory { k.memory with bytes := t.bytes } := by
    apply Changes.of_page
    intro x hx
    apply houtside
    unfold InPage at hx
    omega
  have hother : ∀ i x, k.HasStack i → i ≠ r → InPage (k.stackBase i) x →
      t.bytes x = k.memory.bytes x :=
    fun i x hi hir hx => hk.other_stack hr.runner hchange hi hir hx
  have hstored : Resting image (k.setBytes t.bytes) h r := by
    apply hr.stores (m := { k.memory with bytes := t.bytes })
      ⟨xs, L, hk.stack_changes hr.runner hchange rfl⟩ hother (fun _ _ => ⟨rfl, rfl⟩)
    intro hlive
    apply (hr.framed r hlive).stores (hk.stackAddresses hlive) _ rfl
    intro x _ hx
    apply houtside
    omega
  have htoNat : t.context.toNat = a := by
    rw [hcontext]
    exact UInt64.toNat_ofNat_of_lt' (by omega : a < 2 ^ 64)
  have hs' : s = ⟨t.cpu, (k.setBytes t.bytes).setContext r a⟩ := by
    rw [← hs, ← htoNat, ← ht, ← hd]
    rfl
  have hself : (((k.setBytes t.bytes).setContext r a).process r).context = a :=
    congrArg Process.context (Scheduler.setProcess_self _ _ _)
  have hframe : ∀ i, ((k.setBytes t.bytes).setContext r a).stackBase i = k.stackBase i
      ∧ ((k.setBytes t.bytes).setContext r a).stackEnd i = k.stackEnd i := by
    intro i
    obtain ⟨a', ha', _⟩ := setContext_process (k.setBytes t.bytes) r i a
    unfold Kernel.stackBase Kernel.stackEnd
    rw [ha']
    exact ⟨rfl, rfl⟩
  have hpaused : Paused image ((k.setBytes t.bytes).setContext r a) r c := by
    constructor
    · exact hc
    · rwa [(hframe r).1, hself]
    · rwa [(hframe r).2, hself]
    · rw [hself]
      exact hwords
    · rwa [hself]
  have hd7 : t.bytes.words d 7 = k.memory.bytes.words d 7 := by
    apply Bytes.words_congr
    intro x hx hx'
    apply hother _ x hn hne
    constructor
    · omega
    · omega
  have htf : (((k.setBytes t.bytes).setContext r a).process k.currentProc).tf
      = (k.process k.currentProc).tf :=
    congrArg Process.tf (Scheduler.setProcess_of_ne hne _ _)
  have hregisters := hresumed.registers
  rw [hd7] at hregisters
  rw [hs']
  refine ⟨hstored.pause hpaused, ⟨hring.trans hc.1, ?_, ?_⟩, rfl⟩
  · intro c' hc'
    obtain ⟨_, _, _, hwords', hrsp'⟩ := hw.paused c' hc'
    rw [hd] at hwords' hrsp'
    exact ⟨hregisters.trans hwords', hresumed.rsp.trans hrsp'.symm⟩
  · intro hnone
    obtain ⟨hidle, hcontext'⟩ := hw.new hnone
    have hlive := hn.resolve_left hidle
    have haddr := (hk.stackAddresses hlive).context
    rw [← hcontext', hd] at haddr
    constructor
    · rw [Bytes.words_succ_last] at hregisters
      rw [Cpu.rip_of_contextWords hregisters, ← (hr.framed _ hlive).returns, ← haddr]
      exact congrArg k.memory.bytes.wordAt (by omega)
    · refine hresumed.rsp.trans ?_
      rw [haddr, ← htf]
      rfl

/-! ### Stores -/

/-- A program, or `SysRead`, stores a byte to the user page. -/
theorem Resting.userStore {m : Memory} {v : ℕ} {byte : UInt8}
    (hr : Resting image k h k.currentProc) (hidle : k.currentProc ≠ idleSlot)
    (hrun : k.memory.storeUser k.scheduler.cr3 v byte = some m
      ∨ InUserPage v ∧ k.memory.store k.scheduler.cr3 v byte = some m) :
  Resting image { k with memory := m } h k.currentProc
  := by
  obtain ⟨xs, L, hk⟩ := hr.apart
  obtain ⟨q, hq⟩ := hr.consistent
  have hlive := hq.live_current hidle
  have hpages := hk.space_isPage hlive
  have hspace := hk.space _ hlive
  have hstored : Changes [(L.space k.currentProc).page] k.memory m
      ∧ m.freePageHead = k.memory.freePageHead := by
    rw [hk.pageMapRegister hq hidle] at hrun
    rcases hrun with hrun | ⟨hv, hrun⟩
    · obtain ⟨hv, rfl⟩ := hspace.storeUser hk.kernelEnd.le hpages hrun
      exact ⟨UserSpace.changes_store hv byte, rfl⟩
    · have hstore := hspace.store hk.kernelEnd.le hpages hv byte
      obtain rfl := Option.some.inj (hrun.symm.trans hstore)
      exact ⟨UserSpace.changes_store hv byte, rfl⟩
  obtain ⟨howned, hsame⟩ := hk.user_stacks hlive hstored.1 hstored.2
  apply hr.stores ⟨xs, L, howned⟩ _ (fun _ _ => ⟨rfl, rfl⟩)
  · intro _
    apply (hr.framed _ hlive).stores (hk.stackAddresses hlive) _ rfl
    exact fun x hx _ => hsame _ x (Or.inr hlive) (Or.inr hlive) hx
  · exact fun i x hi _ hx => hsame i x hi hi hx

/-- A function stores a byte on its part of the kernel stack. -/
theorem Resting.push {offset : ℕ} {byte : UInt8} (hr : Resting image k h r)
    (hoffset : k.stackBase r + offset < k.stackEnd r) :
  Resting image
    (k.setBytes (Function.update k.memory.bytes (k.stackBase r + offset) byte)) h r
  := by
  obtain ⟨xs, L, hk⟩ := hr.apart
  obtain ⟨_, hle⟩ := hk.stackEnd_le hr.runner
  have hchange : Changes [k.stackBase r] k.memory { k.memory with
      bytes := Function.update k.memory.bytes (k.stackBase r + offset) byte } := by
    apply Changes.of_page
    intro x hx
    apply Function.update_of_ne
    rintro rfl
    apply hx
    constructor
    · omega
    · omega
  apply hr.stores ⟨xs, L, hk.stack_changes hr.runner hchange rfl⟩ _ (fun _ _ => ⟨rfl, rfl⟩)
  · intro hlive
    apply (hr.framed r hlive).stores (hk.stackAddresses hlive) _ rfl
    intro x _ hx
    apply Function.update_of_ne
    omega
  · exact fun i x hi hir hx => hk.other_stack hr.runner hchange hi hir hx

/-- `SystemCall` stores the result of a system call to the frame. -/
theorem Resting.setRax (hr : Resting image k h r) (hidle : r ≠ idleSlot) (v : UInt64) :
  Resting image { k with memory := k.memory.storeWord ((k.process r).tf + 112) v.toNat }
    (h.write r { h.saved r with rax := v.toNat }) r
  := by
  obtain ⟨xs, L, hk⟩ := hr.apart
  have hlive := hr.runner.resolve_left hidle
  obtain ⟨hbase, htf, _, _, _, _⟩ := hk.stackAddresses hlive
  obtain ⟨hframe, huser, hreturns⟩ := hr.framed r hlive
  have hsaved : (h.write r { h.saved r with rax := v.toNat }).saved r
      = { h.saved r with rax := v.toNat } := Function.update_self _ _ _
  have haddr : (k.process r).tf + 112 = k.stackBase r + 2097088 := by omega
  have hchange : Changes [k.stackBase r] k.memory
      (k.memory.storeWord ((k.process r).tf + 112) v.toNat) := by
    rw [haddr]
    apply Memory.changes_storeWord
    rw [pageSize_eq]
    decide
  apply hr.stores ⟨xs, L, hk.stack_changes hr.runner hchange rfl⟩
  · exact fun i x hi hir hx => hk.other_stack hr.runner hchange hi hir hx
  · exact fun i hne => ⟨Function.update_of_ne hne _ _, rfl⟩
  · intro _
    constructor
    · rw [hsaved, ← hframe, TrapFrame.load, TrapFrame.load, ← TrapFrame.ofWords_rax]
      apply TrapFrame.ofWords_congr
      intro i _
      exact TrapFrame.readWord_storeWord k.memory (k.process r).tf i 14 v.toNat_lt
    · rw [hsaved]
      exact huser
    · rw [← hreturns]
      apply Bytes.wordAt_congr
      intro x hx hlt
      have hlt' : x < (k.process r).tf - 8 + 8 := hlt
      apply Bytes.writeWord_of_outside
      omega

end LarvaOS
