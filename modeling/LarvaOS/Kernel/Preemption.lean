import LarvaOS.Kernel.Contexts
import LarvaOS.Kernel.Pointers

/-!
# Preemption

Programs do not notice that they are stopped.  While a process does not run, the frame of its last
trap lies at `tf`, the context of its last call of `ContextSwitch` lies where the field `context`
says, and nothing is stored there; so the process goes on with the registers with which it was
stopped.  This holds in runs in which `SysRead` stores keys to the user page only, and the
requests of the file operations fit.  Otherwise a program makes the kernel overwrite its frame.
-/

namespace LarvaOS

variable {image : Image} {k k' : Kernel} {h h' : History} {i r : Slot} {xs : List ℕ} {L : Layout}
  {q : Queues} {op : Operation} {c : Cpu} {s s' : Core}

/-! ### Traps -/

/-- The registers agree with the place where the processor is: a program runs, or a function of the
kernel, or `TrapReturn` is next and finds the frame of the process. -/
inductive Mode (image : Image) (s : Core) : Prop where
  | program (hring : s.cpu.ring = 3) (hidle : s.current ≠ idleSlot)
  | kernel (hc : Core.InKernel image s.cpu)
  | leaving (hc : Core.AtTrapReturn image s.cpu) (hidle : s.current ≠ idleSlot)
      (hrsp : s.cpu.reg .rsp = UInt64.ofNat (s.kernel.process s.current).tf)

/-- The invariant of the steps. -/
structure Sound (image : Image) (s : Core) (h : History) : Prop where
  resting : Resting image s.kernel h s.current
  mode : Mode image s

/-- A trap leaves the registers of the program in the trap frame, at the top of the kernel stack,
and calls `InterruptHandler` with the address of the frame. -/
structure Core.Trapped (entry : Entry image) (s : Core) (number : ℕ) (errorCode : UInt64)
    (s' : Core) : Prop where
  top : (s.kernel.process s.current).tf + sizeofTrapFrame
    = (s.kernel.process s.current).stack + stackSize
  frame : TrapFrame.load s'.kernel.memory.bytes (s.kernel.process s.current).tf
    = s.cpu.trapFrame (UInt64.ofNat number) (frameErrorCode number errorCode)
  rdi : s'.cpu.reg .rdi = UInt64.ofNat (s.kernel.process s.current).tf
  inKernel : Core.InKernel image s'.cpu
  rip : s'.cpu.rip = entry.interruptHandler
  rsp : s'.cpu.reg .rsp = UInt64.ofNat ((s.kernel.process s.current).tf - 8)

theorem Mode.ne_idle (hm : Mode image s) (hring : s.cpu.ring = 3) :
  s.current ≠ idleSlot
  := by
  cases hm with
  | program _ hidle => exact hidle
  | kernel hc => exact absurd (hring.symm.trans hc.1) (by decide)
  | leaving _ hidle _ => exact hidle

theorem Sound.trap {entry : Entry image} {number : ℕ} {errorCode : UInt64} (hs : Sound image s h)
    (hrun : s.step entry (.interrupt number errorCode) = some s') :
  s.Trapped entry number errorCode s'
    ∧ Sound image s' (h.next (.interrupt number errorCode) s s')
  := by
  obtain ⟨hring, hrun⟩ := Option.ite_none_right_eq_some.mp hrun
  obtain ⟨code, hcode, rfl⟩ := Option.map_eq_some_iff.mp hrun
  have hr := hs.resting
  obtain ⟨xs, L, hk⟩ := hr.apart
  have hidle := hs.mode.ne_idle hring
  have hlive := hr.runner.resolve_left hidle
  obtain ⟨hbase, htf, hend, _, haligned, hupper⟩ := hk.stackAddresses hlive
  have hsize : sizeofTrapFrame = 176 := rfl
  have htop : (s.kernel.process s.current).tf + sizeofTrapFrame
      = (s.kernel.process s.current).stack + stackSize := by
    unfold stackSize
    rw [pageSize_eq]
    omega
  obtain ⟨t, ht, hzero, hrip, hrdi, hrsp, hreturns, hframe, houtside⟩ := @enter_spec s.execution number
    (s.kernel.process s.current).tf code errorCode entry.interruptHandler image.trapReturnWord hcode
    (by omega) (by omega) (by omega)
  have hrsp0 : s.kernel.scheduler.rsp0
      = (s.kernel.process s.current).tf + sizeofTrapFrame := (hr.rsp0 hidle).trans htop.symm
  rw [hrsp0, ht]
  have hsaved : (h.next (.interrupt number errorCode) s (s.executed t)).saved s.current
      = s.cpu.trapFrame (UInt64.ofNat number) (frameErrorCode number errorCode) :=
    Function.update_self _ _ _
  have hchange : Changes [s.kernel.stackBase s.current] s.kernel.memory
      { s.kernel.memory with bytes := t.bytes } := by
    apply Changes.of_page
    intro x hx
    apply houtside
    unfold InPage at hx
    rw [hbase, pageSize_eq] at hx
    omega
  have hin : Core.InKernel image t.cpu := by
    refine ⟨hzero, ?_⟩
    rw [hrip]
    exact entry.apart
  refine ⟨⟨htop, hframe, hrdi, hin, hrip, hrsp⟩, ?_, .kernel hin⟩
  · apply hr.stores (m := { s.kernel.memory with bytes := t.bytes })
      ⟨xs, L, hk.stack_changes hr.runner hchange rfl⟩
    · exact fun i x hi hir hx => hk.other_stack hr.runner hchange hi hir hx
    · exact fun i hne => ⟨Function.update_of_ne hne _ _, rfl⟩
    · intro _
      constructor
      · exact hframe.trans hsaved.symm
      · rw [hsaved, Cpu.cpu_trapFrame]
        exact hring
      · exact hreturns

/-- `TrapReturn` with the stack pointer at a frame. -/
theorem Core.step_trapReturn {entry : Entry image} {tf : ℕ} (hc : Core.AtTrapReturn image s.cpu)
    (htf : tf + sizeofTrapFrame ≤ 2 ^ 64) (hrsp : s.cpu.reg .rsp = UInt64.ofNat tf) :
  s.step entry .trapReturn
    = some ⟨(TrapFrame.load s.kernel.memory.bytes tf).cpu, s.kernel⟩
  := by
  have hrun : run LarvaOS.trapReturn s.execution = { s.execution with
      cpu := (TrapFrame.load s.kernel.memory.bytes tf).cpu } := trapReturn_spec htf hrsp
  refine (if_pos hc).trans ?_
  rw [hrun]
  rfl

/-- `InterruptHandler` returns to `TrapReturn`. -/
theorem Core.step_handlerReturn {entry : Entry image} {tf : ℕ} (hc : Core.InKernel image s.cpu)
    (hlo : 8 ≤ tf) (hhi : tf < 2 ^ 64) (hrsp : s.cpu.reg .rsp = UInt64.ofNat (tf - 8))
    (hword : s.kernel.memory.bytes.wordAt (tf - 8) = image.trapReturnWord) :
  ∃ c, s.step entry .handlerReturn = some ⟨c, s.kernel⟩ ∧ Core.AtTrapReturn image c
    ∧ c.reg .rsp = UInt64.ofNat tf
  := by
  have haddr : s.execution.rsp.toNat = tf - 8 := by
    refine (congrArg UInt64.toNat hrsp).trans ?_
    exact UInt64.toNat_ofNat_of_lt' (by omega : tf - 8 < 2 ^ 64)
  have hrip : s.execution.stackWord 0 = image.trapReturnWord := by
    rw [← hword]
    exact congrArg s.kernel.memory.bytes.wordAt haddr
  have hsp : s.cpu.reg .rsp + 8 = UInt64.ofNat tf := by
    rw [hrsp]
    refine (UInt64.ofNat_add (tf - 8) 8).symm.trans ?_
    exact congrArg UInt64.ofNat (by omega)
  refine ⟨(run [.ret] s.execution).cpu, if_pos hc, ⟨hc.1, hrip⟩, ?_⟩
  exact (Cpu.set_self s.cpu .rsp (s.cpu.reg .rsp + 8)).trans hsp

/-- `TrapReturn` restores the registers of the program from the frame. -/
theorem Sound.trapReturn {entry : Entry image} (hs : Sound image s h)
    (hrun : s.step entry .trapReturn = some s') :
  s'.cpu = (h.saved s.current).cpu ∧ Sound image s' h
  := by
  obtain ⟨hc, _⟩ := Option.ite_none_right_eq_some.mp hrun
  have hr := hs.resting
  obtain ⟨xs, L, hk⟩ := hr.apart
  have hleaving : s.current ≠ idleSlot
      ∧ s.cpu.reg .rsp = UInt64.ofNat (s.kernel.process s.current).tf := by
    cases hs.mode with
    | program hring _ => exact absurd (hc.1.symm.trans hring) (by decide)
    | kernel hin => exact absurd hc.2 hin.2
    | leaving _ hidle hrsp => exact ⟨hidle, hrsp⟩
  obtain ⟨hidle, hrsp⟩ := hleaving
  have hlive := hr.runner.resolve_left hidle
  obtain ⟨_, htf, _, _, _, hupper⟩ := hk.stackAddresses hlive
  obtain ⟨hframe, huser, _⟩ := hr.framed _ hlive
  have hsize : sizeofTrapFrame = 176 := rfl
  have hstep : s.step entry .trapReturn = some _ := Core.step_trapReturn hc (by omega) hrsp
  obtain rfl := Option.some.inj (hstep.symm.trans hrun)
  rw [hframe]
  exact ⟨rfl, hr, .program huser hidle⟩

/-- `InterruptHandler` returns to the frame of the process. -/
theorem Sound.handlerReturn {entry : Entry image} (hs : Sound image s h)
    (hidle : s.current ≠ idleSlot)
    (hrsp : s.cpu.reg .rsp = UInt64.ofNat ((s.kernel.process s.current).tf - 8))
    (hrun : s.step entry .handlerReturn = some s') :
  Sound image s' h
  := by
  obtain ⟨hc, _⟩ := Option.ite_none_right_eq_some.mp hrun
  have hr := hs.resting
  obtain ⟨xs, L, hk⟩ := hr.apart
  have hlive := hr.runner.resolve_left hidle
  obtain ⟨_, htf, _, _, _, hupper⟩ := hk.stackAddresses hlive
  obtain ⟨c, hstep, hat, hsp⟩ := @Core.step_handlerReturn image s entry _ hc (by omega) (by omega)
    hrsp (hr.framed _ hlive).returns
  obtain rfl := Option.some.inj (hstep.symm.trans hrun)
  exact ⟨hr, .leaving hat hidle hsp⟩

/-- The registers after `ContextSwitch` agree with the place where the process goes on. -/
theorem Core.Resumes.mode (hs : s.Resumes image h) (hw : Waits image k h s.current) :
  Mode image s
  := by
  cases hc : h.paused s.current with
  | some c =>
      obtain ⟨hwords, _⟩ := hs.paused c hc
      have hrip : s.cpu.rip = c.rip := Cpu.rip_of_contextWords hwords
      refine .kernel ⟨hs.ring, ?_⟩
      rw [hrip]
      exact (hw.paused c hc).inKernel.2
  | none =>
      obtain ⟨hrip, hrsp⟩ := hs.new hc
      exact .leaving ⟨hs.ring, hrip⟩ (hw.new hc).1 hrsp

/-- A call of a function of the kernel. When it chooses another process, `ContextSwitch` resumes
that process. -/
theorem Sound.call {entry : Entry image} (hs : Sound image s h)
    (hallowed : Allowed op s.kernel) (hstack : s.OnStack image c)
    (hfits : Owned.Confined image op s.kernel) (hrun : s.step entry (.call op c) = some s') :
  Sound image s' (h.next (.call op c) s s')
    ∧ (s'.current ≠ s.current → s'.Resumes image h)
  := by
  obtain ⟨⟨_, hop⟩, hrun⟩ := Option.ite_none_right_eq_some.mp hrun
  obtain ⟨k', hstep, rfl⟩ := Option.map_eq_some_iff.mp hrun
  obtain ⟨hin, a, hlo, hhi, hrsp⟩ := hstack
  have hr : Resting image s.kernel h s.kernel.currentProc := hs.resting
  have hcalled := hr.called hop hallowed hfits hstep
  obtain ⟨q, hq⟩ := hr.consistent
  obtain ⟨xs, L, hk⟩ := hr.apart
  have hprocess := hk.processStep hq hallowed hstep
  by_cases hcurrent : k'.currentProc = s.kernel.currentProc
  · have hafter : Core.afterCall s.current c k' = ⟨c, k'⟩ := if_pos hcurrent
    rw [hafter]
    have hnext : h.next (.call op c) s ⟨c, k'⟩ = h.called op s.kernel k' := if_pos hcurrent
    rw [hnext]
    refine ⟨⟨?_, .kernel hin⟩, fun hne => absurd hcurrent hne⟩
    rw [← hcurrent] at hcalled
    exact hcalled
  · have hafter : Core.afterCall s.current c k' = Core.switch s.current c k' := if_neg hcurrent
    have hkept : Kept s.kernel k' s.kernel.currentProc := by
      rcases hprocess.kept_or_child hcalled.runner with hkept | ⟨hnew, _⟩
      · exact hkept
      · exact absurd hr.runner hnew
    rw [hafter]
    generalize ht : Core.switch s.current c k' = t
    have hstack (i : Slot) : t.kernel.HasStack i ↔ k'.HasStack i := by
      rw [← ht]
      exact switch_hasStack s.current i c k'
    obtain ⟨hresting, hresumes, htcurrent⟩ := hcalled.switch hcurrent hin
      (hkept.2.stackBase.symm ▸ hlo) (hkept.2.stackEnd.symm ▸ hhi) hrsp ht
    have hnext : h.next (.call op c) s t
        = (h.called op s.kernel k').pause s.kernel.currentProc c := by
      rw [← History.called_congr htcurrent hstack]
      exact if_neg (fun heq => hcurrent (htcurrent.symm.trans heq))
    have hrunning : k'.HasStack k'.currentProc := by
      rw [← hstack, ← htcurrent]
      exact hresting.runner
    have hpaused : (h.called op s.kernel k').paused t.current = h.paused t.current := by
      rw [htcurrent]
      exact History.called_paused (hprocess.switched_hasStack hrunning hcurrent)
    have hwaits : Waits image k' (h.called op s.kernel k') t.current := by
      rw [htcurrent]
      exact hcalled.waits _ hrunning hcurrent
    rw [hnext]
    refine ⟨⟨hresting, hresumes.mode hwaits⟩, fun _ => ⟨hresumes.ring, ?_, ?_⟩⟩
    · exact fun c' hc' => hresumes.paused c' (hpaused.trans hc')
    · exact fun hnone => hresumes.new (hpaused.trans hnone)

/-- Every step in bounds keeps the invariant. -/
theorem Sound.step {entry : Entry image} {event : CoreEvent} (hs : Sound image s h)
    (hconventional : event.Conventional image s) (hbounds : event.StaysInBounds image s)
    (hrun : s.step entry event = some s') :
  Sound image s' (h.next event s s')
  := by
  have hr : Resting image s.kernel h s.kernel.currentProc := hs.resting
  cases event with
  | user c =>
      obtain ⟨⟨hring, hring'⟩, hrun⟩ := Option.ite_none_right_eq_some.mp hrun
      obtain rfl := Option.some.inj hrun
      exact ⟨hr, .program hring' (hs.mode.ne_idle hring)⟩
  | store v byte =>
      obtain ⟨hring, hrun⟩ := Option.ite_none_right_eq_some.mp hrun
      obtain ⟨m, hm, rfl⟩ := Option.map_eq_some_iff.mp hrun
      have hidle := hs.mode.ne_idle hring
      exact ⟨hr.userStore hidle (Or.inl hm), .program hring hidle⟩
  | interrupt number errorCode => exact (hs.trap hrun).2
  | code c =>
      obtain ⟨_, hrun⟩ := Option.ite_none_right_eq_some.mp hrun
      obtain rfl := Option.some.inj hrun
      exact ⟨hr, .kernel hconventional⟩
  | push offset byte =>
      obtain ⟨hin, hrun⟩ := Option.ite_none_right_eq_some.mp hrun
      obtain rfl := Option.some.inj hrun
      exact ⟨hr.push hconventional, .kernel hin⟩
  | keyStore v byte =>
      obtain ⟨hin, hrun⟩ := Option.ite_none_right_eq_some.mp hrun
      obtain ⟨m, hm, rfl⟩ := Option.map_eq_some_iff.mp hrun
      exact ⟨hr.userStore hconventional (Or.inr ⟨hbounds, hm⟩), .kernel hin⟩
  | setRax v =>
      obtain ⟨hin, hrun⟩ := Option.ite_none_right_eq_some.mp hrun
      obtain rfl := Option.some.inj hrun
      exact ⟨hr.setRax hconventional v, .kernel hin⟩
  | call op c => exact (hs.call hconventional.1 hconventional.2 hbounds hrun).1
  | handlerReturn => exact hs.handlerReturn hconventional.1 hconventional.2 hrun
  | trapReturn => exact (hs.trapReturn hrun).2

/-! ### Runs -/

/-- The frame with which a new process starts. -/
theorem StartedStack.frame {m : Memory} {stack : ℕ} (hstack : StartedStack image m stack) :
  TrapFrame.load m.bytes (trapFrameAddress stack) = TrapFrame.user
  := by
  obtain ⟨m₁, hbytes⟩ := hstack
  have hsize : sizeofTrapFrame = 176 := rfl
  have haddr := trapFrameAddress_eq stack
  have hcontext := contextAddress_eq stack
  have hstart : TrapFrame.load (m₁.startStack image stack).bytes (trapFrameAddress stack)
      = TrapFrame.user := by
    apply TrapFrame.load_startTrapFrame
    intro x hx hlt
    refine (Bytes.writeWord_of_outside (by omega)).trans ?_
    apply memset_of_inside
    · omega
    · rw [pageSize_eq]
      omega
  rw [← hstart]
  apply TrapFrame.load_congr
  intro x hx hlt
  apply hbytes
  constructor
  · omega
  · rw [pageSize_eq]
    omega

/-- After `KMain`, IDLE runs and the shell waits. -/
theorem Booted.sound {disk : ℕ → UInt8} (hb : Booted image disk k xs L) (hrun : NotRun image k 1)
    (hc : Core.InKernel image c) :
  Sound image ⟨c, k⟩ History.initial
  := by
  have hcurrent := hb.currentProc
  have hshell : ∀ i, k.Live i → i = 1 := by
    intro i hi
    by_contra hne
    apply not_live_of_unused _ hi
    rw [hb.others i hi.1 hne]
    rfl
  obtain ⟨hcontext, hstarted⟩ := hrun
  refine ⟨?_, .kernel hc⟩
  constructor
  · exact ⟨xs, L, hb.owned⟩
  · exact hb.consistent
  · exact Or.inl hcurrent
  · intro hne
    exact absurd hcurrent hne
  · intro i hi
    obtain rfl := hshell i hi
    constructor
    · rw [hb.owned.tf 1 hi]
      exact hstarted.frame
    · rfl
    · have htf : (k.process 1).tf - 8 = contextAddress (k.process 1).stack + 6 * 8 := by
        have haddr := (hb.owned.stackAddresses hi).context
        omega
      rw [htf]
      exact congrArg UInt64.ofNat hstarted.readWord
  · intro i hi hne
    have hidle : i ≠ idleSlot := fun e => hne (e.trans hcurrent.symm)
    obtain rfl := hshell i (hi.resolve_left hidle)
    constructor
    · intro c' hc'
      cases hc'
    · intro _
      exact ⟨hidle, hcontext⟩

/-- An event of a run. -/
def CoreEvent.Admitted (image : Image) (event : CoreEvent) (r : Core × History) : Prop :=
  event.Conventional image r.1 ∧ event.StaysInBounds image r.1

/-- The invariant holds in runs in bounds. -/
theorem Sound.reachable {entry : Entry image} {r₀ r' : Core × History} (hs : Sound image r₀.1 r₀.2)
    (hreach : Reachable (History.step entry) (CoreEvent.Admitted image) r₀ r') :
  Sound image r'.1 r'.2
  := by
  apply hreach.invariant (P := fun r => Sound image r.1 r.2) _ hs
  intro event t t' ht hok hrun
  obtain ⟨s, hstep, rfl⟩ := Option.map_eq_some_iff.mp hrun
  exact ht.step hok.1 hok.2 hstep

/-- The events that change the frame in the history of the current process: its traps, and the
stores of its handlers through `tf`. -/
def CoreEvent.writesFrame : CoreEvent → Bool
  | .interrupt _ _ => true
  | .setRax _ => true
  | .call op _ => op.isExec
  | _ => false

namespace History

variable {event : CoreEvent}

theorem write_of_ne {f : TrapFrame} (hne : i ≠ r) :
  (h.write r f).saved i = h.saved i
  := Function.update_of_ne hne _ _

theorem called_saved (hi : k.HasStack i) (hw : k.currentProc = i → op.isExec = false) :
  (h.called op k k').saved i = h.saved i
  := by
  have hfork : (h.fork k k').saved i = h.saved i := (fork_kept hi).1
  unfold called
  split
  · rename_i hrestart
    refine (write_of_ne ?_).trans hfork
    rintro rfl
    exact Bool.false_ne_true ((hw rfl).symm.trans hrestart.1)
  · exact hfork

/-- The frame of a process is changed by its own traps and handlers only. -/
theorem next_saved (hi : s.kernel.HasStack i) (hw : s.current = i → event.writesFrame = false) :
  (h.next event s s').saved i = h.saved i
  := by
  cases event with
  | interrupt number errorCode =>
      apply write_of_ne
      rintro rfl
      exact Bool.noConfusion (hw rfl)
  | setRax v =>
      apply write_of_ne
      rintro rfl
      exact Bool.noConfusion (hw rfl)
  | call op c =>
      have hcalled : (h.called op s.kernel s'.kernel).saved i = h.saved i := called_saved hi hw
      show (h.call op c s.kernel s'.kernel).saved i = h.saved i
      unfold call
      split
      · exact hcalled
      · exact hcalled
  | _ => rfl

/-- The context of a process is changed by its own calls only. -/
theorem next_paused (hi : s.kernel.HasStack i) (hne : i ≠ s.current) :
  (h.next event s s').paused i = h.paused i
  := by
  cases event with
  | call op c =>
      have hcalled : (h.called op s.kernel s'.kernel).paused i = h.paused i := called_paused hi
      show (h.call op c s.kernel s'.kernel).paused i = h.paused i
      unfold call
      split
      · exact hcalled
      · exact (Function.update_of_ne hne _ _).trans hcalled
  | _ => rfl

end History

/-- Other processes run, while the process `i` lives. -/
def CoreEvent.Elsewhere (image : Image) (i : Slot) (event : CoreEvent) (r : Core × History) :
    Prop :=
  event.Admitted image r ∧ r.1.kernel.HasStack i ∧ r.1.current ≠ i

/-- The handler of the trap of the process `i` runs without writing to the frame, and other
processes run. -/
def CoreEvent.Between (image : Image) (i : Slot) (event : CoreEvent) (r : Core × History) : Prop :=
  event.Admitted image r ∧ r.1.kernel.HasStack i ∧ (r.1.current = i → event.writesFrame = false)

/-- Programs do not notice that they are stopped. A trap saves the registers in the frame, at
`tf`. `TrapReturn` restores what the process had at its last trap, with what the handler has written
through `tf`; when it has written nothing, the program goes on with the registers with which it was
stopped. `ContextSwitch` resumes a process with the registers with which that process called it, or
at `TrapReturn` with the stack pointer at `tf`. Other processes do not change any of that. -/
structure Core.Invisible (entry : Entry image) (s : Core) (h : History) : Prop where
  trapped : ∀ number errorCode s', s.step entry (.interrupt number errorCode) = some s' →
    s.Trapped entry number errorCode s'
  returned : ∀ s', s.step entry .trapReturn = some s' → s'.cpu = (h.saved s.current).cpu
  restored : ∀ number errorCode s₁ r s', s.step entry (.interrupt number errorCode) = some s₁ →
    Reachable (History.step entry) (CoreEvent.Between image s.current)
      (s₁, h.next (.interrupt number errorCode) s s₁) r →
    r.1.current = s.current → r.1.step entry .trapReturn = some s' → s'.cpu = s.cpu
  resumed : ∀ op c s', (CoreEvent.call op c).Admitted image (s, h) →
    s.step entry (.call op c) = some s' → s'.current ≠ s.current → s'.Resumes image h
  stopped : ∀ i r, Reachable (History.step entry) (CoreEvent.Elsewhere image i) (s, h) r →
    r.2.saved i = h.saved i ∧ r.2.paused i = h.paused i

theorem Sound.invisible {entry : Entry image} (hs : Sound image s h) :
  s.Invisible entry h
  where
  trapped number errorCode s' hrun := (hs.trap hrun).1
  returned s' hrun := (hs.trapReturn hrun).1
  restored number errorCode s₁ r s' htrap hreach hcurrent hrun := by
    have hs₁ := (hs.trap htrap).2
    have hsaved : r.2.saved s.current
        = s.cpu.trapFrame (UInt64.ofNat number) (frameErrorCode number errorCode) := by
      apply hreach.invariant (P := fun r => r.2.saved s.current
        = s.cpu.trapFrame (UInt64.ofNat number) (frameErrorCode number errorCode))
      · rintro event t t' ht ⟨_, hstack, hw⟩ hstep
        obtain ⟨t₁, _, rfl⟩ := Option.map_eq_some_iff.mp hstep
        exact (History.next_saved hstack hw).trans ht
      · exact Function.update_self _ _ _
    have hsound : Sound image r.1 r.2 := hs₁.reachable (hreach.mono (fun _ _ hok => hok.1))
    rw [(hsound.trapReturn hrun).1, hcurrent, hsaved, Cpu.cpu_trapFrame]
  resumed op c s' hok hrun hne :=
    (hs.call hok.1.1 hok.1.2 hok.2 hrun).2 hne
  stopped i r hreach := by
    apply hreach.invariant (P := fun r => r.2.saved i = h.saved i ∧ r.2.paused i = h.paused i)
    · rintro event t t' ⟨hsaved, hpaused⟩ ⟨_, hstack, hne⟩ hstep
      obtain ⟨t₁, _, rfl⟩ := Option.map_eq_some_iff.mp hstep
      constructor
      · exact (History.next_saved hstack (fun e => absurd e hne)).trans hsaved
      · exact (History.next_paused hstack (Ne.symm hne)).trans hpaused
    · exact ⟨rfl, rfl⟩

/-! ### A key in a frame -/

/-- A run goes on with a step of the processor. -/
theorem Reachable.recorded {entry : Entry image} {Ok : CoreEvent → Core × History → Prop}
    {r₀ : Core × History} {event : CoreEvent}
    (hreach : Reachable (History.step entry) Ok r₀ (s, h)) (hok : Ok event (s, h))
    (hrun : s.step entry event = some s') :
  Reachable (History.step entry) Ok r₀ (s', h.next event s s')
  := by
  apply Reachable.step event hreach hok
  exact Option.map_eq_some_iff.mpr ⟨s', hrun, rfl⟩

/-- The low byte of `r15` is the first byte of a frame. -/
theorem TrapFrame.load_r15 (b : Bytes) (a : ℕ) :
  ((TrapFrame.load b a).cpu.reg .r15).toNat % 256 = (b a).toNat
  := by
  have hword : (TrapFrame.load b a).cpu.reg .r15 = UInt64.ofNat (b.readWord a) := rfl
  have hread : b.readWord a = (b a).toNat + 256 * Bytes.read 7 b (a + 1) := rfl
  have hbyte := (b a).toNat_lt
  rw [hword, UInt64.toNat_ofNat_of_lt' (b.readWord_lt a), hread]
  omega

/-- A trap of a running program enters the kernel. -/
theorem Core.step_syscall {entry : Entry image} (hring : s.cpu.ring = 3) :
  ∃ t, s.step entry (.interrupt 0x80 0) = some (s.executed t)
  := by
  have hcode : vector 0x80 = some [.pushNumber 0, .pushNumber 0x80] := rfl
  have hstep : s.step entry (.interrupt 0x80 0) = (vector 0x80).map _ := if_pos hring
  rw [hcode, Option.map_some] at hstep
  exact ⟨_, hstep⟩

/-- A program that passes the address of its frame to `SysRead` goes on with the key in `r15`. -/
theorem Sound.overwritten {entry : Entry image} {r₀ : Core × History} (byte : UInt8)
    (hs : Sound image s h) (hring : s.cpu.ring = 3)
    (hend : (s.kernel.process s.current).stack + pageSize
      ≤ s.kernel.memory.freeMemoryEndAddress)
    (hreach : Reachable (History.step entry) (fun e r => e.Conventional image r.1) r₀ (s, h)) :
  ∃ t h' s', Reachable (History.step entry) (fun e r => e.Conventional image r.1) r₀ (t, h')
    ∧ t.current = s.current ∧ (h'.saved s.current).cpu = s.cpu
    ∧ t.step entry .trapReturn = some s' ∧ (s'.cpu.reg .r15).toNat % 256 = byte.toNat
  := by
  obtain ⟨t, htrap⟩ := @Core.step_syscall image s entry hring
  have hcurrent : (s.executed t).current = s.current := Core.executed_current s t
  have hprocess : (s.executed t).kernel.process s.current = s.kernel.process s.current :=
    Core.executed_process s t s.current
  rw [← Core.executed_end s t, ← hprocess] at hend
  obtain ⟨htrapped, hs₁⟩ := hs.trap htrap
  generalize s.executed t = s₁ at htrap hcurrent hprocess hend htrapped hs₁
  have hsaved : ((h.next (.interrupt 0x80 0) s s₁).saved s.current).cpu = s.cpu := by
    refine (congrArg TrapFrame.cpu (Function.update_self _ _ _)).trans ?_
    exact Cpu.cpu_trapFrame _ _ _
  have hok : (CoreEvent.interrupt 0x80 0).Conventional image s := trivial
  have hreach₁ := Reachable.recorded hreach hok htrap
  generalize h.next (.interrupt 0x80 0) s s₁ = h₁ at hs₁ hsaved hreach₁
  have hr := hs₁.resting
  obtain ⟨xs, L, hk⟩ := hr.apart
  obtain ⟨q, hq⟩ := hr.consistent
  have hidle : s₁.current ≠ idleSlot := hcurrent ▸ hs.mode.ne_idle hring
  have hlive := hr.runner.resolve_left hidle
  obtain ⟨hbase, htf, _, _, _, hupper⟩ := hk.stackAddresses hlive
  obtain ⟨hresident, hcr3, hown⟩ := hk.resident hq hidle
  have hkernel := (hk.stack_isPage hlive).kernel
  generalize hframe : (s₁.kernel.process s₁.current).tf = tf at htf
  rw [← hcurrent, pageSize_eq] at hend
  generalize (s₁.kernel.process s₁.current).stack = stack at hkernel htf hend hupper
  have hlow : kernelVirtualAddressBase ≤ tf := by
    rw [kernelVirtualAddressBase_eq] at hkernel ⊢
    omega
  have haddress : s₁.kernel.OwnAddress tf := ⟨hlow, by omega⟩
  have hstore := hresident.store_kernel_eq ((hown tf).mpr haddress) byte
  rw [← hcr3] at hstore
  generalize hm : ({ s₁.kernel.memory with
    bytes := Function.update s₁.kernel.memory.bytes tf byte } : Memory) = m at hstore
  have hkey : s₁.step entry (.keyStore tf byte)
      = some ⟨s₁.cpu, { s₁.kernel with memory := m }⟩ := by
    refine (if_pos htrapped.inKernel).trans ?_
    rw [hstore, Option.map_some]
  have hok₁ : (CoreEvent.keyStore tf byte).Conventional image s₁ := hidle
  have hreach₂ := Reachable.recorded hreach₁ hok₁ hkey
  have hbyte : m.bytes tf = byte := by
    rw [← hm]
    exact Function.update_self _ _ _
  have hreturns : m.bytes.wordAt (tf - 8) = image.trapReturnWord := by
    rw [← (hr.framed _ hlive).returns, hframe, ← hm]
    apply Bytes.wordAt_congr
    intro x _ hx
    apply Function.update_of_ne
    omega
  have hrsp : s₁.cpu.reg .rsp = UInt64.ofNat (tf - 8) := by
    have hrsp := htrapped.rsp
    rwa [← hprocess, ← hcurrent, hframe] at hrsp
  obtain ⟨c, hreturn, hat, hsp⟩ := @Core.step_handlerReturn image
    ⟨s₁.cpu, { s₁.kernel with memory := m }⟩ entry tf htrapped.inKernel (by omega) (by omega) hrsp
    hreturns
  have hok₂ : CoreEvent.handlerReturn.Conventional image
      ⟨s₁.cpu, { s₁.kernel with memory := m }⟩ := by
    refine ⟨hidle, ?_⟩
    rw [← hframe] at hrsp
    exact hrsp
  have hreach₃ := Reachable.recorded hreach₂ hok₂ hreturn
  have hleave : (⟨c, { s₁.kernel with memory := m }⟩ : Core).step entry .trapReturn = some _ :=
    Core.step_trapReturn hat (by unfold sizeofTrapFrame; omega) hsp
  refine ⟨_, _, _, hreach₃, hcurrent, hsaved, hleave, ?_⟩
  exact (TrapFrame.load_r15 m.bytes tf).trans (congrArg UInt8.toNat hbyte)

/-! ### A small machine -/

/-- The registers of IDLE, with the kernel stack empty. -/
def idleCpu : Cpu where
  reg r := if r = .rsp then 0xFFFF800000200000 else 0
  rip := 0xFFFF800000200000
  rflags := 0x202
  cs := 8
  ss := 0

theorem smallImage_trapReturn :
  smallImage.trapReturnWord = 0xFFFF800000100000
  := by
  have hbase : smallImage.trapReturn = kernelVirtualAddressBase + 0x100000 := rfl
  unfold Image.trapReturnWord
  rw [hbase, kernelVirtualAddressBase_eq]
  rfl

/-- `InterruptHandler` of the small machine. -/
def smallEntry : Entry smallImage where
  interruptHandler := 0xFFFF800000201000
  apart := by
    intro heq
    have hword := heq.trans smallImage_trapReturn
    revert hword
    decide

theorem idleCpu_inKernel :
  Core.InKernel smallImage idleCpu
  := by
  refine ⟨rfl, ?_⟩
  rw [smallImage_trapReturn]
  decide

theorem idleCpu_onStack (hidle : k.currentProc = idleSlot) :
  (⟨idleCpu, k⟩ : Core).OnStack smallImage idleCpu
  := by
  refine ⟨idleCpu_inKernel, kernelVirtualAddressBase + 0x200000 - 56, ?_⟩
  have hcurrent : (⟨idleCpu, k⟩ : Core).current = idleSlot := hidle
  have hbottom : k.stackBase idleSlot = kernelVirtualAddressBase := Kernel.stackBase_idle k
  have htop : k.stackEnd idleSlot = kernelVirtualAddressBase + stackSize := if_pos rfl
  rw [hcurrent, hbottom, htop]
  unfold stackSize
  rw [pageSize_eq, kernelVirtualAddressBase_eq]
  refine ⟨by omega, by omega, rfl⟩

/-- The timer interrupt of IDLE switches to the shell of the small machine, which has not run. -/
theorem smallMachine_switched :
  ∃ k₀ s h, kMain smallImage (smallMachine 64) = some k₀
    ∧ Reachable (History.step smallEntry) (CoreEvent.Admitted smallImage)
      (⟨idleCpu, k₀⟩, History.initial) (s, h)
    ∧ Sound smallImage s h ∧ s.current = 1 ∧ s.Resumes smallImage History.initial
    ∧ (s.kernel.process 1).stack + pageSize ≤ s.kernel.memory.freeMemoryEndAddress
  := by
  obtain ⟨k₀, L, hboot, hbooted, hend, _⟩ :=
    kMain_smallMachine_end (n := 64) (by decide) (by decide)
  obtain ⟨_, _, hbooted', hnotRun⟩ := kMain_started (smallMachine_disjoint 64) hboot
  obtain ⟨k, hyield, hcurrent, _, hres, _, hmemory, _⟩ := hbooted.yield
  have hs₀ : Sound smallImage ⟨idleCpu, k₀⟩ History.initial :=
    hbooted'.sound hnotRun idleCpu_inKernel
  have hidle : k₀.currentProc = idleSlot := hbooted.currentProc
  obtain ⟨b, a, hkernel⟩ := Core.switch_kernel idleSlot idleCpu k
  generalize hs : Core.switch idleSlot idleCpu k = s at hkernel
  have hcall : (⟨idleCpu, k₀⟩ : Core).step smallEntry (.call .yield idleCpu) = some s := by
    have hafter : Core.afterCall k₀.currentProc idleCpu k = s := by
      rw [hidle, ← hs]
      apply if_neg
      rw [hcurrent]
      decide
    refine (if_pos ⟨idleCpu_inKernel, rfl⟩).trans ?_
    rw [hyield, Option.map_some]
    exact congrArg some hafter
  have hallowed : Allowed .yield k₀ := by
    intro hop
    cases hop
  have hstack := idleCpu_onStack hidle
  obtain ⟨hsound, hresumes⟩ := hs₀.call hallowed hstack (fun _ => trivial) hcall
  have hcurrent' : s.current = 1 := by
    unfold Core.current
    rw [hkernel]
    exact hcurrent
  have hshell : (s.kernel.process 1).stack = (k₀.process 1).stack := by
    have hprocess : s.kernel.process 1 = k.process 1 := by
      rw [hkernel]
      exact Scheduler.setProcess_of_ne (by decide) _ _
    rw [hprocess]
    exact (congrArg Process.stack (hres.resources 1) :)
  have hmemory' : s.kernel.memory.freeMemoryEndAddress = k₀.memory.freeMemoryEndAddress := by
    rw [hkernel, ← hmemory]
    rfl
  refine ⟨k₀, s, _, hboot, ?_, hsound, hcurrent', hresumes ?_, ?_⟩
  · exact Reachable.recorded .refl ⟨⟨hallowed, hstack⟩, fun _ => trivial⟩ hcall
  · rw [hcurrent']
    intro heq
    exact absurd (heq.trans hidle) (by decide)
  · rwa [hshell, hmemory']

/-- The shell of the small machine runs as a program. -/
theorem smallMachine_program :
  ∃ k₀ s h, kMain smallImage (smallMachine 64) = some k₀
    ∧ Reachable (History.step smallEntry) (CoreEvent.Admitted smallImage)
      (⟨idleCpu, k₀⟩, History.initial) (s, h)
    ∧ Sound smallImage s h ∧ s.current = 1 ∧ s.cpu = TrapFrame.user.cpu
    ∧ (s.kernel.process 1).stack + pageSize ≤ s.kernel.memory.freeMemoryEndAddress
  := by
  obtain ⟨k₀, s, h, hboot, hreach, hsound, hcurrent, ⟨hring, _, hnew⟩, hend⟩ :=
    smallMachine_switched
  have hreturn : s.step smallEntry .trapReturn
      = some (s.executed (run LarvaOS.trapReturn s.execution)) := if_pos ⟨hring, (hnew rfl).1⟩
  obtain ⟨hcpu, hsound'⟩ := hsound.trapReturn hreturn
  generalize hs' : s.executed (run LarvaOS.trapReturn s.execution) = s' at hreturn hcpu hsound'
  have hcurrent' : s'.current = 1 := by
    rw [← hs', Core.executed_current, hcurrent]
  have hring' : s'.cpu.ring = 3 := by
    have hr : Resting smallImage s.kernel h s.current := hsound.resting
    have hidle : s.current ≠ idleSlot := by
      rw [hcurrent]
      decide
    rw [hcpu]
    exact (hr.framed _ (hr.runner.resolve_left hidle)).user
  have huser : s'.step smallEntry (.user TrapFrame.user.cpu)
      = some ⟨TrapFrame.user.cpu, s'.kernel⟩ := if_pos ⟨hring', rfl⟩
  have hok : CoreEvent.trapReturn.Admitted smallImage (s, h) := ⟨trivial, trivial⟩
  have hok' : (CoreEvent.user TrapFrame.user.cpu).Admitted smallImage (s', h) := ⟨trivial, trivial⟩
  have hreach' : Reachable (History.step smallEntry) (CoreEvent.Admitted smallImage)
      (⟨idleCpu, k₀⟩, History.initial) (s', h) := by
    rw [← History.next_trapReturn h s s']
    exact Reachable.recorded hreach hok hreturn
  refine ⟨k₀, ⟨TrapFrame.user.cpu, s'.kernel⟩, h, hboot, ?_, hsound'.step hok'.1 hok'.2 huser,
    hcurrent', rfl, ?_⟩
  · rw [← History.next_user h TrapFrame.user.cpu s' ⟨TrapFrame.user.cpu, s'.kernel⟩]
    exact Reachable.recorded hreach' hok' huser
  · show (s'.kernel.process 1).stack + pageSize ≤ s'.kernel.memory.freeMemoryEndAddress
    rwa [← hs', Core.executed_process, Core.executed_end]

/-! ### Programs and preemption -/

/-- In every state of a run in bounds, programs do not notice that they are stopped. -/
theorem reachable_invisible {machine : Machine} {k₀ : Kernel} {entry : Entry image} {c₀ : Cpu}
    {r : Core × History} (hmap : DisjointRegions machine.memMap)
    (h₀ : kMain image machine = some k₀) (hc : Core.InKernel image c₀)
    (hreach : Reachable (History.step entry) (CoreEvent.Admitted image)
      (⟨c₀, k₀⟩, History.initial) r) :
  r.1.Invisible entry r.2
  := by
  obtain ⟨xs, L, hbooted, hrun⟩ := kMain_started hmap h₀
  have hsound : Sound image ⟨c₀, k₀⟩ History.initial := hbooted.sound hrun hc
  exact (hsound.reachable hreach).invisible

/-- The shell of the small machine does not notice traps. -/
theorem reachable_invisible_small :
  ∃ k₀ r, kMain smallImage (smallMachine 64) = some k₀
    ∧ Reachable (History.step smallEntry) (CoreEvent.Admitted smallImage)
      (⟨idleCpu, k₀⟩, History.initial) r
    ∧ r.1.current = 1 ∧ r.1.cpu = TrapFrame.user.cpu ∧ r.1.Invisible smallEntry r.2
  := by
  obtain ⟨k₀, s, h, hboot, hreach, _, hcurrent, hcpu, _⟩ := smallMachine_program
  exact ⟨k₀, (s, h), hboot, hreach, hcurrent, hcpu,
    reachable_invisible (smallMachine_disjoint 64) hboot idleCpu_inKernel hreach⟩

/-- A key that `SysRead` stores to the frame of the shell shows in the registers with which the
shell goes on. -/
theorem not_invisible_small :
  ∃ k₀ r, kMain smallImage (smallMachine 64) = some k₀
    ∧ Reachable (History.step smallEntry) (fun e r => e.Conventional smallImage r.1)
      (⟨idleCpu, k₀⟩, History.initial) r
    ∧ r.1.current = 1 ∧ ¬ r.1.Invisible smallEntry r.2
  := by
  obtain ⟨k₀, s, h, hboot, hreach, hsound, hcurrent, hcpu, hend⟩ := smallMachine_program
  have hring : s.cpu.ring = 3 := by
    rw [hcpu]
    rfl
  rw [← hcurrent] at hend
  obtain ⟨t, h', s', hreach', hcurrent', hsaved, hreturn, hbyte⟩ :=
    hsound.overwritten 0x61 hring hend (hreach.mono (fun _ _ hok => hok.1))
  refine ⟨k₀, (t, h'), hboot, hreach', hcurrent'.trans hcurrent, ?_⟩
  intro hinvisible
  have hrestored := hinvisible.returned s' hreturn
  rw [hcurrent', hsaved, hcpu] at hrestored
  rw [hrestored] at hbyte
  exact absurd hbyte (by decide)

end LarvaOS
