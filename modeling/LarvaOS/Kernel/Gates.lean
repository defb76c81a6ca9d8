import LarvaOS.Boot.Shell
import LarvaOS.Kernel.Memories
import LarvaOS.Kernel.Preemption
import LarvaOS.Process.Gates

/-!
# The image of the kernel and the interrupts of programs

Nothing that the kernel and the programs do writes to the image of the kernel: the functions of
the kernel store to pages, which lie after the image, and to the stack of IDLE, which lies before
it.  So the tables of the processor stay as `Start` and `InitIDT` have made them, and in every
state of a run an interrupt of a program arrives at the vector of its number.
-/

namespace LarvaOS

variable {image : Image} {k k' : Kernel} {q : Queues} {xs : List ℕ} {L : Layout} {i : Slot}
  {op : Operation} {s s' : Core} {h : History}

/-! ### The image of the kernel -/

theorem ImageSame.trans {b b' b'' : Bytes} (h : ImageSame image b b')
    (h' : ImageSame image b' b'') :
  ImageSame image b b''
  := fun x hx => (h' x hx).trans (h x hx)

theorem KernelSame.imageSame {m m' : Memory} (h : KernelSame image m m') :
  ImageSame image m.bytes m'.bytes
  := fun x hx => h x hx.2

/-- A step in bounds leaves the image alone. -/
theorem Owned.step_imageSame (h : Owned image k xs L)
    (hq : Queued k.scheduler q (some k.currentProc) none) (hbounds : InBounds image op k)
    (hrun : k.step image op = some k') :
  ImageSame image k.memory.bytes k'.memory.bytes
  := h.imageSame (h.step_changes hq hbounds hrun)

/-- A kernel stack is apart from the image. -/
theorem Owned.stack_apart (h : Owned image k xs L) (hi : k.HasStack i) {x : ℕ}
    (hx : InPage (k.stackBase i) x) :
  ¬ InImage image x
  := by
  rintro ⟨hlo, hhi⟩
  obtain ⟨hbase, hend⟩ := hx
  rw [pageSize_eq] at hend
  rcases hi with rfl | hi
  · rw [Kernel.stackBase_idle] at hend
    omega
  · rw [Kernel.stackBase_of_ne hi.1] at hbase
    have hlower := (h.stack_isPage hi).lower
    omega

/-- Stores to a kernel stack leave the image alone. -/
theorem Owned.stack_imageSame {b : Bytes} (h : Owned image k xs L) (hi : k.HasStack i)
    (hb : ∀ x, ¬ InPage (k.stackBase i) x → b x = k.memory.bytes x) :
  ImageSame image k.memory.bytes b
  := fun x hx => hb x fun hpage => h.stack_apart hi hpage hx

/-- The task state segment points to the end of the trap frame of the process that runs. -/
theorem Sound.rsp0_eq (hs : Sound image s h) (hring : s.cpu.ring = 3) :
  s.kernel.scheduler.rsp0 = (s.kernel.process s.current).tf + sizeofTrapFrame
  := by
  have hr := hs.resting
  obtain ⟨xs, L, hk⟩ := hr.apart
  have hidle := hs.mode.ne_idle hring
  have haddr := (hk.stackAddresses (hr.runner.resolve_left hidle)).tf
  have hsize : sizeofTrapFrame = 176 := rfl
  apply (hr.rsp0 hidle).trans
  unfold stackSize
  rw [pageSize_eq, hsize]
  exact haddr.symm

/-- A trap stores to the kernel stack of the process. -/
theorem Sound.trap_imageSame {entry : Entry image} {number : ℕ} {errorCode : UInt64}
    (hs : Sound image s h) (hrun : s.step entry (.interrupt number errorCode) = some s') :
  ImageSame image s.kernel.memory.bytes s'.kernel.memory.bytes
  := by
  obtain ⟨hring, hrun⟩ := Option.ite_none_right_eq_some.mp hrun
  obtain ⟨code, hcode, rfl⟩ := Option.map_eq_some_iff.mp hrun
  have hr := hs.resting
  obtain ⟨xs, L, hk⟩ := hr.apart
  have hidle := hs.mode.ne_idle hring
  have hlive := hr.runner.resolve_left hidle
  obtain ⟨hbase, htf, hend, _, haligned, hupper⟩ := hk.stackAddresses hlive
  have hsize : sizeofTrapFrame = 176 := rfl
  obtain ⟨t, ht, _, _, _, _, _, _, houtside⟩ := @enter_spec s.execution number
    (s.kernel.process s.current).tf code errorCode entry.interruptHandler image.trapReturnWord hcode
    (by omega) (by omega) (by omega)
  rw [hs.rsp0_eq hring, ht]
  apply hk.stack_imageSame hr.runner
  intro x hx
  apply houtside
  unfold InPage at hx
  rw [hbase, pageSize_eq] at hx
  omega

/-- `ContextSwitch` stores to the kernel stack of the process that calls it. -/
theorem Resting.switch_imageSame {a : ℕ} {r : Slot} {c : Cpu} (hr : Resting image k h r)
    (hne : k.currentProc ≠ r) (hlo : k.stackBase r ≤ a) (hhi : a + 56 ≤ k.stackEnd r)
    (hrsp : c.reg .rsp = UInt64.ofNat (a + 56)) :
  ImageSame image k.memory.bytes (Core.switch r c k).kernel.memory.bytes
  := by
  obtain ⟨xs, L, hk⟩ := hr.apart
  obtain ⟨_, hle⟩ := hk.stackEnd_le hr.runner
  have hn := hr.consistent.hasStack
  obtain ⟨_, _, hdlt⟩ := (hr.waits _ hn hne).inStack hk hn
  obtain ⟨t, ht, _, _, _, _, houtside⟩ :=
    @contextSwitch_spec ⟨c.set .rsi (UInt64.ofNat (k.process k.currentProc).context),
      k.memory.bytes, 0⟩ a (k.process k.currentProc).context (by omega) hdlt hrsp
      (Cpu.set_self _ _ _)
  have hbytes : (Core.switch r c k).kernel.memory.bytes = t.bytes := by
    rw [← ht]
    rfl
  rw [hbytes]
  apply hk.stack_imageSame hr.runner
  intro x hx
  apply houtside
  unfold InPage at hx
  omega

/-- A call of a function of the kernel leaves the image alone. -/
theorem Sound.call_imageSame {entry : Entry image} {c : Cpu} (hs : Sound image s h)
    (hallowed : Allowed op s.kernel) (hstack : s.OnStack image c)
    (hfits : Owned.Confined image op s.kernel) (hrun : s.step entry (.call op c) = some s') :
  ImageSame image s.kernel.memory.bytes s'.kernel.memory.bytes
  := by
  obtain ⟨⟨_, hop⟩, hrun⟩ := Option.ite_none_right_eq_some.mp hrun
  obtain ⟨k', hstep, rfl⟩ := Option.map_eq_some_iff.mp hrun
  obtain ⟨_, a, hlo, hhi, hrsp⟩ := hstack
  have hr : Resting image s.kernel h s.kernel.currentProc := hs.resting
  obtain ⟨q, hq⟩ := hr.consistent
  obtain ⟨xs, L, hk⟩ := hr.apart
  have hcalled := hr.called hop hallowed hfits hstep
  have hsame := hk.step_imageSame hq ⟨hallowed, hfits⟩ hstep
  by_cases hcurrent : k'.currentProc = s.kernel.currentProc
  · have hafter : Core.afterCall s.current c k' = ⟨c, k'⟩ := if_pos hcurrent
    rw [hafter]
    exact hsame
  · have hafter : Core.afterCall s.current c k' = Core.switch s.current c k' := if_neg hcurrent
    have hkept : Kept s.kernel k' s.kernel.currentProc := by
      rcases (hk.processStep hq hallowed hstep).kept_or_child hcalled.runner with hkept | ⟨hnew, _⟩
      · exact hkept
      · exact absurd hr.runner hnew
    rw [hafter]
    exact hsame.trans (hcalled.switch_imageSame hcurrent (hkept.2.stackBase.symm ▸ hlo)
      (hkept.2.stackEnd.symm ▸ hhi) hrsp)

/-- A program, or `SysRead`, stores to the user page. -/
theorem Resting.userStore_imageSame {m : Memory} {v : ℕ} {byte : UInt8}
    (hr : Resting image k h k.currentProc) (hidle : k.currentProc ≠ idleSlot)
    (hrun : k.memory.storeUser k.scheduler.cr3 v byte = some m
      ∨ InUserPage v ∧ k.memory.store k.scheduler.cr3 v byte = some m) :
  ImageSame image k.memory.bytes m.bytes
  := by
  obtain ⟨xs, L, hk⟩ := hr.apart
  obtain ⟨q, hq⟩ := hr.consistent
  have hlive := hq.live_current hidle
  have hpages := hk.space_isPage hlive
  have hspace := hk.space _ hlive
  have hstored : Changes [(L.space k.currentProc).page] k.memory m := by
    rw [hk.pageMapRegister hq hidle] at hrun
    rcases hrun with hrun | ⟨hv, hrun⟩
    · obtain ⟨hv, rfl⟩ := hspace.storeUser hk.kernelEnd.le hpages hrun
      exact UserSpace.changes_store hv byte
    · have hstore := hspace.store hk.kernelEnd.le hpages hv byte
      obtain rfl := Option.some.inj (hrun.symm.trans hstore)
      exact UserSpace.changes_store hv byte
  apply KernelSame.imageSame
  apply KernelSame.of_changes hstored
  intro p hp
  rw [List.mem_singleton.mp hp]
  exact hpages _ List.mem_cons_self

/-- Instructions that store nothing. -/
theorem run_bytes {code : List Instruction} (h : ∀ i ∈ code, ∀ t, (i.run t).bytes = t.bytes)
    (t : Execution) :
  (run code t).bytes = t.bytes
  := by
  induction code generalizing t with
  | nil => rfl
  | cons i code ih =>
      exact (ih (fun j hj => h j (List.mem_cons_of_mem i hj)) (i.run t)).trans
        (h i List.mem_cons_self t)

theorem run_trapReturn_bytes (t : Execution) :
  (run trapReturn t).bytes = t.bytes
  := by
  apply run_bytes
  intro i hi t
  unfold trapReturn at hi
  simp only [List.mem_append, List.mem_map, List.mem_cons, List.not_mem_nil, or_false] at hi
  rcases hi with ⟨r, _, rfl⟩ | rfl | rfl
  · rfl
  · rfl
  · rfl

/-- Every step leaves the image of the kernel alone. -/
theorem Sound.imageSame {entry : Entry image} {event : CoreEvent} (hs : Sound image s h)
    (hconventional : event.Conventional image s) (hbounds : event.StaysInBounds image s)
    (hrun : s.step entry event = some s') :
  ImageSame image s.kernel.memory.bytes s'.kernel.memory.bytes
  := by
  have hr : Resting image s.kernel h s.kernel.currentProc := hs.resting
  obtain ⟨xs, L, hk⟩ := hr.apart
  cases event with
  | user c =>
      obtain ⟨_, hrun⟩ := Option.ite_none_right_eq_some.mp hrun
      obtain rfl := Option.some.inj hrun
      exact fun _ _ => rfl
  | store v byte =>
      obtain ⟨hring, hrun⟩ := Option.ite_none_right_eq_some.mp hrun
      obtain ⟨m, hm, rfl⟩ := Option.map_eq_some_iff.mp hrun
      exact hr.userStore_imageSame (hs.mode.ne_idle hring) (Or.inl hm)
  | interrupt number errorCode => exact hs.trap_imageSame hrun
  | code c =>
      obtain ⟨_, hrun⟩ := Option.ite_none_right_eq_some.mp hrun
      obtain rfl := Option.some.inj hrun
      exact fun _ _ => rfl
  | push offset byte =>
      obtain ⟨_, hrun⟩ := Option.ite_none_right_eq_some.mp hrun
      obtain rfl := Option.some.inj hrun
      have hoffset : s.kernel.stackBase s.current + offset < s.kernel.stackEnd s.current :=
        hconventional
      obtain ⟨_, hle⟩ := hk.stackEnd_le hr.runner
      apply hk.stack_imageSame hr.runner
      intro x hx
      apply Function.update_of_ne
      rintro rfl
      apply hx
      constructor
      · exact Nat.le_add_right _ _
      · exact hoffset.trans_le hle
  | keyStore v byte =>
      obtain ⟨_, hrun⟩ := Option.ite_none_right_eq_some.mp hrun
      obtain ⟨m, hm, rfl⟩ := Option.map_eq_some_iff.mp hrun
      exact hr.userStore_imageSame hconventional (Or.inr ⟨hbounds, hm⟩)
  | setRax v =>
      obtain ⟨_, hrun⟩ := Option.ite_none_right_eq_some.mp hrun
      obtain rfl := Option.some.inj hrun
      have hlive := hr.runner.resolve_left hconventional
      obtain ⟨hbase, htf, _, _, _, _⟩ := hk.stackAddresses hlive
      apply hk.stack_imageSame hr.runner
      intro x hx
      apply Bytes.writeWord_of_outside
      unfold InPage at hx
      rw [hbase, pageSize_eq] at hx
      have haddr : (s.kernel.process s.current).tf + 176
          = (s.kernel.process s.current).stack + 2097152 := htf
      have hx' : ¬ ((s.kernel.process s.current).stack ≤ x
        ∧ x < (s.kernel.process s.current).stack + 2097152) := hx
      omega
  | call op c => exact hs.call_imageSame hconventional.1 hconventional.2 hbounds hrun
  | handlerReturn =>
      obtain ⟨_, hrun⟩ := Option.ite_none_right_eq_some.mp hrun
      obtain rfl := Option.some.inj hrun
      exact fun _ _ => rfl
  | trapReturn =>
      obtain ⟨_, hrun⟩ := Option.ite_none_right_eq_some.mp hrun
      obtain rfl := Option.some.inj hrun
      exact fun x _ => congrFun (run_trapReturn_bytes s.execution) x

/-! ### Interrupts and ports -/

/-- The tables are in the image of the kernel. -/
structure Linked (image : Image) (sym : Symbols) : Prop where
  gdt : kernelVirtualAddressBase + 0x200000 ≤ sym.gdt64 ∧ sym.gdt64 + 48 ≤ image.lKernelEnd
  tss : kernelVirtualAddressBase + 0x200000 ≤ sym.taskStateSegment
    ∧ sym.taskStateSegment + 104 ≤ image.lKernelEnd
  idt : kernelVirtualAddressBase + 0x200000 ≤ sym.interruptEntries
    ∧ sym.interruptEntries + 4096 ≤ image.lKernelEnd

/-- Tables in the image of the kernel stay as they are. -/
theorem Linked.placed {sym : Symbols} {b b' : Bytes} (h : Linked image sym) (hb : Placed sym b)
    (hsame : ImageSame image b b') :
  Placed sym b'
  := by
  obtain ⟨⟨hgdt, hgdt'⟩, ⟨htss, htss'⟩, hidt, hidt'⟩ := h
  apply hb.congr
  · exact fun x hx hlt => hsame x ⟨by omega, by omega⟩
  · exact fun x hx hlt => hsame x ⟨by omega, by omega⟩
  · exact fun x hx hlt => hsame x ⟨by omega, by omega⟩

/-- The tables of the processor while a process runs. -/
def Core.tables (s : Core) (sym : Symbols) : Protection.Tables :=
  runningTables sym s.kernel.scheduler.rsp0 s.kernel.memory.bytes

/-- The processor takes an event of a program as the interrupt with a number and an error code:
it goes through the gate to the vector of the number, and what the vector does is a step. -/
structure Core.Takes (entry : Entry image) (sym : Symbols) (s : Core) (e : Protection.Event)
    (errorCode number code : ℕ) (s' : Core) : Prop where
  arrives : ∃ p, Protection.arrive (s.tables sym) s.cpu.ring 3 e errorCode = some ⟨number, code, p⟩
    ∧ p.rip = sym.vector number ∧ p.masks = true
    ∧ ∃ is, vector number = some is
      ∧ s' = s.executed (run (is ++ trap entry.interruptHandler image.trapReturnWord)
        (enterGate p number (UInt64.ofNat code) s.execution))
  step : s.step entry (.interrupt number (UInt64.ofNat code)) = some s'
  trapped : s.Trapped entry number (UInt64.ofNat code) s'

/-- The top of a kernel stack is a canonical address, or the end of the address space. -/
theorem Sound.canonical (hs : Sound image s h) (hring : s.cpu.ring = 3) :
  Protection.CanonicalAddress (s.kernel.scheduler.rsp0 % 2 ^ 64)
  := by
  have hr := hs.resting
  obtain ⟨xs, L, hk⟩ := hr.apart
  have hlive := hr.runner.resolve_left (hs.mode.ne_idle hring)
  obtain ⟨_, htf, _, _, _, hupper⟩ := hk.stackAddresses hlive
  have hlower := (hk.stack_isPage hlive).kernel
  have hsize : sizeofTrapFrame = 176 := rfl
  rw [hs.rsp0_eq hring, hsize]
  rw [kernelVirtualAddressBase_eq] at hlower
  unfold Protection.CanonicalAddress
  omega

/-- The ports that the kernel uses: of the interrupt controllers, the timer, the keyboard and the
disk. -/
def devicePorts : List ℕ :=
  [0x20, 0x21, 0xA0, 0xA1, 0x40, 0x43, 0x60, 0x1F0, 0x1F2, 0x1F3, 0x1F4, 0x1F5, 0x1F6, 0x1F7]

/-- The ports of the devices are open to the process that runs. -/
theorem Sound.openPort (hs : Sound image s h) (hring : s.cpu.ring = 3) {port : ℕ}
    (hport : port ∈ devicePorts) :
  OpenPort (s.kernel.scheduler.rsp0 % 2 ^ 64) port
  := by
  have hr := hs.resting
  obtain ⟨xs, L, hk⟩ := hr.apart
  have hlive := hr.runner.resolve_left (hs.mode.ne_idle hring)
  have hpage := hk.stack_isPage hlive
  have hlower := hpage.kernel
  have hend := hpage.upper
  obtain ⟨_, htf, _, _, haligned, hupper⟩ := hk.stackAddresses hlive
  have hsize : sizeofTrapFrame = 176 := rfl
  rw [hs.rsp0_eq hring, hsize, htf]
  generalize (s.kernel.process s.current).stack = stack at hlower hend haligned hupper
  rw [kernelVirtualAddressBase_eq] at hlower
  rw [virtualAddressEnd_eq, pageSize_eq] at hend
  by_cases hlarge : 96 ≤ port
  · have hall : ∀ port ∈ devicePorts, port < 800 := by decide
    exact Or.inr (Or.inr (Or.inl ⟨hlarge, hall port hport⟩))
  · have hall : ∀ port ∈ devicePorts, port < 96 →
        port = 0x20 ∨ port = 0x21 ∨ port = 0x40 ∨ port = 0x43 := by decide
    refine Or.inr (Or.inl ⟨?_, by omega, ?_⟩)
    · have hall' : ∀ port ∈ devicePorts, 32 ≤ port := by decide
      exact hall' port hport
    · rw [Nat.testBit_eq_decide_div_mod_eq, decide_eq_false_iff_not]
      -- the low bits are clear because stacks are pages, the others because of the address space
      rcases hall port hport (by omega) with rfl | rfl | rfl | rfl
      · omega
      · omega
      · omega
      · omega

/-- Every event of a program is taken. -/
theorem Sound.takes {entry : Entry image} {sym : Symbols} (hs : Sound image s h)
    (hring : s.cpu.ring = 3) (hplaced : Placed sym s.kernel.memory.bytes) (e : Protection.Event)
    (errorCode : ℕ) :
  ∃ s', s.Takes entry sym e errorCode (reached 3 e) (reachedCode 3 e errorCode) s'
  := by
  obtain ⟨is, hcode⟩ := Option.isSome_iff_exists.mp (vector_reached 3 e)
  have harrive := hplaced.arrive_eq (hs.canonical hring) (by decide : 3 ≤ 3) e errorCode
  generalize hn : reached 3 e = number at hcode harrive
  generalize hcode' : reachedCode 3 e errorCode = code at harrive
  have hstep : s.step entry (.interrupt number (UInt64.ofNat code))
      = some (s.executed (run (is ++ LarvaOS.trap entry.interruptHandler image.trapReturnWord)
        (interrupt (UInt64.ofNat s.kernel.scheduler.rsp0) number (UInt64.ofNat code)
          s.execution))) := by
    refine (if_pos hring).trans ?_
    rw [hcode]
    rfl
  refine ⟨_, ⟨⟨ownPassage sym s.kernel.scheduler.rsp0 3 number, ?_, rfl, rfl, is, hcode, ?_⟩,
    hstep, (hs.trap hstep).1⟩⟩
  · rw [hring]
    exact harrive
  · rw [enterGate_eq]
    exact congrArg s.executed (run_trap_setRip hcode _ _ _ _).symm

/-! ### The first program -/

/-- From the boot, the timer interrupt of IDLE and a return from a trap lead to the shell in
ring 3. -/
theorem Booted.entersShell {disk : ℕ → UInt8} {entry : Entry image} {c₀ : Cpu}
    (hbooted : Booted image disk k xs L) (hnotRun : NotRun image k 1)
    (hstack : (⟨c₀, k⟩ : Core).OnStack image c₀) :
  ∃ (s : Core) (h : History), Reachable (History.step entry) (CoreEvent.Admitted image)
      (⟨c₀, k⟩, History.initial) (s, h)
    ∧ s.current = 1 ∧ s.cpu.ring = 3
  := by
  have hidle : k.currentProc = idleSlot := hbooted.currentProc
  obtain ⟨k', hyield, hcurrent, _⟩ := hbooted.yield
  have hs₀ : Sound image ⟨c₀, k⟩ History.initial := hbooted.sound hnotRun hstack.inKernel
  obtain ⟨b, a, hkernel⟩ := Core.switch_kernel idleSlot c₀ k'
  generalize hs : Core.switch idleSlot c₀ k' = s at hkernel
  have hcall : (⟨c₀, k⟩ : Core).step entry (.call .yield c₀) = some s := by
    have hafter : Core.afterCall k.currentProc c₀ k' = s := by
      rw [hidle, ← hs]
      apply if_neg
      rw [hcurrent]
      decide
    refine (if_pos ⟨hstack.inKernel, rfl⟩).trans ?_
    rw [hyield, Option.map_some]
    exact congrArg some hafter
  have hallowed : Allowed .yield k := by
    intro hop
    cases hop
  obtain ⟨hsound, hresumes⟩ := hs₀.call hallowed hstack (fun _ => trivial) hcall
  have hcurrent' : s.current = 1 := by
    unfold Core.current
    rw [hkernel]
    exact hcurrent
  have hne : s.current ≠ idleSlot := by
    rw [hcurrent']
    decide
  obtain ⟨hring, _, hnew⟩ := hresumes fun heq => hne (heq.trans hidle)
  have hreturn : s.step entry .trapReturn
      = some (s.executed (run LarvaOS.trapReturn s.execution)) := if_pos ⟨hring, (hnew rfl).1⟩
  obtain ⟨hcpu, _⟩ := hsound.trapReturn hreturn
  have hr : Resting image s.kernel _ s.current := hsound.resting
  have hok : (CoreEvent.call .yield c₀).Admitted image (⟨c₀, k⟩, History.initial) :=
    ⟨⟨hallowed, hstack⟩, fun _ => trivial⟩
  have hreach := Reachable.recorded Reachable.refl hok hcall
  have hok' : CoreEvent.trapReturn.Admitted image
      (s, History.initial.next (.call .yield c₀) ⟨c₀, k⟩ s) := ⟨trivial, trivial⟩
  refine ⟨_, _, Reachable.recorded hreach hok' hreturn, ?_, ?_⟩
  · rw [Core.executed_current, hcurrent']
  · rw [hcpu]
    exact (hr.framed _ (hr.runner.resolve_left hne)).user

/-- An image that holds the tables. -/
def tablesImage : Image where
  lKernelEnd := kernelVirtualAddressBase + 0x210000
  trapReturn := kernelVirtualAddressBase + 0x203000
  lower := Nat.add_le_add_left (by decide) _
  upper := by
    rw [kernelVirtualAddressBase_eq, virtualAddressEnd_eq]
    decide
  word := by
    rw [kernelVirtualAddressBase_eq]
    decide

/-- Where the tables and the vectors are in the image. -/
def tablesSymbols : Symbols where
  gdt64 := kernelVirtualAddressBase + 0x200000
  taskStateSegment := kernelVirtualAddressBase + 0x200100
  interruptEntries := kernelVirtualAddressBase + 0x201000
  vector n := kernelVirtualAddressBase + 0x202000 + n % 256

/-- Memory with the data of the tables. -/
def tablesBytes (x : ℕ) : UInt8 :=
  if x < tablesSymbols.taskStateSegment then gdt64.getD (x - tablesSymbols.gdt64) 0
  else taskStateSegment.getD (x - tablesSymbols.taskStateSegment) 0

/-- The small machine with this memory. -/
def tablesMachine (n : Fin (2 ^ 43)) : Machine := { smallMachine n with bytes := tablesBytes }

theorem tablesMachine_disjoint (n : Fin (2 ^ 43)) :
  DisjointRegions (tablesMachine n).memMap
  := smallMachine_disjoint n

theorem kMain_tablesMachine {n : Fin (2 ^ 43)} (hlo : 12 ≤ n.val) (hhi : n.val ≤ 510) :
  ∃ k, kMain tablesImage (tablesMachine n) = some k
  := by
  have hupper : kernelVirtualAddressBase + 0x400000 + n * pageSize ≤ virtualAddressEnd := by
    rw [virtualAddressEnd_eq, kernelVirtualAddressBase_eq, pageSize_eq]
    omega
  have haligned : (kernelVirtualAddressBase + 0x400000) % 2097152 = 0 := by
    rw [kernelVirtualAddressBase_eq]
  have hlower : tablesImage.lKernelEnd < kernelVirtualAddressBase + 0x400000 :=
    Nat.add_lt_add_left (by decide) _
  obtain ⟨k, _, hrun, _⟩ :=
    @kMain_pages _ (tablesMachine n) _ n rfl smallDisk_bootable haligned hlower hupper hlo
  exact ⟨k, hrun⟩

theorem tablesImage_linked :
  Linked tablesImage tablesSymbols
  := by
  have hend : tablesImage.lKernelEnd = kernelVirtualAddressBase + 0x210000 := rfl
  have hgdt : tablesSymbols.gdt64 = kernelVirtualAddressBase + 0x200000 := rfl
  have htss : tablesSymbols.taskStateSegment = kernelVirtualAddressBase + 0x200100 := rfl
  have hidt : tablesSymbols.interruptEntries = kernelVirtualAddressBase + 0x201000 := rfl
  constructor
  · constructor
    · omega
    · omega
  · constructor
    · omega
    · omega
  · constructor
    · omega
    · omega

theorem tablesBytes_placed :
  Placed tablesSymbols tablesBytes
  := by
  have hgdt64 : gdt64.length = 48 := by decide
  have htaskStateSegment : taskStateSegment.length = 104 := by decide
  have hbase := kernelVirtualAddressBase_eq
  have hgdt : tablesSymbols.gdt64 = kernelVirtualAddressBase + 0x200000 := rfl
  have htss : tablesSymbols.taskStateSegment = kernelVirtualAddressBase + 0x200100 := rfl
  have hidt : tablesSymbols.interruptEntries = kernelVirtualAddressBase + 0x201000 := rfl
  constructor
  · intro i hi
    unfold tablesBytes
    rw [if_pos (by omega), Nat.add_sub_cancel_left]
  · intro i hi
    unfold tablesBytes
    rw [if_neg (by omega), Nat.add_sub_cancel_left]
  · intro x hx hlt
    unfold tablesBytes
    rw [if_neg (by omega)]
    exact List.getD_eq_default _ _ (by omega)
  · omega
  · omega
  · omega
  · omega
  · intro n
    have hvector : tablesSymbols.vector n = kernelVirtualAddressBase + 0x202000 + n % 256 := rfl
    right
    omega

theorem tablesMachine_placed (n : Fin (2 ^ 43)) :
  Placed tablesSymbols (Kernel.initial (tablesMachine n)).memory.bytes
  := by
  dsimp only [Kernel.initial, tablesMachine]
  exact tablesBytes_placed

/-- `InterruptHandler` of the image. -/
def tablesEntry : Entry tablesImage where
  interruptHandler := UInt64.ofNat (kernelVirtualAddressBase + 0x204000)
  apart := by
    have htrapReturn : tablesImage.trapReturn = kernelVirtualAddressBase + 0x203000 := rfl
    rw [htrapReturn, kernelVirtualAddressBase_eq]
    decide

theorem idleCpu_onStack_tables (hidle : k.currentProc = idleSlot) :
  (⟨idleCpu, k⟩ : Core).OnStack tablesImage idleCpu
  := by
  obtain ⟨_, hrsp⟩ := idleCpu_onStack hidle
  refine ⟨⟨rfl, ?_⟩, hrsp⟩
  have htrapReturn : tablesImage.trapReturn = kernelVirtualAddressBase + 0x203000 := rfl
  unfold Image.trapReturnWord
  rw [htrapReturn, kernelVirtualAddressBase_eq]
  decide

/-- The shell of the machine runs as a program. -/
theorem tablesMachine_shell :
  ∃ (k₀ : Kernel) (s : Core) (h : History), kMain tablesImage (tablesMachine 64) = some k₀
    ∧ Reachable (History.step tablesEntry) (CoreEvent.Admitted tablesImage)
      (⟨idleCpu, k₀⟩, History.initial) (s, h)
    ∧ Core.InKernel tablesImage idleCpu ∧ s.current = 1 ∧ s.cpu.ring = 3
  := by
  obtain ⟨k₀, hboot⟩ := kMain_tablesMachine (n := 64) (by decide) (by decide)
  obtain ⟨_, _, hbooted, hnotRun⟩ := kMain_started (tablesMachine_disjoint 64) hboot
  have hstack := idleCpu_onStack_tables hbooted.currentProc
  obtain ⟨s, h, hreach, hcurrent, hring⟩ := hbooted.entersShell hnotRun hstack
  exact ⟨k₀, s, h, hboot, hreach, hstack.inKernel, hcurrent, hring⟩

/-! ### Every run -/

section
variable {machine : Machine} {k₀ : Kernel} {entry : Entry image} {c₀ : Cpu}
  {r : Core × History}

/-- In every state of a run in bounds the invariant holds, and the image of the kernel is as the
loader has left it. -/
theorem Reachable.sound_image (hmap : DisjointRegions machine.memMap)
    (h₀ : kMain image machine = some k₀) (hc : Core.InKernel image c₀)
    (hreach : Reachable (History.step entry) (CoreEvent.Admitted image)
      (⟨c₀, k₀⟩, History.initial) r) :
  Sound image r.1 r.2
    ∧ ImageSame image (Kernel.initial machine).memory.bytes r.1.kernel.memory.bytes
  := by
  obtain ⟨xs, L, hbooted, hrun⟩ := kMain_started hmap h₀
  apply hreach.invariant (P := fun r => Sound image r.1 r.2
    ∧ ImageSame image (Kernel.initial machine).memory.bytes r.1.kernel.memory.bytes)
  · rintro event t t' ⟨ht, hsame⟩ hok hstep
    obtain ⟨s, hrun, rfl⟩ := Option.map_eq_some_iff.mp hstep
    exact ⟨ht.step hok.1 hok.2 hrun, hsame.trans (ht.imageSame hok.1 hok.2 hrun)⟩
  · exact ⟨hbooted.sound hrun hc, (kMain_program hmap h₀).2.imageSame⟩

/-- In every state of a run in bounds, the image of the kernel is as the loader has left it. -/
theorem reachable_imageSame (hmap : DisjointRegions machine.memMap)
    (h₀ : kMain image machine = some k₀) (hc : Core.InKernel image c₀)
    (hreach : Reachable (History.step entry) (CoreEvent.Admitted image)
      (⟨c₀, k₀⟩, History.initial) r) :
  ImageSame image (Kernel.initial machine).memory.bytes r.1.kernel.memory.bytes
  := (Reachable.sound_image hmap h₀ hc hreach).2

/-- While the shell runs, the descriptor of the code of the kernel is in the image. -/
theorem reachable_imageSame_small :
  ∃ (k₀ : Kernel) (r : Core × History), kMain tablesImage (tablesMachine 64) = some k₀
    ∧ Reachable (History.step tablesEntry) (CoreEvent.Admitted tablesImage)
      (⟨idleCpu, k₀⟩, History.initial) r
    ∧ r.1.cpu.ring = 3 ∧ r.1.kernel.memory.bytes (tablesSymbols.gdt64 + 13) = 0x98
  := by
  obtain ⟨k₀, s, h, hboot, hreach, hc, _, hring⟩ := tablesMachine_shell
  have hsame := reachable_imageSame (tablesMachine_disjoint 64) hboot hc hreach
  refine ⟨k₀, (s, h), hboot, hreach, hring, ?_⟩
  obtain ⟨hlo, hhi⟩ := tablesImage_linked.gdt
  have hin : InImage tablesImage (tablesSymbols.gdt64 + 13) :=
    ⟨hlo.trans (Nat.le_add_right _ _), (Nat.add_lt_add_left (by decide) _).trans_le hhi⟩
  have hdata := (tablesMachine_placed 64).gdt 13 (by decide)
  exact (hsame _ hin).trans hdata

/-- In every state of a run in bounds, every event of a program is taken as the interrupt with
its own number, if this has a vector and the program may raise it, and as a general protection
exception or a double fault otherwise. -/
theorem reachable_takes {sym : Symbols} (hmap : DisjointRegions machine.memMap)
    (h₀ : kMain image machine = some k₀) (hc : Core.InKernel image c₀)
    (hreach : Reachable (History.step entry) (CoreEvent.Admitted image)
      (⟨c₀, k₀⟩, History.initial) r)
    (hlinked : Linked image sym) (hplaced : Placed sym (Kernel.initial machine).memory.bytes)
    (hring : r.1.cpu.ring = 3) (e : Protection.Event) (errorCode : ℕ) :
  ∃ s', r.1.Takes entry sym e errorCode (reached 3 e) (reachedCode 3 e errorCode) s'
  := by
  obtain ⟨hsound, hsame⟩ := Reachable.sound_image hmap h₀ hc hreach
  exact hsound.takes hring (hlinked.placed hplaced hsame) e errorCode

/-- A system call of the shell, `INT 3`, and a division by zero. -/
theorem reachable_takes_small :
  ∃ (k₀ : Kernel) (r : Core × History), kMain tablesImage (tablesMachine 64) = some k₀
    ∧ Reachable (History.step tablesEntry) (CoreEvent.Admitted tablesImage)
      (⟨idleCpu, k₀⟩, History.initial) r
    ∧ r.1.cpu.ring = 3
    ∧ (∃ s', r.1.Takes tablesEntry tablesSymbols (.software 128) 0 128 0 s')
    ∧ (∃ s', r.1.Takes tablesEntry tablesSymbols (.software 3) 0 13 26 s')
    ∧ ∃ s', r.1.Takes tablesEntry tablesSymbols (.hardware 0) 0 0 0 s'
  := by
  obtain ⟨k₀, s, h, hboot, hreach, hc, _, hring⟩ := tablesMachine_shell
  have htakes := reachable_takes (tablesMachine_disjoint 64) hboot hc hreach tablesImage_linked
    (tablesMachine_placed 64) hring
  exact ⟨k₀, (s, h), hboot, hreach, hring, htakes (.software 128) 0, htakes (.software 3) 0,
    htakes (.hardware 0) 0⟩

/-- In every state of a run in bounds, a program may use the ports of the devices that the kernel
drives, and no ports from 824 on. -/
theorem reachable_ports {sym : Symbols} (hmap : DisjointRegions machine.memMap)
    (h₀ : kMain image machine = some k₀) (hc : Core.InKernel image c₀)
    (hreach : Reachable (History.step entry) (CoreEvent.Admitted image)
      (⟨c₀, k₀⟩, History.initial) r)
    (hlinked : Linked image sym) (hplaced : Placed sym (Kernel.initial machine).memory.bytes)
    (hring : r.1.cpu.ring = 3) :
  (∀ port ∈ devicePorts, Protection.PortOpen (r.1.tables sym) r.1.cpu.ring 0 port)
    ∧ ∀ port, 824 ≤ port → ¬ Protection.PortOpen (r.1.tables sym) r.1.cpu.ring 0 port
  := by
  obtain ⟨hsound, hsame⟩ := Reachable.sound_image hmap h₀ hc hreach
  have hplaced' := hlinked.placed hplaced hsame
  rw [hring]
  constructor
  · exact fun port hport => (hplaced'.portOpen_iff port).mpr (hsound.openPort hring hport)
  · intro port hport hopen
    have hlt : OpenPort (r.1.kernel.scheduler.rsp0 % 2 ^ 64) port :=
      (hplaced'.portOpen_iff port).mp hopen
    unfold OpenPort at hlt
    omega

/-- The shell may use the command port of the first interrupt controller. -/
theorem reachable_ports_small :
  ∃ (k₀ : Kernel) (r : Core × History), kMain tablesImage (tablesMachine 64) = some k₀
    ∧ Reachable (History.step tablesEntry) (CoreEvent.Admitted tablesImage)
      (⟨idleCpu, k₀⟩, History.initial) r
    ∧ r.1.cpu.ring = 3 ∧ Protection.PortOpen (r.1.tables tablesSymbols) r.1.cpu.ring 0 0x20
    ∧ ¬ Protection.PortOpen (r.1.tables tablesSymbols) r.1.cpu.ring 0 0x3F8
  := by
  obtain ⟨k₀, s, h, hboot, hreach, hc, _, hring⟩ := tablesMachine_shell
  obtain ⟨hopen, hclosed⟩ := reachable_ports (tablesMachine_disjoint 64) hboot hc hreach
    tablesImage_linked (tablesMachine_placed 64) hring
  exact ⟨k₀, (s, h), hboot, hreach, hring, hopen 0x20 (by decide), hclosed 0x3F8 (by decide)⟩

end

end LarvaOS
