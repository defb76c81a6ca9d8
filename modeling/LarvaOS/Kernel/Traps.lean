import LarvaOS.Kernel.Switching
import LarvaOS.Process.Interrupts

/-!
# Traps of programs

The processor together with the kernel.  Programs run in ring 3; a trap enters the kernel through
a vector, the functions of the kernel run on the kernel stack of the process, and `TrapReturn`
leaves the kernel.  A function of the kernel that chooses another process calls `ContextSwitch`.
The handlers of traps run with interrupts off, since the entries of the interrupt table are
interrupt gates; what IDLE does, its own traps from ring 0 included, is code of the kernel.

`History` records what the processor had in its registers when a process was stopped: at its last
trap, with what its handler has written to the frame through `tf`, and at its last call of
`ContextSwitch`.
-/

namespace LarvaOS

variable {image : Image}

instance (k : Kernel) (i : Slot) : Decidable (k.HasStack i) :=
  inferInstanceAs (Decidable (i = idleSlot ∨ k.Live i))

/-- The address of `InterruptHandler`, which is not the one of `TrapReturn`. -/
structure Entry (image : Image) where
  interruptHandler : UInt64
  apart : interruptHandler ≠ UInt64.ofNat image.trapReturn

/-- The address of `TrapReturn`. -/
def Image.trapReturnWord (image : Image) : UInt64 := UInt64.ofNat image.trapReturn

/-- The processor and the kernel. -/
structure Core where
  cpu : Cpu
  kernel : Kernel

/-- What happens on the processor. -/
inductive CoreEvent where
  /-- A program computes. -/
  | user (c : Cpu)
  /-- A program stores a byte. -/
  | store (v : ℕ) (byte : UInt8)
  /-- A program is interrupted, causes an exception, or makes a system call. -/
  | interrupt (number : ℕ) (errorCode : UInt64)
  /-- A function of the kernel computes. -/
  | code (c : Cpu)
  /-- A function of the kernel stores a byte on its stack. -/
  | push (offset : ℕ) (byte : UInt8)
  /-- `SysRead` stores a key through the pointer of the program. -/
  | keyStore (v : ℕ) (byte : UInt8)
  /-- `SystemCall` stores the result of a system call to `tf->rax`. -/
  | setRax (v : UInt64)
  /-- A function of the kernel is called. `c` are the registers when it calls `ContextSwitch`, or
  when it returns. -/
  | call (op : Operation) (c : Cpu)
  /-- `InterruptHandler` returns. -/
  | handlerReturn
  /-- `TrapReturn` runs. -/
  | trapReturn

/-- Replace the contents of the memory. -/
def Kernel.setBytes (k : Kernel) (b : Bytes) : Kernel :=
  { k with memory := { k.memory with bytes := b } }

/-- Store the address of a context in a process. -/
def Kernel.setContext (k : Kernel) (i : Slot) (a : ℕ) : Kernel :=
  k.setProcess i { k.process i with context := a }

/-- The end of the part of a kernel stack on which functions run. Above it are, on the stack of a
process, the return address of `InterruptHandler` and the trap frame. -/
def Kernel.stackEnd (k : Kernel) (i : Slot) : ℕ :=
  if i = idleSlot then kernelVirtualAddressBase + stackSize else (k.process i).tf - 8

theorem SameFrame.stackEnd {k k' : Kernel} {i : Slot} (h : SameFrame k k' i) :
  k'.stackEnd i = k.stackEnd i
  := by
  unfold Kernel.stackEnd
  rw [h.tf]

namespace Core

/-- The process that runs. -/
def current (s : Core) : Slot := s.kernel.currentProc

/-- Execute instructions in the memory of the kernel. -/
def execution (s : Core) : Execution := ⟨s.cpu, s.kernel.memory.bytes, 0⟩

/-- The state after instructions were executed. -/
def executed (s : Core) (t : Execution) : Core := ⟨t.cpu, s.kernel.setBytes t.bytes⟩

@[simp]
theorem executed_process (s : Core) (t : Execution) (i : Slot) :
  (s.executed t).kernel.process i = s.kernel.process i
  := rfl

@[simp]
theorem executed_current (s : Core) (t : Execution) :
  (s.executed t).current = s.current
  := rfl

@[simp]
theorem executed_end (s : Core) (t : Execution) :
  (s.executed t).kernel.memory.freeMemoryEndAddress = s.kernel.memory.freeMemoryEndAddress
  := rfl

/-- The registers of a function of the kernel. -/
def InKernel (image : Image) (c : Cpu) : Prop := c.ring = 0 ∧ c.rip ≠ image.trapReturnWord

instance (c : Cpu) : Decidable (InKernel image c) :=
  inferInstanceAs (Decidable (c.ring = 0 ∧ c.rip ≠ image.trapReturnWord))

/-- `TrapReturn` is executed next. -/
def AtTrapReturn (image : Image) (c : Cpu) : Prop := c.ring = 0 ∧ c.rip = image.trapReturnWord

instance (c : Cpu) : Decidable (AtTrapReturn image c) :=
  inferInstanceAs (Decidable (c.ring = 0 ∧ c.rip = image.trapReturnWord))

/-- `ContextSwitch(&prev->context, new->context)`, called with the registers `c`. -/
def switch (prev : Slot) (c : Cpu) (k : Kernel) : Core :=
  let t := run contextSwitch (Execution.push c.rip
    ⟨c.set .rsi (UInt64.ofNat (k.process k.currentProc).context), k.memory.bytes, 0⟩)
  ⟨t.cpu, (k.setBytes t.bytes).setContext prev t.context.toNat⟩

/-- `ContextSwitch` changes the field `context` of the process that calls it, and the contents of
the memory. -/
theorem switch_kernel (prev : Slot) (c : Cpu) (k : Kernel) :
  ∃ b a, (switch prev c k).kernel = (k.setBytes b).setContext prev a
  := ⟨_, _, rfl⟩

/-- The end of a call: when another process was chosen, `SwitchProcess` calls `ContextSwitch`. -/
def afterCall (prev : Slot) (c : Cpu) (k : Kernel) : Core :=
  if k.currentProc = prev then ⟨c, k⟩ else switch prev c k

/-- A step of the processor. -/
def step (entry : Entry image) (event : CoreEvent) (s : Core) : Option Core :=
  match event with
  | .user c => if s.cpu.ring = 3 ∧ c.ring = 3 then some { s with cpu := c } else none
  | .store v byte =>
      if s.cpu.ring = 3 then
        (s.kernel.memory.storeUser s.kernel.scheduler.cr3 v byte).map (fun m =>
          { s with kernel := { s.kernel with memory := m } })
      else none
  | .interrupt number errorCode =>
      if s.cpu.ring = 3 then
        (vector number).map (fun code =>
          s.executed (run (code ++ trap entry.interruptHandler image.trapReturnWord)
            (interrupt (UInt64.ofNat s.kernel.scheduler.rsp0) number errorCode s.execution)))
      else none
  | .code c => if InKernel image s.cpu then some { s with cpu := c } else none
  | .push offset byte =>
      if InKernel image s.cpu then
        some ⟨s.cpu, s.kernel.setBytes
          (Function.update s.kernel.memory.bytes (s.kernel.stackBase s.current + offset) byte)⟩
      else none
  | .keyStore v byte =>
      if InKernel image s.cpu then
        (s.kernel.memory.store s.kernel.scheduler.cr3 v byte).map (fun m =>
          { s with kernel := { s.kernel with memory := m } })
      else none
  | .setRax v =>
      if InKernel image s.cpu then
        some { s with kernel := { s.kernel with
          memory := s.kernel.memory.storeWord ((s.kernel.process s.current).tf + 112) v.toNat } }
      else none
  | .call op c =>
      if InKernel image s.cpu ∧ op.entersKernel then
        (s.kernel.step image op).map (afterCall s.current c)
      else none
  | .handlerReturn =>
      if InKernel image s.cpu then some (s.executed (run [.ret] s.execution)) else none
  | .trapReturn =>
      if AtTrapReturn image s.cpu then some (s.executed (run LarvaOS.trapReturn s.execution))
      else none

end Core

/-! ### The compiled code -/

/-- The registers of a function that runs on the stack of the current process, with room for a
context. -/
structure Core.OnStack (image : Image) (s : Core) (c : Cpu) : Prop where
  inKernel : Core.InKernel image c
  rsp : ∃ a, s.kernel.stackBase s.current ≤ a ∧ a + 56 ≤ s.kernel.stackEnd s.current
    ∧ c.reg .rsp = UInt64.ofNat (a + 56)

/-- The functions of the kernel follow the calling convention: they stay in ring 0, on their part
of the stack, and return with the stack pointer with which they were called. The functions of
system calls are called for processes only. -/
def CoreEvent.Conventional (image : Image) (event : CoreEvent) (s : Core) : Prop :=
  match event with
  | .code c => Core.InKernel image c
  | .push offset _ => s.kernel.stackBase s.current + offset < s.kernel.stackEnd s.current
  | .keyStore _ _ => s.current ≠ idleSlot
  | .setRax _ => s.current ≠ idleSlot
  | .call op c => Allowed op s.kernel ∧ s.OnStack image c
  | .handlerReturn => s.current ≠ idleSlot
      ∧ s.cpu.reg .rsp = UInt64.ofNat ((s.kernel.process s.current).tf - 8)
  | _ => True

/-- Keys go to the user page, and the requests of file operations fit the user page and the
temporary page. -/
def CoreEvent.StaysInBounds (image : Image) (event : CoreEvent) (s : Core) : Prop :=
  match event with
  | .keyStore v _ => InUserPage v
  | .call op _ => Owned.Confined image op s.kernel
  | _ => True

/-! ### The history -/

/-- The registers with which processes were stopped: in the frame of the last trap, and at the
last call of `ContextSwitch`, which a new process has not made. -/
structure History where
  saved : Slot → TrapFrame
  paused : Slot → Option Cpu

namespace History

/-- Before the first trap. -/
def initial : History where
  saved _ := TrapFrame.user
  paused _ := none

/-- A handler has written to the frame. -/
def write (h : History) (i : Slot) (f : TrapFrame) : History :=
  { h with saved := Function.update h.saved i f }

/-- A process was stopped in `ContextSwitch`. -/
def pause (h : History) (i : Slot) (c : Cpu) : History :=
  { h with paused := Function.update h.paused i (some c) }

/-- The child of `Fork` goes on like its parent, with zero in `rax`. -/
def fork (h : History) (k k' : Kernel) : History where
  saved i := if ¬ k.HasStack i ∧ k'.HasStack i then { h.saved k.currentProc with rax := 0 }
    else h.saved i
  paused i := if ¬ k.HasStack i ∧ k'.HasStack i then none else h.paused i

/-- The history after a function of the kernel led from `k` to `k'`, before `ContextSwitch`:
`Exec` rewrites the frame. -/
def called (h : History) (op : Operation) (k k' : Kernel) : History :=
  if op.Restarts k k' then (h.fork k k').write k.currentProc TrapFrame.user else h.fork k k'

/-- The history after a call of a function of the kernel. -/
def call (h : History) (op : Operation) (c : Cpu) (k k' : Kernel) : History :=
  if k'.currentProc = k.currentProc then h.called op k k'
  else (h.called op k k').pause k.currentProc c

/-- The history after an event that led from `s` to `s'`. -/
def next (h : History) (event : CoreEvent) (s s' : Core) : History :=
  match event with
  | .interrupt number errorCode => h.write s.current
      (s.cpu.trapFrame (UInt64.ofNat number) (frameErrorCode number errorCode))
  | .setRax v => h.write s.current { h.saved s.current with rax := v.toNat }
  | .call op c => h.call op c s.kernel s'.kernel
  | _ => h

@[simp]
theorem next_user (h : History) (c : Cpu) (s s' : Core) :
  h.next (.user c) s s' = h
  := rfl

@[simp]
theorem next_trapReturn (h : History) (s s' : Core) :
  h.next .trapReturn s s' = h
  := rfl

/-- A step of the processor with its history. -/
def step (entry : Entry image) (event : CoreEvent) (r : Core × History) :
    Option (Core × History) :=
  (r.1.step entry event).map (fun s => (s, r.2.next event r.1 s))

end History

end LarvaOS
