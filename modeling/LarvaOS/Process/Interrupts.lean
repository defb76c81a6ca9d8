import LarvaOS.Library.WordStack
import LarvaOS.Process.TrapFrame

/-!
# Entering and leaving the kernel

The routines of `kernel/trap.asm` as sequences of instructions: the vectors, `Trap`,
`TrapReturn` and `ContextSwitch`.  A vector and `Trap` push the registers of a program in the
order of `TrapFrame`, `TrapReturn` pops them in the opposite order, and `ContextSwitch`
exchanges the registers that a function of the compiled code keeps.
-/

namespace LarvaOS

/-! ### The processor -/

/-- The general registers. -/
inductive Register where
  | rax
  | rbx
  | rcx
  | rdx
  | rsi
  | rdi
  | rbp
  | rsp
  | r8
  | r9
  | r10
  | r11
  | r12
  | r13
  | r14
  | r15
  deriving DecidableEq

/-- The registers of the processor. -/
structure Cpu where
  reg : Register → UInt64
  rip : UInt64
  rflags : UInt64
  cs : UInt64
  ss : UInt64

namespace Cpu

/-- The ring in which the processor runs. -/
def ring (c : Cpu) : ℕ := c.cs.toNat % 4

/-- Store to a register. -/
def set (c : Cpu) (r : Register) (v : UInt64) : Cpu := { c with reg := Function.update c.reg r v }

@[simp]
theorem set_self (c : Cpu) (r : Register) (v : UInt64) :
  (c.set r v).reg r = v
  := Function.update_self _ _ _

@[simp]
theorem set_of_ne {r r' : Register} (h : r' ≠ r) (c : Cpu) (v : UInt64) :
  (c.set r v).reg r' = c.reg r'
  := Function.update_of_ne h _ _

@[simp]
theorem set_set (c : Cpu) (r : Register) (v w : UInt64) :
  (c.set r v).set r w = c.set r w
  := congrArg (fun reg => { c with reg := reg }) (Function.update_idem _ _ _)

/-- The frame of a program with these registers that an interrupt stops. -/
def trapFrame (c : Cpu) (trapno errorCode : UInt64) : TrapFrame where
  r15 := (c.reg .r15).toNat
  r14 := (c.reg .r14).toNat
  r13 := (c.reg .r13).toNat
  r12 := (c.reg .r12).toNat
  r11 := (c.reg .r11).toNat
  r10 := (c.reg .r10).toNat
  r9 := (c.reg .r9).toNat
  r8 := (c.reg .r8).toNat
  rbp := (c.reg .rbp).toNat
  rdi := (c.reg .rdi).toNat
  rsi := (c.reg .rsi).toNat
  rdx := (c.reg .rdx).toNat
  rcx := (c.reg .rcx).toNat
  rbx := (c.reg .rbx).toNat
  rax := (c.reg .rax).toNat
  trapno := trapno.toNat
  errorCode := errorCode.toNat
  rip := c.rip.toNat
  cs := c.cs.toNat
  rflags := c.rflags.toNat
  rsp := (c.reg .rsp).toNat
  ss := c.ss.toNat

end Cpu

namespace TrapFrame

/-- The general registers that a frame holds. -/
def reg (f : TrapFrame) : Register → ℕ
  | .rax => f.rax
  | .rbx => f.rbx
  | .rcx => f.rcx
  | .rdx => f.rdx
  | .rsi => f.rsi
  | .rdi => f.rdi
  | .rbp => f.rbp
  | .rsp => f.rsp
  | .r8 => f.r8
  | .r9 => f.r9
  | .r10 => f.r10
  | .r11 => f.r11
  | .r12 => f.r12
  | .r13 => f.r13
  | .r14 => f.r14
  | .r15 => f.r15

/-- The registers of a program that is resumed from a frame. -/
def cpu (f : TrapFrame) : Cpu where
  reg r := UInt64.ofNat (f.reg r)
  rip := UInt64.ofNat f.rip
  rflags := UInt64.ofNat f.rflags
  cs := UInt64.ofNat f.cs
  ss := UInt64.ofNat f.ss

end TrapFrame

/-- The frame of a program holds all of its registers. -/
theorem Cpu.cpu_trapFrame (c : Cpu) (trapno errorCode : UInt64) :
  (c.trapFrame trapno errorCode).cpu = c
  := by
  have hreg : (c.trapFrame trapno errorCode).cpu.reg = c.reg := by
    funext r
    cases r
    all_goals exact UInt64.ofNat_toNat
  cases c
  simp only [TrapFrame.cpu, Cpu.trapFrame, UInt64.ofNat_toNat, Cpu.mk.injEq] at hreg ⊢
  exact ⟨hreg, trivial, trivial, trivial, trivial⟩

/-! ### Instructions -/

/-- What instructions work on: the processor, the memory, and the field `context` of a process
to which `rdi` points in `ContextSwitch`. -/
structure Execution where
  cpu : Cpu
  bytes : Bytes
  context : UInt64

/-- The instructions of `trap.asm`. -/
inductive Instruction where
  | push (r : Register)
  | pushNumber (v : UInt64)
  | pop (r : Register)
  | mov (r r' : Register)
  | storeRsp
  | add (r : Register) (v : UInt64)
  | call (target next : UInt64)
  | ret
  | iretq

namespace Execution

/-- The stack pointer. -/
abbrev rsp (s : Execution) : UInt64 := s.cpu.reg .rsp

/-- Push a word. -/
def push (v : UInt64) (s : Execution) : Execution :=
  let t := Bytes.pushWord (s.bytes, s.rsp) v
  { s with cpu := s.cpu.set .rsp t.2, bytes := t.1 }

/-- Push words, the first one first. -/
def pushAll (vs : List UInt64) (s : Execution) : Execution :=
  let t := Bytes.pushWords (s.bytes, s.rsp) vs
  { s with cpu := s.cpu.set .rsp t.2, bytes := t.1 }

/-- The word with the given index above the stack pointer. -/
def stackWord (s : Execution) (i : ℕ) : UInt64 := s.bytes.wordAt (s.rsp.toNat + 8 * i)

end Execution

/-- Execute an instruction. `iretq` leaves ring 0 with all the registers that the processor
pushed. -/
def Instruction.run (i : Instruction) (s : Execution) : Execution :=
  match i with
  | .push r => s.push (s.cpu.reg r)
  | .pushNumber v => s.push v
  | .pop r => { s with cpu := (s.cpu.set .rsp (s.rsp + 8)).set r (s.stackWord 0) }
  | .mov r r' => { s with cpu := s.cpu.set r (s.cpu.reg r') }
  | .storeRsp => { s with context := s.rsp }
  | .add r v => { s with cpu := s.cpu.set r (s.cpu.reg r + v) }
  | .call target next => { s.push next with cpu := { (s.push next).cpu with rip := target } }
  | .ret => { s with cpu := { s.cpu.set .rsp (s.rsp + 8) with rip := s.stackWord 0 } }
  | .iretq => { s with cpu :=
      { s.cpu.set .rsp (s.stackWord 3) with
        rip := s.stackWord 0, cs := s.stackWord 1, rflags := s.stackWord 2, ss := s.stackWord 4 } }

/-- Execute instructions. -/
def run (code : List Instruction) (s : Execution) : Execution := code.foldl (fun s i => i.run s) s

/-! ### The routines -/

/-- The registers that `Trap` pushes, in order. -/
def trapRegisters : List Register :=
  [.rax, .rbx, .rcx, .rdx, .rsi, .rdi, .rbp, .r8, .r9, .r10, .r11, .r12, .r13, .r14, .r15]

/-- `Trap`, where `InterruptHandler` and `TrapReturn` have the given addresses. -/
def trap (interruptHandler trapReturn : UInt64) : List Instruction :=
  trapRegisters.map .push ++ [.mov .rdi .rsp, .call interruptHandler trapReturn]

/-- The registers that `TrapReturn` pops, in order. -/
def returnRegisters : List Register :=
  [.r15, .r14, .r13, .r12, .r11, .r10, .r9, .r8, .rbp, .rdi, .rsi, .rdx, .rcx, .rbx, .rax]

/-- `TrapReturn`. -/
def trapReturn : List Instruction := returnRegisters.map .pop ++ [.add .rsp 0x10, .iretq]

/-- The registers that a function keeps, in the order in which `ContextSwitch` pushes them. -/
def calleeSaved : List Register := [.rbx, .rbp, .r12, .r13, .r14, .r15]

/-- `ContextSwitch`. -/
def contextSwitch : List Instruction :=
  calleeSaved.map .push ++ [.storeRsp, .mov .rsp .rsi]
    ++ [.r15, .r14, .r13, .r12, .rbp, .rbx].map .pop ++ [.ret]

/-- `Vector0` to `Vector39` and `Syscall`, without the jump to `Trap`. -/
def vector : ℕ → Option (List Instruction)
  | 0 => some [.pushNumber 0, .pushNumber 0]
  | 1 => some [.pushNumber 0, .pushNumber 1]
  | 2 => some [.pushNumber 0, .pushNumber 2]
  | 3 => some [.pushNumber 0, .pushNumber 3]
  | 4 => some [.pushNumber 0, .pushNumber 4]
  | 5 => some [.pushNumber 0, .pushNumber 5]
  | 6 => some [.pushNumber 0, .pushNumber 6]
  | 7 => some [.pushNumber 0, .pushNumber 7]
  | 8 => some [.pushNumber 8]
  | 10 => some [.pushNumber 10]
  | 11 => some [.pushNumber 11]
  | 12 => some [.pushNumber 12]
  | 13 => some [.pushNumber 13]
  | 14 => some [.pushNumber 14]
  | 16 => some [.pushNumber 0, .pushNumber 16]
  | 17 => some [.pushNumber 17]
  | 18 => some [.pushNumber 0, .pushNumber 18]
  | 19 => some [.pushNumber 0, .pushNumber 19]
  | 32 => some [.pushNumber 0, .pushNumber 32]
  | 33 => some [.pushNumber 0, .pushNumber 33]
  | 39 => some [.pushNumber 0, .pushNumber 39]
  | 0x80 => some [.pushNumber 0, .pushNumber 0x80]
  | _ => none

/-- The processor pushes an error code for these exceptions. -/
def hasErrorCode (number : ℕ) : Bool := number ∈ [8, 10, 11, 12, 13, 14, 17, 21, 29, 30]

/-- The error code that the frame holds: a vector pushes zero when the processor pushes no
error code. -/
def frameErrorCode (number : ℕ) (errorCode : UInt64) : UInt64 :=
  if hasErrorCode number then errorCode else 0

/-- The words that the processor pushes when it enters ring 0. -/
def interruptWords (c : Cpu) (number : ℕ) (errorCode : UInt64) : List UInt64 :=
  [c.ss, c.reg .rsp, c.rflags, c.cs, c.rip] ++ if hasErrorCode number then [errorCode] else []

/-- The processor enters ring 0 through an interrupt gate: it takes the stack pointer from the
task state segment, aligned to 16 bytes, and clears TF, IF, NT, RF and VM. -/
def interrupt (rsp0 : UInt64) (number : ℕ) (errorCode : UInt64) (s : Execution) : Execution :=
  let t := { s with cpu := s.cpu.set .rsp (rsp0 - rsp0 % 16) }.pushAll
    (interruptWords s.cpu number errorCode)
  { t with cpu := { t.cpu with cs := 8, ss := 0, rflags := s.cpu.rflags &&& ~~~0x34300 } }

/-! ### Pushing and popping -/

theorem run_append (code code' : List Instruction) (s : Execution) :
  run (code ++ code') s = run code' (run code s)
  := List.foldl_append

namespace Execution

variable {s : Execution} {vs : List UInt64} {rs : List Register} {a : ℕ}

theorem pushAll_nil (s : Execution) :
  s.pushAll [] = s
  := by
  have hset : s.cpu.set .rsp s.rsp = s.cpu :=
    congrArg (fun reg => { s.cpu with reg := reg }) (Function.update_eq_self _ _)
  exact congrArg (fun c => { s with cpu := c }) hset

theorem pushAll_append (s : Execution) (vs ws : List UInt64) :
  s.pushAll (vs ++ ws) = (s.pushAll vs).pushAll ws
  := by
  unfold pushAll rsp
  simp only [Bytes.pushWords, List.foldl_append, Cpu.set_self, Cpu.set_set]

theorem pushAll_reg {r : Register} (h : r ≠ .rsp) (s : Execution) (vs : List UInt64) :
  (s.pushAll vs).cpu.reg r = s.cpu.reg r
  := Cpu.set_of_ne h _ _

/-- Instructions that push numbers. -/
theorem run_pushNumber (vs : List UInt64) (s : Execution) :
  run (vs.map .pushNumber) s = s.pushAll vs
  := by
  induction vs generalizing s with
  | nil => exact (pushAll_nil s).symm
  | cons v vs ih => exact (ih (s.push v)).trans (pushAll_append s [v] vs).symm

/-- Instructions that push registers. -/
theorem run_push (h : Register.rsp ∉ rs) (s : Execution) :
  run (rs.map .push) s = s.pushAll (rs.map s.cpu.reg)
  := by
  induction rs generalizing s with
  | nil => exact (pushAll_nil s).symm
  | cons r rs ih =>
      have hrs : Register.rsp ∉ rs := fun hmem => h (List.mem_cons_of_mem r hmem)
      have hreg : rs.map (s.push (s.cpu.reg r)).cpu.reg = rs.map s.cpu.reg := by
        apply List.map_congr_left
        intro r' hr'
        have hne : r' ≠ .rsp := by
          rintro rfl
          exact hrs hr'
        exact pushAll_reg hne s [s.cpu.reg r]
      have hrun : run ((r :: rs).map .push) s = run (rs.map .push) (s.push (s.cpu.reg r)) := rfl
      rw [hrun, ih hrs, hreg]
      exact (pushAll_append s [s.cpu.reg r] (rs.map s.cpu.reg)).symm

/-- Pushed words lie in memory in reverse order. -/
theorem pushAll_spec (h : a + 8 * vs.length ≤ 2 ^ 64)
    (hsp : s.rsp = UInt64.ofNat (a + 8 * vs.length)) :
  (s.pushAll vs).rsp = UInt64.ofNat a ∧ (s.pushAll vs).bytes.words a vs.length = vs.reverse
    ∧ ∀ x, x < a ∨ a + 8 * vs.length ≤ x → (s.pushAll vs).bytes x = s.bytes x
  := by
  obtain ⟨hlast, hwords, houtside⟩ := Bytes.pushWords_spec (b := s.bytes) h
  rw [← hsp] at hlast hwords houtside
  refine ⟨?_, hwords, houtside⟩
  rw [← hlast]
  exact Cpu.set_self _ _ _

end Execution

/-- The registers after `rs` were popped from the address `a` on. -/
def Cpu.popped (c : Cpu) (rs : List Register) (b : Bytes) (a : ℕ) : Cpu :=
  { c with reg := fun r =>
      if r ∈ rs then b.wordAt (a + 8 * rs.idxOf r)
      else if r = .rsp then UInt64.ofNat (a + 8 * rs.length)
      else c.reg r }

theorem Cpu.popped_cons {r : Register} {rs : List Register} (hr : r ∉ rs) (hrsp : r ≠ .rsp)
    (c : Cpu) (v : UInt64) (b : Bytes) (a : ℕ) :
  ((c.set .rsp v).set r (b.wordAt a)).popped rs b (a + 8) = c.popped (r :: rs) b a
  := by
  apply congrArg (fun reg => ({ c with reg := reg } : Cpu))
  funext r'
  by_cases e : r' = r
  · subst e
    rw [if_neg hr, if_neg hrsp, if_pos List.mem_cons_self, List.idxOf_cons_self, Cpu.set_self]
    rfl
  · have hmem : r' ∈ r :: rs ↔ r' ∈ rs := by
      rw [List.mem_cons]
      exact or_iff_right e
    have hindex : (r :: rs).idxOf r' = rs.idxOf r' + 1 := List.idxOf_cons_ne rs (Ne.symm e)
    have hlength : a + 8 + 8 * rs.length = a + 8 * (r :: rs).length := by
      rw [List.length_cons]
      omega
    have haddress : a + 8 + 8 * rs.idxOf r' = a + 8 * (r :: rs).idxOf r' := by
      rw [hindex]
      omega
    rw [hlength, haddress]
    simp only [hmem, Cpu.set_of_ne e]
    by_cases e' : r' = .rsp
    · rw [if_pos e', if_pos e']
    · rw [if_neg e', if_neg e', Cpu.set_of_ne e']

/-- Instructions that pop registers. -/
theorem run_pop {rs : List Register} {s : Execution} {a : ℕ} (hnodup : rs.Nodup)
    (hrsp : Register.rsp ∉ rs) (h : a + 8 * rs.length ≤ 2 ^ 64) (hsp : s.rsp = UInt64.ofNat a) :
  run (rs.map .pop) s = { s with cpu := s.cpu.popped rs s.bytes a }
  := by
  induction rs generalizing s a with
  | nil =>
      have hreg : (s.cpu.popped [] s.bytes a).reg = s.cpu.reg := by
        funext r
        by_cases e : r = .rsp
        · subst e
          exact hsp.symm
        · exact if_neg e
      exact congrArg (fun reg => { s with cpu := { s.cpu with reg := reg } }) hreg.symm
  | cons r rs ih =>
      rw [List.length_cons] at h
      obtain ⟨hr, hnodup'⟩ := List.nodup_cons.mp hnodup
      have hne : r ≠ .rsp := fun e => hrsp (e ▸ List.mem_cons_self)
      have hrs : Register.rsp ∉ rs := fun hmem => hrsp (List.mem_cons_of_mem r hmem)
      have hword : s.stackWord 0 = s.bytes.wordAt a := by
        rw [Execution.stackWord, hsp, UInt64.toNat_ofNat_of_lt' (by omega : a < 2 ^ 64)]
        rfl
      have hrun : run ((r :: rs).map .pop) s = run (rs.map .pop)
          { s with cpu := (s.cpu.set .rsp (s.rsp + 8)).set r (s.stackWord 0) } := rfl
      rw [hrun, ih hnodup' hrs (a := a + 8) (by omega)]
      · rw [hword]
        exact congrArg (fun c => ({ s with cpu := c } : Execution))
          (Cpu.popped_cons hr hne s.cpu (s.rsp + 8) s.bytes a)
      · unfold Execution.rsp
        rw [Cpu.set_of_ne (Ne.symm hne), Cpu.set_self]
        exact (congrArg (· + 8) hsp).trans (UInt64.ofNat_add a 8).symm

/-! ### The trap frame -/

/-- A frame is given by its words. -/
theorem TrapFrame.load_eq_words (b : Bytes) (a : ℕ) :
  TrapFrame.load b a = TrapFrame.ofWords (fun i => ((b.words a 22).getD i 0).toNat)
  := by
  apply TrapFrame.ofWords_congr
  intro i hi
  have hword : (b.words a 22).getD i 0 = b.wordAt (a + 8 * i) := by
    unfold Bytes.words
    rw [List.getD_eq_getElem _ _ (by simpa using hi), List.getElem_map, List.getElem_range]
  rw [hword, Bytes.wordAt, UInt64.toNat_ofNat_of_lt' (b.readWord_lt _)]

/-- The numbers that a vector pushes. -/
def vectorWords (number : ℕ) : List UInt64 :=
  (if hasErrorCode number then [] else [0]) ++ [UInt64.ofNat number]

/-- A vector pushes an error code when the processor pushes none. -/
theorem vector_eq {number : ℕ} {code : List Instruction} (h : vector number = some code) :
  code = (vectorWords number).map .pushNumber
  := by
  unfold vector at h
  split at h
  all_goals cases h
  all_goals rfl

/-- The words that are pushed between an interrupt and the call of `InterruptHandler`. -/
def frameWords (c : Cpu) (number : ℕ) (errorCode : UInt64) : List UInt64 :=
  interruptWords c number errorCode ++ vectorWords number ++ trapRegisters.map c.reg

theorem length_frameWords (c : Cpu) (number : ℕ) (errorCode : UInt64) :
  (frameWords c number errorCode).length = 22
  := by
  unfold frameWords interruptWords vectorWords
  cases hasErrorCode number
  · rfl
  · rfl

/-- The pushed words are the fields of `TrapFrame`, the last word first. -/
theorem ofWords_frameWords (c : Cpu) (number : ℕ) (errorCode : UInt64) :
  TrapFrame.ofWords (fun i => ((frameWords c number errorCode).reverse.getD i 0).toNat)
    = c.trapFrame (UInt64.ofNat number) (frameErrorCode number errorCode)
  := by
  unfold frameWords interruptWords vectorWords frameErrorCode
  cases hasErrorCode number
  · rfl
  · rfl

/-- The processor before it pushes the first word. -/
def Execution.entered (s : Execution) (rsp : UInt64) : Execution :=
  { s with cpu := { s.cpu.set .rsp rsp with
      cs := 8, ss := 0, rflags := s.cpu.rflags &&& ~~~0x34300 } }

theorem ofNat_sub_mod {a : ℕ} (h : a % 16 = 0) :
  UInt64.ofNat a - UInt64.ofNat a % 16 = UInt64.ofNat a
  := by
  have hmod : UInt64.ofNat a % 16 = 0 := by
    apply UInt64.toNat_inj.mp
    rw [UInt64.toNat_mod, UInt64.toNat_ofNat']
    show a % 2 ^ 64 % 16 = 0
    omega
  rw [hmod, UInt64.sub_zero]

/-- The words that are pushed when the kernel is entered. -/
theorem run_vector {s : Execution} {number top : ℕ} {code : List Instruction} (errorCode : UInt64)
    (hcode : vector number = some code) (htop : top % 16 = 0) :
  run (code ++ trapRegisters.map .push) (interrupt (UInt64.ofNat top) number errorCode s)
    = (s.entered (UInt64.ofNat top)).pushAll (frameWords s.cpu number errorCode)
  := by
  have hinterrupt : interrupt (UInt64.ofNat top) number errorCode s
      = (s.entered (UInt64.ofNat top)).pushAll (interruptWords s.cpu number errorCode) := by
    unfold interrupt
    rw [ofNat_sub_mod htop]
    rfl
  have hreg : trapRegisters.map (((s.entered (UInt64.ofNat top)).pushAll
      (interruptWords s.cpu number errorCode ++ vectorWords number)).cpu.reg)
      = trapRegisters.map s.cpu.reg := by
    apply List.map_congr_left
    intro r hr
    have hne : r ≠ .rsp := by
      rintro rfl
      revert hr
      decide
    rw [Execution.pushAll_reg hne]
    exact Cpu.set_of_ne hne _ _
  rw [run_append, hinterrupt, vector_eq hcode, Execution.run_pushNumber,
    ← Execution.pushAll_append, Execution.run_push (by decide), hreg, ← Execution.pushAll_append]
  rfl

/-- An interrupt leaves the registers of the program in a trap frame below the stack pointer of
the task state segment, and calls `InterruptHandler` with the address of the frame. -/
theorem enter_spec {s : Execution} {number tf : ℕ} {code : List Instruction}
    {errorCode interruptHandler trapReturn : UInt64} (hcode : vector number = some code)
    (hlo : 8 ≤ tf) (htop : tf + sizeofTrapFrame ≤ 2 ^ 64)
    (halign : (tf + sizeofTrapFrame) % 16 = 0) :
  ∃ t, run (code ++ trap interruptHandler trapReturn)
      (interrupt (UInt64.ofNat (tf + sizeofTrapFrame)) number errorCode s) = t
    ∧ t.cpu.ring = 0 ∧ t.cpu.rip = interruptHandler ∧ t.cpu.reg .rdi = UInt64.ofNat tf
    ∧ t.rsp = UInt64.ofNat (tf - 8) ∧ t.bytes.wordAt (tf - 8) = trapReturn
    ∧ TrapFrame.load t.bytes tf
      = s.cpu.trapFrame (UInt64.ofNat number) (frameErrorCode number errorCode)
    ∧ ∀ x, x < tf - 8 ∨ tf + sizeofTrapFrame ≤ x → t.bytes x = s.bytes x
  := by
  have hsize : sizeofTrapFrame = 176 := rfl
  have hlength := length_frameWords s.cpu number errorCode
  generalize hu : (s.entered (UInt64.ofNat (tf + sizeofTrapFrame))).pushAll
    (frameWords s.cpu number errorCode) = u
  obtain ⟨hrsp, hwords, houtside⟩ := @Execution.pushAll_spec
    (s.entered (UInt64.ofNat (tf + sizeofTrapFrame))) (frameWords s.cpu number errorCode) tf
    (by omega) (by
      rw [hlength]
      exact Cpu.set_self s.cpu .rsp (UInt64.ofNat (tf + sizeofTrapFrame)))
  rw [hu] at hrsp hwords houtside
  rw [hlength] at hwords houtside
  have hsub : u.rsp - 8 = UInt64.ofNat (tf - 8) := by
    rw [hrsp, ← Bytes.ofNat_sub_eight (tf - 8), Nat.sub_add_cancel hlo]
  have hrun : run (code ++ trap interruptHandler trapReturn)
      (interrupt (UInt64.ofNat (tf + sizeofTrapFrame)) number errorCode s)
      = run [.mov .rdi .rsp, .call interruptHandler trapReturn] u := by
    rw [trap, ← List.append_assoc, run_append, run_vector errorCode hcode halign, hu]
  have hcall : run [.mov .rdi .rsp, .call interruptHandler trapReturn] u
      = { u with
          cpu := { (u.cpu.set .rdi u.rsp).set .rsp (u.rsp - 8) with rip := interruptHandler }
          bytes := u.bytes.writeWord (u.rsp - 8).toNat trapReturn.toNat } := rfl
  rw [hrun, hcall, hsub, UInt64.toNat_ofNat_of_lt' (by omega : tf - 8 < 2 ^ 64)]
  have hcs : u.cpu.cs = 8 := by
    rw [← hu]
    rfl
  refine ⟨_, rfl, ?_, rfl, ?_, Cpu.set_self (u.cpu.set .rdi u.rsp) .rsp _,
    Bytes.wordAt_writeWord_self, ?_, ?_⟩
  · show u.cpu.cs.toNat % 4 = 0
    rw [hcs]
    rfl
  · rw [← hrsp]
    rfl
  · have hload : TrapFrame.load (u.bytes.writeWord (tf - 8) trapReturn.toNat) tf
        = TrapFrame.load u.bytes tf := by
      apply TrapFrame.load_congr
      intro x hx _
      apply Bytes.writeWord_of_outside
      omega
    rw [hload, TrapFrame.load_eq_words, hwords, ofWords_frameWords]
  · intro x hx
    dsimp only
    rw [Bytes.writeWord_of_outside (by omega), houtside x (by omega)]
    rfl

/-- The registers that `TrapReturn` pops are those of the frame. -/
theorem popped_returnRegisters {r : Register} (h : r ≠ .rsp) (c : Cpu) (b : Bytes) (tf : ℕ) :
  (c.popped returnRegisters b tf).reg r = (TrapFrame.load b tf).cpu.reg r
  := by
  cases r with
  | rsp => exact absurd rfl h
  | _ => rfl

/-- `TrapReturn` restores the registers that the frame at the stack pointer holds. -/
theorem trapReturn_spec {s : Execution} {tf : ℕ} (htop : tf + sizeofTrapFrame ≤ 2 ^ 64)
    (hsp : s.rsp = UInt64.ofNat tf) :
  run trapReturn s = { s with cpu := (TrapFrame.load s.bytes tf).cpu }
  := by
  have hsize : sizeofTrapFrame = 176 := rfl
  have hlength : returnRegisters.length = 15 := rfl
  generalize hc : s.cpu.popped returnRegisters s.bytes tf = c
  have hrsp : c.reg .rsp + 0x10 = UInt64.ofNat (tf + 136) := by
    have hpopped : c.reg .rsp = UInt64.ofNat (tf + 8 * 15) := by
      rw [← hc]
      rfl
    rw [hpopped]
    exact (UInt64.ofNat_add (tf + 8 * 15) 16).symm
  have hword : ∀ i, ({ s with cpu := c.set .rsp (c.reg .rsp + 0x10) } : Execution).stackWord i
      = s.bytes.wordAt (tf + 136 + 8 * i) := by
    intro i
    unfold Execution.stackWord Execution.rsp
    rw [Cpu.set_self, hrsp, UInt64.toNat_ofNat_of_lt' (by omega : tf + 136 < 2 ^ 64)]
  have hiretq : run [.add .rsp 0x10, .iretq] { s with cpu := c }
      = { s with cpu := { (c.set .rsp (c.reg .rsp + 0x10)).set .rsp
            (s.bytes.wordAt (tf + 136 + 8 * 3)) with
          rip := s.bytes.wordAt (tf + 136), cs := s.bytes.wordAt (tf + 136 + 8 * 1)
          rflags := s.bytes.wordAt (tf + 136 + 8 * 2)
          ss := s.bytes.wordAt (tf + 136 + 8 * 4) } } := by
    rw [← Nat.add_zero (tf + 136), ← Nat.mul_zero 8, ← hword 0, ← hword 1, ← hword 2, ← hword 3,
      ← hword 4]
    rfl
  rw [trapReturn, run_append, run_pop (by decide) (by decide) (by omega) hsp, hc, hiretq]
  apply congrArg (fun c => ({ s with cpu := c } : Execution))
  have hreg : ((c.set .rsp (c.reg .rsp + 0x10)).set .rsp (s.bytes.wordAt (tf + 136 + 8 * 3))).reg
      = (TrapFrame.load s.bytes tf).cpu.reg := by
    funext r
    rw [Cpu.set_set]
    by_cases e : r = .rsp
    · rw [e, Cpu.set_self]
      rfl
    · rw [Cpu.set_of_ne e, ← hc, popped_returnRegisters e]
  exact congrArg (fun reg => ({ (TrapFrame.load s.bytes tf).cpu with reg := reg } : Cpu)) hreg

/-! ### The switched-out context -/

/-- The words of a process that waits in `ContextSwitch`: the registers that a function keeps,
and the address at which the process goes on. -/
def Cpu.contextWords (c : Cpu) : List UInt64 := calleeSaved.reverse.map c.reg ++ [c.rip]

/-- The registers that `ContextSwitch` takes from a context, at the address after it. -/
structure Cpu.Resumed (c : Cpu) (words : List UInt64) (a : ℕ) : Prop where
  registers : c.contextWords = words
  rsp : c.reg .rsp = UInt64.ofNat a

/-- A call of `ContextSwitch` saves a context below the stack pointer, and takes another one. -/
theorem contextSwitch_spec {s : Execution} {a d : ℕ} (ha : a + 56 ≤ 2 ^ 64) (hd : d + 56 ≤ 2 ^ 64)
    (hrsp : s.rsp = UInt64.ofNat (a + 56)) (hrsi : s.cpu.reg .rsi = UInt64.ofNat d) :
  ∃ t, run contextSwitch (s.push s.cpu.rip) = t ∧ t.context = UInt64.ofNat a
    ∧ t.cpu.ring = s.cpu.ring ∧ t.cpu.Resumed (t.bytes.words d 7) (d + 56)
    ∧ t.bytes.words a 7 = s.cpu.contextWords
    ∧ ∀ x, x < a ∨ a + 56 ≤ x → t.bytes x = s.bytes x
  := by
  generalize hvs : s.cpu.rip :: calleeSaved.map s.cpu.reg = vs
  have hlength : vs.length = 7 := by
    rw [← hvs]
    rfl
  have hreverse : vs.reverse = s.cpu.contextWords := by
    rw [← hvs]
    rfl
  obtain ⟨hsp, hwords, houtside⟩ := @Execution.pushAll_spec s vs a (by omega) (by rw [hlength, hrsp])
  rw [hlength] at hwords houtside
  generalize hu : s.pushAll vs = u at hsp hwords houtside
  have hpush : run (calleeSaved.map .push) (s.push s.cpu.rip) = u := by
    have hreg : calleeSaved.map (s.push s.cpu.rip).cpu.reg = calleeSaved.map s.cpu.reg := rfl
    rw [Execution.run_push (by decide), hreg, ← hu, ← hvs]
    exact (Execution.pushAll_append s [s.cpu.rip] (calleeSaved.map s.cpu.reg)).symm
  have hmove : run [.storeRsp, .mov .rsp .rsi] u
      = { u with cpu := u.cpu.set .rsp (UInt64.ofNat d), context := UInt64.ofNat a } := by
    have hmoved : run [.storeRsp, .mov .rsp .rsi] u
        = { u with cpu := u.cpu.set .rsp (u.cpu.reg .rsi), context := u.rsp } := rfl
    have hrsi' : u.cpu.reg .rsi = UInt64.ofNat d := by
      rw [← hu, ← hrsi]
      exact Execution.pushAll_reg (by decide) s vs
    rw [hmoved, hrsi', hsp]
  generalize hc : (u.cpu.set .rsp (UInt64.ofNat d)).popped calleeSaved.reverse u.bytes d = c
  have hrsp' : c.reg .rsp = UInt64.ofNat (d + 48) := by
    rw [← hc]
    rfl
  have hret : run [.ret] { u with cpu := c, context := UInt64.ofNat a }
      = { u with
          cpu := { c.set .rsp (UInt64.ofNat (d + 56)) with rip := u.bytes.wordAt (d + 48) }
          context := UInt64.ofNat a } := by
    have hword : ({ u with cpu := c, context := UInt64.ofNat a } : Execution).stackWord 0
        = u.bytes.wordAt (d + 48) := by
      unfold Execution.stackWord Execution.rsp
      rw [hrsp', UInt64.toNat_ofNat_of_lt' (by omega : d + 48 < 2 ^ 64)]
    have hnext : UInt64.ofNat (d + 56) = c.reg .rsp + 8 := by
      rw [hrsp']
      exact UInt64.ofNat_add (d + 48) 8
    rw [← hword, hnext]
    rfl
  have hcode : contextSwitch
      = calleeSaved.map .push ++ [.storeRsp, .mov .rsp .rsi] ++ calleeSaved.reverse.map .pop ++ [.ret]
    := rfl
  have hpop : run (calleeSaved.reverse.map .pop)
      { u with cpu := u.cpu.set .rsp (UInt64.ofNat d), context := UInt64.ofNat a }
      = { u with cpu := c, context := UInt64.ofNat a } := by
    rw [run_pop (a := d) (by decide) (by decide) (by
      have hsix : calleeSaved.reverse.length = 6 := rfl
      omega) (Cpu.set_self _ _ _)]
    exact congrArg (fun c => ({ u with cpu := c, context := UInt64.ofNat a } : Execution)) hc
  rw [hcode, run_append, run_append, run_append, hpush, hmove, hpop, hret]
  refine ⟨_, rfl, rfl, ?_, ⟨?_, Cpu.set_self c .rsp _⟩, ?_, houtside⟩
  · show c.ring = s.cpu.ring
    rw [← hc, ← hu]
    rfl
  · have hreg : calleeSaved.reverse.map c.reg = u.bytes.words d 6 := by
      rw [← hc]
      rfl
    rw [Bytes.words_succ_last, ← hreg]
    rfl
  · rw [← hreverse]
    exact hwords

end LarvaOS
