import LarvaOS.Kernel.Dispatch
import LarvaOS.Process.Interrupts

/-!
# System calls of programs

The routines of `usr/runtime/syscall.asm`, and the functions of the runtime library that call
them.  A routine puts its parameters on the stack of the program, the number of the system call
in `rax`, their count in `rdi` and their address in `rsi`.  The kernel finds the function of the
number, and the function finds the parameters; after the call the routine returns to its caller
with the stack as it was.
-/

namespace LarvaOS

/-! ### The routines -/

/-- The instructions of `syscall.asm` besides `int`. `store` stores a register at an offset from
the stack pointer. -/
inductive StubInstruction where
  | sub (r : Register) (v : UInt64)
  | add (r : Register) (v : UInt64)
  | mov (r r' : Register)
  | movNumber (r : Register) (v : UInt64)
  | store (offset : UInt64) (r : Register)
  | ret

/-- Execute an instruction. -/
def StubInstruction.run (i : StubInstruction) (s : Execution) : Execution :=
  match i with
  | .sub r v => { s with cpu := s.cpu.set r (s.cpu.reg r - v) }
  | .add r v => (Instruction.add r v).run s
  | .mov r r' => (Instruction.mov r r').run s
  | .movNumber r v => { s with cpu := s.cpu.set r v }
  | .store offset r =>
      { s with bytes := s.bytes.writeWord (s.rsp + offset).toNat (s.cpu.reg r).toNat }
  | .ret => Instruction.ret.run s

/-- Execute instructions. -/
def runStub (code : List StubInstruction) (s : Execution) : Execution :=
  code.foldl (fun s i => i.run s) s

/-- A routine: the instructions before and after `int 0x80`. -/
structure Stub where
  before : List StubInstruction
  after : List StubInstruction

/-- Store registers next to each other, from an offset on. -/
def stores (offset : UInt64) : List Register → List StubInstruction
  | [] => []
  | r :: rs => .store offset r :: stores (offset + 8) rs

/-- The registers that hold the parameters after the number. -/
def parameterRegisters : List Register := [.rsi, .rdx, .rcx, .r8, .r9]

/-- The routine for `n` parameters, where `size` bytes of the stack hold them. -/
def stub (n : ℕ) (size : UInt64) : Stub where
  before := [.sub .rsp size, .mov .rax .rdi] ++ stores 0 (parameterRegisters.take n)
    ++ [.movNumber .rdi (UInt64.ofNat n), .mov .rsi .rsp]
  after := [.add .rsp size, .ret]

/-- `syscall0`. -/
def syscall0 : Stub where
  before := [.mov .rax .rdi, .movNumber .rdi 0]
  after := [.ret]

/-- `syscall1`. -/
def syscall1 : Stub := stub 1 0x08

/-- `syscall2`. -/
def syscall2 : Stub := stub 2 0x10

/-- `syscall3`. -/
def syscall3 : Stub := stub 3 0x18

/-- `syscall4`. -/
def syscall4 : Stub := stub 4 0x20

/-- `syscall5`. -/
def syscall5 : Stub := stub 5 0x28

/-- The routine for a number of parameters. -/
def syscallStub : ℕ → Option Stub
  | 0 => some syscall0
  | 1 => some syscall1
  | 2 => some syscall2
  | 3 => some syscall3
  | 4 => some syscall4
  | 5 => some syscall5
  | _ => none

/-! ### What a routine does -/

/-- The registers that a system call may change. -/
def callRegisters : List Register := [.rax, .rdi, .rsi, .rsp]

/-- The state `t` at `int 0x80`, for a routine that was called in the state `s`: the parameters
are on the stack from the address `a` on. -/
structure Prepared (s t : Execution) (n a : ℕ) : Prop where
  rax : t.cpu.reg .rax = s.cpu.reg .rdi
  rdi : t.cpu.reg .rdi = UInt64.ofNat n
  rsp : t.rsp = UInt64.ofNat a
  words : t.bytes.words (t.cpu.reg .rsi).toNat n = (parameterRegisters.take n).map s.cpu.reg
  kept : ∀ r, r ∉ callRegisters → t.cpu.reg r = s.cpu.reg r
  outside : ∀ x, x < a ∨ a + 8 * n ≤ x → t.bytes x = s.bytes x

theorem runStub_append (code code' : List StubInstruction) (s : Execution) :
  runStub (code ++ code') s = runStub code' (runStub code s)
  := List.foldl_append

/-- The parameters are stored in order. -/
theorem runStub_stores {rs : List Register} {s : Execution} {a o : ℕ}
    (hrsp : s.rsp = UInt64.ofNat a) (h : a + o + 8 * rs.length ≤ 2 ^ 64) :
  runStub (stores (UInt64.ofNat o) rs) s
    = { s with bytes := s.bytes.storeWords (a + o) (rs.map s.cpu.reg) }
  := by
  induction rs generalizing s o with
  | nil => rfl
  | cons r rs ih =>
      rw [List.length_cons] at h
      have hoffset : UInt64.ofNat o + 8 = UInt64.ofNat (o + 8) := (UInt64.ofNat_add o 8).symm
      have haddress : (s.rsp + UInt64.ofNat o).toNat = a + o := by
        rw [hrsp, ← UInt64.ofNat_add, UInt64.toNat_ofNat_of_lt' (by omega : a + o < 2 ^ 64)]
      have hrun : runStub (stores (UInt64.ofNat o) (r :: rs)) s
          = runStub (stores (UInt64.ofNat (o + 8)) rs)
            { s with bytes := s.bytes.writeWord (a + o) (s.cpu.reg r).toNat } := by
        rw [stores, hoffset, ← haddress]
        rfl
      rw [hrun]
      exact ih (s := { s with bytes := s.bytes.writeWord (a + o) (s.cpu.reg r).toNat })
        (o := o + 8) hrsp (by omega)

/-- A routine with parameters prepares its system call. -/
theorem stub_prepared {n a : ℕ} {s : Execution} (hn : n ≤ parameterRegisters.length)
    (ha : a + 8 * n + 8 ≤ 2 ^ 64) (hrsp : s.rsp = UInt64.ofNat (a + 8 * n)) :
  Prepared s (runStub (stub n (UInt64.ofNat (8 * n))).before s) n a
  := by
  have hsub : s.rsp - UInt64.ofNat (8 * n) = UInt64.ofNat a := by
    rw [hrsp, UInt64.ofNat_add]
    exact UInt64.add_sub_cancel _ _
  generalize hc : (s.cpu.set .rsp (UInt64.ofNat a)).set .rax (s.cpu.reg .rdi) = c
  have hfirst : runStub [.sub .rsp (UInt64.ofNat (8 * n)), .mov .rax .rdi] s = { s with cpu := c } := by
    rw [← hc, ← hsub]
    rfl
  have hreg : ∀ r, r ≠ .rax → r ≠ .rsp → c.reg r = s.cpu.reg r := by
    intro r hrax hrsp
    rw [← hc, Cpu.set_of_ne hrax, Cpu.set_of_ne hrsp]
  have hvalues : (parameterRegisters.take n).map c.reg
      = (parameterRegisters.take n).map s.cpu.reg := by
    apply List.map_congr_left
    intro r hr
    have hmem := List.mem_of_mem_take hr
    apply hreg
    · rintro rfl
      revert hmem
      decide
    · rintro rfl
      revert hmem
      decide
  have hrsp' : c.reg .rsp = UInt64.ofNat a := by
    rw [← hc]
    rfl
  have hlength : (parameterRegisters.take n).length = n := List.length_take_of_le hn
  have hstores : runStub (stores 0 (parameterRegisters.take n)) { s with cpu := c }
      = { s with
          cpu := c
          bytes := s.bytes.storeWords a ((parameterRegisters.take n).map s.cpu.reg) } := by
    have hrun := @runStub_stores (parameterRegisters.take n) { s with cpu := c } a 0 hrsp'
      (by omega)
    rw [hvalues] at hrun
    exact hrun
  generalize hb : s.bytes.storeWords a ((parameterRegisters.take n).map s.cpu.reg) = b at hstores
  obtain ⟨hwords, houtside⟩ := @Bytes.storeWords_spec s.bytes a
    ((parameterRegisters.take n).map s.cpu.reg)
  rw [hb, List.length_map, hlength] at hwords houtside
  have hrun : runStub (stub n (UInt64.ofNat (8 * n))).before s
      = { s with
          cpu := (c.set .rdi (UInt64.ofNat n)).set .rsi (UInt64.ofNat a)
          bytes := b } := by
    rw [stub, runStub_append, runStub_append, hfirst, hstores, ← hrsp']
    rfl
  rw [hrun]
  constructor
  · show c.reg .rax = s.cpu.reg .rdi
    rw [← hc]
    rfl
  · rfl
  · exact hrsp'
  · have hpointer : (UInt64.ofNat a).toNat = a := UInt64.toNat_ofNat_of_lt' (by omega : a < 2 ^ 64)
    show b.words (UInt64.ofNat a).toNat n = _
    rw [hpointer]
    exact hwords
  · intro r hr
    simp only [callRegisters, List.mem_cons, List.not_mem_nil, or_false, not_or] at hr
    obtain ⟨hrax, hrdi, hrsi, hrsp⟩ := hr
    show ((c.set .rdi (UInt64.ofNat n)).set .rsi (UInt64.ofNat a)).reg r = s.cpu.reg r
    rw [Cpu.set_of_ne hrsi, Cpu.set_of_ne hrdi, hreg r hrax hrsp]
  · exact houtside

/-- `syscall0` prepares its system call. -/
theorem syscall0_prepared {a : ℕ} {s : Execution} (hrsp : s.rsp = UInt64.ofNat a) :
  Prepared s (runStub syscall0.before s) 0 a
  where
  rax := rfl
  rdi := rfl
  rsp := hrsp
  words := rfl
  kept r hr := by
    simp only [callRegisters, List.mem_cons, List.not_mem_nil, or_false, not_or] at hr
    obtain ⟨hrax, hrdi, _, _⟩ := hr
    show ((s.cpu.set .rax (s.cpu.reg .rdi)).set .rdi 0).reg r = s.cpu.reg r
    rw [Cpu.set_of_ne hrdi, Cpu.set_of_ne hrax]
  outside _ _ := rfl

/-- Every routine prepares its system call. -/
theorem syscallStub_prepared {n a : ℕ} {code : Stub} {s : Execution}
    (hcode : syscallStub n = some code) (ha : a + 8 * n + 8 ≤ 2 ^ 64)
    (hrsp : s.rsp = UInt64.ofNat (a + 8 * n)) :
  Prepared s (runStub code.before s) n a
  := by
  unfold syscallStub at hcode
  split at hcode
  case h_1 =>
    obtain rfl := Option.some.inj hcode
    exact syscall0_prepared hrsp
  case h_7 => cases hcode
  all_goals
    obtain rfl := Option.some.inj hcode
    exact stub_prepared (by decide) ha hrsp

/-- A return to the address at the stack pointer. -/
theorem runStub_ret {a : ℕ} {s : Execution} (ha : a + 8 ≤ 2 ^ 64) (hrsp : s.rsp = UInt64.ofNat a) :
  runStub [.ret] s
    = { s with cpu := { s.cpu.set .rsp (UInt64.ofNat (a + 8)) with rip := s.bytes.wordAt a } }
  := by
  have hword : s.stackWord 0 = s.bytes.wordAt a := by
    unfold Execution.stackWord
    rw [hrsp, UInt64.toNat_ofNat_of_lt' (by omega : a < 2 ^ 64)]
    rfl
  have hnext : s.rsp + 8 = UInt64.ofNat (a + 8) := by
    rw [hrsp]
    exact (UInt64.ofNat_add a 8).symm
  rw [← hword, ← hnext]
  rfl

/-- The end of every routine: the parameters are taken from the stack, and the routine returns. -/
theorem syscallStub_after {n a : ℕ} {code : Stub} {s : Execution}
    (hcode : syscallStub n = some code) (ha : a + 8 * n + 8 ≤ 2 ^ 64)
    (hrsp : s.rsp = UInt64.ofNat a) :
  runStub code.after s
    = { s with cpu := { s.cpu.set .rsp (UInt64.ofNat (a + 8 * n + 8)) with
        rip := s.bytes.wordAt (a + 8 * n) } }
  := by
  have hstub : ∀ m, runStub (stub m (UInt64.ofNat (8 * n))).after s
      = { s with cpu := { s.cpu.set .rsp (UInt64.ofNat (a + 8 * n + 8)) with
          rip := s.bytes.wordAt (a + 8 * n) } } := by
    intro m
    have hadd : runStub [.add .rsp (UInt64.ofNat (8 * n))] s
        = { s with cpu := s.cpu.set .rsp (UInt64.ofNat (a + 8 * n)) } := by
      rw [UInt64.ofNat_add, ← hrsp]
      rfl
    have hcode : (stub m (UInt64.ofNat (8 * n))).after
        = [.add .rsp (UInt64.ofNat (8 * n))] ++ [.ret] := rfl
    rw [hcode, runStub_append, hadd, runStub_ret ha (Cpu.set_self _ _ _), Cpu.set_set]
  unfold syscallStub at hcode
  split at hcode
  case h_1 =>
    obtain rfl := Option.some.inj hcode
    exact runStub_ret ha hrsp
  case h_7 => cases hcode
  all_goals
    obtain rfl := Option.some.inj hcode
    exact hstub _

/-! ### The runtime library -/

/-- The calls of the functions of `unistd.c`, `stat.c` and `stdio.c` that make a system call.
Pointers and sizes have 64 bits, and an `int` has 32. -/
inductive CallRequest where
  | write (fd : Int32) (buf count : UInt64)
  | read (fd : Int32) (buf count : UInt64)
  | sleep (seconds : UInt32)
  | exit
  | wait (pid : Int32)
  | mem
  | openFile (filename : UInt64)
  | closeFile (fd : Int32)
  | fork
  | exec (filename : UInt64)
  | lstat (pathname statbuf : UInt64)
  | clrscr
  deriving DecidableEq

/-- The word to which a number is converted for a system call. -/
def int64Word (n : Int) : UInt64 := UInt64.ofNat (word64 n)

namespace CallRequest

/-- The number of the system call, from the enumeration `SYSCALL`. -/
def number : CallRequest → ℕ
  | .write .. => 0
  | .sleep _ => 1
  | .exit => 2
  | .wait _ => 3
  | .read .. => 4
  | .mem => 5
  | .openFile _ => 6
  | .closeFile _ => 7
  | .fork => 8
  | .exec _ => 9
  | .lstat .. => 10
  | .clrscr => 11

/-- The parameters of the system call. -/
def parameters : CallRequest → List UInt64
  | .write fd buf count => [int64Word fd.toInt, buf, count]
  | .read fd buf count => [int64Word fd.toInt, buf, count]
  | .sleep seconds => [seconds.toUInt64]
  | .exit => []
  | .wait pid => [int64Word pid.toInt]
  | .mem => []
  | .openFile filename => [filename]
  | .closeFile fd => [int64Word fd.toInt]
  | .fork => []
  | .exec filename => [filename]
  | .lstat pathname statbuf => [pathname, statbuf]
  | .clrscr => []

/-- The function of the kernel that is meant. -/
def handler : CallRequest → Handler
  | .write .. => .sysWrite
  | .read .. => .sysRead
  | .sleep _ => .sysSleep
  | .exit => .sysExit
  | .wait _ => .sysWait
  | .mem => .sysMemInfo
  | .openFile _ => .sysOpen
  | .closeFile _ => .sysClose
  | .fork => .sysFork
  | .exec _ => .sysExec
  | .lstat .. => .sysLstat
  | .clrscr => .sysClrSrc

/-- The function finds the parameters of the call in its arguments, as far as its own types can
hold them: descriptors have 16 bits in the kernel, and lengths 32. -/
def Received (arg : Arguments) : CallRequest → Prop
  | .write _ buf count => (arg 1 : ℕ) = buf.toNat
      ∧ (count.toNat < 2 ^ 31 → int32 (arg 2) = count.toNat)
  | .read fd buf count => (-2 ^ 15 ≤ fd.toInt → fd.toInt < 2 ^ 15 → int16 (arg 0) = fd.toInt)
      ∧ (arg 1 : ℕ) = buf.toNat ∧ (count.toNat < 2 ^ 31 → int32 (arg 2) = count.toNat)
  | .sleep seconds => (arg 0 : ℕ) = seconds.toNat
  | .wait pid => int32 (arg 0) = pid.toInt
  | .openFile filename => (arg 0 : ℕ) = filename.toNat
  | .closeFile fd => -2 ^ 15 ≤ fd.toInt → fd.toInt < 2 ^ 15 → int16 (arg 0) = fd.toInt
  | .exec filename => (arg 0 : ℕ) = filename.toNat
  | .lstat pathname statbuf => (arg 0 : ℕ) = pathname.toNat ∧ (arg 1 : ℕ) = statbuf.toNat
  | _ => True

end CallRequest

/-- The arguments that a function of the table finds at an address of the program. -/
def argumentsAt (b : Bytes) (arg : ℕ) : Arguments :=
  fun i => ⟨b.readWord (arg + 8 * i), b.readWord_lt _⟩

/-- The value of type `int` that a function returns. -/
def Cpu.eax (c : Cpu) : Int := int32 (c.reg .rax).toNat

theorem CallRequest.number_lt (r : CallRequest) :
  r.number < 12
  := by cases r <;> simp [number]

/-- The numbers of `unistd.h` are those of the table. -/
theorem CallRequest.registered {table : SyscallTable} (h : initSystemCall = some table) (r : CallRequest) :
  table r.number = some r.handler
  := by
  rw [initSystemCall_apply h]
  cases r <;> rfl

theorem int64Word_toNat (n : Int) :
  (int64Word n).toNat = word64 n
  := UInt64.toNat_ofNat_of_lt' (word64_lt n)

/-- A 64-bit word holds a 16-bit number. -/
theorem int16_int64Word {n : Int} (hmin : -2 ^ 15 ≤ n) (hmax : n < 2 ^ 15) :
  int16 (int64Word n).toNat = n
  := by
  rw [int64Word_toNat]
  unfold int16 word64
  rw [Int.bmod_def]
  split
  · omega
  · omega

/-- A 64-bit word holds a 32-bit number. -/
theorem int32_int64Word {n : Int} (hmin : -2 ^ 31 ≤ n) (hmax : n < 2 ^ 31) :
  int32 (int64Word n).toNat = n
  := by
  rw [int64Word_toNat]
  unfold int32 word64
  rw [Int.bmod_def]
  split
  · omega
  · omega

/-- A function finds its parameters when the words at the address are the parameters. -/
theorem CallRequest.received {r : CallRequest} {b : Bytes} {a : ℕ}
    (h : b.words a r.parameters.length = r.parameters) :
  r.Received (argumentsAt b a)
  := by
  have harg : ∀ i v, r.parameters[i]? = some v → (argumentsAt b a i : ℕ) = v.toNat := by
    intro i v hv
    have hi : i < r.parameters.length := (List.getElem?_eq_some_iff.mp hv).1
    have hword := Bytes.wordAt_of_words h hi
    rw [hv] at hword
    rw [Option.some.inj hword]
    exact (UInt64.toNat_ofNat_of_lt' (b.readWord_lt _)).symm
  cases r with
  | write fd buf count =>
      refine ⟨harg 1 buf rfl, fun hcount => ?_⟩
      rw [harg 2 count rfl]
      exact int32_of_range (by omega) (by omega)
  | read fd buf count =>
      refine ⟨fun hmin hmax => ?_, harg 1 buf rfl, fun hcount => ?_⟩
      · rw [harg 0 _ rfl]
        exact int16_int64Word hmin hmax
      · rw [harg 2 count rfl]
        exact int32_of_range (by omega) (by omega)
  | sleep seconds =>
      exact (harg 0 _ rfl).trans (UInt32.toNat_toUInt64 seconds)
  | wait pid =>
      unfold Received
      rw [harg 0 _ rfl]
      exact int32_int64Word pid.le_toInt pid.toInt_lt
  | openFile filename => exact harg 0 filename rfl
  | closeFile fd =>
      intro hmin hmax
      rw [harg 0 _ rfl]
      exact int16_int64Word hmin hmax
  | exec filename => exact harg 0 filename rfl
  | lstat pathname statbuf => exact ⟨harg 0 pathname rfl, harg 1 statbuf rfl⟩
  | exit => trivial
  | mem => trivial
  | fork => trivial
  | clrscr => trivial

/-- `SystemCall` calls the function that is meant. -/
theorem CallRequest.systemCall_eq {table : SyscallTable} (h : initSystemCall = some table) (r : CallRequest)
    {rax rdi : Fin (2 ^ 64)} (hrax : (rax : ℕ) = r.number) (hrdi : (rdi : ℕ) = r.parameters.length) :
  systemCall table rax rdi = .call r.handler
  := by
  have hnumber := r.number_lt
  have hlength : r.parameters.length < 6 := by cases r <;> simp [parameters]
  have hint : ∀ x : Fin (2 ^ 64), (x : ℕ) < 12 → int64 x = (x : ℕ) := by
    intro x hx
    unfold int64
    rw [Int.bmod_def]
    split
    · omega
    · omega
  have hrax' := hint rax (by omega)
  have hrdi' := hint rdi (by omega)
  rcases systemCall_cases h rax rdi with ⟨hbad, _⟩ | ⟨_, _, _, handler, hhandler, hrun⟩
    | ⟨_, hlo, _⟩ | ⟨_, hbad, _⟩
  · omega
  · rw [hrax', Int.toNat_natCast, hrax, r.registered h] at hhandler
    rw [hrun, Option.some.inj hhandler]
  · omega
  · omega

/-- A call of a function of the runtime library, from the call of its routine to the return. The
kernel calls the function of the table that is meant, which finds the parameters, and the program
goes on at the return address with its stack and the registers that a function keeps. -/
theorem request_served {table : SyscallTable} (h : initSystemCall = some table) (r : CallRequest)
    {s : Execution} {a tf : ℕ} {kernel : Bytes} {interruptHandler trapReturn : UInt64}
    (ha : a + 8 * r.parameters.length + 8 ≤ 2 ^ 64)
    (hrsp : s.rsp = UInt64.ofNat (a + 8 * r.parameters.length))
    (hrdi : s.cpu.reg .rdi = UInt64.ofNat r.number)
    (hparameters : (parameterRegisters.take r.parameters.length).map s.cpu.reg = r.parameters)
    (hlo : 8 ≤ tf) (htop : tf + sizeofTrapFrame ≤ 2 ^ 64)
    (halign : (tf + sizeofTrapFrame) % 16 = 0) :
  ∃ code entry t u arg, syscallStub r.parameters.length = some code ∧ runStub code.before s = t
    ∧ vector 0x80 = some entry
    ∧ run (entry ++ trap interruptHandler trapReturn)
      (interrupt (UInt64.ofNat (tf + sizeofTrapFrame)) 0x80 0 ⟨t.cpu, kernel, 0⟩) = u
    ∧ systemCallAt table u.bytes tf = .call r.handler arg
    ∧ r.Received (argumentsAt t.bytes arg)
    ∧ (∀ x, x < a ∨ a + 8 * r.parameters.length ≤ x → t.bytes x = s.bytes x)
    ∧ ∀ (v : Execution) (b : Bytes) (ret : Int), -2 ^ 31 ≤ ret → ret < 2 ^ 31 →
      v.rsp = UInt64.ofNat tf →
      TrapFrame.load v.bytes tf = { TrapFrame.load u.bytes tf with rax := word64 ret } →
      b.wordAt (a + 8 * r.parameters.length) = s.bytes.wordAt (a + 8 * r.parameters.length) →
      ∃ w, runStub code.after ⟨(run LarvaOS.trapReturn v).cpu, b, 0⟩ = w
        ∧ w.cpu.rip = s.bytes.wordAt (a + 8 * r.parameters.length) ∧ w.rsp = s.rsp + 8
        ∧ w.cpu.eax = ret ∧ (∀ r, r ∉ callRegisters → w.cpu.reg r = s.cpu.reg r) ∧ w.bytes = b
  := by
  obtain ⟨code, hcode⟩ : ∃ code, syscallStub r.parameters.length = some code := by
    cases r <;> exact ⟨_, rfl⟩
  obtain ⟨entry, hentry⟩ : ∃ entry, vector 0x80 = some entry := ⟨_, rfl⟩
  generalize ht : runStub code.before s = t
  have hprepared : Prepared s t r.parameters.length a := by
    rw [← ht]
    exact syscallStub_prepared hcode ha hrsp
  obtain ⟨u, hu, _, _, _, _, _, hframe, _⟩ := @enter_spec ⟨t.cpu, kernel, 0⟩ 0x80 tf entry 0
    interruptHandler trapReturn hentry hlo htop halign
  have hnumber : r.number < 2 ^ 64 := r.number_lt.trans (by decide)
  have hrax : (savedRax u.bytes tf : ℕ) = r.number := by
    have hsaved : (savedRax u.bytes tf : ℕ) = (t.cpu.reg .rax).toNat := congrArg TrapFrame.rax hframe
    rw [hsaved, hprepared.rax, hrdi, UInt64.toNat_ofNat_of_lt' hnumber]
  have hrdi' : (savedRdi u.bytes tf : ℕ) = r.parameters.length := by
    have hsaved : (savedRdi u.bytes tf : ℕ) = (t.cpu.reg .rdi).toNat := congrArg TrapFrame.rdi hframe
    rw [hsaved, hprepared.rdi, UInt64.toNat_ofNat_of_lt' (by omega : r.parameters.length < 2 ^ 64)]
  have hrsi : (savedRsi u.bytes tf : ℕ) = (t.cpu.reg .rsi).toNat := congrArg TrapFrame.rsi hframe
  refine ⟨code, entry, t, u, (t.cpu.reg .rsi).toNat, hcode, ht, hentry, hu, ?_, ?_,
    hprepared.outside, ?_⟩
  · rw [systemCallAt_eq (r.systemCall_eq h hrax hrdi'), ← hrsi]
    rfl
  · apply CallRequest.received
    rw [hprepared.words, hparameters]
  · intro v b ret hmin hmax hv hload hword
    have hreturn := trapReturn_spec htop hv
    rw [hload, hframe] at hreturn
    generalize hc : ({ t.cpu.trapFrame (UInt64.ofNat 0x80) (frameErrorCode 0x80 0) with
      rax := word64 ret } : TrapFrame).cpu = c at hreturn
    have hreg : ∀ r, r ≠ .rax → c.reg r = t.cpu.reg r := by
      intro r hr
      rw [← hc]
      cases r with
      | rax => exact absurd rfl hr
      | _ => exact UInt64.ofNat_toNat
    have hrax' : c.reg .rax = int64Word ret := by
      rw [← hc]
      rfl
    have hafter := @syscallStub_after _ _ _ ⟨c, b, 0⟩ hcode ha
      ((hreg .rsp (by decide)).trans hprepared.rsp)
    rw [hreturn]
    refine ⟨_, rfl, ?_⟩
    dsimp only
    rw [hafter]
    refine ⟨hword, ?_, ?_, ?_, rfl⟩
    · rw [hrsp]
      exact UInt64.ofNat_add (a + 8 * r.parameters.length) 8
    · show int32 (c.reg .rax).toNat = ret
      rw [hrax']
      exact int32_int64Word hmin hmax
    · intro r' hr'
      have hne : r' ≠ .rax ∧ r' ≠ .rsp := by
        simp only [callRegisters, List.mem_cons, List.not_mem_nil, or_false, not_or] at hr'
        exact ⟨hr'.1, hr'.2.2.2⟩
      have hset : (c.set .rsp (UInt64.ofNat (a + 8 * r.parameters.length + 8))).reg r' = c.reg r' :=
        Cpu.set_of_ne hne.2 _ _
      exact hset.trans ((hreg r' hne.1).trans (hprepared.kept r' hr'))

/-- A program that has called the routine for `read(3, buf, 100)`. -/
def readCall : Execution where
  cpu :=
    { reg := fun r =>
        match r with
        | .rdi => 4
        | .rsi => 3
        | .rdx => 0x500000
        | .rcx => 100
        | .rsp => 0x5FFFF8
        | _ => 0
      rip := 0x400000
      rflags := 0x202
      cs := 0x13
      ss := 0x1B }
  bytes := fun _ => 0
  context := 0

theorem request_served_small :
  ∃ table code entry t u arg, initSystemCall = some table ∧ syscallStub 3 = some code
    ∧ runStub code.before readCall = t ∧ vector 0x80 = some entry
    ∧ run (entry ++ trap 0x300000 0x300010) (interrupt 0x1F0000 0x80 0 ⟨t.cpu, fun _ => 0, 0⟩) = u
    ∧ systemCallAt table u.bytes (0x1F0000 - sizeofTrapFrame) = .call .sysRead arg
    ∧ int16 (argumentsAt t.bytes arg 0) = 3 ∧ (argumentsAt t.bytes arg 1 : ℕ) = 0x500000
    ∧ int32 (argumentsAt t.bytes arg 2) = 100
  := by
  obtain ⟨table, htable⟩ : ∃ table, initSystemCall = some table := ⟨_, rfl⟩
  obtain ⟨code, entry, t, u, arg, hcode, ht, hentry, hu, hcall, ⟨hfd, hbuf, hcount⟩, _⟩ :=
    @request_served table htable (.read 3 0x500000 100) readCall 0x5FFFE0
      (0x1F0000 - sizeofTrapFrame) (fun _ => 0) 0x300000 0x300010 (by decide) rfl rfl rfl
      (by decide) (by decide) (by decide)
  exact ⟨table, code, entry, t, u, arg, htable, hcode, ht, hentry, hu, hcall,
    hfd (by decide) (by decide), hbuf, hcount (by decide)⟩

end LarvaOS
