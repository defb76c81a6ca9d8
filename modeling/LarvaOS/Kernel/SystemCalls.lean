import LarvaOS.Kernel.System

/-!
# System calls

The table of system calls of `kernel/syscall.c`, `SystemCall`, which finds the function of a
number, and the functions that take a file descriptor from the program.  The arguments are
64-bit words, which a function converts to the types of its parameters, and the file
descriptor of a program is a 16-bit number.
-/

namespace LarvaOS

/-- `MAXIMUM_SYSTEM_CALLS`. -/
def maximumSystemCalls : ℕ := 20

/-- The functions in the table of system calls. -/
inductive Handler where
  | sysWrite
  | sysSleep
  | sysExit
  | sysWait
  | sysRead
  | sysMemInfo
  | sysOpen
  | sysClose
  | sysFork
  | sysExec
  | sysLstat
  | sysClrSrc
  deriving DecidableEq

/-- The elements of `s_syscall_table`; a null pointer is `none`. -/
abbrev SyscallTable : Type := ℕ → Option Handler

/-- `RegisterSystemCall`. -/
def registerSystemCall (num : ℕ) (call : Handler) (table : SyscallTable) : Option SyscallTable := do
  assert (num < maximumSystemCalls)
  assert (table num = none)
  some (Function.update table num (some call))

/-- `InitSystemCall`. -/
def initSystemCall : Option SyscallTable := do
  let table ← registerSystemCall 0 .sysWrite (fun _ => none)
  let table ← registerSystemCall 1 .sysSleep table
  let table ← registerSystemCall 2 .sysExit table
  let table ← registerSystemCall 3 .sysWait table
  let table ← registerSystemCall 4 .sysRead table
  let table ← registerSystemCall 5 .sysMemInfo table
  let table ← registerSystemCall 6 .sysOpen table
  let table ← registerSystemCall 7 .sysClose table
  let table ← registerSystemCall 8 .sysFork table
  let table ← registerSystemCall 9 .sysExec table
  let table ← registerSystemCall 10 .sysLstat table
  registerSystemCall 11 .sysClrSrc table

/-- What `SystemCall` does: it refuses the call with `-EINVAL`, calls a function, stops in the
assertion, or uses an element outside of the table. -/
inductive Dispatch where
  | refused
  | call (handler : Handler)
  | stopped
  | outside
  deriving DecidableEq

/-- The value of a 64-bit signed integer after `n` is stored in it. -/
def int64 (n : Int) : Int := Int.bmod n (2 ^ 64)

/-- `SystemCall`, with the registers `rax` and `rdi` of the trap frame. -/
def systemCall (table : SyscallTable) (rax rdi : Fin (2 ^ 64)) : Dispatch :=
  let syscallNumber := int64 rax
  let paramCount := int64 rdi
  if paramCount < 0 ∨ maximumSystemCalls < syscallNumber then
    .refused
  else if syscallNumber < 0 ∨ maximumSystemCalls ≤ syscallNumber then
    .outside
  else
    match table syscallNumber.toNat with
    | none => .stopped
    | some handler => .call handler

/-- The words to which `rsi` points when a program makes a system call. -/
abbrev Arguments : Type := ℕ → Fin (2 ^ 64)

/-- The value of a 16-bit signed integer after `n` is stored in it. -/
def int16 (n : Int) : Int := Int.bmod n (2 ^ 16)

/-- `STANDARD_INPUT`. -/
def standardInput : Int := 0

/-- What `SysRead` goes on with: it reads `length` keys to `buffer`, or it returns. -/
inductive ReadOutcome where
  | readKeys (buffer : ℕ) (length : Int)
  | returned (ret : Int) (k : Kernel)

variable (image : Image)

/-- `SysRead` up to the first key. -/
def sysRead (arg : Arguments) (k : Kernel) : Option ReadOutcome :=
  let fileDescriptor := int16 (arg 0)
  let buffer := arg 1
  let length := int32 (arg 2)
  if fileDescriptor = standardInput then
    some (.readKeys buffer length)
  else
    (readFile image k.currentProc fileDescriptor buffer length k).map
      (fun r => .returned r.1 r.2)

/-- `SysClose`, which returns 0. -/
def sysClose (arg : Arguments) (k : Kernel) : Option Kernel :=
  closeFile k.currentProc (int16 (arg 0)) k

end LarvaOS
