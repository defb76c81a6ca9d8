import LarvaOS.Console.Keyboard
import LarvaOS.Kernel.Scheduling
import LarvaOS.Library.RingBuffer

/-!
# Sleeping in system calls

`SysSleep` and `ReadKeyBuffer` call `Sleep` in the middle, and go on when their process is
dispatched again.  A session is a run of the system in which these calls are seen: besides the
kernel it has the clock, the keyboard, and for every process the call in which it sleeps.  The
kernel runs with interrupts disabled, so nothing happens between the dispatch of such a process and
the rest of its call.
-/

namespace LarvaOS

/-- The buffer of the keyboard has room. -/
instance keyboardRoom : NeZero 500 := ⟨by decide⟩

/-- A call that has called `Sleep`: `ReadKeyBuffer` with the index that it has read, or `SysSleep`
with the ticks at its beginning and its argument. -/
inductive Pending where
  | readKeyBuffer (front : Fin 500)
  | sysSleep (oldTicks sleepTicks : UInt64)

/-- The wait id with which the call sleeps. -/
def Pending.waitId : Pending → Int
  | .readKeyBuffer _ => waitingKeyboardProcessWaitId
  | .sysSleep _ _ => normalProcessWaitId

/-- The kernel with the data of `trap.c` and `keyboard.c`, and the calls that sleep. The other
fields are history: the number of timer interrupts, this number when the process last called
`SysSleep` and when it last slept in it, and the characters that were stored in the buffer and
those that `ReadKeyBuffer` has returned. -/
structure Session where
  kernel : Kernel
  systemTicks : UInt64
  flag : BitVec 32
  keyboard : RingBuffer UInt8 500
  pending : Slot → Option Pending
  interrupts : ℕ
  called : Slot → ℕ
  slept : Slot → ℕ
  stored : List UInt8
  returned : List UInt8

/-- What may happen: a timer interrupt, a keyboard interrupt, a call of `ReadKeyBuffer` or
`SysSleep`, the rest of such a call after its process is dispatched, or another operation of the
current process. -/
inductive SessionEvent where
  | timer
  | keyboard (scanCode : UInt8)
  | readKeyBuffer
  | sysSleep (sleepTicks : UInt64)
  | resume
  | call (op : Operation)

/-- The operations of a process that are system calls or stores. -/
def Operation.isCall : Operation → Bool
  | .yield => false
  | .sleep _ => false
  | .wakeup _ => false
  | _ => true

namespace Session

/-- The process that runs. -/
def current (s : Session) : Slot := s.kernel.currentProc

/-- Replace the scheduler. -/
def setScheduler (s : Session) (scheduler : Scheduler) : Session :=
  { s with kernel := { s.kernel with scheduler := scheduler } }

/-- `GetTicks`. -/
def getTicks (s : Session) : UInt64 := s.systemTicks

/-- The session after the current process has gone to sleep in a call. -/
def afterSleep (p : Pending) (s : Session) (scheduler : Scheduler) : Session :=
  { s.setScheduler scheduler with
    pending := Function.update s.pending s.current (some p)
    slept := Function.update s.slept s.current s.interrupts }

/-- The current process sleeps in a call. -/
def sleepIn (p : Pending) (s : Session) : Option Session :=
  (LarvaOS.sleep p.waitId s.kernel.scheduler).map (s.afterSleep p)

/-- The current process returns from a call. -/
def finish (s : Session) : Session :=
  { s with pending := Function.update s.pending s.current none }

/-- The test of the loop of `SysSleep`, and what follows it. -/
def sleepLoop (oldTicks sleepTicks : UInt64) (s : Session) : Option Session :=
  if s.getTicks - oldTicks < sleepTicks then s.sleepIn (.sysSleep oldTicks sleepTicks)
  else some s.finish

/-- Record a call of `SysSleep` in the history. -/
def recordCall (s : Session) : Session :=
  { s with called := Function.update s.called s.current s.interrupts }

/-- `SysSleep`. -/
def sysSleep (sleepTicks : UInt64) (s : Session) : Option Session :=
  s.recordCall.sleepLoop s.getTicks sleepTicks

/-- The end of `ReadKeyBuffer`. -/
def takeKey (front : Fin 500) (s : Session) : Session :=
  { s.finish with
    keyboard := s.keyboard.pop
    returned := s.returned ++ [s.keyboard.slots front] }

/-- `ReadKeyBuffer`. -/
def readKeyBuffer (s : Session) : Option Session :=
  if s.keyboard.front = s.keyboard.back then s.sleepIn (.readKeyBuffer s.keyboard.front)
  else some (s.takeKey s.keyboard.front)

/-- The rest of a call. -/
def resume (s : Session) : Pending → Option Session
  | .readKeyBuffer front => some (s.takeKey front)
  | .sysSleep oldTicks sleepTicks => s.sleepLoop oldTicks sleepTicks

/-- `WriteKeyBuffer`. -/
def writeKeyBuffer (ch : UInt8) (s : Session) : Session :=
  { s with
    keyboard := s.keyboard.push ch
    stored := if s.keyboard.Full then s.stored else s.stored ++ [ch] }

/-- `KeyboardHandler`, for the byte that it reads from the port. -/
def keyboardHandler (scanCode : UInt8) (s : Session) : Option Session :=
  let (ch, flag) := readCharacter scanCode s.flag
  let s := { s with flag := flag }
  if 0 < ch ∧ ch < 0x80 then
    (LarvaOS.wakeup waitingKeyboardProcessWaitId s.kernel.scheduler).map
      (s.writeKeyBuffer ch).setScheduler
  else
    some s

/-- The session after a timer interrupt. -/
def afterTimer (s : Session) (scheduler : Scheduler) : Session :=
  { s.setScheduler scheduler with
    systemTicks := s.systemTicks + 1
    interrupts := s.interrupts + 1 }

/-- `InterruptHandler` for the timer. -/
def timerHandler (s : Session) : Option Session :=
  (LarvaOS.wakeup normalProcessWaitId s.kernel.scheduler).bind (fun scheduler =>
    (LarvaOS.yield scheduler).map s.afterTimer)

/-- A step of a session. -/
def step (image : Image) (event : SessionEvent) (s : Session) : Option Session :=
  match event with
  | .timer => s.timerHandler
  | .keyboard scanCode => s.keyboardHandler scanCode
  | .readKeyBuffer => s.readKeyBuffer
  | .sysSleep sleepTicks => s.sysSleep sleepTicks
  | .resume => (s.pending s.current).bind s.resume
  | .call op => (s.kernel.step image op).map (fun k => { s with kernel := k })

/-- Only the rest of its call follows the dispatch of a process that sleeps in a call, and IDLE makes
no system calls. The transfers of the other operations stay in bounds. -/
def Enabled (image : Image) (event : SessionEvent) (s : Session) : Prop :=
  match event with
  | .timer => s.pending s.current = none
  | .keyboard _ => s.pending s.current = none
  | .readKeyBuffer => s.pending s.current = none ∧ s.current ≠ idleSlot
  | .sysSleep _ => s.pending s.current = none ∧ s.current ≠ idleSlot
  | .resume => True
  | .call op => s.pending s.current = none ∧ s.current ≠ idleSlot ∧ op.isCall
      ∧ InBounds image op s.kernel

/-- The session at the start, for any value of the clock. -/
def start (k : Kernel) (ticks : UInt64) : Session where
  kernel := k
  systemTicks := ticks
  flag := 0
  keyboard := ⟨fun _ => 0, 0, 0⟩
  pending _ := none
  interrupts := 0
  called _ := 0
  slept _ := 0
  stored := []
  returned := []

end Session

end LarvaOS
