import LarvaOS.Libc.List
import LarvaOS.Memory.Address

/-!
# Processes and the scheduler

The static data of `kernel/process.c` and the functions of the scheduler: `Yield`,
`Sleep`, `Wakeup`, `Exit`, `Schedule` and the two removal functions.  A process is a
slot of `s_process_manager`; the `next` fields of the processes and the three list
heads of `s_scheduler` are one memory of links, since a head stands in the place of a
node.  The part of `ContextSwitch` that saves and restores registers is not part of
this state: a switch changes the current process, the kernel stack of the task state
segment and the page map register.  Two fields are history: `created` counts the pids
handed out, and `trace` records the pushes onto the ready list and the dispatches.
-/

namespace LarvaOS

open Linked

/-- `MAXIMUM_NUMBER_OF_PROCESS`. -/
abbrev maximumNumberOfProcess : ℕ := 10

/-- `PROCESS_MAXIMUM_FILE_DESCRIPTOR`. -/
abbrev processMaximumFileDescriptor : ℕ := 100

/-- `IDLE_PROCESS_PID`. -/
def idleProcessPid : Int := 0

/-- `NORMAL_PROCESS_WAIT_ID`. -/
def normalProcessWaitId : Int := -1

/-- `INIT_PROCESS_WAIT_ID`. -/
def initProcessWaitId : Int := 1

/-- `WAITING_KEYBOARD_PROCESS_WAIT_ID`. -/
def waitingKeyboardProcessWaitId : Int := -2

/-- `STACK_SIZE`. -/
def stackSize : ℕ := pageSize

/-- `ProcessState`. -/
inductive ProcessState where
  | unused
  | initialized
  | ready
  | running
  | sleeping
  | killed
  deriving DecidableEq

/-- An index of `s_process_manager`. -/
abbrev Slot : Type := Fin maximumNumberOfProcess

/-- The slot of the IDLE process, `s_process_manager[IDLE_PROCESS_PID]`. -/
def idleSlot : Slot := 0

/-- `Process`, without its `next` field. An element of `file` is null or the index of
an entry of the FD table. -/
structure Process where
  pid : Int
  waitId : Int
  state : ProcessState
  pageMap : ℕ
  context : ℕ
  stack : ℕ
  tf : ℕ
  file : Fin processMaximumFileDescriptor → Option ℕ

/-- A process whose bytes are all zero. -/
def Process.zero : Process where
  pid := 0
  waitId := 0
  state := .unused
  pageMap := 0
  context := 0
  stack := 0
  tf := 0
  file _ := none

/-- The list heads of `s_scheduler`. -/
inductive ListHead where
  | readyProcList
  | waitProcList
  | killProcList
  deriving DecidableEq

/-- An address that holds a `next` field: a list head or a process. -/
inductive ListNode where
  | head (list : ListHead)
  | proc (slot : Slot)
  deriving DecidableEq

/-- An event of the scheduler: a push onto the ready list or a dispatch. -/
inductive SchedulerEvent where
  | push (slot : Slot)
  | dispatch (slot : Slot)
  deriving DecidableEq

/-- The static data of `process.c`, the field `rsp0` of the task state segment, the
page map register, and the history. -/
structure Scheduler where
  processManager : Slot → Process
  links : Links ListNode
  currentProc : Slot
  pidNum : Int
  rsp0 : ℕ
  cr3 : ℕ
  created : ℕ
  trace : List SchedulerEvent

namespace Scheduler

/-- The process of a slot. -/
abbrev process (s : Scheduler) (i : Slot) : Process := s.processManager i

/-- Replace the process of a slot. -/
def setProcess (s : Scheduler) (i : Slot) (p : Process) : Scheduler :=
  { s with processManager := Function.update s.processManager i p }

/-- Store a state in a process. -/
def setState (s : Scheduler) (i : Slot) (state : ProcessState) : Scheduler :=
  s.setProcess i { s.process i with state := state }

@[simp]
theorem setProcess_self (s : Scheduler) (i : Slot) (p : Process) :
  (s.setProcess i p).process i = p
  := Function.update_self _ _ _

@[simp]
theorem setProcess_of_ne {i j : Slot} (h : j ≠ i) (s : Scheduler) (p : Process) :
  (s.setProcess i p).process j = s.process j
  := Function.update_of_ne h _ _

@[simp]
theorem setProcess_links (s : Scheduler) (i : Slot) (p : Process) :
  (s.setProcess i p).links = s.links
  := rfl

@[simp]
theorem setProcess_currentProc (s : Scheduler) (i : Slot) (p : Process) :
  (s.setProcess i p).currentProc = s.currentProc
  := rfl

/-- `memset(proc, 0, sizeof(Process))`. -/
def clearProcess (s : Scheduler) (i : Slot) : Scheduler :=
  { s.setProcess i Process.zero with links := s.links.setNext (.proc i) none }

/-- Append an event to the history. -/
def record (s : Scheduler) (e : SchedulerEvent) : Scheduler :=
  { s with trace := s.trace ++ [e] }

/-- `ListPushBack(list, (List *)proc)`. -/
def pushBack (s : Scheduler) (list : ListHead) (i : Slot) : Option Scheduler :=
  (listPushBack s.links (.head list) (.proc i)).map (fun l => { s with links := l })

/-- `ListPushBack` onto the ready list, recorded in the history. -/
def pushReady (s : Scheduler) (i : Slot) : Option Scheduler :=
  (s.pushBack .readyProcList i).map (fun s => s.record (.push i))

end Scheduler

/-- `SetTSS`. -/
def setTSS (new : Slot) (s : Scheduler) : Scheduler :=
  { s with rsp0 := (s.process new).stack + stackSize }

/-- `SwitchVM`: the new value of the page map register. -/
def switchVM (map : ℕ) : ℕ := virToPhy map

/-- `SwitchProcess`. -/
def switchProcess (new : Slot) (s : Scheduler) : Scheduler :=
  { setTSS new s with cr3 := switchVM (s.process new).pageMap }

/-- The part of `Schedule` after the next process is chosen. -/
def dispatch (i : Slot) (s : Scheduler) : Scheduler :=
  switchProcess i ({ s.setState i .running with currentProc := i }.record (.dispatch i))

/-- `Schedule`. -/
def schedule (s : Scheduler) : Option Scheduler :=
  if listIsEmpty s.links (.head .readyProcList) then
    some (dispatch idleSlot s)
  else
    match listPopFront s.links (.head .readyProcList) with
    | (some (.proc i), l) => some (dispatch i { s with links := l })
    | _ => none

/-- `Yield`. -/
def yield (s : Scheduler) : Option Scheduler :=
  if listIsEmpty s.links (.head .readyProcList) then
    some s
  else do
    let proc := s.currentProc
    let s := s.setState proc .ready
    let s ← if (s.process proc).pid ≠ idleProcessPid then s.pushReady proc else some s
    schedule s

/-- `Sleep`. -/
def sleep (waitId : Int) (s : Scheduler) : Option Scheduler := do
  let proc := s.currentProc
  let s := s.setProcess proc { s.process proc with state := .sleeping, waitId := waitId }
  let s ← s.pushBack .waitProcList proc
  schedule s

/-- The process of a node satisfies `p`. -/
def Scheduler.nodeSatisfies (s : Scheduler) (p : Process → Bool) : ListNode → Bool
  | .head _ => false
  | .proc i => p (s.process i)

/-- Search `list` for the first process satisfying `p` and unlink it; a list holds no
more items than there are slots. -/
def removeProcess (p : Process → Bool) (list : ListHead) (s : Scheduler) :
    Option (Option ListNode × Scheduler) :=
  (removeFirst (s.nodeSatisfies p) (maximumNumberOfProcess + 1) s.links (.head list)).map
    (fun r => (r.1, { s with links := r.2 }))

/-- `WaitListRemoveReadyProcess`. -/
def waitListRemoveReadyProcess (list : ListHead) (waitId : Int) (s : Scheduler) :
    Option (Option ListNode × Scheduler) :=
  removeProcess (fun p => p.waitId = waitId) list s

/-- `RemoveProcessWithPID`. -/
def removeProcessWithPID (list : ListHead) (pid : Int) (s : Scheduler) :
    Option (Option ListNode × Scheduler) :=
  removeProcess (fun p => p.pid = pid) list s

/-- The loop of `Wakeup`: the recursion is on the number of processes it may wake. -/
def wakeupLoop (waitId : Int) : ℕ → Scheduler → Option Scheduler
  | 0, _ => none
  | n + 1, s => do
      let (item, s) ← waitListRemoveReadyProcess .waitProcList waitId s
      match item with
      | none => some s
      | some (.head _) => none
      | some (.proc i) =>
          let s ← (s.setState i .ready).pushReady i
          wakeupLoop waitId n s

/-- `Wakeup`. -/
def wakeup (waitId : Int) (s : Scheduler) : Option Scheduler :=
  wakeupLoop waitId (maximumNumberOfProcess + 1) s

/-- `Exit`. -/
def exit (s : Scheduler) : Option Scheduler := do
  let proc := s.currentProc
  let s ← (s.setState proc .killed).pushBack .killProcList proc
  let s ← wakeup initProcessWaitId s
  schedule s

/-- The static data of `process.c` before `InitProcess`, for some page map register. -/
def Scheduler.initial (cr3 : Fin (2 ^ 64)) : Scheduler where
  processManager _ := Process.zero
  links := ⟨fun _ => none, fun _ => none⟩
  currentProc := idleSlot
  pidNum := 1
  rsp0 := 0
  cr3 := cr3
  created := 0
  trace := []

/-- `FindFreeProcessSlot`. -/
def findFreeProcessSlot (s : Scheduler) : Option Slot :=
  (List.finRange maximumNumberOfProcess).find? (fun i => (s.process i).state = .unused)

end LarvaOS
