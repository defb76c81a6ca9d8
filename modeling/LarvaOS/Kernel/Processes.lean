import LarvaOS.Kernel.Files
import LarvaOS.Memory.Regions

/-!
# Creating and reaping processes

The functions of `kernel/process.c` that touch memory and files besides the scheduler:
`CreateNewProcess`, `Fork`, `Wait`, `Exec` and `InitProcess`.  A kernel stack is a page
of 2 MB with the trap frame of the process at its top and, below it, the context from
which the process is first resumed.
-/

namespace LarvaOS

/-- `sizeof(TrapFrame)`: 22 words. -/
def sizeofTrapFrame : ℕ := 176

/-- `USER_STACK_START`. -/
def userStackStart : ℕ := userVirtualAddressBase + stackSize

/-- `USER_INIT_PROCESS_ADDRESS_BASE`. -/
def userInitProcessAddressBase : ℕ := 0x20000

/-- `SIZE_OF_INIT_PROCCESS`. -/
def sizeOfInitProccess : ℕ := 512 * 20

/-- Store a word. -/
def Memory.storeWord (m : Memory) (a v : ℕ) : Memory :=
  { m with bytes := m.bytes.writeWord a v }

/-- The values that a trap frame has when a program starts: `cs`, `rip`, `ss`, `rsp` and
`rflags`. -/
def Memory.startTrapFrame (m : Memory) (tf : ℕ) : Memory :=
  ((((m.storeWord (tf + 144) (0x10 ||| 3)).storeWord (tf + 136) userVirtualAddressBase).storeWord
    (tf + 168) (0x18 ||| 3)).storeWord (tf + 160) userStackStart).storeWord (tf + 152) 0x202

/-- The address of the trap frame of a process with the kernel stack `stack`. -/
def trapFrameAddress (stack : ℕ) : ℕ := stack + stackSize - sizeofTrapFrame

/-- The address of the first context of a process with the kernel stack `stack`. -/
def contextAddress (stack : ℕ) : ℕ := stack + stackSize - sizeofTrapFrame - 7 * 8

variable (image : Image)

/-- The contents of the kernel stack of a new process. -/
def Memory.startStack (m : Memory) (stack : ℕ) : Memory :=
  ((m.clear stack).storeWord (contextAddress stack + 6 * 8) image.trapReturn).startTrapFrame
    (trapFrameAddress stack)

/-- The fields of a process that `CreateNewProcess` sets before the page map, and the
next pid. -/
def Scheduler.startProcess (s : Scheduler) (proc : Slot) (stack : ℕ) : Scheduler :=
  { s.setProcess proc { s.process proc with
      stack := stack
      state := .initialized
      pid := s.pidNum
      waitId := 0
      context := contextAddress stack
      tf := trapFrameAddress stack } with
    pidNum := int32 (s.pidNum + 1)
    created := s.created + 1 }

/-- `CreateNewProcess`. -/
def createNewProcess (k : Kernel) : Option (Option Slot × Kernel) :=
  match findFreeProcessSlot k.scheduler with
  | none => some (none, k)
  | some proc => do
      let (stack, m) ← kalloc image k.memory
      if stack = 0 then
        some (none, ({ k with memory := m }).setProcess proc { k.process proc with stack := 0 })
      else do
        let s := k.scheduler.startProcess proc stack
        let (pageMap, m) ← setupKVM image (m.startStack image stack)
        if pageMap = 0 then do
          let m ← kfree image stack m
          some (none, { k with memory := m, scheduler := s.clearProcess proc })
        else
          some (some proc, { k with
            memory := m
            scheduler := s.setProcess proc { s.process proc with pageMap := pageMap } })

/-- The part of `Fork` after the user page is copied: the files are shared, the trap
frame is copied with zero in `rax`, and the process is ready. -/
def startFork (proc current : Slot) (k : Kernel) : Option Kernel := do
  let p := { k.process proc with file := (k.process current).file }
  let files ← k.files.addReferences p.openFiles
  let m := (k.memory.copy p.tf (k.process current).tf sizeofTrapFrame).storeWord (p.tf + 112) 0
  let s ← (k.scheduler.setProcess proc { p with state := .ready }).pushReady proc
  some { memory := m, files := files, scheduler := s }

/-- `Fork`. -/
def fork (k : Kernel) : Option (Int × Kernel) := do
  let current := k.currentProc
  let (new, k) ← createNewProcess image k
  match new with
  | none => some (-enomem, k)
  | some proc => do
      let (copied, m) ← copyUVM image (k.process proc).pageMap (k.process current).pageMap pageSize
        k.memory
      let k := { k with memory := m }
      if copied then do
        let k ← startFork proc current k
        some ((k.process proc).pid, k)
      else
        some (-enomem, k)

/-- The end of an iteration of the loop in `Wait`. -/
inductive WaitOutcome where
  | reaped (k : Kernel)
  | slept (k : Kernel)
  | again (k : Kernel)

/-- The clean-up of a killed process in `Wait`. -/
def reap (proc : Slot) (k : Kernel) : Option Kernel := do
  let p := k.process proc
  assert (p.state = .killed)
  let m ← kfree image p.stack k.memory
  let m ← freeVM image p.pageMap m
  let files ← k.files.dropReferences p.openFiles
  some { memory := m, files := files, scheduler := k.scheduler.clearProcess proc }

/-- One iteration of the loop in `Wait`. -/
def waitIteration (pid : Int) (k : Kernel) : Option WaitOutcome :=
  if ¬ listIsEmpty k.scheduler.links (.head .killProcList) then do
    let (item, s) ← removeProcessWithPID .killProcList pid k.scheduler
    match item with
    | none => some (.again { k with scheduler := s })
    | some (.head _) => none
    | some (.proc proc) => (reap image proc { k with scheduler := s }).map .reaped
  else
    (sleep initProcessWaitId k.scheduler).map (fun s => .slept { k with scheduler := s })

/-- `Exit`. -/
def Kernel.exit (k : Kernel) : Option Kernel :=
  (LarvaOS.exit k.scheduler).map (fun s => { k with scheduler := s })

/-- The part of `Exec` after the program is read. -/
def startExec (proc : Slot) (k : Kernel) : Kernel :=
  let tf := (k.process proc).tf
  { k with memory :=
    ({ k.memory with bytes := memset k.memory.bytes tf 0 sizeofTrapFrame }).startTrapFrame tf }

/-- `Exec`. After `Exit` the process does not go on. -/
def exec (proc : Slot) (filename : List UInt8) (k : Kernel) : Option Kernel := do
  let (fd, k) ← openFile image proc filename k
  if fd < 0 then
    k.exit
  else do
    let m ← memsetVirtual k.scheduler.cr3 userVirtualAddressBase 0 pageSize k.memory
    let k := { k with memory := m }
    let size ← getFileSize proc fd k
    let (programSize, k) ← readFile image proc fd userVirtualAddressBase size k
    if programSize < 0 then
      k.exit
    else do
      let k ← closeFile proc fd k
      some (startExec proc k)

/-- `InitIDLEProcess`. -/
def initIDLEProcess (s : Scheduler) : Option Scheduler :=
  (findFreeProcessSlot s).map (fun proc =>
    { s.setProcess proc { s.process proc with
        pid := idleProcessPid
        pageMap := phyToVir s.cr3
        state := .running } with
      currentProc := proc })

/-- `InitShellProcess`. -/
def initShellProcess (k : Kernel) : Option Kernel := do
  let (new, k) ← createNewProcess image k
  let proc ← new
  let (status, m) ← setupUVM image (k.process proc).pageMap (phyToVir userInitProcessAddressBase)
    sizeOfInitProccess k.memory
  assert status
  let s ← (k.scheduler.setState proc .ready).pushReady proc
  some { k with memory := m, scheduler := s }

/-- `InitProcess`. -/
def initProcess (k : Kernel) : Option Kernel := do
  let s ← initIDLEProcess k.scheduler
  initShellProcess image { k with scheduler := s }

end LarvaOS
