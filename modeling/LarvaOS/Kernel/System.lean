import LarvaOS.Kernel.Processes

/-!
# The system

`KMain` brings the kernel up on a machine, and from then on the system takes steps: the
timer and the keyboard interrupt it, and the current process makes system calls, or
stores to its memory.  A step is `none` when the kernel stops in an assertion, follows a
null pointer, or loops forever.
-/

namespace LarvaOS

/-- What the kernel finds when it starts: the contents of the memory, the memory map of
the BIOS, the disk, and the page map register. -/
structure Machine where
  bytes : Bytes
  memMap : List E820
  disk : ℕ → UInt8
  cr3 : Fin (2 ^ 64)

/-- The state of the kernel before `KMain`. -/
def Kernel.initial (machine : Machine) : Kernel where
  memory := ⟨machine.bytes, 0, 0, 0⟩
  files := ⟨machine.disk, ⟨0, 0, 0, 0, 0, 0, 0⟩, fun _ => FCB.zero, fun _ => FD.zero, 0, 0⟩
  scheduler := Scheduler.initial machine.cr3

variable (image : Image)

/-- `InitMemory`. -/
def initMemory (k : Kernel) : Option Kernel := do
  let (kernelMap, m) ← setupKVM image k.memory
  assert (kernelMap ≠ 0)
  some { k with memory := m, scheduler := { k.scheduler with cr3 := switchVM kernelMap } }

/-- `KMain`, apart from the interrupt table and the table of system calls. -/
def kMain (machine : Machine) : Option Kernel := do
  let k := Kernel.initial machine
  let m ← retrieveMemoryInfo image machine.memMap k.memory
  let k ← initMemory image { k with memory := m }
  let (files, m) ← initFileSystem image k.files k.memory
  initProcess image { k with memory := m, files := files }

/-- What may happen: the timer interrupt ends in `yield`, interrupts wake processes up,
the current process makes a system call, stores a byte to its memory, or a byte is stored
on its kernel stack. -/
inductive Operation where
  | yield
  | sleep (waitId : Int)
  | wakeup (waitId : Int)
  | exit
  | wait (pid : Int)
  | fork
  | openFile (fileName : List UInt8)
  | closeFile (fd : Int)
  | readFile (fd : Int) (buffer : ℕ) (size : Int)
  | lstat (statbuf : ℕ)
  | exec (filename : List UInt8)
  | store (v : ℕ) (c : UInt8)
  | push (offset : ℕ) (c : UInt8)

namespace Kernel

/-- Replace the scheduler by the outcome of one of its functions. -/
def schedule (k : Kernel) (run : Scheduler → Option Scheduler) : Option Kernel :=
  (run k.scheduler).map (fun s => { k with scheduler := s })

/-- An iteration of `Wait` that does not go round again. -/
def wait (pid : Int) (k : Kernel) : Option Kernel :=
  (waitIteration image pid k).bind (fun outcome =>
    match outcome with
    | .reaped k => some k
    | .slept k => some k
    | .again _ => none)

/-- A store of a user program. An exception terminates the process. -/
def store (v : ℕ) (c : UInt8) (k : Kernel) : Option Kernel :=
  match k.memory.storeUser k.scheduler.cr3 v c with
  | some m => some { k with memory := m }
  | none => k.exit

/-- A byte stored on the kernel stack of the current process. -/
def push (offset : ℕ) (c : UInt8) (k : Kernel) : Option Kernel :=
  let a := (k.process k.currentProc).stack + offset
  if offset < stackSize then
    some { k with memory := { k.memory with bytes := Function.update k.memory.bytes a c } }
  else none

/-- A step of the system. -/
def step (op : Operation) (k : Kernel) : Option Kernel :=
  match op with
  | .yield => k.schedule LarvaOS.yield
  | .sleep waitId => k.schedule (LarvaOS.sleep waitId)
  | .wakeup waitId => k.schedule (LarvaOS.wakeup waitId)
  | .exit => k.exit
  | .wait pid => k.wait image pid
  | .fork => (LarvaOS.fork image k).map Prod.snd
  | .openFile fileName => (LarvaOS.openFile image k.currentProc fileName k).map Prod.snd
  | .closeFile fd => LarvaOS.closeFile k.currentProc fd k
  | .readFile fd buffer size =>
      (LarvaOS.readFile image k.currentProc fd buffer size k).map Prod.snd
  | .lstat statbuf => (LarvaOS.lstat image statbuf k).map Prod.snd
  | .exec filename => LarvaOS.exec image k.currentProc filename k
  | .store v c => k.store v c
  | .push offset c => k.push offset c

end Kernel

/-- The operations that only a process performs; the others are interrupts. -/
def Operation.byProcess : Operation → Bool
  | .yield => false
  | .wakeup _ => false
  | _ => true

/-- IDLE makes no system calls. -/
def Allowed (op : Operation) (k : Kernel) : Prop :=
  op.byProcess → k.currentProc ≠ idleSlot

/-- A read fits: the clusters it reads fit the temporary page, and the bytes it delivers
fit the user page. -/
def ReadFits (proc : Slot) (fd : Int) (buffer : ℕ) (size : Int) (k : Kernel) : Prop :=
  ∀ i d c, fileIndex fd = some i → (k.process proc).file i = some d →
    (k.files.fdTable d).fcb = some c →
    let readSize :=
      unsigned 32 (clipSize (k.files.fdTable d).position (k.files.fcbTable c).fileSize size)
    k.files.readSectors readSize * sectorSize ≤ pageSize
      ∧ userVirtualAddressBase ≤ buffer
      ∧ buffer + readSize ≤ userVirtualAddressBase + pageSize

/-- The file operations find a free page, their requests fit the temporary page, and the
buffers lie in the user page. -/
def Fits (op : Operation) (k : Kernel) : Prop :=
  match op with
  | .openFile _ => k.memory.freePageHead ≠ 0
  | .readFile fd buffer size =>
      k.memory.freePageHead ≠ 0 ∧ ReadFits k.currentProc fd buffer size k
  | .lstat statbuf => k.memory.freePageHead ≠ 0 ∧ userVirtualAddressBase ≤ statbuf
      ∧ statbuf + sizeofDirEntry * k.files.rootEntries.length
        ≤ userVirtualAddressBase + pageSize
  | .exec filename => k.memory.freePageHead ≠ 0
      ∧ ∀ fd size k', LarvaOS.openFile image k.currentProc filename k = some (fd, k') →
        getFileSize k.currentProc fd k' = some size →
        ReadFits k.currentProc fd userVirtualAddressBase size k'
  | _ => True

/-- The operations that the scheduler and the memory admit. -/
def Admitted (image : Image) (op : Operation) (k : Kernel) : Prop := Allowed op k ∧ Fits image op k

/-- The operations whose transfers stay in bounds: the file operations find no free page, or
their requests fit the temporary page and the user page. -/
def InBounds (image : Image) (op : Operation) (k : Kernel) : Prop :=
  Allowed op k ∧ (k.memory.freePageHead ≠ 0 → Fits image op k)

theorem Admitted.inBounds {image : Image} {op : Operation} {k : Kernel} (h : Admitted image op k) :
  InBounds image op k
  := ⟨h.1, fun _ => h.2⟩

end LarvaOS
