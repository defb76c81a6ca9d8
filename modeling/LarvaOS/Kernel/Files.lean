import LarvaOS.File.Reading
import LarvaOS.File.References
import LarvaOS.Process.Scheduler

/-!
# Opening, reading and closing files

The functions of `kernel/file.c` on the file descriptors of a process.  `Kernel` is the
state of the whole kernel: memory, file system and scheduler.  The names that programs
pass are the bytes of their strings, and the buffers that they pass are virtual
addresses, which the kernel reaches through the page map in use.
-/

namespace LarvaOS

/-- `USER_START_FD`. -/
def userStartFd : ℕ := 3

/-- The state of the kernel. -/
structure Kernel where
  memory : Memory
  files : FileSystem
  scheduler : Scheduler

namespace Kernel

/-- The process of a slot. -/
abbrev process (k : Kernel) (i : Slot) : Process := k.scheduler.process i

/-- The slot of the current process. -/
abbrev currentProc (k : Kernel) : Slot := k.scheduler.currentProc

/-- Replace the process of a slot. -/
def setProcess (k : Kernel) (i : Slot) (p : Process) : Kernel :=
  { k with scheduler := k.scheduler.setProcess i p }

/-- Store a file descriptor in a process. -/
def setFile (k : Kernel) (proc : Slot) (i : Fin processMaximumFileDescriptor) (d : Option ℕ) :
    Kernel :=
  k.setProcess proc { k.process proc with file := Function.update (k.process proc).file i d }

end Kernel

/-- The indices of `file` that programs may use. -/
def userFds : List (Fin processMaximumFileDescriptor) :=
  (List.finRange processMaximumFileDescriptor).filter (fun i => userStartFd ≤ i.val)

/-- The files of a process that are open, in the order of the loops of `Fork` and `Wait`. -/
def Process.openFiles (p : Process) : List ℕ := userFds.filterMap p.file

/-- An index of `file`; other numbers are outside the array. -/
def fileIndex (fd : Int) : Option (Fin processMaximumFileDescriptor) :=
  (List.finRange processMaximumFileDescriptor).find? (fun i => (i.val : Int) = fd)

variable (image : Image)

/-- The entry of the FCB table when the file of a directory entry is opened. -/
def openFCB (fcb : FCB) (entryIndex : ℕ) (entry : DirEntry) : FCB :=
  let fcb :=
    if fcb.openCount = 0 then
      { fcb with
        dirEntry := entryIndex
        fileSize := entry.fileSize
        startCluster := entry.clusterIndex
        name := entry.name
        ext := entry.ext }
    else fcb
  { fcb with openCount := int32 (fcb.openCount + 1) }

/-- `Open`. -/
def openFile (proc : Slot) (fileName : List UInt8) (k : Kernel) : Option (Int × Kernel) :=
  match userFds.find? (fun i => (k.process proc).file i = none) with
  | none => some (-emfile, k)
  | some fd =>
      match (List.range getMaxEntriesOfFDTable).find? (fun d => (k.files.fdTable d).fcb = none) with
      | none => some (-enomem, k)
      | some d => do
          let (found, m) ← k.files.findFileInRootDir image fileName k.memory
          let k := { k with memory := m }
          match found with
          | none => some (-enoent, k)
          | some (entryIndex, entry) =>
              if entry.clusterIndex < startClusterIndex then
                some (-eagain, k)
              else
                let fcb := openFCB (k.files.fcbTable entryIndex) entryIndex entry
                let files := (k.files.setFCB entryIndex fcb).setFD d
                  { fcb := some entryIndex, position := 0, openCount := 1 }
                some (fd.val, ({ k with files := files }).setFile proc fd (some d))

/-- `Close`. -/
def closeFile (proc : Slot) (fd : Int) (k : Kernel) : Option Kernel := do
  let i ← fileIndex fd
  match (k.process proc).file i with
  | none => some k
  | some d => do
      let c ← (k.files.fdTable d).fcb
      assert (0 < (k.files.fcbTable c).openCount)
      let files ← k.files.dropReference d
      some (({ k with files := files }).setFile proc i none)

/-- The size of a request that ends at the end of the file. -/
def clipSize (position fileSize : ℕ) (size : Int) : Int :=
  if fileSize < (position + unsigned 32 size) % 2 ^ 32 then
    int32 (unsigned 32 ((fileSize : Int) - position))
  else size

/-- `Read`. -/
def readFile (proc : Slot) (fd : Int) (buffer : ℕ) (size : Int) (k : Kernel) :
    Option (Int × Kernel) := do
  let i ← fileIndex fd
  match (k.process proc).file i with
  | none => some (-ebadf, k)
  | some d => do
      let entry := k.files.fdTable d
      let c ← entry.fcb
      let fcb := k.files.fcbTable c
      let readSize := unsigned 32 (clipSize entry.position fcb.fileSize size)
      let m ← k.files.readRawData image k.scheduler.cr3 fcb.startCluster buffer entry.position
        readSize k.memory
      let files := k.files.setFD d { entry with position := (entry.position + readSize) % 2 ^ 32 }
      some (int32 readSize, { k with memory := m, files := files })

/-- `GetFileSize`. -/
def getFileSize (proc : Slot) (fd : Int) (k : Kernel) : Option Int := do
  let i ← fileIndex fd
  match (k.process proc).file i with
  | none => some (-ebadf)
  | some d => do
      let c ← (k.files.fdTable d).fcb
      some (int32 (k.files.fcbTable c).fileSize)

/-- `Lstat`. -/
def lstat (statbuf : ℕ) (k : Kernel) : Option (Int × Kernel) := do
  let (total, m) ← k.files.lstat image k.scheduler.cr3 statbuf k.memory
  some (total, { k with memory := m })

end LarvaOS
