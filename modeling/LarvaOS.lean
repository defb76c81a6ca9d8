import LarvaOS.Library.Linked
import LarvaOS.Library.Bytes
import LarvaOS.Library.Reachable
import LarvaOS.Common
import LarvaOS.Libc.List
import LarvaOS.Memory.Address
import LarvaOS.Process.Operations
import LarvaOS.Libc.String
import LarvaOS.Libc.Copying
import LarvaOS.Libc.Comparing
import LarvaOS.Memory.Allocator
import LarvaOS.Memory.PageTable
import LarvaOS.Memory.Tables
import LarvaOS.Library.Counting
import LarvaOS.Memory.Freeing
import LarvaOS.Memory.Mapping
import LarvaOS.Memory.AddressSpace
import LarvaOS.Memory.Setup
import LarvaOS.Memory.Regions
import LarvaOS.Memory.Translation
import LarvaOS.Libc.Errno
import LarvaOS.File.FileSystem
import LarvaOS.File.References
import LarvaOS.File.Entries
import LarvaOS.Kernel.Files
import LarvaOS.Kernel.Processes
import LarvaOS.Kernel.System
import LarvaOS.Kernel.Creation
import LarvaOS.Kernel.Steps
import LarvaOS.Kernel.Start
import LarvaOS.Kernel.Ownership
import LarvaOS.Kernel.Forking
import LarvaOS.Kernel.Reaping
import LarvaOS.File.Directory
import LarvaOS.File.Reading
import LarvaOS.Kernel.Access
import LarvaOS.Kernel.Boot
import LarvaOS.Kernel.Scheduling
import LarvaOS.Kernel.Waiting
import LarvaOS.Kernel.References
import LarvaOS.Kernel.Isolation
import LarvaOS.Kernel.Lifetimes
import LarvaOS.Kernel.Quiet
import LarvaOS.Kernel.Progress
import LarvaOS.Console.Printing
import LarvaOS.Memory.Coverage
import LarvaOS.Memory.Release
import LarvaOS.Memory.Usable
import LarvaOS.Memory.Tree
import LarvaOS.Memory.Range
import LarvaOS.Kernel.Requests
import LarvaOS.File.Disk
import LarvaOS.File.Names
import LarvaOS.File.Lookup
import LarvaOS.File.Listing
import LarvaOS.Kernel.Opening
import LarvaOS.Kernel.Exhaustion
import LarvaOS.File.Volume
import LarvaOS.Process.TrapFrame
import LarvaOS.Kernel.Loading
import LarvaOS.Kernel.Descriptors
import LarvaOS.Kernel.Delivery
import LarvaOS.File.Stores
import LarvaOS.Kernel.SystemCalls
import LarvaOS.Kernel.Validity
import LarvaOS.Kernel.Pointers
import LarvaOS.Kernel.Dispatch
import LarvaOS.Console.Keyboard
import LarvaOS.Library.Numeral
import LarvaOS.Console.Numbers
import LarvaOS.Console.Formatting
import LarvaOS.Console.Screen
import LarvaOS.Process.Heap
import LarvaOS.Console.Shell
import LarvaOS.Library.RingBuffer
import LarvaOS.Kernel.Session
import LarvaOS.Kernel.Sleeping
import LarvaOS.Kernel.Readers
import LarvaOS.Kernel.FileSteps
import LarvaOS.Kernel.Interference
import LarvaOS.Library.WordStack
import LarvaOS.Process.Interrupts
import LarvaOS.Kernel.Stacks
import LarvaOS.Kernel.InPlace
import LarvaOS.Kernel.Switching
import LarvaOS.Kernel.Traps
import LarvaOS.Kernel.Contexts
import LarvaOS.Kernel.Preemption
import LarvaOS.Library.Simulation
import LarvaOS.Library.Rota
import LarvaOS.Process.Rotation
import LarvaOS.Kernel.Rotation
import LarvaOS.Kernel.Turns
import LarvaOS.Library.Handles
import LarvaOS.Kernel.Handles
import LarvaOS.Kernel.Conservation
import LarvaOS.Program.Calls
import LarvaOS.Boot.Loader
import LarvaOS.Boot.MemoryMap
import LarvaOS.Boot.Entry
import LarvaOS.Boot.Image
import LarvaOS.Boot.Shell
import LarvaOS.Library.Memories
import LarvaOS.Kernel.Memories
import LarvaOS.Library.Protection
import LarvaOS.Process.Gates
import LarvaOS.Kernel.Gates
