import OsLearn.Lib.Run
import OsLearn.Lib.Spec
import OsLearn.Lib.TaskQueue
import OsLearn.Lib.Ring
import OsLearn.Lib.Bytes
import OsLearn.Lib.X86
import OsLearn.Lib.Bits
import OsLearn.Kernel.Debug
import OsLearn.Kernel.Syscall
import OsLearn.Thread.Sched
import OsLearn.Thread.Sync
import OsLearn.Thread.Machine
import OsLearn.Thread.Steps
import OsLearn.Thread.Queues
import OsLearn.Thread.Moves
import OsLearn.Thread.Calls
import OsLearn.Thread.Locks
import OsLearn.Thread.Ownership
import OsLearn.Device.Fifo
import OsLearn.Device.Stranded
import OsLearn.Device.Slots
import OsLearn.Lib.Rota
import OsLearn.Lib.Turn
import OsLearn.Thread.Tasks
import OsLearn.Device.Timer
import OsLearn.Device.Accounting
import OsLearn.Memory.Bitmap
import OsLearn.Memory.Paging
import OsLearn.Memory.Alloc
import OsLearn.Memory.Spaces
import OsLearn.Memory.Mapping
import OsLearn.Memory.Frames
import OsLearn.Memory.Pages
import OsLearn.Memory.Requests
import OsLearn.Memory.Directories
import OsLearn.Memory.Boot
import OsLearn.Memory.System
import OsLearn.Memory.Isolation
import OsLearn.Memory.Failure
import OsLearn.Memory.Preempt
import OsLearn.Memory.Race
import OsLearn.Memory.Interleave
import OsLearn.Memory.Scan
import OsLearn.Memory.Access
import OsLearn.Thread.Wakeups
import OsLearn.Thread.Exclusion
import OsLearn.Thread.Checks
import OsLearn.Thread.Waiting
import OsLearn.Kernel.List
import OsLearn.Thread.Flags
import OsLearn.Thread.Transparent
import OsLearn.Thread.Switch
import OsLearn.Kernel.Stubs
import OsLearn.Boot.Loader
import OsLearn.Boot.Segments
import OsLearn.Userprog.Process
import OsLearn.Memory.FirstFit
import OsLearn.Memory.Window
import OsLearn.Memory.Pools
import OsLearn.Memory.Ranges
import OsLearn.Memory.Supply
import OsLearn.Userprog.Heap
import OsLearn.Memory.Contents
import OsLearn.Userprog.Private
import OsLearn.Userprog.Entry
import OsLearn.Userprog.Pids
import OsLearn.Lib.Descriptor
import OsLearn.Lib.Regs
import OsLearn.Lib.Terminal
import OsLearn.Lib.Hex
import OsLearn.Kernel.Idt
import OsLearn.Kernel.Print
import OsLearn.Kernel.Layout
import OsLearn.Kernel.PutInt
import OsLearn.Boot.Detect
import OsLearn.Userprog.Tss
import OsLearn.Device.Keyboard
import OsLearn.Device.Modifiers
import OsLearn.Lib.Feed
import OsLearn.Device.Extended
import OsLearn.Lib.Linked
import OsLearn.Kernel.Lists
import OsLearn.Kernel.Gates
import OsLearn.Kernel.String
import OsLearn.Kernel.Strings
import OsLearn.Lib.Ata
import OsLearn.Boot.Disk
import OsLearn.Boot.Start
import OsLearn.Boot.Image
import OsLearn.Lib.Pic
import OsLearn.Kernel.Interrupts
import OsLearn.Kernel.Delivery
import OsLearn.Device.Typing
import OsLearn.Device.Text
import OsLearn.Thread.Kinds
import OsLearn.Kernel.Main
import OsLearn.Kernel.ConsoleLock
import OsLearn.Kernel.Console
import OsLearn.Kernel.Running
