import EchidnaOS.Klib.Heap.Theorems
import EchidnaOS.Lib.Run
import EchidnaOS.Lib.SlotTable
import EchidnaOS.Task
import EchidnaOS.Task.Step
import EchidnaOS.Task.Table
import EchidnaOS.Task.Wait
import EchidnaOS.Klib.Heap.Owner
import EchidnaOS.Task.Memory
import EchidnaOS.Task.Memory.Theorems
import EchidnaOS.Task.Memory.Calls
import EchidnaOS.Task.Memory.Run
import EchidnaOS.Ipc
import EchidnaOS.Ipc.Theorems
import EchidnaOS.Echfs.Disk
import EchidnaOS.Echfs.Directory
import EchidnaOS.Echfs.Directory.Ids
import EchidnaOS.Echfs.File
import EchidnaOS.Echfs.File.Contents
import EchidnaOS.Echfs.File.Grow
import EchidnaOS.Echfs.Image
import EchidnaOS.Echfs.Image.Write
import EchidnaOS.Devfs
import EchidnaOS.Echfs.Handle
import EchidnaOS.Echfs.Handle.Access
import EchidnaOS.Echfs.Handle.Cursor
import EchidnaOS.Echfs.Handle.ReadBack
import EchidnaOS.Vfs
import EchidnaOS.Vfs.Calls
import EchidnaOS.Vfs.Close
import EchidnaOS.Klib.Heap.Objects
import EchidnaOS.Klib.Pmm.Blocks
import EchidnaOS.Vdev
import EchidnaOS.Segment
import EchidnaOS.Limits
import EchidnaOS.Vdev.Table
import EchidnaOS.Vdev.Ipcwait
import EchidnaOS.Vdev.Arm
import EchidnaOS.Vdev.Pids
import EchidnaOS.Segment.Layout
import EchidnaOS.Segment.Ldt
import EchidnaOS.Echfs.Image.Sound
import EchidnaOS.Echfs.Handle.Splice
import EchidnaOS.Echfs.Driver
import EchidnaOS.Echfs.Driver.Image
import EchidnaOS.Echfs.File.Lockstep
import EchidnaOS.Echfs.Handle.Agree
import EchidnaOS.Echfs.Handle.Device
import EchidnaOS.Lib.Reference
import EchidnaOS.Vfs.Handles
import EchidnaOS.Vfs.Attached
import EchidnaOS.Vfs.Isolation
import EchidnaOS.Tty
import EchidnaOS.Tty.Cursor
import EchidnaOS.BiosHarddisks
import EchidnaOS.Lib.Machine
import EchidnaOS.Lib.WriteBack
import EchidnaOS.BiosHarddisks.Transparent
import EchidnaOS.Devfs.Transfer
import EchidnaOS.Partition
import EchidnaOS.Partition.Access
import EchidnaOS.Partition.Arrays
import EchidnaOS.Partition.Extent
import EchidnaOS.Echfs.Accessors
import EchidnaOS.Echfs.Codec
import EchidnaOS.Echfs.Driver.Lookup
import EchidnaOS.Vfs.AbsolutePath
import EchidnaOS.Vfs.AbsolutePath.Stale
import EchidnaOS.Vfs.AbsolutePath.Climb
import EchidnaOS.Vfs.CacheMemory
import EchidnaOS.Vfs.CacheMemory.Live
import EchidnaOS.Vfs.CacheMemory.Removal
import EchidnaOS.Vfs.CacheMemory.Housed
import EchidnaOS.Klib.Pmm.Search
import EchidnaOS.Echfs.Directory.Unresolved
import EchidnaOS.Task.Memory.Resize
import EchidnaOS.Tty.Console
import EchidnaOS.Tty.Mirror
import EchidnaOS.Keyboard
import EchidnaOS.Keyboard.Bounds
import EchidnaOS.Keyboard.EndOfLine
import EchidnaOS.Lib.Scan
import EchidnaOS.Scheduler
import EchidnaOS.Scheduler.Layout
import EchidnaOS.Scheduler.Theorems
import EchidnaOS.Devfs.Iowait
import EchidnaOS.Devfs.Iowait.Theorems
import EchidnaOS.Lib.Roots
import EchidnaOS.Vfs.Ownership
import EchidnaOS.Vfs.Ownership.Objects
import EchidnaOS.Vfs.Ownership.Handles
import EchidnaOS.Vfs.Ownership.Tasks
import EchidnaOS.Vfs.Ownership.Theorems
import EchidnaOS.Echfs.Directory.Resolve
import EchidnaOS.Vfs.AbsolutePath.Trace
import EchidnaOS.Vfs.NormalPath
import EchidnaOS.Vfs.TranslateMnt
import EchidnaOS.Vfs.AbsolutePath.Buffers
import EchidnaOS.Vfs.AbsolutePath.Normal
import EchidnaOS.Partition.Table
import EchidnaOS.Partition.Table.Scan
import EchidnaOS.Partition.Table.Gpt
import EchidnaOS.Echfs.Directory.Full
import EchidnaOS.Echfs.Directory.Listing
import EchidnaOS.Echfs.File.Missing
import EchidnaOS.Echfs.File.Taken
import EchidnaOS.Echfs.Handle.EndOfDisk
import EchidnaOS.Klib.Memcmp
import EchidnaOS.BiosHarddisks.Requests
import EchidnaOS.Keyboard.Line
import EchidnaOS.Keyboard.Delivery
import EchidnaOS.Vfs.Fork
import EchidnaOS.Klib.Heap.Borrowed
import EchidnaOS.Vfs.Fork.Failure
import EchidnaOS.Echfs.Handle.Flush
import EchidnaOS.Vfs.Streams
import EchidnaOS.Vfs.Streams.Opens
import EchidnaOS.Vfs.Streams.Load
import EchidnaOS.Vfs.Streams.Theorems
import EchidnaOS.Kprint
import EchidnaOS.Lib.BoundedLog
import EchidnaOS.Kprint.Emit
import EchidnaOS.Kprint.Numbers
import EchidnaOS.Kprint.Rendering
import EchidnaOS.Shell
import EchidnaOS.Shell.Segments
import EchidnaOS.Shell.Theorems
import EchidnaOS.Klib.Pmm.Covered
import EchidnaOS.Segment.Encoding
import EchidnaOS.Segment.Room
import EchidnaOS.Vfs.StreamDevices
import EchidnaOS.Vfs.StreamDevices.Theorems
import EchidnaOS.Lib.PointerArray
import EchidnaOS.Task.Execve
import EchidnaOS.Task.Launch
import EchidnaOS.Vfs.Recycled
import EchidnaOS.Vfs.BlockingRead
import EchidnaOS.Lib.Progress
import EchidnaOS.Scheduler.Fairness
import EchidnaOS.Klib.Memmove
import EchidnaOS.Klib.Heap.Refinement
import EchidnaOS.Shell.Redirections
import EchidnaOS.Scheduler.Memory
import EchidnaOS.Scheduler.Records
import EchidnaOS.Segment.Gdt
import EchidnaOS.Scheduler.Protection
import EchidnaOS.Echfs.Store.Names
import EchidnaOS.Lib.Cells
import EchidnaOS.Echfs.Store.Volume
import EchidnaOS.Echfs.Store.Step
import EchidnaOS.Echfs.Store.Calls
import EchidnaOS.Echfs.Store.Transfer
import EchidnaOS.Echfs.Store
