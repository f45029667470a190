import NexOS.Proc.DropRoot
import NexOS.File.PipeLifetime
import NexOS.Block.CacheFreshness
import NexOS.Block.LifecycleRuns
import NexOS.Vfs.Handles
import NexOS.Sched.RunQueueRuns
import NexOS.Proc.ExitWaiters
import NexOS.Ipc.QueueRuns
import NexOS.Proc.ElfImage
import NexOS.Vfs.PathAccess
import NexOS.Vfs.RootProtection
import NexOS.Nxfs.WriteRead
import NexOS.Event.Delivery
import NexOS.Libc.HeapLaw
import NexOS.Fat32.Traversal
import NexOS.Fat32.CleanCreation
import NexOS.Nxfs.Mkfs
import NexOS.Nxfs.Coalescing
import NexOS.File.PipeStream
import NexOS.Vfs.PathResolve
import NexOS.Mem.PmmContracts
import NexOS.Tty.Ansi
import NexOS.Libc.Rename
import NexOS.Services.Start
import NexOS.Shell.Glob
import NexOS.Nxfs.PathSplit
