import Linux095.X86.Lemmas
import Linux095.Mm.FreePage
import Linux095.Coop.Thread
import Linux095.Links.Ring
import Linux095.Fs.Buffer
import Linux095.BlkDrv.LlRwBlk
import Linux095.Fs.BufferCache
import Linux095.Fs.BreadPage
import Linux095.Fs.Minix.FindFirstZero
import Linux095.Fs.Minix.Bitmap
import Linux095.Fs.Minix.DirEntry
import Linux095.Fs.Pipe
import Linux095.Fs.Sync
import Linux095.Fs.Minix.Zones
import Linux095.Fs.Minix.Bmap
import Linux095.Fs.Minix.FileDev
import Linux095.Fs.Minix.Truncate
import Linux095.Fs.Minix.Writers
import Linux095.Count.Refs
import Linux095.Mm.Change
import Linux095.Mm.PageCounts
import Linux095.Mm.SwapSlots
import Linux095.BlkDrv.RequestQueue
import Linux095.Fs.Confined
import Linux095.Links.Doubly
import Linux095.Mm.KernelStores
import Linux095.Mm.DemandLoad
import Linux095.Sched.ProcessTree
import Linux095.Sched.TreeInv
import Linux095.Sched.WaitQueue
import Linux095.Sched.Waiting
import Linux095.BlkDrv.Requests
import Linux095.ChrDrv.Tty
import Linux095.ChrDrv.Output
import Linux095.ChrDrv.VirtualConsoles
import Linux095.Coop.Discipline
import Linux095.Fs.Exec
import Linux095.Fs.ExecCall
import Linux095.Fs.ExecSizes
import Linux095.Fs.Holders
import Linux095.Fs.Breada
import Linux095.Fs.InodeTable
import Linux095.Fs.MountsInv
import Linux095.Fs.ReadSuper
import Linux095.Fs.Select
import Linux095.Fs.FileOffsets
import Linux095.Kernel.Credentials
import Linux095.Kernel.Groups
import Linux095.Kernel.Kill
import Linux095.Kernel.Wait
import Linux095.Links.Differences
import Linux095.Sched.Schedule
import Linux095.Sched.Timers
import Linux095.Fs.Minix.InodeCodec
import Linux095.Fs.NewPipe
import Linux095.Fs.OpenNamei
import Linux095.Fs.Minix.DirMap
import Linux095.Fs.Minix.DirScan
import Linux095.ChrDrv.LineRoom
import Linux095.ChrDrv.LineEdit
import Linux095.Math.GetPut
import Linux095.Math.RoundedReals
import Linux095.Math.Compare
import Linux095.Math.Addition
import Linux095.Math.MulDiv
import Linux095.Math.Ea
import Linux095.Mm.SwapScan
import Linux095.Mm.VerifyArea
import Linux095.BlkDrv.Hd
import Linux095.BlkDrv.Floppy
import Linux095.BlkDrv.FailedRequests
import Linux095.BlkDrv.Partitions
import Linux095.Lib.MallocInv
import Linux095.ChrDrv.ConWrite
import Linux095.ChrDrv.PtyWrite
import Linux095.Coop.Actions
import Linux095.Fs.InodeLoops
import Linux095.Fs.Minix.FreeLog
import Linux095.Circular.Chunks
import Linux095.Fs.PipeQueue
import Linux095.Kernel.Number
import Linux095.Kernel.Vsprintf
import Linux095.Kernel.Mktime
import Linux095.Kernel.TimeOfDay
import Linux095.Fs.Fcntl
import Linux095.Fs.Access
import Linux095.Kernel.Ptrace
import Linux095.Kernel.PtracePages
import Linux095.Fs.QueuePointers
import Linux095.Kernel.OrphansIff
