import NicoOS.Fs.Layout
import NicoOS.Mkfs.Superblock
import NicoOS.Mkfs.Files
import NicoOS.Mkfs.Blocks
import NicoOS.Mkfs.Growth
import NicoOS.Mkfs.Inodes
import NicoOS.Mkfs.Root
import NicoOS.Mkfs.Image
import NicoOS.Mkfs.Contents
import NicoOS.Mkfs.Complete
import NicoOS.Mkfs.Nodes
import NicoOS.Mkfs.Building
import NicoOS.Mkfs.Initial
import NicoOS.Kernel.Syscall.UserArgs
import NicoOS.Kernel.Kalloc.Model
import NicoOS.Kernel.Kalloc.Carve
import NicoOS.Kernel.Kalloc.Invariant
import NicoOS.Kernel.Kalloc.Safety
import NicoOS.Kernel.Pipe.Model
import NicoOS.Kernel.Pipe.Delivery
import NicoOS.Kernel.Sched.Model
import NicoOS.Kernel.Sched.QueueIntegrity
import NicoOS.Fs.Log.Header
import NicoOS.Fs.Log.Admission
import NicoOS.Fs.Log.Commit
import NicoOS.Fs.Log.Recovery
import NicoOS.Fs.Balloc
import NicoOS.Fs.Inode.Model
import NicoOS.Fs.Inode.Ownership
import NicoOS.Fs.Inode.Mapping
import NicoOS.Fs.Inode.Contents
import NicoOS.Fs.Inode.Image
import NicoOS.Fs.Inode.Files
import NicoOS.Fs.Inode.Truncate
import NicoOS.Fs.Inode.FileSystem
import NicoOS.Fs.Inode.Integrity
import NicoOS.Fs.Inode.Refinement
import NicoOS.Kernel.Semaphore.Exclusion
import NicoOS.Kernel.Pipe.Order
import NicoOS.Kernel.Sched.ExitWait
import NicoOS.Kernel.Sched.Reaping
import NicoOS.Kernel.Sched.ReapLedger
import NicoOS.Kernel.Disk.Model
import NicoOS.Kernel.Disk.Requests
import NicoOS.Kernel.Disk.Steps
import NicoOS.Kernel.Disk.Coherence
import NicoOS.Fs.Syscall.Calls
import NicoOS.Lib.Counting
import NicoOS.Fs.Syscall.Effects
import NicoOS.Fs.Syscall.OpenFiles
import NicoOS.Fs.Syscall.OpenRuns
import NicoOS.Fs.Syscall.Descriptors
import NicoOS.Kernel.PipeCall.Model
import NicoOS.Kernel.PipeCall.Heap
import NicoOS.Kernel.PipeCall.Failure
import NicoOS.Kernel.Vm.Copy
import NicoOS.Kernel.Vm.CopyDir
import NicoOS.Kernel.Vm.Exhaustion
import NicoOS.Kernel.Vm.Isolation
import NicoOS.Fs.Icache.Identity
import NicoOS.Kernel.Vm.Clearing
import NicoOS.Fs.Dir.Listing
import NicoOS.Fs.Dir.Operations
import NicoOS.Fs.Dir.Refinement
import NicoOS.Fs.Syscall.Interleaving
import NicoOS.Fs.Inode.FileWrite
import NicoOS.Fs.Syscall.InodeRefs
import NicoOS.Kernel.Keyboard
import NicoOS.Kernel.Vm.Copyout
import NicoOS.Kernel.Vm.Sbrk
import NicoOS.Shell.Errors
import NicoOS.Shell.Lexer
import NicoOS.Shell.Quoting
import NicoOS.Fs.Syscall.ExecRecords
import NicoOS.Kernel.Vm.Exec
import NicoOS.Kernel.Vm.ExecRestore
import NicoOS.Fs.Balloc.Laws
import NicoOS.Fs.Log.FullLog
import NicoOS.Kernel.Disk.ReadErrors
import NicoOS.Fs.Syscall.PathBuffer
import NicoOS.Fs.Syscall.PathParent
import NicoOS.Kernel.Kalloc.Tally
import NicoOS.Kernel.Vm.Partition
import NicoOS.Kernel.Vm.PagePool
import NicoOS.Kernel.Vm.Setrange
import NicoOS.Kernel.Vm.FileBytes
import NicoOS.Kernel.Vm.FreshMemory
import NicoOS.Fs.Syscall.PathFold
import NicoOS.Fs.Dir.Names
import NicoOS.Fs.Dir.PathLookup
import NicoOS.Mkfs.ReadBack
import NicoOS.Fs.Syscall.CreateFile
import NicoOS.Shell.Escapes
import NicoOS.Shell.LineBuffer
import NicoOS.Shell.ScanTok
import NicoOS.Shell.TokenSource
import NicoOS.Shell.Termination
import NicoOS.Kernel.Console
import NicoOS.Kernel.LinkedList
import NicoOS.Kernel.LinkedList.Sequence
import NicoOS.Kernel.Sched.Choice
import NicoOS.Kernel.Sched.Counter
import NicoOS.Kernel.Sched.RoundRobin
import NicoOS.Fs.Syscall.ForestRuns
import NicoOS.Mkfs.ImageTree
import NicoOS.User.Malloc.Service
import NicoOS.User.Malloc.Sbrk
import NicoOS.Shell.Runner.Commands
import NicoOS.Shell.Script
import NicoOS.User.Stdio.Print
