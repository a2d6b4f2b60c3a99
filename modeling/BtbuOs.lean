import BtbuOs.Files.AccessModes
import BtbuOs.Files.Balance
import BtbuOs.Files.Counted
import BtbuOs.Files.Descriptors
import BtbuOs.Files.Inodes
import BtbuOs.Files.Kernel
import BtbuOs.Files.Opening
import BtbuOs.Files.Pins
import BtbuOs.Files.PipeLife
import BtbuOs.Files.PipeOutcome
import BtbuOs.Files.PipeUse
import BtbuOs.Files.References
import BtbuOs.Files.Runs
import BtbuOs.Fs.Bio
import BtbuOs.Fs.BlockCount
import BtbuOs.Fs.BlockRuns
import BtbuOs.Fs.BufferCache
import BtbuOs.Fs.Content
import BtbuOs.Fs.Creation
import BtbuOs.Fs.Directory
import BtbuOs.Fs.DirectoryMap
import BtbuOs.Fs.FileBytes
import BtbuOs.Fs.Filling
import BtbuOs.Fs.Inode
import BtbuOs.Fs.InodeTable
import BtbuOs.Fs.Layout
import BtbuOs.Fs.Leaves
import BtbuOs.Fs.Mapping
import BtbuOs.Fs.Namei
import BtbuOs.Fs.Pointers
import BtbuOs.Fs.Refusals
import BtbuOs.Fs.ShortWrite
import BtbuOs.Fs.Transfer
import BtbuOs.Fs.Truncate
import BtbuOs.Fs.Volume
import BtbuOs.Ipc.PipeFifo
import BtbuOs.Lib.Acyclic
import BtbuOs.Lib.Banker
import BtbuOs.Lib.FreeRunning
import BtbuOs.Lib.FirstLeast
import BtbuOs.Lib.Links
import BtbuOs.Lib.LongestMatch
import BtbuOs.Lib.Machine
import BtbuOs.Lib.Memo
import BtbuOs.Lib.Ownership
import BtbuOs.Lib.Partition
import BtbuOs.Lib.RefCount
import BtbuOs.Lib.Ring
import BtbuOs.Lib.Slice
import BtbuOs.Lib.Slots
import BtbuOs.Lib.Text
import BtbuOs.Lib.Wrap
import BtbuOs.Net.AiApi
import BtbuOs.Net.Arp
import BtbuOs.Net.ArpCache
import BtbuOs.Net.Input
import BtbuOs.Net.InputBounds
import BtbuOs.Net.Route
import BtbuOs.Net.Routing
import BtbuOs.Net.Util
import BtbuOs.Net.Virtio
import BtbuOs.Net.VirtioRings
import BtbuOs.Nfs.Appending
import BtbuOs.Nfs.Building
import BtbuOs.Nfs.Mkfs
import BtbuOs.Nfs.Simulation
import BtbuOs.Npc.AiSched
import BtbuOs.Npc.Alive
import BtbuOs.Npc.Memory
import BtbuOs.Npc.Threads
import BtbuOs.Npc.Vitality
import BtbuOs.Proc.Creation
import BtbuOs.Proc.Queue
import BtbuOs.Sched.Fetch
import BtbuOs.Sched.Kernel
import BtbuOs.Sched.Reaping
import BtbuOs.Sched.RunQueue
import BtbuOs.Sched.Service
import BtbuOs.Sched.Share
import BtbuOs.Sync.Alarm
import BtbuOs.Sync.Bookkeeping
import BtbuOs.Sync.Charge
import BtbuOs.Sync.Deadlock
import BtbuOs.Sync.Effects
import BtbuOs.Sync.Exclusion
import BtbuOs.Sync.Micro
import BtbuOs.Sync.Safety
import BtbuOs.Sync.Scan
import BtbuOs.Sync.Starve
import BtbuOs.Sync.Stuck
import BtbuOs.Sync.Tally
import BtbuOs.Sync.Units
import BtbuOs.Sync.Wakeups
import BtbuOs.Tcp.Acknowledge
import BtbuOs.Tcp.Closing
import BtbuOs.Tcp.Established
import BtbuOs.Tcp.Paths
import BtbuOs.Tcp.Pcb
import BtbuOs.Tcp.Quiet
import BtbuOs.Tcp.Receive
import BtbuOs.Tcp.Retransmit
import BtbuOs.Tcp.Segment
import BtbuOs.Tcp.SendWindow
import BtbuOs.Tcp.Stream
import BtbuOs.Tcp.Turns
import BtbuOs.Vm.AiChat
import BtbuOs.Vm.Argv
import BtbuOs.Vm.Calls
import BtbuOs.Vm.Console
import BtbuOs.Vm.Contents
import BtbuOs.Vm.Copy
import BtbuOs.Vm.CopyRange
import BtbuOs.Vm.CopyUndo
import BtbuOs.Vm.Exec
import BtbuOs.Vm.ExecArgs
import BtbuOs.Vm.Exit
import BtbuOs.Vm.Fork
import BtbuOs.Vm.Frames
import BtbuOs.Vm.Kernel
import BtbuOs.Vm.KernelStrings
import BtbuOs.Vm.Mappings
import BtbuOs.Vm.Permissions
import BtbuOs.Vm.Processes
import BtbuOs.Vm.Refinement
import BtbuOs.Vm.Release
import BtbuOs.Vm.Spaces
import BtbuOs.Vm.StackArgs
import BtbuOs.Vm.Supply
import BtbuOs.Vm.Tree
import BtbuOs.Vm.UserAccess
import BtbuOs.Vm.Uvmcopy
import BtbuOs.Vm.UserCalls
import BtbuOs.Vm.Wait
import BtbuOs.Vm.Walk
import BtbuOs.Sched.Selection
import BtbuOs.Vm.Teardown
import BtbuOs.Vm.Additions
import BtbuOs.Vm.Mmap
import BtbuOs.Vm.Munmap
import BtbuOs.Vm.Loading
import BtbuOs.Lib.Circle
import BtbuOs.Tcp.Modular
import BtbuOs.Lib.Decimal
import BtbuOs.Net.IpText
import BtbuOs.Lib.OnesComplement
import BtbuOs.Net.Checksum
import BtbuOs.Net.Output
import BtbuOs.Lib.Cursor
import BtbuOs.Net.HttpResponse
import BtbuOs.Net.HttpUrl
import BtbuOs.Net.HttpRequest
import BtbuOs.Net.Extract
import BtbuOs.Lib.Utf8
import BtbuOs.Lib.Json
import BtbuOs.Net.ChatRequest
import BtbuOs.Net.Decode
import BtbuOs.Npc.AiResponse
import BtbuOs.Lib.Appends
import BtbuOs.Npc.Prompt
import BtbuOs.Virtio.Driver
import BtbuOs.Virtio.Descriptors
import BtbuOs.Virtio.Requests
import BtbuOs.Virtio.Completions
import BtbuOs.Virtio.Transfers
import BtbuOs.Virtio.Runs
import BtbuOs.Nfs.Files
import BtbuOs.Nfs.Reading
import BtbuOs.Udp.Socket
import BtbuOs.Udp.Table
import BtbuOs.Udp.Delivery
import BtbuOs.Udp.Runs
import BtbuOs.Wire.Carried
import BtbuOs.Wire.Frame
import BtbuOs.Wire.Datagram
import BtbuOs.Wire.Sending
import BtbuOs.Wire.Delivery
import BtbuOs.Wire.Network
import BtbuOs.Wire.Effects
import BtbuOs.Wire.Runs
import BtbuOs.Lib.Riscv
