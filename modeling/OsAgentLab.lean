import OsAgentLab.Fat32.Table
import OsAgentLab.Fat32.Dirent
import OsAgentLab.Fat32.Directory
import OsAgentLab.Pool
import OsAgentLab.Fat32.Entry
import OsAgentLab.Fat32.File
import OsAgentLab.Ramfs
import OsAgentLab.Vfs
import OsAgentLab.Fat32.Store
import OsAgentLab.Fat32.TableSpec
import OsAgentLab.Chain
import OsAgentLab.Fat32.Alloc
import OsAgentLab.Fat32.ChainOps
import OsAgentLab.Fat32.Growth
import OsAgentLab.Fat32.Listing
import OsAgentLab.Fat32.DirSpec
import OsAgentLab.Fat32.DirWrite
import OsAgentLab.Fat32.LongName
import OsAgentLab.Fat32.ShortName
import OsAgentLab.Fat32.EntrySpec
import OsAgentLab.Fat32.ListingSpec
import OsAgentLab.Fat32.DirShape
import OsAgentLab.Fat32.NodeOps
import OsAgentLab.Fat32.Blank
import OsAgentLab.Fat32.CreateLookup
import OsAgentLab.Fat32.OwnEntry
import OsAgentLab.Fat32.WellFormed
import OsAgentLab.Fat32.TreeUpdate
import OsAgentLab.Fat32.TreeOps
import OsAgentLab.Fat32.FileData
import OsAgentLab.Fat32.FileEntry
import OsAgentLab.Fat32.FileOps
import OsAgentLab.Triple
import OsAgentLab.Memory
import OsAgentLab.Vm.Mm
import OsAgentLab.Vm.PageTable
import OsAgentLab.Vm.Entries
import OsAgentLab.Vm.FreeList
import OsAgentLab.Vm.Space
import OsAgentLab.Vm.MapSpec
import OsAgentLab.Vm.AllocSpec
import OsAgentLab.Vm.UnmapSpec
import OsAgentLab.Vm.CopySpec
import OsAgentLab.Vm.FreeSpec
import OsAgentLab.Vm.CreateSpec
import OsAgentLab.Proc.State
import OsAgentLab.Proc.Files
import OsAgentLab.Proc.Elf
import OsAgentLab.Proc.Exec
import OsAgentLab.Proc.Calls
import OsAgentLab.RefCount
import OsAgentLab.Proc.FileSpec
import OsAgentLab.Proc.ExecFrame
import OsAgentLab.Proc.FileFrame
import OsAgentLab.Proc.CallCounts
import OsAgentLab.Proc.Run
import OsAgentLab.Proc.FileRun
import OsAgentLab.Proc.WaitRun
import OsAgentLab.Proc.Scheduler
import OsAgentLab.Vm.Estate
import OsAgentLab.Timer.Hart
import OsAgentLab.Timer.Ticks
import OsAgentLab.Mkfs.Image
import OsAgentLab.Mkfs.Names
import OsAgentLab.Mkfs.FatSize
import OsAgentLab.Fdt.Scan
import OsAgentLab.Fdt.Agree
import OsAgentLab.Fdt.Inside
import OsAgentLab.Fdt.Walk
import OsAgentLab.Vm.UserBytes
import OsAgentLab.Proc.Io
import OsAgentLab.Proc.Getdents
import OsAgentLab.Fat32.FileBytes
import OsAgentLab.Proc.FileBytes
import OsAgentLab.Proc.Append
import OsAgentLab.Proc.DirentLeak
import OsAgentLab.Virtio.Blk
import OsAgentLab.Virtio.Faithful
import OsAgentLab.Fat32.Mount
import OsAgentLab.Fat32.FileSpec
import OsAgentLab.Proc.Sizes
import OsAgentLab.Fat32.OneFile
import OsAgentLab.Fat32.FileArray
import OsAgentLab.Fat32.Unwritten
import OsAgentLab.Fat32.Traverse
import OsAgentLab.Fat32.Contained
import OsAgentLab.Fat32.Traversals
import OsAgentLab.User.HeapRun
import OsAgentLab.User.HeapFree
import OsAgentLab.Fat32.AllocBytes
import OsAgentLab.Fat32.FreeChain
import OsAgentLab.Vnodes
import OsAgentLab.Walks
import OsAgentLab.Mounted
import OsAgentLab.Ancestry
import OsAgentLab.Boot
import OsAgentLab.Compose
import OsAgentLab.Found
import OsAgentLab.Getcwd
import OsAgentLab.Pieces
import OsAgentLab.Proc.WriteTransfer
import OsAgentLab.Proc.ReadTransfer
import OsAgentLab.Proc.Accounts
import OsAgentLab.Quicksort
import OsAgentLab.User.Qsort
import OsAgentLab.User.Printf
import OsAgentLab.BoundedArray
import OsAgentLab.RamFile
import OsAgentLab.Firmware.Disk
import OsAgentLab.Firmware.Image
import OsAgentLab.Writes
import OsAgentLab.Firmware.Loader
import OsAgentLab.Firmware.LoaderSafe
import OsAgentLab.Vm.Sv39
import OsAgentLab.Vm.BootTable
import OsAgentLab.Vm.Kinit
import OsAgentLab.Vm.UserCopies
import OsAgentLab.User.Break
import OsAgentLab.User.BreakRun
import OsAgentLab.User.BreakCalls
import OsAgentLab.CString
import OsAgentLab.User.Fnmatch
import OsAgentLab.User.Numeral
import OsAgentLab.User.Strtol
import OsAgentLab.User.Getopt
import OsAgentLab.Proc.TtyLine
import OsAgentLab.User.Shell
import OsAgentLab.User.ShellSplit
import OsAgentLab.User.ShellRun
import OsAgentLab.User.Complete
import OsAgentLab.User.CompleteSpec
import OsAgentLab.User.CompleteTab
import OsAgentLab.Proc.Redirect
import OsAgentLab.Proc.RedirectFrame
import OsAgentLab.Proc.RedirectCalls
import OsAgentLab.Proc.RedirectRun
import OsAgentLab.Buffer
import OsAgentLab.Lifting
import OsAgentLab.Fat32.SlotAddress
import OsAgentLab.Fat32.DirBuffers
import OsAgentLab.Fat32.DirSafe
import OsAgentLab.Trae.PageTable
import OsAgentLab.Trae.Layout
import OsAgentLab.Trae.Pages
import OsAgentLab.Trae.Mapping
import OsAgentLab.MiniMax.TrapVector
import OsAgentLab.MiniMax.Interrupts
import OsAgentLab.Trae.Passes
import OsAgentLab.Trae.Runs
import OsAgentLab.Trae.Translation
import OsAgentLab.Trae.Conservation
import OsAgentLab.User.Stdio
import OsAgentLab.User.StdioRun
import OsAgentLab.Vm.UserWrites
import OsAgentLab.Vm.WalkLoads
import OsAgentLab.Proc.Housing
import OsAgentLab.Proc.HousedCalls
import OsAgentLab.Proc.ArgStack
import OsAgentLab.Proc.ExecHoused
import OsAgentLab.Proc.ExecSpace
import OsAgentLab.Vm.BootEstate
import OsAgentLab.Proc.TenancyRun
import OsAgentLab.Proc.CallMemory
import OsAgentLab.Proc.UserWalks
import OsAgentLab.Trap.Vector
import OsAgentLab.Trap.RoundTrip
import OsAgentLab.Trap.Switch
import OsAgentLab.Trap.RoundTrip
import OsAgentLab.Trap.Switch
import OsAgentLab.Trap.Switch
