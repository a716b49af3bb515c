import OSCoreSim.Lib.Runs
import OSCoreSim.Lib.Simulation
import OSCoreSim.Lib.Fairness
import OSCoreSim.Lib.Tiling
import OSCoreSim.Lib.ByteStream
import OSCoreSim.Lib.TakenBytes
import OSCoreSim.Lib.KeyedTable
import OSCoreSim.Lib.OrderedMap
import OSCoreSim.Lib.OrderedForest
import OSCoreSim.Lib.Selection
import OSCoreSim.Lib.FirstOccurrence
import OSCoreSim.Lib.DepthFirst
import OSCoreSim.Lib.RoundRobin
import OSCoreSim.Lib.Scan
import OSCoreSim.Lib.Chunked
import OSCoreSim.Lib.ParentForest
import OSCoreSim.Util.Str
import OSCoreSim.Util.Words
import OSCoreSim.Memory.MemoryManager
import OSCoreSim.Memory.FreeSearch
import OSCoreSim.Memory.BlockTable
import OSCoreSim.Memory.Partition
import OSCoreSim.Memory.Compaction
import OSCoreSim.Memory.Validation
import OSCoreSim.Memory.ImportedTable
import OSCoreSim.Memory.InUse
import OSCoreSim.Memory.MemoryRun
import OSCoreSim.Memory.Placement
import OSCoreSim.Memory.Packing
import OSCoreSim.Memory.Contiguous
import OSCoreSim.Memory.Ownership
import OSCoreSim.Process.ProcessManager
import OSCoreSim.Process.Transitions
import OSCoreSim.Process.ProcessView
import OSCoreSim.Process.OwnView
import OSCoreSim.Process.Scheduler
import OSCoreSim.Process.SchedulerSpec
import OSCoreSim.Process.ReadyIndex
import OSCoreSim.Process.ProcessRun
import OSCoreSim.Process.ProcessImport
import OSCoreSim.Process.QueueRepair
import OSCoreSim.Process.KillSubtree
import OSCoreSim.Process.TurnOrder
import OSCoreSim.Process.Life
import OSCoreSim.Process.Blocked
import OSCoreSim.Auth.UserManager
import OSCoreSim.Auth.Accounts
import OSCoreSim.Auth.LoginHistory
import OSCoreSim.Vfs.VirtualFileSystem
import OSCoreSim.Vfs.FileTable
import OSCoreSim.Vfs.FileMap
import OSCoreSim.Persistence.SnapshotStore
import OSCoreSim.Persistence.SnapshotCodec
import OSCoreSim.Persistence.SnapshotReader
import OSCoreSim.Persistence.ReaderLimits
import OSCoreSim.Persistence.FileVersions
import OSCoreSim.Persistence.SnapshotCounts
import OSCoreSim.Persistence.AtomicReplace
import OSCoreSim.View.OverviewRenderer
import OSCoreSim.View.MemoryMask
import OSCoreSim.View.QueueWarnings
import OSCoreSim.View.TreeDrawing
import OSCoreSim.View.ProcessTrees
import OSCoreSim.Kernel.CommandDispatcher
import OSCoreSim.Kernel.Kernel
import OSCoreSim.Kernel.Changes
import OSCoreSim.Kernel.Routing
import OSCoreSim.Kernel.Agreement
import OSCoreSim.Kernel.World
import OSCoreSim.Kernel.ProcessCalls
import OSCoreSim.Util.BlockingQueue
import OSCoreSim.Kernel.Threads
import OSCoreSim.Kernel.WorkerEnd
import OSCoreSim.Kernel.Linearization
import OSCoreSim.Kernel.Shutdown
import OSCoreSim.Kernel.CallProgress
import OSCoreSim.Kernel.PcbInvariant
import OSCoreSim.Kernel.Invariant
import OSCoreSim.Kernel.Accounting
import OSCoreSim.Kernel.Isolation
import OSCoreSim.Kernel.PidReuse
import OSCoreSim.Kernel.SnapshotValidity
import OSCoreSim.Kernel.Coherence
import OSCoreSim.Kernel.Compaction
import OSCoreSim.Kernel.SnapshotRestore
import OSCoreSim.Kernel.QueueRestore
import OSCoreSim.Kernel.PidIssue
import OSCoreSim.Kernel.Native
import OSCoreSim.Kernel.SchedulingStep
import OSCoreSim.Kernel.ReadyRun
import OSCoreSim.Kernel.BlockedRun
import OSCoreSim.Kernel.Turns
import OSCoreSim.Kernel.TurnCycle
import OSCoreSim.Kernel.Orders
import OSCoreSim.Kernel.Lifetime
import OSCoreSim.Kernel.Admission
import OSCoreSim.Kernel.Forest
import OSCoreSim.Kernel.StateFile
import OSCoreSim.Kernel.FailedLoad
import OSCoreSim.Kernel.AccountLock
import OSCoreSim.Kernel.ViewIsolation
import OSCoreSim.Kernel.SnapshotIdentity
import OSCoreSim.Kernel.FileRun
import OSCoreSim.Kernel.WriteFile
import OSCoreSim.Kernel.SaveLoad
import OSCoreSim.Kernel.Restart
import OSCoreSim.Kernel.NormalForm
import OSCoreSim.Kernel.QueueAlarms
import OSCoreSim.Kernel.Journal
import OSCoreSim.Kernel.Kinship
import OSCoreSim.Kernel.TreeRun
import OSCoreSim.Ipc.NamedPipe
import OSCoreSim.Ipc.InstanceGuard
import OSCoreSim.Ipc.PipeInstances
import OSCoreSim.App.ConsoleApp
import OSCoreSim.App.MenuConsole
import OSCoreSim.App.Menus
import OSCoreSim.App.FileMenu
import OSCoreSim.App.MenuScript
import OSCoreSim.App.Session
import OSCoreSim.App.AllocationDialog
import OSCoreSim.App.MasterProcess
import OSCoreSim.App.MasterEnd
import OSCoreSim.App.MasterExit
import OSCoreSim.Kernel.Authentication
import OSCoreSim.Kernel.FileService
