import OSCoreSim.Kernel.CommandDispatcher
import OSCoreSim.Persistence.SnapshotStore
import OSCoreSim.View.OverviewRenderer
/-!
# The kernel

`Kernel` owns the managers and coordinates them.  `executeRequest` runs one
command line under `stateMutex_`, and `schedulerTick` is one turn of the
automatic scheduler under the same lock, so both are single steps of the model.
-/

namespace OSCoreSim

open Std (ExtTreeMap)
open CommandDispatcher (reply loginText)

structure Kernel where
  userManager : UserManager := {}
  processManager : ProcessManager := {}
  memoryManager : MemoryManager := {}
  scheduler : Scheduler := {}
  snapshotStore : SnapshotStore := {}
  vfs : VirtualFileSystem := {}
  schedulerRunning : Bool := false
  schedulerOwner : Str := []
  schedulerIntervalMs : UInt32 := 500
  autoLoadStatus : Str := str "not checked"
  workerRunning : Bool := false

/-- What one command sees of the world outside the kernel. -/
structure Environment where
  /-- `std::chrono::steady_clock::now()` -/
  steadyClock : Int64
  /-- `std::time(nullptr)` -/
  time : UInt64
  floats : FloatFormat
  saveIo : SnapshotStore.SaveIo

structure CommandRequest where
  id : UInt64 := 0
  rawLine : Str := []
  source : CommandSource := .localConsole

namespace Kernel

/-! ## Snapshots of the kernel state -/

def exportSnapshot (k : Kernel) : KernelSnapshot :=
  { users := k.userManager.exportUsers
    nextPid := k.processManager.nextPid
    pcbs := k.processManager.exportPcbs
    readyQueues := k.processManager.readyQueues
    memoryBlocks := k.memoryManager.blocks
    totalMemoryKB := k.memoryManager.totalMemoryKB
    allocAlgorithm := k.memoryManager.algorithm
    schedulerRunning := k.schedulerRunning
    schedulerOwner := k.schedulerOwner
    nextFileId := k.vfs.nextFileId
    virtualFiles := k.vfs.exportFiles }

/-- The user loop of `validateSnapshot`: the set of usernames. -/
def validateUsers : List UserAccount → List Str → Except Str (List Str)
  | [], usernames => .ok usernames
  | account :: rest, usernames =>
    if account.username = [] then .error (str "invalid snapshot: empty username.")
    else if account.username ∈ usernames then
      .error (str "invalid snapshot: duplicated username.")
    else validateUsers rest (account.username :: usernames)

/-- The first PCB loop of `validateSnapshot`: the table and the largest PID. -/
def validatePcbs (usernames : List Str) :
    List PCB → ExtTreeMap UInt32 PCB → UInt32 → Except Str (ExtTreeMap UInt32 PCB × UInt32)
  | [], pcbs, maxPid => .ok (pcbs, maxPid)
  | pcb :: rest, pcbs, maxPid =>
    if pcb.pid = 0 ∨ pcbs.contains pcb.pid then
      .error (str "invalid snapshot: duplicated or zero PID.")
    else if pcb.owner ∉ usernames then
      .error (str "invalid snapshot: PCB owner does not exist.")
    else if pcb.ppid = pcb.pid then
      .error (str "invalid snapshot: PCB cannot be its own parent.")
    else if pcb.priority < 0 ∨ 15 < pcb.priority ∨ pcb.queueLevel < 0 ∨ 2 < pcb.queueLevel then
      .error (str "invalid snapshot: PCB priority or queue level out of range.")
    else if pcb.totalTime < pcb.executedTime ∨ pcb.totalTime < pcb.remainingTime then
      .error (str "invalid snapshot: PCB runtime counters out of range.")
    else validatePcbs usernames rest (pcbs.insert pcb.pid pcb) (max maxPid pcb.pid)

/-- The second PCB loop of `validateSnapshot`: parents and children exist. -/
def validateLinks (pcbs : ExtTreeMap UInt32 PCB) : List PCB → Except Str Unit
  | [] => .ok ()
  | pcb :: rest =>
    if pcb.ppid ≠ 0 ∧ !pcbs.contains pcb.ppid then
      .error (str "invalid snapshot: parent PID does not exist.")
    else if pcb.children.any (!pcbs.contains ·) then
      .error (str "invalid snapshot: child PID does not exist.")
    else validateLinks pcbs rest

def isSwapped (pcb : PCB) : Bool := pcb.swappedOut ∨ pcb.state = .swapped

def validateProcessBlock (pcbs : ExtTreeMap UInt32 PCB) (seen : List UInt32)
    (block : MemoryBlock) : Except Str Unit :=
  match pcbs[block.pid]? with
  | none => .error (str "invalid snapshot: PROCESS memory block does not match a PCB.")
  | some process =>
    if process.owner ≠ block.owner then
      .error (str "invalid snapshot: PROCESS memory block does not match a PCB.")
    else if isSwapped process then
      .error (str "invalid snapshot: swapped PCB must not have PROCESS memory block.")
    else if block.start ≠ process.memStart ∨ block.size ≠ process.memSize then
      .error (str "invalid snapshot: PROCESS memory block does not match PCB memory fields.")
    else if block.pid ∈ seen then
      .error (str "invalid snapshot: duplicated PROCESS memory block for PID.")
    else .ok ()

def validateMemory (usernames : List Str) (pcbs : ExtTreeMap UInt32 PCB) :
    List MemoryBlock → List UInt32 → Except Str (List UInt32)
  | [], seen => .ok seen
  | block :: rest, seen =>
    match (if block.type = .process then validateProcessBlock pcbs seen block else .ok ()) with
    | .error message => .error message
    | .ok () =>
      if (block.type = .kernel ∨ block.type = .process) ∧ block.owner ∉ usernames then
        .error (str "invalid snapshot: memory owner does not exist.")
      else validateMemory usernames pcbs rest
        (if block.type = .process then block.pid :: seen else seen)

/-- `validateSnapshot`: the message of `validateBlocks`, or the refusal. -/
def validateSnapshot (snapshot : KernelSnapshot) : Except Str Str :=
  match validateUsers snapshot.users [] with
  | .error message => .error message
  | .ok usernames =>
    match validatePcbs usernames snapshot.pcbs ∅ 0 with
    | .error message => .error message
    | .ok (pcbs, maxPid) =>
      if snapshot.nextPid ≤ maxPid then
        .error (str "invalid snapshot: nextPid must be greater than existing PIDs.")
      else match validateLinks pcbs snapshot.pcbs with
        | .error message => .error message
        | .ok () =>
          if snapshot.totalMemoryKB = 0 then
            .error (str "invalid snapshot: total memory must be greater than 0.")
          else match validateMemory usernames pcbs snapshot.memoryBlocks [] with
            | .error message => .error message
            | .ok withMemory =>
              if pcbs.toList.any fun (pid, pcb) => !isSwapped pcb && !withMemory.contains pid then
                .error (str "invalid snapshot: active PCB is missing PROCESS memory block.")
              else
                let memoryValidator : MemoryManager :=
                  { totalMemoryKB := snapshot.totalMemoryKB, algorithm := snapshot.allocAlgorithm }
                (memoryValidator.importBlocks snapshot.memoryBlocks).validateBlocks

/-- The process part of `importSnapshotLocked`, with the queue message. -/
def importProcesses (snapshot : KernelSnapshot) : ProcessManager × Str :=
  (((ProcessManager.importPcbs snapshot.pcbs).importNextPid snapshot.nextPid).importReadyQueues
    snapshot.readyQueues).rebuildParentChildRelations.validateReadyQueues

def importMemory (m : MemoryManager) (snapshot : KernelSnapshot) : MemoryManager :=
  { m with
    totalMemoryKB := snapshot.totalMemoryKB
    algorithm := snapshot.allocAlgorithm }.importBlocks snapshot.memoryBlocks

def importSnapshot (k : Kernel) (snapshot : KernelSnapshot) : Kernel × Bool × Str :=
  match validateSnapshot snapshot with
  | .error message => (k, false, message)
  | .ok _ =>
    let (processes, queueMessage) := importProcesses snapshot
    let imported := { k with
      schedulerRunning := false
      scheduler := { running := false }
      schedulerOwner := []
      userManager := (k.userManager.importUsers snapshot.users).clearCurrentSession
      processManager := processes
      memoryManager := importMemory k.memoryManager snapshot }
    match imported.memoryManager.validateBlocks with
    | .error memoryMessage => (imported, false, memoryMessage)
    | .ok _ =>
      ({ imported with
          vfs := (k.vfs.importNextFileId snapshot.nextFileId).importFiles snapshot.virtualFiles
          autoLoadStatus := str "manual load success" }, true, queueMessage)

def resetState (k : Kernel) : Kernel :=
  { k with
    userManager := (k.userManager.importUsers []).clearCurrentSession
    processManager := ((ProcessManager.importPcbs []).importNextPid 1).importReadyQueues fun _ => []
    memoryManager := { k.memoryManager with
      totalMemoryKB := 1024, algorithm := .firstFit }.importBlocks [freeBlock 0 1024]
    vfs := (k.vfs.importNextFileId 1).importFiles []
    schedulerRunning := false
    scheduler := { running := false }
    schedulerOwner := [] }

/-- `start` of a constructed kernel, as far as it sets the state: a readable state file is
imported, anything else leaves the clean state. -/
def start (k : Kernel) (fs : FileSystem) : Kernel :=
  let clean := { k with
    schedulerRunning := false
    scheduler := { running := false }
    schedulerOwner := [] }.resetState
  if k.snapshotStore.fileExists fs then
    match k.snapshotStore.load fs with
    | .error loadMessage =>
      { clean.resetState with autoLoadStatus := str "failed: " ++ loadMessage }
    | .ok snapshot =>
      match clean.importSnapshot snapshot with
      | (imported, true, _) => { imported with autoLoadStatus := str "success" }
      | (imported, false, loadMessage) =>
        { imported.resetState with autoLoadStatus := str "failed: " ++ loadMessage }
  else { clean with autoLoadStatus := str "no state file" }

/-! ## Command handlers -/

def isSchedulerCommand (name : Str) : Bool :=
  name = str "start_sched" ∨ name = str "stop_sched" ∨ name = str "restart_sched" ∨
    name = str "step"

def isPersistenceCommand (name : Str) : Bool := name = str "save" ∨ name = str "load"

def isVisualizationCommand (name : Str) : Bool := name = str "overview"

def isVfsCommand (name : Str) : Bool :=
  name = str "touch_file" ∨ name = str "write_file" ∨ name = str "read_file" ∨
    name = str "ls_file" ∨ name = str "rm_file"

/-- `schedulerRunning_.store(false); scheduler_.setRunning(false)`. -/
def haltScheduler (k : Kernel) : Kernel :=
  { k with schedulerRunning := false, scheduler := { running := false } }

/-- The start of the automatic scheduler for `owner`. -/
def runScheduler (k : Kernel) (owner : Str) : Kernel :=
  { k with schedulerOwner := owner, schedulerRunning := true, scheduler := { running := true } }

def schedulerStep (k : Kernel) (owner : Str) : Kernel × Str :=
  let (processes, memory, text) := Scheduler.step owner k.processManager k.memoryManager
  ({ k with processManager := processes, memoryManager := memory }, text)

def handleSchedulerCommand (k : Kernel) (command : Command) : Kernel × CommandResponse :=
  if !k.userManager.isLoggedIn then (k, reply false loginText)
  else
    let owner := k.userManager.currentUserName
    if command.arguments ≠ [] then (k, reply false (str "Usage: " ++ command.name))
    else if command.name = str "step" then
      let (stepped, text) := k.schedulerStep owner
      (stepped, reply true text)
    else if command.name = str "start_sched" then
      if k.schedulerRunning then
        (k, reply true (str "[INFO] MLFQ scheduler is already running for user " ++
          k.schedulerOwner ++ str "."))
      else (k.runScheduler owner, reply true (str "[OK] MLFQ scheduler started for user " ++
        owner ++ str ".\nAuto scheduling interval: " ++ decimal k.schedulerIntervalMs.toNat ++
        str "ms."))
    else if command.name = str "stop_sched" then
      if !k.schedulerRunning then (k, reply true (str "[INFO] Scheduler is not running."))
      else (k.haltScheduler, reply true
        (str "[OK] Scheduler stopped.\nCurrent Ready Queues:\n" ++
          k.processManager.readyQueueSnapshot owner))
    else if command.name = str "restart_sched" then
      let (processes, removed) := k.processManager.cleanupInvalidReadyQueueEntries
      ({ k.haltScheduler with processManager := processes }.runScheduler owner, reply true
        (str "[OK] Scheduler restarted.\nInvalid ready queue entries removed: " ++
          decimal removed.length ++ str "\nScheduler owner: " ++ owner))
    else (k, reply false (str "Unknown scheduler command."))

def snapshotSummaryText (snapshot : KernelSnapshot) : Str :=
  str "Users: " ++ decimal snapshot.users.length ++
    str "\nProcesses: " ++ decimal snapshot.pcbs.length ++
    str "\nMemory Blocks: " ++ decimal snapshot.memoryBlocks.length ++
    str "\nReady Queues: Q0=" ++ decimal (snapshot.readyQueues 0).length ++
    str ", Q1=" ++ decimal (snapshot.readyQueues 1).length ++
    str ", Q2=" ++ decimal (snapshot.readyQueues 2).length

def handleSave (k : Kernel) (io : SnapshotStore.SaveIo) (fs : FileSystem) :
    FileSystem × CommandResponse :=
  let snapshot := k.exportSnapshot
  match k.snapshotStore.save io fs snapshot with
  | (fs, .error message) => (fs, reply false message)
  | (fs, .ok ()) => (fs, reply true (str "[OK] System state saved to " ++ k.snapshotStore.path ++
      str "\n" ++ snapshotSummaryText snapshot))

/-- The `load` command; the automatic scheduler is stopped before the file is opened. -/
def handleLoad (k : Kernel) (fs : FileSystem) : Kernel × CommandResponse :=
  let halted := { k.haltScheduler with schedulerOwner := [] }
  match halted.snapshotStore.load fs with
  | .error message => (halted, reply false message)
  | .ok snapshot =>
    match halted.importSnapshot snapshot with
    | (imported, false, message) => (imported, reply false (str "Load failed: " ++ message))
    | (imported, true, _) => (imported, reply true (str "[OK] System state loaded from " ++
        halted.snapshotStore.path ++ str "\n" ++ snapshotSummaryText snapshot ++
        str "\nScheduler: STOPPED after load\nPlease login again."))

def handlePersistenceCommand (k : Kernel) (io : SnapshotStore.SaveIo) (fs : FileSystem)
    (command : Command) : Kernel × FileSystem × CommandResponse :=
  if command.arguments ≠ [] then (k, fs, reply false (str "Usage: " ++ command.name))
  else if command.name = str "save" then
    let (fs, response) := k.handleSave io fs
    (k, fs, response)
  else if command.name = str "load" then
    let (loaded, response) := k.handleLoad fs
    (loaded, fs, response)
  else (k, fs, reply false (str "Unknown persistence command."))

def handleOverview (k : Kernel) (floats : FloatFormat) (command : Command) : CommandResponse :=
  if !k.userManager.isLoggedIn then
    reply false (str "[ERROR] Please login before using overview.")
  else if command.arguments ≠ [] then reply false (str "Usage: overview")
  else
    let currentUser := k.userManager.currentUserName
    reply true (OverviewRenderer.render floats currentUser
      (k.processManager.getProcessCopiesForUser currentUser) k.processManager.readyQueues
      k.memoryManager.blocks k.memoryManager.totalMemoryKB
      { running := k.schedulerRunning, owner := k.schedulerOwner
        intervalMs := k.schedulerIntervalMs }
      k.snapshotStore.path k.memoryManager.algorithm.toText
      (k.vfs.fileCountForUser currentUser))

/-- `extractWriteFileContent`: the text behind the second separator run.  Every scan
that reaches the end of the line leaves an empty rest, which is the early return. -/
def extractWriteFileContent (line : Str) : Str :=
  let commandName := line.dropWhile isSeparator
  let afterName := commandName.dropWhile (!isSeparator ·)
  let fileName := afterName.dropWhile isSeparator
  let afterFile := fileName.dropWhile (!isSeparator ·)
  afterFile.dropWhile isSeparator

/-- `ok = vfs_.f(...); return {ok, message, false}`. -/
def vfsResult (k : Kernel) (result : Except Str (VirtualFileSystem × Str)) :
    Kernel × CommandResponse :=
  match result with
  | .ok (vfs, message) => ({ k with vfs := vfs }, reply true message)
  | .error message => (k, reply false message)

def handleVfsCommand (k : Kernel) (time : UInt64) (command : Command) : Kernel × CommandResponse :=
  if !k.userManager.isLoggedIn then (k, reply false loginText)
  else
    let owner := k.userManager.currentUserName
    if command.name = str "touch_file" then
      match command.arguments with
      | [name] => k.vfsResult (k.vfs.createFile time owner name)
      | _ => (k, reply false (str "Usage: touch_file <name>"))
    else if command.name = str "write_file" then
      match command.arguments with
      | name :: _ :: _ =>
        k.vfsResult (k.vfs.writeFile time owner name (extractWriteFileContent command.rawLine))
      | _ => (k, reply false (str "Usage: write_file <name> <content>"))
    else if command.name = str "read_file" then
      match command.arguments with
      | [name] => (k, reply true (k.vfs.readFile owner name))
      | _ => (k, reply false (str "Usage: read_file <name>"))
    else if command.name = str "ls_file" then
      if command.arguments ≠ [] then (k, reply false (str "Usage: ls_file"))
      else (k, reply true (k.vfs.listFiles owner))
    else if command.name = str "rm_file" then
      match command.arguments with
      | [name] => k.vfsResult (k.vfs.deleteFile owner name)
      | _ => (k, reply false (str "Usage: rm_file <name>"))
    else (k, reply false (str "Unknown VFS command."))

/-- The context that `executeRequest` hands to the dispatcher. -/
def commandContext (k : Kernel) (request : CommandRequest) : CommandContext :=
  { requestId := request.id, username := k.userManager.currentUserName, source := request.source
    workerRunning := k.workerRunning, schedulerRunning := k.schedulerRunning
    schedulerOwner := k.schedulerOwner, schedulerIntervalMs := k.schedulerIntervalMs
    snapshotPath := k.snapshotStore.path, autoLoadStatus := k.autoLoadStatus }

def dispatchCommand (k : Kernel) (env : Environment) (request : CommandRequest)
    (command : Command) : Kernel × CommandResponse :=
  let (managers, response) := CommandDispatcher.dispatch env.steadyClock env.floats command
    (k.commandContext request)
    { users := k.userManager, processes := k.processManager, memory := k.memoryManager }
  ({ k with
      userManager := managers.users
      processManager := managers.processes
      memoryManager := managers.memory }, response)

/-- The routing of `executeRequest`. -/
def routeCommand (k : Kernel) (env : Environment) (fs : FileSystem) (request : CommandRequest)
    (command : Command) : Kernel × FileSystem × CommandResponse :=
  if isSchedulerCommand command.name then
    let (handled, response) := k.handleSchedulerCommand command
    (handled, fs, response)
  else if isPersistenceCommand command.name then
    k.handlePersistenceCommand env.saveIo fs command
  else if isVisualizationCommand command.name then
    (k, fs, k.handleOverview env.floats command)
  else if isVfsCommand command.name then
    let (handled, response) := k.handleVfsCommand env.time command
    (handled, fs, response)
  else
    let (handled, response) := k.dispatchCommand env request command
    (handled, fs, response)

def executeRequest (k : Kernel) (env : Environment) (fs : FileSystem) (request : CommandRequest) :
    Kernel × FileSystem × CommandResponse :=
  let command := CommandDispatcher.parse request.rawLine
  let (handled, fs, response) := k.routeCommand env fs request command
  if response.shouldExit ∨ (response.success ∧ command.name = str "logout") then
    ({ handled.haltScheduler with schedulerOwner := [] }, fs, response)
  else (handled, fs, response)

/-- The locked part of one turn of `schedulerLoop`. -/
def schedulerTick (k : Kernel) : Kernel × Str :=
  if k.schedulerRunning ∧ k.schedulerOwner ≠ [] then k.schedulerStep k.schedulerOwner
  else (k, [])

end Kernel

end OSCoreSim
