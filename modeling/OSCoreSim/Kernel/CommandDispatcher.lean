import OSCoreSim.Auth.UserManager
import OSCoreSim.Process.Scheduler
/-!
# Command parsing and dispatch

`CommandDispatcher` splits a line into words and runs the user, process and
memory commands.  Every branch of the source's `dispatch` is one definition
here; `dispatch` itself is the chain of name tests.
-/

namespace OSCoreSim

inductive CommandSource where
  | localConsole
  | remoteClient
  deriving DecidableEq, Repr

structure Command where
  rawLine : Str := []
  name : Str := []
  arguments : List Str := []
  deriving DecidableEq, Repr

structure CommandResponse where
  success : Bool := false
  message : Str := []
  shouldExit : Bool := false
  deriving DecidableEq, Repr

structure CommandContext where
  requestId : UInt64 := 0
  username : Str := []
  source : CommandSource := .localConsole
  workerRunning : Bool := false
  schedulerRunning : Bool := false
  schedulerOwner : Str := []
  schedulerIntervalMs : UInt32 := 500
  snapshotPath : Str := []
  autoLoadStatus : Str := []

structure Managers where
  users : UserManager
  processes : ProcessManager
  memory : MemoryManager

namespace CommandDispatcher

def parse (line : Str) : Command :=
  match words line with
  | [] => { rawLine := line }
  | token :: arguments => { rawLine := line, name := toLower token, arguments := arguments }

def isValidMemoryTag (value : Str) : Bool :=
  value ≠ [] ∧ value.length ≤ 32 ∧
    value.all fun ch => isAlnum ch || ch == 95 || ch == 45 || ch == 46

def reply (success : Bool) (message : Str) : CommandResponse :=
  { success := success, message := message, shouldExit := false }

def loginText : Str :=
  str "This command requires login. Please run: login <username> <password>"

/-- `requireLogin`, and the branch behind it. -/
def requireLogin (managers : Managers) (body : Managers × CommandResponse) :
    Managers × CommandResponse :=
  if managers.users.isLoggedIn then body else (managers, reply false loginText)

/-- `ok = processManager.f(...); return {ok, message, false}`. -/
def processResult (managers : Managers) (result : Except Str (ProcessManager × Str)) :
    Managers × CommandResponse :=
  match result with
  | .ok (processes, message) => ({ managers with processes := processes }, reply true message)
  | .error message => (managers, reply false message)

def memoryResult (managers : Managers) (result : Except Str (MemoryManager × Str)) :
    Managers × CommandResponse :=
  match result with
  | .ok (memory, message) => ({ managers with memory := memory }, reply true message)
  | .error message => (managers, reply false message)

/-! ## User commands -/

def registerCommand (now : Int64) (managers : Managers) (arguments : List Str) :
    Managers × CommandResponse :=
  match arguments with
  | [username, password] =>
    match managers.users.registerUser now username password with
    | .ok (users, message) => ({ managers with users := users }, reply true message)
    | .error message => (managers, reply false message)
  | _ => (managers, reply false (str "Usage: register <username> <password>"))

def loginCommand (managers : Managers) (arguments : List Str) : Managers × CommandResponse :=
  match arguments with
  | [username, password] =>
    let (users, ok, message) := managers.users.login username password
    ({ managers with users := users }, reply ok message)
  | _ => (managers, reply false (str "Usage: login <username> <password>"))

def logoutCommand (managers : Managers) : Managers × CommandResponse :=
  match managers.users.logout with
  | .ok (users, message) => ({ managers with users := users }, reply true message)
  | .error message => (managers, reply false message)

/-! ## Process creation -/

def createUsage : Str :=
  str "Usage: create_pcb <name> <memKB> <priority> <totalTime> [ppid]"

structure CreateArguments where
  name : Str
  memKB : UInt32
  priority : Int32
  totalTime : UInt32
  ppid : Option UInt32
  deriving DecidableEq, Repr

def parseCreateFields (name memKB priority totalTime : Str) (ppid : Option UInt32) :
    Option CreateArguments :=
  match parseUint32Strict memKB, parseIntStrict priority, parseUint32Strict totalTime with
  | some memKB, some priority, some totalTime =>
    if name = [] ∨ memKB = 0 ∨ totalTime = 0 ∨ priority < 0 ∨ 15 < priority then none
    else some ⟨name, memKB, priority, totalTime, ppid⟩
  | _, _, _ => none

/-- The argument checks of `create_pcb`; `none` answers with the usage text. -/
def parseCreateArguments (arguments : List Str) : Option CreateArguments :=
  match arguments with
  | [name, memKB, priority, totalTime] => parseCreateFields name memKB priority totalTime none
  | [name, memKB, priority, totalTime, ppid] =>
    match parseUint32Strict ppid with
    | some parsedPpid => parseCreateFields name memKB priority totalTime (some parsedPpid)
    | none => none
  | _ => none

/-- `create_pcb` behind its argument checks: memory first, then the PCB, and a rollback
of the memory when the PCB is refused. -/
def createWithMemory (managers : Managers) (owner : Str) (args : CreateArguments) :
    Managers × CommandResponse :=
  let expectedPid := managers.processes.nextPid
  match managers.memory.allocateForProcess owner expectedPid args.name args.memKB with
  | .error memoryMessage => (managers, reply false memoryMessage)
  | .ok (memory, memStart, _) =>
    match managers.processes.createProcessWithMemory owner args.name args.memKB memStart
        args.priority args.totalTime args.ppid with
    | .ok (processes, _, message) =>
      ({ managers with processes := processes, memory := memory }, reply true message)
    | .error message =>
      match memory.freeByPid owner expectedPid with
      | .ok (rolledBack, rollbackMessage) =>
        ({ managers with memory := rolledBack },
          reply false (message ++ str "\n[ROLLBACK] " ++ rollbackMessage))
      | .error rollbackMessage =>
        ({ managers with memory := memory },
          reply false (message ++ str "\n[ROLLBACK] " ++ rollbackMessage))

def createCommand (managers : Managers) (arguments : List Str) : Managers × CommandResponse :=
  requireLogin managers
    (match parseCreateArguments arguments with
    | none => (managers, reply false createUsage)
    | some args => createWithMemory managers managers.users.currentUserName args)

/-! ## Memory commands -/

def allocUsageText : Str := str "Usage: alloc <sizeKB>\nor: alloc <name> <sizeKB>"

def parseAllocArguments (arguments : List Str) : Option (Str × UInt32) :=
  match arguments with
  | [sizeText] => (parseUint32Strict sizeText).map fun sizeKB => (str "manual", sizeKB)
  | [tag, sizeText] =>
    if isValidMemoryTag tag then (parseUint32Strict sizeText).map fun sizeKB => (tag, sizeKB)
    else none
  | _ => none

def allocCommand (managers : Managers) (arguments : List Str) : Managers × CommandResponse :=
  requireLogin managers
    (match parseAllocArguments arguments with
    | none => (managers, reply false allocUsageText)
    | some (tag, sizeKB) =>
      if sizeKB = 0 then (managers, reply false allocUsageText)
      else memoryResult managers
        ((managers.memory.allocateManual managers.users.currentUserName tag sizeKB).map
          fun (memory, _, message) => (memory, message)))

/-- Commands with one unsigned argument: the usage text on any other shape. -/
def withPid (managers : Managers) (usage : Str) (arguments : List Str)
    (body : UInt32 → Managers × CommandResponse) : Managers × CommandResponse :=
  match arguments with
  | [text] =>
    match parseUint32Strict text with
    | some pid => body pid
    | none => (managers, reply false usage)
  | _ => (managers, reply false usage)

def withoutArguments (managers : Managers) (name : Str) (arguments : List Str)
    (body : Managers × CommandResponse) : Managers × CommandResponse :=
  if arguments ≠ [] then (managers, reply false (str "Usage: " ++ name)) else body

def freeMemCommand (managers : Managers) (arguments : List Str) : Managers × CommandResponse :=
  requireLogin managers <| withPid managers (str "Usage: free_mem <addr>") arguments fun addr =>
    memoryResult managers (managers.memory.freeByAddress managers.users.currentUserName addr)

def setAllocAlgoCommand (managers : Managers) (arguments : List Str) :
    Managers × CommandResponse :=
  requireLogin managers
    (match arguments with
    | [algoName] => memoryResult managers (managers.memory.setAlgorithm algoName)
    | _ => (managers, reply false (str "Usage: set_alloc_algo <FF|BF|WF>")))

/-- The write-back of the moved process blocks. -/
def updateStarts (processes : ProcessManager) (starts : List (UInt32 × UInt32)) :
    ProcessManager :=
  starts.foldl (fun pm (pid, newStart) => pm.updateProcessMemoryStart pid newStart) processes

def compactCommand (managers : Managers) (arguments : List Str) : Managers × CommandResponse :=
  requireLogin managers <| withoutArguments managers (str "compact") arguments <|
    let (memory, result) := managers.memory.compact
    ({ managers with
        memory := memory
        processes := updateStarts managers.processes result.pidNewStart.toList },
      reply true result.message)

def pageFaultTail : Str :=
  str "\n[HANDLER] Save current context.\n[HANDLER] Locate missing page." ++
    str "\n[HANDLER] Simulate loading page into memory.\n[HANDLER] Restore process context." ++
    str "\n[OK] Page fault handled."

def pgfaultCommand (managers : Managers) (arguments : List Str) : Managers × CommandResponse :=
  requireLogin managers
    (match arguments with
    | [] => (managers, reply true (str "[PAGE FAULT] Generic simulated page fault." ++
        pageFaultTail))
    | _ => withPid managers (str "Usage: pgfault [pid]") arguments fun pid =>
      if managers.processes.hasProcess managers.users.currentUserName pid then
        (managers, reply true (str "[PAGE FAULT] PID=" ++ decimal pid.toNat ++
          str " triggered a simulated page fault." ++ pageFaultTail))
      else (managers,
        reply false (str "Page fault failed: PID does not exist or access denied.")))

def swapOut (managers : Managers) (owner : Str) (pid : UInt32) : Managers × CommandResponse :=
  if !managers.processes.hasProcess owner pid then
    (managers, reply false (str "Swap out failed: PID does not exist or access denied."))
  else if managers.processes.isSwappedOut owner pid then
    (managers, reply false (str "Swap out failed: process is already swapped out."))
  else match managers.memory.swapOutProcess owner pid with
    | .error memoryMessage => (managers, reply false memoryMessage)
    | .ok (memory, memoryMessage) =>
      match managers.processes.markSwappedOut owner pid with
      | .ok (processes, processMessage) =>
        ({ managers with processes := processes, memory := memory },
          reply true (memoryMessage ++ str "\n" ++ processMessage))
      | .error processMessage =>
        ({ managers with memory := memory },
          reply false (memoryMessage ++ str "\n" ++ processMessage))

def swapOutCommand (managers : Managers) (arguments : List Str) : Managers × CommandResponse :=
  requireLogin managers <| withPid managers (str "Usage: swap_out <pid>") arguments fun pid =>
    swapOut managers managers.users.currentUserName pid

/-! ## Process commands -/

def contains (message text : Str) : Bool := message.tails.any fun tail => text.isPrefixOf tail

/-- `kill_pcb` behind its argument checks: the whole removed subtree gives its memory back. -/
def killSubtree (managers : Managers) (owner : Str) (pid : UInt32) : Managers × CommandResponse :=
  match managers.processes.killProcess owner pid with
  | .error message => (managers, reply false message)
  | .ok (processes, removedPids, message) =>
    let (memory, released) := Scheduler.releaseAll owner managers.memory removedPids
    ({ managers with processes := processes, memory := memory },
      reply true (message ++ released))

/-- The branch shared by the six commands with a single PID. -/
def pidCommand (managers : Managers) (name : Str) (arguments : List Str) :
    Managers × CommandResponse :=
  requireLogin managers <|
    withPid managers (str "Usage: " ++ name ++ str " <pid>") arguments fun pid =>
      let owner := managers.users.currentUserName
      if name = str "show_pcb" then
        let message := managers.processes.showProcess owner pid
        (managers, reply (!contains message (str "access denied")) message)
      else if name = str "kill_pcb" then killSubtree managers owner pid
      else if name = str "block_pcb" then
        processResult managers (managers.processes.blockProcess owner pid)
      else if name = str "wakeup_pcb" then
        processResult managers (managers.processes.wakeupProcess owner pid)
      else if name = str "suspend" then
        processResult managers (managers.processes.suspendProcess owner pid)
      else processResult managers (managers.processes.resumeProcess owner pid)

def reniceCommand (managers : Managers) (arguments : List Str) : Managers × CommandResponse :=
  requireLogin managers
    (match arguments with
    | [pidText, priorityText] =>
      match parseUint32Strict pidText, parseIntStrict priorityText with
      | some pid, some newPriority => processResult managers
          (managers.processes.reniceProcess managers.users.currentUserName pid newPriority)
      | _, _ => (managers, reply false (str "Usage: renice <pid> <newPriority>"))
    | _ => (managers, reply false (str "Usage: renice <pid> <newPriority>")))

/-! ## Read-only commands -/

/-- The commands that print a view of the managers for the logged-in user. -/
def viewCommand (managers : Managers) (name : Str) (arguments : List Str) (view : Str → Str) :
    Managers × CommandResponse :=
  requireLogin managers <| withoutArguments managers name arguments
    (managers, reply true (view managers.users.currentUserName))

def statusText (context : CommandContext) (managers : Managers) : Str :=
  let orNone (s : Str) : Str := if s = [] then str "<none>" else s
  str "=== Kernel Status ===\nWorker Thread: " ++
    (if context.workerRunning then str "RUNNING" else str "STOPPED") ++
    str "\nScheduler: " ++ (if context.schedulerRunning then str "RUNNING" else str "STOPPED") ++
    str "\nScheduler Owner: " ++ orNone context.schedulerOwner ++
    str "\nAuto Interval: " ++ decimal context.schedulerIntervalMs.toNat ++
    str "ms\nSnapshot File: " ++ context.snapshotPath ++
    str "\nAuto Load: " ++ context.autoLoadStatus ++
    str "\nCurrent User: " ++ orNone context.username ++
    str "\nProcess Count: " ++
    decimal (if context.username = [] then 0
      else managers.processes.processCount context.username) ++
    str "\n" ++ managers.processes.readyQueueSnapshot context.username ++
    str "\nMemory Manager: ENABLED\nTotal Memory: " ++
    decimal managers.memory.totalMemoryKB.toNat ++
    str " KB\nAllocation Algorithm: " ++ managers.memory.algorithm.toText ++
    str "\nUsed: " ++ decimal managers.memory.usedMemoryKB.toNat ++
    str " KB\nFree: " ++ decimal managers.memory.freeMemoryKB.toNat ++
    str " KB\nRequest ID: " ++ decimal context.requestId.toNat ++
    str "\nSource: " ++
    match context.source with
    | .localConsole => str "local console"
    | .remoteClient => str "remote client"

def helpText : Str := (str "\n").intercalate [
  str "可用命令：",
  str "  help    - 显示命令列表",
  str "  status  - 显示内核状态摘要",
  str "  clear   - 清空当前控制台显示区域",
  str "  exit    - 安全退出模拟器",
  str "  quit    - 安全退出模拟器",
  [],
  str "持久化命令：",
  str "  save    将完整系统状态保存到二进制快照文件",
  str "  load    从二进制快照文件加载完整系统状态",
  [],
  str "用户命令：",
  str "  register <username> <password>   注册新用户",
  str "  login <username> <password>      登录模拟器",
  str "  logout                           退出当前登录",
  str "  whoami                           显示当前登录用户",
  [],
  str "进程命令：",
  str "  create_pcb <name> <memKB> <priority> <totalTime> [ppid]",
  str "  kill_pcb <pid>",
  str "  block_pcb <pid>",
  str "  wakeup_pcb <pid>",
  str "  show_pcb <pid>",
  str "  list_pcb",
  str "  ptree",
  str "  suspend <pid>",
  str "  resume <pid>",
  str "  renice <pid> <newPriority>",
  str "  readyq",
  [],
  str "内存命令：",
  str "  alloc <sizeKB>              手动分配内存，Tag 默认为 manual",
  str "  alloc <name> <sizeKB>       手动分配命名内存区",
  str "  free_mem <addr>             按起始地址释放手动分配内存",
  str "  show_mem                    显示内存分区表和 ASCII 内存图",
  str "  compact                     执行内存紧缩并合并空闲分区",
  str "  mem_stat                    显示内存使用率和碎片统计",
  str "  set_alloc_algo <FF|BF|WF>   切换动态分区分配算法",
  str "  pgfault [pid]               模拟缺页中断",
  str "  swap_out <pid>              模拟进程换出",
  [],
  str "调度命令：",
  str "  start_sched     启动自动 MLFQ 调度",
  str "  stop_sched      停止自动调度",
  str "  restart_sched   清理就绪队列后重启调度器",
  str "  step            执行一次单步调度并打印决策过程",
  [],
  [],
  str "可视化命令：",
  str "  overview    显示进程树、内存图、MLFQ 队列和系统摘要",
  [],
  str "虚拟文件命令：",
  str "  touch_file <name>             创建空虚拟文件",
  str "  write_file <name> <content>   写入虚拟文件内容",
  str "  read_file <name>              读取虚拟文件内容",
  str "  ls_file                       列出当前用户的虚拟文件",
  str "  rm_file <name>                删除虚拟文件",
  [],
  str "VFS、持久化和 IPC 相关命令均已集成到上述命令中。"]

def isPidCommand (name : Str) : Bool :=
  name = str "kill_pcb" ∨ name = str "block_pcb" ∨ name = str "wakeup_pcb" ∨
    name = str "show_pcb" ∨ name = str "suspend" ∨ name = str "resume"

def dispatch (now : Int64) (floats : FloatFormat) (command : Command) (context : CommandContext)
    (managers : Managers) : Managers × CommandResponse :=
  let name := command.name
  let arguments := command.arguments
  if name = [] then (managers, reply true [])
  else if name = str "help" then (managers, reply true helpText)
  else if name = str "exit" ∨ name = str "quit" then
    (managers, { success := true, message := str "Shutting down OS simulator.", shouldExit := true })
  else if name = str "clear" then (managers, reply true (List.replicate 30 10))
  else if name = str "status" then (managers, reply true (statusText context managers))
  else if name = str "register" then registerCommand now managers arguments
  else if name = str "login" then loginCommand managers arguments
  else if name = str "logout" then logoutCommand managers
  else if name = str "whoami" then (managers, reply true managers.users.whoami)
  else if name = str "create_pcb" then createCommand managers arguments
  else if name = str "alloc" then allocCommand managers arguments
  else if name = str "free_mem" then freeMemCommand managers arguments
  else if name = str "show_mem" then
    viewCommand managers name arguments managers.memory.showMemory
  else if name = str "mem_stat" then
    viewCommand managers name arguments fun _ => managers.memory.memoryStat floats
  else if name = str "set_alloc_algo" then setAllocAlgoCommand managers arguments
  else if name = str "compact" then compactCommand managers arguments
  else if name = str "pgfault" then pgfaultCommand managers arguments
  else if name = str "swap_out" then swapOutCommand managers arguments
  else if isPidCommand name then pidCommand managers name arguments
  else if name = str "renice" then reniceCommand managers arguments
  else if name = str "list_pcb" then
    viewCommand managers name arguments managers.processes.listProcesses
  else if name = str "ptree" then
    viewCommand managers name arguments managers.processes.processTree
  else if name = str "readyq" then
    viewCommand managers name arguments managers.processes.readyQueueSnapshot
  else if name = str "save" ∨ name = str "load" then
    (managers, reply false (str "Persistence command must be handled by Kernel."))
  else (managers, reply false (str "Unknown command: " ++ name ++
    str "\nType 'help' to show available commands."))

end CommandDispatcher

end OSCoreSim
