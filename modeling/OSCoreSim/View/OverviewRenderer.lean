import OSCoreSim.Memory.MemoryManager
import OSCoreSim.Process.ProcessManager
/-!
# The overview text

`OverviewRenderer` turns copies of the kernel state into one text.  It has no
state of its own.
-/

namespace OSCoreSim

open Std (ExtTreeMap)

structure SchedulerInfo where
  running : Bool := false
  owner : Str := []
  intervalMs : UInt32 := 500

namespace OverviewRenderer

/-! ## Helpers -/

def progressBar (floats : FloatFormat) (value total : UInt32) (width : Nat) : Str :=
  let filled := min (floats.progressFilled value total width) width
  str "[" ++ List.replicate filled 35 ++ List.replicate (width - filled) 46 ++ str "]"

def schedulerStateLabel (running : Bool) : Str :=
  if running then str "运行中 / RUNNING" else str "已停止 / STOPPED"

def queueName (level : Int32) : Str := str "Q" ++ decimalInt level

def quantumForQueue (q : Fin 3) : Nat := if q = 0 then 2 else if q = 1 then 4 else 8

def priorityRangeForQueue (q : Fin 3) : Str :=
  if q = 0 then str "0-3" else if q = 1 then str "4-7" else str "8-15"

def joinLines (lines : List Str) : Str := (str "\n").intercalate lines

/-- `pcbMap[pcb.pid] = pcb` over the copies of the user's PCBs. -/
def pcbMap (userProcesses : List PCB) : ExtTreeMap UInt32 PCB :=
  userProcesses.foldl (fun table pcb => table.insert pcb.pid pcb) ∅

def usedKB (blocks : List MemoryBlock) : UInt32 :=
  ((blocks.filter (·.type ≠ .free)).map (·.size)).sum

def freeKB (blocks : List MemoryBlock) : UInt32 :=
  ((blocks.filter (·.type = .free)).map (·.size)).sum

/-! ## System summary -/

/-- `renderSystemSummary`, with the totals that `render` computes for it. -/
def renderSystemSummary (floats : FloatFormat) (currentUser : Str) (processCount : Nat)
    (memoryBlocks : List MemoryBlock) (totalMemoryKB : UInt32) (schedulerInfo : SchedulerInfo)
    (snapshotPath algorithmName : Str) (vfsFileCount : Nat) : Str :=
  let orNone (s : Str) : Str := if s = [] then str "<none>" else s
  let row (label value : Str) : Str := setw 35 label ++ str ": " ++ value
  let used := usedKB memoryBlocks
  let free := freeKB memoryBlocks
  let largest := MemoryManager.largestFree memoryBlocks
  joinLines [
    str "[1] 系统摘要 / System Summary",
    row (str "当前用户 / Current User") (orNone currentUser),
    row (str "调度器状态 / Scheduler State") (schedulerStateLabel schedulerInfo.running),
    row (str "调度器用户 / Scheduler Owner") (orNone schedulerInfo.owner),
    row (str "调度间隔 / Scheduler Interval")
      (decimal schedulerInfo.intervalMs.toNat ++ str "ms"),
    row (str "当前分配算法 / Allocation Algorithm") algorithmName,
    row (str "快照文件 / Snapshot File") snapshotPath,
    [],
    row (str "进程数量 / Process Count") (decimal processCount),
    row (str "虚拟文件数量 / VFS Files") (decimal vfsFileCount),
    row (str "内存总量 / Total Memory") (decimal totalMemoryKB.toNat ++ str "KB"),
    row (str "已用内存 / Used Memory") (decimal used.toNat ++ str "KB"),
    row (str "空闲内存 / Free Memory") (decimal free.toNat ++ str "KB"),
    row (str "最大空闲块 / Largest Free Block") (decimal largest.toNat ++ str "KB"),
    row (str "内存使用 / Memory Usage") (progressBar floats used totalMemoryKB 24 ++ str " " ++
      floats.percentText used totalMemoryKB ++ str "%"),
    row (str "外部碎片率 / External Fragmentation")
      (floats.fragmentationText largest free ++ str "%")]

/-! ## Process table -/

def tableRow (floats : FloatFormat) (pcb : PCB) : Str :=
  setw 6 (decimal pcb.pid.toNat) ++ setw 6 (decimal pcb.ppid.toNat) ++ setw 16 pcb.name ++
    setw 12 pcb.state.toText ++ setw 7 (decimalInt pcb.priority) ++
    setw 5 (queueName pcb.queueLevel) ++
    setw 11 (decimal pcb.executedTime.toNat ++ str "/" ++ decimal pcb.totalTime.toNat) ++
    setw 20 (progressBar floats pcb.executedTime pcb.totalTime 14) ++
    setw 8 (decimal pcb.memSize.toNat) ++
    (if pcb.swappedOut then str "是 / Yes" else str "否 / No") ++ str "\n"

def renderProcessTable (floats : FloatFormat) (userProcesses : List PCB) : Str :=
  let header := str "[2] 程序表 / Process Table\n"
  if userProcesses = [] then
    header ++ str "当前用户暂无进程。 / No process found for current user."
  else
    let rows := userProcesses.insertionSort fun lhs rhs => lhs.pid ≤ rhs.pid
    popNewline (header ++ setw 6 (str "PID") ++ setw 6 (str "PPID") ++ setw 16 (str "Name") ++
      setw 12 (str "State") ++ setw 7 (str "Prio") ++ setw 5 (str "Q") ++ setw 11 (str "CPU") ++
      setw 20 (str "CPU Progress") ++ setw 8 (str "MemKB") ++ str "Swap\n" ++
      rows.flatMap (tableRow floats))

/-! ## Process tree -/

def nodeText (pcb : PCB) : Str :=
  pcb.name ++ str "(" ++ decimal pcb.pid.toNat ++ str ") [" ++ pcb.state.toText ++
    str ", prio=" ++ decimalInt pcb.priority ++ str ", q=Q" ++ decimalInt pcb.queueLevel ++
    str ", mem=" ++ decimal pcb.memSize.toNat ++ str "KB, cpu=" ++
    decimal pcb.executedTime.toNat ++ str "/" ++ decimal pcb.totalTime.toNat ++ str "]"

/-- `appendTreeNode`: the grown `visited` set and the text.  The first argument bounds
the depth of the recursion, which visits a new PID at every level. -/
def appendTreeNode (table : ExtTreeMap UInt32 PCB) :
    Nat → UInt32 → Str → Bool → Bool → List UInt32 → List UInt32 × Str
  | 0, _, _, _, _, visited => (visited, [])
  | depth + 1, pid, linePrefix, isLast, isRoot, visited =>
    let branch := linePrefix ++ (if isLast then str "`- " else str "+- ")
    if pid ∈ visited then
      (visited, branch ++ str "PID=" ++ decimal pid.toNat ++ str " (cycle detected)")
    else match table[pid]? with
      | none => (visited, [])
      | some pcb =>
        let node := (if isRoot then [] else branch) ++ nodeText pcb
        let visibleChildren :=
          ProcessManager.sortedIds (pcb.children.filter (table.contains ·))
        let childPrefix :=
          if isRoot then [] else linePrefix ++ (if isLast then str "   " else str "|  ")
        visibleChildren.zipIdx.foldl (fun (visited, output) (child, i) =>
          let (visited, text) := appendTreeNode table depth child childPrefix
            (i + 1 = visibleChildren.length) false visited
          (visited, output ++ str "\n" ++ text)) (pid :: visited, node)

def renderProcessTree (userProcesses : List PCB) : Str :=
  let header := str "[3] 进程树 / Process Tree\n"
  if userProcesses = [] then
    header ++ str "当前用户暂无进程。 / No process found for current user."
  else
    let table := pcbMap userProcesses
    let roots := ProcessManager.sortedIds ((table.toList.filter fun (_, pcb) =>
      pcb.ppid = 0 ∨ !table.contains pcb.ppid).map Prod.fst)
    popNewline (roots.zipIdx.foldl (fun (visited, output) (root, i) =>
      let (visited, text) := appendTreeNode table (table.size + 1) root []
        (i + 1 = roots.length) true visited
      (visited, output ++ (if 0 < i then str "\n" else []) ++ text))
      (([] : List UInt32), header)).2

/-! ## Memory map -/

/-- One segment of the ASCII map; blocks of other users are masked. -/
def mapSegment (currentUser : Str) (block : MemoryBlock) : Str :=
  let size := decimal block.size.toNat
  match block.type with
  | .free => str "|--FREE:" ++ size ++ str "KB--"
  | .process =>
    if block.owner = currentUser then
      str "|##P" ++ decimal block.pid.toNat ++ str ":" ++ block.tag ++ str ":" ++ size ++ str "KB"
    else str "|##OTHER_USER:" ++ size ++ str "KB"
  | .kernel =>
    if block.owner = currentUser then str "|##" ++ block.tag ++ str ":" ++ size ++ str "KB"
    else str "|##OTHER_USER:" ++ size ++ str "KB"
  | .swapped => str "|##SWAPPED:P" ++ decimal block.pid.toNat ++ str ":" ++ size ++ str "KB"

def segmentLine (currentUser : Str) (block : MemoryBlock) : Str :=
  let free : Bool := block.type = .free
  let owned : Bool := !free && block.owner = currentUser
  str "[" ++ decimal block.start.toNat ++ str "-" ++
    decimal (block.start + block.size - 1).toNat ++ str "] " ++ block.type.toText ++ str " " ++
    (if free then str "-" else if owned then block.owner else str "OTHER_USER") ++ str " " ++
    (if free then str "-" else str "pid=" ++ decimal block.pid.toNat) ++ str " " ++
    (if free then str "-" else block.tag) ++ str " " ++ decimal block.size.toNat ++ str "KB\n"

def renderMemoryMap (floats : FloatFormat) (currentUser : Str) (memoryBlocks : List MemoryBlock)
    (totalMemoryKB : UInt32) : Str :=
  let header := str "[4] 内存分区图 / Memory Map\n地址范围 / Address Range: 0-" ++
    decimal totalMemoryKB.toNat ++ str "KB\n"
  if memoryBlocks = [] then header ++ str "暂无内存分区。 / No memory blocks."
  else
    let used := usedKB memoryBlocks
    let asciiMap := memoryBlocks.flatMap (mapSegment currentUser) ++ str "|"
    popNewline (header ++ str "内存使用 / Usage: " ++ progressBar floats used totalMemoryKB 32 ++
      str " " ++ decimal used.toNat ++ str "/" ++ decimal totalMemoryKB.toNat ++ str "KB (" ++
      floats.percentText used totalMemoryKB ++ str "%)\n" ++
      str "图例 / Legend: FREE=空闲, PROCESS=进程, KERNEL=内核, SWAPPED=已换出, OTHER_USER=其他用户\n\n" ++
      (if asciiMap.length ≤ 160 then asciiMap ++ str "\n\n"
      else str "内存块较多，改用分段视图展示：\n" ++
        memoryBlocks.flatMap (segmentLine currentUser) ++ str "\n") ++
      str "Memory Blocks / 内存块明细:\n" ++ MemoryManager.blockTableHeader ++
      memoryBlocks.flatMap (MemoryManager.showBlock currentUser))

/-! ## Ready queues -/

def entryText (floats : FloatFormat) (table : ExtTreeMap UInt32 PCB) (pid : UInt32) : Str :=
  match table[pid]? with
  | none => decimal pid.toNat ++ str "(?)"
  | some pcb =>
    str "PID=" ++ decimal pid.toNat ++ str "(" ++ pcb.name ++ str ", state=" ++
      pcb.state.toText ++ str ", cpu=" ++ decimal pcb.executedTime.toNat ++ str "/" ++
      decimal pcb.totalTime.toNat ++ str " " ++
      progressBar floats pcb.executedTime pcb.totalTime 8 ++ str ")"

def entryWarnings (table : ExtTreeMap UInt32 PCB) (q : Fin 3) (pid : UInt32) : List Str :=
  let appears := str "PID=" ++ decimal pid.toNat ++ str " appears in Q" ++ decimal q.val
  match table[pid]? with
  | none => [appears ++ str " but does not belong to current user or does not exist."]
  | some pcb =>
    (if pcb.state ≠ .ready then [appears ++ str " but state is " ++ pcb.state.toText ++ str "."]
      else []) ++
    (if pcb.queueLevel ≠ ProcessManager.levelOfQueue q then
      [appears ++ str " but PCB queueLevel is Q" ++ decimalInt pcb.queueLevel ++ str "."]
      else []) ++
    (if pcb.swappedOut then [appears ++ str " but PCB is swapped out."] else [])

def queueText (floats : FloatFormat) (table : ExtTreeMap UInt32 PCB) (q : Fin 3)
    (queue : List UInt32) : Str :=
  str "Q" ++ decimal q.val ++ str " | 优先级 / Priority: " ++ priorityRangeForQueue q ++
    str " | 时间片 / Quantum: " ++ decimal (quantumForQueue q) ++ str "\n  队列 / Queue: " ++
    (if queue = [] then str "empty"
    else (str ", ").intercalate (queue.map (entryText floats table))) ++ str "\n"

def renderMLFQ (floats : FloatFormat) (readyQueues : ReadyQueues) (userProcesses : List PCB) :
    Str :=
  let table := pcbMap userProcesses
  let warnings := (List.finRange 3).flatMap fun q =>
    (readyQueues q).flatMap (entryWarnings table q)
  popNewline (str "[5] 多级反馈队列 / MLFQ\n" ++
    ((List.finRange 3).flatMap fun q => queueText floats table q (readyQueues q)) ++
    if warnings = [] then []
    else str "\n[Warnings]\n" ++ warnings.flatMap fun warning => str "- " ++ warning ++ str "\n")

def renderNotes : Str := joinLines [
  str "[6] 说明 / Notes",
  str "- overview 是只读快照命令，只渲染调用方传入的进程、内存、调度队列和文件计数，不修改系统状态。",
  str "- BLOCKED、SUSPENDED、SWAPPED、TERMINATED 进程不会进入可调度队列。",
  str "- 内存分区图是全局视图，其他用户的内存块显示为 OTHER_USER，避免泄露细节。",
  str "- 多级反馈队列仅展示当前快照中的 READY 队列；异常队列项会在 Warnings 中列出。",
  str "- 虚拟文件系统数量已汇总在 System Summary，文件内容仍请使用 ls_file、read_file、write_file 查看。"]

def render (floats : FloatFormat) (currentUser : Str) (userProcesses : List PCB)
    (readyQueues : ReadyQueues) (memoryBlocks : List MemoryBlock) (totalMemoryKB : UInt32)
    (schedulerInfo : SchedulerInfo) (snapshotPath algorithmName : Str) (vfsFileCount : Nat) :
    Str :=
  str "=== 系统总览 / System Overview ===\n\n" ++
    renderSystemSummary floats currentUser userProcesses.length memoryBlocks totalMemoryKB
      schedulerInfo snapshotPath algorithmName vfsFileCount ++
    str "\n\n" ++ renderProcessTable floats userProcesses ++
    str "\n\n" ++ renderProcessTree userProcesses ++
    str "\n\n" ++ renderMemoryMap floats currentUser memoryBlocks totalMemoryKB ++
    str "\n\n" ++ renderMLFQ floats readyQueues userProcesses ++
    str "\n\n" ++ renderNotes

end OverviewRenderer

end OSCoreSim
