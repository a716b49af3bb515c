import OSCoreSim.Util.Str
import Mathlib.Algebra.GroupWithZero.Nat
import Mathlib.Data.List.Sort
import Mathlib.Logic.Function.Basic
import Std.Data.ExtTreeMap
/-!
# Process table and ready queues

`ProcessManager` owns the PCB table and the three MLFQ ready queues.  The
`std::unordered_map` is an extensional tree map: iteration runs in key order,
which no result of the source depends on, because every list taken from the
table is sorted before it is used.
-/

namespace OSCoreSim

open Std (ExtTreeMap)

inductive ProcessState where
  | new
  | ready
  | running
  | blocked
  | suspendedReady
  | suspendedBlocked
  | terminated
  | swapped
  deriving DecidableEq, Repr

def ProcessState.toText : ProcessState → Str
  | .new => str "NEW"
  | .ready => str "READY"
  | .running => str "RUNNING"
  | .blocked => str "BLOCKED"
  | .suspendedReady => str "SUSPENDED_READY"
  | .suspendedBlocked => str "SUSPENDED_BLOCKED"
  | .terminated => str "TERMINATED"
  | .swapped => str "SWAPPED"

structure PCB where
  pid : UInt32 := 0
  ppid : UInt32 := 0
  name : Str := []
  owner : Str := []
  state : ProcessState := .new
  priority : Int32 := 0
  queueLevel : Int32 := 0
  totalTime : UInt32 := 0
  executedTime : UInt32 := 0
  remainingTime : UInt32 := 0
  timeSliceLeft : UInt32 := 0
  memStart : UInt32 := 0
  memSize : UInt32 := 0
  swappedOut : Bool := false
  children : List UInt32 := []
  deriving DecidableEq, Repr

/-- The literals of the three levels share this proof. -/
instance neZeroLevels : NeZero 3 := ⟨by decide⟩

abbrev ReadyQueues := Fin 3 → List UInt32

structure ProcessManager where
  nextPid : UInt32 := 1
  pcbTable : ExtTreeMap UInt32 PCB := ∅
  readyQueues : ReadyQueues := fun _ => []

namespace ProcessManager

/-! ## Priorities and levels -/

def isValidPriority (priority : Int32) : Bool := 0 ≤ priority ∧ priority ≤ 15

def queueLevelForPriority (priority : Int32) : Int32 :=
  if priority ≤ 3 then 0 else if priority ≤ 7 then 1 else 2

/-- `timeSliceForQueue`, and `Scheduler::quantumForQueue` with the same table. -/
def timeSliceForQueue (queueLevel : Int32) : UInt32 :=
  if queueLevel = 0 then 2 else if queueLevel = 1 then 4 else 8

def queueName (queueLevel : Int32) : Str := str "Q" ++ decimalInt queueLevel

/-- `static_cast<std::size_t>(queueLevel)` when it is below `readyQueues_.size()`. -/
def queueIndex (queueLevel : Int32) : Option (Fin 3) :=
  if queueLevel = 0 then some 0
  else if queueLevel = 1 then some 1
  else if queueLevel = 2 then some 2
  else none

def sortedIds (ids : List UInt32) : List UInt32 := ids.insertionSort (· ≤ ·)

def joinIds (ids : List UInt32) : Str :=
  if ids = [] then str "none"
  else (str " ").intercalate (ids.map fun id => decimal id.toNat)

/-! ## Table and queue primitives -/

/-- `it == pcbTable_.end() || it->second.owner != owner`, negated. -/
def ownedPcb (pm : ProcessManager) (owner : Str) (pid : UInt32) : Option PCB :=
  match pm.pcbTable[pid]? with
  | some pcb => if pcb.owner = owner then some pcb else none
  | none => none

/-- `hasProcess`, `hasOwnedProcessLocked`. -/
def hasProcess (pm : ProcessManager) (owner : Str) (pid : UInt32) : Bool :=
  (pm.ownedPcb owner pid).isSome

def isSwappedOut (pm : ProcessManager) (owner : Str) (pid : UInt32) : Bool :=
  match pm.ownedPcb owner pid with
  | some pcb => pcb.swappedOut
  | none => false

/-- Assignment through the iterator `it` of an existing PCB. -/
def setPcb (pm : ProcessManager) (pid : UInt32) (pcb : PCB) : ProcessManager :=
  { pm with pcbTable := pm.pcbTable.insert pid pcb }

def removeFromReadyQueues (pm : ProcessManager) (pid : UInt32) : ProcessManager :=
  { pm with readyQueues := fun q => (pm.readyQueues q).filter (· ≠ pid) }

def pushReady (pm : ProcessManager) (q : Fin 3) (pid : UInt32) : ProcessManager :=
  { pm with readyQueues := Function.update pm.readyQueues q (pm.readyQueues q ++ [pid]) }

def enqueueReady (pm : ProcessManager) (pid : UInt32) : ProcessManager :=
  match pm.pcbTable[pid]? with
  | none => pm
  | some pcb =>
    if pcb.state ≠ .ready then pm
    else
      let pm := pm.removeFromReadyQueues pid
      match queueIndex pcb.queueLevel with
      | some q => pm.pushReady q pid
      | none => pm

/-! ## Creation and removal -/

def newPcb (pid ppid : UInt32) (owner name : Str) (memKB memStart : UInt32) (priority : Int32)
    (totalTime : UInt32) : PCB :=
  { pid := pid, ppid := ppid, name := name, owner := owner, state := .ready
    priority := priority, queueLevel := queueLevelForPriority priority
    totalTime := totalTime, executedTime := 0, remainingTime := totalTime
    timeSliceLeft := timeSliceForQueue (queueLevelForPriority priority)
    memStart := memStart, memSize := memKB, swappedOut := false, children := [] }

/-- `pcbTable_.at(parentPid).children.push_back(pid)`; a parent pid of 0 is no parent. -/
def linkChild (table : ExtTreeMap UInt32 PCB) (parentPid pid : UInt32) : ExtTreeMap UInt32 PCB :=
  if parentPid ≠ 0 then
    table.modify parentPid fun parent => { parent with children := parent.children ++ [pid] }
  else table

/-- `createProcessWithMemory`: the new state, the PID and the message. -/
def createProcessWithMemory (pm : ProcessManager) (owner name : Str) (memKB memStart : UInt32)
    (priority : Int32) (totalTime : UInt32) (ppid : Option UInt32) :
    Except Str (ProcessManager × UInt32 × Str) :=
  if owner = [] then .error (str "Create failed: user must login first.")
  else if name = [] then .error (str "Create failed: process name cannot be empty.")
  else if memKB = 0 then .error (str "Create failed: memKB must be greater than 0.")
  else if !isValidPriority priority then
    .error (str "Create failed: priority must be in range 0 to 15.")
  else if totalTime = 0 then .error (str "Create failed: totalTime must be greater than 0.")
  else
    let parentPid := ppid.getD 0
    if parentPid ≠ 0 ∧ !pm.hasProcess owner parentPid then
      .error (str "Create failed: parent PID does not exist or access denied.")
    else
      let pid := pm.nextPid
      let pcb := newPcb pid parentPid owner name memKB memStart priority totalTime
      -- `emplace` keeps an entry that is already there
      let table := linkChild (pm.pcbTable.insertIfNew pid pcb) parentPid pid
      let created := { pm with nextPid := pm.nextPid + 1, pcbTable := table }
      .ok (created.enqueueReady pid, pid,
        str "[OK] Process created.\nPID=" ++ decimal pid.toNat ++ str ", Name=" ++ name ++
          str ", State=READY, Priority=" ++ decimalInt priority ++ str ", Queue=" ++
          queueName (queueLevelForPriority priority) ++ str ", Memory=" ++
          decimal memKB.toNat ++ str "KB")

/-- `collectSubtreeLocked`: `ordered` also is the set `visited`, since both are
extended together.  The first argument bounds the depth of the recursion. -/
def collectSubtree (pm : ProcessManager) (owner : Str) : Nat → UInt32 → List UInt32 → List UInt32
  | 0, _, ordered => ordered
  | depth + 1, pid, ordered =>
    if pid ∈ ordered then ordered
    else match pm.ownedPcb owner pid with
      | none => ordered
      | some pcb =>
        (sortedIds pcb.children).foldl (fun acc childPid => collectSubtree pm owner depth childPid acc)
          (ordered ++ [pid])

/-- The first loop of `killProcess`: unlink from the queues and mark `TERMINATED`. -/
def terminate (pm : ProcessManager) (pid : UInt32) : ProcessManager :=
  let pm := pm.removeFromReadyQueues pid
  { pm with pcbTable := pm.pcbTable.modify pid fun pcb => { pcb with state := .terminated } }

/-- `pcb.children.erase(std::remove_if(...))` with the visited set. -/
def dropChildren (removed : List UInt32) (pcb : PCB) : PCB :=
  { pcb with children := pcb.children.filter (· ∉ removed) }

/-- `killProcess`: the new state, the removed PIDs and the message.  Every level of
the recursion visits a new PID, so the number of PCBs bounds its depth. -/
def killProcess (pm : ProcessManager) (owner : Str) (pid : UInt32) :
    Except Str (ProcessManager × List UInt32 × Str) :=
  if !pm.hasProcess owner pid then
    .error (str "Kill failed: PID does not exist or access denied.")
  else
    let removed := pm.collectSubtree owner (pm.pcbTable.size + 1) pid []
    let marked := removed.foldl terminate pm
    let scrubbed := marked.pcbTable.map fun _ pcb => dropChildren removed pcb
    let table := removed.foldl (fun table removedPid => table.erase removedPid) scrubbed
    .ok ({ marked with pcbTable := table }, removed,
      str "[OK] Killed process subtree. Removed PIDs: " ++ joinIds removed)

/-! ## State transitions -/

def blockProcess (pm : ProcessManager) (owner : Str) (pid : UInt32) :
    Except Str (ProcessManager × Str) :=
  match pm.ownedPcb owner pid with
  | none => .error (str "Block failed: PID does not exist or access denied.")
  | some pcb =>
    if pcb.state ≠ .ready ∧ pcb.state ≠ .running then
      .error (str "Block failed: only READY or RUNNING process can be blocked.")
    else .ok ((pm.removeFromReadyQueues pid).setPcb pid { pcb with state := .blocked },
      str "[OK] PID=" ++ decimal pid.toNat ++ str " blocked: " ++ pcb.state.toText ++
        str " -> BLOCKED.")

def wakeupProcess (pm : ProcessManager) (owner : Str) (pid : UInt32) :
    Except Str (ProcessManager × Str) :=
  match pm.ownedPcb owner pid with
  | none => .error (str "Wakeup failed: PID does not exist or access denied.")
  | some pcb =>
    if pcb.state ≠ .blocked then
      .error (str "Wakeup failed: only BLOCKED process can be awakened.")
    else .ok ((pm.setPcb pid { pcb with state := .ready }).enqueueReady pid,
      str "[OK] PID=" ++ decimal pid.toNat ++ str " awakened: BLOCKED -> READY.")

def suspendProcess (pm : ProcessManager) (owner : Str) (pid : UInt32) :
    Except Str (ProcessManager × Str) :=
  match pm.ownedPcb owner pid with
  | none => .error (str "Suspend failed: PID does not exist or access denied.")
  | some pcb =>
    let report (state : ProcessState) : Str :=
      str "[OK] PID=" ++ decimal pid.toNat ++ str " suspended: " ++ pcb.state.toText ++
        str " -> " ++ state.toText ++ str "."
    if pcb.state = .ready ∨ pcb.state = .running then
      .ok ((pm.removeFromReadyQueues pid).setPcb pid { pcb with state := .suspendedReady },
        report .suspendedReady)
    else if pcb.state = .blocked then
      .ok (pm.setPcb pid { pcb with state := .suspendedBlocked }, report .suspendedBlocked)
    else .error (str "Suspend failed: process state cannot be suspended.")

def resumeProcess (pm : ProcessManager) (owner : Str) (pid : UInt32) :
    Except Str (ProcessManager × Str) :=
  match pm.ownedPcb owner pid with
  | none => .error (str "Resume failed: PID does not exist or access denied.")
  | some pcb =>
    let report (state : ProcessState) : Str :=
      str "[OK] PID=" ++ decimal pid.toNat ++ str " resumed: " ++ pcb.state.toText ++
        str " -> " ++ state.toText ++ str "."
    if pcb.state = .suspendedReady then
      .ok ((pm.setPcb pid { pcb with state := .ready }).enqueueReady pid, report .ready)
    else if pcb.state = .suspendedBlocked then
      .ok (pm.setPcb pid { pcb with state := .blocked }, report .blocked)
    else .error (str "Resume failed: only suspended process can be resumed.")

def reniced (pcb : PCB) (newPriority : Int32) : PCB :=
  { pcb with
    priority := newPriority
    queueLevel := queueLevelForPriority newPriority
    timeSliceLeft := timeSliceForQueue (queueLevelForPriority newPriority) }

def reniceProcess (pm : ProcessManager) (owner : Str) (pid : UInt32) (newPriority : Int32) :
    Except Str (ProcessManager × Str) :=
  if !isValidPriority newPriority then
    .error (str "Renice failed: priority must be in range 0 to 15.")
  else match pm.ownedPcb owner pid with
    | none => .error (str "Renice failed: PID does not exist or access denied.")
    | some pcb =>
      let unlinked := if pcb.state = .ready then pm.removeFromReadyQueues pid else pm
      let changed := unlinked.setPcb pid (reniced pcb newPriority)
      let relinked := if pcb.state = .ready then changed.enqueueReady pid else changed
      .ok (relinked,
        str "[OK] PID=" ++ decimal pid.toNat ++ str " priority changed: " ++
          decimalInt pcb.priority ++ str "(" ++ queueName pcb.queueLevel ++ str ") -> " ++
          decimalInt newPriority ++ str "(" ++
          queueName (queueLevelForPriority newPriority) ++ str ")")

def markSwappedOut (pm : ProcessManager) (owner : Str) (pid : UInt32) :
    Except Str (ProcessManager × Str) :=
  match pm.ownedPcb owner pid with
  | none => .error (str "Swap out failed: PID does not exist or access denied.")
  | some pcb =>
    if pcb.swappedOut ∨ pcb.state = .swapped then
      .error (str "Swap out failed: process is already swapped out.")
    else .ok
      ((pm.removeFromReadyQueues pid).setPcb pid
        { pcb with swappedOut := true, memStart := 0, state := .swapped },
      str "[OK] PID=" ++ decimal pid.toNat ++ str " marked as SWAPPED.")

def updateProcessMemoryStart (pm : ProcessManager) (pid newStart : UInt32) : ProcessManager :=
  { pm with pcbTable := pm.pcbTable.modify pid fun pcb => { pcb with memStart := newStart } }

/-! ## Scheduling primitives -/

/-- `it == pcbTable_.end() || state != READY || swappedOut`, negated. -/
def isSchedulable (pm : ProcessManager) (pid : UInt32) : Bool :=
  match pm.pcbTable[pid]? with
  | some pcb => pcb.state = .ready ∧ !pcb.swappedOut
  | none => false

def cleanupInvalidReadyQueueEntries (pm : ProcessManager) : ProcessManager × List UInt32 :=
  ({ pm with readyQueues := fun q => (pm.readyQueues q).filter pm.isSchedulable },
    (List.finRange 3).flatMap fun q => (pm.readyQueues q).filter (!pm.isSchedulable ·))

/-- The inner loop of `pickNextReadyProcess` over one queue: what is left of the
queue, and the PID taken from it. -/
def pickFromQueue (pm : ProcessManager) (owner : Str) : List UInt32 → List UInt32 × Option UInt32
  | [] => ([], none)
  | pid :: rest =>
    match pm.pcbTable[pid]? with
    | none => pickFromQueue pm owner rest
    | some pcb =>
      if pcb.state ≠ .ready ∨ pcb.swappedOut then pickFromQueue pm owner rest
      else if pcb.owner ≠ owner then
        let (left, picked) := pickFromQueue pm owner rest
        (pid :: left, picked)
      else (rest, some pid)

/-- The outer loop of `pickNextReadyProcess` over the queues still to be scanned. -/
def pickFromLevels (pm : ProcessManager) (owner : Str) : List (Fin 3) → ReadyQueues →
    ReadyQueues × Option UInt32
  | [], queues => (queues, none)
  | q :: rest, queues =>
    match pm.pickFromQueue owner (queues q) with
    | (left, some pid) => (Function.update queues q left, some pid)
    | (left, none) => pickFromLevels pm owner rest (Function.update queues q left)

def pickNextReadyProcess (pm : ProcessManager) (owner : Str) : ProcessManager × Option UInt32 :=
  let (queues, picked) := pm.pickFromLevels owner (List.finRange 3) pm.readyQueues
  ({ pm with readyQueues := queues }, picked)

/-- `enqueueReadyProcess`; the callers discard the result flag. -/
def enqueueReadyProcess (pm : ProcessManager) (pid : UInt32) : ProcessManager :=
  if pm.isSchedulable pid then pm.enqueueReady pid else pm

def demoteProcess (pm : ProcessManager) (pid : UInt32) : ProcessManager :=
  { pm with pcbTable := pm.pcbTable.modify pid fun pcb =>
      let level := if pcb.queueLevel < 2 then pcb.queueLevel + 1 else pcb.queueLevel
      { pcb with queueLevel := level, timeSliceLeft := timeSliceForQueue level } }

/-- `if (timeSliceLeft == 0) timeSliceLeft = timeSliceForQueue(queueLevel)`. -/
def refillSlice (pcb : PCB) : PCB :=
  if pcb.timeSliceLeft = 0 then
    { pcb with timeSliceLeft := timeSliceForQueue pcb.queueLevel }
  else pcb

def markRunning (pm : ProcessManager) (pid : UInt32) : Option ProcessManager :=
  match pm.pcbTable[pid]? with
  | none => none
  | some pcb =>
    if pcb.state ≠ .ready ∨ pcb.swappedOut then none
    else some ((pm.removeFromReadyQueues pid).setPcb pid
      (refillSlice { pcb with state := .running }))

def markReady (pm : ProcessManager) (pid : UInt32) : ProcessManager :=
  match pm.pcbTable[pid]? with
  | none => pm
  | some pcb =>
    if pcb.state = .terminated ∨ pcb.state = .swapped ∨ pcb.swappedOut then pm
    else pm.setPcb pid (refillSlice { pcb with state := .ready })

/-- The loop of `tickProcess` from tick number `tick` on, with `left` ticks to go. -/
def tickLoop (pid ticks : UInt32) : Nat → Nat → PCB → PCB × Str
  | 0, _, pcb => (pcb, [])
  | left + 1, tick, pcb =>
    if pcb.remainingTime = 0 then (pcb, [])
    else
      let ran := { pcb with
        executedTime := pcb.executedTime + 1
        remainingTime := pcb.remainingTime - 1
        timeSliceLeft := if pcb.timeSliceLeft = 0 then 0 else pcb.timeSliceLeft - 1 }
      let (last, log) := tickLoop pid ticks left (tick + 1) ran
      (last, str "tick " ++ decimal tick ++ str "/" ++ decimal ticks.toNat ++ str ": PID=" ++
        decimal pid.toNat ++ str " executed=" ++ decimal ran.executedTime.toNat ++ str "/" ++
        decimal ran.totalTime.toNat ++ str ", remaining=" ++ decimal ran.remainingTime.toNat ++
        str "\n" ++ log)

def tickProcess (pm : ProcessManager) (pid ticks : UInt32) : Except Str (ProcessManager × Str) :=
  match pm.pcbTable[pid]? with
  | none => .error (str "Tick failed: PID does not exist or is not RUNNING.")
  | some pcb =>
    if pcb.state ≠ .running ∨ ticks = 0 then
      .error (str "Tick failed: PID does not exist or is not RUNNING.")
    else
      let (ran, log) := tickLoop pid ticks ticks.toNat 1 pcb
      .ok (pm.setPcb pid ran, popNewline log)

/-! ## Persistence interface -/

def importNextPid (pm : ProcessManager) (nextPid : UInt32) : ProcessManager :=
  { pm with nextPid := max nextPid 1 }

def exportPcbs (pm : ProcessManager) : List PCB :=
  (pm.pcbTable.toList.map Prod.snd).insertionSort fun left right => left.pid ≤ right.pid

/-- `importPcbs`: the table, the clamped next PID, and one queue entry for each READY
PCB, in iteration order. -/
def importPcbs (pcbs : List PCB) : ProcessManager :=
  let table := pcbs.foldl (fun table pcb => table.insert pcb.pid pcb) (∅ : ExtTreeMap UInt32 PCB)
  { nextPid := pcbs.foldl (fun next pcb => max next (pcb.pid + 1)) 1
    pcbTable := table
    readyQueues := fun q => table.toList.filterMap fun (pid, pcb) =>
      if pcb.state = .ready ∧ queueIndex pcb.queueLevel = some q then some pid else none }

def importReadyQueues (pm : ProcessManager) (queues : ReadyQueues) : ProcessManager :=
  { pm with readyQueues := queues }

/-- `parent->second.children.push_back(pid)` when the parent is there and has the same owner. -/
def attachToParent (table : ExtTreeMap UInt32 PCB) (pid : UInt32) (pcb : PCB) :
    ExtTreeMap UInt32 PCB :=
  if pcb.ppid = 0 then table
  else match table[pcb.ppid]? with
    | none => table
    | some parent =>
      if parent.owner = pcb.owner then
        table.insert pcb.ppid { parent with children := parent.children ++ [pid] }
      else table

def rebuildParentChildRelations (pm : ProcessManager) : ProcessManager :=
  let cleared := pm.pcbTable.map fun _ pcb => { pcb with children := [] }
  let linked := cleared.toList.foldl (fun table (pid, pcb) => attachToParent table pid pcb) cleared
  { pm with pcbTable := linked.map fun _ pcb =>
      { pcb with children := (sortedIds pcb.children).dedup } }

/-- `static_cast<int>(q)`. -/
def levelOfQueue (q : Fin 3) : Int32 := Int32.ofNat q.val

/-- The acceptance test of `validateReadyQueues`, the `seen` set aside. -/
def isIndexedAt (pm : ProcessManager) (q : Fin 3) (pid : UInt32) : Bool :=
  match pm.pcbTable[pid]? with
  | some pcb => pcb.state = .ready ∧ !pcb.swappedOut ∧ pcb.queueLevel = levelOfQueue q
  | none => false

/-- The inner loop of `validateReadyQueues`: the repaired queue, the grown `seen` set
and the number of erased entries. -/
def repairQueue (pm : ProcessManager) (q : Fin 3) : List UInt32 → List UInt32 →
    List UInt32 × List UInt32 × Nat
  | [], seen => ([], seen, 0)
  | pid :: rest, seen =>
    if !pm.isIndexedAt q pid ∨ pid ∈ seen then
      let (kept, seen, removed) := repairQueue pm q rest seen
      (kept, seen, removed + 1)
    else
      let (kept, seen, removed) := repairQueue pm q rest (pid :: seen)
      (pid :: kept, seen, removed)

def repairQueues (pm : ProcessManager) : List (Fin 3) → ReadyQueues → List UInt32 → Nat →
    ReadyQueues × Nat
  | [], queues, _, removed => (queues, removed)
  | q :: rest, queues, seen, removed =>
    let (kept, seen, erased) := pm.repairQueue q (queues q) seen
    repairQueues pm rest (Function.update queues q kept) seen (removed + erased)

def validateReadyQueues (pm : ProcessManager) : ProcessManager × Str :=
  let (queues, removed) := pm.repairQueues (List.finRange 3) pm.readyQueues [] 0
  ({ pm with readyQueues := queues },
    if removed = 0 then str "Ready queue validation passed."
    else str "Ready queue validation repaired " ++ decimal removed ++ str " invalid entries.")

end ProcessManager

end OSCoreSim
