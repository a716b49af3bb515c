import OSCoreSim.Process.ProcessManager
/-!
# Process listings

The read-only views of `ProcessManager`.  Each of them filters the global table
or the global queues down to the PCBs of one owner.  A loop over `pcbTable_` meets the
entries in the order of the hash table, which is an argument of the functions ending in
`In`; the functions without it loop over the entries by increasing PID.
-/

namespace OSCoreSim

namespace ProcessManager

/-- `getProcessCopiesForUser`, with the entries of the table in this order. -/
def processCopiesIn (entries : List (UInt32 × PCB)) (owner : Str) : List PCB :=
  ((entries.map Prod.snd).filter (·.owner = owner)).insertionSort
    fun left right => left.pid ≤ right.pid

def getProcessCopiesForUser (pm : ProcessManager) (owner : Str) : List PCB :=
  processCopiesIn pm.pcbTable.toList owner

def processCount (pm : ProcessManager) (owner : Str) : Nat :=
  (pm.pcbTable.toList.filter (·.2.owner = owner)).length

def showProcess (pm : ProcessManager) (owner : Str) (pid : UInt32) : Str :=
  match pm.ownedPcb owner pid with
  | none => str "Process not found or access denied."
  | some pcb =>
    str "=== PCB Detail ===\nPID: " ++ decimal pcb.pid.toNat ++
      str "\nPPID: " ++ decimal pcb.ppid.toNat ++
      str "\nName: " ++ pcb.name ++
      str "\nOwner: " ++ pcb.owner ++
      str "\nState: " ++ pcb.state.toText ++
      str "\nPriority: " ++ decimalInt pcb.priority ++
      str "\nQueue: " ++ queueName pcb.queueLevel ++
      str "\nCPU Time: " ++ decimal pcb.executedTime.toNat ++ str " / " ++
        decimal pcb.totalTime.toNat ++
      str "\nRemaining: " ++ decimal pcb.remainingTime.toNat ++
      str "\nTime Slice Left: " ++ decimal pcb.timeSliceLeft.toNat ++
      str "\nMemory: " ++
      (if pcb.swappedOut then
        str "swapped out, required=" ++ decimal pcb.memSize.toNat ++ str "KB\n"
      else str "start=" ++ decimal pcb.memStart.toNat ++ str "KB, size=" ++
        decimal pcb.memSize.toNat ++ str "KB\n") ++
      str "Swapped Out: " ++ boolText pcb.swappedOut ++
      str "\nChildren: " ++ joinIds (sortedIds pcb.children)

def listRow (pcb : PCB) : Str :=
  setw 6 (decimal pcb.pid.toNat) ++ setw 7 (decimal pcb.ppid.toNat) ++ setw 12 pcb.name ++
    setw 18 pcb.state.toText ++ setw 7 (decimalInt pcb.priority) ++
    setw 8 (queueName pcb.queueLevel) ++
    setw 10 (decimal pcb.executedTime.toNat ++ str "/" ++ decimal pcb.totalTime.toNat) ++
    setw 10 (if pcb.swappedOut then str "-" else decimal pcb.memStart.toNat) ++
    setw 8 (decimal pcb.memSize.toNat) ++ boolText pcb.swappedOut ++ str "\n"

/-- `listProcesses`, with the entries of the table in this order. -/
def listProcessesIn (entries : List (UInt32 × PCB)) (owner : Str) : Str :=
  let visible := processCopiesIn entries owner
  if visible = [] then str "No process found for current user."
  else popNewline (
    str "=== PCB List for user: " ++ owner ++ str " ===\n" ++
      setw 6 (str "PID") ++ setw 7 (str "PPID") ++ setw 12 (str "Name") ++
      setw 18 (str "State") ++ setw 7 (str "Prio") ++ setw 8 (str "Queue") ++
      setw 10 (str "CPU") ++ setw 10 (str "MemStart") ++ setw 8 (str "MemKB") ++
      str "Swapped\n" ++ visible.flatMap listRow)

def listProcesses (pm : ProcessManager) (owner : Str) : Str :=
  listProcessesIn pm.pcbTable.toList owner

/-- `appendTreeNodeLocked`: the grown `visited` set and the text.  The first argument
bounds the depth of the recursion, as in `collectSubtree`. -/
def appendTreeNode (pm : ProcessManager) (owner : Str) :
    Nat → UInt32 → Str → Bool → Bool → List UInt32 → List UInt32 × Str
  | 0, _, _, _, _, visited => (visited, [])
  | depth + 1, pid, linePrefix, isLast, isRoot, visited =>
    match pm.ownedPcb owner pid with
    | none => (visited, [])
    | some pcb =>
      let lead := if isRoot then [] else linePrefix ++ (if isLast then str "`- " else str "|- ")
      if pid ∈ visited then
        (visited, lead ++ str "PID=" ++ decimal pid.toNat ++ str " (cycle detected)")
      else
        let node := lead ++ pcb.name ++ str "(" ++ decimal pid.toNat ++ str ") [" ++
          pcb.state.toText ++ str ", prio=" ++ decimalInt pcb.priority ++ str ", q=" ++
          queueName pcb.queueLevel ++ str ", mem=" ++ decimal pcb.memSize.toNat ++ str "KB]"
        let visibleChildren := sortedIds (pcb.children.filter (pm.hasProcess owner ·))
        let childPrefix :=
          if isRoot then [] else linePrefix ++ (if isLast then str "   " else str "|  ")
        visibleChildren.zipIdx.foldl (fun (visited, output) (child, i) =>
          let (visited, text) := appendTreeNode pm owner depth child childPrefix
            (i + 1 = visibleChildren.length) false visited
          (visited, output ++ str "\n" ++ text)) (pid :: visited, node)

/-- The roots that `processTree` finds when it meets the entries in this order. -/
def treeRootsIn (pm : ProcessManager) (entries : List (UInt32 × PCB)) (owner : Str) :
    List UInt32 :=
  let isRoot (pcb : PCB) : Bool := pcb.ppid = 0 ∨ !pm.hasProcess owner pcb.ppid
  sortedIds (((entries.filter (·.2.owner = owner)).filter (isRoot ·.2)).map Prod.fst)

def processTreeIn (pm : ProcessManager) (entries : List (UInt32 × PCB)) (owner : Str) : Str :=
  let roots := pm.treeRootsIn entries owner
  let header := str "Process Tree for user: " ++ owner
  if roots = [] then header ++ str "\nNo process found for current user."
  else
    (roots.zipIdx.foldl (fun (visited, output) (root, i) =>
      let (visited, text) := pm.appendTreeNode owner (pm.pcbTable.size + 1) root []
        (i + 1 = roots.length) true visited
      (visited, output ++ str "\n" ++ text)) (([] : List UInt32), header)).2

def processTree (pm : ProcessManager) (owner : Str) : Str :=
  pm.processTreeIn pm.pcbTable.toList owner

def visibleReady (pm : ProcessManager) (owner : Str) (q : Fin 3) : List UInt32 :=
  (pm.readyQueues q).filter fun pid =>
    match pm.ownedPcb owner pid with
    | some pcb => pcb.state = .ready
    | none => false

def readyQueueSnapshot (pm : ProcessManager) (owner : Str) : Str :=
  str "Ready Queues:" ++ (List.finRange 3).flatMap fun q =>
    str "\n" ++ queueName (levelOfQueue q) ++ str ": " ++
      (if pm.visibleReady owner q = [] then str "empty"
      else (str " ").intercalate ((pm.visibleReady owner q).map fun pid => decimal pid.toNat))

end ProcessManager

end OSCoreSim
