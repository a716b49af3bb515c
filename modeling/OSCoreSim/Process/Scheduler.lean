import OSCoreSim.Memory.MemoryManager
import OSCoreSim.Process.ProcessView
/-!
# One MLFQ scheduling decision

`Scheduler::step` picks a READY process of the owner, runs it for the quantum
of its queue, and then either removes it with its subtree or puts it back into
a ready queue.
-/

namespace OSCoreSim

structure Scheduler where
  running : Bool := false
  deriving DecidableEq, Repr

namespace Scheduler

open ProcessManager (queueName timeSliceForQueue)

/-- The `[Result]` part of a step whose CPU stays idle. -/
def idleText (selectLine : Str) (after : Str) : Str :=
  str "[Select]\n" ++ selectLine ++ str "\n\n[Result]\nCPU is idle.\n\n[After]\n" ++ after

/-- The loop that releases the memory of the removed PIDs; refusals are ignored. -/
def releaseAll (owner : Str) : MemoryManager → List UInt32 → MemoryManager × Str
  | memory, [] => (memory, [])
  | memory, removedPid :: rest =>
    match memory.freeByPid owner removedPid with
    | .ok (freed, message) =>
      let (last, text) := releaseAll owner freed rest
      (last, str "\n" ++ message ++ text)
    | .error _ => releaseAll owner memory rest

/-- The branch of `step` for a process that has no time left. -/
def finish (owner : Str) (pid : UInt32) (processes : ProcessManager) (memory : MemoryManager) :
    ProcessManager × MemoryManager × Str :=
  let header := str "PID=" ++ decimal pid.toNat ++ str " completed.\n"
  match processes.killProcess owner pid with
  | .error killMessage => (processes, memory, header ++ killMessage)
  | .ok (left, removedPids, killMessage) =>
    let (freed, text) := releaseAll owner memory removedPids
    (left, freed, header ++ killMessage ++ text)

/-- The branch of `step` for a process that has to run again. -/
def requeue (pid : UInt32) (oldQueue : Int32) (usedFullQuantum : Bool)
    (processes : ProcessManager) : ProcessManager × Str :=
  let demoted := if usedFullQuantum then processes.demoteProcess pid else processes
  let final := (demoted.markReady pid).enqueueReadyProcess pid
  (final, str "PID=" ++ decimal pid.toNat ++ str " used " ++
    (if usedFullQuantum then str "full quantum" else str "partial quantum") ++
    str " but not finished.\n" ++
    match final.pcbTable[pid]? with
    | none => []
    | some finalPcb =>
      (if usedFullQuantum then
        str "Demote: " ++ queueName oldQueue ++ str " -> " ++ queueName finalPcb.queueLevel ++
          str "\n"
      else []) ++ str "State: RUNNING -> READY")

/-- `step` from the moment a process is selected. -/
def runSelected (owner : Str) (selected : PCB) (processes : ProcessManager)
    (memory : MemoryManager) : ProcessManager × MemoryManager × Str :=
  let oldQueue := selected.queueLevel
  let quantum := timeSliceForQueue oldQueue
  match processes.markRunning selected.pid with
  | none =>
    (processes, memory, str "[Run]\nFailed to switch PID=" ++ decimal selected.pid.toNat ++
      str " to RUNNING.\n\n[Result]\nCPU is idle.")
  | some running =>
    match running.tickProcess selected.pid quantum with
    | .error tickLog =>
      let restored := (running.markReady selected.pid).enqueueReadyProcess selected.pid
      (restored, memory, str "[Run]\n" ++ tickLog ++ str "\n\n[Result]\n" ++
        str "State restored to READY because tick execution failed.")
    | .ok (ran, tickLog) =>
      let header := str "[Run]\n" ++ tickLog ++ str "\n\n[Result]\n"
      match ran.pcbTable[selected.pid]? with
      | none =>
        (ran, memory, header ++ str "PID=" ++ decimal selected.pid.toNat ++
          str " disappeared after running.")
      | some afterRun =>
        let ticksUsed := afterRun.executedTime - selected.executedTime
        if afterRun.remainingTime = 0 then
          let (left, freed, text) := finish owner selected.pid ran memory
          (left, freed, header ++ text)
        else
          let (left, text) := requeue selected.pid oldQueue (quantum ≤ ticksUsed) ran
          (left, memory, header ++ text)

def selectText (cleaned : List UInt32) (selected : PCB) : Str :=
  str "[Select]\nScanning Q0 -> Q1 -> Q2" ++
    (if cleaned = [] then [] else str "\nRemoved invalid ready queue entries:" ++
      cleaned.flatMap fun pid => str " " ++ decimal pid.toNat) ++
    str "\nScanning " ++ queueName selected.queueLevel ++ str " -> found PID=" ++
    decimal selected.pid.toNat ++ str "\nSelected PID=" ++ decimal selected.pid.toNat ++
    str ", name=" ++ selected.name ++ str ", queue=" ++ queueName selected.queueLevel ++
    str ", quantum=" ++ decimal (timeSliceForQueue selected.queueLevel).toNat ++ str "\n\n"

def step (owner : Str) (processes : ProcessManager) (memory : MemoryManager) :
    ProcessManager × MemoryManager × Str :=
  let header := str "=== Scheduler Step ===\n\n[Before]\n" ++
    processes.readyQueueSnapshot owner ++ str "\n\n"
  let (clean, cleaned) := processes.cleanupInvalidReadyQueueEntries
  let (picked, selectedPid) := clean.pickNextReadyProcess owner
  match selectedPid with
  | none =>
    (picked, memory,
      header ++ idleText (str "No READY process found.") (picked.readyQueueSnapshot owner))
  | some pid =>
    match picked.pcbTable[pid]? with
    | none =>
      (picked, memory, header ++ idleText (str "Selected PID disappeared before running.")
        (picked.readyQueueSnapshot owner))
    | some selected =>
      let (left, freed, text) := runSelected owner selected picked memory
      (left, freed, header ++ selectText cleaned selected ++ text ++ str "\n\n[After]\n" ++
        left.readyQueueSnapshot owner)

end Scheduler

end OSCoreSim
