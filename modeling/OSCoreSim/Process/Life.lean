import OSCoreSim.Process.TurnOrder
/-!
# The life of one process

For its owner a process is an automaton: five states, a priority, a queue level and the work done
so far.  The commands about it and its turns are the orders that the automaton obeys, or does not
accept.  The operations of the process manager carry the orders out on the PCB.
-/

namespace OSCoreSim

open ProcessManager

/-- What can happen to a process: the commands about it, and the turns in which it does not come
to its end. -/
inductive Order where
  | block
  | wakeup
  | suspend
  | resume
  | renice (priority : Int32)
  | swapOut
  | turn
  deriving DecidableEq, Repr

structure Life where
  state : ProcessState
  priority : Int32
  level : Fin 3
  executed : ℕ
  deriving DecidableEq, Repr

namespace Life

def startLevel (priority : Int32) : Fin 3 :=
  if priority ≤ 3 then 0 else if priority ≤ 7 then 1 else 2

def accepts (l : Life) : Order → Bool
  | .block => l.state = .ready
  | .wakeup => l.state = .blocked
  | .suspend => l.state = .ready ∨ l.state = .blocked
  | .resume => l.state = .suspendedReady ∨ l.state = .suspendedBlocked
  | .renice priority => 0 ≤ priority ∧ priority ≤ 15
  | .swapOut => l.state ≠ .swapped
  | .turn => l.state = .ready

def carried (l : Life) : Order → Life
  | .block => { l with state := .blocked }
  | .wakeup => { l with state := .ready }
  | .suspend => { l with state := if l.state = .ready then .suspendedReady else .suspendedBlocked }
  | .resume => { l with state := if l.state = .suspendedReady then .ready else .blocked }
  | .renice priority => { l with priority := priority, level := startLevel priority }
  | .swapOut => { l with state := .swapped }
  | .turn => { l with executed := l.executed + (quantum l.level).toNat, level := queueBelow l.level }

/-- An order that is not accepted changes nothing. -/
def obey (l : Life) (order : Order) : Life := if l.accepts order then l.carried order else l

structure Lives (l : Life) (pcb : PCB) : Prop where
  state : pcb.state = l.state
  priority : pcb.priority = l.priority
  level : pcb.queueLevel = levelOfQueue l.level
  executed : pcb.executedTime.toNat = l.executed

end Life

structure SameProcess (pcb pcb' : PCB) : Prop where
  pid : pcb'.pid = pcb.pid
  ppid : pcb'.ppid = pcb.ppid
  name : pcb'.name = pcb.name
  owner : pcb'.owner = pcb.owner
  totalTime : pcb'.totalTime = pcb.totalTime
  memSize : pcb'.memSize = pcb.memSize

theorem SameProcess.refl (pcb : PCB) : SameProcess pcb pcb := ⟨rfl, rfl, rfl, rfl, rfl, rfl⟩

theorem SameProcess.trans {pcb pcb' pcb'' : PCB} (h : SameProcess pcb pcb')
    (h' : SameProcess pcb' pcb'') : SameProcess pcb pcb'' where
  pid := h'.pid.trans h.pid
  ppid := h'.ppid.trans h.ppid
  name := h'.name.trans h.name
  owner := h'.owner.trans h.owner
  totalTime := h'.totalTime.trans h.totalTime
  memSize := h'.memSize.trans h.memSize

namespace ProcessManager

variable {pm pm' : ProcessManager} {owner message : Str} {pid : UInt32} {pcb : PCB} {l : Life}

/-- The call of the process manager behind an order; a turn is the scheduler's. -/
def carryOut (pm : ProcessManager) (owner : Str) (pid : UInt32) :
    Order → Except Str (ProcessManager × Str)
  | .block => pm.blockProcess owner pid
  | .wakeup => pm.wakeupProcess owner pid
  | .suspend => pm.suspendProcess owner pid
  | .resume => pm.resumeProcess owner pid
  | .renice priority => pm.reniceProcess owner pid priority
  | .swapOut => pm.markSwappedOut owner pid
  | .turn => .error []

structure Settled (pcb : PCB) : Prop where
  not_running : pcb.state ≠ .running
  swapped : pcb.swappedOut = true ↔ pcb.state = .swapped
  level : ∃ q, pcb.queueLevel = levelOfQueue q

theorem Settled.exists_lives (h : Settled pcb) : ∃ l : Life, l.Lives pcb := by
  obtain ⟨q, hlevel⟩ := h.level
  exact ⟨⟨pcb.state, pcb.priority, q, pcb.executedTime.toNat⟩, rfl, rfl, hlevel, rfl⟩

theorem queueLevelForPriority_eq (priority : Int32) :
    queueLevelForPriority priority = levelOfQueue (Life.startLevel priority) := by
  unfold queueLevelForPriority Life.startLevel
  split
  · rfl
  split <;> rfl

/-- An accepted order is carried out on the PCB of the process and on nothing else in the table;
any other is refused. -/
theorem carryOut_owned (hget : pm.ownedPcb owner pid = some pcb) (hl : l.Lives pcb)
    (hpcb : Settled pcb) {order : Order} (hturn : order ≠ .turn) :
    (l.accepts order = true → ∃ pm' message pcb', pm.carryOut owner pid order = .ok (pm', message) ∧
        pm'.pcbTable = pm.pcbTable.insert pid pcb' ∧ (l.carried order).Lives pcb' ∧
        SameProcess pcb pcb') ∧
      (l.accepts order = false → ∃ message, pm.carryOut owner pid order = .error message) := by
  have hrun := hpcb.not_running
  cases order with
  | turn => exact absurd rfl hturn
  | block =>
    simp only [Life.accepts, ← hl.state, carryOut, blockProcess, hget, decide_eq_true_eq,
      decide_eq_false_iff_not]
    constructor
    · intro hready
      rw [if_neg (by simp [hready])]
      exact ⟨_, _, _, rfl, rfl, { hl with state := rfl }, rfl, rfl, rfl, rfl, rfl, rfl⟩
    · intro hready
      rw [if_pos ⟨hready, hrun⟩]
      exact ⟨_, rfl⟩
  | wakeup =>
    simp only [Life.accepts, ← hl.state, carryOut, wakeupProcess, hget, decide_eq_true_eq,
      decide_eq_false_iff_not]
    constructor
    · intro hblocked
      rw [if_neg (by simp [hblocked])]
      exact ⟨_, _, _, rfl, enqueueReady_pcbTable _ _, { hl with state := rfl },
        rfl, rfl, rfl, rfl, rfl, rfl⟩
    · intro hblocked
      rw [if_pos hblocked]
      exact ⟨_, rfl⟩
  | suspend =>
    simp only [Life.accepts, Life.carried, ← hl.state, carryOut, suspendProcess, hget,
      decide_eq_true_eq, decide_eq_false_iff_not]
    constructor
    · rintro (hready | hblocked)
      · rw [if_pos (.inl hready), if_pos hready]
        exact ⟨_, _, _, rfl, rfl, { hl with state := rfl }, rfl, rfl, rfl, rfl, rfl, rfl⟩
      · have hready : pcb.state ≠ .ready := by simp [hblocked]
        rw [if_neg (not_or.mpr ⟨hready, hrun⟩), if_pos hblocked, if_neg hready]
        exact ⟨_, _, _, rfl, rfl, { hl with state := rfl }, rfl, rfl, rfl, rfl, rfl, rfl⟩
    · intro hnot
      rw [not_or] at hnot
      rw [if_neg (not_or.mpr ⟨hnot.1, hrun⟩), if_neg hnot.2]
      exact ⟨_, rfl⟩
  | resume =>
    simp only [Life.accepts, Life.carried, ← hl.state, carryOut, resumeProcess, hget,
      decide_eq_true_eq, decide_eq_false_iff_not]
    constructor
    · rintro (hready | hblocked)
      · rw [if_pos hready, if_pos hready]
        exact ⟨_, _, _, rfl, enqueueReady_pcbTable _ _, { hl with state := rfl },
          rfl, rfl, rfl, rfl, rfl, rfl⟩
      · have hready : pcb.state ≠ .suspendedReady := by simp [hblocked]
        rw [if_neg hready, if_pos hblocked, if_neg hready]
        exact ⟨_, _, _, rfl, rfl, { hl with state := rfl }, rfl, rfl, rfl, rfl, rfl, rfl⟩
    · intro hnot
      rw [not_or] at hnot
      rw [if_neg hnot.1, if_neg hnot.2]
      exact ⟨_, rfl⟩
  | renice priority =>
    have haccepts : l.accepts (.renice priority) = isValidPriority priority := rfl
    simp only [haccepts, Life.carried, carryOut, reniceProcess, hget]
    constructor
    · intro hvalid
      rw [hvalid, if_neg (by decide)]
      refine ⟨_, _, reniced pcb priority, rfl, ?_, ⟨hl.state, rfl, queueLevelForPriority_eq priority,
        hl.executed⟩, rfl, rfl, rfl, rfl, rfl, rfl⟩
      by_cases hready : pcb.state = .ready
      · rw [if_pos hready, if_pos hready, enqueueReady_pcbTable]
        rfl
      · rw [if_neg hready, if_neg hready]
        rfl
    · intro hvalid
      rw [hvalid, if_pos (by decide)]
      exact ⟨_, rfl⟩
  | swapOut =>
    simp only [Life.accepts, ← hl.state, carryOut, markSwappedOut, hget, decide_eq_true_eq,
      decide_eq_false_iff_not, hpcb.swapped, or_self]
    constructor
    · intro hresident
      rw [if_neg hresident]
      exact ⟨_, _, _, rfl, rfl, { hl with state := rfl }, rfl, rfl, rfl, rfl, rfl, rfl⟩
    · intro hswapped
      rw [if_pos (not_not.mp hswapped)]
      exact ⟨_, rfl⟩

theorem carryOut_foreign (hget : pm.ownedPcb owner pid = none) (order : Order) :
    ∃ message, pm.carryOut owner pid order = .error message := by
  cases order with
  | turn => exact ⟨_, rfl⟩
  | renice priority =>
    simp only [carryOut, reniceProcess, hget]
    split <;> exact ⟨_, rfl⟩
  | _ =>
    simp only [carryOut, blockProcess, wakeupProcess, suspendProcess, resumeProcess, markSwappedOut,
      hget]
    exact ⟨_, rfl⟩

theorem lives_afterSlice (hl : l.Lives pcb) (hready : pcb.state = .ready)
    (hroom : pcb.executedTime.toNat + (timeSliceForQueue pcb.queueLevel).toNat < 2 ^ 32) :
    (l.obey .turn).Lives (afterSlice pcb) ∧ SameProcess pcb (afterSlice pcb) := by
  have haccepts : l.accepts .turn = true := by simpa [Life.accepts, ← hl.state] using hready
  rw [Life.obey, if_pos haccepts]
  refine ⟨⟨?_, hl.priority, ?_, ?_⟩, rfl, rfl, rfl, rfl, rfl, rfl⟩
  · exact hready.symm.trans hl.state
  · show demotedLevel pcb.queueLevel = _
    rw [hl.level, demotedLevel_levelOfQueue]
    rfl
  · show (pcb.executedTime + timeSliceForQueue pcb.queueLevel).toNat = _
    rw [toNat_add_of_lt hroom, hl.level, timeSliceForQueue_levelOfQueue, hl.executed]
    rfl

end ProcessManager

end OSCoreSim
