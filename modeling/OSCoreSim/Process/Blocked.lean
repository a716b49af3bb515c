import OSCoreSim.Process.ProcessRun
import OSCoreSim.Process.TurnOrder
/-!
# Blocked processes

A process that has been blocked may be suspended, resumed, reniced and swapped out, but only a
wakeup makes it READY again.  Until then it does no work.
-/

namespace OSCoreSim

namespace ProcessManager

variable {pm pm' : ProcessManager} {owner : Str} {pid k executed remaining : UInt32} {pcb : PCB}

/-- BLOCKED, or suspended or swapped out since. -/
def Dormant (pcb : PCB) : Prop :=
  pcb.state = .blocked ∨ pcb.state = .suspendedBlocked ∨ pcb.state = .swapped

/-- Dormant, with this much work done and to do. -/
structure Rested (executed remaining : UInt32) (pcb : PCB) : Prop where
  dormant : Dormant pcb
  executed_eq : pcb.executedTime = executed
  remaining_eq : pcb.remainingTime = remaining

def RestsIn (pm : ProcessManager) (pid executed remaining : UInt32) : Prop :=
  ∀ pcb, pm.pcbTable[pid]? = some pcb → Rested executed remaining pcb

theorem Dormant.not_ready (h : Dormant pcb) : pcb.state ≠ .ready := by
  rcases h with h | h | h <;> simp [h]

theorem Dormant.not_running (h : Dormant pcb) : pcb.state ≠ .running := by
  rcases h with h | h | h <;> simp [h]

theorem Dormant.not_suspendedReady (h : Dormant pcb) : pcb.state ≠ .suspendedReady := by
  rcases h with h | h | h <;> simp [h]

theorem blockProcess_eq_ok {message : Str} (h : pm.blockProcess owner pid = .ok (pm', message)) :
    ∃ pcb, pm.pcbTable[pid]? = some pcb ∧
      pm'.pcbTable[pid]? = some { pcb with state := .blocked } := by
  unfold blockProcess at h
  cases hown : pm.ownedPcb owner pid with
  | none =>
    rw [hown] at h
    cases h
  | some pcb =>
    simp only [hown] at h
    split at h
    · cases h
    · cases h
      refine ⟨pcb, (ownedPcb_eq_some.mp hown).1, ?_⟩
      rw [setPcb, KeyedTable.getElem?_insert, if_pos rfl]

/-! ## Waiting outside the queues -/

theorem Indexed.not_queued (h : Indexed pm)
    (hwaits : ∀ pcb, pm.pcbTable[pid]? = some pcb → pcb.state ≠ .ready) (q : Fin 3) :
    pid ∉ pm.readyQueues q := by
  intro hmem
  obtain ⟨pcb, hget, hlevel⟩ := (h.mem_iff q pid).mp hmem
  exact hwaits pcb hget (readyLevel_eq_some.mp hlevel).1

theorem Indexed.not_selected (h : Indexed pm)
    (hwaits : ∀ pcb, pm.pcbTable[pid]? = some pcb → pcb.state ≠ .ready) (owner : Str) :
    pm.selectedPid owner ≠ some pid := by
  intro hsel
  obtain ⟨q, hturn⟩ := h.selectedPid_eq_some.mp hsel
  obtain ⟨pcb, hget, hready, -⟩ := h.nextTurn_pcb hturn
  exact hwaits pcb (ownedPcb_eq_some.mp hget).1 hready

structure Waits (pm : ProcessManager) (pid : UInt32) : Prop where
  not_queued : ∀ q, pid ∉ pm.readyQueues q
  not_selected : ∀ owner, pm.selectedPid owner ≠ some pid

theorem Indexed.waits (h : Indexed pm)
    (hwaits : ∀ pcb, pm.pcbTable[pid]? = some pcb → pcb.state ≠ .ready) : Waits pm pid :=
  ⟨h.not_queued hwaits, h.not_selected hwaits⟩

/-! ## Calls other than a wakeup -/

theorem RestsIn.of_eq (h : RestsIn pm pid executed remaining)
    (hsame : pm'.pcbTable[pid]? = pm.pcbTable[pid]?) : RestsIn pm' pid executed remaining :=
  fun pcb hget => h pcb (hsame ▸ hget)

theorem RestsIn.keep {α : Type} {result : Except Str (ProcessManager × α)}
    (h : RestsIn pm pid executed remaining)
    (hok : ∀ pm' rest, result = .ok (pm', rest) → RestsIn pm' pid executed remaining) :
    RestsIn (pm.keep result) pid executed remaining := by
  cases result with
  | error message => exact h
  | ok pair => exact hok pair.1 pair.2 rfl

theorem RestsIn.other (h : RestsIn pm pid executed remaining) (hk : k ≠ pid)
    (hr : Rewrites owner k pm pm') : RestsIn pm' pid executed remaining := by
  obtain ⟨old, new, -, -, hs⟩ := hr
  refine h.of_eq ?_
  rw [hs.pcbTable_eq, KeyedTable.getElem?_insert, if_neg hk]

theorem RestsIn.set (hrests : Rested executed remaining pcb) :
    RestsIn (pm.setPcb pid pcb) pid executed remaining := by
  intro found hget
  rw [setPcb, KeyedTable.getElem?_insert, if_pos rfl] at hget
  cases hget
  exact hrests

theorem RestsIn.owned (h : RestsIn pm pid executed remaining)
    (hown : pm.ownedPcb owner pid = some pcb) : Rested executed remaining pcb :=
  h pcb (ownedPcb_eq_some.mp hown).1

theorem RestsIn.block (h : RestsIn pm pid executed remaining) (owner : Str) (k : UInt32) :
    RestsIn (pm.keep (pm.blockProcess owner k)) pid executed remaining := by
  by_cases hk : k = pid
  · subst hk
    unfold blockProcess
    cases hown : pm.ownedPcb owner k with
    | none => exact h
    | some pcb =>
      have hdormant := (h.owned hown).dormant
      simp only [ne_eq, hdormant.not_ready, hdormant.not_running, not_false_eq_true, and_self,
        if_true]
      exact h
  · exact h.keep fun _ _ hok => h.other hk (blockProcess_spec hok)

theorem RestsIn.suspend (h : RestsIn pm pid executed remaining) (owner : Str) (k : UInt32) :
    RestsIn (pm.keep (pm.suspendProcess owner k)) pid executed remaining := by
  by_cases hk : k = pid
  · subst hk
    unfold suspendProcess
    cases hown : pm.ownedPcb owner k with
    | none => exact h
    | some pcb =>
      have hrests := h.owned hown
      simp only [hrests.dormant.not_ready, hrests.dormant.not_running, or_self, if_false]
      split
      · exact RestsIn.set ⟨.inr (.inl rfl), hrests.executed_eq, hrests.remaining_eq⟩
      · exact h
  · exact h.keep fun _ _ hok => h.other hk (suspendProcess_spec hok)

theorem RestsIn.resume (h : RestsIn pm pid executed remaining) (owner : Str) (k : UInt32) :
    RestsIn (pm.keep (pm.resumeProcess owner k)) pid executed remaining := by
  by_cases hk : k = pid
  · subst hk
    unfold resumeProcess
    cases hown : pm.ownedPcb owner k with
    | none => exact h
    | some pcb =>
      have hrests := h.owned hown
      simp only [hrests.dormant.not_suspendedReady, if_false]
      split
      · exact RestsIn.set ⟨.inl rfl, hrests.executed_eq, hrests.remaining_eq⟩
      · exact h
  · exact h.keep fun _ _ hok => h.other hk (resumeProcess_spec hok)

theorem RestsIn.renice (h : RestsIn pm pid executed remaining) (owner : Str) (k : UInt32)
    (priority : Int32) :
    RestsIn (pm.keep (pm.reniceProcess owner k priority)) pid executed remaining := by
  by_cases hk : k = pid
  · subst hk
    unfold reniceProcess
    split
    · exact h
    cases hown : pm.ownedPcb owner k with
    | none => exact h
    | some pcb =>
      have hrests := h.owned hown
      simp only [hrests.dormant.not_ready, if_false]
      exact RestsIn.set ⟨hrests.dormant, hrests.executed_eq, hrests.remaining_eq⟩
  · exact h.keep fun _ _ hok => h.other hk (reniceProcess_spec hok)

theorem RestsIn.pruned (h : RestsIn pm pid executed remaining) (removed : List UInt32) :
    RestsIn (pm.pruned removed) pid executed remaining := by
  intro pcb hget
  obtain ⟨-, old, hold, rfl⟩ := pruned_eq_some.mp hget
  obtain ⟨hdormant, hexecuted, hremaining⟩ := h old hold
  exact ⟨hdormant, hexecuted, hremaining⟩

theorem RestsIn.created {name message : Str} {memKB memStart totalTime : UInt32} {priority : Int32}
    {ppid : Option UInt32} (h : RestsIn pm pid executed remaining)
    (hexists : pm.pcbTable[pid]?.isSome)
    (hcreate : pm.createProcessWithMemory owner name memKB memStart priority totalTime ppid =
      .ok (pm', k, message)) : RestsIn pm' pid executed remaining := by
  obtain ⟨-, -, rfl, -⟩ := createProcessWithMemory_eq_ok hcreate
  intro pcb hget
  rw [enqueueReady_pcbTable, linkChild_getElem?, Std.ExtTreeMap.getElem?_insertIfNew] at hget
  obtain ⟨old, hold⟩ := Option.isSome_iff_exists.mp hexists
  have hmem : pid ∈ pm.pcbTable := Std.ExtTreeMap.mem_iff_isSome_getElem?.mpr hexists
  have hnew : ¬(compare pm.nextPid pid = .eq ∧ ¬pm.nextPid ∈ pm.pcbTable) := by
    rintro ⟨heq, hnot⟩
    rw [Std.LawfulEqCmp.compare_eq_iff_eq] at heq
    exact hnot (heq ▸ hmem)
  rw [if_neg hnew, hold, Option.map_some] at hget
  obtain ⟨children, hchild⟩ := withChild_eq (ppid.getD 0) pm.nextPid pid old
  rw [hchild] at hget
  cases hget
  obtain ⟨hdormant, hexecuted, hremaining⟩ := h old hold
  exact ⟨hdormant, hexecuted, hremaining⟩

theorem RestsIn.outcome {mm mm' : MemoryManager} (h : RestsIn pm pid executed remaining)
    (ho : Scheduler.Outcome owner pm mm pm' mm') : RestsIn pm' pid executed remaining := by
  cases ho with
  | idle => exact h
  | requeue k ran hsel hget hready =>
    have hk : k ≠ pid := by
      rintro rfl
      exact (h.owned hget).dormant.not_ready hready
    refine h.of_eq ?_
    rw [relinked, KeyedTable.getElem?_insert, if_neg hk]
    rfl
  | finish =>
    have hcleaned : RestsIn pm.cleaned pid executed remaining := h
    exact hcleaned.pruned _

/-- No call but a wakeup of `pid` ends the rest of `pid`. -/
theorem RestsIn.perform (h : RestsIn pm pid executed remaining) (hkeyed : pm.Keyed)
    (hexists : pm.pcbTable[pid]?.isSome) (op : ProcessOp)
    (hop : ∀ owner, op ≠ .wakeup owner pid) : RestsIn (pm.perform op) pid executed remaining := by
  cases op with
  | create owner name memKB memStart priority totalTime ppid =>
    exact h.keep fun _ _ hok => h.created hexists hok
  | kill owner k =>
    refine h.keep fun pm' rest hok => ?_
    obtain ⟨-, -, rfl⟩ := killProcess_spec hok
    exact h.pruned _
  | block owner k => exact h.block owner k
  | wakeup owner k =>
    have hk : k ≠ pid := fun heq => hop owner (heq ▸ rfl)
    exact h.keep fun _ _ hok => h.other hk (wakeupProcess_spec hok)
  | suspend owner k => exact h.suspend owner k
  | resume owner k => exact h.resume owner k
  | renice owner k priority => exact h.renice owner k priority
  | swapOut owner k =>
    refine h.keep fun pm' rest hok => ?_
    obtain ⟨old, hget, -, rfl⟩ := markSwappedOut_spec hok
    by_cases hk : k = pid
    · subst hk
      have hrests := h.owned hget
      exact RestsIn.set ⟨.inr (.inr rfl), hrests.executed_eq, hrests.remaining_eq⟩
    · refine h.of_eq ?_
      rw [relinked, KeyedTable.getElem?_insert, if_neg hk]
  | step owner memory => exact h.outcome (Scheduler.step_outcome owner memory hkeyed)

end ProcessManager

end OSCoreSim
