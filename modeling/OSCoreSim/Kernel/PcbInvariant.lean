import OSCoreSim.Kernel.Agreement
import OSCoreSim.Kernel.World
/-!
# Well-formed PCBs

Between two operations every PCB accounts for its time, stands at a level that its priority
allows with a full time slice, and is in one of the five states that outlast a step.  No bound
on the creations is needed: a creation whose PID is taken keeps the PCB that is there.
-/

namespace OSCoreSim

open ProcessManager CommandDispatcher

namespace ProcessManager

/-- What holds of a PCB between two operations. -/
structure WellFormed (pcb : PCB) : Prop where
  time : pcb.executedTime.toNat + pcb.remainingTime.toNat = pcb.totalTime.toNat
  remaining_pos : 0 < pcb.remainingTime
  priority : 0 ≤ pcb.priority ∧ pcb.priority ≤ 15
  level : queueLevelForPriority pcb.priority ≤ pcb.queueLevel ∧ pcb.queueLevel ≤ 2
  slice : pcb.timeSliceLeft = timeSliceForQueue pcb.queueLevel
  state : pcb.state = .ready ∨ pcb.state = .blocked ∨ pcb.state = .suspendedReady ∨
    pcb.state = .suspendedBlocked ∨ pcb.state = .swapped
  swapped : pcb.swappedOut = true ↔ pcb.state = .swapped

def ticked (pcb : PCB) : PCB :=
  { pcb with
    executedTime := pcb.executedTime + 1
    remainingTime := pcb.remainingTime - 1
    timeSliceLeft := if pcb.timeSliceLeft = 0 then 0 else pcb.timeSliceLeft - 1 }

/-- In `left` ticks `executedTime` neither wraps nor passes the total time, and `remainingTime`
does not go below 0. -/
def TickExact : ℕ → PCB → Prop
  | 0, _ => True
  | left + 1, pcb => pcb.remainingTime = 0 ∨
      (pcb.executedTime.toNat + 1 ≤ pcb.totalTime.toNat ∧ 1 ≤ pcb.remainingTime.toNat ∧
        TickExact left (ticked pcb))

variable {pcb pcb' : PCB} {priority : Int32}

theorem tickExact_of_time (h : pcb.executedTime.toNat + pcb.remainingTime.toNat =
    pcb.totalTime.toNat) (left : ℕ) : TickExact left pcb := by
  induction left generalizing pcb with
  | zero => trivial
  | succ left ih =>
    by_cases hzero : pcb.remainingTime = 0
    · exact .inl hzero
    · have hpos := toNat_pos hzero
      have htotal := pcb.totalTime.toNat_lt
      have hone : (1 : UInt32).toNat = 1 := rfl
      have hran : (pcb.executedTime + 1).toNat = pcb.executedTime.toNat + 1 := by
        rw [toNat_add_of_lt (by omega), hone]
      have hleft : (pcb.remainingTime - 1).toNat = pcb.remainingTime.toNat - 1 :=
        UInt32.toNat_sub_of_le _ _ (UInt32.le_iff_toNat_le.mpr (by omega))
      refine .inr ⟨by omega, by omega, ih ?_⟩
      simp only [ticked, hran, hleft]
      omega

/-! ## The changes of one PCB -/

theorem wellFormed_newPcb {pid ppid memKB memStart totalTime : UInt32} {owner name : Str}
    (hpriority : isValidPriority priority) (htime : totalTime ≠ 0) :
    WellFormed (newPcb pid ppid owner name memKB memStart priority totalTime) where
  time := Nat.zero_add _
  remaining_pos := UInt32.pos_iff_ne_zero.mpr htime
  priority := isValidPriority_iff.mp hpriority
  level := ⟨Int32.le_refl _, (queueLevelForPriority_range _).2⟩
  slice := rfl
  state := .inl rfl
  swapped := by simp [newPcb]

theorem WellFormed.frame (h : WellFormed pcb) (memStart : UInt32) (children : List UInt32) :
    WellFormed { pcb with memStart := memStart, children := children } :=
  { h with }

theorem WellFormed.transition (h : WellFormed pcb) (ht : Transition pcb pcb') :
    WellFormed pcb' := by
  -- a transition changes the state of a resident process, or renices
  have hstate : ∀ state : ProcessState, pcb.state ≠ .swapped → state ≠ .swapped →
      (state = .ready ∨ state = .blocked ∨ state = .suspendedReady ∨ state = .suspendedBlocked ∨
        state = .swapped) → WellFormed { pcb with state := state } := by
    intro state hold hnew hcases
    have hresident : pcb.swappedOut ≠ true := fun hswap => hold (h.swapped.mp hswap)
    exact { h with
      state := hcases
      swapped := ⟨fun hswap => absurd hswap hresident, fun hswap => absurd hswap hnew⟩ }
  cases ht with
  | block hready =>
    have hold : pcb.state ≠ .swapped := by rcases hready with heq | heq <;> simp [heq]
    exact hstate .blocked hold (by simp) (by simp)
  | wakeup hblocked => exact hstate .ready (by simp [hblocked]) (by simp) (by simp)
  | suspendReady hready =>
    have hold : pcb.state ≠ .swapped := by rcases hready with heq | heq <;> simp [heq]
    exact hstate .suspendedReady hold (by simp) (by simp)
  | suspendBlocked hblocked => exact hstate .suspendedBlocked (by simp [hblocked]) (by simp) (by simp)
  | resumeReady hready => exact hstate .ready (by simp [hready]) (by simp) (by simp)
  | resumeBlocked hblocked => exact hstate .blocked (by simp [hblocked]) (by simp) (by simp)
  | renice priority hvalid =>
    exact { h with
      priority := isValidPriority_iff.mp hvalid
      level := ⟨Int32.le_refl _, (queueLevelForPriority_range _).2⟩
      slice := rfl }

theorem WellFormed.swappedPcb (h : WellFormed pcb) : WellFormed (swappedPcb pcb) :=
  { h with
    state := .inr (.inr (.inr (.inr rfl)))
    swapped := ⟨fun _ => rfl, fun _ => rfl⟩ }

theorem WellFormed.afterSlice (h : WellFormed pcb) (hswap : pcb.swappedOut = false)
    (hleft : timeSliceForQueue pcb.queueLevel < pcb.remainingTime) : WellFormed (afterSlice pcb) := by
  have hlt := UInt32.lt_iff_toNat_lt.mp hleft
  have htime := h.time
  have htotal := pcb.totalTime.toNat_lt
  have hran : (pcb.executedTime + timeSliceForQueue pcb.queueLevel).toNat =
      pcb.executedTime.toNat + (timeSliceForQueue pcb.queueLevel).toNat := by
    rw [toNat_add_of_lt (by omega)]
  have hrest : (pcb.remainingTime - timeSliceForQueue pcb.queueLevel).toNat =
      pcb.remainingTime.toNat - (timeSliceForQueue pcb.queueLevel).toNat :=
    UInt32.toNat_sub_of_le _ _ (UInt32.le_of_lt hleft)
  exact {
    time := by
      simp only [ProcessManager.afterSlice, hran, hrest]
      omega
    remaining_pos := by
      rw [UInt32.lt_iff_toNat_lt]
      simp only [ProcessManager.afterSlice, hrest]
      show 0 < _
      omega
    priority := h.priority
    level := by
      have hlow := Int32.le_trans (queueLevelForPriority_range pcb.priority).1 h.level.1
      obtain ⟨hdown, hlast⟩ := demotedLevel_range hlow h.level.2
      exact ⟨Int32.le_trans h.level.1 hdown, hlast⟩
    slice := rfl
    state := .inl rfl
    swapped := by simp [ProcessManager.afterSlice, hswap] }

/-! ## The table -/

structure Healthy (pm : ProcessManager) : Prop where
  keyed : pm.Keyed
  wellFormed : ∀ (k : UInt32) (pcb : PCB), pm.pcbTable[k]? = some pcb → WellFormed pcb

variable {pm pm' : ProcessManager} {mm : MemoryManager} {owner : Str} {pid : UInt32}

theorem healthy_empty : Healthy {} :=
  ⟨fun k pcb hget => by simp at hget, fun k pcb hget => by simp at hget⟩

/-- Every PCB of the new table comes from one of the old, up to its start and its children. -/
theorem Healthy.of_frame (h : Healthy pm) (hframe : ∀ (k : UInt32) (pcb' : PCB),
    pm'.pcbTable[k]? = some pcb' → ∃ pcb memStart children, pm.pcbTable[k]? = some pcb ∧
      pcb' = { pcb with memStart := memStart, children := children }) : Healthy pm' := by
  refine ⟨fun k pcb' hget => ?_, fun k pcb' hget => ?_⟩
  · obtain ⟨pcb, memStart, children, hold, rfl⟩ := hframe k pcb' hget
    exact h.keyed k pcb hold
  · obtain ⟨pcb, memStart, children, hold, rfl⟩ := hframe k pcb' hget
    exact (h.wellFormed k pcb hold).frame memStart children

theorem Healthy.store (h : Healthy pm) (hget : pm.pcbTable[pid]? = some pcb)
    (hpid : pcb'.pid = pcb.pid) (hpcb : WellFormed pcb')
    (htable : pm'.pcbTable = pm.pcbTable.insert pid pcb') : Healthy pm' := by
  refine ⟨h.keyed.insert hget hpid htable, fun k found hfound => ?_⟩
  rw [htable, KeyedTable.getElem?_insert] at hfound
  split at hfound
  · cases hfound
    exact hpcb
  · exact h.wellFormed k found hfound

theorem Healthy.pruned (h : Healthy pm) (removed : List UInt32) : Healthy (pm.pruned removed) := by
  refine h.of_frame fun k pcb' hget => ?_
  obtain ⟨-, pcb, hold, rfl⟩ := pruned_eq_some.mp hget
  exact ⟨pcb, pcb.memStart, _, hold, rfl⟩

theorem Healthy.created {name message : Str} {memKB memStart totalTime : UInt32}
    {ppid : Option UInt32} (h : Healthy pm)
    (hcreate : pm.createProcessWithMemory owner name memKB memStart priority totalTime ppid =
      .ok (pm', pid, message)) : Healthy pm' := by
  refine ⟨fun k pcb' hget => ?_, fun k pcb' hget => ?_⟩
  · obtain ⟨-, -, pcb, children, rfl, hold | ⟨hk, rfl⟩⟩ :=
      createProcessWithMemory_getElem? hcreate hget
    · exact h.keyed k pcb hold
    · exact hk.symm
  · obtain ⟨hpriority, htime, pcb, children, rfl, hold | ⟨-, rfl⟩⟩ :=
      createProcessWithMemory_getElem? hcreate hget
    · exact (h.wellFormed k pcb hold).frame pcb.memStart children
    · exact (wellFormed_newPcb hpriority htime).frame _ children

theorem Healthy.outcome {mm' : MemoryManager} (h : Healthy pm)
    (ho : Scheduler.Outcome owner pm mm pm' mm') : Healthy pm' := by
  have hcleaned : Healthy pm.cleaned := ⟨h.keyed, h.wellFormed⟩
  cases ho with
  | idle => exact hcleaned
  | requeue pid pcb _ hget _ hswap hleft =>
    have htable := (ownedPcb_eq_some.mp hget).1
    have hpcb := (h.wellFormed pid pcb htable).afterSlice hswap hleft
    exact hcleaned.store htable (by rfl) hpcb rfl
  | finish => exact hcleaned.pruned _

end ProcessManager

namespace Kernel

variable {cause : Cause} {owner : Str} {pm pm' : ProcessManager} {mm mm' : MemoryManager}

theorem healthy_action (h : Healthy pm) (ha : Action cause owner pm mm pm' mm') : Healthy pm' := by
  cases ha with
  | alloc | free | setAlgorithm => exact h
  | compact =>
    refine h.of_frame fun k pcb' hget => ?_
    rw [updateStarts_getElem?] at hget
    obtain ⟨pcb, hold, rfl⟩ := Option.map_eq_some_iff.mp hget
    exact ⟨pcb, _, pcb.children, hold, rfl⟩
  | swapOut pid hmem hmark =>
    obtain ⟨pcb, hget, -, rfl⟩ := markSwappedOut_spec hmark
    have htable := (ownedPcb_eq_some.mp hget).1
    have hpcb := (h.wellFormed pid pcb htable).swappedPcb
    exact h.store htable (by rfl) hpcb rfl
  | kill pid hcause hkill =>
    obtain ⟨-, -, rfl⟩ := killProcess_spec hkill
    exact h.pruned _
  | rewrite pid hr =>
    obtain ⟨pcb, pcb', hget, ht, hs⟩ := hr
    have htable := (ownedPcb_eq_some.mp hget).1
    exact h.store htable ht.pid_eq ((h.wellFormed pid pcb htable).transition ht) hs.pcbTable_eq
  | step => exact h.outcome (Scheduler.step_outcome owner mm h.keyed)

theorem healthy_change {command : Command} {k k' : Kernel} {success : Bool}
    (h : Healthy k.processManager) (hc : Change command k k' success) :
    Healthy k'.processManager := by
  cases hc with
  | create owner args hname hlogin hargs halloc hcreate => exact h.created hcreate
  | act owner hlogin ha => exact healthy_action h ha
  | restart => exact ⟨h.keyed, h.wellFormed⟩
  | _ => exact h

end Kernel

namespace World

open Kernel

theorem healthy_step {w : World} {event : Event} (h : Healthy w.kernel.processManager)
    (hload : ¬event.Named (str "load")) : Healthy (w.step event).kernel.processManager := by
  apply step_keeps (P := fun k => Healthy k.processManager) hload
  · exact fun _ hc => healthy_change h hc
  · exact tick_keeps (P := fun k => Healthy k.processManager) h fun _ ha => healthy_action h ha

theorem healthy_run {w : World} {events : List Event} (hempty : w.kernel.processManager = {})
    (hload : NoLoad events) : Healthy (Runs.run step w events).kernel.processManager :=
  Runs.run_invariant' (P := fun w : World => Healthy w.kernel.processManager)
    (fun _ _ h hok => healthy_step h hok) (hempty ▸ healthy_empty)
    (hload.permitted w)

/-- In every run without `load` that starts without processes, every PCB is well formed between
two events, and the ticks of its next quantum stay within its total time. -/
theorem wellFormed_of_run {w : World} {events : List Event} (hempty : w.kernel.processManager = {})
    (hload : NoLoad events) (pid : UInt32) (pcb : PCB)
    (hget : (Runs.run step w events).kernel.processManager.pcbTable[pid]? = some pcb) :
    WellFormed pcb ∧ TickExact (timeSliceForQueue pcb.queueLevel).toNat pcb := by
  have hpcb := (healthy_run hempty hload).wellFormed pid pcb hget
  exact ⟨hpcb, tickExact_of_time hpcb.time _⟩

/-- A process that has been run for one quantum and swapped out. -/
theorem wellFormed_of_run_swapped :
    let w : World := { kernel := Kernel.start {} ∅ }
    let events := [console "register a pw", console "login a pw", console "create_pcb p 4 1 5",
      console "step", console "swap_out 1"]
    ∃ pcb, (Runs.run step w events).kernel.processManager.pcbTable[(1 : UInt32)]? = some pcb ∧
      WellFormed pcb ∧ TickExact (timeSliceForQueue pcb.queueLevel).toNat pcb := by
  intro w events
  have hempty : w.kernel.processManager = {} := (clean_start {} ∅ fun _ h => by cases h).processes
  have hlive : ((Runs.run step w events).kernel.processManager.pcbTable[(1 : UInt32)]?).isSome := by
    decide +kernel
  obtain ⟨pcb, hget⟩ := Option.isSome_iff_exists.mp hlive
  exact ⟨pcb, hget, wellFormed_of_run hempty (by decide) 1 pcb hget⟩

end World

end OSCoreSim
