import OSCoreSim.Process.Scheduler
import OSCoreSim.Process.Transitions
/-!
# What one scheduling decision does

After the cleanup every queue entry is schedulable, so the pick takes one entry of the
owner or none.  The picked process either completes within its quantum, and its subtree
goes away together with its memory, or it uses the whole quantum and comes back at the
next lower level.
-/

namespace OSCoreSim

namespace ProcessManager

variable {pm : ProcessManager} {owner : Str} {pid : UInt32} {pcb : PCB}

/-! ## The tick loop -/

theorem tickLoop_spec (pid ticks : UInt32) (left tick : ℕ) (pcb : PCB) :
    ∃ slice, (tickLoop pid ticks left tick pcb).1 = { pcb with
      executedTime := pcb.executedTime + UInt32.ofNat (min left pcb.remainingTime.toNat)
      remainingTime := pcb.remainingTime - UInt32.ofNat (min left pcb.remainingTime.toNat)
      timeSliceLeft := slice } := by
  induction left generalizing tick pcb with
  | zero => exact ⟨pcb.timeSliceLeft, by simp [tickLoop]⟩
  | succ left ih =>
    unfold tickLoop
    by_cases hzero : pcb.remainingTime = 0
    · have hnat : pcb.remainingTime.toNat = 0 := by rw [hzero]; rfl
      refine ⟨pcb.timeSliceLeft, ?_⟩
      rw [if_pos hzero]
      simp [hnat]
    · have hpos := toNat_pos hzero
      have hone : (1 : UInt32) ≤ pcb.remainingTime := by
        rw [UInt32.le_iff_toNat_le]
        show 1 ≤ _
        omega
      have hpred : (pcb.remainingTime - 1).toNat = pcb.remainingTime.toNat - 1 :=
        UInt32.toNat_sub_of_le _ _ hone
      have hmin : min (left + 1) pcb.remainingTime.toNat =
          min left (pcb.remainingTime.toNat - 1) + 1 := by omega
      simp only [hzero, if_false]
      obtain ⟨slice, hslice⟩ := ih (tick + 1) { pcb with
        executedTime := pcb.executedTime + 1
        remainingTime := pcb.remainingTime - 1
        timeSliceLeft := if pcb.timeSliceLeft = 0 then 0 else pcb.timeSliceLeft - 1 }
      refine ⟨slice, hslice.trans ?_⟩
      simp only [hpred, hmin, UInt32.ofNat_add]
      congr 1 <;> grind

/-! ## Cleanup and pick -/

def cleaned (pm : ProcessManager) : ProcessManager := pm.cleanupInvalidReadyQueueEntries.1

@[simp] theorem cleaned_pcbTable : pm.cleaned.pcbTable = pm.pcbTable := rfl

@[simp] theorem cleaned_nextPid : pm.cleaned.nextPid = pm.nextPid := rfl

theorem isSchedulable_iff : pm.isSchedulable pid = true ↔
    ∃ pcb, pm.pcbTable[pid]? = some pcb ∧ pcb.state = .ready ∧ pcb.swappedOut = false := by
  unfold isSchedulable
  cases pm.pcbTable[pid]? <;> simp

/-- A schedulable entry is taken, or passed over when it belongs to another user. -/
theorem pickFromQueue_cons {k : UInt32} (owner : Str) (h : pm.isSchedulable k)
    (rest : List UInt32) : pm.pickFromQueue owner (k :: rest) =
      if pm.hasProcess owner k then (rest, some k)
      else (k :: (pm.pickFromQueue owner rest).1, (pm.pickFromQueue owner rest).2) := by
  obtain ⟨pcb, hget, hready, hswap⟩ := isSchedulable_iff.mp h
  have hpass : ¬(pcb.state ≠ .ready ∨ pcb.swappedOut = true) := by simp [hready, hswap]
  rw [pickFromQueue]
  simp only [hget, if_neg hpass]
  by_cases howner : pcb.owner = owner
  · have hhas : pm.hasProcess owner k = true := hasProcess_iff.mpr ⟨pcb, hget, howner⟩
    simp only [howner, hhas, ne_eq, not_true_eq_false, if_false, if_true]
  · have hforeign : pm.hasProcess owner k = false := by simp [hasProcess, ownedPcb, hget, howner]
    simp only [howner, hforeign, ne_eq, not_false_eq_true, if_true, Bool.false_eq_true, if_false]

theorem pickFromQueue_spec (owner : Str) {queue : List UInt32}
    (h : ∀ k ∈ queue, pm.isSchedulable k) :
    (pm.pickFromQueue owner queue = (queue, none) ∧
        ∀ k ∈ queue, pm.hasProcess owner k = false) ∨
      ∃ l k r, queue = l ++ k :: r ∧ pm.pickFromQueue owner queue = (l ++ r, some k) ∧
        pm.hasProcess owner k := by
  induction queue with
  | nil => exact .inl ⟨rfl, by simp⟩
  | cons k rest ih =>
    rw [pickFromQueue_cons owner (h k List.mem_cons_self)]
    cases howner : pm.hasProcess owner k with
    | true => exact .inr ⟨[], k, rest, rfl, rfl, howner⟩
    | false =>
      rcases ih fun x hx => h x (List.mem_cons_of_mem k hx) with
        ⟨heq, hnone⟩ | ⟨l, x, r, rfl, heq, hx⟩
      · rw [heq]
        refine .inl ⟨rfl, fun x hx => ?_⟩
        rcases List.mem_cons.mp hx with rfl | hx
        · exact howner
        · exact hnone x hx
      · rw [heq]
        exact .inr ⟨k :: l, x, r, rfl, rfl, hx⟩

/-- Taking an entry of the owner leaves queues that differ in this entry only. -/
theorem pickFromLevels_spec (owner : Str) {queues : ReadyQueues}
    (h : ∀ q, ∀ k ∈ queues q, pm.isSchedulable k) (levels : List (Fin 3)) :
    (pm.pickFromLevels owner levels queues = (queues, none) ∧
        ∀ q ∈ levels, ∀ k ∈ queues q, pm.hasProcess owner k = false) ∨
      ∃ left k, pm.pickFromLevels owner levels queues = (left, some k) ∧
        (∃ q ∈ levels, k ∈ queues q) ∧ pm.hasProcess owner k ∧
        ∀ q, (left q).filter (· ≠ k) = (queues q).filter (· ≠ k) := by
  induction levels with
  | nil => exact .inl ⟨rfl, by simp⟩
  | cons q rest ih =>
    unfold pickFromLevels
    rcases pickFromQueue_spec owner (h q) with ⟨heq, hnone⟩ | ⟨l, k, r, hq, heq, hk⟩
    · simp only [heq, Function.update_eq_self]
      rcases ih with ⟨hrest, hall⟩ | ⟨left, k, hrest, ⟨q', hq', hmem⟩, hk, hleft⟩
      · refine .inl ⟨hrest, fun q' hq' => ?_⟩
        rcases List.mem_cons.mp hq' with rfl | hq'
        · exact hnone
        · exact hall q' hq'
      · exact .inr ⟨left, k, hrest, ⟨q', List.mem_cons_of_mem q hq', hmem⟩, hk, hleft⟩
    · simp only [heq]
      refine .inr ⟨_, k, rfl, ⟨q, List.mem_cons_self, by simp [hq]⟩, hk, fun q' => ?_⟩
      by_cases hqq : q' = q
      · subst hqq
        simp [hq]
      · simp [Function.update_of_ne hqq]

def selectedPid (pm : ProcessManager) (owner : Str) : Option UInt32 :=
  (pm.cleaned.pickNextReadyProcess owner).2

theorem pickNextReadyProcess_spec (pm : ProcessManager) (owner : Str) :
    (pm.cleaned.pickNextReadyProcess owner = (pm.cleaned, none) ∧
        ∀ q, ∀ k ∈ pm.cleaned.readyQueues q, pm.hasProcess owner k = false) ∨
      ∃ picked k pcb, pm.cleaned.pickNextReadyProcess owner = (picked, some k) ∧
        pm.pcbTable[k]? = some pcb ∧ pcb.owner = owner ∧ pcb.state = .ready ∧
        pcb.swappedOut = false ∧ (∃ q, k ∈ pm.readyQueues q) ∧
        picked.pcbTable = pm.pcbTable ∧ picked.nextPid = pm.nextPid ∧
        picked.removeFromReadyQueues k = pm.cleaned.removeFromReadyQueues k := by
  have hclean : ∀ q, ∀ k ∈ pm.cleaned.readyQueues q, pm.cleaned.isSchedulable k := by
    intro q k hk
    exact (List.mem_filter.mp hk).2
  unfold pickNextReadyProcess
  rcases pickFromLevels_spec owner hclean (List.finRange 3) with
    ⟨heq, hnone⟩ | ⟨left, k, heq, ⟨q, -, hmem⟩, hk, hleft⟩
  · rw [heq]
    exact .inl ⟨rfl, fun q k hk => hnone q (List.mem_finRange q) k hk⟩
  · rw [heq]
    obtain ⟨pcb, hget, howner⟩ := hasProcess_iff.mp hk
    obtain ⟨pcb', hget', hready, hswap⟩ := isSchedulable_iff.mp (hclean q k hmem)
    obtain rfl := Option.some.inj (hget.symm.trans hget')
    refine .inr ⟨_, k, pcb, rfl, hget, howner, hready, hswap,
      ⟨q, (List.mem_filter.mp hmem).1⟩, rfl, rfl, ?_⟩
    simp only [removeFromReadyQueues]
    congr 1
    funext q
    exact hleft q

/-! ## The selected process -/

def demotedLevel (level : Int32) : Int32 := if level < 2 then level + 1 else level

theorem isValidPriority_iff {priority : Int32} :
    isValidPriority priority = true ↔ 0 ≤ priority ∧ priority ≤ 15 := by
  simp [isValidPriority]

theorem queueLevelForPriority_range (priority : Int32) :
    0 ≤ queueLevelForPriority priority ∧ queueLevelForPriority priority ≤ 2 := by
  unfold queueLevelForPriority
  split
  · decide
  split <;> decide

theorem demotedLevel_range {level : Int32} (hlow : 0 ≤ level) (hhigh : level ≤ 2) :
    level ≤ demotedLevel level ∧ demotedLevel level ≤ 2 := by
  have hlow := Int32.le_iff_toInt_le.mp hlow
  have hhigh := Int32.le_iff_toInt_le.mp hhigh
  have hzero : (0 : Int32).toInt = 0 := rfl
  have hone : (1 : Int32).toInt = 1 := rfl
  have htwo : (2 : Int32).toInt = 2 := rfl
  have hcases : level = 0 ∨ level = 1 ∨ level = 2 := by
    simp only [← Int32.toInt_inj]
    omega
  rcases hcases with rfl | rfl | rfl <;> decide

def afterSlice (pcb : PCB) : PCB :=
  { pcb with
    state := .ready
    queueLevel := demotedLevel pcb.queueLevel
    executedTime := pcb.executedTime + timeSliceForQueue pcb.queueLevel
    remainingTime := pcb.remainingTime - timeSliceForQueue pcb.queueLevel
    timeSliceLeft := timeSliceForQueue (demotedLevel pcb.queueLevel) }

theorem timeSliceForQueue_ne_zero (level : Int32) : timeSliceForQueue level ≠ 0 := by
  unfold timeSliceForQueue
  split
  · decide
  · split <;> decide

def ranFor (pcb : PCB) (n slice : UInt32) : PCB :=
  { pcb with
    state := .running
    executedTime := pcb.executedTime + n
    remainingTime := pcb.remainingTime - n
    timeSliceLeft := slice }

def started (pcb : PCB) (slice : UInt32) : PCB :=
  { pcb with state := .running, timeSliceLeft := slice }

theorem markRunning_spec (hget : pm.pcbTable[pid]? = some pcb) (hready : pcb.state = .ready)
    (hswap : pcb.swappedOut = false) :
    ∃ slice, pm.markRunning pid = some (pm.relinked pid (started pcb slice)) := by
  have hpass : ¬(pcb.state ≠ .ready ∨ pcb.swappedOut = true) := by simp [hready, hswap]
  have hrefill : ∃ slice, refillSlice { pcb with state := .running } = started pcb slice := by
    unfold refillSlice
    split
    · exact ⟨_, rfl⟩
    · exact ⟨pcb.timeSliceLeft, rfl⟩
  obtain ⟨slice, hslice⟩ := hrefill
  refine ⟨slice, ?_⟩
  simp only [markRunning, hget, if_neg hpass, hslice]
  rw [remove_setPcb (by simp [started])]

theorem markRunning_tick (hget : pm.pcbTable[pid]? = some pcb) (hready : pcb.state = .ready)
    (hswap : pcb.swappedOut = false) :
    ∃ running slice log, pm.markRunning pid = some running ∧
      running.tickProcess pid (timeSliceForQueue pcb.queueLevel) =
        .ok (pm.relinked pid (ranFor pcb (UInt32.ofNat
          (min (timeSliceForQueue pcb.queueLevel).toNat pcb.remainingTime.toNat)) slice), log) := by
  obtain ⟨slice, hmark⟩ := markRunning_spec hget hready hswap
  obtain ⟨slice', htick⟩ := tickLoop_spec pid (timeSliceForQueue pcb.queueLevel)
    (timeSliceForQueue pcb.queueLevel).toNat 1 (started pcb slice)
  have hrunning : (pm.relinked pid (started pcb slice)).pcbTable[pid]? =
      some (started pcb slice) := by simp [relinked]
  have htest : ¬((started pcb slice).state ≠ .running ∨
      timeSliceForQueue pcb.queueLevel = 0) := by
    simp [started, timeSliceForQueue_ne_zero]
  refine ⟨_, slice', popNewline (tickLoop pid (timeSliceForQueue pcb.queueLevel)
    (timeSliceForQueue pcb.queueLevel).toNat 1 (started pcb slice)).2, hmark, ?_⟩
  unfold tickProcess
  simp only [hrunning, if_neg htest, htick]
  rw [relinked_setPcb (by simp [started]) (by simp [started])]
  rfl

def demoted (pcb : PCB) : PCB :=
  { pcb with
    queueLevel := demotedLevel pcb.queueLevel
    timeSliceLeft := timeSliceForQueue (demotedLevel pcb.queueLevel) }

theorem relinked_demoteProcess (pm : ProcessManager) (pid : UInt32) {pcb : PCB}
    (h : pcb.state ≠ .ready) :
    (pm.relinked pid pcb).demoteProcess pid = pm.relinked pid (demoted pcb) := by
  have h' : (demoted pcb).state ≠ .ready := h
  simp only [relinked, demoteProcess]
  congr 1
  · apply Std.ExtTreeMap.ext_getElem?
    intro a
    simp only [KeyedTable.getElem?_insert, KeyedTable.getElem?_modify]
    split <;> rfl
  · funext q
    simp [requeued, readyLevel_of_ne h, readyLevel_of_ne h']

theorem requeue_ran {n slice : UInt32} (hn : n = timeSliceForQueue pcb.queueLevel)
    (hswap : pcb.swappedOut = false) :
    (Scheduler.requeue pid pcb.queueLevel true (pm.relinked pid (ranFor pcb n slice))).1 =
      pm.relinked pid (afterSlice pcb) := by
  have hrunning : (ranFor pcb n slice).state ≠ .ready := by simp [ranFor]
  have hdemote := relinked_demoteProcess pm pid hrunning
  have hget : (pm.relinked pid (demoted (ranFor pcb n slice))).pcbTable[pid]? =
      some (demoted (ranFor pcb n slice)) := by simp [relinked]
  have hmark : (pm.relinked pid (demoted (ranFor pcb n slice))).markReady pid =
      (pm.relinked pid (demoted (ranFor pcb n slice))).setPcb pid (afterSlice pcb) := by
    have hpass : ¬((demoted (ranFor pcb n slice)).state = .terminated ∨
        (demoted (ranFor pcb n slice)).state = .swapped ∨
        (demoted (ranFor pcb n slice)).swappedOut = true) := by
      simp [demoted, ranFor, hswap]
    unfold markReady
    simp only [hget, if_neg hpass]
    congr 1
    simp [refillSlice, timeSliceForQueue_ne_zero, afterSlice, demoted, ranFor, hn]
  have hsched : ((pm.relinked pid (demoted (ranFor pcb n slice))).setPcb pid
      (afterSlice pcb)).isSchedulable pid = true :=
    isSchedulable_iff.mpr ⟨afterSlice pcb, by simp [setPcb], rfl, hswap⟩
  simp only [Scheduler.requeue, if_true, hdemote, hmark, enqueueReadyProcess, hsched]
  rw [setPcb_enqueueReady rfl, relinked_relinked]

/-! ## Completion -/

theorem subtree_congr {pm pm' : ProcessManager}
    (hsize : pm'.pcbTable.size = pm.pcbTable.size)
    (hnext : ∀ k, pm'.ownedChildren owner k = pm.ownedChildren owner k) :
    pm'.subtree owner pid = pm.subtree owner pid := by
  have hfun : pm'.ownedChildren owner = pm.ownedChildren owner := funext hnext
  simp only [subtree, collectSubtree_eq, hsize, hfun]

/-- Rewriting a PCB without touching its owner and children keeps every subtree. -/
theorem subtree_relinked {pcb' : PCB} (owner : Str) (root : UInt32)
    (hget : pm.pcbTable[pid]? = some pcb)
    (howner : pcb'.owner = pcb.owner) (hchildren : pcb'.children = pcb.children) :
    (pm.relinked pid pcb').subtree owner root = pm.subtree owner root := by
  have hmem : pid ∈ pm.pcbTable :=
    Std.ExtTreeMap.mem_iff_isSome_getElem?.mpr (by simp [hget])
  refine subtree_congr (by simp [relinked, Std.ExtTreeMap.size_insert, hmem]) fun k => ?_
  unfold ownedChildren ownedPcb
  by_cases hk : pid = k
  · subst hk
    simp only [relinked, Std.ExtTreeMap.getElem?_insert_self, hget, howner]
    split <;> simp [hchildren]
  · simp [relinked, KeyedTable.getElem?_insert, hk]

theorem pruned_relinked {pcb' : PCB} {removed : List UInt32} (hmem : pid ∈ removed) :
    (pm.relinked pid pcb').pruned removed = pm.pruned removed := by
  simp only [pruned]
  congr 1
  · apply Std.ExtTreeMap.ext_getElem?
    intro k
    simp only [KeyedTable.getElem?_foldl_erase, Std.ExtTreeMap.getElem?_map, relinked,
      KeyedTable.getElem?_insert]
    by_cases hk : k ∈ removed
    · simp [hk]
    · have hne : pid ≠ k := fun h => hk (h ▸ hmem)
      simp [hk, hne]
  · funext q
    by_cases hq : readyLevel pcb' = some q
    · simp only [relinked, requeued, hq, if_true, List.filter_append, List.filter_filter]
      have hpid : List.filter (fun x => decide (x ∉ removed)) [pid] = [] := by simp [hmem]
      rw [hpid, List.append_nil]
      refine List.filter_congr fun x _ => ?_
      by_cases hx : x = pid
      · simp [hx, hmem]
      · simp [hx]
    · simp only [relinked, requeued, hq, if_false, List.append_nil, List.filter_filter]
      refine List.filter_congr fun x _ => ?_
      by_cases hx : x = pid
      · simp [hx, hmem]
      · simp [hx]

end ProcessManager

namespace Scheduler

open ProcessManager

variable {owner : Str} {pm : ProcessManager} {mm : MemoryManager}

/-- The three results of a step. -/
inductive Outcome (owner : Str) (pm : ProcessManager) (mm : MemoryManager) :
    ProcessManager → MemoryManager → Prop
  | idle (hsel : pm.selectedPid owner = none) : Outcome owner pm mm pm.cleaned mm
  | requeue (pid : UInt32) (pcb : PCB) (hsel : pm.selectedPid owner = some pid)
      (hget : pm.ownedPcb owner pid = some pcb) (hready : pcb.state = .ready)
      (hswap : pcb.swappedOut = false)
      (hleft : timeSliceForQueue pcb.queueLevel < pcb.remainingTime) :
      Outcome owner pm mm (pm.cleaned.relinked pid (afterSlice pcb)) mm
  | finish (pid : UInt32) (pcb : PCB) (hsel : pm.selectedPid owner = some pid)
      (hget : pm.ownedPcb owner pid = some pcb) (hready : pcb.state = .ready)
      (hswap : pcb.swappedOut = false)
      (hlast : pcb.remainingTime ≤ timeSliceForQueue pcb.queueLevel) :
      Outcome owner pm mm (pm.cleaned.pruned (pm.subtree owner pid))
        (releaseAll owner mm (pm.subtree owner pid)).1

theorem Outcome.nextPid_eq {pm' : ProcessManager} {mm' : MemoryManager}
    (h : Outcome owner pm mm pm' mm') : pm'.nextPid = pm.nextPid := by
  cases h <;> rfl

theorem finish_spec (mm : MemoryManager) {pid : UInt32} (h : pm.hasProcess owner pid) :
    (finish owner pid pm mm).1 = pm.pruned (pm.subtree owner pid) ∧
      (finish owner pid pm mm).2.1 = (releaseAll owner mm (pm.subtree owner pid)).1 := by
  obtain ⟨message, hkill⟩ := killProcess_of_hasProcess h
  simp only [finish, hkill, and_self]

theorem step_outcome (owner : Str) (mm : MemoryManager) (hkeyed : pm.Keyed) :
    Outcome owner pm mm (step owner pm mm).1 (step owner pm mm).2.1 := by
  rcases pickNextReadyProcess_spec pm owner with
    ⟨hpick, -⟩ | ⟨picked, pid, pcb, hpick, hget, howner, hready, hswap, -, htable, hnext, hremove⟩
  · have hsel : pm.selectedPid owner = none := by rw [selectedPid, hpick]
    have hstep : (step owner pm mm).1 = pm.cleaned ∧ (step owner pm mm).2.1 = mm := by
      unfold cleaned at hpick
      unfold step
      simp only [hpick, cleaned, and_self]
    rw [hstep.1, hstep.2]
    exact .idle hsel
  have hsel : pm.selectedPid owner = some pid := by rw [selectedPid, hpick]
  have howned : pm.ownedPcb owner pid = some pcb := ownedPcb_eq_some.mpr ⟨hget, howner⟩
  have hpid : pcb.pid = pid := hkeyed pid pcb hget
  have hget' : picked.pcbTable[pid]? = some pcb := by rw [htable, hget]
  have hstep : (step owner pm mm).1 = (runSelected owner pcb picked mm).1 ∧
      (step owner pm mm).2.1 = (runSelected owner pcb picked mm).2.1 := by
    unfold cleaned at hpick
    unfold step
    simp only [hpick, hget', and_self]
  have hrelink : ∀ pcb', picked.relinked pid pcb' = pm.cleaned.relinked pid pcb' := by
    intro pcb'
    rw [← relinked_remove, hremove, relinked_remove]
  obtain ⟨running, slice, log, hmark, htick⟩ := markRunning_tick hget' hready hswap
  rw [hstep.1, hstep.2]
  rw [hrelink] at htick
  have hran : ∀ pcb', (pm.cleaned.relinked pid pcb').pcbTable[pid]? = some pcb' := by
    intro pcb'
    simp [relinked]
  unfold runSelected
  simp only [hpid, hmark, htick, hran]
  -- the loop stops early exactly when the remaining time runs out
  by_cases hlast : pcb.remainingTime ≤ timeSliceForQueue pcb.queueLevel
  · have hle := UInt32.le_iff_toNat_le.mp hlast
    have hmin : UInt32.ofNat (min (timeSliceForQueue pcb.queueLevel).toNat
        pcb.remainingTime.toNat) = pcb.remainingTime := by
      rw [Nat.min_eq_right hle, UInt32.ofNat_toNat]
    simp only [hmin]
    have hzero : (ranFor pcb pcb.remainingTime slice).remainingTime = 0 := by simp [ranFor]
    rw [if_pos hzero]
    have hhas : (pm.cleaned.relinked pid (ranFor pcb pcb.remainingTime slice)).hasProcess owner
        pid = true := hasProcess_iff.mpr ⟨_, hran _, howner⟩
    have hget'' : pm.cleaned.pcbTable[pid]? = some pcb := hget
    have hsub : (pm.cleaned.relinked pid (ranFor pcb pcb.remainingTime slice)).subtree owner pid =
        pm.cleaned.subtree owner pid := subtree_relinked owner pid hget'' rfl rfl
    obtain ⟨hprocs, hmem⟩ := finish_spec mm hhas
    have hroot := (subtree_spec (hasProcess_iff.mpr ⟨pcb, hget'', howner⟩)).1
    have hsame : pm.cleaned.subtree owner pid = pm.subtree owner pid :=
      subtree_congr rfl fun _ => rfl
    simp only [hprocs, hmem, hsub]
    rw [pruned_relinked hroot, hsame]
    exact .finish pid pcb hsel howned hready hswap hlast
  · have hlt := UInt32.not_le.mp hlast
    have hlt' := UInt32.lt_iff_toNat_lt.mp hlt
    have hmin : UInt32.ofNat (min (timeSliceForQueue pcb.queueLevel).toNat
        pcb.remainingTime.toNat) = timeSliceForQueue pcb.queueLevel := by
      rw [Nat.min_eq_left (Nat.le_of_lt hlt'), UInt32.ofNat_toNat]
    simp only [hmin]
    have hne : (ranFor pcb (timeSliceForQueue pcb.queueLevel) slice).remainingTime ≠ 0 := by
      intro hzero
      have hsub := UInt32.toNat_sub_of_le pcb.remainingTime _ (UInt32.le_of_lt hlt)
      rw [show pcb.remainingTime - timeSliceForQueue pcb.queueLevel = 0 from hzero] at hsub
      have h0 : (0 : UInt32).toNat = 0 := rfl
      omega
    rw [if_neg hne]
    have hused : decide (timeSliceForQueue pcb.queueLevel ≤
        (ranFor pcb (timeSliceForQueue pcb.queueLevel) slice).executedTime - pcb.executedTime) =
        true := by
      have heq : (ranFor pcb (timeSliceForQueue pcb.queueLevel) slice).executedTime -
          pcb.executedTime = timeSliceForQueue pcb.queueLevel := by
        simp only [ranFor]
        rw [UInt32.add_comm, UInt32.add_sub_cancel]
      rw [heq]
      simp
    simp only [hused, requeue_ran rfl hswap]
    exact .requeue pid pcb hsel howned hready hswap hlt

end Scheduler

end OSCoreSim
