import OSCoreSim.Kernel.PcbInvariant
import OSCoreSim.Kernel.Accounting
import OSCoreSim.Memory.Ownership
import OSCoreSim.Process.TurnOrder
/-!
# One scheduling decision, in full

`Scheduler::step` changes nothing when its owner has no READY process.  Otherwise the process
whose turn it is either completes, and disappears with its descendants and their memory, or is
demoted by one level with a quantum less to run.  The branches of the source for a process that
disappears, cannot be switched to RUNNING or cannot tick are not reached.
-/

namespace OSCoreSim

open MemoryManager ProcessManager

namespace MemoryManager

variable {m m' : MemoryManager} {owner : Str} {pid : UInt32} {addr : ℕ}

theorem eq_of_mem_of_length_le_one {α : Type} {l : List α} {x y : α} (h : l.length ≤ 1)
    (hx : x ∈ l) (hy : y ∈ l) : x = y := by
  rcases Nat.le_one_iff_eq_zero_or_eq_one.mp h with hzero | hone
  · rw [List.length_eq_zero_iff.mp hzero] at hx
    cases hx
  · obtain ⟨z, rfl⟩ := List.length_eq_one_iff.mp hone
    exact (List.mem_singleton.mp hx).trans (List.mem_singleton.mp hy).symm

def clearProcesses (ownership : ℕ → Option Holder) (pids : List UInt32) (addr : ℕ) :
    Option Holder :=
  match ownership addr with
  | some holder => if holder.type = .process ∧ holder.pid ∈ pids then none else some holder
  | none => none

theorem clearProcesses_nil (ownership : ℕ → Option Holder) :
    clearProcesses ownership [] = ownership := by
  funext addr
  unfold clearProcesses
  cases ownership addr <;> simp

theorem clearProcesses_cons (ownership : ℕ → Option Holder) (pid : UInt32) (pids : List UInt32) :
    clearProcesses (clearProcesses ownership [pid]) pids = clearProcesses ownership (pid :: pids) := by
  funext addr
  unfold clearProcesses
  cases ownership addr with
  | none => rfl
  | some holder =>
    by_cases hprocess : holder.type = .process
    · by_cases hpid : holder.pid = pid <;> simp [hprocess, hpid]
    · simp [hprocess]

theorem clearProcesses_eq_self {ownership : ℕ → Option Holder} (h : ∀ addr holder,
    ownership addr = some holder → ¬(holder.type = .process ∧ holder.pid = pid)) :
    clearProcesses ownership [pid] = ownership := by
  funext addr
  unfold clearProcesses
  cases hsome : ownership addr with
  | none => rfl
  | some holder => simpa using h addr holder hsome

theorem Partition.exists_block (h : Partition m) {holder : Holder}
    (hsome : m.ownership addr = some holder) :
    ∃ block ∈ m.blocks, block.Contains addr ∧ block.type = holder.type ∧ block.pid = holder.pid := by
  by_cases hin : ∃ block ∈ m.blocks, block.Contains addr
  · obtain ⟨block, hmem, hcontains⟩ := hin
    rw [h.holderAt_eq hmem hcontains] at hsome
    refine ⟨block, hmem, hcontains, ?_⟩
    by_cases hfree : block.type = .free
    · rw [holder_free hfree] at hsome
      cases hsome
    · rw [holder_used hfree] at hsome
      cases hsome
      exact ⟨rfl, rfl⟩
  · have hnone : blockAt m.blocks addr = none := by
      refine Tiling.cover_eq_none fun block hmem => ?_
      by_contra hnot
      refine hin ⟨block, hmem, ?_⟩
      unfold MemoryBlock.Contains
      omega
    rw [ownership, holderAt, hnone] at hsome
    cases hsome

theorem Partition.clear_unheld (h : Partition m) (hnone : held m.blocks pid = []) :
    clearProcesses m.ownership [pid] = m.ownership := by
  refine clearProcesses_eq_self fun addr holder hsome => ?_
  rintro ⟨htype, hpid⟩
  obtain ⟨block, hmem, -, hblockType, hblockPid⟩ := h.exists_block hsome
  have hmark : _ ∈ held m.blocks pid := mem_held.mpr
    ⟨block, hmem, hblockType.trans htype, hblockPid.trans hpid, rfl⟩
  rw [hnone] at hmark
  cases hmark

/-- The release of the only PROCESS block of `pid` empties exactly the addresses of `pid`. -/
theorem Partition.ownership_of_releases (h : Partition m) (hone : (held m.blocks pid).length ≤ 1)
    (hm : Releases (fun block => isProcessBlock owner pid block) m m') :
    m'.ownership = clearProcesses m.ownership [pid] := by
  obtain ⟨l, it, r, hblocks, hit, -, -, rfl⟩ := hm
  obtain ⟨htype, -, hpid⟩ := isProcessBlock_iff.mp hit
  have hmem : it ∈ m.blocks := by simp [hblocks]
  rw [h.ownership_released hblocks]
  funext addr
  show (if it.Contains addr then none else m.ownership addr) = _
  unfold clearProcesses
  by_cases hin : it.Contains addr
  · have hholder := h.holderAt_eq hmem hin
    rw [holder_used (by simp [htype])] at hholder
    simp [hin, hholder, htype, hpid]
  · cases hsome : m.ownership addr with
    | none => simp
    | some holder =>
      -- another block of `pid` would have the same footprint
      have hother : ¬(holder.type = .process ∧ holder.pid ∈ [pid]) := by
        rw [List.mem_singleton]
        rintro ⟨hholderType, hholderPid⟩
        obtain ⟨block, hblock, hcontains, hblockType, hblockPid⟩ := h.exists_block hsome
        have hmark := mem_held.mpr ⟨it, hmem, htype, hpid, rfl⟩
        have hmark' := mem_held.mpr
          ⟨block, hblock, hblockType.trans hholderType, hblockPid.trans hholderPid, rfl⟩
        have heq := eq_of_mem_of_length_le_one hone hmark hmark'
        obtain ⟨-, hstart, hsize⟩ := Footprint.mk.inj heq
        refine hin ?_
        unfold MemoryBlock.Contains
        rw [hstart, hsize]
        exact hcontains
      simp only [if_neg hin, if_neg hother]

end MemoryManager

namespace Kernel

variable {owner : Str} {mm mm' : MemoryManager}

/-- A sequence of releases empties the addresses of its PIDs, and changes nothing else. -/
theorem ReleasesAll.ownership_eq {pids : List UInt32} (h : ReleasesAll owner mm pids mm') :
    mm'.ownership = clearProcesses mm.ownership pids := by
  induction h with
  | nil m => rw [clearProcesses_nil]
  | @skip m last pid rest hpart hnone _ ih =>
    rw [ih, ← clearProcesses_cons, hpart.clear_unheld hnone]
  | @release m mid last pid rest hpart hone hreleases _ ih =>
    rw [ih, hpart.ownership_of_releases hone hreleases, clearProcesses_cons]

theorem releaseAll_frame (mm : MemoryManager) (owner : Str) (pids : List UInt32) :
    (Scheduler.releaseAll owner mm pids).1.totalMemoryKB = mm.totalMemoryKB ∧
      (Scheduler.releaseAll owner mm pids).1.algorithm = mm.algorithm :=
  releaseAll_induction (P := fun m => m.totalMemoryKB = mm.totalMemoryKB ∧ m.algorithm = mm.algorithm)
    (fun hm hreleases => by
      obtain ⟨l, it, r, -, -, -, -, rfl⟩ := hreleases
      exact hm) pids ⟨rfl, rfl⟩

/-! ## The decision -/

/-- The processes `removed` disappear from the table, the child lists, the queues and the memory;
nothing else changes. -/
structure Removes (pm : ProcessManager) (mm : MemoryManager) (removed : List UInt32)
    (pm' : ProcessManager) (mm' : MemoryManager) : Prop where
  nextPid : pm'.nextPid = pm.nextPid
  table : ∀ k : UInt32, pm'.pcbTable[k]? = if k ∈ removed then none else
    pm.pcbTable[k]?.map fun pcb => { pcb with children := pcb.children.filter (· ∉ removed) }
  queues : ∀ q, pm'.readyQueues q = (pm.readyQueues q).filter (· ∉ removed)
  memory : mm'.ownership = clearProcesses mm.ownership removed
  settings : mm'.totalMemoryKB = mm.totalMemoryKB ∧ mm'.algorithm = mm.algorithm

/-- The process `pid` of queue `q` has used its quantum and goes to the tail of the queue below;
nothing else changes. -/
structure Demotes (pm : ProcessManager) (q : Fin 3) (pid : UInt32) (pcb : PCB)
    (pm' : ProcessManager) : Prop where
  nextPid : pm'.nextPid = pm.nextPid
  self : pm'.pcbTable[pid]? = some { pcb with
    state := .ready
    queueLevel := levelOfQueue (queueBelow q)
    executedTime := pcb.executedTime + quantum q
    remainingTime := pcb.remainingTime - quantum q
    timeSliceLeft := quantum (queueBelow q) }
  executed : (pcb.executedTime + quantum q).toNat = pcb.executedTime.toNat + (quantum q).toNat
  remaining : (pcb.remainingTime - quantum q).toNat + (quantum q).toNat = pcb.remainingTime.toNat
  others : ∀ k : UInt32, k ≠ pid → pm'.pcbTable[k]? = pm.pcbTable[k]?
  queues : ∀ q', pm'.readyQueues q' =
    (pm.readyQueues q').filter (· ≠ pid) ++ if q' = queueBelow q then [pid] else []

variable {pm pm' : ProcessManager} {pid : UInt32} {pcb : PCB} {q : Fin 3}

theorem removes_subtree (h : Core pm mm) :
    Removes pm mm (pm.subtree owner pid) (pm.pruned (pm.subtree owner pid))
      (Scheduler.releaseAll owner mm (pm.subtree owner pid)).1 where
  nextPid := rfl
  table _ := pruned_getElem? _
  queues _ := rfl
  memory := (h.matched.agree.releasesAll h.matched.partition
    fun _ hk => hasProcess_of_mem_subtree hk).ownership_eq
  settings := releaseAll_frame mm owner _

theorem demotes_afterSlice (hpcb : WellFormed pcb) (hlevel : pcb.queueLevel = levelOfQueue q)
    (hleft : quantum q < pcb.remainingTime) :
    Demotes pm q pid pcb (pm.relinked pid (afterSlice pcb)) := by
  have hslice : timeSliceForQueue pcb.queueLevel = quantum q := by
    rw [hlevel, timeSliceForQueue_levelOfQueue]
  have hbelow : demotedLevel pcb.queueLevel = levelOfQueue (queueBelow q) := by
    rw [hlevel, demotedLevel_levelOfQueue]
  have hle := UInt32.lt_iff_toNat_lt.mp hleft
  have htime := hpcb.time
  have htotal := pcb.totalTime.toNat_lt
  have hready : readyLevel (afterSlice pcb) = some (queueBelow q) :=
    readyLevel_levelOfQueue rfl hbelow
  refine ⟨rfl, ?_, ?_, ?_, fun k hk => ?_, fun q' => ?_⟩
  · simp [relinked, afterSlice, hslice, hbelow, timeSliceForQueue_levelOfQueue]
  · rw [toNat_add_of_lt (by omega)]
  · rw [UInt32.toNat_sub_of_le _ _ (UInt32.le_of_lt hleft)]
    omega
  · simp [relinked, KeyedTable.getElem?_insert, Ne.symm hk]
  · simp [relinked, requeued, hready, eq_comm]

/-- `Scheduler::step` in a state that satisfies the invariants: without a READY process of the
owner nothing changes, otherwise the process whose turn it is completes within the quantum of
its queue and takes its descendants with it, or is demoted. -/
theorem step_decision (h : Core pm mm) (hhealthy : Healthy pm) (owner : Str) :
    let pm' := (Scheduler.step owner pm mm).1
    let mm' := (Scheduler.step owner pm mm).2.1
    (¬pm.HasReady owner → pm' = pm ∧ mm' = mm) ∧
    (pm.HasReady owner → ∃ q pid, pm.NextTurn owner q pid) ∧
    ∀ q pid, pm.NextTurn owner q pid → ∃ pcb, pm.ownedPcb owner pid = some pcb ∧
      pcb.state = .ready ∧ pcb.queueLevel = levelOfQueue q ∧
      (pcb.remainingTime ≤ quantum q → ∃ removed, (∀ k, k ∈ removed ↔ pm.Descends pid k) ∧
        Removes pm mm removed pm' mm') ∧
      (quantum q < pcb.remainingTime → Demotes pm q pid pcb pm' ∧ mm' = mm) := by
  intro pm' mm'
  have ho : Scheduler.Outcome owner pm mm pm' mm' := Scheduler.step_outcome owner mm h.matched.keyed
  refine ⟨fun hidle => h.indexed.outcome_idle hidle ho, fun hready => ?_, fun q pid hturn => ?_⟩
  · cases hsel : pm.selectedPid owner with
    | none => exact absurd hready (h.indexed.selectedPid_eq_none.mp hsel)
    | some pid =>
      obtain ⟨q, hturn⟩ := h.indexed.selectedPid_eq_some.mp hsel
      exact ⟨q, pid, hturn⟩
  · obtain ⟨pcb, hget, hready, hlevel⟩ := h.indexed.nextTurn_pcb hturn
    have hhas : pm.hasProcess owner pid := by simp [hasProcess, hget]
    have hpcb := hhealthy.wellFormed pid pcb (ownedPcb_eq_some.mp hget).1
    refine ⟨pcb, hget, hready, hlevel, fun hlast => ?_, fun hleft => ?_⟩
    · rcases h.indexed.outcome_turn hturn hget ho with ⟨-, hpm, hmm⟩ | ⟨hleft, -, -⟩
      · rw [hpm, hmm]
        exact ⟨pm.subtree owner pid, fun k => mem_subtree_iff hhas, removes_subtree h⟩
      · exact absurd hleft (UInt32.not_lt.mpr hlast)
    · rcases h.indexed.outcome_turn hturn hget ho with ⟨hlast, -, -⟩ | ⟨-, hpm, hmm⟩
      · exact absurd hleft (UInt32.not_lt.mpr hlast)
      · rw [hpm]
        exact ⟨demotes_afterSlice hpcb hlevel hleft, hmm⟩

/-- A parent whose last ticks are its turn, with a child and with a process of another user in
the same queue. -/
theorem step_decision_family :
    let w : World := { kernel := Kernel.start {} ∅ }
    let events := [World.console "register a pw", World.console "register b pw",
      World.console "login b pw", World.console "create_pcb q 4 8 20", World.console "logout",
      World.console "login a pw", World.console "create_pcb p 4 8 5",
      World.console "create_pcb c 4 9 30 2"]
    let k := (Runs.run World.step w events).kernel
    ∃ removed, (∀ j, j ∈ removed ↔ k.processManager.Descends 2 j) ∧
      Removes k.processManager k.memoryManager removed
        (Scheduler.step (str "a") k.processManager k.memoryManager).1
        (Scheduler.step (str "a") k.processManager k.memoryManager).2.1 := by
  intro w events k
  have hclean : w.kernel.Clean := clean_start {} ∅ fun _ h => by cases h
  have hload : World.NoLoad events := by decide
  have hcore : Core k.processManager k.memoryManager := (World.regular_run hclean hload
    (Nat.lt_of_le_of_lt (Runs.total_le_length World.creations_le_one _ _) (by decide))).core
  have hhealthy : Healthy k.processManager := World.healthy_run hclean.processes hload
  have hturn : k.processManager.NextTurn (str "a") 2 2 :=
    nextTurn_of_empty (by decide +kernel) (by decide +kernel)
  have hlast : (k.processManager.ownedPcb (str "a") 2).map (·.remainingTime) = some 5 := by
    decide +kernel
  obtain ⟨pcb, hget, -, -, hfinish, -⟩ := (step_decision hcore hhealthy (str "a")).2.2 2 2 hturn
  have hfive : pcb.remainingTime = 5 := by simpa [hget] using hlast
  refine hfinish ?_
  rw [hfive]
  decide

end Kernel

end OSCoreSim
