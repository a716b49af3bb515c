import OSCoreSim.Kernel.Accounting
import OSCoreSim.Kernel.Coherence
import OSCoreSim.Memory.Packing
/-!
# The compact command

The blocks are packed by the memory manager, and the new addresses reach the process table
through a map keyed by PID.  Where the two tables account for each other, the write-back is
complete: every resident process has the start of its block, and nothing else has changed.
-/

namespace OSCoreSim

open MemoryManager ProcessManager CommandDispatcher
open Std (ExtTreeMap)

namespace Kernel

variable {k : Kernel} {pm : ProcessManager} {mm : MemoryManager}

def compacted (k : Kernel) : Kernel :=
  { k with
    processManager := compactedProcesses k.processManager k.memoryManager
    memoryManager := k.memoryManager.compact.1 }

theorem compactCommand_cases (k : Kernel) (arguments : List Str) :
    (k.withManagers (compactCommand k.managers arguments).1 = k ∧
        (compactCommand k.managers arguments).2.success = false) ∨
      (k.withManagers (compactCommand k.managers arguments).1 = k.compacted ∧
        ∃ owner, k.userManager.currentUser = some owner) := by
  unfold compactCommand requireLogin withoutArguments
  split
  next hlogin =>
    split
    · exact .inl ⟨rfl, rfl⟩
    · exact .inr ⟨rfl, Option.isSome_iff_exists.mp hlogin⟩
  next => exact .inl ⟨rfl, rfl⟩

/-- What `compact` makes of a kernel. -/
structure Compacts (k k' : Kernel) : Prop where
  frame : k' = { k with processManager := k'.processManager, memoryManager := k'.memoryManager }
  settings : k'.memoryManager.totalMemoryKB = k.memoryManager.totalMemoryKB ∧
    k'.memoryManager.algorithm = k.memoryManager.algorithm
  same_blocks : List.Forall₂ MovedFrom (allocated k.memoryManager.blocks)
    (allocated k'.memoryManager.blocks)
  packed : Fills 0 (allocated k'.memoryManager.blocks) k.memoryManager.usedMemoryKB.toNat
  tail : k'.memoryManager.blocks = allocated k'.memoryManager.blocks ++
    freeTail k.memoryManager.usedMemoryKB k.memoryManager.freeMemoryKB
  queues : k'.processManager.readyQueues = k.processManager.readyQueues ∧
    k'.processManager.nextPid = k.processManager.nextPid
  absent : ∀ pid : UInt32, k.processManager.pcbTable[pid]? = none →
    k'.processManager.pcbTable[pid]? = none
  moved : ∀ (pid : UInt32) (pcb : PCB), k.processManager.pcbTable[pid]? = some pcb →
    ∃ start, k'.processManager.pcbTable[pid]? = some { pcb with memStart := start } ∧
      (pcb.swappedOut = true → start = pcb.memStart) ∧
      (pcb.swappedOut = false → ∃ block, processBlocks k'.memoryManager pid = [block] ∧
        block.start = start)
  served : ∀ owner, k.userManager.currentUser = some owner → ∀ algorithm tag pid sizeKB type,
    (∃ out, { k'.memoryManager with algorithm := algorithm }.allocateLocked owner pid tag sizeKB
        type = .ok out) ↔
      0 < sizeKB ∧ sizeKB ≤ k.memoryManager.freeMemoryKB

theorem compact_effect :
    Effect { compacts := True, turns := False, kills := fun _ => False } [] pm mm
      (compactedProcesses pm mm) mm.compact.1 :=
  .compact trivial

theorem compacts_compacted (h : Core k.processManager k.memoryManager)
    (haccounts : UserManager.Accounts k.userManager) : Compacts k k.compacted := by
  have hpart := h.matched.partition
  have hcore : Core k.compacted.processManager k.compacted.memoryManager :=
    h.effect compact_effect
  have hget : ∀ pid : UInt32, k.compacted.processManager.pcbTable[pid]? =
      k.processManager.pcbTable[pid]?.map fun pcb => { pcb with
        memStart := k.memoryManager.compact.2.pidNewStart[pid]?.getD pcb.memStart } :=
    fun pid => updateStarts_getElem? _ _
  exact {
    frame := rfl
    settings := by
      simp only [compacted, hpart.compact_eq, and_self]
    same_blocks := by
      simp only [compacted, hpart.allocated_compact]
      exact relocate_forall₂ 0 _
    packed := hpart.packed_compact
    tail := hpart.blocks_compact
    queues := (updateStarts_eq _ _).symm
    absent := fun pid hnone => by rw [hget, hnone, Option.map_none]
    moved := fun pid pcb hpcb => by
      have hnew := hget pid
      rw [hpcb, Option.map_some] at hnew
      refine ⟨_, hnew, fun hswap => ?_, fun hswap => ?_⟩
      · have hafter := (hcore.accounted.swapped pid _ hnew hswap).2
        exact hafter.trans (h.accounted.swapped pid pcb hpcb hswap).2.symm
      · obtain ⟨block, hblock, -, -, hstart, -⟩ := hcore.accounted.resident pid _ hnew hswap
        exact ⟨block, hblock, hstart⟩
    served := fun owner hlogin algorithm tag pid sizeKB type =>
      hpart.allocates_compact (haccounts.nonempty owner (haccounts.session owner hlogin))
        algorithm }

/-- When no block moves, the write-back stores what the PCBs already have. -/
theorem compactedProcesses_eq (h : Matched pm mm) (hsame : mm.compact.1 = mm) :
    compactedProcesses pm mm = pm := by
  have hstarts : ∀ k : UInt32, mm.compact.2.pidNewStart[k]? =
      (owed pm k).getLast?.map Footprint.start := fun k => by
    rw [h.partition.compact_starts, hsame, h.agree]
  have htable : (compactedProcesses pm mm).pcbTable = pm.pcbTable := by
    refine ExtTreeMap.ext_getElem? fun k => ?_
    rw [compactedProcesses, updateStarts_getElem?, hstarts]
    cases hget : pm.pcbTable[k]? with
    | none => rfl
    | some pcb =>
      rw [owed_eq hget, owedBy]
      split <;> rfl
  obtain ⟨hnext, hqueues⟩ := updateStarts_eq mm.compact.2.pidNewStart.toList pm
  have heta : ∀ pm' : ProcessManager, pm'.nextPid = pm.nextPid → pm'.pcbTable = pm.pcbTable →
      pm'.readyQueues = pm.readyQueues → pm' = pm := by
    rintro ⟨_, _, _⟩ rfl rfl rfl
    rfl
  exact heta _ hnext htable hqueues

theorem compacted_compacted (h : Core k.processManager k.memoryManager) :
    k.compacted.compacted = k.compacted := by
  have hpart := h.matched.partition
  have hmatched : Matched k.compacted.processManager k.compacted.memoryManager :=
    h.matched.effect compact_effect
  have hmemory : k.compacted.memoryManager.compact.1 = k.compacted.memoryManager :=
    hpart.compact_compact
  rw [compacted, compactedProcesses_eq hmatched hmemory, hmemory]

end Kernel

namespace World

open Kernel

/-- In every state of a run from a clean start, `compact` packs the blocks in use in their order
and leaves one FREE block behind them, moves the processes with their blocks, and changes nothing
when it is repeated; right after it all the free memory can be allocated. -/
theorem compacts_of_run {w : World} (hclean : w.kernel.Clean) {events : List Event}
    (hload : NoLoad events) (hbudget : Runs.total step creations w events < 2 ^ 32 - 1)
    (env : Environment) (request : CommandRequest)
    (hname : (parse request.rawLine).name = str "compact")
    (hok : (Runs.run step w events).Succeeds (.request env request)) :
    let k := (Runs.run step w events).kernel
    let k' := ((Runs.run step w events).step (.request env request)).kernel
    Compacts k k' ∧ ∀ env' disk request', (parse request'.rawLine).name = str "compact" →
      (k'.executeRequest env' disk request').1 = k' := by
  intro k k'
  have hcore := (regular_run hclean hload hbudget).core
  have haccounts : UserManager.Accounts w.kernel.userManager := by
    refine ⟨?_, ?_, ?_⟩
    all_goals simp [hclean.users, hclean.session, KeyedTable.Keyed]
  have hk' : k' = k.compacted := by
    rw [succeeds_request, executeRequest_compact _ _ _ _ hname] at hok
    have hstep : k' = k.withManagers (compactCommand k.managers (parse request.rawLine).arguments).1 :=
      congrArg Prod.fst (executeRequest_compact k env (Runs.run step w events).disk request hname)
    rcases compactCommand_cases k (parse request.rawLine).arguments with ⟨-, hfail⟩ | ⟨hdone, -⟩
    · rw [hfail] at hok
      cases hok
    · exact hstep.trans hdone
  rw [hk']
  refine ⟨compacts_compacted hcore (accounts_run haccounts hload), ?_⟩
  intro env' disk request' hname'
  rw [executeRequest_compact _ _ _ _ hname']
  rcases compactCommand_cases k.compacted (parse request'.rawLine).arguments with
    ⟨hsame, -⟩ | ⟨hdone, -⟩
  · exact hsame
  · exact hdone.trans (compacted_compacted hcore)

/-- The block below process 1 is freed and process 2 is swapped out, so that process 1 moves from
16 to 0. -/
theorem compacts_of_run_behind_free :
    let w : World := { kernel := Kernel.start {} ∅ }
    let events := [console "register a pw", console "login a pw", console "alloc x 16",
      console "create_pcb p 4 1 5", console "create_pcb q 8 1 5", console "swap_out 2",
      console "free_mem 0"]
    let k := (Runs.run step w events).kernel
    let k' := ((Runs.run step w events).step (console "compact")).kernel
    (Compacts k k' ∧ ∀ env' disk request', (parse request'.rawLine).name = str "compact" →
      (k'.executeRequest env' disk request').1 = k') ∧
      k.processManager.pcbTable[(1 : UInt32)]?.map PCB.memStart = some 16 ∧
      k'.processManager.pcbTable[(1 : UInt32)]?.map PCB.memStart = some 0 :=
  ⟨compacts_of_run (clean_start {} ∅ fun _ h => by cases h) (by decide)
    (Nat.lt_of_le_of_lt (Runs.total_le_length creations_le_one _ _) (by decide))
    quietEnvironment { rawLine := str "compact" } (by decide)
    (by rw [succeeds_request]; decide +kernel), by decide +kernel, by decide +kernel⟩

end World

end OSCoreSim
