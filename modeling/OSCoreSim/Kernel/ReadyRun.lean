import OSCoreSim.Kernel.PcbInvariant
import OSCoreSim.Kernel.Backing
/-!
# The ready queues in every run without `load`

No bound on the number of creations is needed for the index of the ready queues: a creation
whose PID is taken keeps the PCB that is there, adds a child link, and moves the PID to the tail
of its queue when that PCB is READY.
-/

namespace OSCoreSim

open MemoryManager ProcessManager CommandDispatcher

namespace ProcessManager

variable {pm pm' : ProcessManager} {owner name message : Str} {pid : UInt32}

theorem Indexed.enqueued (h : Indexed pm) (pid : UInt32) : Indexed (pm.enqueueReady pid) := by
  cases hget : pm.pcbTable[pid]? with
  | none =>
    have hsame : pm.enqueueReady pid = pm := by simp [enqueueReady, hget]
    rwa [hsame]
  | some pcb =>
    by_cases hready : pcb.state = .ready
    · have hrelinked : pm.enqueueReady pid = pm.relinked pid pcb := by
        rw [enqueueReady_eq hget hready, ProcessManager.relinked]
        congr 1
        refine Std.ExtTreeMap.ext_getElem? fun k => ?_
        rw [KeyedTable.getElem?_insert]
        split
        next heq => rw [← heq, hget]
        next => rfl
      rw [hrelinked]
      exact h.relinked (h.keyed pid pcb hget) (h.level pid pcb hget) (h.swapped pid pcb hget)
    · have hsame : pm.enqueueReady pid = pm := by simp [enqueueReady, hget, hready]
      rwa [hsame]

theorem Indexed.linked (h : Indexed pm) (nextPid ppid pid : UInt32) :
    Indexed { pm with nextPid := nextPid, pcbTable := linkChild pm.pcbTable ppid pid } := by
  refine h.of_frame rfl (fun k pcb hget => ?_) fun k pcb' hget => ?_
  · obtain ⟨children, heq⟩ := withChild_eq ppid pid k pcb
    exact ⟨pcb.memStart, children, by rw [linkChild_getElem?, hget, Option.map_some, heq]⟩
  · rw [linkChild_getElem?] at hget
    obtain ⟨pcb, hold, rfl⟩ := Option.map_eq_some_iff.mp hget
    obtain ⟨children, heq⟩ := withChild_eq ppid pid k pcb
    exact ⟨pcb, pcb.memStart, children, hold, heq⟩

/-- A creation keeps the index, also when its PID is taken. -/
theorem Indexed.created (h : Indexed pm) {memKB memStart totalTime : UInt32} {priority : Int32}
    {ppid : Option UInt32}
    (hcreate : pm.createProcessWithMemory owner name memKB memStart priority totalTime ppid =
      .ok (pm', pid, message)) : Indexed pm' := by
  cases htaken : pm.pcbTable[pm.nextPid]? with
  | none =>
    obtain ⟨-, -, -, -, hparent, -, rfl⟩ := createProcessWithMemory_spec htaken hcreate
    exact h.spawned htaken (ppid_ne_nextPid htaken hparent) rfl
      (queueIndex_queueLevelForPriority priority) (by simp [newPcb])
  | some old =>
    obtain ⟨-, -, rfl, -⟩ := createProcessWithMemory_eq_ok hcreate
    have hmem : pm.nextPid ∈ pm.pcbTable :=
      Std.ExtTreeMap.mem_iff_isSome_getElem?.mpr (by simp [htaken])
    have hkept : ∀ pcb, pm.pcbTable.insertIfNew pm.nextPid pcb = pm.pcbTable := by
      intro pcb
      refine Std.ExtTreeMap.ext_getElem? fun k => ?_
      rw [Std.ExtTreeMap.getElem?_insertIfNew]
      simp [hmem]
    rw [hkept]
    exact (h.linked (pm.nextPid + 1) (ppid.getD 0) pm.nextPid).enqueued _

end ProcessManager

namespace Kernel

variable {cause : Cause} {owner : Str} {pm pm' : ProcessManager} {mm mm' : MemoryManager}

theorem indexed_action (h : Indexed pm) (ha : Action cause owner pm mm pm' mm') : Indexed pm' := by
  cases ha with
  | alloc | free | setAlgorithm => exact h
  | compact => exact indexed_compacted h
  | swapOut pid hmem hmark =>
    obtain ⟨pcb, hget, -, rfl⟩ := markSwappedOut_spec hmark
    exact h.swapped_out (ownedPcb_eq_some.mp hget).1
  | kill pid hcause hkill =>
    obtain ⟨-, -, rfl⟩ := killProcess_spec hkill
    exact h.pruned _
  | rewrite pid hr => exact h.rewrites hr
  | step => exact h.outcome (Scheduler.step_outcome owner mm h.keyed)

theorem indexed_change {command : Command} {k k' : Kernel} {success : Bool}
    (h : Indexed k.processManager) (hc : Change command k k' success) :
    Indexed k'.processManager := by
  cases hc with
  | create owner args hname hlogin hargs halloc hcreate => exact h.created hcreate
  | act owner hlogin ha => exact indexed_action h ha
  | restart =>
    show Indexed k.processManager.cleaned
    rwa [h.cleaned_eq]
  | _ => exact h

end Kernel

namespace World

open Kernel

theorem indexed_step {w : World} {event : Event} (h : Indexed w.kernel.processManager)
    (hload : ¬event.Named (str "load")) : Indexed (w.step event).kernel.processManager := by
  apply step_keeps (P := fun k => Indexed k.processManager) hload
  · exact fun _ hc => indexed_change h hc
  · exact tick_keeps (P := fun k => Indexed k.processManager) h fun _ ha => indexed_action h ha

theorem indexed_run {w : World} {events : List Event} (hempty : w.kernel.processManager = {})
    (hload : NoLoad events) : Indexed (Runs.run step w events).kernel.processManager :=
  Runs.run_invariant' (P := fun w : World => Indexed w.kernel.processManager)
    (fun _ _ h hok => indexed_step h hok) (hempty ▸ indexed_empty)
    (hload.permitted w)

theorem partition_run {w : World} {events : List Event} (hclean : w.kernel.Clean)
    (hload : NoLoad events) : Partition (Runs.run step w events).kernel.memoryManager := by
  have hstart : Indexed w.kernel.processManager ∧ Partition w.kernel.memoryManager :=
    ⟨hclean.processes ▸ indexed_empty, hclean.memory ▸ Initial.fresh.partition⟩
  have hrun := Runs.run_invariant' (P := fun w : World =>
      Indexed w.kernel.processManager ∧ Partition w.kernel.memoryManager)
    (fun _ _ h hok => ⟨indexed_step h.1 hok,
      step_keeps (P := fun k => Partition k.memoryManager) hok
        (fun _ hc => partition_change h.1.keyed h.2 hc)
        (tick_keeps (P := fun k => Partition k.memoryManager) h.2 fun _ ha =>
          partition_effect h.2 (effect_of_keyed h.1.keyed h.2 ha))⟩) hstart (hload.permitted w)
  exact hrun.2

end World

end OSCoreSim
