import OSCoreSim.Kernel.SnapshotRestore
/-!
# Ready queues of a snapshot

The import overwrites the queues that `importPcbs` builds from the states by the lists of
the file, and the validation behind it only erases.  So the imported queues are right just
when the lists name every READY process.
-/

namespace OSCoreSim

open ProcessManager

def Runnable (pcb : PCB) : Prop := pcb.state = .ready ∧ pcb.swappedOut = false

instance (pcb : PCB) : Decidable (Runnable pcb) := inferInstanceAs (Decidable (_ ∧ _))

/-- The runnable processes stand once each in the queue of their level, and nothing else
stands in a queue. -/
structure ProcessManager.Schedulable (pm : ProcessManager) : Prop where
  listed : ∀ (pid : UInt32) (pcb : PCB), pm.pcbTable[pid]? = some pcb → Runnable pcb →
    ∃ q, queueIndex pcb.queueLevel = some q ∧ (pm.readyQueues q).count pid = 1
  nothingElse : ∀ (q : Fin 3), ∀ pid ∈ pm.readyQueues q, ∃ pcb : PCB,
    pm.pcbTable[pid]? = some pcb ∧ Runnable pcb ∧ queueIndex pcb.queueLevel = some q

/-- The lists of the file name every runnable process at its level. -/
def ListsReady (s : KernelSnapshot) : Prop :=
  ∀ pcb ∈ s.pcbs, Runnable pcb →
    ∃ q, queueIndex pcb.queueLevel = some q ∧ pcb.pid ∈ s.readyQueues q

instance (s : KernelSnapshot) : Decidable (ListsReady s) :=
  inferInstanceAs (Decidable (∀ pcb ∈ s.pcbs, _ → ∃ q, queueIndex pcb.queueLevel = some q ∧ _))

namespace Kernel

variable {s : KernelSnapshot} {pid : UInt32} {q : Fin 3}

/-- A queue holds what the file lists there, as far as it is runnable at this level: the first
occurrence of each PID, in the order of the file. -/
theorem readyQueues_import (h : ValidSnapshot s) (q : Fin 3) :
    (importProcesses s).1.readyQueues q = ((s.readyQueues q).filter fun pid =>
      ∃ pcb ∈ s.pcbs, pcb.pid = pid ∧ Runnable pcb ∧
        queueIndex pcb.queueLevel = some q).eraseDups := by
  rw [importProcesses, validateReadyQueues_eq]
  show placed _ q (s.readyQueues q) = _
  unfold placed
  congr 2
  funext pid
  refine decide_eq_decide.mpr ⟨?_, ?_⟩
  · rintro ⟨pcb', hget, hready, hswap, hlevel⟩
    obtain ⟨pcb, hmem, hpid, rfl⟩ := (imported_getElem? h).mp hget
    exact ⟨pcb, hmem, hpid, ⟨hready, hswap⟩, queueIndex_eq_some.mpr hlevel⟩
  · rintro ⟨pcb, hmem, hpid, ⟨hready, hswap⟩, hlevel⟩
    exact ⟨_, (imported_getElem? h).mpr ⟨pcb, hmem, hpid, rfl⟩, hready, hswap,
      queueIndex_eq_some.mp hlevel⟩

theorem mem_readyQueues_import (h : ValidSnapshot s) :
    pid ∈ (importProcesses s).1.readyQueues q ↔ pid ∈ s.readyQueues q ∧
      ∃ pcb ∈ s.pcbs, pcb.pid = pid ∧ Runnable pcb ∧ queueIndex pcb.queueLevel = some q := by
  rw [readyQueues_import h, List.mem_eraseDups, List.mem_filter, decide_eq_true_iff]

theorem nodup_readyQueues_import (s : KernelSnapshot) (q : Fin 3) :
    ((importProcesses s).1.readyQueues q).Nodup := by
  rw [importProcesses, validateReadyQueues_eq]
  exact nodup_placed _ q _

theorem schedulable_processes (h : ValidSnapshot s) :
    (importProcesses s).1.Schedulable ↔ ListsReady s := by
  constructor
  · intro hsched pcb hmem hrun
    have hget := (imported_getElem? h).mpr ⟨pcb, hmem, rfl, rfl⟩
    obtain ⟨q, hlevel, hcount⟩ := hsched.listed pcb.pid _ hget hrun
    have hin : pcb.pid ∈ (importProcesses s).1.readyQueues q := by
      apply List.count_pos_iff.mp
      omega
    exact ⟨q, hlevel, ((mem_readyQueues_import h).mp hin).1⟩
  · intro hlists
    constructor
    · intro pid pcb' hget hrun
      obtain ⟨pcb, hmem, rfl, rfl⟩ := (imported_getElem? h).mp hget
      obtain ⟨q, hlevel, hlisted⟩ := hlists pcb hmem hrun
      have hin : pcb.pid ∈ (importProcesses s).1.readyQueues q :=
        (mem_readyQueues_import h).mpr ⟨hlisted, pcb, hmem, rfl, hrun, hlevel⟩
      exact ⟨q, hlevel, List.count_eq_one_of_mem (nodup_readyQueues_import s q) hin⟩
    · intro q pid hin
      obtain ⟨-, pcb, hmem, hpid, hrun, hlevel⟩ := (mem_readyQueues_import h).mp hin
      exact ⟨_, (imported_getElem? h).mpr ⟨pcb, hmem, hpid, rfl⟩, hrun, hlevel⟩

/-- Whatever the lists of an accepted file contain, its import restores right queues just when
they name every runnable process. -/
theorem schedulable_import (haccepts : Accepts s) (k : Kernel) :
    (k.importSnapshot s).1.processManager.Schedulable ↔ ListsReady s := by
  have hvalid := validateSnapshot_ok.mp haccepts
  rw [importSnapshot_valid hvalid]
  exact schedulable_processes hvalid

def queuesOf (queues : ReadyQueues) : KernelSnapshot :=
  { World.familyOf 0 5 3 "a" with readyQueues := queues }

/-- Stale, duplicated and misplaced entries are repaired. -/
theorem schedulable_import_repaired :
    (Kernel.importSnapshot {} (queuesOf fun q =>
      if q = 0 then [7, 1, 2, 1] else [1])).1.processManager.Schedulable :=
  (schedulable_import (by decide +kernel) {}).mpr (by decide +kernel)

/-- A missing entry is not: the READY process 1 stands in no queue. -/
theorem ready_process_missing :
    Accepts (queuesOf fun _ => []) ∧
      ¬(Kernel.importSnapshot {} (queuesOf fun _ => [])).1.processManager.Schedulable := by
  have haccepts : Accepts (queuesOf fun _ => []) := by decide +kernel
  have hvalid := validateSnapshot_ok.mp haccepts
  refine ⟨haccepts, ?_⟩
  rw [importSnapshot_valid hvalid]
  change ¬(importProcesses _).1.Schedulable
  rw [schedulable_processes hvalid]
  decide +kernel

end Kernel

end OSCoreSim
