import OSCoreSim.Kernel.Native
import OSCoreSim.Kernel.SnapshotRestore
import OSCoreSim.Kernel.StateFile
/-!
# Export and import are inverse

The import normalises what it is given: it clamps the counters, rebuilds the children from
the parents, filters the queues, sorts and merges the blocks.  On the export of a sound
state each of these is the identity.  A `load` then leads back to a sound state, so that
runs may load what they have saved before.
-/

namespace OSCoreSim

open MemoryManager ProcessManager UserManager CommandDispatcher VirtualFileSystem
open Std (ExtTreeMap)

namespace Kernel

variable {kernel kernel' : Kernel} {command : Command} {success : Bool} {n : ℕ}

/-! ## Every part is imported as it was exported -/

theorem mem_children_iff (h : Coherent kernel) {k : UInt32} {pcb : PCB}
    (hget : kernel.processManager.pcbTable[k]? = some pcb) (c : UInt32) :
    c ∈ pcb.children ↔ c ∈ childPids kernel.processManager.pcbTable k pcb.owner := by
  have hpos := (h.numbered.bound k pcb hget).1
  rw [h.lineage.family k pcb hget c, mem_childPids]
  constructor
  · rintro ⟨child, hchild, hppid, howner⟩
    refine ⟨child, hchild, fun hzero => ?_, hppid, howner⟩
    rw [← hppid, hzero] at hpos
    exact absurd hpos (by decide)
  · rintro ⟨child, hchild, -, hppid, howner⟩
    exact ⟨child, hchild, hppid, howner⟩

theorem importProcesses_export (h : Sound n kernel) :
    importProcesses kernel.exportSnapshot =
      (kernel.processManager, str "Ready queue validation passed.") := by
  have htable : (importPcbs kernel.exportSnapshot.pcbs).pcbTable = kernel.processManager.pcbTable :=
    h.coherent.matched.keyed.import_exportPcbs
  have hnext : max kernel.processManager.nextPid 1 = kernel.processManager.nextPid :=
    max_one_of_pos h.coherent.numbered.next_pos
  have himport : ((importPcbs kernel.exportSnapshot.pcbs).importNextPid
      kernel.exportSnapshot.nextPid).importReadyQueues kernel.exportSnapshot.readyQueues =
        kernel.processManager := by
    show ({ nextPid := max kernel.processManager.nextPid 1
            pcbTable := (importPcbs kernel.exportSnapshot.pcbs).pcbTable
            readyQueues := kernel.processManager.readyQueues } : ProcessManager) = _
    rw [htable, hnext]
  unfold importProcesses
  rw [himport, rebuildParentChildRelations_eq h.native.sorted
    fun k pcb hget => mem_children_iff h.coherent hget]
  exact h.regular.core.indexed.validateReadyQueues

theorem snapshotMemory_export (h : Coherent kernel) :
    snapshotMemory kernel.exportSnapshot = kernel.memoryManager :=
  h.matched.partition.importBlocks _ _

theorem importUsers_export (h : Coherent kernel) (um : UserManager) :
    (um.importUsers kernel.exportSnapshot.users).clearCurrentSession =
      { um with users := kernel.userManager.users, currentUser := none } := by
  show ({ um with
    users := (um.importUsers kernel.userManager.exportUsers).users
    currentUser := none } : UserManager) = _
  rw [h.accounts.import_exportUsers]

/-- `importer` with the saved part of `k`, without a session and with the scheduler stopped. -/
def withStateOf (importer k : Kernel) : Kernel :=
  { importer with
    userManager := { importer.userManager with users := k.userManager.users, currentUser := none }
    processManager := k.processManager
    memoryManager := k.memoryManager
    vfs := k.vfs
    schedulerRunning := false
    scheduler := { running := false }
    schedulerOwner := []
    autoLoadStatus := str "manual load success" }

theorem restored_export (h : Sound n kernel) {m : ℕ} (hfiles : Ordered m kernel.vfs)
    (importer : Kernel) :
    importer.restored kernel.exportSnapshot = importer.withStateOf kernel := by
  unfold restored withStateOf
  rw [importUsers_export h.coherent, importProcesses_export h, snapshotMemory_export h.coherent]
  congr 1
  exact hfiles.import_exportFiles importer.vfs

theorem importSnapshot_export (h : Sound n kernel) {m : ℕ} (hfiles : Ordered m kernel.vfs)
    (importer : Kernel) : importer.importSnapshot kernel.exportSnapshot =
      (importer.withStateOf kernel, true, str "Ready queue validation passed.") := by
  rw [importSnapshot_valid (valid_export h.coherent), restored_export h hfiles,
    importProcesses_export h]

/-! ## Loading a snapshot of a sound state -/

theorem sound_restored (h : Sound n kernel) (importer : Kernel) :
    Sound n (importer.restored kernel.exportSnapshot) := by
  have hcoherent := coherent_restored (valid_export h.coherent) importer
  have hprocesses : (importer.restored kernel.exportSnapshot).processManager =
      kernel.processManager := congrArg Prod.fst (importProcesses_export h)
  have hmemory : (importer.restored kernel.exportSnapshot).memoryManager =
      kernel.memoryManager := snapshotMemory_export h.coherent
  refine ⟨⟨?_, ?_⟩, hcoherent, ?_⟩
  · rw [hprocesses, hmemory]
    exact h.regular.core
  · rw [hprocesses]
    exact h.regular.counts
  · rw [hprocesses]
    exact h.native

theorem Sound.halted (h : Sound n kernel) : Sound n kernel.halted where
  regular := ⟨h.regular.core, h.regular.counts⟩
  coherent := ⟨h.coherent.accounts, h.coherent.matched, h.coherent.numbered, h.coherent.lineage,
    h.coherent.registered, fun hrunning => by cases hrunning⟩
  native := h.native

theorem Change.vfs (hc : Change command kernel kernel' success) :
    kernel'.vfs = kernel.vfs ∨ ∃ owner, FileChange owner kernel.vfs kernel'.vfs := by
  cases hc with
  | files owner _ hfiles => exact .inr ⟨owner, hfiles⟩
  | _ => exact .inl rfl

theorem importSnapshot_vfs (k : Kernel) (s : KernelSnapshot) :
    (k.importSnapshot s).1.vfs = k.vfs ∨ (k.importSnapshot s).1.vfs =
      (k.vfs.importNextFileId s.nextFileId).importFiles s.virtualFiles := by
  unfold importSnapshot
  split
  · exact .inl rfl
  · dsimp only
    split
    · exact .inl rfl
    · exact .inr rfl

end Kernel

namespace World

open Kernel

variable {w : World} {event : Event} {events : List Event} {n : ℕ}

/-- The number of files that an event creates; a `load` creates none. -/
def fileCreations (w : World) (event : Event) : ℕ :=
  if event.Named (str "load") then 0 else addedFiles w.kernel.vfs (w.step event).kernel.vfs

theorem vfs_step (hload : ¬event.Named (str "load")) :
    (w.step event).kernel.vfs = w.kernel.vfs ∨
      ∃ owner, FileChange owner w.kernel.vfs (w.step event).kernel.vfs := by
  have htick : w.kernel.schedulerTick.1.vfs = w.kernel.vfs :=
    tick_keeps (P := fun k => k.vfs = w.kernel.vfs) rfl fun _ _ => rfl
  exact step_keeps (P := fun k => k.vfs = w.kernel.vfs ∨
      ∃ owner, FileChange owner w.kernel.vfs k.vfs) hload (fun _ hc => hc.vfs) (.inl htick)

/-! ## The two invariants -/

/-- The kernel is sound, and so was every kernel that has been saved. -/
structure Restorable (n : ℕ) (w : World) : Prop where
  sound : Sound n w.kernel
  saved : ∀ s ∈ w.saved, ∃ k, Sound n k ∧ s = k.exportSnapshot

theorem restorable_kernel (h : Restorable n w) (hok : w.LoadsSaved event)
    (hroom : n + w.creations event < 2 ^ 32 - 1) :
    Sound (n + w.creations event) (w.step event).kernel := by
  by_cases hload : event.Named (str "load")
  · refine Sound.mono ?_ (Nat.le_add_right n _)
    rcases kernel_step_load hok hload with heq | heq | ⟨s, hmem, heq⟩
    · rw [heq]
      exact h.sound
    · rw [heq]
      exact h.sound.halted
    · obtain ⟨k, hk, rfl⟩ := h.saved s hmem
      rw [heq, importSnapshot_valid (valid_export hk.coherent)]
      exact sound_restored hk _
  · exact sound_step h.sound hload hroom

theorem restorable_step (h : Restorable n w) (hok : w.LoadsSaved event)
    (hroom : n + w.creations event < 2 ^ 32 - 1) :
    Restorable (n + w.creations event) (w.step event) where
  sound := restorable_kernel h hok hroom
  saved s hmem := by
    rcases saved_step w event s hmem with hold | rfl
    · obtain ⟨k, hk, heq⟩ := h.saved s hold
      exact ⟨k, hk.mono (Nat.le_add_right n _), heq⟩
    · exact ⟨w.kernel, h.sound.mono (Nat.le_add_right n _), rfl⟩

structure FilesInOrder (n : ℕ) (w : World) : Prop where
  files : Ordered n w.kernel.vfs
  saved : ∀ s ∈ w.saved, ∃ vfs, Ordered n vfs ∧ s.nextFileId = vfs.nextFileId ∧
    s.virtualFiles = vfs.exportFiles

theorem files_step (h : FilesInOrder n w) (hok : w.LoadsSaved event)
    (hroom : n + w.fileCreations event < 2 ^ 32 - 1) :
    Ordered (n + w.fileCreations event) (w.step event).kernel.vfs := by
  unfold fileCreations at hroom ⊢
  by_cases hload : event.Named (str "load")
  · rw [if_pos hload]
    rcases kernel_step_load hok hload with heq | heq | ⟨s, hmem, heq⟩
    · rw [heq]
      exact h.files
    · rw [heq]
      exact h.files
    · obtain ⟨vfs, hvfs, hnext, hfiles⟩ := h.saved s hmem
      rcases importSnapshot_vfs w.kernel.halted s with hsame | hnew
      · rw [heq, hsame]
        exact h.files
      · rw [heq, hnew, hnext, hfiles, hvfs.import_exportFiles]
        exact hvfs
  · rw [if_neg hload] at hroom ⊢
    rcases vfs_step hload with heq | ⟨owner, hc⟩
    · rw [heq] at hroom ⊢
      exact h.files.mono (Nat.le_add_right n _)
    · exact hc.ordered h.files hroom

theorem filesInOrder_step (h : FilesInOrder n w) (hok : w.LoadsSaved event)
    (hroom : n + w.fileCreations event < 2 ^ 32 - 1) :
    FilesInOrder (n + w.fileCreations event) (w.step event) where
  files := files_step h hok hroom
  saved s hmem := by
    rcases saved_step w event s hmem with hold | rfl
    · obtain ⟨vfs, hvfs, heq⟩ := h.saved s hold
      exact ⟨vfs, hvfs.mono (Nat.le_add_right n _), heq⟩
    · exact ⟨w.kernel.vfs, h.files.mono (Nat.le_add_right n _), rfl, rfl⟩

theorem restorable_run (hclean : w.kernel.Clean) (hnew : w.saved = [])
    (hloads : Runs.Permitted step LoadsSaved w events)
    (hprocesses : Runs.total step creations w events < 2 ^ 32 - 1) :
    Sound (0 + Runs.total step creations w events) (Runs.run step w events).kernel := by
  have hinit : Restorable 0 w := ⟨hclean.sound, by simp [hnew]⟩
  exact (Runs.run_invariant (fun _ _ _ h hok hroom => restorable_step h hok hroom) hinit hloads
    (by rwa [Nat.zero_add])).sound

theorem ordered_run (hclean : w.kernel.Clean) (hnew : w.saved = [])
    (hloads : Runs.Permitted step LoadsSaved w events)
    (hfiles : Runs.total step fileCreations w events < 2 ^ 32 - 1) :
    Ordered (0 + Runs.total step fileCreations w events) (Runs.run step w events).kernel.vfs := by
  have hinit : FilesInOrder 0 w := ⟨by rw [hclean.vfs]; exact ordered_empty, by simp [hnew]⟩
  exact (Runs.run_invariant (fun _ _ _ h hok hroom => filesInOrder_step h hok hroom) hinit hloads
    (by rwa [Nat.zero_add])).files

/-- In every state of a run from a clean start, importing the exported snapshot, into any
kernel, succeeds and gives that kernel the same accounts, processes, queues, memory and files,
without a session and with the scheduler stopped. -/
theorem import_export_of_run (hclean : w.kernel.Clean) (hnew : w.saved = [])
    (hloads : Runs.Permitted step LoadsSaved w events)
    (hprocesses : Runs.total step creations w events < 2 ^ 32 - 1)
    (hfiles : Runs.total step fileCreations w events < 2 ^ 32 - 1) (importer : Kernel) :
    importer.importSnapshot (Runs.run step w events).kernel.exportSnapshot =
      (importer.withStateOf (Runs.run step w events).kernel, true,
        str "Ready queue validation passed.") :=
  importSnapshot_export (restorable_run hclean hnew hloads hprocesses)
    (ordered_run hclean hnew hloads hfiles) importer

/-- Two processes and a file are saved, and one process is removed after they were loaded. -/
theorem import_export_of_run_reloaded :
    let w : World := { kernel := Kernel.start {} ∅ }
    let events := [console "register a pw", console "login a pw", console "create_pcb p 4 1 5",
      console "create_pcb q 4 1 5 1", console "write_file f x y"] ++
      [console "save", console "load"] ++ [console "login a pw", console "kill_pcb 2"]
    Kernel.importSnapshot {} (Runs.run step w events).kernel.exportSnapshot =
      (Kernel.withStateOf {} (Runs.run step w events).kernel, true,
        str "Ready queue validation passed.") := by
  refine import_export_of_run (w := { kernel := Kernel.start {} ∅ })
    (clean_start {} ∅ fun _ h => by cases h) rfl ?_
    (Nat.lt_of_le_of_lt (Runs.total_le_length creations_le_one _ _) (by decide))
    (by decide +kernel) {}
  refine Runs.permitted_append.mpr ⟨Runs.permitted_append.mpr ⟨loadsSaved_of_noLoad (by decide),
    ?_, ?_, trivial⟩, loadsSaved_of_noLoad (by decide)⟩
  · exact fun hload => absurd hload (by decide)
  · exact loadsSaved_step_save (by decide) (by decide +kernel)
      ⟨by decide +kernel, by decide +kernel, by decide +kernel, by decide +kernel, by decide +kernel,
        by decide +kernel⟩ _

end World

end OSCoreSim
