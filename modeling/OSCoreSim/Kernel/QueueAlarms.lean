import OSCoreSim.Kernel.FailedLoad
import OSCoreSim.Kernel.ReadyRun
import OSCoreSim.Kernel.StateFile
import OSCoreSim.View.QueueWarnings
/-!
# Queue alarms in reachable states

The queues index the READY processes in every run that loads nothing but its own state files,
so no entry is out of order.  What `overview` warns about there are the READY processes of other
users.
-/

namespace OSCoreSim

open ProcessManager CommandDispatcher OverviewRenderer

namespace Kernel

variable {pm : ProcessManager} {k : Kernel} {s : KernelSnapshot} {q : Fin 3} {pid : UInt32}

/-! ## The index after an import -/

theorem indexed_importProcesses (h : Indexed pm) (hpcbs : s.pcbs = pm.exportPcbs)
    (hqueues : s.readyQueues = pm.readyQueues) : Indexed (importProcesses s).1 := by
  have htable : (importPcbs s.pcbs).pcbTable = pm.pcbTable := by
    rw [hpcbs]
    exact h.keyed.import_exportPcbs
  have hget : ∀ k : UInt32, (((importPcbs s.pcbs).importNextPid s.nextPid).importReadyQueues
      s.readyQueues).rebuildParentChildRelations.pcbTable[k]? = pm.pcbTable[k]?.map fun pcb =>
        { pcb with children := childPids pm.pcbTable k pcb.owner } := by
    intro k
    rw [rebuildParentChildRelations_getElem?]
    exact htable ▸ rfl
  have hrebuilt : Indexed (((importPcbs s.pcbs).importNextPid s.nextPid).importReadyQueues
      s.readyQueues).rebuildParentChildRelations := by
    refine h.of_frame hqueues (fun k pcb hold => ?_) fun k pcb' hnew => ?_
    · exact ⟨pcb.memStart, _, by rw [hget, hold, Option.map_some]⟩
    · rw [hget] at hnew
      obtain ⟨pcb, hold, rfl⟩ := Option.map_eq_some_iff.mp hnew
      exact ⟨pcb, pcb.memStart, _, hold, rfl⟩
  rw [importProcesses, hrebuilt.validateReadyQueues]
  exact hrebuilt

theorem indexed_importSnapshot (h : Indexed pm) (hpcbs : s.pcbs = pm.exportPcbs)
    (hqueues : s.readyQueues = pm.readyQueues) (hk : Indexed k.processManager) :
    Indexed (k.importSnapshot s).1.processManager := by
  by_cases hvalid : ValidSnapshot s
  · rw [importSnapshot_valid hvalid]
    exact indexed_importProcesses h hpcbs hqueues
  · rwa [(importSnapshot_invalid hvalid).1]

/-! ## The overview command -/

theorem not_abnormal (h : Indexed pm) (hmem : pid ∈ pm.readyQueues q) : ¬Abnormal pm q pid := by
  intro habnormal
  obtain ⟨pcb, hget, hlevel⟩ := (h.mem_iff q pid).mp hmem
  obtain ⟨hready, hindex⟩ := readyLevel_eq_some.mp hlevel
  rcases habnormal pcb hget with hstate | hqueue | hswap
  · exact hstate hready
  · exact hqueue (queueIndex_eq_some.mp hindex)
  · rw [h.swappedOut_of_ready hget hready] at hswap
    cases hswap

/-- The section on the queues that `overview` shows the user `owner`. -/
def queuesShown (k : Kernel) (floats : FloatFormat) (owner : Str) : Str :=
  renderMLFQ floats k.processManager.readyQueues (k.processManager.getProcessCopiesForUser owner)

theorem executeRequest_overview (k : Kernel) (env : Environment) (disk : FileSystem)
    (request : CommandRequest) {owner : Str} (hname : (parse request.rawLine).name = str "overview")
    (hargs : (parse request.rawLine).arguments = [])
    (hlogin : k.userManager.currentUser = some owner) :
    ∃ above, (k.executeRequest env disk request).2.2 = reply true (above ++ str "\n\n" ++
      k.queuesShown env.floats owner ++ str "\n\n" ++ renderNotes) := by
  have hroute : k.routeCommand env disk request (parse request.rawLine) =
      (k, disk, k.handleOverview env.floats (parse request.rawLine)) := by
    unfold routeCommand
    rw [hname]
    rfl
  have hshown : k.handleOverview env.floats (parse request.rawLine) = reply true
      (render env.floats owner (k.processManager.getProcessCopiesForUser owner)
        k.processManager.readyQueues k.memoryManager.blocks k.memoryManager.totalMemoryKB
        { running := k.schedulerRunning, owner := k.schedulerOwner
          intervalMs := k.schedulerIntervalMs }
        k.snapshotStore.path k.memoryManager.algorithm.toText
        (k.vfs.fileCountForUser owner)) := by
    simp [handleOverview, UserManager.isLoggedIn, UserManager.currentUserName, hlogin, hargs]
  have hlogout : ¬str "overview" = str "logout" := by decide
  have hresponse : (k.executeRequest env disk request).2.2 =
      k.handleOverview env.floats (parse request.rawLine) := by
    simp only [executeRequest, hroute, hname, hlogout, hshown, reply, Bool.false_eq_true,
      and_false, or_self, if_false]
  rw [hresponse, hshown, render, queuesShown]
  exact ⟨_, rfl⟩

end Kernel

namespace World

open Kernel

variable {w : World} {event : Event} {events : List Event}

/-! ## Runs that load what they have saved -/

/-- The queues of the kernel and of every saved state index the READY processes. -/
structure QueuesInOrder (w : World) : Prop where
  indexed : Indexed w.kernel.processManager
  saved : ∀ s ∈ w.saved, ∃ pm, Indexed pm ∧ s.pcbs = pm.exportPcbs ∧
    s.readyQueues = pm.readyQueues

theorem queuesInOrder_step (h : QueuesInOrder w) (hok : w.LoadsSaved event) :
    QueuesInOrder (w.step event) where
  indexed := by
    by_cases hload : event.Named (str "load")
    · rcases kernel_step_load hok hload with heq | heq | ⟨s, hmem, heq⟩
      · rw [heq]
        exact h.indexed
      · rw [heq]
        exact h.indexed
      · obtain ⟨pm, hpm, hpcbs, hqueues⟩ := h.saved s hmem
        rw [heq]
        exact indexed_importSnapshot hpm hpcbs hqueues h.indexed
    · exact indexed_step h.indexed hload
  saved s hmem := by
    rcases saved_step w event s hmem with hold | rfl
    · exact h.saved s hold
    · exact ⟨w.kernel.processManager, h.indexed, rfl, rfl⟩

theorem queuesInOrder_run (hclean : w.kernel.Clean) (hnew : w.saved = [])
    (hloads : Runs.Permitted step LoadsSaved w events) : QueuesInOrder (Runs.run step w events) := by
  have hinit : QueuesInOrder w := by
    refine ⟨?_, by simp [hnew]⟩
    rw [hclean.processes]
    exact indexed_empty
  exact Runs.run_invariant' (fun _ _ h hok => queuesInOrder_step h hok) hinit hloads

/-- In every state of a run from a clean start every entry of the ready queues is in order, and
`overview` shows its user no warnings just when none of these entries is another user's. -/
theorem alarms_of_run (hclean : w.kernel.Clean) (hnew : w.saved = [])
    (hloads : Runs.Permitted step LoadsSaved w events) {owner : Str}
    (hlogin : (Runs.run step w events).kernel.userManager.currentUser = some owner)
    (env : Environment) (disk : FileSystem) (request : CommandRequest)
    (hname : (parse request.rawLine).name = str "overview")
    (hargs : (parse request.rawLine).arguments = []) :
    let k := (Runs.run step w events).kernel
    (∃ above, (k.executeRequest env disk request).2.2 = reply true (above ++ str "\n\n" ++
      k.queuesShown env.floats owner ++ str "\n\n" ++ renderNotes)) ∧
    (∀ q, ∀ pid ∈ k.processManager.readyQueues q, ¬Abnormal k.processManager q pid) ∧
    (WarnsNothing env.floats k.processManager.readyQueues
        (k.processManager.getProcessCopiesForUser owner) ↔
      OwnEntriesOnly owner k.processManager) := by
  intro k
  have hindexed := (queuesInOrder_run hclean hnew hloads).indexed
  have hnormal : ∀ q, ∀ pid ∈ k.processManager.readyQueues q, ¬Abnormal k.processManager q pid :=
    fun _ _ hmem => not_abnormal hindexed hmem
  exact ⟨executeRequest_overview k env disk request hname hargs hlogin, hnormal,
    warnsNothing_iff_own hindexed.keyed hnormal⟩

/-- One user with two READY processes. -/
theorem alarms_of_run_own :
    let events := [console "register a pw", console "login a pw", console "create_pcb p 4 1 5",
      console "create_pcb q 4 1 9"]
    let k := (Runs.run step { kernel := Kernel.start {} ∅ } events).kernel
    (∃ above, (k.executeRequest quietEnvironment ∅ { rawLine := str "overview" }).2.2 =
      reply true (above ++ str "\n\n" ++ k.queuesShown quietEnvironment.floats (str "a") ++
        str "\n\n" ++ renderNotes)) ∧
    (∀ q, ∀ pid ∈ k.processManager.readyQueues q, ¬Abnormal k.processManager q pid) ∧
    (WarnsNothing quietEnvironment.floats k.processManager.readyQueues
        (k.processManager.getProcessCopiesForUser (str "a")) ↔
      OwnEntriesOnly (str "a") k.processManager) :=
  alarms_of_run (clean_start {} ∅ fun _ h => by cases h) rfl (loadsSaved_of_noLoad (by decide))
    (by decide +kernel) quietEnvironment ∅ { rawLine := str "overview" } (by decide) (by decide)

/-- The user `b` has no process, the READY process 1 is `a`'s, and `overview` warns. -/
theorem alarm_foreign :
    let events := [console "register a pw", console "login a pw", console "create_pcb p 4 1 5",
      console "logout", console "register b pw", console "login b pw"]
    let k := (Runs.run step { kernel := Kernel.start {} ∅ } events).kernel
    k.userManager.currentUser = some (str "b") ∧
      (∀ q, ∀ pid ∈ k.processManager.readyQueues q, ¬Abnormal k.processManager q pid) ∧
      ¬WarnsNothing quietEnvironment.floats k.processManager.readyQueues
        (k.processManager.getProcessCopiesForUser (str "b")) := by
  intro events k
  have horder : QueuesInOrder (Runs.run step { kernel := Kernel.start {} ∅ } events) :=
    queuesInOrder_run (clean_start {} ∅ fun _ h => by cases h) rfl
      (loadsSaved_of_noLoad (by decide))
  refine ⟨by decide +kernel, fun _ _ hmem => not_abnormal horder.indexed hmem, ?_⟩
  intro hquiet
  have hentry := warnsNothing_iff.mp hquiet 0 1 (by decide +kernel)
  exact absurd hentry (by decide +kernel)

end World

end OSCoreSim
