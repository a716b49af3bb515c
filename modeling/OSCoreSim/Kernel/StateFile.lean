import OSCoreSim.Kernel.World
import OSCoreSim.Persistence.SnapshotCodec
/-!
# The save and load commands

What `save` and `load` do to the kernel, to the disk and to the list of saved snapshots.
-/

namespace OSCoreSim

open CommandDispatcher SnapshotStore

namespace Kernel

variable {k : Kernel} {fs fs' : FileSystem} {io : SaveIo} {snapshot : KernelSnapshot}

/-- `load` stops the scheduler before it opens the file. -/
def halted (k : Kernel) : Kernel := { k.haltScheduler with schedulerOwner := [] }

theorem handleLoad_error {k : Kernel} {fs : FileSystem} {message : Str}
    (h : k.snapshotStore.load fs = .error message) :
    k.handleLoad fs = (k.halted, reply false message) := by
  simp only [handleLoad, halted, haltScheduler, h]

theorem handleLoad_ok {k : Kernel} {fs : FileSystem} {snapshot : KernelSnapshot}
    (h : k.snapshotStore.load fs = .ok snapshot) :
    (k.handleLoad fs).1 = (k.halted.importSnapshot snapshot).1 ∧
      (k.handleLoad fs).2.success = (k.halted.importSnapshot snapshot).2.1 := by
  simp only [handleLoad, halted, haltScheduler, h]
  split
  next hout => simp only [hout, reply, and_self]
  next hout => simp only [hout, reply, and_self]

theorem handleSave_ok (h : (k.handleSave io fs).2.success = true) :
    k.snapshotStore.save io fs k.exportSnapshot = ((k.handleSave io fs).1, .ok ()) := by
  unfold handleSave at h ⊢
  dsimp only at h ⊢
  split at h
  · cases h
  next fs' hsave => rw [hsave]

theorem isPersistenceCommand_save {name : Str} (hname : name = str "save") :
    isPersistenceCommand name = true := by
  rw [hname]
  decide

theorem isPersistenceCommand_load {name : Str} (hname : name = str "load") :
    isPersistenceCommand name = true := by
  rw [hname]
  decide

theorem executeRequest_persistence (k : Kernel) (env : Environment) (fs : FileSystem)
    (request : CommandRequest) (hname : isPersistenceCommand (parse request.rawLine).name = true) :
    k.executeRequest env fs request =
      k.handlePersistenceCommand env.saveIo fs (parse request.rawLine) := by
  unfold executeRequest routeCommand
  generalize parse request.rawLine = command at hname ⊢
  have hcases : command.name = str "save" ∨ command.name = str "load" := by
    simpa [isPersistenceCommand] using hname
  have hsched : isSchedulerCommand command.name = false := by
    rcases hcases with h | h <;> rw [h] <;> decide
  have hlogout : command.name ≠ str "logout" := by
    rcases hcases with h | h <;> rw [h] <;> decide
  have hstay : (k.handlePersistenceCommand env.saveIo fs command).2.2.shouldExit = false := by
    unfold handlePersistenceCommand handleSave handleLoad
    dsimp only
    split
    · rfl
    split
    · split <;> rfl
    split
    · split
      · rfl
      · split <;> rfl
    · rfl
  simp only [hsched, hname, hlogout, hstay, if_true, if_false, Bool.false_eq_true, and_false,
    or_false]

theorem executeRequest_load (k : Kernel) (env : Environment) (fs : FileSystem)
    (request : CommandRequest) (hname : (parse request.rawLine).name = str "load")
    (hargs : (parse request.rawLine).arguments = []) :
    k.executeRequest env fs request = ((k.handleLoad fs).1, fs, (k.handleLoad fs).2) := by
  have hsave : ¬str "load" = str "save" := by decide
  rw [executeRequest_persistence k env fs request (isPersistenceCommand_load hname)]
  simp only [handlePersistenceCommand, hname, hargs, ne_eq, not_true_eq_false, hsave, if_true,
    if_false]

theorem executeRequest_usage (k : Kernel) (env : Environment) (fs : FileSystem)
    (request : CommandRequest) (hname : isPersistenceCommand (parse request.rawLine).name = true)
    (hargs : (parse request.rawLine).arguments ≠ []) : k.executeRequest env fs request =
      (k, fs, reply false (str "Usage: " ++ (parse request.rawLine).name)) := by
  rw [executeRequest_persistence k env fs request hname, handlePersistenceCommand, if_pos hargs]

theorem executeRequest_save_success {env : Environment} {request : CommandRequest}
    (hname : (parse request.rawLine).name = str "save")
    (hargs : (parse request.rawLine).arguments = [])
    (hsave : k.snapshotStore.save env.saveIo fs k.exportSnapshot = (fs', .ok ())) :
    (k.executeRequest env fs request).2.2.success = true := by
  have hpersist := isPersistenceCommand_save hname
  rw [executeRequest_persistence k env fs request hpersist]
  simp only [handlePersistenceCommand, handleSave, hname, hargs, hsave, ne_eq, not_true_eq_false,
    if_false, if_true, reply]

theorem executeRequest_save {env : Environment} {request : CommandRequest}
    (hname : (parse request.rawLine).name = str "save")
    (hsuccess : (k.executeRequest env fs request).2.2.success = true) :
    (k.executeRequest env fs request).1 = k ∧
      k.snapshotStore.save env.saveIo fs k.exportSnapshot =
        ((k.executeRequest env fs request).2.1, .ok ()) := by
  have hpersist := isPersistenceCommand_save hname
  by_cases hargs : (parse request.rawLine).arguments = []
  · have hrun : k.executeRequest env fs request =
        (k, (k.handleSave env.saveIo fs).1, (k.handleSave env.saveIo fs).2) := by
      rw [executeRequest_persistence k env fs request hpersist]
      simp only [handlePersistenceCommand, hname, hargs, ne_eq, not_true_eq_false, if_true,
        if_false]
    rw [hrun] at hsuccess ⊢
    exact ⟨rfl, handleSave_ok hsuccess⟩
  · rw [executeRequest_usage k env fs request hpersist hargs] at hsuccess
    cases hsuccess

end Kernel

namespace World

open Kernel

variable {w : World} {event : Event}

/-- If this `load` can read the state file, then the file holds a snapshot that was saved
before. -/
def LoadsSaved (w : World) (event : Event) : Prop :=
  event.Named (str "load") → ∀ s, w.kernel.snapshotStore.load w.disk = .ok s → s ∈ w.saved

theorem saved_step (w : World) (event : Event) :
    ∀ s ∈ (w.step event).saved, s ∈ w.saved ∨ s = w.kernel.exportSnapshot := by
  intro s hmem
  cases event with
  | tick => exact .inl hmem
  | request env request =>
    simp only [step] at hmem
    split at hmem
    · exact (List.mem_cons.mp hmem).symm
    · exact .inl hmem

/-- A `load` is refused, halts the scheduler, or imports a saved snapshot. -/
theorem kernel_step_load (hok : w.LoadsSaved event) (hload : event.Named (str "load")) :
    (w.step event).kernel = w.kernel ∨ (w.step event).kernel = w.kernel.halted ∨
      ∃ s ∈ w.saved, (w.step event).kernel = (w.kernel.halted.importSnapshot s).1 := by
  have hsaved := hok hload
  obtain ⟨command, hcommand, hname⟩ := hload
  obtain ⟨env, request, rfl, rfl⟩ := Event.exists_request hcommand
  by_cases hargs : (parse request.rawLine).arguments = []
  · simp only [step, executeRequest_load w.kernel env w.disk request hname hargs]
    cases hread : w.kernel.snapshotStore.load w.disk with
    | error message => exact .inr (.inl (by rw [handleLoad_error hread]))
    | ok s => exact .inr (.inr ⟨s, hsaved s hread, (handleLoad_ok hread).1⟩)
  · have hpersist := isPersistenceCommand_load hname
    refine .inl ?_
    simp only [step, executeRequest_usage w.kernel env w.disk request hpersist hargs]

theorem step_save (hsave : event.Named (str "save")) (hok : w.Succeeds event) :
    (∃ io, w.kernel.snapshotStore.save io w.disk w.kernel.exportSnapshot =
      ((w.step event).disk, .ok ())) ∧ (w.step event).kernel = w.kernel ∧
      (w.step event).saved = w.kernel.exportSnapshot :: w.saved := by
  have hnamed := hsave
  obtain ⟨command, hcommand, hname⟩ := hsave
  obtain ⟨env, request, rfl, rfl⟩ := Event.exists_request hcommand
  have hsaved : (w.step (.request env request)).saved = w.kernel.exportSnapshot :: w.saved :=
    if_pos ⟨hnamed, hok⟩
  have hsuccess := (succeeds_request w env request).mp hok
  obtain ⟨hkernel, hwritten⟩ := executeRequest_save hname hsuccess
  exact ⟨⟨env.saveIo, hwritten⟩, hkernel, hsaved⟩

theorem loadsSaved_of_noLoad {events : List Event} (h : NoLoad events) :
    Runs.Permitted step LoadsSaved w events :=
  Runs.permitted_of_forall fun event hmem _ hload => absurd hload (h event hmem)

/-- Right after a successful `save` of a readable state a `load` finds this state. -/
theorem loadsSaved_step_save (hsave : event.Named (str "save")) (hok : w.Succeeds event)
    (hreadable : SnapshotWithin readable w.kernel.exportSnapshot) (next : Event) :
    (w.step event).LoadsSaved next := by
  intro _ s hload
  obtain ⟨⟨io, hwritten⟩, hkernel, hsaved⟩ := step_save hsave hok
  rw [hkernel, load_of_save hreadable hwritten] at hload
  rw [hsaved, ← Except.ok.inj hload]
  exact List.mem_cons_self

end World

end OSCoreSim
