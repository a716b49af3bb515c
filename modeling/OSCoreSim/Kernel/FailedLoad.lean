import OSCoreSim.Kernel.SnapshotRestore
import OSCoreSim.Kernel.StateFile
/-!
# A load that fails

Whatever the state file holds, a failed `load` keeps users, session, processes, memory and
files: the decoder and the validation come before the first change of them, and the memory
check after the change never refuses.  What a failed `load` does change is the automatic
scheduler, which is stopped before the file is opened.
-/

namespace OSCoreSim

open CommandDispatcher

namespace Kernel

variable {k : Kernel} {fs : FileSystem} {snapshot : KernelSnapshot}

theorem importSnapshot_invalid (h : ¬ValidSnapshot snapshot) :
    (k.importSnapshot snapshot).1 = k ∧ (k.importSnapshot snapshot).2.1 = false := by
  unfold importSnapshot
  cases hcheck : validateSnapshot snapshot with
  | error message => exact ⟨rfl, rfl⟩
  | ok message => exact absurd (validateSnapshot_ok.mp ⟨message, hcheck⟩) h

theorem importSnapshot_failed (h : (k.importSnapshot snapshot).2.1 = false) :
    (k.importSnapshot snapshot).1 = k := by
  by_cases hvalid : ValidSnapshot snapshot
  · rw [importSnapshot_valid hvalid] at h
    cases h
  · exact (importSnapshot_invalid hvalid).1

theorem handleLoad_failed (h : (k.handleLoad fs).2.success = false) :
    (k.handleLoad fs).1 = k.halted := by
  cases hread : k.snapshotStore.load fs with
  | error message => rw [handleLoad_error hread]
  | ok snapshot =>
    obtain ⟨hkernel, hsuccess⟩ := handleLoad_ok hread
    rw [hsuccess] at h
    rw [hkernel, importSnapshot_failed h]

/-- The automatic scheduler stands still and nobody owns it. -/
def SchedulerIdle (k : Kernel) : Prop :=
  k.schedulerRunning = false ∧ k.scheduler.running = false ∧ k.schedulerOwner = []

instance (k : Kernel) : Decidable k.SchedulerIdle := inferInstanceAs (Decidable (_ ∧ _ ∧ _))

theorem halted_eq_iff : k.halted = k ↔ k.SchedulerIdle := by
  constructor
  · intro h
    have hidle : k.halted.SchedulerIdle := ⟨rfl, rfl, rfl⟩
    rwa [h] at hidle
  · rintro ⟨hrunning, hflag, howner⟩
    obtain ⟨_, _, _, scheduler, _, _, running, owner, _, _, _⟩ := k
    obtain ⟨flag⟩ := scheduler
    simp only at hrunning hflag howner
    subst hrunning hflag howner
    rfl

end Kernel

namespace Event

def HasArguments (event : Event) : Prop :=
  ∃ command, event.command = some command ∧ command.arguments ≠ []

end Event

namespace World

open Kernel

variable {w : World} {event : Event}

/-- A `load` fails and at most halts the scheduler, or restores a valid snapshot. -/
theorem load_cases (hload : event.Named (str "load")) :
    (¬w.Succeeds event ∧
        ((w.step event).kernel = w.kernel ∨ (w.step event).kernel = w.kernel.halted)) ∨
      (w.Succeeds event ∧ ∃ s, w.kernel.snapshotStore.load w.disk = .ok s ∧ ValidSnapshot s ∧
        (w.step event).kernel = w.kernel.halted.restored s) := by
  obtain ⟨command, hcommand, hname⟩ := hload
  obtain ⟨env, request, rfl, rfl⟩ := Event.exists_request hcommand
  rw [succeeds_request]
  simp only [step]
  by_cases hargs : (parse request.rawLine).arguments = []
  · rw [executeRequest_load w.kernel env w.disk request hname hargs]
    cases hread : w.kernel.snapshotStore.load w.disk with
    | error message =>
      rw [handleLoad_error hread]
      exact .inl ⟨Bool.false_ne_true, .inr rfl⟩
    | ok s =>
      obtain ⟨hkernel, hsuccess⟩ := handleLoad_ok hread
      by_cases hvalid : ValidSnapshot s
      · rw [importSnapshot_valid hvalid] at hkernel hsuccess
        exact .inr ⟨hsuccess, s, rfl, hvalid, hkernel⟩
      · rw [(importSnapshot_invalid hvalid).1] at hkernel
        rw [(importSnapshot_invalid hvalid).2] at hsuccess
        exact .inl ⟨Bool.not_eq_true _ ▸ hsuccess, .inr hkernel⟩
  · have hpersist := isPersistenceCommand_load hname
    rw [executeRequest_usage w.kernel env w.disk request hpersist hargs]
    exact .inl ⟨Bool.false_ne_true, .inl rfl⟩

theorem load_valid {s : KernelSnapshot} (hload : event.Named (str "load")) (hargs : ¬event.HasArguments)
    (hread : w.kernel.snapshotStore.load w.disk = .ok s) (hvalid : ValidSnapshot s) :
    w.Succeeds event ∧ (w.step event).kernel = w.kernel.halted.restored s := by
  obtain ⟨command, hcommand, hname⟩ := hload
  obtain ⟨env, request, rfl, rfl⟩ := Event.exists_request hcommand
  have hnil : (parse request.rawLine).arguments = [] := by
    by_contra hne
    exact hargs ⟨_, rfl, hne⟩
  obtain ⟨hkernel, hsuccess⟩ := handleLoad_ok hread
  rw [importSnapshot_valid hvalid] at hkernel hsuccess
  rw [succeeds_request]
  simp only [step, executeRequest_load w.kernel env w.disk request hname hnil]
  exact ⟨hsuccess, hkernel⟩

theorem not_hasArguments_of_load (hload : event.Named (str "load")) (hok : w.Succeeds event) :
    ¬event.HasArguments := by
  rintro ⟨command, hcommand, hargs⟩
  obtain ⟨command', hcommand', hname⟩ := hload
  rw [hcommand] at hcommand'
  cases hcommand'
  obtain ⟨env, request, rfl, rfl⟩ := Event.exists_request hcommand
  have hpersist := isPersistenceCommand_load hname
  rw [succeeds_request, executeRequest_usage w.kernel env w.disk request hpersist hargs] at hok
  exact absurd hok Bool.false_ne_true

def stopped (w : World) : World := { w with kernel := w.kernel.halted }

theorem stopped_eq_iff : w.stopped = w ↔ w.kernel.SchedulerIdle := by
  rw [← Kernel.halted_eq_iff]
  exact ⟨fun h => congrArg kernel h, fun h => by rw [stopped, h]⟩

/-- What a failed `load` leaves behind: with arguments everything, without arguments everything
but the running scheduler and its owner. -/
structure KeptByLoad (w : World) (event : Event) : Prop where
  users : (w.step event).kernel.userManager = w.kernel.userManager
  processes : (w.step event).kernel.processManager = w.kernel.processManager
  memory : (w.step event).kernel.memoryManager = w.kernel.memoryManager
  vfs : (w.step event).kernel.vfs = w.kernel.vfs
  disk : (w.step event).disk = w.disk
  refused : event.HasArguments → w.step event = w
  tried : ¬event.HasArguments → w.step event = w.stopped ∧ (w.step event).kernel.SchedulerIdle
  noop : w.step event = w ↔ event.HasArguments ∨ w.kernel.SchedulerIdle
  later : event.HasArguments ∨ w.kernel.SchedulerIdle →
    ∀ events, Runs.run step (w.step event) events = Runs.run step w events

theorem keptByLoad_of_step (hrefused : event.HasArguments → w.step event = w)
    (htried : ¬event.HasArguments → w.step event = w.stopped) : w.KeptByLoad event := by
  have hnoop : w.step event = w ↔ event.HasArguments ∨ w.kernel.SchedulerIdle := by
    by_cases hargs : event.HasArguments
    · exact ⟨fun _ => .inl hargs, fun _ => hrefused hargs⟩
    · rw [htried hargs, stopped_eq_iff]
      exact ⟨.inr, fun h => h.resolve_left hargs⟩
  -- either way everything but the scheduler is that of the world before
  have hkept : ∀ {α : Type} (field : World → α), field w.stopped = field w →
      field (w.step event) = field w := by
    intro α field hsame
    by_cases hargs : event.HasArguments
    · rw [hrefused hargs]
    · rw [htried hargs, hsame]
  exact {
    users := hkept (·.kernel.userManager) rfl
    processes := hkept (·.kernel.processManager) rfl
    memory := hkept (·.kernel.memoryManager) rfl
    vfs := hkept (·.kernel.vfs) rfl
    disk := hkept (·.disk) rfl
    refused := hrefused
    tried := fun hargs => ⟨htried hargs, by rw [htried hargs]; exact ⟨rfl, rfl, rfl⟩⟩
    noop := hnoop
    later := fun h events => by rw [hnoop.mpr h] }

/-- In every state and for every content of the state file a failed `load` stops the automatic
scheduler and does nothing else. -/
theorem kept_of_failed_load (hload : event.Named (str "load")) (hfail : ¬w.Succeeds event) :
    w.KeptByLoad event := by
  obtain ⟨command, hcommand, hname⟩ := hload
  obtain ⟨env, request, rfl, rfl⟩ := Event.exists_request hcommand
  have hsaved : ¬(Event.request env request).Named (str "save") := by
    rintro ⟨command, hcommand, hsave⟩
    rw [← Option.some.inj hcommand, hname] at hsave
    exact absurd hsave (by decide)
  have hsame : (w.step (.request env request)).saved = w.saved := if_neg fun h => hsaved h.1
  have hpersist := Kernel.isPersistenceCommand_load hname
  have hworld : ∀ {kernel : Kernel} {disk : FileSystem} {response : CommandResponse},
      w.kernel.executeRequest env w.disk request = (kernel, disk, response) →
        w.step (.request env request) = { w with kernel := kernel, disk := disk } := by
    intro kernel disk response hrun
    have hkernel : (w.step (.request env request)).kernel = kernel := congrArg Prod.fst hrun
    have hdisk : (w.step (.request env request)).disk = disk := congrArg (·.2.1) hrun
    generalize w.step (.request env request) = w' at hsame hkernel hdisk ⊢
    cases w'
    simp_all
  refine keptByLoad_of_step (fun hargs => ?_) fun hargs => ?_
  · obtain ⟨command, hcommand, hne⟩ := hargs
    cases hcommand
    exact hworld (Kernel.executeRequest_usage w.kernel env w.disk request hpersist hne)
  · have hnone : (parse request.rawLine).arguments = [] := by
      by_contra hne
      exact hargs ⟨_, rfl, hne⟩
    have hrun := Kernel.executeRequest_load w.kernel env w.disk request hname hnone
    rw [succeeds_request, hrun] at hfail
    rw [hworld hrun, Kernel.handleLoad_failed (by simpa using hfail)]
    rfl

def scheduled : World :=
  Runs.run step { kernel := Kernel.start {} ∅ } [console "register a pw", console "login a pw",
    console "create_pcb p 4 0 5", console "start_sched"]

theorem kept_of_failed_load_scheduled : scheduled.KeptByLoad (console "load") :=
  kept_of_failed_load (by decide) (by decide +kernel)

/-- The scheduler was running for `a`; after the failed `load` its next turn runs nothing. -/
theorem failed_load_stops_scheduler :
    let after := scheduled.step (console "load")
    ¬scheduled.Succeeds (console "load") ∧
      scheduled.kernel.schedulerRunning = true ∧ after.kernel.schedulerRunning = false ∧
      scheduled.kernel.schedulerOwner = str "a" ∧ after.kernel.schedulerOwner = [] ∧
      ((scheduled.step .tick).kernel.processManager.pcbTable[(1 : UInt32)]?.map
        (·.executedTime)) = some 2 ∧
      ((after.step .tick).kernel.processManager.pcbTable[(1 : UInt32)]?.map
        (·.executedTime)) = some 0 := by
  decide +kernel

end World

end OSCoreSim
