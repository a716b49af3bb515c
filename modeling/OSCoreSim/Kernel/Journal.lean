import OSCoreSim.Lib.Simulation
import OSCoreSim.Kernel.Isolation
import OSCoreSim.Kernel.FailedLoad
import OSCoreSim.Kernel.ReadyRun
import OSCoreSim.Kernel.Routing
/-!
# The journal of a run

A turn of the automatic scheduler is a `step` that the user could have typed, and a restart of
it is a stop and a start.  The views change nothing, and neither does a command that fails,
except a failed `login`, which is counted, and a failed `save`, which has touched the disk.  So a
run can be replayed from its journal: typed commands that change something.
-/

namespace OSCoreSim

open ProcessManager CommandDispatcher

namespace Kernel

variable {k : Kernel} {owner : Str} {command : Command}

/-! ## Commands of the scheduler -/

theorem step_typed (hlogin : k.userManager.currentUser = some owner) :
    k.handleSchedulerCommand (parse (str "step")) =
      ((k.schedulerStep owner).1, reply true (k.schedulerStep owner).2) := by
  have hparse : parse (str "step") = { rawLine := str "step", name := str "step" } := by decide
  simp [handleSchedulerCommand, hparse, UserManager.isLoggedIn, UserManager.currentUserName, hlogin]

theorem stop_typed (hlogin : k.userManager.currentUser = some owner) :
    (k.handleSchedulerCommand (parse (str "stop_sched"))).1 =
        (if k.schedulerRunning then k.haltScheduler else k) ∧
      (k.handleSchedulerCommand (parse (str "stop_sched"))).2.success = true := by
  have hparse : parse (str "stop_sched") =
      { rawLine := str "stop_sched", name := str "stop_sched" } := by decide
  have hstep : ¬str "stop_sched" = str "step" := by decide
  have hstart : ¬str "stop_sched" = str "start_sched" := by decide
  cases hrunning : k.schedulerRunning <;>
    simp [handleSchedulerCommand, hparse, UserManager.isLoggedIn, hlogin, hstep, hstart, hrunning,
      reply]

theorem start_typed (hlogin : k.userManager.currentUser = some owner)
    (hidle : k.schedulerRunning = false) :
    (k.handleSchedulerCommand (parse (str "start_sched"))).1 = k.runScheduler owner ∧
      (k.handleSchedulerCommand (parse (str "start_sched"))).2.success = true := by
  have hparse : parse (str "start_sched") =
      { rawLine := str "start_sched", name := str "start_sched" } := by decide
  have hstep : ¬str "start_sched" = str "step" := by decide
  simp [handleSchedulerCommand, hparse, UserManager.isLoggedIn, UserManager.currentUserName, hlogin,
    hstep, hidle, reply]

theorem restart_success (hname : command.name = str "restart_sched")
    (hok : (k.handleSchedulerCommand command).2.success = true) :
    ∃ owner, k.userManager.currentUser = some owner ∧ (k.handleSchedulerCommand command).1 =
      { k.haltScheduler with processManager := k.processManager.cleaned }.runScheduler owner := by
  have hstep : ¬str "restart_sched" = str "step" := by decide
  have hstart : ¬str "restart_sched" = str "start_sched" := by decide
  have hstop : ¬str "restart_sched" = str "stop_sched" := by decide
  unfold handleSchedulerCommand at hok ⊢
  split at hok
  · cases hok
  next hin =>
  obtain ⟨owner, hlogin⟩ := exists_login hin
  rw [if_neg hin]
  simp only [hname, currentUserName_of_login hlogin, hstep, hstart, hstop, if_false, if_true] at hok ⊢
  split at hok
  · cases hok
  next hargs =>
  rw [if_neg hargs]
  exact ⟨owner, hlogin, rfl⟩

/-- In a kernel whose queues index the READY processes a restart is a stop and a start. -/
theorem restarted_eq (h : Indexed k.processManager) :
    ({ k.haltScheduler with processManager := k.processManager.cleaned } : Kernel).runScheduler owner =
      (if k.schedulerRunning then k.haltScheduler else k).runScheduler owner := by
  rw [h.cleaned_eq]
  split <;> rfl

/-! ## Views -/

def queryNames : List Str :=
  [[], str "help", str "clear", str "status", str "whoami", str "show_mem", str "mem_stat",
    str "pgfault", str "show_pcb", str "list_pcb", str "ptree", str "readyq", str "overview",
    str "read_file", str "ls_file"]

theorem dispatch_query {managers : Managers} {now : Int64} {floats : FloatFormat}
    {context : CommandContext} (hname : command.name ∈ queryNames) :
    (dispatch now floats command context managers).1 = managers := by
  have hother : ∀ {name : Str}, name ∉ queryNames → command.name = name → False :=
    fun hnot heq => hnot (heq ▸ hname)
  apply dispatch_cases (C := fun out => out.1 = managers) (fun _ => rfl)
  case hpid =>
    intro hpid
    have hshow : command.name = str "show_pcb" := by
      rcases (by simpa [isPidCommand] using hpid) with h | h | h | h | h | h
      · exact (hother (by decide) h).elim
      · exact (hother (by decide) h).elim
      · exact (hother (by decide) h).elim
      · exact h
      · exact (hother (by decide) h).elim
      · exact (hother (by decide) h).elim
    rw [hshow]
    exact cases_requireLogin (C := fun out => out.1 = managers) (fun _ => rfl) fun _ _ =>
      cases_withPid (C := fun out => out.1 = managers) (fun _ => rfl) fun _ _ => rfl
  all_goals exact fun h => (hother (by decide) h).elim

theorem executeRequest_query (k : Kernel) (env : Environment) (fs : FileSystem)
    (request : CommandRequest) (hname : (parse request.rawLine).name ∈ queryNames) :
    (k.executeRequest env fs request).1 = k ∧ (k.executeRequest env fs request).2.1 = fs := by
  have hother : ∀ {name : Str}, name ∉ queryNames → (parse request.rawLine).name ≠ name :=
    fun hnot heq => hnot (heq ▸ hname)
  by_cases hvfs : isVfsCommand (parse request.rawLine).name = true
  · rw [executeRequest_vfs k env fs request hvfs]
    refine ⟨?_, rfl⟩
    unfold handleVfsCommand
    split
    · rfl
    simp only
    rw [if_neg (hother (by decide)), if_neg (hother (by decide))]
    split
    · split <;> rfl
    split
    · split <;> rfl
    rw [if_neg (hother (by decide))]
  have hsched : isSchedulerCommand (parse request.rawLine).name = false := by
    simp [isSchedulerCommand, hother (show str "start_sched" ∉ queryNames by decide),
      hother (show str "stop_sched" ∉ queryNames by decide),
      hother (show str "restart_sched" ∉ queryNames by decide),
      hother (show str "step" ∉ queryNames by decide)]
  have hpersist : isPersistenceCommand (parse request.rawLine).name = false := by
    simp [isPersistenceCommand, hother (show str "save" ∉ queryNames by decide),
      hother (show str "load" ∉ queryNames by decide)]
  have hlogout := hother (show str "logout" ∉ queryNames by decide)
  have hexit : ¬((parse request.rawLine).name = str "exit" ∨ (parse request.rawLine).name = str "quit") :=
    not_or.mpr ⟨hother (by decide), hother (by decide)⟩
  by_cases hview : isVisualizationCommand (parse request.rawLine).name = true
  · have hroute : k.routeCommand env fs request (parse request.rawLine) =
        (k.withManagers k.managers, fs, k.handleOverview env.floats (parse request.rawLine)) := by
      unfold routeCommand
      simp only [hsched, hpersist, hview, if_true, if_false, Bool.false_eq_true]
      rfl
    have hstay : (k.handleOverview env.floats (parse request.rawLine)).shouldExit = false :=
      (handled_overview (k := k)).1
    rw [@executeRequest_dispatched k env fs request (k.managers, _) hroute hlogout hstay]
    exact ⟨rfl, rfl⟩
  · have hroute : k.routeCommand env fs request (parse request.rawLine) =
        (k.withManagers (dispatch env.steadyClock env.floats (parse request.rawLine)
          (k.commandContext request) k.managers).1, fs,
          (dispatch env.steadyClock env.floats (parse request.rawLine)
            (k.commandContext request) k.managers).2) := by
      unfold routeCommand
      simp only [hsched, hpersist, hview, hvfs, if_false, Bool.false_eq_true]
      rfl
    rw [executeRequest_dispatched hroute hlogout (gives_dispatch hexit hlogout).1]
    exact ⟨by rw [dispatch_query hname]; rfl, rfl⟩

end Kernel

namespace World

open Kernel

variable {w : World} {event : Event} {events : List Event}

/-! ## Turns of the scheduler, typed -/

/-- A turn of the running scheduler is typed as `step`, an idle turn is left out. -/
def typed (w : World) (event : Event) : List Event :=
  match event with
  | .tick => if w.kernel.schedulerRunning ∧ w.kernel.schedulerOwner ≠ [] then [console "step"] else []
  | .request env request => [.request env request]

/-- The scheduler never runs for anybody but the user who is logged in, also behind a `load`. -/
theorem attended_always (h : Attended w.kernel) (event : Event) : Attended (w.step event).kernel := by
  by_cases hload : event.Named (str "load")
  · rcases load_cases hload with ⟨-, heq | heq⟩ | ⟨-, s, -, -, heq⟩
    · rwa [heq]
    · rw [heq]
      exact fun hrunning => by cases hrunning
    · rw [heq]
      exact fun hrunning => by cases hrunning
  · exact attended_step h hload

theorem attended_clean (h : w.kernel.Clean) : Attended w.kernel := by
  intro hrunning
  rw [h.running] at hrunning
  cases hrunning

theorem step_request {env : Environment} {request : CommandRequest}
    (hsave : (parse request.rawLine).name ≠ str "save") : w.step (.request env request) =
      { w with
        kernel := (w.kernel.executeRequest env w.disk request).1
        disk := (w.kernel.executeRequest env w.disk request).2.1 } := by
  have hnot : ¬(Event.request env request).Named (str "save") := by
    rintro ⟨command, hcommand, hname⟩
    rw [← Option.some.inj hcommand] at hname
    exact hsave hname
  rw [step, if_neg fun h => hnot h.1]

theorem step_scheduler {env : Environment} {request : CommandRequest}
    (hname : isSchedulerCommand (parse request.rawLine).name = true) :
    w.step (.request env request) =
      { w with kernel := (w.kernel.handleSchedulerCommand (parse request.rawLine)).1 } := by
  have hsave : (parse request.rawLine).name ≠ str "save" := by
    intro heq
    rw [heq] at hname
    exact absurd hname (by decide)
  rw [step_request hsave, executeRequest_scheduler w.kernel env w.disk request hname]

/-- Typed by the user who is logged in, `step` is a turn of the scheduler. -/
theorem step_console_step (h : Attended w.kernel)
    (hrunning : w.kernel.schedulerRunning = true ∧ w.kernel.schedulerOwner ≠ []) :
    w.step (console "step") = w.step .tick := by
  rw [console, step_scheduler (by decide), step_typed (h hrunning.1), step, schedulerTick,
    if_pos hrunning]

theorem run_typed (h : Attended w.kernel) (event : Event) :
    Runs.run step w (w.typed event) = w.step event := by
  cases event with
  | request env request => rfl
  | tick =>
    unfold typed
    by_cases hrunning : w.kernel.schedulerRunning ∧ w.kernel.schedulerOwner ≠ []
    · rw [if_pos hrunning, Runs.run_cons, Runs.run_nil, step_console_step h hrunning]
    · rw [if_neg hrunning, Runs.run_nil, step, schedulerTick, if_neg hrunning]

/-- The automatic scheduler does nothing that its owner could not have typed: with a `step` in the
place of each of its turns every run, also one with loads, ends in the same world. -/
theorem typed_of_run (hclean : w.kernel.Clean) (events : List Event) :
    Runs.run step w (Runs.emitted step typed w events) = Runs.run step w events ∧
      ∀ event ∈ Runs.emitted step typed w events, event ≠ .tick := by
  constructor
  · have hboth : Attended (Runs.run step w events).kernel ∧
        Runs.run step w (Runs.emitted step typed w events) = Runs.run step w events :=
      Runs.simulates' (R := fun (s t : World) => Attended s.kernel ∧ t = s)
        (fun s t event h => ⟨attended_always h.1 event, by rw [h.2, run_typed h.1]⟩)
        ⟨attended_clean hclean, rfl⟩ events
    exact hboth.2
  · intro event hmem
    obtain ⟨before, original, after, -, htyped⟩ := Runs.mem_emitted.mp hmem
    cases original with
    | request env request =>
      rw [List.mem_singleton.mp htyped]
      exact Event.noConfusion
    | tick =>
      simp only [typed] at htyped
      split at htyped
      · rw [List.mem_singleton.mp htyped]
        exact Event.noConfusion
      · cases htyped

/-- The scheduler is restarted while it runs, and its owner is gone at the last turn. -/
theorem typed_of_run_restarted :
    let w : World := { kernel := Kernel.start {} ∅ }
    let events := [console "register a pw", console "login a pw", console "create_pcb p 4 1 5",
      console "start_sched", .tick, console "restart_sched", .tick, console "logout", .tick]
    Runs.run step w (Runs.emitted step typed w events) = Runs.run step w events ∧
      ∀ event ∈ Runs.emitted step typed w events, event ≠ .tick :=
  typed_of_run (clean_start {} ∅ fun _ h => by cases h) _

/-! ## The journal -/

/-- The commands that may leave something behind when they fail. -/
def tracingNames : List Str := [str "login", str "save"]

def journal (w : World) (event : Event) : List Event :=
  match event with
  | .tick => w.typed .tick
  | .request env request =>
    let name := (parse request.rawLine).name
    if queryNames.contains name then []
    else if name = str "restart_sched" ∧ w.Succeeds (.request env request) then
      [console "stop_sched", console "start_sched"]
    else if tracingNames.contains name ∨ w.Succeeds (.request env request) then
      [.request env request]
    else []

/-- An entry of a journal: a typed command that is none of the views and no restart, and that
succeeds when it is replayed, unless it is a `login` or a `save`. -/
def Entry (w : World) (event : Event) : Prop :=
  ∃ command, event.command = some command ∧ command.name ∉ queryNames ∧
    command.name ≠ str "restart_sched" ∧ (command.name ∈ tracingNames ∨ w.Succeeds event)

/-- What the journal needs of the state that an event finds. -/
structure Replayable (n : ℕ) (w : World) : Prop where
  regular : Regular n w.kernel
  attended : Attended w.kernel

theorem succeeds_scheduler {env : Environment} {request : CommandRequest}
    (hname : isSchedulerCommand (parse request.rawLine).name = true) :
    w.Succeeds (.request env request) ↔
      (w.kernel.handleSchedulerCommand (parse request.rawLine)).2.success = true := by
  rw [succeeds_request, executeRequest_scheduler w.kernel env w.disk request hname]

theorem replay_restart (h : Indexed w.kernel.processManager) {env : Environment}
    {request : CommandRequest} (hname : (parse request.rawLine).name = str "restart_sched")
    (hok : w.Succeeds (.request env request)) :
    (w.step (console "stop_sched")).step (console "start_sched") = w.step (.request env request) ∧
      w.Succeeds (console "stop_sched") ∧
      (w.step (console "stop_sched")).Succeeds (console "start_sched") := by
  have hsched : isSchedulerCommand (parse request.rawLine).name = true := by
    rw [hname]
    decide
  rw [succeeds_scheduler hsched] at hok
  obtain ⟨owner, hlogin, hrestart⟩ := restart_success hname hok
  obtain ⟨hstop, hstopped⟩ := stop_typed hlogin
  have hmid : w.step (console "stop_sched") =
      { w with kernel := if w.kernel.schedulerRunning then w.kernel.haltScheduler else w.kernel } := by
    rw [console, step_scheduler (by decide), hstop]
  have hidle : (if w.kernel.schedulerRunning then w.kernel.haltScheduler
      else w.kernel).schedulerRunning = false := by
    split
    · rfl
    next hrunning => exact Bool.not_eq_true _ ▸ hrunning
  have hlogin' : (if w.kernel.schedulerRunning then w.kernel.haltScheduler
      else w.kernel).userManager.currentUser = some owner := by
    split <;> exact hlogin
  obtain ⟨hstart, hstarted⟩ := start_typed hlogin' hidle
  refine ⟨?_, ?_, ?_⟩
  · rw [hmid, console, step_scheduler (by decide), hstart, step_scheduler hsched, hrestart,
      restarted_eq h]
  · exact (succeeds_scheduler (by decide)).mpr hstopped
  · rw [hmid]
    exact (succeeds_scheduler (by decide)).mpr hstarted

/-- A command that neither views nor succeeds leaves the world as it was, unless it traces. -/
theorem step_idle {n : ℕ} (h : Replayable n w) {env : Environment} {request : CommandRequest}
    (hload : (parse request.rawLine).name ≠ str "load")
    (htraces : (parse request.rawLine).name ∉ tracingNames)
    (hfails : ¬w.Succeeds (.request env request)) : w.step (.request env request) = w := by
  have hlogin : (parse request.rawLine).name ≠ str "login" := fun heq => htraces (by simp [heq, tracingNames])
  have hsave : (parse request.rawLine).name ≠ str "save" := fun heq => htraces (by simp [heq, tracingNames])
  rw [succeeds_request, Bool.not_eq_true] at hfails
  have hchange := executeRequest_change w.kernel env w.disk request hload
  rw [hfails] at hchange
  rw [step_request hsave, h.regular.unchanged hchange hlogin, executeRequest_disk hsave]

theorem replay_event {n : ℕ} (h : Replayable n w) (hload : ¬event.Named (str "load")) :
    Runs.run step w (w.journal event) = w.step event ∧
      Runs.Permitted step Entry w (w.journal event) := by
  cases event with
  | tick =>
    refine ⟨run_typed h.attended .tick, ?_⟩
    by_cases hrunning : w.kernel.schedulerRunning ∧ w.kernel.schedulerOwner ≠ []
    · have hstep : w.journal .tick = [console "step"] := if_pos hrunning
      rw [hstep]
      refine ⟨⟨parse (str "step"), rfl, by decide, by decide, .inr ?_⟩, trivial⟩
      refine (succeeds_scheduler (by decide)).mpr ?_
      rw [step_typed (h.attended hrunning.1)]
      rfl
    · have hnone : w.journal .tick = [] := if_neg hrunning
      rw [hnone]
      trivial
  | request env request =>
    have hname : (parse request.rawLine).name ≠ str "load" := fun heq => hload ⟨_, rfl, heq⟩
    simp only [journal, List.contains_iff_mem]
    split
    next hquery =>
      refine ⟨?_, trivial⟩
      have hsave : (parse request.rawLine).name ≠ str "save" := by
        intro heq
        rw [heq] at hquery
        exact absurd hquery (by decide)
      obtain ⟨hkernel, hdisk⟩ := executeRequest_query w.kernel env w.disk request hquery
      rw [Runs.run_nil, step_request hsave, hkernel, hdisk]
    next hquery =>
    split
    next hrestart =>
      obtain ⟨hrun, hstop, hstart⟩ := replay_restart h.regular.core.indexed hrestart.1 hrestart.2
      exact ⟨hrun, ⟨_, rfl, by decide, by decide, .inr hstop⟩,
        ⟨_, rfl, by decide, by decide, .inr hstart⟩, trivial⟩
    next hrestart =>
    split
    next hkept =>
      refine ⟨rfl, ⟨_, rfl, hquery, fun heq => ?_, hkept⟩, trivial⟩
      refine hrestart ⟨heq, hkept.resolve_left ?_⟩
      rw [heq]
      decide
    next hlost =>
      rw [not_or] at hlost
      exact ⟨(step_idle h hname hlost.1 hlost.2).symm, trivial⟩

theorem replayable_run (hclean : w.kernel.Clean) (hload : NoLoad events)
    (hbudget : Runs.total step creations w events < 2 ^ 32 - 1) :
    Runs.Permitted step (fun w event => (∃ n, Replayable n w) ∧ ¬event.Named (str "load")) w events :=
  Runs.permitted_of_invariant (P := Replayable)
    (fun _ _ event h (hok : ¬event.Named (str "load")) hlt =>
      ⟨regular_step h.regular hok hlt, attended_always h.attended event⟩)
    (fun n _ _ h hok => ⟨⟨n, h⟩, hok⟩) ⟨hclean.regular, attended_clean hclean⟩ (hload.permitted w)
    (by rwa [Nat.zero_add])

/-- A run without `load` is replayed from its journal: the typed commands that succeed and change
something, and the logins and saves.  No view, no restart and no turn of the timer is needed. -/
theorem journal_of_run (hclean : w.kernel.Clean) (hload : NoLoad events)
    (hbudget : Runs.total step creations w events < 2 ^ 32 - 1) :
    Runs.run step w (Runs.emitted step journal w events) = Runs.run step w events ∧
      Runs.Permitted step Entry w (Runs.emitted step journal w events) := by
  have hok := replayable_run hclean hload hbudget
  have hmatch : ∀ (s t : World) event, t = s →
      (∃ n, Replayable n s) ∧ ¬event.Named (str "load") →
        Runs.run step t (s.journal event) = s.step event ∧
          Runs.Permitted step Entry t (s.journal event) := by
    rintro s t event rfl ⟨⟨n, h⟩, hnot⟩
    exact replay_event h hnot
  exact ⟨Runs.simulates (R := fun s t => t = s) (fun s t e h hnext => (hmatch s t e h hnext).1) rfl hok,
    Runs.permitted_emitted (R := fun s t => t = s) (fun s t e h hnext => (hmatch s t e h hnext).1)
      (fun s t e h hnext => (hmatch s t e h hnext).2) rfl hok⟩

/-- Views, a refused command, a failed login, a restart and a turn of the timer. -/
theorem journal_of_run_session :
    let w : World := { kernel := Kernel.start {} ∅ }
    let events := [console "register a pw", console "login a no", console "login a pw",
      console "create_pcb p 4 1 5", console "kill_pcb 7", console "ptree", console "restart_sched",
      .tick, console "overview"]
    Runs.run step w (Runs.emitted step journal w events) = Runs.run step w events ∧
      Runs.Permitted step Entry w (Runs.emitted step journal w events) :=
  journal_of_run (clean_start {} ∅ fun _ h => by cases h) (by decide)
    (Nat.lt_of_le_of_lt (Runs.total_le_length creations_le_one _ _) (by decide))

end World

end OSCoreSim
