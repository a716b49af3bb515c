import OSCoreSim.Kernel.World
import OSCoreSim.Process.ProcessRun
/-!
# The process manager inside the kernel

Every request but `load` makes at most one call of the process manager.  `Calls` says which one,
and keeps the command behind a wakeup, the one call that gives a blocked process back to the
queues.
-/

namespace OSCoreSim

open ProcessManager CommandDispatcher

namespace ProcessManager

def ProcessOp.wakes : ProcessOp → Option UInt32
  | .wakeup _ pid => some pid
  | _ => none

end ProcessManager

def Event.Asks (name : Str) (pid : UInt32) (event : Event) : Prop :=
  ∃ command, event.command = some command ∧ command.name = name ∧
    pidArgument command.arguments = some pid

instance (name : Str) (pid : UInt32) (event : Event) : Decidable (event.Asks name pid) :=
  match h : event.command with
  | some command =>
    decidable_of_iff (command.name = name ∧ pidArgument command.arguments = some pid)
      (by simp [Event.Asks, h])
  | none => isFalse (by simp [Event.Asks, h])

namespace Kernel

/-- The process manager after a command, and whether the command succeeded. -/
inductive Calls (command : Command) (pm : ProcessManager) : ProcessManager → Bool → Prop
  | untouched (success : Bool) : Calls command pm pm success
  | wakeup (owner : Str) (pid : UInt32) (hname : command.name = str "wakeup_pcb")
      (hpid : pidArgument command.arguments = some pid) {pm' : ProcessManager} {message : Str}
      (h : pm.wakeupProcess owner pid = .ok (pm', message)) : Calls command pm pm' true
  | perform (op : ProcessOp) (hop : op.wakes = none) (success : Bool) :
      Calls command pm (pm.perform op) success
  | compact (starts : List (UInt32 × UInt32)) : Calls command pm (updateStarts pm starts) true
  | cleanup : Calls command pm pm.cleanupInvalidReadyQueueEntries.1 true

/-! ## The dispatcher -/

def Calling (command : Command) (m : Managers) (out : Managers × CommandResponse) : Prop :=
  Calls command m.processes out.1.processes out.2.success

variable {command : Command} {m : Managers} {body : Managers × CommandResponse}

theorem calling_untouched {out : Managers × CommandResponse}
    (h : out.1.processes = m.processes) : Calling command m out := by
  unfold Calling
  rw [h]
  exact .untouched _

theorem calling_requireLogin (h : Calling command m body) :
    Calling command m (requireLogin m body) := by
  unfold requireLogin
  split
  · exact h
  · exact calling_untouched rfl

theorem calling_withPid {usage : Str} {arguments : List Str}
    {pidBody : UInt32 → Managers × CommandResponse}
    (h : ∀ pid, pidArgument arguments = some pid → Calling command m (pidBody pid)) :
    Calling command m (withPid m usage arguments pidBody) := by
  unfold withPid
  split
  · split
    next hpid => exact h _ hpid
    next => exact calling_untouched rfl
  · exact calling_untouched rfl

theorem calling_withoutArguments {name : Str} {arguments : List Str}
    (h : Calling command m body) : Calling command m (withoutArguments m name arguments body) := by
  unfold withoutArguments
  split
  · exact calling_untouched rfl
  · exact h

theorem calling_viewCommand {name : Str} {arguments : List Str} {view : Str → Str} :
    Calling command m (viewCommand m name arguments view) :=
  calling_requireLogin (calling_withoutArguments (calling_untouched rfl))

theorem calling_registerCommand {now : Int64} {arguments : List Str} :
    Calling command m (registerCommand now m arguments) := by
  unfold registerCommand
  split
  · split <;> exact calling_untouched rfl
  · exact calling_untouched rfl

theorem calling_loginCommand {arguments : List Str} :
    Calling command m (loginCommand m arguments) := by
  unfold loginCommand
  split <;> exact calling_untouched rfl

theorem calling_logoutCommand : Calling command m (logoutCommand m) := by
  unfold logoutCommand
  split <;> exact calling_untouched rfl

theorem calling_memoryResult {result : Except Str (MemoryManager × Str)} :
    Calling command m (memoryResult m result) := by
  unfold memoryResult
  split <;> exact calling_untouched rfl

theorem calls_of_ok {pm pm' : ProcessManager} {α : Type} {rest : α}
    {result : Except Str (ProcessManager × α)} (op : ProcessOp) (hop : op.wakes = none)
    (h : pm.perform op = pm.keep result) (hok : result = .ok (pm', rest)) :
    Calls command pm pm' true := by
  have hcall : Calls command pm (pm.perform op) true := .perform op hop true
  rw [h, hok] at hcall
  exact hcall

theorem calling_processResult {result : Except Str (ProcessManager × Str)} (op : ProcessOp)
    (hop : op.wakes = none) (h : m.processes.perform op = m.processes.keep result) :
    Calling command m (processResult m result) := by
  cases result with
  | error message => exact calling_untouched rfl
  | ok pair => exact calls_of_ok op hop h rfl

theorem calling_createCommand {arguments : List Str} :
    Calling command m (createCommand m arguments) := by
  refine calling_requireLogin ?_
  split
  · exact calling_untouched rfl
  next args hargs =>
  unfold createWithMemory
  simp only
  split
  · exact calling_untouched rfl
  next memory start text halloc =>
  split
  next pm pid message hcreate =>
    exact calls_of_ok (.create m.users.currentUserName args.name args.memKB start args.priority
      args.totalTime args.ppid) rfl rfl hcreate
  next message hcreate => split <;> exact calling_untouched rfl

theorem calling_compactCommand {arguments : List Str} :
    Calling command m (compactCommand m arguments) :=
  calling_requireLogin (calling_withoutArguments (.compact _))

theorem calling_pgfaultCommand {arguments : List Str} :
    Calling command m (pgfaultCommand m arguments) := by
  refine calling_requireLogin ?_
  split
  · exact calling_untouched rfl
  · exact calling_withPid fun pid _ => by split <;> exact calling_untouched rfl

theorem calling_swapOutCommand {arguments : List Str} :
    Calling command m (swapOutCommand m arguments) := by
  refine calling_requireLogin (calling_withPid fun pid _ => ?_)
  unfold swapOut
  split
  · exact calling_untouched rfl
  split
  · exact calling_untouched rfl
  split
  · exact calling_untouched rfl
  split
  next hmark => exact calls_of_ok (.swapOut m.users.currentUserName pid) rfl rfl hmark
  next => exact calling_untouched rfl

theorem calling_killSubtree {owner : Str} {pid : UInt32} :
    Calling command m (killSubtree m owner pid) := by
  unfold killSubtree
  split
  next => exact calling_untouched rfl
  next hkill => exact calls_of_ok (.kill owner pid) rfl rfl hkill

theorem calling_wakeup {owner : Str} {pid : UInt32} (hname : command.name = str "wakeup_pcb")
    (hpid : pidArgument command.arguments = some pid) :
    Calling command m (processResult m (m.processes.wakeupProcess owner pid)) := by
  cases hwake : m.processes.wakeupProcess owner pid with
  | error message => exact calling_untouched rfl
  | ok pair => exact .wakeup owner pid hname hpid hwake

theorem calling_pidCommand : Calling command m (pidCommand m command.name command.arguments) := by
  refine calling_requireLogin (calling_withPid fun pid hpid => ?_)
  simp only
  split
  · exact calling_untouched rfl
  split
  · exact calling_killSubtree
  split
  · exact calling_processResult (.block _ pid) rfl rfl
  split
  next hname => exact calling_wakeup hname hpid
  split
  · exact calling_processResult (.suspend _ pid) rfl rfl
  · exact calling_processResult (.resume _ pid) rfl rfl

theorem calling_reniceCommand {arguments : List Str} :
    Calling command m (reniceCommand m arguments) := by
  refine calling_requireLogin ?_
  split
  · split
    next pid priority _ _ => exact calling_processResult (.renice _ pid priority) rfl rfl
    next => exact calling_untouched rfl
  · exact calling_untouched rfl

theorem calling_ite {c : Prop} [Decidable c] {a b : Managers × CommandResponse}
    (ha : Calling command m a) (hb : Calling command m b) :
    Calling command m (if c then a else b) := by
  split
  · exact ha
  · exact hb

theorem calling_dispatch {now : Int64} {floats : FloatFormat} {context : CommandContext} :
    Calling command m (dispatch now floats command context m) := by
  have hsame : ∀ {success : Bool} {message : Str}, Calling command m (m, reply success message) :=
    calling_untouched rfl
  have hmemory : ∀ {arguments : List Str}, Calling command m (allocCommand m arguments) := by
    intro arguments
    refine calling_requireLogin ?_
    split
    · exact hsame
    · exact calling_ite hsame calling_memoryResult
  have halgorithm : ∀ {arguments : List Str},
      Calling command m (setAllocAlgoCommand m arguments) := by
    intro arguments
    refine calling_requireLogin ?_
    split
    · exact calling_memoryResult
    · exact hsame
  refine calling_ite hsame (calling_ite hsame (calling_ite (calling_untouched rfl) ?_))
  refine calling_ite hsame (calling_ite hsame ?_)
  refine calling_ite calling_registerCommand (calling_ite calling_loginCommand ?_)
  refine calling_ite calling_logoutCommand (calling_ite hsame ?_)
  refine calling_ite calling_createCommand (calling_ite hmemory ?_)
  refine calling_ite (calling_requireLogin (calling_withPid fun _ _ => calling_memoryResult)) ?_
  refine calling_ite calling_viewCommand (calling_ite calling_viewCommand ?_)
  refine calling_ite halgorithm (calling_ite calling_compactCommand ?_)
  refine calling_ite calling_pgfaultCommand (calling_ite calling_swapOutCommand ?_)
  refine calling_ite calling_pidCommand (calling_ite calling_reniceCommand ?_)
  refine calling_ite calling_viewCommand (calling_ite calling_viewCommand ?_)
  exact calling_ite calling_viewCommand (calling_ite hsame hsame)

/-! ## The kernel -/

theorem calls_schedulerCommand (k : Kernel) :
    Calls command k.processManager (k.handleSchedulerCommand command).1.processManager
      (k.handleSchedulerCommand command).2.success := by
  unfold handleSchedulerCommand
  split
  · exact .untouched _
  simp only
  split
  · exact .untouched _
  split
  · exact .perform (.step k.userManager.currentUserName k.memoryManager) rfl true
  split
  · split <;> exact .untouched _
  split
  · split <;> exact .untouched _
  split
  · exact .cleanup
  · exact .untouched _

theorem processManager_vfsCommand (k : Kernel) (time : UInt64) (command : Command) :
    (k.handleVfsCommand time command).1.processManager = k.processManager := by
  have hresult : ∀ result, (k.vfsResult result).1.processManager = k.processManager := by
    intro result
    unfold vfsResult
    split <;> rfl
  unfold handleVfsCommand
  split
  · rfl
  simp only
  split
  · split
    · exact hresult _
    · rfl
  split
  · split
    · exact hresult _
    · rfl
  split
  · split <;> rfl
  split
  · split <;> rfl
  split
  · split
    · exact hresult _
    · rfl
  · rfl

/-- Every request but `load` makes at most one call of the process manager. -/
theorem executeRequest_calls (k : Kernel) (env : Environment) (fs : FileSystem)
    (request : CommandRequest) (hload : (parse request.rawLine).name ≠ str "load") :
    Calls (parse request.rawLine) k.processManager
      (k.executeRequest env fs request).1.processManager
      (k.executeRequest env fs request).2.2.success := by
  have hroute : Calls (parse request.rawLine) k.processManager
      (k.routeCommand env fs request (parse request.rawLine)).1.processManager
      (k.routeCommand env fs request (parse request.rawLine)).2.2.success := by
    generalize parse request.rawLine = command at hload ⊢
    unfold routeCommand
    split
    · exact calls_schedulerCommand k
    split
    · obtain ⟨fs', response, hsaved, -⟩ := persistenceCommand_save k env.saveIo fs hload
      rw [hsaved]
      exact .untouched _
    split
    · exact .untouched _
    split
    · simp only [processManager_vfsCommand]
      exact .untouched _
    · exact calling_dispatch (m := k.managers)
  unfold executeRequest
  simp only
  split
  · exact hroute
  · exact hroute

end Kernel

end OSCoreSim
