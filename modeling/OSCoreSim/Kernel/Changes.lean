import OSCoreSim.Kernel.Kernel
import OSCoreSim.Memory.BlockTable
import OSCoreSim.Process.Transitions
import OSCoreSim.Vfs.FileTable
/-!
# What one command does to the kernel

`Change` lists the ways in which one command other than `load` can end.  The lemmas of
this module follow the routing of `executeRequest` and `dispatch` once; the invariants
are then proved by cases on `Change`.
-/

namespace OSCoreSim

open CommandDispatcher

/-- What can be behind a change of the tables: a compaction, a turn of the scheduler, the
removal of a process. -/
structure Cause where
  compacts : Prop
  turns : Prop
  kills : UInt32 → Prop

def Cause.timer : Cause := { compacts := False, turns := True, kills := fun _ => False }

/-- The PID in the arguments of a command that takes one. -/
def pidArgument : List Str → Option UInt32
  | [text] => parseUint32Strict text
  | _ => none

def Command.cause (command : Command) : Cause where
  compacts := command.name = str "compact"
  turns := command.name = str "step" ∧ command.arguments = []
  kills pid := command.name = str "kill_pcb" ∧ pidArgument command.arguments = some pid

/-- The changes that a user makes to the process and memory tables, creation aside. -/
inductive Action (cause : Cause) (owner : Str) (pm : ProcessManager) (mm : MemoryManager) :
    ProcessManager → MemoryManager → Prop
  | alloc (tag : Str) (sizeKB : UInt32) {mm' : MemoryManager} {start : UInt32} {message : Str}
      (h : mm.allocateManual owner tag sizeKB = .ok (mm', start, message)) :
      Action cause owner pm mm pm mm'
  | free (addr : UInt32) {mm' : MemoryManager} {message : Str}
      (h : mm.freeByAddress owner addr = .ok (mm', message)) : Action cause owner pm mm pm mm'
  | setAlgorithm (algorithm : AllocAlgorithm) :
      Action cause owner pm mm pm { mm with algorithm := algorithm }
  | compact (hcause : cause.compacts) :
      Action cause owner pm mm (updateStarts pm mm.compact.2.pidNewStart.toList) mm.compact.1
  | swapOut (pid : UInt32) {pm' : ProcessManager} {mm' : MemoryManager} {text message : Str}
      (hmem : mm.swapOutProcess owner pid = .ok (mm', text))
      (hmark : pm.markSwappedOut owner pid = .ok (pm', message)) : Action cause owner pm mm pm' mm'
  | kill (pid : UInt32) (hcause : cause.kills pid) {pm' : ProcessManager}
      {removed : List UInt32} {message : Str}
      (h : pm.killProcess owner pid = .ok (pm', removed, message)) :
      Action cause owner pm mm pm' (Scheduler.releaseAll owner mm removed).1
  | rewrite (pid : UInt32) {pm' : ProcessManager}
      (h : ProcessManager.Rewrites owner pid pm pm') : Action cause owner pm mm pm' mm
  | step (hcause : cause.turns) :
      Action cause owner pm mm (Scheduler.step owner pm mm).1 (Scheduler.step owner pm mm).2.1

namespace Kernel

/-- The memory after the rollback of `create_pcb`, whose refusal is ignored. -/
def rolledBack (mm : MemoryManager) (owner : Str) (pid : UInt32) : MemoryManager :=
  match mm.freeByPid owner pid with
  | .ok (mm', _) => mm'
  | .error _ => mm

/-- The kernel after one command, and whether the command succeeded. -/
inductive Change (command : Command) (k : Kernel) : Kernel → Bool → Prop
  | same (success : Bool) : Change command k k success
  | register (now : Int64) (username password : Str) {users : UserManager} {message : Str}
      (h : k.userManager.registerUser now username password = .ok (users, message)) :
      Change command k { k with userManager := users } true
  | login (username password : Str) (hname : command.name = str "login") :
      Change command k { k with userManager := (k.userManager.login username password).1 }
        (k.userManager.login username password).2.1
  | logout {users : UserManager} {message : Str}
      (h : k.userManager.logout = .ok (users, message)) :
      Change command k
        { ({ k with userManager := users }).haltScheduler with schedulerOwner := [] } true
  | exit : Change command k { k.haltScheduler with schedulerOwner := [] } true
  | create (owner : Str) (args : CreateArguments) (hname : command.name = str "create_pcb")
      (hlogin : k.userManager.currentUser = some owner)
      (hargs : parseCreateArguments command.arguments = some args)
      {mm : MemoryManager} {pm : ProcessManager} {start pid : UInt32} {text message : Str}
      (halloc : k.memoryManager.allocateForProcess owner k.processManager.nextPid args.name
        args.memKB = .ok (mm, start, text))
      (hcreate : k.processManager.createProcessWithMemory owner args.name args.memKB start
        args.priority args.totalTime args.ppid = .ok (pm, pid, message)) :
      Change command k { k with processManager := pm, memoryManager := mm } true
  | rollback (owner : Str) (args : CreateArguments) (hname : command.name = str "create_pcb")
      (hlogin : k.userManager.currentUser = some owner)
      (hargs : parseCreateArguments command.arguments = some args)
      {mm : MemoryManager} {start : UInt32} {text : Str}
      (halloc : k.memoryManager.allocateForProcess owner k.processManager.nextPid args.name
        args.memKB = .ok (mm, start, text)) :
      Change command k
        { k with memoryManager := rolledBack mm owner k.processManager.nextPid } false
  | swapHalf (owner : Str) (pid : UInt32) (hlogin : k.userManager.currentUser = some owner)
      {mm : MemoryManager} {text message : Str}
      (hmem : k.memoryManager.swapOutProcess owner pid = .ok (mm, text))
      (hmark : k.processManager.markSwappedOut owner pid = .error message)
      (hhas : k.processManager.hasProcess owner pid = true)
      (hresident : k.processManager.isSwappedOut owner pid = false) :
      Change command k { k with memoryManager := mm } false
  | act (owner : Str) (hlogin : k.userManager.currentUser = some owner)
      {pm : ProcessManager} {mm : MemoryManager}
      (h : Action command.cause owner k.processManager k.memoryManager pm mm) :
      Change command k { k with processManager := pm, memoryManager := mm } true
  | files (owner : Str) (hlogin : k.userManager.currentUser = some owner)
      {vfs : VirtualFileSystem} (h : VirtualFileSystem.FileChange owner k.vfs vfs) :
      Change command k { k with vfs := vfs } true
  | start (owner : Str) (hlogin : k.userManager.currentUser = some owner) :
      Change command k (k.runScheduler owner) true
  | stop (owner : Str) (hlogin : k.userManager.currentUser = some owner) :
      Change command k k.haltScheduler true
  | restart (owner : Str) (hlogin : k.userManager.currentUser = some owner) :
      Change command k ({ k.haltScheduler with
        processManager := k.processManager.cleanupInvalidReadyQueueEntries.1 }.runScheduler owner)
        true

/-! ## Dispatch -/

def managers (k : Kernel) : Managers :=
  { users := k.userManager, processes := k.processManager, memory := k.memoryManager }

def withManagers (k : Kernel) (managers : Managers) : Kernel :=
  { k with
    userManager := managers.users
    processManager := managers.processes
    memoryManager := managers.memory }

/-- The dispatcher's answer is one of the changes, without an exit request. -/
def Gives (command : Command) (k : Kernel) (out : Managers × CommandResponse) : Prop :=
  out.2.shouldExit = false ∧ Change command k (k.withManagers out.1) out.2.success

variable {command : Command} {k : Kernel} {body : Managers × CommandResponse}

theorem gives_same (success : Bool) (message : Str) :
    Gives command k (k.managers, reply success message) := ⟨rfl, .same success⟩

theorem currentUserName_of_login {um : UserManager} {owner : Str}
    (h : um.currentUser = some owner) : um.currentUserName = owner := by
  simp [UserManager.currentUserName, h]

theorem exists_login {um : UserManager} (h : ¬(!um.isLoggedIn) = true) :
    ∃ owner, um.currentUser = some owner := by
  cases huser : um.currentUser with
  | none => exact absurd (by simp [UserManager.isLoggedIn, huser]) h
  | some owner => exact ⟨owner, rfl⟩

theorem gives_requireLogin
    (h : ∀ owner, k.userManager.currentUser = some owner → Gives command k body) :
    Gives command k (requireLogin k.managers body) := by
  unfold requireLogin
  split
  next hlogin =>
    obtain ⟨owner, howner⟩ := Option.isSome_iff_exists.mp hlogin
    exact h owner howner
  next => exact gives_same false _

theorem gives_withPid {usage : Str} {arguments : List Str}
    {pidBody : UInt32 → Managers × CommandResponse}
    (h : ∀ pid, pidArgument arguments = some pid → Gives command k (pidBody pid)) :
    Gives command k (withPid k.managers usage arguments pidBody) := by
  unfold withPid
  split
  · split
    next hpid => exact h _ hpid
    next => exact gives_same false _
  · exact gives_same false _

theorem gives_withoutArguments {name : Str} {arguments : List Str} (h : Gives command k body) :
    Gives command k (withoutArguments k.managers name arguments body) := by
  unfold withoutArguments
  split
  · exact gives_same false _
  · exact h

theorem gives_viewCommand {name : Str} {arguments : List Str} {view : Str → Str} :
    Gives command k (viewCommand k.managers name arguments view) :=
  gives_requireLogin fun _ _ => gives_withoutArguments (gives_same true _)

theorem gives_registerCommand {now : Int64} {arguments : List Str} :
    Gives command k (registerCommand now k.managers arguments) := by
  unfold registerCommand
  split
  · split
    next users message h => exact ⟨rfl, .register now _ _ h⟩
    next => exact gives_same false _
  · exact gives_same false _

theorem gives_loginCommand {arguments : List Str} (hname : command.name = str "login") :
    Gives command k (loginCommand k.managers arguments) := by
  unfold loginCommand
  split
  · exact ⟨rfl, .login _ _ hname⟩
  · exact gives_same false _

theorem gives_createCommand {arguments : List Str} (hname : command.name = str "create_pcb")
    (harguments : arguments = command.arguments) :
    Gives command k (createCommand k.managers arguments) := by
  refine gives_requireLogin fun owner hlogin => ?_
  rw [show k.managers.users.currentUserName = owner from currentUserName_of_login hlogin]
  split
  next => exact gives_same false _
  next args hargs =>
    rw [harguments] at hargs
    unfold createWithMemory
    simp only
    split
    next => exact gives_same false _
    next mm start text halloc =>
      split
      next pm pid message hcreate =>
        exact ⟨rfl, .create owner args hname hlogin hargs halloc hcreate⟩
      next message hcreate =>
        have hroll := Change.rollback owner args hname hlogin hargs halloc
        split
        next mm' text' hfree =>
          rw [rolledBack, show mm.freeByPid owner k.processManager.nextPid = _ from hfree] at hroll
          exact ⟨rfl, hroll⟩
        next text' hfree =>
          rw [rolledBack, show mm.freeByPid owner k.processManager.nextPid = _ from hfree] at hroll
          exact ⟨rfl, hroll⟩

theorem gives_allocCommand {arguments : List Str} :
    Gives command k (allocCommand k.managers arguments) := by
  refine gives_requireLogin fun owner hlogin => ?_
  rw [show k.managers.users.currentUserName = owner from currentUserName_of_login hlogin]
  split
  · exact gives_same false _
  split
  · exact gives_same false _
  next tag sizeKB _ _ =>
    unfold memoryResult
    cases halloc : k.managers.memory.allocateManual owner tag sizeKB with
    | error message => exact gives_same false _
    | ok result => exact ⟨rfl, .act owner hlogin (.alloc tag sizeKB halloc)⟩

theorem gives_freeMemCommand {arguments : List Str} :
    Gives command k (freeMemCommand k.managers arguments) := by
  refine gives_requireLogin fun owner hlogin => gives_withPid fun addr _ => ?_
  rw [show k.managers.users.currentUserName = owner from currentUserName_of_login hlogin]
  unfold memoryResult
  cases hfree : k.managers.memory.freeByAddress owner addr with
  | error message => exact gives_same false _
  | ok result => exact ⟨rfl, .act owner hlogin (.free addr hfree)⟩

theorem gives_setAllocAlgoCommand {arguments : List Str} :
    Gives command k (setAllocAlgoCommand k.managers arguments) := by
  refine gives_requireLogin fun owner hlogin => ?_
  split
  next algoName =>
    unfold memoryResult
    cases hset : k.managers.memory.setAlgorithm algoName with
    | error message => exact gives_same false _
    | ok result =>
      obtain ⟨algorithm, heq⟩ := MemoryManager.setAlgorithm_spec hset
      refine ⟨rfl, ?_⟩
      simp only [withManagers, heq]
      exact .act owner hlogin (.setAlgorithm algorithm)
  next => exact gives_same false _

theorem gives_compactCommand {arguments : List Str} (hname : command.name = str "compact") :
    Gives command k (compactCommand k.managers arguments) := by
  refine gives_requireLogin fun owner hlogin => gives_withoutArguments ?_
  exact ⟨rfl, .act owner hlogin (.compact hname)⟩

theorem gives_pgfaultCommand {arguments : List Str} :
    Gives command k (pgfaultCommand k.managers arguments) := by
  refine gives_requireLogin fun owner _ => ?_
  split
  · exact gives_same true _
  refine gives_withPid fun pid _ => ?_
  split
  · exact gives_same true _
  · exact gives_same false _

theorem gives_swapOutCommand {arguments : List Str} :
    Gives command k (swapOutCommand k.managers arguments) := by
  refine gives_requireLogin fun owner hlogin => gives_withPid fun pid _ => ?_
  rw [show k.managers.users.currentUserName = owner from currentUserName_of_login hlogin]
  unfold swapOut
  split
  · exact gives_same false _
  next hhas =>
  split
  · exact gives_same false _
  next hresident =>
  split
  next => exact gives_same false _
  next mm text hmem =>
    split
    next pm message hmark => exact ⟨rfl, .act owner hlogin (.swapOut pid hmem hmark)⟩
    next message hmark =>
      exact ⟨rfl, .swapHalf owner pid hlogin hmem hmark (by simpa [managers] using hhas)
        (by simpa [managers] using hresident)⟩

theorem gives_processResult {owner : Str} {pid : UInt32}
    (hlogin : k.userManager.currentUser = some owner) {result : Except Str (ProcessManager × Str)}
    (h : ∀ pm message, result = .ok (pm, message) →
      ProcessManager.Rewrites owner pid k.processManager pm) :
    Gives command k (processResult k.managers result) := by
  cases result with
  | error message => exact gives_same false _
  | ok pair => exact ⟨rfl, .act owner hlogin (.rewrite pid (h pair.1 pair.2 rfl))⟩

theorem gives_pidCommand :
    Gives command k (pidCommand k.managers command.name command.arguments) := by
  refine gives_requireLogin fun owner hlogin => gives_withPid fun pid hpid => ?_
  rw [show k.managers.users.currentUserName = owner from currentUserName_of_login hlogin]
  simp only
  split
  · exact gives_same _ _
  split
  next hname =>
    have hcause : command.cause.kills pid := ⟨hname, hpid⟩
    unfold killSubtree
    split
    next => exact gives_same false _
    next pm removed message hkill =>
      exact ⟨rfl, .act owner hlogin (.kill pid hcause hkill)⟩
  split
  · exact gives_processResult hlogin fun _ _ => ProcessManager.blockProcess_spec
  split
  · exact gives_processResult hlogin fun _ _ => ProcessManager.wakeupProcess_spec
  split
  · exact gives_processResult hlogin fun _ _ => ProcessManager.suspendProcess_spec
  · exact gives_processResult hlogin fun _ _ => ProcessManager.resumeProcess_spec

theorem gives_reniceCommand {arguments : List Str} :
    Gives command k (reniceCommand k.managers arguments) := by
  refine gives_requireLogin fun owner hlogin => ?_
  rw [show k.managers.users.currentUserName = owner from currentUserName_of_login hlogin]
  split
  · split
    · exact gives_processResult hlogin fun _ _ => ProcessManager.reniceProcess_spec
    · exact gives_same false _
  · exact gives_same false _

/-! ## The routing of a request -/

theorem gives_ite {c : Prop} [Decidable c] {a b : Managers × CommandResponse}
    (ha : c → Gives command k a) (hb : ¬c → Gives command k b) :
    Gives command k (if c then a else b) := by
  split
  next h => exact ha h
  next h => exact hb h

theorem gives_dispatch {now : Int64} {floats : FloatFormat} {context : CommandContext}
    (hexit : ¬(command.name = str "exit" ∨ command.name = str "quit"))
    (hlogout : command.name ≠ str "logout") :
    Gives command k (dispatch now floats command context k.managers) := by
  refine gives_ite (fun _ => gives_same true _) fun _ => ?_
  refine gives_ite (fun _ => gives_same true _) fun _ => ?_
  refine gives_ite (fun h => absurd h hexit) fun _ => ?_
  refine gives_ite (fun _ => gives_same true _) fun _ => ?_
  refine gives_ite (fun _ => gives_same true _) fun _ => ?_
  refine gives_ite (fun _ => gives_registerCommand) fun _ => ?_
  refine gives_ite gives_loginCommand fun _ => ?_
  refine gives_ite (fun h => absurd h hlogout) fun _ => ?_
  refine gives_ite (fun _ => gives_same true _) fun _ => ?_
  refine gives_ite (fun hname => gives_createCommand hname rfl) fun _ => ?_
  refine gives_ite (fun _ => gives_allocCommand) fun _ => ?_
  refine gives_ite (fun _ => gives_freeMemCommand) fun _ => ?_
  refine gives_ite (fun _ => gives_viewCommand) fun _ => ?_
  refine gives_ite (fun _ => gives_viewCommand) fun _ => ?_
  refine gives_ite (fun _ => gives_setAllocAlgoCommand) fun _ => ?_
  refine gives_ite gives_compactCommand fun _ => ?_
  refine gives_ite (fun _ => gives_pgfaultCommand) fun _ => ?_
  refine gives_ite (fun _ => gives_swapOutCommand) fun _ => ?_
  refine gives_ite (fun _ => gives_pidCommand) fun _ => ?_
  refine gives_ite (fun _ => gives_reniceCommand) fun _ => ?_
  refine gives_ite (fun _ => gives_viewCommand) fun _ => ?_
  refine gives_ite (fun _ => gives_viewCommand) fun _ => ?_
  refine gives_ite (fun _ => gives_viewCommand) fun _ => ?_
  exact gives_ite (fun _ => gives_same false _) fun _ => gives_same false _

def Handled (command : Command) (k : Kernel) (out : Kernel × CommandResponse) : Prop :=
  out.2.shouldExit = false ∧ Change command k out.1 out.2.success

theorem handled_schedulerCommand : Handled command k (k.handleSchedulerCommand command) := by
  unfold handleSchedulerCommand
  split
  · exact ⟨rfl, .same false⟩
  next hlogin =>
  obtain ⟨owner, howner⟩ := exists_login hlogin
  simp only [currentUserName_of_login howner]
  split
  · exact ⟨rfl, .same false⟩
  next hargs =>
  split
  next hname => exact ⟨rfl, .act owner howner (.step ⟨hname, not_not.mp hargs⟩)⟩
  split
  · split
    · exact ⟨rfl, .same true⟩
    · exact ⟨rfl, .start owner howner⟩
  split
  · split
    · exact ⟨rfl, .same true⟩
    · exact ⟨rfl, .stop owner howner⟩
  split
  · exact ⟨rfl, .restart owner howner⟩
  · exact ⟨rfl, .same false⟩

theorem handled_vfsCommand {time : UInt64} :
    Handled command k (k.handleVfsCommand time command) := by
  unfold handleVfsCommand
  split
  · exact ⟨rfl, .same false⟩
  next hlogin =>
  obtain ⟨owner, howner⟩ := exists_login hlogin
  have hresult : ∀ {result : Except Str (VirtualFileSystem × Str)},
      (∀ vfs message, result = .ok (vfs, message) →
        VirtualFileSystem.FileChange owner k.vfs vfs) →
        Handled command k (k.vfsResult result) := by
    intro result h
    cases result with
    | error message => exact ⟨rfl, .same false⟩
    | ok pair => exact ⟨rfl, .files owner howner (h pair.1 pair.2 rfl)⟩
  simp only [currentUserName_of_login howner]
  split
  · split
    · exact hresult fun _ _ => VirtualFileSystem.createFile_spec
    · exact ⟨rfl, .same false⟩
  split
  · split
    · exact hresult fun _ _ => VirtualFileSystem.writeFile_spec
    · exact ⟨rfl, .same false⟩
  split
  · split
    · exact ⟨rfl, .same true⟩
    · exact ⟨rfl, .same false⟩
  split
  · split
    · exact ⟨rfl, .same false⟩
    · exact ⟨rfl, .same true⟩
  split
  · split
    · exact hresult fun _ _ => VirtualFileSystem.deleteFile_spec
    · exact ⟨rfl, .same false⟩
  · exact ⟨rfl, .same false⟩

theorem handled_overview {floats : FloatFormat} :
    Handled command k (k, k.handleOverview floats command) := by
  unfold handleOverview Handled
  split
  · exact ⟨rfl, .same false⟩
  split
  · exact ⟨rfl, .same false⟩
  · exact ⟨rfl, .same true⟩

theorem persistenceCommand_save (k : Kernel) (io : SnapshotStore.SaveIo) (fs : FileSystem)
    (hload : command.name ≠ str "load") :
    ∃ fs' response, k.handlePersistenceCommand io fs command = (k, fs', response) ∧
      response.shouldExit = false := by
  unfold handlePersistenceCommand
  by_cases hargs : command.arguments ≠ []
  · rw [if_pos hargs]
    exact ⟨fs, _, rfl, rfl⟩
  rw [if_neg hargs]
  by_cases hsave : command.name = str "save"
  · rw [if_pos hsave]
    refine ⟨_, (k.handleSave io fs).2, rfl, ?_⟩
    unfold handleSave
    dsimp only
    split <;> rfl
  · rw [if_neg hsave, if_neg hload]
    exact ⟨fs, _, rfl, rfl⟩

/-- Everything but `load` leaves the kernel changed in one of the ways of `Change`. -/
theorem executeRequest_change (k : Kernel) (env : Environment) (fs : FileSystem)
    (request : CommandRequest) (hload : (parse request.rawLine).name ≠ str "load") :
    Change (parse request.rawLine) k (k.executeRequest env fs request).1
      (k.executeRequest env fs request).2.2.success := by
  unfold executeRequest
  generalize parse request.rawLine = command at hload ⊢
  simp only
  -- a handler whose name is not `logout` and that does not exit is not followed by a halt
  have hplain : ∀ (out : Kernel × CommandResponse) (fs : FileSystem),
      command.name ≠ str "logout" → Handled command k out →
        let final := if out.2.shouldExit ∨ (out.2.success ∧ command.name = str "logout") then
            (({ out.1.haltScheduler with schedulerOwner := [] } : Kernel), fs, out.2)
          else (out.1, fs, out.2)
        Change command k final.1 final.2.2.success := by
    intro out fs hname hout
    simp only [hout.1, hname, and_false, or_false, Bool.false_eq_true, if_false]
    exact hout.2
  unfold routeCommand
  by_cases hsched : isSchedulerCommand command.name
  · have hname : command.name ≠ str "logout" := by
      intro heq
      rw [heq] at hsched
      revert hsched
      decide
    simp only [hsched, if_true]
    exact hplain (k.handleSchedulerCommand command) fs hname handled_schedulerCommand
  by_cases hpersist : isPersistenceCommand command.name
  · have hsave : command.name = str "save" := by
      simpa [isPersistenceCommand, hload] using hpersist
    have hname : command.name ≠ str "logout" := by
      rw [hsave]
      decide
    obtain ⟨fs', response, hsaved, hstay⟩ := persistenceCommand_save k env.saveIo fs hload
    simp only [hsched, hpersist, hsaved, if_false, if_true, Bool.false_eq_true]
    exact hplain (k, response) fs' hname ⟨hstay, .same _⟩
  by_cases hview : isVisualizationCommand command.name
  · have hname : command.name ≠ str "logout" := by
      intro heq
      rw [heq] at hview
      revert hview
      decide
    simp only [hsched, hpersist, hview, if_false, if_true, Bool.false_eq_true]
    exact hplain (k, _) fs hname handled_overview
  by_cases hvfs : isVfsCommand command.name
  · have hname : command.name ≠ str "logout" := by
      intro heq
      rw [heq] at hvfs
      revert hvfs
      decide
    simp only [hsched, hpersist, hview, hvfs, if_false, if_true, Bool.false_eq_true]
    exact hplain (k.handleVfsCommand env.time command) fs hname handled_vfsCommand
  simp only [hsched, hpersist, hview, hvfs, if_false, Bool.false_eq_true]
  by_cases hexit : command.name = str "exit" ∨ command.name = str "quit"
  · have hdispatch : k.dispatchCommand env request command =
        (k, { success := true, message := str "Shutting down OS simulator."
              shouldExit := true }) := by
      unfold dispatchCommand dispatch
      rcases hexit with hname | hname <;> rw [hname] <;> rfl
    simp only [hdispatch, true_or, if_true]
    exact .exit
  by_cases hlogout : command.name = str "logout"
  · have hdispatch : k.dispatchCommand env request command =
        (k.withManagers (logoutCommand k.managers).1, (logoutCommand k.managers).2) := by
      unfold dispatchCommand dispatch
      rw [hlogout]
      rfl
    rw [hdispatch]
    unfold logoutCommand
    cases hout : k.managers.users.logout with
    | error message =>
      simp only [reply, hlogout, Bool.false_eq_true, false_and, or_false, if_false]
      exact .same false
    | ok pair =>
      simp only [reply, hlogout, Bool.false_eq_true, and_self, or_true, if_true]
      exact .logout hout
  exact hplain (k.dispatchCommand env request command) fs hlogout (gives_dispatch hexit hlogout)

theorem executeRequest_dispatched {env : Environment} {fs : FileSystem} {request : CommandRequest}
    {out : Managers × CommandResponse}
    (hroute : k.routeCommand env fs request (parse request.rawLine) =
      (k.withManagers out.1, fs, out.2))
    (hlogout : (parse request.rawLine).name ≠ str "logout") (hstay : out.2.shouldExit = false) :
    k.executeRequest env fs request = (k.withManagers out.1, fs, out.2) := by
  unfold executeRequest
  simp only [hroute, hstay, hlogout, and_false, or_false, Bool.false_eq_true, if_false]

theorem executeRequest_create (k : Kernel) (env : Environment) (fs : FileSystem)
    (request : CommandRequest) (hname : (parse request.rawLine).name = str "create_pcb") :
    k.executeRequest env fs request =
      (k.withManagers (createCommand k.managers (parse request.rawLine).arguments).1, fs,
        (createCommand k.managers (parse request.rawLine).arguments).2) := by
  apply executeRequest_dispatched
  · unfold routeCommand dispatchCommand dispatch
    rw [hname]
    rfl
  · rw [hname]
    decide
  · exact (gives_createCommand (k := k) hname rfl).1

theorem executeRequest_login (k : Kernel) (env : Environment) (fs : FileSystem)
    (request : CommandRequest) (hname : (parse request.rawLine).name = str "login") :
    k.executeRequest env fs request =
      (k.withManagers (loginCommand k.managers (parse request.rawLine).arguments).1, fs,
        (loginCommand k.managers (parse request.rawLine).arguments).2) := by
  apply executeRequest_dispatched
  · unfold routeCommand dispatchCommand dispatch
    rw [hname]
    rfl
  · rw [hname]
    decide
  · exact (gives_loginCommand (k := k) hname).1

theorem executeRequest_compact (k : Kernel) (env : Environment) (fs : FileSystem)
    (request : CommandRequest) (hname : (parse request.rawLine).name = str "compact") :
    k.executeRequest env fs request =
      (k.withManagers (compactCommand k.managers (parse request.rawLine).arguments).1, fs,
        (compactCommand k.managers (parse request.rawLine).arguments).2) := by
  apply executeRequest_dispatched
  · unfold routeCommand dispatchCommand dispatch
    rw [hname]
    rfl
  · rw [hname]
    decide
  · exact (gives_compactCommand (k := k) hname).1

theorem routeCommand_vfs (k : Kernel) (env : Environment) (fs : FileSystem)
    (request : CommandRequest) {command : Command} (hvfs : isVfsCommand command.name = true) :
    k.routeCommand env fs request command =
      ((k.handleVfsCommand env.time command).1, fs, (k.handleVfsCommand env.time command).2) := by
  have hname : command.name = str "touch_file" ∨ command.name = str "write_file" ∨
      command.name = str "read_file" ∨ command.name = str "ls_file" ∨
      command.name = str "rm_file" := by
    simpa [isVfsCommand] using hvfs
  unfold routeCommand
  rcases hname with hname | hname | hname | hname | hname <;> rw [hname] <;> rfl

theorem executeRequest_vfs (k : Kernel) (env : Environment) (fs : FileSystem)
    (request : CommandRequest) (hvfs : isVfsCommand (parse request.rawLine).name = true) :
    k.executeRequest env fs request =
      ((k.handleVfsCommand env.time (parse request.rawLine)).1, fs,
        (k.handleVfsCommand env.time (parse request.rawLine)).2) := by
  unfold executeRequest
  generalize parse request.rawLine = command at hvfs ⊢
  have hlogout : command.name ≠ str "logout" := by
    intro hname
    rw [hname] at hvfs
    exact absurd hvfs (by decide)
  have hstay : (k.handleVfsCommand env.time command).2.shouldExit = false :=
    (handled_vfsCommand (k := k)).1
  simp only [routeCommand_vfs k env fs request hvfs, hstay, hlogout, and_false, or_false,
    Bool.false_eq_true, if_false]

theorem createCommand_success {managers : Managers} {arguments : List Str}
    (h : (createCommand managers arguments).2.success = true) :
    ∃ owner args mm start text pm pid message, managers.users.currentUser = some owner ∧
      parseCreateArguments arguments = some args ∧
      managers.memory.allocateForProcess owner managers.processes.nextPid args.name args.memKB =
        .ok (mm, start, text) ∧
      managers.processes.createProcessWithMemory owner args.name args.memKB start args.priority
        args.totalTime args.ppid = .ok (pm, pid, message) ∧
      createCommand managers arguments =
        ({ managers with processes := pm, memory := mm }, reply true message) := by
  cases hlogin : managers.users.currentUser with
  | none =>
    have hout : managers.users.isLoggedIn = false := by simp [UserManager.isLoggedIn, hlogin]
    rw [createCommand, requireLogin, hout] at h
    cases h
  | some owner =>
    have hin : managers.users.isLoggedIn = true := by simp [UserManager.isLoggedIn, hlogin]
    have hcurrent : managers.users.currentUserName = owner := currentUserName_of_login hlogin
    simp only [createCommand, requireLogin, hin, if_true, hcurrent] at h ⊢
    cases hargs : parseCreateArguments arguments with
    | none =>
      rw [hargs] at h
      cases h
    | some args =>
      simp only [hargs, createWithMemory] at h ⊢
      cases halloc : managers.memory.allocateForProcess owner managers.processes.nextPid args.name
          args.memKB with
      | error text =>
        rw [halloc] at h
        cases h
      | ok allocated =>
        obtain ⟨mm, start, text⟩ := allocated
        simp only [halloc] at h ⊢
        cases hcreate : managers.processes.createProcessWithMemory owner args.name args.memKB start
            args.priority args.totalTime args.ppid with
        | error message =>
          simp only [hcreate] at h
          split at h <;> cases h
        | ok created =>
          obtain ⟨pm, pid, message⟩ := created
          exact ⟨owner, args, mm, start, text, pm, pid, message, rfl, rfl, halloc, hcreate, rfl⟩

theorem schedulerTick_cases (k : Kernel) :
    k.schedulerTick.1 = k ∨
      (k.schedulerRunning = true ∧ k.schedulerOwner ≠ [] ∧
        ∃ pm mm, Action .timer k.schedulerOwner k.processManager k.memoryManager pm mm ∧
          k.schedulerTick.1 = { k with processManager := pm, memoryManager := mm }) := by
  unfold schedulerTick
  split
  next h => exact .inr ⟨h.1, h.2, _, _, .step trivial, rfl⟩
  next => exact .inl rfl

/-- What the actions of the scheduler's owner keep, a turn keeps. -/
theorem tick_keeps {P : Kernel → Prop} {k : Kernel} (h : P k)
    (haction : ∀ {pm mm}, k.schedulerRunning = true →
      Action .timer k.schedulerOwner k.processManager k.memoryManager pm mm →
        P { k with processManager := pm, memoryManager := mm }) : P k.schedulerTick.1 := by
  rcases schedulerTick_cases k with hidle | ⟨hrunning, -, pm, mm, ha, hturn⟩
  · rw [hidle]
    exact h
  · rw [hturn]
    exact haction hrunning ha

end Kernel

end OSCoreSim
