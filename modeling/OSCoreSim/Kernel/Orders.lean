import OSCoreSim.Kernel.Accounting
import OSCoreSim.Kernel.BlockedRun
import OSCoreSim.Kernel.Routing
import OSCoreSim.Kernel.Turns
import OSCoreSim.Process.Life
/-!
# The orders in a request

Six commands give an order about a process, and `Carries` says that such a command does what the
process manager makes of its order, and fails when that is refused.  Every other request leaves the
processes that survive it as they are, up to their start addresses and children.
-/

namespace OSCoreSim

open MemoryManager ProcessManager CommandDispatcher

def Command.order (command : Command) : Option (UInt32 × Order) :=
  if command.name = str "block_pcb" then (pidArgument command.arguments).map (·, .block)
  else if command.name = str "wakeup_pcb" then (pidArgument command.arguments).map (·, .wakeup)
  else if command.name = str "suspend" then (pidArgument command.arguments).map (·, .suspend)
  else if command.name = str "resume" then (pidArgument command.arguments).map (·, .resume)
  else if command.name = str "swap_out" then (pidArgument command.arguments).map (·, .swapOut)
  else if command.name = str "renice" then
    match command.arguments with
    | [pidText, priorityText] =>
      match parseUint32Strict pidText, parseIntStrict priorityText with
      | some pid, some priority => some (pid, .renice priority)
      | _, _ => none
    | _ => none
  else none

def Command.AsksTurn (command : Command) : Prop :=
  command.name = str "step" ∧ command.arguments = []

instance (command : Command) : Decidable command.AsksTurn :=
  inferInstanceAs (Decidable (_ ∧ _))

namespace Kernel

variable {k : Kernel} {env : Environment} {fs : FileSystem} {request : CommandRequest}
  {owner : Str} {pm pm' : ProcessManager} {mm mm' : MemoryManager} {pid : UInt32} {pcb : PCB}
  {order : Order} {n : ℕ}

/-- The process manager and the success of a request that makes one call. -/
inductive Carries (pm : ProcessManager) (result : Except Str (ProcessManager × Str)) :
    ProcessManager → Bool → Prop
  | done {pm' : ProcessManager} {message : Str} (h : result = .ok (pm', message)) :
      Carries pm result pm' true
  | refused {message : Str} (h : result = .error message) : Carries pm result pm false

theorem Carries.success_iff {result : Except Str (ProcessManager × Str)} {success : Bool}
    (h : Carries pm result pm' success) : success = true ↔ ∃ pair, result = .ok pair := by
  cases h with
  | done hok => exact iff_of_true rfl ⟨_, hok⟩
  | refused herror => simp [herror]

/-! ## Carrying out an order -/

theorem carries_processResult (managers : Managers) (result : Except Str (ProcessManager × Str)) :
    Carries managers.processes result (processResult managers result).1.processes
      (processResult managers result).2.success := by
  cases result with
  | error message => exact .refused rfl
  | ok pair => exact .done rfl

theorem Matched.swapOutProcess_ok (h : Matched pm mm) (hget : pm.ownedPcb owner pid = some pcb)
    (hresident : isSwapped pcb = false) :
    ∃ mm' message, mm.swapOutProcess owner pid = .ok (mm', message) := by
  obtain ⟨htable, howner⟩ := ownedPcb_eq_some.mp hget
  have hmark : (⟨pcb.owner, pcb.memStart, pcb.memSize⟩ : Footprint) ∈ held mm.blocks pid := by
    rw [h.agree pid, owed_eq htable, owedBy, hresident, if_neg (by simp)]
    exact List.mem_singleton_self _
  obtain ⟨block, hmem, htype, hpid, hfoot⟩ := mem_held.mp hmark
  have hblock : isProcessBlock owner pid block = true := isProcessBlock_iff.mpr
    ⟨htype, howner ▸ (Footprint.mk.inj hfoot).1.symm, hpid⟩
  unfold swapOutProcess
  cases hfind : mm.findBlock (isProcessBlock owner pid) with
  | none =>
    rw [findBlock_eq_none.mp hfind block hmem] at hblock
    cases hblock
  | some found => exact ⟨_, _, rfl⟩

/-- Behind its checks `swap_out` is `markSwappedOut`: the memory never refuses. -/
theorem carries_swapOut (managers : Managers) (h : Core managers.processes managers.memory) :
    Carries managers.processes (managers.processes.markSwappedOut owner pid)
      (swapOut managers owner pid).1.processes (swapOut managers owner pid).2.success := by
  unfold swapOut
  cases hget : managers.processes.ownedPcb owner pid with
  | none =>
    rw [if_pos (by simp [hasProcess, hget])]
    exact .refused (by simp only [markSwappedOut, hget]; rfl)
  | some pcb =>
    have htable := (ownedPcb_eq_some.mp hget).1
    rw [if_neg (by simp [hasProcess, hget])]
    by_cases hswapped : pcb.swappedOut = true
    · rw [if_pos (by simp [isSwappedOut, hget, hswapped])]
      exact .refused (by simp only [markSwappedOut, hget, hswapped, true_or, if_true]; rfl)
    · rw [if_neg (by simp [isSwappedOut, hget, hswapped])]
      have hresident : isSwapped pcb = false := by
        rw [h.isSwapped_eq htable]
        simpa using hswapped
      obtain ⟨mm', message, hswap⟩ := h.matched.swapOutProcess_ok hget hresident
      rw [hswap]
      cases hmark : managers.processes.markSwappedOut owner pid with
      | error message => exact .refused rfl
      | ok pair => exact .done rfl

theorem requireLogin_login {managers : Managers} {body : Managers × CommandResponse}
    (h : managers.users.currentUser = some owner) : requireLogin managers body = body := by
  rw [requireLogin, if_pos (by simp [UserManager.isLoggedIn, h])]

theorem withPid_some {managers : Managers} {usage : Str} {arguments : List Str}
    {body : UInt32 → Managers × CommandResponse} (h : pidArgument arguments = some pid) :
    withPid managers usage arguments body = body pid := by
  unfold pidArgument at h
  unfold withPid
  split at h
  · simp only [h]
  · cases h

theorem executeRequest_swapOut (k : Kernel) (env : Environment) (fs : FileSystem)
    (request : CommandRequest) (hname : (parse request.rawLine).name = str "swap_out") :
    k.executeRequest env fs request =
      (k.withManagers (swapOutCommand k.managers (parse request.rawLine).arguments).1, fs,
        (swapOutCommand k.managers (parse request.rawLine).arguments).2) := by
  apply executeRequest_dispatched
  · unfold routeCommand dispatchCommand dispatch
    rw [hname]
    rfl
  · rw [hname]
    decide
  · exact (show Gives (parse request.rawLine) k _ from gives_swapOutCommand).1

theorem executeRequest_renice (k : Kernel) (env : Environment) (fs : FileSystem)
    (request : CommandRequest) (hname : (parse request.rawLine).name = str "renice") :
    k.executeRequest env fs request =
      (k.withManagers (reniceCommand k.managers (parse request.rawLine).arguments).1, fs,
        (reniceCommand k.managers (parse request.rawLine).arguments).2) := by
  apply executeRequest_dispatched
  · unfold routeCommand dispatchCommand dispatch
    rw [hname]
    rfl
  · rw [hname]
    decide
  · exact (show Gives (parse request.rawLine) k _ from gives_reniceCommand).1

theorem pidCommand_some {managers : Managers} {name : Str} {arguments : List Str}
    (hlogin : managers.users.currentUser = some owner) (hpid : pidArgument arguments = some pid) :
    pidCommand managers name arguments =
      if name = str "show_pcb" then
        (managers, reply (!contains (managers.processes.showProcess owner pid) (str "access denied"))
          (managers.processes.showProcess owner pid))
      else if name = str "kill_pcb" then killSubtree managers owner pid
      else if name = str "block_pcb" then
        processResult managers (managers.processes.blockProcess owner pid)
      else if name = str "wakeup_pcb" then
        processResult managers (managers.processes.wakeupProcess owner pid)
      else if name = str "suspend" then
        processResult managers (managers.processes.suspendProcess owner pid)
      else processResult managers (managers.processes.resumeProcess owner pid) := by
  rw [pidCommand, requireLogin_login hlogin, withPid_some hpid, currentUserName_of_login hlogin]

/-- A request with an order, from a user who is logged in, carries it out or fails. -/
theorem carries_order (h : Core k.processManager k.memoryManager)
    (hlogin : k.userManager.currentUser = some owner)
    (horder : (parse request.rawLine).order = some (pid, order)) :
    Carries k.processManager (k.processManager.carryOut owner pid order)
      (k.executeRequest env fs request).1.processManager
      (k.executeRequest env fs request).2.2.success := by
  have hlogin' : k.managers.users.currentUser = some owner := hlogin
  -- the four commands that go through `pidCommand`
  have hpidCommand : ∀ {name : Str} {one : Order}, (parse request.rawLine).name = name →
      isPidCommand name = true →
      (∀ target, pidArgument (parse request.rawLine).arguments = some target →
        pidCommand k.managers name (parse request.rawLine).arguments =
          processResult k.managers (k.processManager.carryOut owner target one)) →
      (pidArgument (parse request.rawLine).arguments).map (·, one) = some (pid, order) →
      Carries k.processManager (k.processManager.carryOut owner pid order)
        (k.executeRequest env fs request).1.processManager
        (k.executeRequest env fs request).2.2.success := by
    intro name one hname hpidName hrun hmade
    obtain ⟨target, hpid, heq⟩ := Option.map_eq_some_iff.mp hmade
    cases heq
    rw [executeRequest_pid k env fs request (by rw [hname]; exact hpidName), hname,
      hrun pid hpid]
    exact carries_processResult k.managers _
  unfold Command.order at horder
  split at horder
  next hname =>
    refine hpidCommand hname (by decide) (fun target hpid => ?_) horder
    rw [pidCommand_some hlogin' hpid, if_neg (by decide), if_neg (by decide), if_pos rfl]
    rfl
  split at horder
  next hname =>
    refine hpidCommand hname (by decide) (fun target hpid => ?_) horder
    rw [pidCommand_some hlogin' hpid, if_neg (by decide), if_neg (by decide), if_neg (by decide),
      if_pos rfl]
    rfl
  split at horder
  next hname =>
    refine hpidCommand hname (by decide) (fun target hpid => ?_) horder
    rw [pidCommand_some hlogin' hpid, if_neg (by decide), if_neg (by decide), if_neg (by decide),
      if_neg (by decide), if_pos rfl]
    rfl
  split at horder
  next hname =>
    refine hpidCommand hname (by decide) (fun target hpid => ?_) horder
    rw [pidCommand_some hlogin' hpid, if_neg (by decide), if_neg (by decide), if_neg (by decide),
      if_neg (by decide), if_neg (by decide)]
    rfl
  split at horder
  next hname =>
    obtain ⟨target, hpid, heq⟩ := Option.map_eq_some_iff.mp horder
    cases heq
    rw [executeRequest_swapOut k env fs request hname, swapOutCommand, requireLogin_login hlogin',
      withPid_some hpid, currentUserName_of_login hlogin']
    exact carries_swapOut k.managers h
  split at horder
  next hname =>
    split at horder
    next pidText priorityText harguments =>
      split at horder
      next target priority hpid hpriority =>
        cases horder
        rw [executeRequest_renice k env fs request hname]
        unfold reniceCommand
        rw [harguments, requireLogin_login hlogin', currentUserName_of_login hlogin']
        simp only [hpid, hpriority]
        exact carries_processResult k.managers _
      next => cases horder
    next => cases horder
  next => cases horder

theorem requireLogin_none {managers : Managers} {body : Managers × CommandResponse}
    (h : managers.users.currentUser = none) :
    requireLogin managers body = (managers, reply false loginText) := by
  rw [requireLogin, if_neg (by simp [UserManager.isLoggedIn, h])]

theorem order_refused (hlogin : k.userManager.currentUser = none)
    (horder : (parse request.rawLine).order = some (pid, order)) :
    (k.executeRequest env fs request).2.2.success = false := by
  have hlogin' : k.managers.users.currentUser = none := hlogin
  by_cases hname : isPidCommand (parse request.rawLine).name = true
  · rw [executeRequest_pid k env fs request hname, pidCommand, requireLogin_none hlogin']
    rfl
  by_cases hswap : (parse request.rawLine).name = str "swap_out"
  · rw [executeRequest_swapOut k env fs request hswap, swapOutCommand, requireLogin_none hlogin']
    rfl
  by_cases hrenice : (parse request.rawLine).name = str "renice"
  · rw [executeRequest_renice k env fs request hrenice]
    unfold reniceCommand
    rw [requireLogin_none hlogin']
    rfl
  simp only [isPidCommand, decide_eq_true_eq, not_or] at hname
  simp [Command.order, hname, hswap, hrenice] at horder

/-! ## Requests without an order -/

/-- The processes that are still there are as they were, up to their places and children. -/
def Steady (pm pm' : ProcessManager) : Prop :=
  ∀ (pid : UInt32) (pcb pcb' : PCB), pm.pcbTable[pid]? = some pcb → pm'.pcbTable[pid]? = some pcb' →
    ∃ start children, pcb' = { pcb with memStart := start, children := children }

theorem steady_of_table (h : pm'.pcbTable = pm.pcbTable) : Steady pm pm' := by
  intro pid pcb pcb' hget hget'
  rw [h, hget] at hget'
  cases hget'
  exact ⟨_, _, rfl⟩

theorem steady_pruned (removed : List UInt32) : Steady pm (pm.pruned removed) := by
  intro pid pcb pcb' hget hget'
  obtain ⟨-, old, hold, rfl⟩ := pruned_eq_some.mp hget'
  cases hget.symm.trans hold
  exact ⟨_, _, rfl⟩

theorem steady_updateStarts (starts : Std.ExtTreeMap UInt32 UInt32) :
    Steady pm (updateStarts pm starts.toList) := by
  intro pid pcb pcb' hget hget'
  rw [updateStarts_getElem?, hget] at hget'
  cases hget'
  exact ⟨_, _, rfl⟩

theorem steady_spawned (hfresh : pm.pcbTable[pm.nextPid]? = none)
    (hparent : pcb.ppid ≠ 0 → pcb.ppid ≠ pm.nextPid) : Steady pm (pm.spawned pcb) := by
  intro pid old pcb' hget hget'
  obtain ⟨children, hkept⟩ := spawned_kept hfresh hparent hget
  rw [hkept] at hget'
  cases hget'
  exact ⟨_, _, rfl⟩

def SteadyOut (m : Managers) (out : Managers × CommandResponse) : Prop :=
  Steady m.processes out.1.processes

variable {m : Managers} {command : Command}

theorem steadyOut_same (response : CommandResponse) : SteadyOut m (m, response) :=
  steady_of_table rfl

theorem steadyOut_create (hfresh : m.processes.pcbTable[m.processes.nextPid]? = none)
    (arguments : List Str) : SteadyOut m (createCommand m arguments) := by
  refine cases_requireLogin steadyOut_same fun owner _ => ?_
  split
  · exact steadyOut_same _
  next args hargs =>
  unfold createWithMemory
  simp only
  split
  · exact steadyOut_same _
  split
  next hcreate =>
    obtain ⟨-, -, -, -, hparent, -, hpm⟩ := createProcessWithMemory_spec hfresh hcreate
    unfold SteadyOut
    simp only [hpm]
    exact steady_spawned hfresh (ppid_ne_nextPid hfresh hparent)
  next => split <;> exact steady_of_table rfl

theorem steadyOut_kill {owner : Str} : SteadyOut m (killSubtree m owner pid) := by
  unfold killSubtree
  split
  · exact steadyOut_same _
  next hkill =>
    obtain ⟨-, -, rfl⟩ := killProcess_spec hkill
    exact steady_pruned _

theorem order_isSome_of_pid (hname : isPidCommand command.name = true)
    (hshow : command.name ≠ str "show_pcb") (hkill : command.name ≠ str "kill_pcb")
    (hpid : pidArgument command.arguments = some pid) : command.order.isSome = true := by
  have hcases : command.name = str "block_pcb" ∨ command.name = str "wakeup_pcb" ∨
      command.name = str "suspend" ∨ command.name = str "resume" := by
    simpa [isPidCommand, hshow, hkill] using hname
  unfold Command.order
  rcases hcases with h | h | h | h <;> rw [h, hpid] <;> rfl

theorem steadyOut_dispatch {now : Int64} {floats : FloatFormat} {context : CommandContext}
    (hfresh : m.processes.pcbTable[m.processes.nextPid]? = none)
    (horder : m.users.currentUser ≠ none → command.order = none) :
    SteadyOut m (dispatch now floats command context m) := by
  have hmemory : ∀ {result : Except Str (MemoryManager × Str)}, SteadyOut m (memoryResult m result) := by
    intro result
    unfold memoryResult
    split <;> exact steady_of_table rfl
  -- behind a login the arguments hold no order
  have hnone : ∀ {owner : Str}, m.users.currentUser = some owner → command.order = none :=
    fun hlogin => horder (by simp [hlogin])
  apply dispatch_cases steadyOut_same
  case hregister =>
    intro _
    unfold registerCommand
    split
    · split <;> exact steady_of_table rfl
    · exact steadyOut_same _
  case hlogin =>
    intro _
    unfold loginCommand
    split <;> exact steady_of_table rfl
  case hlogout =>
    intro _
    unfold logoutCommand
    split <;> exact steady_of_table rfl
  case hcreate => exact fun _ => steadyOut_create hfresh _
  case halloc =>
    refine fun _ => cases_requireLogin steadyOut_same fun owner _ => ?_
    split
    · exact steadyOut_same _
    split
    · exact steadyOut_same _
    · exact hmemory
  case hfree =>
    exact fun _ => cases_requireLogin steadyOut_same fun _ _ =>
      cases_withPid steadyOut_same fun _ _ => hmemory
  case halgorithm =>
    refine fun _ => cases_requireLogin steadyOut_same fun _ _ => ?_
    split
    · exact hmemory
    · exact steadyOut_same _
  case hcompact =>
    refine fun _ => cases_requireLogin steadyOut_same fun _ _ => ?_
    unfold withoutArguments
    split
    · exact steadyOut_same _
    · exact steady_updateStarts _
  case hswap =>
    refine fun hname => cases_requireLogin steadyOut_same fun _ hlogin =>
      cases_withPid steadyOut_same fun pid hpid => ?_
    have hsome : command.order = some (pid, .swapOut) := by
      rw [Command.order, hname, hpid]
      rfl
    cases hsome.symm.trans (hnone hlogin)
  case hpid =>
    refine fun hname => cases_requireLogin steadyOut_same fun _ hlogin =>
      cases_withPid steadyOut_same fun pid hpid => ?_
    simp only
    split
    · exact steadyOut_same _
    next hshow =>
    split
    · exact steadyOut_kill
    next hkill =>
      have hsome := order_isSome_of_pid hname hshow hkill hpid
      rw [hnone hlogin] at hsome
      cases hsome
  case hrenice =>
    refine fun hname => cases_requireLogin steadyOut_same fun _ hlogin => ?_
    split
    next pidText priorityText harguments =>
      split
      next target priority hpid hpriority =>
        have hsome : command.order = some (target, .renice priority) := by
          rw [Command.order, hname, harguments]
          simp only [hpid, hpriority]
          rfl
        cases hsome.symm.trans (hnone hlogin)
      next => exact steadyOut_same _
    next => exact steadyOut_same _

theorem steady_schedulerCommand (hturn : k.userManager.currentUser ≠ none → ¬command.AsksTurn) :
    Steady k.processManager (k.handleSchedulerCommand command).1.processManager := by
  unfold handleSchedulerCommand
  split
  · exact steady_of_table rfl
  next hin =>
  obtain ⟨owner, hlogin⟩ := exists_login hin
  simp only
  split
  · exact steady_of_table rfl
  next hargs =>
  split
  next hname => exact absurd ⟨hname, not_not.mp hargs⟩ (hturn (by simp [hlogin]))
  split
  · split <;> exact steady_of_table rfl
  split
  · split <;> exact steady_of_table rfl
  split <;> exact steady_of_table rfl

theorem steady_request (hfresh : k.processManager.pcbTable[k.processManager.nextPid]? = none)
    (hload : (parse request.rawLine).name ≠ str "load")
    (hturn : k.userManager.currentUser ≠ none → ¬(parse request.rawLine).AsksTurn)
    (horder : k.userManager.currentUser ≠ none → (parse request.rawLine).order = none) :
    Steady k.processManager (k.executeRequest env fs request).1.processManager := by
  rw [executeRequest_processManager]
  unfold routeCommand
  split
  · exact steady_schedulerCommand hturn
  split
  · obtain ⟨fs', response, hsaved, -⟩ := persistenceCommand_save k env.saveIo fs hload
    rw [hsaved]
    exact steady_of_table rfl
  split
  · exact steady_of_table rfl
  split
  · exact steady_of_table (by simp only [processManager_vfsCommand])
  · exact steadyOut_dispatch (m := k.managers) hfresh horder

end Kernel

end OSCoreSim
