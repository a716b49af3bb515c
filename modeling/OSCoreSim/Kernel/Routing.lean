import OSCoreSim.Kernel.Changes
/-!
# The way of a request to its handler

`dispatch` is a chain of name tests, and `dispatch_cases` walks it once: what holds when the
managers stay as they are, and of the answer of every command that may change them, holds of every
answer.  The other lemmas say which part of the state a group of commands leaves alone.
-/

namespace OSCoreSim

open CommandDispatcher

namespace Kernel

variable {k : Kernel} {env : Environment} {fs : FileSystem} {request : CommandRequest}

section dispatch

variable {managers : Managers} {command : Command} {now : Int64} {floats : FloatFormat}
  {context : CommandContext} {C : Managers × CommandResponse → Prop}

theorem cases_requireLogin {body : Managers × CommandResponse}
    (hsame : ∀ response, C (managers, response))
    (h : ∀ owner, managers.users.currentUser = some owner → C body) : C (requireLogin managers body) := by
  unfold requireLogin
  split
  next hlogin =>
    obtain ⟨owner, howner⟩ := Option.isSome_iff_exists.mp hlogin
    exact h owner howner
  next => exact hsame _

theorem cases_withPid {usage : Str} {arguments : List Str}
    {body : UInt32 → Managers × CommandResponse} (hsame : ∀ response, C (managers, response))
    (h : ∀ pid, pidArgument arguments = some pid → C (body pid)) :
    C (withPid managers usage arguments body) := by
  unfold withPid
  split
  · split
    next hpid => exact h _ hpid
    next => exact hsame _
  · exact hsame _

theorem cases_viewCommand {name : Str} {arguments : List Str} {view : Str → Str}
    (hsame : ∀ response, C (managers, response)) :
    C (viewCommand managers name arguments view) := by
  refine cases_requireLogin hsame fun _ _ => ?_
  unfold withoutArguments
  split <;> exact hsame _

theorem cases_pgfaultCommand {arguments : List Str} (hsame : ∀ response, C (managers, response)) :
    C (pgfaultCommand managers arguments) := by
  refine cases_requireLogin hsame fun _ _ => ?_
  split
  · exact hsame _
  · refine cases_withPid hsame fun pid _ => ?_
    split <;> exact hsame _

theorem cases_ite {c : Prop} [Decidable c] {a b : Managers × CommandResponse} (ha : c → C a)
    (hb : C b) : C (if c then a else b) := by
  split
  next h => exact ha h
  next => exact hb

/-- The branches of `dispatch` in their order. -/
theorem dispatch_cases (hsame : ∀ response, C (managers, response))
    (hregister : command.name = str "register" →
      C (registerCommand now managers command.arguments))
    (hlogin : command.name = str "login" → C (loginCommand managers command.arguments))
    (hlogout : command.name = str "logout" → C (logoutCommand managers))
    (hcreate : command.name = str "create_pcb" → C (createCommand managers command.arguments))
    (halloc : command.name = str "alloc" → C (allocCommand managers command.arguments))
    (hfree : command.name = str "free_mem" → C (freeMemCommand managers command.arguments))
    (halgorithm : command.name = str "set_alloc_algo" →
      C (setAllocAlgoCommand managers command.arguments))
    (hcompact : command.name = str "compact" → C (compactCommand managers command.arguments))
    (hswap : command.name = str "swap_out" → C (swapOutCommand managers command.arguments))
    (hpid : isPidCommand command.name = true →
      C (pidCommand managers command.name command.arguments))
    (hrenice : command.name = str "renice" → C (reniceCommand managers command.arguments)) :
    C (dispatch now floats command context managers) := by
  have hview : ∀ {view : Str → Str}, C (viewCommand managers command.name command.arguments view) :=
    cases_viewCommand hsame
  refine cases_ite (fun _ => hsame _) (cases_ite (fun _ => hsame _) ?_)
  refine cases_ite (fun _ => hsame _) (cases_ite (fun _ => hsame _) ?_)
  refine cases_ite (fun _ => hsame _) (cases_ite hregister (cases_ite hlogin ?_))
  refine cases_ite hlogout (cases_ite (fun _ => hsame _) (cases_ite hcreate ?_))
  refine cases_ite halloc (cases_ite hfree ?_)
  refine cases_ite (fun _ => hview) (cases_ite (fun _ => hview) ?_)
  refine cases_ite halgorithm (cases_ite hcompact ?_)
  refine cases_ite (fun _ => cases_pgfaultCommand hsame) (cases_ite hswap ?_)
  refine cases_ite hpid (cases_ite hrenice ?_)
  refine cases_ite (fun _ => hview) (cases_ite (fun _ => hview) ?_)
  exact cases_ite (fun _ => hview) (cases_ite (fun _ => hsame _) (hsame _))

end dispatch

/-! ## Groups of commands -/

theorem executeRequest_scheduler (k : Kernel) (env : Environment) (fs : FileSystem)
    (request : CommandRequest) (hname : isSchedulerCommand (parse request.rawLine).name = true) :
    k.executeRequest env fs request =
      ((k.handleSchedulerCommand (parse request.rawLine)).1, fs,
        (k.handleSchedulerCommand (parse request.rawLine)).2) := by
  unfold executeRequest routeCommand
  generalize parse request.rawLine = command at hname ⊢
  have hlogout : command.name ≠ str "logout" := by
    intro heq
    rw [heq] at hname
    exact absurd hname (by decide)
  have hstay : (k.handleSchedulerCommand command).2.shouldExit = false :=
    (handled_schedulerCommand (k := k)).1
  simp only [hname, hstay, hlogout, if_true, and_false, or_false, Bool.false_eq_true, if_false]

theorem executeRequest_disk (hsave : (parse request.rawLine).name ≠ str "save") :
    (k.executeRequest env fs request).2.1 = fs := by
  have hroute : (k.routeCommand env fs request (parse request.rawLine)).2.1 = fs := by
    unfold routeCommand
    split
    · rfl
    split
    · unfold handlePersistenceCommand
      split
      · rfl
      split <;> rfl
    split
    · rfl
    split <;> rfl
  unfold executeRequest
  simp only
  split <;> exact hroute

/-- The halt behind a logout or an exit concerns the scheduler alone. -/
theorem executeRequest_processManager (k : Kernel) (env : Environment) (fs : FileSystem)
    (request : CommandRequest) : (k.executeRequest env fs request).1.processManager =
      (k.routeCommand env fs request (parse request.rawLine)).1.processManager := by
  unfold executeRequest
  simp only
  split <;> rfl

/-! ## What a handler leaves alone -/

theorem schedulerCommand_frame (k : Kernel) (command : Command) :
    (k.handleSchedulerCommand command).1.userManager = k.userManager ∧
      (k.handleSchedulerCommand command).1.vfs = k.vfs := by
  unfold handleSchedulerCommand
  split
  · exact ⟨rfl, rfl⟩
  dsimp only
  split
  · exact ⟨rfl, rfl⟩
  split
  · exact ⟨rfl, rfl⟩
  split
  · split <;> exact ⟨rfl, rfl⟩
  split
  · split <;> exact ⟨rfl, rfl⟩
  split <;> exact ⟨rfl, rfl⟩

theorem vfsCommand_frame (k : Kernel) (time : UInt64) (command : Command) :
    (k.handleVfsCommand time command).1 =
      { k with vfs := (k.handleVfsCommand time command).1.vfs } := by
  have hresult : ∀ result,
      (k.vfsResult result).1 = { k with vfs := (k.vfsResult result).1.vfs } := by
    intro result
    cases result <;> rfl
  unfold handleVfsCommand
  split
  · rfl
  dsimp only
  split
  · split
    · exact hresult _
    · rfl
  split
  · split
    · exact hresult _
    · rfl
  split
  · split <;> rfl
  split
  · split <;> rfl
  split
  · split
    · exact hresult _
    · rfl
  · rfl

end Kernel

end OSCoreSim
