import OSCoreSim.Auth.LoginHistory
import OSCoreSim.Kernel.Isolation
import OSCoreSim.Kernel.Routing
/-!
# Changes stand behind a password

The accounts and the session of a running kernel change by the calls of the three account commands
alone.  A session that is open at some moment was therefore opened by the last login line, whose
password has the hash that the registration line stored, and only such a session lets a transition
reach the data of its user.
-/

namespace OSCoreSim

open CommandDispatcher UserManager Kernel

/-! ## One call of the user manager -/

namespace UserManager

variable {um : UserManager} {call : UserCall} {v : Str}

theorem answer_session (hbefore : um.currentUser ≠ some v)
    (hafter : (answer um call).1.currentUser = some v) :
    ∃ password account, call = .login v password ∧ (answer um call).2 = true ∧
      um.users[v]? = some account ∧ account.accepts password = true := by
  cases call with
  | register now username password =>
    cases hcall : um.registerUser now username password with
    | error message =>
      simp only [answer, hcall] at hafter
      exact absurd hafter hbefore
    | ok result =>
      obtain ⟨-, hnew⟩ := registerUser_spec hcall
      simp only [answer, hcall, hnew] at hafter
      exact absurd hafter hbefore
  | login username password =>
    have hcase := login_case um username password
    simp only [answer] at hafter ⊢
    generalize (um.login username password).1 = um', (um.login username password).2.1 = result
      at hcase hafter ⊢
    cases hcase with
    | occupied | unknown | locked | wrong => exact absurd hafter hbefore
    | success _ account hget _ hright =>
      obtain rfl : username = v := Option.some.inj hafter
      exact ⟨password, account, rfl, rfl, hget, hright⟩
  | logout =>
    cases hcall : um.logout with
    | error message =>
      simp only [answer, hcall] at hafter
      exact absurd hafter hbefore
    | ok result =>
      simp only [answer, hcall, logout_spec hcall] at hafter
      cases hafter

/-- The account of `v` accepts the passwords with the hash of `password`. -/
def Opens (um : UserManager) (v salt hash : Str) : Prop :=
  ∃ account, um.users[v]? = some account ∧ account.salt = salt ∧ account.passwordHash = hash

theorem login_hash (um : UserManager) (username password salt hash : Str)
    (h : (um.login username password).1.Opens v salt hash) : um.Opens v salt hash := by
  have hcase := login_case um username password
  generalize (um.login username password).1 = um', (um.login username password).2.1 = result
    at hcase h
  have hstored : ∀ account account' : UserAccount, um.users[username]? = some account →
      account'.salt = account.salt → account'.passwordHash = account.passwordHash →
      (∃ found, (um.users.insert username account')[v]? = some found ∧ found.salt = salt ∧
        found.passwordHash = hash) → um.Opens v salt hash := by
    rintro account account' hget hsalt hhash ⟨found, hfound, rfl, rfl⟩
    rw [KeyedTable.getElem?_insert] at hfound
    split at hfound
    next heq =>
      cases hfound
      exact ⟨account, heq ▸ hget, hsalt.symm, hhash.symm⟩
    next => exact ⟨found, hfound, rfl, rfl⟩
  cases hcase with
  | occupied | unknown | locked => exact h
  | wrong _ account hget =>
    refine hstored account (punish account) hget ?_ ?_ h
    · unfold punish
      dsimp only
      split <;> rfl
    · unfold punish
      dsimp only
      split <;> rfl
  | success _ account hget =>
    exact hstored account { account with failedAttempts := 0 } hget rfl rfl h

/-- Only the registration of a name stores a hash under it, and stores that of its password with the
salt made then. -/
theorem answer_opens {salt hash : Str} (hbefore : ¬um.Opens v salt hash)
    (hafter : (answer um call).1.Opens v salt hash) :
    ∃ now password, call = .register now v password ∧ (answer um call).2 = true ∧
      salt = um.makeSalt now ∧ hash = hashPassword salt password := by
  cases call with
  | register now username password =>
    cases hcall : um.registerUser now username password with
    | error message =>
      simp only [answer, hcall] at hafter
      exact absurd hafter hbefore
    | ok result =>
      obtain ⟨-, hnew⟩ := registerUser_spec hcall
      simp only [answer, hcall, hnew] at hafter ⊢
      obtain ⟨account, hget, rfl, rfl⟩ := hafter
      rw [KeyedTable.getElem?_insert] at hget
      split at hget
      next heq =>
        cases hget
        exact ⟨now, password, by rw [heq], trivial, rfl, rfl⟩
      next => exact absurd ⟨account, hget, rfl, rfl⟩ hbefore
  | login username password =>
    exact absurd (login_hash um username password salt hash hafter) hbefore
  | logout =>
    cases hcall : um.logout with
    | error message =>
      simp only [answer, hcall] at hafter
      exact absurd hafter hbefore
    | ok result =>
      simp only [answer, hcall, Opens, logout_users hcall] at hafter
      exact absurd hafter hbefore

end UserManager

/-! ## The account commands -/

namespace CommandDispatcher

def userCall (now : Int64) (command : Command) : Option UserCall :=
  if command.name = str "register" then
    match command.arguments with
    | [username, password] => some (.register now username password)
    | _ => none
  else if command.name = str "login" then
    match command.arguments with
    | [username, password] => some (.login username password)
    | _ => none
  else if command.name = str "logout" then some .logout
  else none

variable {managers : Managers} {command : Command} {now : Int64} {floats : FloatFormat}
  {context : CommandContext}

theorem userCall_eq_none (hregister : command.name ≠ str "register")
    (hlogin : command.name ≠ str "login") (hlogout : command.name ≠ str "logout") :
    userCall now command = none := by
  simp [userCall, hregister, hlogin, hlogout]

theorem userCall_of_group {group : Str → Bool} (hname : group command.name = true)
    (hregister : group (str "register") = false) (hlogin : group (str "login") = false)
    (hlogout : group (str "logout") = false) : userCall now command = none := by
  have hne : ∀ {name : Str}, group name = false → command.name ≠ name := by
    intro name hfalse heq
    rw [heq, hfalse] at hname
    cases hname
  exact userCall_eq_none (hne hregister) (hne hlogin) (hne hlogout)

/-- The user manager behind a call, and the flag of the reply. -/
def Answers (managers : Managers) (call : Option UserCall) (out : Managers × CommandResponse) :
    Prop :=
  match call with
  | some call => out.1.users = (answer managers.users call).1 ∧
      out.2.success = (answer managers.users call).2
  | none => out.1.users = managers.users

theorem answers_registerCommand (hname : command.name = str "register") :
    Answers managers (userCall now command) (registerCommand now managers command.arguments) := by
  unfold userCall registerCommand
  rw [if_pos hname]
  rcases command.arguments with _ | ⟨username, _ | ⟨password, _ | ⟨third, rest⟩⟩⟩
  · rfl
  · rfl
  · cases hcall : managers.users.registerUser now username password with
    | error message => simp [Answers, answer, hcall, reply]
    | ok result => simp [Answers, answer, hcall, reply]
  · rfl

theorem answers_loginCommand (hname : command.name = str "login") :
    Answers managers (userCall now command) (loginCommand managers command.arguments) := by
  have hother : str "login" ≠ str "register" := by decide
  unfold userCall loginCommand
  rw [if_neg (hname ▸ hother), if_pos hname]
  rcases command.arguments with _ | ⟨username, _ | ⟨password, _ | ⟨third, rest⟩⟩⟩
  · rfl
  · rfl
  · exact ⟨rfl, rfl⟩
  · rfl

theorem answers_logoutCommand (hname : command.name = str "logout") :
    Answers managers (userCall now command) (logoutCommand managers) := by
  have hregister : str "logout" ≠ str "register" := by decide
  have hlogin : str "logout" ≠ str "login" := by decide
  unfold userCall logoutCommand
  rw [if_neg (hname ▸ hregister), if_neg (hname ▸ hlogin), if_pos hname]
  cases hcall : managers.users.logout with
  | error message => simp [Answers, answer, hcall, reply]
  | ok result => simp [Answers, answer, hcall, reply]

theorem users_requireLogin {body : Managers × CommandResponse}
    (h : body.1.users = managers.users) : (requireLogin managers body).1.users = managers.users :=
  cases_requireLogin (C := fun out => out.1.users = managers.users) (fun _ => rfl) fun _ _ => h

theorem users_withPid {usage : Str} {arguments : List Str}
    {body : UInt32 → Managers × CommandResponse} (h : ∀ pid, (body pid).1.users = managers.users) :
    (withPid managers usage arguments body).1.users = managers.users :=
  cases_withPid (C := fun out => out.1.users = managers.users) (fun _ => rfl) fun pid _ => h pid

theorem users_memoryResult (result : Except Str (MemoryManager × Str)) :
    (memoryResult managers result).1.users = managers.users := by
  cases result <;> rfl

theorem users_processResult (result : Except Str (ProcessManager × Str)) :
    (processResult managers result).1.users = managers.users := by
  cases result <;> rfl

theorem users_createCommand (arguments : List Str) :
    (createCommand managers arguments).1.users = managers.users := by
  refine users_requireLogin ?_
  split
  · rfl
  · unfold createWithMemory
    dsimp only
    split
    · rfl
    · split
      · rfl
      · split <;> rfl

theorem users_allocCommand (arguments : List Str) :
    (allocCommand managers arguments).1.users = managers.users := by
  refine users_requireLogin ?_
  split
  · rfl
  · split
    · rfl
    · exact users_memoryResult _

theorem users_setAllocAlgoCommand (arguments : List Str) :
    (setAllocAlgoCommand managers arguments).1.users = managers.users := by
  refine users_requireLogin ?_
  split
  · exact users_memoryResult _
  · rfl

theorem users_compactCommand (arguments : List Str) :
    (compactCommand managers arguments).1.users = managers.users := by
  refine users_requireLogin ?_
  unfold withoutArguments
  split <;> rfl

theorem users_swapOutCommand (arguments : List Str) :
    (swapOutCommand managers arguments).1.users = managers.users := by
  refine users_requireLogin (users_withPid fun pid => ?_)
  unfold swapOut
  split
  · rfl
  split
  · rfl
  split
  · rfl
  · split <;> rfl

theorem users_pidCommand (name : Str) (arguments : List Str) :
    (pidCommand managers name arguments).1.users = managers.users := by
  refine users_requireLogin (users_withPid fun pid => ?_)
  dsimp only
  split
  · rfl
  split
  · unfold killSubtree
    split <;> rfl
  split
  · exact users_processResult _
  split
  · exact users_processResult _
  split <;> exact users_processResult _

theorem users_reniceCommand (arguments : List Str) :
    (reniceCommand managers arguments).1.users = managers.users := by
  refine users_requireLogin ?_
  split
  · split
    · exact users_processResult _
    · rfl
  · rfl

theorem answers_dispatch : Answers managers (userCall now command)
    (dispatch now floats command context managers) := by
  by_cases haccount : command.name = str "register" ∨ command.name = str "login" ∨
      command.name = str "logout"
  · rcases haccount with hname | hname | hname
    · have hroute : dispatch now floats command context managers =
          registerCommand now managers command.arguments := by
        unfold dispatch
        rw [hname]
        rfl
      rw [hroute]
      exact answers_registerCommand hname
    · have hroute : dispatch now floats command context managers =
          loginCommand managers command.arguments := by
        unfold dispatch
        rw [hname]
        rfl
      rw [hroute]
      exact answers_loginCommand hname
    · have hroute : dispatch now floats command context managers = logoutCommand managers := by
        unfold dispatch
        rw [hname]
        rfl
      rw [hroute]
      exact answers_logoutCommand hname
  · obtain ⟨hregister, hlogin, hlogout⟩ := by simpa only [not_or] using haccount
    rw [userCall_eq_none hregister hlogin hlogout]
    refine dispatch_cases (C := fun out => out.1.users = managers.users) (fun _ => rfl)
      (fun hname => absurd hname hregister) (fun hname => absurd hname hlogin)
      (fun hname => absurd hname hlogout) ?_ ?_ ?_ ?_ ?_ ?_ ?_ ?_
    · exact fun _ => users_createCommand _
    · exact fun _ => users_allocCommand _
    · exact fun _ => users_requireLogin (users_withPid fun _ => users_memoryResult _)
    · exact fun _ => users_setAllocAlgoCommand _
    · exact fun _ => users_compactCommand _
    · exact fun _ => users_swapOutCommand _
    · exact fun _ => users_pidCommand _ _
    · exact fun _ => users_reniceCommand _

end CommandDispatcher

namespace Kernel

/-- A request makes the call of its command on the user manager of the kernel. -/
theorem executeRequest_answers (k : Kernel) (env : Environment) (fs : FileSystem)
    (request : CommandRequest) (hload : (parse request.rawLine).name ≠ str "load") :
    Answers k.managers (userCall env.steadyClock (parse request.rawLine))
      ((k.executeRequest env fs request).1.managers, (k.executeRequest env fs request).2.2) := by
  unfold executeRequest
  generalize parse request.rawLine = command at hload ⊢
  have hroute : Answers k.managers (userCall env.steadyClock command)
      ((k.routeCommand env fs request command).1.managers,
        (k.routeCommand env fs request command).2.2) := by
    unfold routeCommand
    split
    next hname =>
      rw [userCall_of_group hname (by decide) (by decide) (by decide)]
      exact (schedulerCommand_frame k command).1
    split
    next hname =>
      rw [userCall_of_group hname (by decide) (by decide) (by decide)]
      obtain ⟨fs', response, hsaved, -⟩ := persistenceCommand_save k env.saveIo fs hload
      rw [hsaved]
      rfl
    split
    next hname =>
      rw [userCall_of_group hname (by decide) (by decide) (by decide)]
      rfl
    split
    next hname =>
      rw [userCall_of_group hname (by decide) (by decide) (by decide)]
      have hsame : (k.handleVfsCommand env.time command).1.userManager = k.userManager := by
        rw [vfsCommand_frame]
      exact hsame
    next => exact answers_dispatch
  dsimp only
  split
  · exact hroute
  · exact hroute

end Kernel

def Event.userCall : Event → Option UserCall
  | .request env line => CommandDispatcher.userCall env.steadyClock (parse line.rawLine)
  | .tick => none

namespace World

variable {w : World} {event : Event} {events : List Event} {v : Str}

/-! ## Runs -/

theorem userManager_step_none (hload : ¬event.Named (str "load")) (hcall : event.userCall = none) :
    (w.step event).kernel.userManager = w.kernel.userManager := by
  cases event with
  | request env request =>
    have hanswer := executeRequest_answers w.kernel env w.disk request fun hname =>
      hload ⟨_, rfl, hname⟩
    rw [show CommandDispatcher.userCall env.steadyClock (parse request.rawLine) = none from hcall]
      at hanswer
    exact hanswer
  | tick => exact tick_keeps (P := fun k => k.userManager = w.kernel.userManager) rfl fun _ _ => rfl

theorem userManager_step_some {call : UserCall} (hload : ¬event.Named (str "load"))
    (hcall : event.userCall = some call) :
    (w.step event).kernel.userManager = (answer w.kernel.userManager call).1 ∧
      (w.Succeeds event ↔ (answer w.kernel.userManager call).2 = true) := by
  cases event with
  | request env request =>
    have hanswer := executeRequest_answers w.kernel env w.disk request fun hname =>
      hload ⟨_, rfl, hname⟩
    rw [show CommandDispatcher.userCall env.steadyClock (parse request.rawLine) = some call
      from hcall] at hanswer
    refine ⟨hanswer.1, ?_⟩
    rw [succeeds_request, show (w.kernel.executeRequest env w.disk request).2.2.success = _
      from hanswer.2]
    rfl
  | tick => cases hcall

/-- What an event changes about the user manager, its call has changed. -/
theorem exists_userCall {P : UserManager → Prop} (hload : ¬event.Named (str "load"))
    (hbefore : ¬P w.kernel.userManager) (hafter : P (w.step event).kernel.userManager) :
    ∃ call, event.userCall = some call ∧ P (answer w.kernel.userManager call).1 ∧
      (w.Succeeds event ↔ (answer w.kernel.userManager call).2 = true) := by
  cases hcall : event.userCall with
  | none =>
    rw [userManager_step_none hload hcall] at hafter
    exact absurd hafter hbefore
  | some call =>
    obtain ⟨hstep, hsuccess⟩ := userManager_step_some (w := w) hload hcall
    exact ⟨call, rfl, hstep ▸ hafter, hsuccess⟩

theorem session_opened (hload : ¬event.Named (str "load"))
    (hbefore : w.kernel.userManager.currentUser ≠ some v)
    (hafter : (w.step event).kernel.userManager.currentUser = some v) :
    ∃ password account, event.userCall = some (.login v password) ∧ w.Succeeds event ∧
      w.kernel.userManager.users[v]? = some account ∧ account.accepts password = true := by
  obtain ⟨call, hcall, hopen, hsuccess⟩ :=
    exists_userCall (P := fun um => um.currentUser = some v) hload hbefore hafter
  obtain ⟨password, account, rfl, htrue, hget, haccepts⟩ := answer_session hbefore hopen
  exact ⟨password, account, hcall, hsuccess.mpr htrue, hget, haccepts⟩

theorem hash_stored {salt hash : Str} (hload : ¬event.Named (str "load"))
    (hbefore : ¬w.kernel.userManager.Opens v salt hash)
    (hafter : (w.step event).kernel.userManager.Opens v salt hash) :
    ∃ now password, event.userCall = some (.register now v password) ∧ w.Succeeds event ∧
      salt = w.kernel.userManager.makeSalt now ∧ hash = hashPassword salt password := by
  obtain ⟨call, hcall, hopens, hsuccess⟩ :=
    exists_userCall (P := fun um => um.Opens v salt hash) hload hbefore hafter
  obtain ⟨now, password, rfl, htrue, hhash⟩ := answer_opens hbefore hopens
  exact ⟨now, password, hcall, hsuccess.mpr htrue, hhash⟩

/-- The user has registered, and has logged in later with a password that has the same hash under the
salt of the registration; the session has been open ever since. -/
def Authenticated (w : World) (v : Str) (events : List Event) : Prop :=
  ∃ (early middle late : List Event) (signup login : Event) (now : Int64) (chosen typed salt : Str),
    events = early ++ signup :: middle ++ login :: late ∧
    signup.userCall = some (.register now v chosen) ∧ (Runs.run step w early).Succeeds signup ∧
    login.userCall = some (.login v typed) ∧
    (Runs.run step w (early ++ signup :: middle)).Succeeds login ∧
    salt = (Runs.run step w early).kernel.userManager.makeSalt now ∧
    hashPassword salt chosen = hashPassword salt typed ∧
    ∀ between after, late = between ++ after →
      (Runs.run step w
        (early ++ signup :: middle ++ login :: between)).kernel.userManager.currentUser = some v

theorem authenticated_of_session (hclean : w.kernel.Clean) (hload : NoLoad events)
    (hsession : (Runs.run step w events).kernel.userManager.currentUser = some v) :
    Authenticated w v events := by
  have hclosed : w.kernel.userManager.currentUser ≠ some v := by
    simp [hclean.session]
  -- the event that opened the session for the last time is the login line
  obtain ⟨pre, login, late, rfl, hbefore, hsince⟩ :=
    Runs.exists_rise (P := fun w : World => w.kernel.userManager.currentUser = some v) hclosed
      hsession
  have hopen := hsince [] late rfl
  rw [Runs.run_append, Runs.run_cons, Runs.run_nil] at hopen
  obtain ⟨typed, account, hlogin, hsuccess, hget, haccepts⟩ :=
    session_opened (hload login (by simp)) hbefore hopen
  have hunknown : ¬w.kernel.userManager.Opens v account.salt account.passwordHash := by
    rintro ⟨found, hfound, -, -⟩
    rw [hclean.users] at hfound
    simp at hfound
  -- and the one that stored the hash that it was tested against is the registration
  obtain ⟨early, signup, middle, rfl, hfresh, hkept⟩ :=
    Runs.exists_rise (P := fun w : World =>
      w.kernel.userManager.Opens v account.salt account.passwordHash) hunknown
      ⟨account, hget, rfl, rfl⟩
  have hstored := hkept [] middle rfl
  rw [Runs.run_append, Runs.run_cons, Runs.run_nil] at hstored
  obtain ⟨now, chosen, hsignup, hregistered, hsalt, hhash⟩ :=
    hash_stored (hload signup (by simp)) hfresh hstored
  have hsame : hashPassword account.salt chosen = hashPassword account.salt typed := by
    rw [← hhash]
    simpa [UserAccount.accepts] using haccepts
  exact ⟨early, middle, late, signup, login, now, chosen, typed, account.salt, rfl, hsignup,
    hregistered, hlogin, hsuccess, hsalt, hsame, hsince⟩

/-- In every load-free run from a clean start, a transition that touches the processes, the ready
queues, the files or the memory of a user finds the session of that user open, since a login with a
password that has the hash of the password from the registration. -/
theorem authenticated_of_run {w : World} (hclean : w.kernel.Clean) {events : List Event}
    {event : Event} (hload : NoLoad (events ++ [event]))
    (hbudget : Runs.total step creations w (events ++ [event]) < 2 ^ 32 - 1) {v : Str}
    (htouched : ¬Untouched v (event.Named (str "compact")) (Runs.run step w events).kernel
      ((Runs.run step w events).step event).kernel) : Authenticated w v events := by
  have hok := separate_of_budget hclean hload hbudget
  obtain ⟨hpast, hlast, -⟩ := Runs.permitted_append.mp hok
  obtain ⟨hfenced, hattended⟩ := fenced_run hclean hpast
  have hpastLoad : NoLoad events := fun e hmem => hload e (List.mem_append_left _ hmem)
  by_contra hnot
  exact htouched (untouched_step hfenced hattended hlast fun hsession =>
    hnot (authenticated_of_session hclean hpastLoad hsession))

/-- A turn of the scheduler that `a` has started. -/
theorem authenticated_of_run_turn :
    let w : World := { kernel := Kernel.start {} ∅ }
    let events := [console "register b pw", console "register a pw", console "login a pw",
      console "create_pcb p 4 1 5", console "start_sched"]
    Authenticated w (str "a") events := by
  intro w events
  have hload : NoLoad (events ++ [Event.tick]) := by decide
  refine authenticated_of_run (clean_start {} ∅ fun _ h => by cases h) hload
    (Nat.lt_of_le_of_lt (Runs.total_le_length creations_le_one _ _) (by decide)) fun h => ?_
  have hqueue := h.queues 0
  revert hqueue
  decide +kernel

end World

end OSCoreSim
