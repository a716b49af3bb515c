import OSCoreSim.App.ConsoleApp
import OSCoreSim.App.MenuScript
import OSCoreSim.Util.BlockingQueue
import OSCoreSim.Lib.Simulation
/-!
# Sessions

The two programs around the kernel: `masterLoop` and `clientLoop` with their menus.  A session of
the master is a run of the kernel on commands that depend on what is typed and on nothing else,
whatever the clients and the timer do in between; behind an `exit` that a client has had executed
the kernel refuses all of them.
-/

namespace OSCoreSim

open CommandDispatcher NamedPipe

namespace ConsoleApp

variable {σ : Type}

/-! ## The master -/

def masterPrompt : Str := str "OS-SIM[MASTER]> "

def commandLoop (submitCommand : Str → σ → CommandResponse × σ) : List Str → σ → Str × σ
  | [], master => (masterPrompt ++ str "\n", master)
  | line :: lines, master =>
    if isBlankLine line then
      let rest := commandLoop submitCommand lines master
      (masterPrompt ++ rest.1, rest.2)
    else
      let response := submitCommand line master
      let shown := masterPrompt ++
        if response.1.message = [] then [] else response.1.message ++ str "\n"
      if response.1.shouldExit then (shown, response.2)
      else
        let rest := commandLoop submitCommand lines response.2
        (shown ++ rest.1, rest.2)

def bannerRule : Str := str "========================================\n"

def masterBanner : Str :=
  bannerRule ++ str " 可持久化操作系统核心模拟器\n Windows / C++20 / 操作系统课程设计\n" ++
    str " 当前角色：MASTER\n 输入 help 可查看原始命令列表。\n" ++ bannerRule

def masterExecutor (submitCommand : Str → σ → CommandResponse × σ) (command : Str) (master : σ) :
    MenuCommandResult × σ :=
  let response := submitCommand command master
  ({ message := response.1.message, shouldExit := response.1.shouldExit }, response.2)

/-- `masterLoop` between the start of the kernel and its stop. -/
def masterLoop (interactive : Bool) (startupMessage : Str)
    (submitCommand : Str → σ → CommandResponse × σ) (lines : List Str) (master : σ) : Str × σ :=
  let banner := masterBanner ++ if startupMessage = [] then [] else startupMessage ++ str "\n"
  if interactive then
    let menu := MenuConsole.run .master (masterExecutor submitCommand) lines master
    match menu.outcome with
    | .exitProgram => (banner ++ menu.output, menu.master)
    | .enterRawMode =>
      let rest := commandLoop submitCommand menu.unread menu.master
      (banner ++ menu.output ++ rest.1, rest.2)
  else
    let rest := commandLoop submitCommand lines master
    (banner ++ rest.1, rest.2)

/-! ## The client -/

def clientBanner : Str :=
  bannerRule ++ str " 可持久化操作系统核心模拟器\n Windows / C++20 / 操作系统课程设计\n" ++
    str " 当前角色：CLIENT\n 已通过 Named Pipe 连接到 MASTER 内核。\n" ++
    str " 输入 exit 可关闭当前客户端窗口。\n" ++ bannerRule

def clientExecutor (sendCommand : Str → σ → Bool × Str × σ) (command : Str) (master : σ) :
    MenuCommandResult × σ :=
  let sent := sendCommand command master
  if sent.1 then ({ message := sent.2.1 }, sent.2.2)
  else
    ({ message := sent.2.1 ++ str "\n[INFO] Client will exit because it cannot reach Master."
       fatalError := true }, sent.2.2)

def clientProgram (interactive : Bool) (sendCommand : Str → σ → Bool × Str × σ)
    (lines : List Str) (master : σ) : Str × σ :=
  if interactive then
    let menu := MenuConsole.run .client (clientExecutor sendCommand) lines master
    match menu.outcome with
    | .exitProgram => (clientBanner ++ menu.output, menu.master)
    | .enterRawMode =>
      let rest := clientLoop sendCommand menu.unread menu.master
      (clientBanner ++ menu.output ++ rest.1, rest.2)
  else
    let rest := clientLoop sendCommand lines master
    (clientBanner ++ rest.1, rest.2)

/-! ## What a session sends -/

/-- What the command loop sends: every line that is not blank, up to the first `exit`. -/
def commandScript : List Str → List Str
  | [] => []
  | line :: lines =>
    if isBlankLine line then commandScript lines
    else if IsExitName (parse line).name then [line]
    else line :: commandScript lines

def masterScript (interactive : Bool) (lines : List Str) : List Str :=
  if interactive then
    let menu := MenuConsole.script .master lines
    match menu.outcome with
    | .exitProgram => menu.master
    | .enterRawMode => menu.master ++ commandScript menu.unread
  else commandScript lines

section

variable {submitCommand : Str → σ → CommandResponse × σ}

theorem commandLoop_sends (submitCommand : Str → σ → CommandResponse × σ) (lines : List Str)
    (master : σ) : ∃ sent, (commandLoop submitCommand lines master).2 =
      Runs.run (fun master line => (submitCommand line master).2) master sent ∧
        ∀ command ∈ sent, command ∈ lines := by
  induction lines generalizing master with
  | nil => exact ⟨[], rfl, fun _ h => absurd h List.not_mem_nil⟩
  | cons line lines ih =>
    unfold commandLoop
    split
    · obtain ⟨sent, hsent, hlines⟩ := ih master
      exact ⟨sent, hsent, fun command h => List.mem_cons_of_mem line (hlines command h)⟩
    dsimp only
    split
    · exact ⟨[line], rfl, fun command h => List.mem_singleton.mp h ▸ List.mem_cons_self⟩
    · obtain ⟨sent, hsent, hlines⟩ := ih (submitCommand line master).2
      refine ⟨line :: sent, hsent, fun command h => ?_⟩
      rcases List.mem_cons.mp h with rfl | h
      · exact List.mem_cons_self
      · exact List.mem_cons_of_mem line (hlines command h)

/-- The last command of the script is an `exit` that is not obeyed. -/
def Refused (submitCommand : Str → σ → CommandResponse × σ) (script : List Str) (master : σ) :
    Prop :=
  ∃ early last, script = early ++ [last] ∧ IsExitName (parse last).name ∧
    (submitCommand last (Runs.run (fun master line => (submitCommand line master).2) master
      early)).1.shouldExit = false

theorem Refused.append {script : List Str} {master : σ} (sent : List Str)
    (h : Refused submitCommand script
      (Runs.run (fun master line => (submitCommand line master).2) master sent)) :
    Refused submitCommand (sent ++ script) master := by
  obtain ⟨early, last, rfl, hname, hstays⟩ := h
  refine ⟨sent ++ early, last, (List.append_assoc _ _ _).symm, hname, ?_⟩
  rw [Runs.run_append]
  exact hstays

/-- The loop sends its script, and more only if the `exit` at its end is not obeyed. -/
theorem commandLoop_script (hexit : ∀ line master,
      (submitCommand line master).1.shouldExit = true → IsExitName (parse line).name)
    (lines : List Str) (master : σ) : ∃ more, (commandLoop submitCommand lines master).2 =
      Runs.run (fun master line => (submitCommand line master).2) master
        (commandScript lines ++ more) ∧
      (more ≠ [] → Refused submitCommand (commandScript lines) master) ∧
        ∀ command ∈ more, command ∈ lines := by
  induction lines generalizing master with
  | nil => exact ⟨[], rfl, fun h => absurd rfl h, fun _ h => absurd h List.not_mem_nil⟩
  | cons line lines ih =>
    unfold commandLoop commandScript
    split
    · obtain ⟨more, hmore, hrefused, hlines⟩ := ih master
      exact ⟨more, hmore, hrefused, fun command h => List.mem_cons_of_mem line (hlines command h)⟩
    dsimp only
    split
    next hleaves =>
      rw [if_pos (hexit line master hleaves)]
      exact ⟨[], rfl, fun h => absurd rfl h, fun _ h => absurd h List.not_mem_nil⟩
    next hstays =>
      rw [Bool.not_eq_true] at hstays
      by_cases hname : IsExitName (parse line).name
      · obtain ⟨more, hmore, hlines⟩ := commandLoop_sends submitCommand lines
          (submitCommand line master).2
        rw [if_pos hname]
        exact ⟨more, hmore, fun _ => ⟨[], line, rfl, hname, hstays⟩,
          fun command h => List.mem_cons_of_mem line (hlines command h)⟩
      · obtain ⟨more, hmore, hrefused, hlines⟩ := ih (submitCommand line master).2
        rw [if_neg hname]
        exact ⟨more, hmore, fun h => (hrefused h).append [line],
          fun command h => List.mem_cons_of_mem line (hlines command h)⟩

theorem exitName_not_menu : ∀ name ∈ MenuConsole.menuNames, ¬IsExitName name := by decide +kernel

theorem masterLoop_script (hexit : ∀ line master,
      (submitCommand line master).1.shouldExit = true → IsExitName (parse line).name)
    (interactive : Bool) (startupMessage : Str) (lines : List Str) (master : σ) : ∃ more,
      (masterLoop interactive startupMessage submitCommand lines master).2 =
        Runs.run (fun master line => (submitCommand line master).2) master
          (masterScript interactive lines ++ more) ∧
      (more ≠ [] → Refused submitCommand (masterScript interactive lines) master) ∧
        ∀ command ∈ more, command ∈ lines := by
  cases interactive with
  | false => exact commandLoop_script hexit lines master
  | true =>
    have hstay : ∀ command, (parse command).name ∈ MenuConsole.menuNames → ∀ m,
        (masterExecutor submitCommand command m).1.shouldExit = false ∧
          (masterExecutor submitCommand command m).1.fatalError = false := by
      intro command hname m
      refine ⟨?_, rfl⟩
      rw [← Bool.not_eq_true]
      exact fun hleave => exitName_not_menu _ hname (hexit command m hleave)
    obtain ⟨houtcome, hunread, hmaster⟩ :=
      MenuConsole.run_script .master hstay lines master
    have hsent : (MenuConsole.run .master (masterExecutor submitCommand) lines master).master =
        Runs.run (fun master line => (submitCommand line master).2) master
          (MenuConsole.script .master lines).master := hmaster
    simp only [masterLoop, masterScript, if_true, houtcome]
    cases (MenuConsole.script .master lines).outcome with
    | exitProgram =>
      refine ⟨[], ?_, fun h => absurd rfl h, fun _ h => absurd h List.not_mem_nil⟩
      rw [List.append_nil]
      exact hsent
    | enterRawMode =>
      obtain ⟨more, hmore, hrefused, hlines⟩ := commandLoop_script hexit
        (MenuConsole.run .master (masterExecutor submitCommand) lines master).unread
        (MenuConsole.run .master (masterExecutor submitCommand) lines master).master
      rw [hunread, hsent] at hrefused
      rw [hunread] at hlines
      refine ⟨more, ?_, fun h => (hrefused h).append _, fun command h => ?_⟩
      · dsimp only
        rw [hmore, hsent, hunread, ← Runs.run_append, List.append_assoc]
      · have hread := MenuConsole.run_suffix .master MenuConsole.record lines []
        exact hread.subset (hlines command h)

/-! ## Where the commands come from -/

theorem commandScript_exit (lines : List Str) :
    ∀ command ∈ (commandScript lines).dropLast, ¬IsExitName (parse command).name := by
  induction lines with
  | nil => exact fun command hmem => by cases hmem
  | cons line lines ih =>
    unfold commandScript
    split
    · exact ih
    split
    · exact fun command hmem => by cases hmem
    next hstay =>
      intro command hmem
      by_cases hnil : commandScript lines = []
      · rw [hnil] at hmem
        cases hmem
      · rw [List.dropLast_cons_of_ne_nil hnil] at hmem
        rcases List.mem_cons.mp hmem with rfl | hmem
        · exact hstay
        · exact ih command hmem

theorem mem_of_commandScript {lines : List Str} {command : Str}
    (h : command ∈ commandScript lines) : command ∈ lines := by
  induction lines with
  | nil => cases h
  | cons line lines ih =>
    unfold commandScript at h
    split at h
    · exact List.mem_cons_of_mem line (ih h)
    split at h
    · rw [List.mem_singleton.mp h]
      exact List.mem_cons_self
    · rcases List.mem_cons.mp h with rfl | h
      · exact List.mem_cons_self
      · exact List.mem_cons_of_mem line (ih h)

theorem not_exit_of_dialog {lines : List Str} {command : Str}
    (h : MenuConsole.FromDialog lines command) : ¬IsExitName (parse command).name := by
  obtain ⟨name, hname, answers, -, -, rfl⟩ := h
  rw [MenuConsole.parse_commandLine hname]
  exact exitName_not_menu name hname

theorem masterScript_exit (interactive : Bool) (lines : List Str) :
    ∀ command ∈ (masterScript interactive lines).dropLast, ¬IsExitName (parse command).name := by
  cases interactive with
  | false => exact commandScript_exit lines
  | true =>
    have hmenu := MenuConsole.script_commands .master lines
    simp only [masterScript, if_true]
    cases houtcome : (MenuConsole.script .master lines).outcome with
    | exitProgram =>
      rcases hmenu with hdialog | ⟨-, -, sent, hsent, hdialog⟩
      · intro command hmem
        exact not_exit_of_dialog (hdialog command (List.mem_of_mem_dropLast hmem))
      · rw [hsent]
        dsimp only
        rw [List.dropLast_concat]
        exact fun command hmem => not_exit_of_dialog (hdialog command hmem)
    | enterRawMode =>
      rcases hmenu with hdialog | ⟨-, hexits, -⟩
      · intro command hmem
        dsimp only at hmem
        by_cases hnil : commandScript (MenuConsole.script .master lines).unread = []
        · rw [hnil, List.append_nil] at hmem
          exact not_exit_of_dialog (hdialog command (List.mem_of_mem_dropLast hmem))
        · rw [List.dropLast_append_of_ne_nil hnil] at hmem
          rcases List.mem_append.mp hmem with hmem | hmem
          · exact not_exit_of_dialog (hdialog command hmem)
          · exact commandScript_exit _ command hmem
      · rw [houtcome] at hexits
        cases hexits

theorem masterScript_source (interactive : Bool) (lines : List Str) :
    ∀ command ∈ masterScript interactive lines,
      MenuConsole.FromDialog lines command ∨ command = str "exit" ∨ command ∈ lines := by
  intro command hmem
  cases interactive with
  | false => exact .inr (.inr (mem_of_commandScript hmem))
  | true =>
    have hmenu : ∀ c ∈ (MenuConsole.script .master lines).master,
        MenuConsole.FromDialog lines c ∨ c = str "exit" := by
      rcases MenuConsole.script_commands .master lines with hdialog | ⟨-, -, sent, hsent, hdialog⟩
      · exact fun c hc => .inl (hdialog c hc)
      · intro c hc
        rw [hsent] at hc
        rcases List.mem_append.mp hc with hc | hc
        · exact .inl (hdialog c hc)
        · exact .inr (List.mem_singleton.mp hc)
    simp only [masterScript, if_true] at hmem
    split at hmem
    · exact (hmenu command hmem).imp_right .inl
    · rcases List.mem_append.mp hmem with hmem | hmem
      · exact (hmenu command hmem).imp_right .inl
      · have hread := MenuConsole.run_suffix .master MenuConsole.record lines []
        exact .inr (.inr (hread.subset (mem_of_commandScript hmem)))

end

/-! ## The master and its kernel -/

/-- The kernel of the master, and whether its worker has ended behind an executed `exit`. -/
structure Host where
  world : World
  ended : Bool := false

namespace Host

/-- Behind an executed `exit` the scheduler goes on, and no request is executed. -/
def step (host : Host) (event : Event) : Host :=
  match event with
  | .request env request =>
    if host.ended then host
    else
      { world := host.world.step (.request env request)
        ended := (host.world.kernel.executeRequest env host.world.disk request).2.2.shouldExit }
  | .tick => { host with world := host.world.step .tick }

def executed (host : Host) (event : Event) : List Event :=
  match event with
  | .request env request => if host.ended then [] else [.request env request]
  | .tick => [.tick]

/-- `submitCommand`.  The queue of a worker that has ended is shut down; a command that comes in
front of the shutdown and behind the `exit` is never answered, and does not occur here. -/
def submitCommand (host : Host) (env : Environment) (line : Str) : CommandResponse × Host :=
  let queue : BlockingQueue CommandRequest := { shutdownRequested := host.ended }
  match queue.push { rawLine := line } with
  | .ok _ =>
    ((host.world.kernel.executeRequest env host.world.disk { rawLine := line }).2.2,
      host.step (.request env { rawLine := line }))
  | .error what =>
    ({ success := false, message := str "Failed to submit command: " ++ what }, host)

variable {host : Host}

theorem submitCommand_running (h : host.ended = false) (env : Environment) (line : Str) :
    host.submitCommand env line =
      ((host.world.kernel.executeRequest env host.world.disk { rawLine := line }).2.2,
        host.step (.request env { rawLine := line })) := by
  simp [submitCommand, BlockingQueue.push, h]

theorem submitCommand_ended (h : host.ended = true) (env : Environment) (line : Str) :
    (host.submitCommand env line).1.shouldExit = false ∧
      (host.submitCommand env line).2 = host := by
  simp [submitCommand, BlockingQueue.push, h]

theorem submitCommand_step (env : Environment) (line : Str) :
    (host.submitCommand env line).2 = host.step (.request env { rawLine := line }) := by
  cases h : host.ended with
  | false => rw [submitCommand_running h]
  | true =>
    rw [(submitCommand_ended h env line).2]
    simp [step, h]

/-- The console is asked to leave by its own `exit`, and only as long as the worker runs. -/
theorem submitCommand_exits (env : Environment) (line : Str) :
    (host.submitCommand env line).1.shouldExit = true ↔
      host.ended = false ∧ IsExitName (parse line).name := by
  cases h : host.ended with
  | false =>
    rw [submitCommand_running h]
    simpa using shouldExit_iff host.world.kernel env host.world.disk { rawLine := line }
  | true => simp [(submitCommand_ended h env line).1]

/-- The kernel of the host is in a run of the world. -/
theorem run_world (host : Host) (events : List Event) :
    (Runs.run step host events).world =
      Runs.run World.step host.world (Runs.emitted step executed host events) := by
  refine Runs.simulates' (R := fun (host : Host) (w : World) => host.world = w)
    (fun host w event h => ?_) rfl events
  subst h
  cases event with
  | request env request =>
    unfold step executed
    cases host.ended <;> rfl
  | tick => rfl

end Host

/-- A command of the master's console: before it, the kernel serves the others, and its timer
ticks. -/
def serve (others : Str → Host → List Event) (env : Str → Host → Environment) (line : Str)
    (host : Host) : CommandResponse × Host :=
  (Runs.run Host.step host (others line host)).submitCommand (env line host) line

def served (others : Str → Host → List Event) (env : Str → Host → Environment) (host : Host)
    (line : Str) : List Event :=
  others line host ++ [.request (env line host) { rawLine := line }]

def session (others : Str → Host → List Event) (env : Str → Host → Environment) (host : Host)
    (commands : List Str) : List Event :=
  Runs.emitted (fun host line => (serve others env line host).2) (served others env) host commands

theorem run_session (others : Str → Host → List Event) (env : Str → Host → Environment)
    (host : Host) (commands : List Str) :
    Runs.run (fun host line => (serve others env line host).2) host commands =
      Runs.run Host.step host (session others env host commands) := by
  have hstep : ∀ (s t : Host) line, t = s →
      Runs.run Host.step t (served others env s line) = (serve others env line s).2 := by
    rintro s t line rfl
    rw [serve, Host.submitCommand_step, served, Runs.run_append]
    rfl
  exact (Runs.simulates' (R := fun s t : Host => t = s) (fun s t line h => hstep s t line h) rfl
    commands).symm

theorem menuName_length : ∀ name ∈ MenuConsole.menuNames, name.length ≤ 14 := by decide +kernel

theorem length_commandLine (name : Str) {answers : List Str} {n : ℕ}
    (h : ∀ answer ∈ answers, answer.length ≤ n) :
    (MenuConsole.commandLine name answers).length ≤ name.length + answers.length * (n + 1) := by
  unfold MenuConsole.commandLine
  rw [List.length_append]
  apply Nat.add_le_add_left
  induction answers with
  | nil => exact Nat.zero_le _
  | cons answer answers ih =>
    have hfirst := h answer List.mem_cons_self
    have hrest := ih fun a hmem => h a (List.mem_cons_of_mem answer hmem)
    have hspace : (str " ").length = 1 := by decide
    by_cases hempty : answer = []
    · rw [List.filter_cons_of_neg (by simpa using hempty), List.length_cons]
      calc _ ≤ answers.length * (n + 1) := hrest
        _ ≤ (answers.length + 1) * (n + 1) := Nat.mul_le_mul_right _ (Nat.le_succ _)
    · rw [List.filter_cons_of_pos (by simpa using hempty), List.map_cons, List.flatten_cons,
        List.length_append, List.length_append, hspace, List.length_cons, Nat.succ_mul]
      omega

theorem stopped_of_sent (env : Environment) (connection : Connection) (sizes : Exchange)
    {command : Str} (hlength : command.length < 2 ^ 32) (hname : ¬IsExitName (parse command).name)
    (master : Master) : (NamedPipeClient.sendCommand connection sizes (commandHandler env) command
      master).2.2.stopped = master.stopped := by
  have hstay : (commandHandler env command master).2.stopped = master.stopped := by
    have hgoes := (shouldExit_iff master.kernel env master.disk
      { rawLine := command, source := .remoteClient }).not.mpr hname
    rw [Bool.not_eq_true] at hgoes
    simp [commandHandler, hgoes]
  rcases sendCommand_master connection hlength with hsame | hrun
  · rw [hsame]
  · rw [hrun, hstay]

/-- A command that fits into the pipe and is no exit. -/
def Harmless (command : Str) : Prop :=
  command.length < 2 ^ 32 ∧ ¬IsExitName (parse command).name

theorem admits_harmless {lines : List Str} (hlength : ∀ line ∈ lines, line.length < 2 ^ 29) :
    MenuConsole.Admits (MenuConsole.TypedIn lines) Harmless :=
  { empty := (MenuConsole.admits_typedIn lines).empty
    trim := (MenuConsole.admits_typedIn lines).trim
    command := fun name hname answers hcount hanswers => by
      have hshort : ∀ answer ∈ answers, answer.length ≤ 2 ^ 29 := by
        intro answer hmem
        rcases hanswers answer hmem with rfl | ⟨line, hline, hpart⟩
        · exact Nat.zero_le _
        · exact Nat.le_of_lt (Nat.lt_of_le_of_lt hpart.length_le (hlength line hline))
      have htotal := length_commandLine name hshort
      have hname' := menuName_length name hname
      have hsum : answers.length * (2 ^ 29 + 1) ≤ 5 * (2 ^ 29 + 1) :=
        Nat.mul_le_mul_right _ hcount
      have hdialog : MenuConsole.FromDialog lines (MenuConsole.commandLine name answers) :=
        ⟨name, hname, answers, hcount, hanswers, rfl⟩
      refine ⟨?_, not_exit_of_dialog hdialog⟩
      omega }

section

variable (env : Environment) (connection : Str → Master → Connection)
  (sizes : Str → Master → Exchange)

theorem alike_clientExecutor (stopped : Bool) :
    let executor := clientExecutor fun line master => NamedPipeClient.sendCommand
      (connection line master) (sizes line master) (commandHandler env) line master
    MenuConsole.Alike (fun a b : Master => a = b ∧ a.stopped = stopped) Harmless executor
      executor :=
  { exits := by
      rintro command - m _ ⟨rfl, -⟩
      rfl
    fatal := by
      rintro command - m _ ⟨rfl, -⟩
      rfl
    next := by
      rintro command ⟨hshort, hname⟩ m _ ⟨rfl, hm⟩
      have hsent := stopped_of_sent env (connection command m) (sizes command m) hshort hname m
      refine ⟨rfl, ?_⟩
      unfold clientExecutor
      dsimp only
      split
      · exact hsent.trans hm
      · exact hsent.trans hm }

theorem not_stopped_of_menus {lines : List Str} (master : Master)
    (hlength : ∀ line ∈ lines, line.length < 2 ^ 29) :
    (MenuConsole.run .client (clientExecutor fun line master => NamedPipeClient.sendCommand
      (connection line master) (sizes line master) (commandHandler env) line master) lines
      master).master.stopped = master.stopped :=
  have hlines : ∀ line ∈ lines, MenuConsole.TypedIn lines line := fun line hmem =>
    .inr ⟨line, hmem, List.infix_rfl⟩
  have hended := MenuConsole.similar_run (admits_harmless hlength)
    (alike_clientExecutor env connection sizes master.stopped)
    (fun _ _ hR => hR) (fun hrole => InstanceRole.noConfusion hrole) hlines ⟨rfl, rfl⟩
  hended.ended.2

end

end ConsoleApp

end OSCoreSim
