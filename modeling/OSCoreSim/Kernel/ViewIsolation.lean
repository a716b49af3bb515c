import OSCoreSim.Process.OwnView
import OSCoreSim.Kernel.PcbInvariant
import OSCoreSim.Kernel.FailedLoad
/-!
# Process and file views do not interfere

What a user is shown of processes, ready queues and files is determined by the user's own PCBs,
queue places and files.  The hash table may be met in any order: the listings are sorted by PID,
and a PCB stands under its own PID in every state that a run reaches.
-/

namespace OSCoreSim

open CommandDispatcher ProcessManager VirtualFileSystem
open Std (ExtTreeMap)

namespace Kernel

variable {user : Str} {k k' : Kernel}

/-- The two states agree in all that belongs to `user`. -/
structure SameView (user : Str) (k k' : Kernel) : Prop where
  processes : SameProcesses user k.processManager k'.processManager
  files : ownFiles user k.vfs = ownFiles user k'.vfs

def viewNames : List Str :=
  [str "list_pcb", str "ptree", str "readyq", str "show_pcb", str "ls_file", str "read_file"]

/-- The views of `user` are the same, in whatever order the two hash tables are met. -/
structure Indistinguishable (user : Str) (k k' : Kernel) : Prop where
  list_pcb : ∀ entries entries', entries.Perm k.processManager.pcbTable.toList →
    entries'.Perm k'.processManager.pcbTable.toList →
      listProcessesIn entries user = listProcessesIn entries' user
  ptree : ∀ entries entries', entries.Perm k.processManager.pcbTable.toList →
    entries'.Perm k'.processManager.pcbTable.toList →
      k.processManager.processTreeIn entries user = k'.processManager.processTreeIn entries' user
  readyq : k.processManager.readyQueueSnapshot user = k'.processManager.readyQueueSnapshot user
  show_pcb : ∀ pid, k.processManager.showProcess user pid = k'.processManager.showProcess user pid
  ls_file : k.vfs.listFiles user = k'.vfs.listFiles user
  read_file : ∀ name, k.vfs.readFile user name = k'.vfs.readFile user name
  hidden : ∀ pid absent, k.processManager.hasProcess user pid = false →
    k'.processManager.pcbTable[absent]? = none →
      k.processManager.showProcess user pid = k'.processManager.showProcess user absent
  response : k.userManager.currentUser = some user → k'.userManager.currentUser = some user →
    ∀ env env' fs fs' request request', request.rawLine = request'.rawLine →
      (parse request.rawLine).name ∈ viewNames →
        (k.executeRequest env fs request).2.2 = (k'.executeRequest env' fs' request').2.2

/-! ## Answers of the commands -/

theorem executeRequest_response (k : Kernel) (env : Environment) (fs : FileSystem)
    (request : CommandRequest) : (k.executeRequest env fs request).2.2 =
      (k.routeCommand env fs request (parse request.rawLine)).2.2 := by
  unfold executeRequest
  dsimp only
  split <;> rfl

theorem isLoggedIn_of_login {um : UserManager} (h : um.currentUser = some user) :
    um.isLoggedIn = true := by
  simp [UserManager.isLoggedIn, h]

theorem viewCommand_response {managers : Managers} {name : Str} {arguments : List Str}
    {view : Str → Str} (h : managers.users.currentUser = some user) :
    (viewCommand managers name arguments view).2 =
      if arguments ≠ [] then reply false (str "Usage: " ++ name) else reply true (view user) := by
  rw [viewCommand, requireLogin, if_pos (isLoggedIn_of_login h), currentUserName_of_login h,
    withoutArguments]
  split <;> rfl

theorem showCommand_response {managers : Managers} {arguments : List Str}
    (h : managers.users.currentUser = some user) :
    (pidCommand managers (str "show_pcb") arguments).2 =
      (pidArgument arguments).elim (reply false (str "Usage: show_pcb <pid>")) fun pid =>
        let message := managers.processes.showProcess user pid
        reply (!contains message (str "access denied")) message := by
  have hin := isLoggedIn_of_login h
  unfold pidCommand requireLogin withPid pidArgument
  simp only [hin, if_true, currentUserName_of_login h]
  rcases arguments with _ | ⟨text, _ | ⟨_, _⟩⟩
  · rfl
  · dsimp only
    cases parseUint32Strict text with
    | none => rfl
    | some pid => rfl
  · rfl

theorem lsFile_response {command : Command} (hname : command.name = str "ls_file")
    (h : k.userManager.currentUser = some user) (time : UInt64) :
    (k.handleVfsCommand time command).2 =
      if command.arguments ≠ [] then reply false (str "Usage: ls_file")
      else reply true (k.vfs.listFiles user) := by
  have htouch : str "ls_file" ≠ str "touch_file" := by decide
  have hwrite : str "ls_file" ≠ str "write_file" := by decide
  have hread : str "ls_file" ≠ str "read_file" := by decide
  simp only [handleVfsCommand, isLoggedIn_of_login h, currentUserName_of_login h, hname, htouch,
    hwrite, hread, Bool.not_true, Bool.false_eq_true, if_false, if_true]
  split <;> rfl

def onlyArgument : List Str → Option Str
  | [argument] => some argument
  | _ => none

theorem readFile_response {command : Command} (hname : command.name = str "read_file")
    (h : k.userManager.currentUser = some user) (time : UInt64) :
    (k.handleVfsCommand time command).2 =
      (onlyArgument command.arguments).elim (reply false (str "Usage: read_file <name>")) fun name =>
        reply true (k.vfs.readFile user name) := by
  have htouch : str "read_file" ≠ str "touch_file" := by decide
  have hwrite : str "read_file" ≠ str "write_file" := by decide
  simp only [handleVfsCommand, isLoggedIn_of_login h, currentUserName_of_login h, hname, htouch,
    hwrite, Bool.not_true, Bool.false_eq_true, if_false, if_true]
  rcases command.arguments with _ | ⟨name, _ | ⟨_, _⟩⟩ <;> rfl

/-- View commands are answered alike, whatever else the two states and their surroundings are. -/
theorem response_eq (h : SameView user k k') (hkeyed : k.processManager.OwnKeyed user)
    (hlogin : k.userManager.currentUser = some user)
    (hlogin' : k'.userManager.currentUser = some user) {env env' : Environment}
    {fs fs' : FileSystem} {request request' : CommandRequest}
    (hline : request.rawLine = request'.rawLine)
    (hview : (parse request.rawLine).name ∈ viewNames) :
    (k.executeRequest env fs request).2.2 = (k'.executeRequest env' fs' request').2.2 := by
  rw [executeRequest_response, executeRequest_response, ← hline]
  generalize parse request.rawLine = command at hview
  simp only [viewNames, List.mem_cons, List.not_mem_nil, or_false] at hview
  -- the three listings of the dispatcher
  have hlisting : ∀ view : Kernel → Str → Str, view k user = view k' user →
      (∀ (k : Kernel) env fs request, (k.routeCommand env fs request command).2.2 =
        (viewCommand k.managers command.name command.arguments (view k)).2) →
      (k.routeCommand env fs request command).2.2 =
        (k'.routeCommand env' fs' request' command).2.2 := by
    intro view hsame hroute
    rw [hroute, hroute, viewCommand_response hlogin, viewCommand_response hlogin', hsame]
  rcases hview with hname | hname | hname | hname | hname | hname
  · apply hlisting (fun k => k.processManager.listProcesses)
    · exact listProcessesIn_eq h.processes hkeyed (List.Perm.refl _) (List.Perm.refl _)
    · intro k env fs request
      unfold routeCommand dispatchCommand dispatch
      rw [hname]
      rfl
  · apply hlisting (fun k => k.processManager.processTree)
    · exact processTreeIn_eq h.processes (List.Perm.refl _) (List.Perm.refl _)
    · intro k env fs request
      unfold routeCommand dispatchCommand dispatch
      rw [hname]
      rfl
  · apply hlisting (fun k => k.processManager.readyQueueSnapshot)
    · exact readyQueueSnapshot_eq h.processes
    · intro k env fs request
      unfold routeCommand dispatchCommand dispatch
      rw [hname]
      rfl
  · have hroute : ∀ (k : Kernel) env fs request, (k.routeCommand env fs request command).2.2 =
        (pidCommand k.managers (str "show_pcb") command.arguments).2 := by
      intro k env fs request
      unfold routeCommand dispatchCommand dispatch
      rw [hname]
      rfl
    have hsame : ∀ pid, k.managers.processes.showProcess user pid =
        k'.managers.processes.showProcess user pid := showProcess_eq h.processes
    rw [hroute, hroute, showCommand_response hlogin, showCommand_response hlogin']
    simp only [hsame]
  · have hvfs : isVfsCommand command.name = true := by rw [hname]; decide
    rw [routeCommand_vfs _ _ _ _ hvfs, routeCommand_vfs _ _ _ _ hvfs, lsFile_response hname hlogin,
      lsFile_response hname hlogin', listFiles_eq h.files]
  · have hvfs : isVfsCommand command.name = true := by rw [hname]; decide
    rw [routeCommand_vfs _ _ _ _ hvfs, routeCommand_vfs _ _ _ _ hvfs,
      readFile_response hname hlogin, readFile_response hname hlogin']
    simp only [readFile_eq h.files]

/-- Whatever belongs to others, and in whatever order the hash tables are met, a user is shown the
same in two states that agree in what belongs to the user. -/
theorem indistinguishable_of_sameView (h : SameView user k k')
    (hkeyed : k.processManager.OwnKeyed user) : Indistinguishable user k k' where
  list_pcb _ _ := listProcessesIn_eq h.processes hkeyed
  ptree _ _ := processTreeIn_eq h.processes
  readyq := readyQueueSnapshot_eq h.processes
  show_pcb := showProcess_eq h.processes
  ls_file := listFiles_eq h.files
  read_file := readFile_eq h.files
  hidden pid absent hpid habsent := by
    have hnone : k'.processManager.hasProcess user absent = false := by
      simp [hasProcess, ownedPcb, habsent]
    rw [showProcess_hidden hpid, showProcess_hidden hnone]
  response hlogin hlogin' _ _ _ _ _ _ := response_eq h hkeyed hlogin hlogin'

/-! ## PCBs stand under their PIDs -/

variable {cause : Cause} {owner : Str} {pm pm' : ProcessManager} {mm mm' : MemoryManager}

theorem keyed_outcome (h : pm.Keyed) (ho : Scheduler.Outcome owner pm mm pm' mm') : pm'.Keyed := by
  have hcleaned : pm.cleaned.Keyed := h
  cases ho with
  | idle => exact hcleaned
  | requeue pid pcb _ hget => exact hcleaned.insert (ownedPcb_eq_some.mp hget).1 (by rfl) rfl
  | finish => exact keyed_pruned hcleaned _

theorem keyed_action (h : pm.Keyed) (ha : Action cause owner pm mm pm' mm') : pm'.Keyed := by
  cases ha with
  | alloc | free | setAlgorithm => exact h
  | compact => exact keyed_compacted h
  | swapOut pid hmem hmark =>
    obtain ⟨pcb, hget, -, rfl⟩ := markSwappedOut_spec hmark
    exact h.insert (ownedPcb_eq_some.mp hget).1 (by rfl) rfl
  | kill pid hcause hkill =>
    obtain ⟨-, -, rfl⟩ := killProcess_spec hkill
    exact keyed_pruned h _
  | rewrite pid hr =>
    obtain ⟨pcb, pcb', hget, ht, hs⟩ := hr
    exact h.insert (ownedPcb_eq_some.mp hget).1 ht.pid_eq hs.pcbTable_eq
  | step => exact keyed_outcome h (Scheduler.step_outcome owner mm h)

theorem keyed_change {command : Command} {success : Bool} (h : k.processManager.Keyed)
    (hc : Change command k k' success) : k'.processManager.Keyed := by
  cases hc with
  | create owner args hname hlogin hargs halloc hcreate =>
    intro pid pcb' hget
    obtain ⟨-, -, pcb, children, rfl, hold | ⟨hk, rfl⟩⟩ :=
      createProcessWithMemory_getElem? hcreate hget
    · exact h pid pcb hold
    · exact hk.symm
  | act owner hlogin ha => exact keyed_action h ha
  | restart => exact h
  | _ => exact h

end Kernel

namespace World

open Kernel

theorem keyed_step {w : World} (event : Event) (h : w.kernel.processManager.Keyed) :
    (w.step event).kernel.processManager.Keyed := by
  by_cases hload : event.Named (str "load")
  · rcases load_cases (w := w) hload with ⟨-, hsame | hhalted⟩ | ⟨-, s, -, hvalid, hrestored⟩
    · exact hsame ▸ h
    · rw [hhalted]
      exact h
    · rw [hrestored]
      exact (matched_import hvalid).keyed
  · apply step_keeps (P := fun k => k.processManager.Keyed) hload
    · exact fun _ hc => keyed_change h hc
    · exact tick_keeps (P := fun k => k.processManager.Keyed) h fun _ ha => keyed_action h ha

theorem ownKeyed_of_run {w : World} (hempty : w.kernel.processManager = {})
    (events : List Event) (user : Str) :
    (Runs.run step w events).kernel.processManager.OwnKeyed user := by
  have hstart : w.kernel.processManager.Keyed := by
    rw [hempty]
    exact fun pid pcb hget => by simp at hget
  have hany : Runs.Permitted step (fun _ _ => True) w events :=
    Runs.permitted_of_forall fun _ _ _ => trivial
  have hrun := Runs.run_invariant' (P := fun w : World => w.kernel.processManager.Keyed)
    (fun _ event h _ => keyed_step event h) hstart hany
  exact hrun.own

def sessionAfter (others : List Event) : World :=
  Runs.run step { kernel := Kernel.start {} ∅ }
    ([console "register a pw", console "register b pw", console "login a pw",
      console "create_pcb p 4 1 5", console "write_file f text", console "logout"] ++ others ++
      [console "login a pw"])

/-- A process of `b` that has run for a quantum, and a file of `b` with the same name. -/
theorem indistinguishable_sessionAfter :
    Indistinguishable (str "a") (sessionAfter []).kernel
      (sessionAfter [console "login b pw", console "create_pcb q 4 1 5", console "step",
        console "write_file f other", console "logout"]).kernel := by
  have hempty : (Kernel.start {} ∅).processManager = {} :=
    (clean_start {} ∅ fun _ h => by cases h).processes
  apply indistinguishable_of_sameView
  · refine ⟨⟨ownedPcb_eq_of_filter (by decide +kernel), fun q => ?_⟩, by decide +kernel⟩
    match q with
    | 0 => decide +kernel
    | 1 => decide +kernel
    | 2 => decide +kernel
  · exact ownKeyed_of_run (w := { kernel := Kernel.start {} ∅ }) hempty _ (str "a")

end World

end OSCoreSim
