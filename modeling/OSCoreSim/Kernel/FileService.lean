import OSCoreSim.Kernel.Coherence
import OSCoreSim.Kernel.Routing
import OSCoreSim.Lib.Simulation
import OSCoreSim.Vfs.FileMap
/-!
# The files that a user finds

Under every name a user finds what the own last successful command left there, whatever the other
users, the scheduler and the other commands did in between.
-/

namespace OSCoreSim

open CommandDispatcher VirtualFileSystem

/-! ## What a call leaves under a name -/

/-- The new content of a name behind a successful call: none if it was removed, and nothing in the
list if the call is not about it. -/
def FileOp.leaves (owner name : Str) : FileOp → List (Option Str)
  | .create _ user file => if user = owner ∧ file = name then [some []] else []
  | .write _ user file content => if user = owner ∧ file = name then [some content] else []
  | .delete user file => if user = owner ∧ file = name then [none] else []
  | .read _ _ | .list _ | .exportFiles | .importFiles => []

namespace FileMap

variable {m : FileMap} {op : FileOp} {owner name : Str}

def Admits (m : FileMap) : FileOp → Prop
  | .create _ owner name =>
    owner ≠ [] ∧ isValidFileName name = .ok () ∧ m.value (owner, name) = none
  | .write _ owner name _ => owner ≠ [] ∧ isValidFileName name = .ok ()
  | .delete owner name => owner ≠ [] ∧ m.value (owner, name) ≠ none
  | .read _ _ | .list _ | .exportFiles | .importFiles => True

theorem value_perform (h : m.Admits op) : (m.perform op).value (owner, name) =
    (op.leaves owner name).getLast?.getD (m.value (owner, name)) := by
  have hkey : ∀ {user file : Str}, (owner, name) = (user, file) ↔ user = owner ∧ file = name := by
    intro user file
    rw [Prod.mk.injEq, eq_comm, @eq_comm _ name]
  cases op with
  | create now user file =>
    have hperform : m.perform (.create now user file) = m.write (user, file) [] := if_pos h
    rw [hperform, OrderedMap.value_write, FileOp.leaves, Function.update_apply]
    simp only [hkey]
    split <;> rfl
  | write now user file content =>
    have hperform : m.perform (.write now user file content) = m.write (user, file) content :=
      if_pos h
    rw [hperform, OrderedMap.value_write, FileOp.leaves, Function.update_apply]
    simp only [hkey]
    split <;> rfl
  | delete user file =>
    have hperform : m.perform (.delete user file) = m.delete (user, file) := if_pos h.1
    rw [hperform, OrderedMap.value_delete, FileOp.leaves, Function.update_apply]
    simp only [hkey]
    split <;> rfl
  | read | list | exportFiles | importFiles => rfl

theorem perform_of_refused (h : ¬m.Admits op) : m.perform op = m := by
  cases op with
  | create now user file => exact if_neg h
  | write now user file content => exact if_neg h
  | delete user file =>
    by_cases huser : user = []
    · exact if_neg (not_not.mpr huser)
    · have hnone : m.value (user, file) = none := by
        by_contra hsome
        exact h ⟨huser, hsome⟩
      exact (if_pos huser).trans (OrderedMap.delete_of_none hnone)
  | read | list | exportFiles | importFiles => exact absurd trivial h

end FileMap

/-! ## The file commands -/

namespace Kernel

variable {k : Kernel} {owner : Str} {command : Command} {time : UInt64} {m : FileMap}

def fileCall (time : UInt64) (owner : Str) (command : Command) : Option FileOp :=
  if command.name = str "touch_file" then
    match command.arguments with
    | [name] => some (.create time owner name)
    | _ => none
  else if command.name = str "write_file" then
    match command.arguments with
    | name :: _ :: _ => some (.write time owner name (extractWriteFileContent command.rawLine))
    | _ => none
  else if command.name = str "read_file" then
    match command.arguments with
    | [name] => some (.read owner name)
    | _ => none
  else if command.name = str "ls_file" then
    if command.arguments ≠ [] then none else some (.list owner)
  else if command.name = str "rm_file" then
    match command.arguments with
    | [name] => some (.delete owner name)
    | _ => none
  else none

def shown : FileReply → CommandResponse
  | .status success message => reply success message
  | .text text => reply true text
  | .files _ | .done => reply true []

/-- The call of a command with its reply; without a call the command fails. -/
def Performs (k : Kernel) (call : Option FileOp) (out : Kernel × CommandResponse) : Prop :=
  match call with
  | some op => out.1.vfs = k.vfs.perform op ∧ out.2 = shown (k.vfs.respond op)
  | none => out.1.vfs = k.vfs ∧ out.2.success = false

theorem performs_vfsResult {op : FileOp} {result : Except Str (VirtualFileSystem × Str)}
    (hperform : k.vfs.perform op = k.vfs.keep result)
    (hrespond : k.vfs.respond op = statusOf result) :
    Performs k (some op) (k.vfsResult result) := by
  rw [Performs, hperform, hrespond]
  cases result <;> exact ⟨rfl, rfl⟩

theorem performs_vfsCommand (time : UInt64) (command : Command)
    (hlogin : k.userManager.currentUser = some owner) :
    Performs k (fileCall time owner command) (k.handleVfsCommand time command) := by
  have hlogged : (!k.userManager.isLoggedIn) = false := by simp [UserManager.isLoggedIn, hlogin]
  unfold fileCall handleVfsCommand
  simp only [hlogged, currentUserName_of_login hlogin, Bool.false_eq_true, if_false]
  split
  · rcases command.arguments with _ | ⟨name, _ | ⟨second, rest⟩⟩
    · exact ⟨rfl, rfl⟩
    · exact performs_vfsResult rfl rfl
    · exact ⟨rfl, rfl⟩
  split
  · rcases command.arguments with _ | ⟨name, _ | ⟨second, rest⟩⟩
    · exact ⟨rfl, rfl⟩
    · exact ⟨rfl, rfl⟩
    · exact performs_vfsResult rfl rfl
  split
  · rcases command.arguments with _ | ⟨name, _ | ⟨second, rest⟩⟩ <;> exact ⟨rfl, rfl⟩
  split
  · split <;> exact ⟨rfl, rfl⟩
  split
  · rcases command.arguments with _ | ⟨name, _ | ⟨second, rest⟩⟩
    · exact ⟨rfl, rfl⟩
    · exact performs_vfsResult rfl rfl
    · exact ⟨rfl, rfl⟩
  · exact ⟨rfl, rfl⟩

/-- Only the file commands and `load` reach the virtual file system. -/
theorem executeRequest_vfs_eq {env : Environment} {fs : FileSystem} {request : CommandRequest}
    (hload : (parse request.rawLine).name ≠ str "load")
    (hother : isVfsCommand (parse request.rawLine).name = false) :
    (k.executeRequest env fs request).1.vfs = k.vfs := by
  unfold executeRequest
  generalize parse request.rawLine = command at hload hother ⊢
  have hroute : (k.routeCommand env fs request command).1.vfs = k.vfs := by
    unfold routeCommand
    split
    · exact (schedulerCommand_frame k command).2
    split
    · obtain ⟨fs', response, hsaved, -⟩ := persistenceCommand_save k env.saveIo fs hload
      rw [hsaved]
    split
    · rfl
    rw [if_neg (by rw [hother]; exact Bool.false_ne_true)]
    rfl
  dsimp only
  split
  · exact hroute
  · exact hroute

theorem fileCall_eq_none (hother : isVfsCommand command.name = false) :
    fileCall time owner command = none := by
  have hnames : command.name ≠ str "touch_file" ∧ command.name ≠ str "write_file" ∧
      command.name ≠ str "read_file" ∧ command.name ≠ str "ls_file" ∧
      command.name ≠ str "rm_file" := by
    simpa [isVfsCommand] using hother
  simp [fileCall, hnames]

theorem fileCall_ne_importFiles : fileCall time owner command ≠ some .importFiles := by
  unfold fileCall
  split
  · split <;> simp
  split
  · split <;> simp
  split
  · split <;> simp
  split
  · split <;> simp
  split
  · split <;> simp
  · simp

end Kernel

/-! ## The table and the map -/

namespace VirtualFileSystem

open Kernel

variable {m : FileMap}

theorem Stores.perform_call {vfs : VirtualFileSystem} (h : Stores vfs m) {op : FileOp}
    (hop : op ≠ .importFiles) : Stores (vfs.perform op) (m.perform op) := by
  cases op with
  | create now owner name => exact h.create now owner name
  | write now owner name content => exact h.write now owner name content
  | delete owner name => exact h.delete owner name
  | read | list | exportFiles => exact h
  | importFiles => exact absurd rfl hop

theorem Stores.success_iff {vfs : VirtualFileSystem} (h : Stores vfs m) (op : FileOp) :
    (shown (vfs.respond op)).success = true ↔ m.Admits op := by
  cases op with
  | create now owner name =>
    rw [show vfs.respond (.create now owner name) = _ from h.create_reply now owner name]
    unfold FileMap.createReply FileMap.Admits
    split
    next howner => simp [howner, shown, reply]
    next howner =>
      cases hvalid : isValidFileName name with
      | error message => simp [hvalid, shown, reply]
      | ok =>
        cases hvalue : m.value (owner, name) with
        | none => simp [howner, hvalid, hvalue, shown, reply]
        | some content => simp [hvalue, shown, reply]
  | write now owner name content =>
    rw [show vfs.respond (.write now owner name content) = _ from
      h.write_reply now owner name content]
    unfold FileMap.writeReply FileMap.Admits
    split
    next howner => simp [howner, shown, reply]
    next howner =>
      cases hvalid : isValidFileName name with
      | error message => simp [hvalid, shown, reply]
      | ok => simp [howner, hvalid, shown, reply]
  | delete owner name =>
    rw [show vfs.respond (.delete owner name) = _ from h.delete_reply owner name]
    unfold FileMap.deleteReply FileMap.Admits
    split
    next howner => simp [howner, shown, reply]
    next howner =>
      cases hvalue : m.value (owner, name) with
      | none => simp [hvalue, shown, reply]
      | some content => simp [howner, hvalue, shown, reply]
  | read | list | exportFiles | importFiles => exact iff_of_true rfl trivial

theorem Stores.nodup_names {vfs : VirtualFileSystem} (h : Stores vfs m) (owner : Str) :
    ((ownFiles owner vfs).map (·.name)).Nodup := by
  have hkeys : ((ownFiles owner vfs).map fileKey).Nodup := by
    have hall : (vfs.files.map fileKey).Nodup := h.keys_eq ▸ m.nodup
    exact hall.sublist (List.filter_sublist.map fileKey)
  have hsplit : (ownFiles owner vfs).map fileKey =
      ((ownFiles owner vfs).map (·.name)).map (Prod.mk owner) := by
    rw [List.map_map]
    refine List.map_congr_left fun file hmem => ?_
    have howner : file.owner = owner := by simpa using (List.mem_filter.mp hmem).2
    rw [Function.comp_apply, ← howner]
    rfl
  exact (hsplit ▸ hkeys).of_map _

theorem Stores.mem_ownFiles_iff {vfs : VirtualFileSystem} (h : Stores vfs m)
    {owner name text : Str} :
    (∃ file ∈ ownFiles owner vfs, file.name = name ∧ file.content = text) ↔
      m.value (owner, name) = some text := by
  constructor
  · rintro ⟨file, hmem, rfl, rfl⟩
    obtain ⟨hfile, howner⟩ := List.mem_filter.mp hmem
    have howner : file.owner = owner := by simpa using howner
    rw [← howner]
    exact h.value_eq hfile
  · intro hvalue
    have hkey : (owner, name) ∈ vfs.files.map fileKey := by
      rw [h.keys_eq, m.mem_keys, hvalue]
      rfl
    obtain ⟨file, hmem, hkey⟩ := List.mem_map.mp hkey
    obtain ⟨howner, hname⟩ := Prod.mk.inj hkey
    have hcontent := h.value_eq hmem
    rw [howner, hname, hvalue] at hcontent
    exact ⟨file, List.mem_filter.mpr ⟨hmem, by simpa using howner⟩, hname,
      (Option.some.inj hcontent).symm⟩

end VirtualFileSystem

namespace World

open Kernel

variable {w : World} {event : Event} {events : List Event} {owner name : Str} {m : FileMap}
  {op : FileOp}

def fileCall (w : World) : Event → Option FileOp
  | .request env line => w.kernel.userManager.currentUser.bind fun owner =>
      Kernel.fileCall env.time owner (parse line.rawLine)
  | .tick => none

def leaves (w : World) (owner name : Str) (event : Event) : List (Option Str) :=
  if w.Succeeds event then (w.fileCall event).elim [] (FileOp.leaves owner name) else []

theorem fileCall_session {env : Environment} {line : CommandRequest}
    (h : w.kernel.userManager.currentUser = some owner) :
    w.fileCall (.request env line) = Kernel.fileCall env.time owner (parse line.rawLine) := by
  rw [fileCall, h, Option.bind_some]

theorem event_call (hcall : w.fileCall event = some op) :
    (w.step event).kernel.vfs = w.kernel.vfs.perform op ∧
      w.respond event = some (shown (w.kernel.vfs.respond op)) := by
  cases event with
  | request env line =>
    obtain ⟨owner, hlogin, hcall⟩ := Option.bind_eq_some_iff.mp hcall
    have hvfs : isVfsCommand (parse line.rawLine).name = true := by
      by_contra hother
      rw [fileCall_eq_none (by simpa using hother)] at hcall
      cases hcall
    have hperforms := performs_vfsCommand env.time (parse line.rawLine) hlogin
    rw [hcall] at hperforms
    have hrequest := executeRequest_vfs w.kernel env w.disk line hvfs
    refine ⟨?_, ?_⟩
    · show (w.kernel.executeRequest env w.disk line).1.vfs = _
      rw [hrequest]
      exact hperforms.1
    · show some (w.kernel.executeRequest env w.disk line).2.2 = _
      rw [hrequest]
      exact congrArg some hperforms.2
  | tick => cases hcall

theorem event_no_call (hload : ¬event.Named (str "load")) (hcall : w.fileCall event = none) :
    (w.step event).kernel.vfs = w.kernel.vfs := by
  cases event with
  | tick => exact tick_keeps (P := fun k => k.vfs = w.kernel.vfs) rfl fun _ _ => rfl
  | request env line =>
    show (w.kernel.executeRequest env w.disk line).1.vfs = _
    have hname : (parse line.rawLine).name ≠ str "load" := fun heq => hload ⟨_, rfl, heq⟩
    by_cases hvfs : isVfsCommand (parse line.rawLine).name = true
    · rw [executeRequest_vfs w.kernel env w.disk line hvfs]
      cases hlogin : w.kernel.userManager.currentUser with
      | none =>
        have hout : (!w.kernel.userManager.isLoggedIn) = true := by
          simp [UserManager.isLoggedIn, hlogin]
        simp only [handleVfsCommand, hout, if_true]
      | some owner =>
        have hperforms := performs_vfsCommand env.time (parse line.rawLine) hlogin
        rw [← fileCall_session hlogin, hcall] at hperforms
        exact hperforms.1
    · exact executeRequest_vfs_eq hname (by simpa using hvfs)

theorem succeeds_call (h : Stores w.kernel.vfs m) (hcall : w.fileCall event = some op) :
    w.Succeeds event ↔ m.Admits op := by
  rw [← h.success_iff op, Succeeds, (event_call hcall).2]
  simp

/-- Step lemma: the table keeps to a map, whose value under a name changes to what the event leaves
there. -/
theorem stores_step (h : Stores w.kernel.vfs m) (hload : ¬event.Named (str "load")) :
    ∃ m', Stores (w.step event).kernel.vfs m' ∧ ∀ owner name, m'.value (owner, name) =
      (w.leaves owner name event).getLast?.getD (m.value (owner, name)) := by
  cases hcall : w.fileCall event with
  | none =>
    refine ⟨m, by rwa [event_no_call hload hcall], fun owner name => ?_⟩
    simp [leaves, hcall]
  | some op =>
    obtain ⟨hvfs, -⟩ := event_call hcall
    -- an import would need the order of the ids, which the run does not keep
    have hcommand : op ≠ .importFiles := by
      rintro rfl
      cases event with
      | request env line =>
        obtain ⟨owner, -, hcall⟩ := Option.bind_eq_some_iff.mp hcall
        exact fileCall_ne_importFiles hcall
      | tick => cases hcall
    refine ⟨m.perform op, hvfs ▸ h.perform_call hcommand, fun owner name => ?_⟩
    have hsuccess := succeeds_call h hcall
    by_cases hadmits : m.Admits op
    · rw [leaves, if_pos (hsuccess.mpr hadmits), hcall]
      exact FileMap.value_perform hadmits
    · rw [leaves, if_neg (mt hsuccess.mp hadmits), FileMap.perform_of_refused hadmits]
      rfl

theorem stores_run (hclean : w.kernel.Clean) (hload : NoLoad events) :
    ∃ m, Stores (Runs.run step w events).kernel.vfs m ∧ ∀ owner name, m.value (owner, name) =
      (Runs.emitted step (leaves · owner name) w events).getLast?.join := by
  induction events using List.reverseRecOn with
  | nil =>
    refine ⟨.empty, ?_, fun _ _ => rfl⟩
    rw [Runs.run_nil, hclean.vfs]
    exact OrderedMap.lists_empty
  | append_singleton events event ih =>
    obtain ⟨m, hstores, hvalue⟩ := ih fun e hmem => hload e (List.mem_append_left _ hmem)
    obtain ⟨m', hstores', hvalue'⟩ := stores_step hstores (hload event (by simp))
    refine ⟨m', by rwa [Runs.run_append], fun owner name => ?_⟩
    rw [hvalue', hvalue, Runs.emitted_append, Runs.emitted_cons, Runs.emitted_nil, List.append_nil,
      List.getLast?_append]
    cases (leaves (Runs.run step w events) owner name event).getLast? <;> rfl

/-! ## What the user finds -/

def readText (owner name : Str) : Option Str → Str
  | none => str "VFS read failed: file '" ++ name ++ str "' does not exist."
  | some content => str "=== Virtual File ===\nName: " ++ name ++ str "\nOwner: " ++ owner ++
      str "\nSize: " ++ decimal content.length ++ str " bytes\nContent:\n" ++ content

/-- The answers to the file commands of a user whose names have these contents. -/
structure Serves (w : World) (owner : Str) (content : Str → Option Str) : Prop where
  touch : ∀ (env : Environment) (line : CommandRequest) (name : Str),
    (parse line.rawLine).name = str "touch_file" → (parse line.rawLine).arguments = [name] →
    (w.Succeeds (.request env line) ↔ isValidFileName name = .ok () ∧ content name = none)
  write : ∀ (env : Environment) (line : CommandRequest) (name second : Str) (rest : List Str),
    (parse line.rawLine).name = str "write_file" →
    (parse line.rawLine).arguments = name :: second :: rest →
    (w.Succeeds (.request env line) ↔ isValidFileName name = .ok ())
  remove : ∀ (env : Environment) (line : CommandRequest) (name : Str),
    (parse line.rawLine).name = str "rm_file" → (parse line.rawLine).arguments = [name] →
    (w.Succeeds (.request env line) ↔ content name ≠ none)
  read : ∀ (env : Environment) (line : CommandRequest) (name : Str),
    (parse line.rawLine).name = str "read_file" → (parse line.rawLine).arguments = [name] →
    w.respond (.request env line) = some (reply true (readText owner name (content name)))
  list : ∀ (env : Environment) (line : CommandRequest),
    (parse line.rawLine).name = str "ls_file" → (parse line.rawLine).arguments = [] →
    ∃ files : List VirtualFile, w.respond (.request env line) =
        some (reply true (listText owner files)) ∧ (files.map (·.name)).Nodup ∧
      ∀ name text, (∃ file ∈ files, file.name = name ∧ file.content = text) ↔
        content name = some text

theorem serves_of_stores (h : Stores w.kernel.vfs m) (howner : owner ≠ [])
    (hlogin : w.kernel.userManager.currentUser = some owner) :
    w.Serves owner fun name => m.value (owner, name) where
  touch env line name hname hargs := by
    have hcall : w.fileCall (.request env line) = some (.create env.time owner name) := by
      rw [fileCall_session hlogin, Kernel.fileCall, if_pos hname, hargs]
    rw [succeeds_call h hcall]
    exact and_iff_right howner
  write env line name second rest hname hargs := by
    have htouch : str "write_file" ≠ str "touch_file" := by decide
    have hcall : w.fileCall (.request env line) = some (.write env.time owner name
        (extractWriteFileContent (parse line.rawLine).rawLine)) := by
      rw [fileCall_session hlogin, Kernel.fileCall, if_neg (hname ▸ htouch), if_pos hname, hargs]
    rw [succeeds_call h hcall]
    exact and_iff_right howner
  remove env line name hname hargs := by
    have hcall : w.fileCall (.request env line) = some (.delete owner name) := by
      rw [fileCall_session hlogin, Kernel.fileCall, hname, hargs]
      rfl
    rw [succeeds_call h hcall]
    exact and_iff_right howner
  read env line name hname hargs := by
    have hcall : w.fileCall (.request env line) = some (.read owner name) := by
      rw [fileCall_session hlogin, Kernel.fileCall, hname, hargs]
      rfl
    have htext : w.kernel.vfs.readFile owner name =
        readText owner name (m.value (owner, name)) := by
      have hreply := h.read_reply owner name
      rw [FileMap.readReply, if_neg howner] at hreply
      exact (FileReply.text.inj hreply).trans (by cases m.value (owner, name) <;> rfl)
    rw [(event_call hcall).2, ← htext]
    rfl
  list env line hname hargs := by
    have hcall : w.fileCall (.request env line) = some (.list owner) := by
      rw [fileCall_session hlogin, Kernel.fileCall, hname, hargs]
      rfl
    refine ⟨sortById (ownFiles owner w.kernel.vfs), ?_, ?_, fun name text => ?_⟩
    · rw [(event_call hcall).2]
      show some (reply true (w.kernel.vfs.listFiles owner)) = _
      rw [listFiles, if_neg howner]
      rfl
    · exact ((List.perm_insertionSort _ _).map _).nodup_iff.mpr (h.nodup_names owner)
    · have hperm : ∀ file, file ∈ sortById (ownFiles owner w.kernel.vfs) ↔
          file ∈ ownFiles owner w.kernel.vfs := fun _ => (List.perm_insertionSort _ _).mem_iff
      simp only [hperm]
      exact h.mem_ownFiles_iff

end World

end OSCoreSim
