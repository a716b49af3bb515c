import OSCoreSim.Lib.Runs
import OSCoreSim.Kernel.Changes
/-!
# Runs of the kernel

A run is any interleaving of requests, from any caller and with any environment, and of
turns of the automatic scheduler.  Both hold `stateMutex_` from start to end, so the
kernel passes from one to the next as a whole.
-/

namespace OSCoreSim

/-- The kernel, the files it sees, and the snapshots that its successful saves have written
so far. -/
structure World where
  kernel : Kernel
  disk : FileSystem := ∅
  saved : List KernelSnapshot := []

inductive Event where
  | request (env : Environment) (request : CommandRequest)
  | tick

namespace Event

def command : Event → Option Command
  | .request _ line => some (CommandDispatcher.parse line.rawLine)
  | .tick => none

/-- A request whose first word is `name`. -/
def Named (name : Str) (event : Event) : Prop :=
  ∃ command, event.command = some command ∧ command.name = name

instance (name : Str) (event : Event) : Decidable (event.Named name) :=
  match h : event.command with
  | some command => decidable_of_iff (command.name = name) (by simp [Named, h])
  | none => isFalse (by simp [Named, h])

theorem exists_request {event : Event} {command : Command} (h : event.command = some command) :
    ∃ env request, event = .request env request ∧
      CommandDispatcher.parse request.rawLine = command := by
  cases event with
  | request env request => exact ⟨env, request, rfl, Option.some.inj h⟩
  | tick => cases h

end Event

namespace World

/-- The response to an event; a turn of the scheduler has none. -/
def respond (w : World) : Event → Option CommandResponse
  | .request env request => some (w.kernel.executeRequest env w.disk request).2.2
  | .tick => none

def Succeeds (w : World) (event : Event) : Prop :=
  ∃ response, w.respond event = some response ∧ response.success = true

instance (w : World) (event : Event) : Decidable (w.Succeeds event) :=
  match h : w.respond event with
  | some response => decidable_of_iff (response.success = true) (by simp [Succeeds, h])
  | none => isFalse (by simp [Succeeds, h])

theorem succeeds_request (w : World) (env : Environment) (request : CommandRequest) :
    w.Succeeds (.request env request) ↔
      (w.kernel.executeRequest env w.disk request).2.2.success = true := by
  simp [Succeeds, respond]

/-- One request, or one turn of the automatic scheduler. -/
def step (w : World) (event : Event) : World :=
  match event with
  | .request env request =>
    { kernel := (w.kernel.executeRequest env w.disk request).1
      disk := (w.kernel.executeRequest env w.disk request).2.1
      saved := if event.Named (str "save") ∧ w.Succeeds event then
        w.kernel.exportSnapshot :: w.saved else w.saved }
  | .tick => { w with kernel := w.kernel.schedulerTick.1 }

def creations (w : World) (event : Event) : ℕ :=
  if event.Named (str "create_pcb") ∧ w.Succeeds event then 1 else 0

def NoLoad (events : List Event) : Prop := ∀ event ∈ events, ¬event.Named (str "load")

instance (events : List Event) : Decidable (NoLoad events) :=
  inferInstanceAs (Decidable (∀ event ∈ events, ¬event.Named (str "load")))

theorem NoLoad.permitted {events : List Event} (h : NoLoad events) (w : World) :
    Runs.Permitted step (fun _ event => ¬event.Named (str "load")) w events :=
  Runs.permitted_of_forall fun event hmem _ => h event hmem

/-- What the changes of every command and the turns of the scheduler keep, every event other than
`load` keeps. -/
theorem step_keeps {P : Kernel → Prop} {w : World} {event : Event}
    (hload : ¬event.Named (str "load"))
    (hchange : ∀ {command kernel success}, event.command = some command →
      Kernel.Change command w.kernel kernel success → P kernel)
    (htick : P w.kernel.schedulerTick.1) : P (w.step event).kernel := by
  cases event with
  | request env request =>
    have hname : (CommandDispatcher.parse request.rawLine).name ≠ str "load" :=
      fun heq => hload ⟨_, rfl, heq⟩
    exact hchange rfl (Kernel.executeRequest_change w.kernel env w.disk request hname)
  | tick => exact htick

/-- Clocks that stand still and a file system that never fails. -/
def quietEnvironment : Environment where
  steadyClock := 0
  time := 0
  floats :=
    { fragmentationText := fun _ _ => []
      percentText := fun _ _ => []
      progressFilled := fun _ _ _ => 0 }
  saveIo := {}

def console (line : String) : Event := .request quietEnvironment { rawLine := str line }

def loggedIn : World :=
  Runs.run step { kernel := Kernel.start {} ∅ } [console "register a pw", console "login a pw"]

end World

/-- A kernel after a start that loads nothing: no users, no processes, one FREE block, no files. -/
structure Kernel.Clean (k : Kernel) : Prop where
  users : k.userManager.users = ∅
  session : k.userManager.currentUser = none
  processes : k.processManager = {}
  memory : k.memoryManager = {}
  vfs : k.vfs = {}
  running : k.schedulerRunning = false
  scheduler : k.scheduler = { running := false }
  owner : k.schedulerOwner = []

namespace Kernel

theorem clean_resetState (k : Kernel) : k.resetState.Clean where
  users := rfl
  session := rfl
  processes := rfl
  memory := by
    unfold resetState MemoryManager.importBlocks
    rfl
  vfs := rfl
  running := rfl
  scheduler := rfl
  owner := rfl

theorem clean_start (k : Kernel) (fs : FileSystem)
    (hnone : ∀ snapshot, k.snapshotStore.load fs = .ok snapshot →
      ∃ message, validateSnapshot snapshot = .error message) : (k.start fs).Clean := by
  have hreset : ∀ (k : Kernel) (status : Str), { k.resetState with autoLoadStatus := status }.Clean :=
    fun k status => { clean_resetState k with }
  unfold start
  dsimp only
  split
  · split
    · exact hreset _ _
    next snapshot hload =>
      obtain ⟨message, hrefused⟩ := hnone snapshot hload
      simp only [importSnapshot, hrefused]
      exact hreset _ _
  · exact hreset _ _

end Kernel

end OSCoreSim
