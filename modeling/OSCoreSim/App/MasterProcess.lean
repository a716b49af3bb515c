import OSCoreSim.Ipc.PipeInstances
import OSCoreSim.Kernel.Shutdown
/-!
# The process of the master

The threads of the master together: the kernel with its worker and its scheduler, the thread of
the pipe server, and the console thread, which calls the kernel and in the end stops the server
and then the kernel.  A step is one access to what the threads share, one message on the pipe or
one other call of the system; one that has to wait leaves everything as it is.  `ReadFile` waits
for the client to send, `WriteFile` and `FlushFileBuffers` for it to read.
-/

namespace OSCoreSim

inductive ServerLoop where
  /-- In front of the first `CreateNamedPipeA`. -/
  | creating
  /-- At the head of the loop. -/
  | checking (pipe : Option ℕ)
  | connecting (pipe : Option ℕ)
  /-- Behind a failed `ConnectNamedPipe`. -/
  | dropping (pipe : Option ℕ)
  | recreating
  /-- Behind `Sleep(100)`. -/
  | retrying
  /-- In front of the check behind `ConnectNamedPipe`. -/
  | connected (pipe : ℕ)
  | reading (pipe : ℕ)
  /-- In front of `handler_(command)`. -/
  | calling (pipe : ℕ) (command : Str)
  /-- In `submitCommand`. -/
  | awaiting (pipe : ℕ)
  | writing (pipe : ℕ) (response : Str)
  /-- In front of the `CreateNamedPipeA` of the next instance. -/
  | preparing (pipe : ℕ)
  | replacing (pipe : ℕ) (next : Option ℕ)
  /-- Behind `Sleep(50)`. -/
  | rescuing
  /-- In front of the last `CloseHandle`. -/
  | leaving (pipe : Option ℕ)
  | returned
  deriving DecidableEq

def ServerLoop.handles : ServerLoop → List ℕ
  | creating | recreating | retrying | rescuing | returned => []
  | checking pipe | connecting pipe | dropping pipe | leaving pipe => pipe.toList
  | connected pipe | reading pipe | calling pipe _ | awaiting pipe | writing pipe _
  | preparing pipe => [pipe]
  | replacing pipe next => pipe :: next.toList

def ServerLoop.creates : ServerLoop → Bool
  | creating | recreating | retrying | preparing _ | rescuing => true
  | _ => false

def ServerLoop.connects : ServerLoop → Bool
  | connecting _ => true
  | _ => false

def ServerLoop.writesTo : ServerLoop → Option ℕ
  | writing pipe _ => some pipe
  | _ => none

inductive ConsoleThread where
  | prompt
  /-- In `pipeServer_.stop()`, in front of the connection that wakes the server. -/
  | waking
  /-- In front of `CloseHandle(wakePipe)`. -/
  | hangingUp (wakePipe : ℕ)
  /-- In `serverThread_.join()`. -/
  | joining
  /-- In `kernel_.stop()`. -/
  | closing
  | ended
  deriving DecidableEq

structure MasterProcess where
  threads : Threads
  pipes : Pipes := {}
  /-- `running_` of the pipe server. -/
  running : Bool := true
  server : ServerLoop := .creating
  /-- The calls of `handler_` that have returned. -/
  calls : ℕ := 0
  console : ConsoleThread := .prompt

inductive Move where
  /-- A step of the kernel, or of another caller of it. -/
  | kernel (act : Act)
  /-- The next step of `serverLoop`: whether its system call succeeds, and the handle that it gets
  if this is `CreateNamedPipeA`. -/
  | server (ok : Bool) (handle : ℕ)
  | client (act : ClientAct)
  /-- The console leaves its loop, or goes on in the shutdown behind it; the system directs its
  `CreateFileA` to the instance. -/
  | console (pipe : ℕ)

/-- A step that is not for the server's calls, which have the odd numbers, nor for `stop`. -/
def Act.foreign : Act → Bool
  | .submit call _ _ | .push call | .receive call => call % 2 == 0
  | .work _ | .tick => true
  | .stop => false

namespace MasterProcess

/-- Behind `kernel_.start()` and `pipeServer_.start()`. -/
def start (w : World) : MasterProcess := { threads := Threads.start w }

def call (m : MasterProcess) : ℕ := 2 * m.calls + 1

def ask (m : MasterProcess) : List Act :=
  match m.server with
  | .calling _ command => [.submit m.call command .remoteClient]
  | .awaiting _ =>
    match m.threads.callers m.call with
    | .admitted _ => [.push m.call]
    | .waiting => [.receive m.call]
    | .idle | .refused _ | .answered _ => []
  | _ => []

def serve (m : MasterProcess) (ok : Bool) (handle : ℕ) : MasterProcess :=
  match m.server with
  | .creating =>
    let (pipe, pipes) := m.pipes.createNamedPipe ok handle
    match pipe with
    | some pipe => { m with pipes := pipes, server := .checking (some pipe) }
    | none => { m with pipes := pipes, server := .returned }
  | .checking pipe =>
    { m with server := if m.running then .connecting pipe else .leaving pipe }
  | .connecting none => { m with server := .dropping none }
  | .connecting (some pipe) =>
    if !ok then { m with server := .dropping (some pipe) }
    else if (m.pipes.clients pipe).isSome then { m with server := .connected pipe }
    else m
  | .dropping pipe => { m with pipes := m.pipes.closeHandle pipe, server := .recreating }
  | .recreating =>
    let (pipe, pipes) := m.pipes.createNamedPipe ok handle
    match pipe with
    | some pipe => { m with pipes := pipes, server := .checking (some pipe) }
    | none => { m with pipes := pipes, server := .retrying }
  | .retrying | .rescuing =>
    let (pipe, pipes) := m.pipes.createNamedPipe ok handle
    { m with pipes := pipes, server := .checking pipe }
  | .connected pipe =>
    { m with server := if m.running then .reading pipe else .leaving (some pipe) }
  | .reading pipe =>
    if !ok then { m with server := .preparing pipe }
    else
      match m.pipes.readMessage pipe with
      | some command =>
        { m with server := if command = [] then .preparing pipe else .calling pipe command }
      | none => m
  | .calling pipe _ =>
    { m with threads := Runs.run Threads.next m.threads m.ask, server := .awaiting pipe }
  | .awaiting pipe =>
    match m.threads.callers m.call with
    | .refused response | .answered response =>
      { m with server := .writing pipe response.message, calls := m.calls + 1 }
    | _ => { m with threads := Runs.run Threads.next m.threads m.ask }
  | .writing pipe _ =>
    -- a write that fails is ignored
    if !ok ∨ m.pipes.flushed pipe then { m with server := .preparing pipe } else m
  | .preparing pipe =>
    let (next, pipes) := m.pipes.createNamedPipe ok handle
    { m with pipes := pipes, server := .replacing pipe next }
  | .replacing pipe next =>
    { m with
      pipes := m.pipes.closeHandle (some pipe)
      server := if next.isSome then .checking next else .rescuing }
  | .leaving pipe => { m with pipes := m.pipes.closeHandle pipe, server := .returned }
  | .returned => m

def leave (m : MasterProcess) (pipe : ℕ) : MasterProcess :=
  match m.console with
  | .prompt => { m with running := false, console := .waking }
  | .waking =>
    { m with
      pipes := m.pipes.createFile pipe
      console := if m.pipes.Free pipe then .hangingUp pipe else .joining }
  | .hangingUp wakePipe =>
    { m with pipes := m.pipes.act none (.close wakePipe), console := .joining }
  | .joining => if m.server = .returned then { m with console := .closing } else m
  | .closing =>
    { m with
      threads := m.threads.stop
      console := if m.threads.stop.stopper = .outside then .ended else .closing }
  | .ended => m

def next (m : MasterProcess) : Move → MasterProcess
  | .kernel act => if act.foreign then { m with threads := m.threads.next act } else m
  | .server ok handle => m.serve ok handle
  | .client act => { m with pipes := m.pipes.act m.server.writesTo act }
  | .console pipe => m.leave pipe

/-- What is documented of the system's calls: a new handle is none of the open ones, and
`CreateFileA` opens an instance that is free, if there is one. -/
def Documented (m : MasterProcess) : Move → Prop
  | .server ok handle => m.server.creates = true → ok = true → handle ∉ m.pipes.handles
  | .console pipe => m.console = .waking → (∃ free, m.pipes.Free free) → m.pipes.Free pipe
  | .kernel _ | .client _ => True

instance (m : MasterProcess) (move : Move) : Decidable (m.Documented move) :=
  match move with
  | .server .. => inferInstanceAs (Decidable (_ → _))
  | .console pipe =>
    decidable_of_iff (m.console = .waking →
      (∃ free ∈ m.pipes.handles, m.pipes.clients free = none) → m.pipes.Free pipe) Iff.rfl
  | .kernel _ | .client _ => isTrue trivial

def Succeeds (m : MasterProcess) : Move → Prop
  | .server ok _ => m.server.creates = true ∨ m.server.connects = true → ok = true
  | .kernel _ | .client _ | .console _ => True

variable {m : MasterProcess}

/-! ## The kernel in the process -/

/-- What a step does in the kernel. -/
def acts (m : MasterProcess) : Move → List Act
  | .kernel act => if act.foreign then [act] else []
  | .server _ _ => m.ask
  | .client _ => []
  | .console _ => if m.console = .closing then [.stop] else []

/-- The kernel of the process is a kernel with many callers. -/
theorem threads_next (m : MasterProcess) (move : Move) :
    (m.next move).threads = Runs.run Threads.next m.threads (m.acts move) := by
  cases move with
  | kernel act =>
    unfold next acts
    dsimp only
    split <;> rfl
  | client => rfl
  | console pipe =>
    unfold next leave acts
    cases hconsole : m.console with
    | joining =>
      dsimp only
      split <;> rfl
    | prompt | waking | hangingUp | closing | ended => rfl
  | server ok handle =>
    unfold next serve acts
    cases hserver : m.server with
    | creating | recreating =>
      simp only [ask, hserver]
      split <;> rfl
    | connecting pipe =>
      simp only [ask, hserver]
      cases pipe with
      | none => rfl
      | some pipe =>
        dsimp only
        split
        · rfl
        · split <;> rfl
    | reading pipe =>
      simp only [ask, hserver]
      split
      · rfl
      · split <;> rfl
    | writing pipe =>
      simp only [ask, hserver]
      split <;> rfl
    | awaiting pipe =>
      dsimp only
      split
      next hcaller => simp [ask, hserver, hcaller]
      next hcaller => simp [ask, hserver, hcaller]
      · rfl
    | calling => rfl
    | _ => simp [ask, hserver]

/-- What every step of a thread of the kernel keeps, a step of the process keeps. -/
theorem threads_keeps {P : Threads → Prop} (hstep : ∀ s act, P s → P (s.next act))
    {m : MasterProcess} (h : P m.threads) (move : Move) : P (m.next move).threads := by
  rw [threads_next]
  exact Runs.run_always hstep h (m.acts move)

/-! ## The handles -/

/-- The open instances are those that the loop still has to close. -/
structure Owned (m : MasterProcess) : Prop where
  nodup : m.pipes.handles.Nodup
  handles : m.pipes.handles = m.server.handles

theorem owned_start (w : World) : Owned (start w) := ⟨List.nodup_nil, rfl⟩

theorem closeHandle_only {p : Pipes} {pipe : Option ℕ} (h : p.handles = pipe.toList) :
    (p.closeHandle pipe).handles = [] := by
  rw [Pipes.closeHandle_handles, h]
  cases pipe <;> simp

theorem createNamedPipe_none {p : Pipes} (h : p.handles = []) (ok : Bool) (handle : ℕ) :
    (p.createNamedPipe ok handle).2.handles = (p.createNamedPipe ok handle).1.toList := by
  rw [Pipes.createNamedPipe_handles, h]
  rfl

theorem Owned.serve (h : Owned m) {ok : Bool} {handle : ℕ}
    (hnew : m.Documented (.server ok handle)) : Owned (m.serve ok handle) := by
  obtain ⟨hnodup, hhandles⟩ := h
  unfold Documented at hnew
  unfold MasterProcess.serve
  cases hserver : m.server with
  | creating | recreating =>
    rw [hserver] at hhandles hnew
    have hnew' := createNamedPipe_none hhandles ok handle
    have hnodup' := Pipes.createNamedPipe_nodup hnodup (hnew rfl)
    dsimp only
    split
    next hpipe =>
      rw [hpipe] at hnew'
      exact ⟨hnodup', hnew'⟩
    next hpipe =>
      rw [hpipe] at hnew'
      exact ⟨hnodup', hnew'⟩
  | retrying | rescuing =>
    rw [hserver] at hhandles hnew
    exact ⟨Pipes.createNamedPipe_nodup hnodup (hnew rfl), createNamedPipe_none hhandles ok handle⟩
  | checking pipe | connected pipe =>
    rw [hserver] at hhandles
    refine ⟨hnodup, hhandles.trans ?_⟩
    dsimp only
    split <;> rfl
  | connecting pipe =>
    rw [hserver] at hhandles
    cases pipe with
    | none => exact ⟨hnodup, hhandles⟩
    | some pipe =>
      dsimp only
      split
      · exact ⟨hnodup, hhandles⟩
      · split
        · exact ⟨hnodup, hhandles⟩
        · exact ⟨hnodup, hserver ▸ hhandles⟩
  | reading pipe =>
    rw [hserver] at hhandles
    dsimp only
    split
    · exact ⟨hnodup, hhandles⟩
    · split
      · refine ⟨hnodup, hhandles.trans ?_⟩
        dsimp only
        split <;> rfl
      · exact ⟨hnodup, hserver ▸ hhandles⟩
  | calling pipe =>
    rw [hserver] at hhandles
    exact ⟨hnodup, hhandles⟩
  | writing pipe =>
    rw [hserver] at hhandles
    dsimp only
    split
    · exact ⟨hnodup, hhandles⟩
    · exact ⟨hnodup, hserver ▸ hhandles⟩
  | awaiting pipe =>
    rw [hserver] at hhandles
    dsimp only
    split
    · exact ⟨hnodup, hhandles⟩
    · exact ⟨hnodup, hhandles⟩
    · exact ⟨hnodup, hserver ▸ hhandles⟩
  | dropping pipe | leaving pipe =>
    rw [hserver] at hhandles
    exact ⟨Pipes.closeHandle_nodup hnodup pipe, closeHandle_only hhandles⟩
  | preparing pipe =>
    rw [hserver] at hhandles hnew
    refine ⟨Pipes.createNamedPipe_nodup hnodup (hnew rfl), ?_⟩
    dsimp only
    rw [Pipes.createNamedPipe_handles, hhandles]
    rfl
  | replacing pipe next =>
    rw [hserver] at hhandles
    refine ⟨Pipes.closeHandle_nodup hnodup (some pipe), ?_⟩
    dsimp only
    rw [Pipes.closeHandle_handles, hhandles]
    rw [hhandles] at hnodup
    cases next with
    | none => simp [ServerLoop.handles]
    | some next =>
      have hne : next ≠ pipe := fun heq => by simp [ServerLoop.handles, heq] at hnodup
      simp [ServerLoop.handles, hne]
  | returned => exact ⟨hnodup, hhandles⟩

theorem Owned.congr {m' : MasterProcess} (h : Owned m) (hpipes : m'.pipes.handles = m.pipes.handles)
    (hserver : m'.server = m.server) : Owned m' :=
  ⟨hpipes ▸ h.nodup, by rw [hpipes, hserver]; exact h.handles⟩

theorem Owned.next (h : Owned m) {move : Move} (hok : m.Documented move) : Owned (m.next move) := by
  cases move with
  | kernel act =>
    unfold MasterProcess.next
    dsimp only
    split
    · exact h.congr rfl rfl
    · exact h
  | server ok handle => exact h.serve hok
  | client act => exact h.congr (m.pipes.act_handles _ act) rfl
  | console pipe =>
    unfold MasterProcess.next leave
    dsimp only
    split
    · exact h.congr rfl rfl
    · exact h.congr (m.pipes.createFile_handles pipe) rfl
    · exact h.congr (m.pipes.act_handles _ _) rfl
    · split
      · exact h.congr rfl rfl
      · exact h
    · exact h.congr rfl rfl
    · exact h

/-- Behind calls that have all succeeded, the loop holds an instance from the first one on. -/
def Named (m : MasterProcess) : Prop :=
  match m.server with
  | .creating | .returned => True
  | .dropping _ | .recreating | .retrying | .rescuing => False
  | .replacing _ next => next.isSome = true
  | server => server.handles ≠ []

theorem Named.next (h : Named m) {move : Move} (hok : m.Succeeds move) : Named (m.next move) := by
  cases move with
  | kernel act =>
    unfold MasterProcess.next
    dsimp only
    split
    · exact h
    · exact h
  | client => exact h
  | console pipe =>
    unfold MasterProcess.next leave
    dsimp only
    split
    · exact h
    · exact h
    · exact h
    · split
      · exact h
      · exact h
    · exact h
    · exact h
  | server ok handle =>
    unfold Succeeds at hok
    unfold Named at h
    unfold MasterProcess.next MasterProcess.serve
    dsimp only
    cases hserver : m.server with
    | creating =>
      rw [hserver] at hok
      simp [Named, Pipes.createNamedPipe, ServerLoop.handles, hok (.inl rfl)]
    | preparing pipe =>
      rw [hserver] at hok
      simp [Named, Pipes.createNamedPipe, hok (.inl rfl)]
    | checking pipe | connected pipe =>
      rw [hserver] at h
      dsimp only
      split
      · exact h
      · exact h
    | connecting pipe =>
      rw [hserver] at h hok
      cases pipe with
      | none => exact absurd rfl h
      | some pipe =>
        simp only [hok (.inr rfl), Bool.not_true, Bool.false_eq_true, if_false]
        split
        · simp [Named, ServerLoop.handles]
        · simp [Named, hserver, ServerLoop.handles]
    | reading pipe =>
      dsimp only
      split
      · simp [Named, ServerLoop.handles]
      · split
        next command _ =>
          by_cases hempty : command = []
          · simp [Named, hempty, ServerLoop.handles]
          · simp [Named, hempty, ServerLoop.handles]
        next => simp [Named, hserver, ServerLoop.handles]
    | writing pipe =>
      dsimp only
      split
      · simp [Named, ServerLoop.handles]
      · simp [Named, hserver, ServerLoop.handles]
    | dropping | recreating | retrying | rescuing =>
      rw [hserver] at h
      exact h.elim
    | awaiting pipe =>
      dsimp only
      split
      · simp [Named, ServerLoop.handles]
      · simp [Named, ServerLoop.handles]
      · simp [Named, ServerLoop.handles]
    | replacing pipe next =>
      rw [hserver] at h
      dsimp only at h ⊢
      rw [if_pos h]
      cases next with
      | none => cases h
      | some next => simp [Named, ServerLoop.handles]
    | calling pipe => simp [Named, ServerLoop.handles]
    | leaving pipe => simp [Named]
    | returned => simp [Named, hserver]

/-- Whichever calls of the system fail, the open instances are those whose handles the loop holds:
each is closed once, and none is left at its end.  As long as no `CreateNamedPipeA` and no
`ConnectNamedPipe` fails, there is an instance at every moment between the first one and the end of
the loop. -/
theorem handles_of_run (w : World) (moves : List Move)
    (hsystem : Runs.Permitted next Documented (start w) moves) :
    let last := Runs.run next (start w) moves
    last.pipes.handles = last.server.handles ∧ last.pipes.handles.Nodup ∧
      (last.server = .returned → last.pipes.handles = []) ∧
      (Runs.Permitted next Succeeds (start w) moves → last.server ≠ .creating →
        last.server ≠ .returned → last.pipes.handles ≠ []) := by
  intro last
  have howned : Owned last :=
    Runs.run_invariant' (fun _ _ h hok => h.next hok) (owned_start w) hsystem
  refine ⟨howned.handles, howned.nodup, fun hreturned => ?_, fun hok hfirst hlast => ?_⟩
  · have hnone := howned.handles
    rw [hreturned] at hnone
    exact hnone
  · have hnamed : Named last :=
      Runs.run_invariant' (P := Named) (fun _ _ h hok => h.next hok) trivial hok
    intro hnone
    have hhandles := howned.handles
    rw [hnone] at hhandles
    unfold Named at hnamed
    cases hserver : last.server with
    | creating => exact hfirst hserver
    | returned => exact hlast hserver
    | replacing pipe next => simp [hserver, ServerLoop.handles] at hhandles
    | dropping | recreating | retrying | rescuing =>
      rw [hserver] at hnamed
      exact hnamed
    | _ =>
      rw [hserver] at hnamed hhandles
      exact hnamed hhandles.symm

/-- A client's command is executed and answered, and the next instance takes the place of the
first. -/
def oneServed : List Move :=
  [.kernel (.work World.quietEnvironment), .server true 7, .server true 0, .client (.connect 7),
    .server true 0, .server true 0, .client (.send 7 (str "status")), .server true 0,
    .server true 0, .server true 0, .kernel (.work World.quietEnvironment),
    .kernel (.work World.quietEnvironment), .kernel (.work World.quietEnvironment),
    .server true 0, .server true 0, .client (.receive 7), .server true 0, .server true 9,
    .server true 0]

theorem handles_of_run_served :
    let last := Runs.run next (start { kernel := Kernel.start {} ∅ }) oneServed
    last.pipes.handles = last.server.handles ∧ last.pipes.handles.Nodup ∧
      (last.server = .returned → last.pipes.handles = []) ∧
      (Runs.Permitted next Succeeds (start { kernel := Kernel.start {} ∅ }) oneServed →
        last.server ≠ .creating → last.server ≠ .returned → last.pipes.handles ≠ []) :=
  handles_of_run { kernel := Kernel.start {} ∅ } oneServed (by decide +kernel)

example : (Runs.run next (start { kernel := Kernel.start {} ∅ }) oneServed).server =
    .checking (some 9) := by decide +kernel

end MasterProcess

end OSCoreSim
