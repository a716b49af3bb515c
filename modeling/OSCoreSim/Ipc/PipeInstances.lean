import Mathlib.Data.List.Nodup
import OSCoreSim.Util.Str
/-!
# The instances of the pipe

The instances of the pipe that the server has created and not closed yet, and what the clients that
have opened them have done.  Which handle a new instance gets and which instance a client is given
is up to the system, and so is whether a call succeeds.
-/

namespace OSCoreSim

structure PipeClient where
  /-- The command that it has sent. -/
  sent : Option Str := none
  /-- It has read the response. -/
  received : Bool := false
  closed : Bool := false
  deriving DecidableEq

/-- The server's `ReadFile` does not wait for it. -/
def PipeClient.spoken (client : PipeClient) : Bool := client.sent.isSome || client.closed

/-- The server's `FlushFileBuffers` does not wait for it. -/
def PipeClient.done (client : PipeClient) : Bool := client.received || client.closed

inductive ClientAct where
  /-- `CreateFileA`. -/
  | connect (pipe : ℕ)
  /-- `writeMessage`. -/
  | send (pipe : ℕ) (command : Str)
  /-- `readMessage`. -/
  | receive (pipe : ℕ)
  /-- `CloseHandle`, or the end of the client. -/
  | close (pipe : ℕ)

structure Pipes where
  handles : List ℕ := []
  clients : ℕ → Option PipeClient := fun _ => none

namespace Pipes

/-- `CreateNamedPipeA`, which returns the given handle if it succeeds; `none` is
`INVALID_HANDLE_VALUE`. -/
def createNamedPipe (p : Pipes) (ok : Bool) (handle : ℕ) : Option ℕ × Pipes :=
  if ok then
    (some handle,
      { handles := p.handles ++ [handle], clients := Function.update p.clients handle none })
  else (none, p)

def closeHandle (p : Pipes) : Option ℕ → Pipes
  | some pipe => { p with handles := p.handles.filter (· ≠ pipe) }
  | none => p

def Free (p : Pipes) (pipe : ℕ) : Prop := pipe ∈ p.handles ∧ p.clients pipe = none

instance (p : Pipes) (pipe : ℕ) : Decidable (p.Free pipe) := inferInstanceAs (Decidable (_ ∧ _))

/-- `CreateFileA`, which the system directs to the given instance; it fails if that one is not
free. -/
def createFile (p : Pipes) (pipe : ℕ) : Pipes :=
  if p.Free pipe then { p with clients := Function.update p.clients pipe (some {}) } else p

/-- The client of the instance goes on, if there is one and it has not closed its handle. -/
def setClient (p : Pipes) (pipe : ℕ) (f : PipeClient → PipeClient) : Pipes :=
  match p.clients pipe with
  | some client =>
    if client.closed then p
    else { p with clients := Function.update p.clients pipe (some (f client)) }
  | none => p

/-- What `readMessage` of the server returns, `none` while it waits. -/
def readMessage (p : Pipes) (pipe : ℕ) : Option Str :=
  (p.clients pipe).bind fun client => client.sent.or (if client.closed then some [] else none)

def flushed (p : Pipes) (pipe : ℕ) : Bool := (p.clients pipe).any PipeClient.done

/-- What a client does; it can read once the server is writing to it. -/
def act (p : Pipes) (writing : Option ℕ) : ClientAct → Pipes
  | .connect pipe => p.createFile pipe
  | .send pipe command =>
    p.setClient pipe fun client => { client with sent := client.sent.or (some command) }
  | .receive pipe =>
    if writing = some pipe then p.setClient pipe fun client => { client with received := true }
    else p
  | .close pipe => p.setClient pipe fun client => { client with closed := true }

variable {p : Pipes} {pipe : ℕ}

/-! ## The handles -/

theorem createNamedPipe_handles (p : Pipes) (ok : Bool) (handle : ℕ) :
    (p.createNamedPipe ok handle).2.handles =
      p.handles ++ (p.createNamedPipe ok handle).1.toList := by
  cases ok with
  | false => exact (List.append_nil _).symm
  | true => rfl

theorem createNamedPipe_nodup (h : p.handles.Nodup) {ok : Bool} {handle : ℕ}
    (hnew : ok = true → handle ∉ p.handles) : (p.createNamedPipe ok handle).2.handles.Nodup := by
  cases ok with
  | false => exact h
  | true =>
    apply List.nodup_append_comm.mp
    exact List.nodup_cons.mpr ⟨hnew rfl, h⟩

theorem closeHandle_handles (p : Pipes) (pipe : Option ℕ) :
    (p.closeHandle pipe).handles = p.handles.filter (some · ≠ pipe) := by
  cases pipe with
  | none => simp [closeHandle]
  | some pipe => simp [closeHandle]

theorem closeHandle_nodup (h : p.handles.Nodup) (pipe : Option ℕ) :
    (p.closeHandle pipe).handles.Nodup := by
  rw [closeHandle_handles]
  exact h.filter _

@[simp] theorem createFile_handles (p : Pipes) (pipe : ℕ) :
    (p.createFile pipe).handles = p.handles := by
  unfold createFile
  split <;> rfl

@[simp] theorem setClient_handles (p : Pipes) (pipe : ℕ) (f : PipeClient → PipeClient) :
    (p.setClient pipe f).handles = p.handles := by
  unfold setClient
  split
  · split <;> rfl
  · rfl

@[simp] theorem act_handles (p : Pipes) (writing : Option ℕ) (client : ClientAct) :
    (p.act writing client).handles = p.handles := by
  cases client with
  | connect pipe => exact p.createFile_handles pipe
  | send pipe command => exact p.setClient_handles pipe _
  | receive pipe =>
    unfold act
    dsimp only
    split
    · exact p.setClient_handles pipe _
    · rfl
  | close pipe => exact p.setClient_handles pipe _

/-! ## The clients -/

theorem readMessage_eq_none :
    p.readMessage pipe = none ↔ (p.clients pipe).any PipeClient.spoken = false := by
  unfold readMessage PipeClient.spoken
  cases p.clients pipe with
  | none => simp
  | some client => cases hsent : client.sent <;> cases hclosed : client.closed <;> simp

theorem setClient_any {g : PipeClient → Bool} {f : PipeClient → PipeClient}
    (hf : ∀ client, g client = true → g (f client) = true) {k : ℕ}
    (h : (p.clients k).any g = true) : ((p.setClient pipe f).clients k).any g = true := by
  unfold setClient
  split
  next client hclient =>
    split
    · exact h
    · by_cases heq : k = pipe
      · subst heq
        rw [hclient] at h
        dsimp only
        rw [Function.update_self]
        exact hf client h
      · dsimp only
        rw [Function.update_of_ne heq]
        exact h
  next => exact h

theorem createFile_any {g : PipeClient → Bool} {k : ℕ} (h : (p.clients k).any g = true) :
    ((p.createFile pipe).clients k).any g = true := by
  unfold createFile
  split
  next hfree =>
    have hne : k ≠ pipe := by
      rintro rfl
      rw [hfree.2] at h
      cases h
    dsimp only
    rw [Function.update_of_ne hne]
    exact h
  next => exact h

/-- What no step of a client takes back stays true of the client. -/
theorem act_any {g : PipeClient → Bool}
    (hsend : ∀ (client : PipeClient) command, g client = true →
      g { client with sent := client.sent.or (some command) } = true)
    (hreceive : ∀ client : PipeClient, g client = true → g { client with received := true } = true)
    (hclose : ∀ client : PipeClient, g client = true → g { client with closed := true } = true)
    {k : ℕ} (h : (p.clients k).any g = true) (writing : Option ℕ) (client : ClientAct) :
    ((p.act writing client).clients k).any g = true := by
  cases client with
  | connect pipe => exact createFile_any h
  | send pipe command => exact setClient_any (fun client => hsend client command) h
  | receive pipe =>
    unfold act
    dsimp only
    split
    · exact setClient_any hreceive h
    · exact h
  | close pipe => exact setClient_any hclose h

theorem act_isSome {k : ℕ} (h : (p.clients k).isSome = true) (writing : Option ℕ)
    (client : ClientAct) : ((p.act writing client).clients k).isSome = true := by
  have hany : ∀ c : Option PipeClient, c.isSome = c.any fun _ => true := by
    intro c
    cases c <;> rfl
  rw [hany] at h ⊢
  exact act_any (fun _ _ _ => rfl) (fun _ _ => rfl) (fun _ _ => rfl) h writing client

theorem act_spoken {k : ℕ} (h : (p.clients k).any PipeClient.spoken = true)
    (writing : Option ℕ) (client : ClientAct) :
    ((p.act writing client).clients k).any PipeClient.spoken = true := by
  refine act_any (g := PipeClient.spoken) (fun client command h => ?_) (fun _ h => h)
    (fun client _ => ?_) h writing client
  · unfold PipeClient.spoken at h ⊢
    cases hsent : client.sent with
    | none => rfl
    | some command' => rfl
  · exact Bool.or_true _

theorem act_done {k : ℕ} (h : (p.clients k).any PipeClient.done = true)
    (writing : Option ℕ) (client : ClientAct) :
    ((p.act writing client).clients k).any PipeClient.done = true :=
  act_any (g := PipeClient.done) (fun _ _ h => h) (fun client _ => Bool.true_or client.closed)
    (fun client _ => Bool.or_true client.received) h writing client

theorem createFile_isSome (h : p.Free pipe) : ((p.createFile pipe).clients pipe).isSome = true := by
  unfold createFile
  rw [if_pos h]
  dsimp only
  rw [Function.update_self]
  rfl

end Pipes

end OSCoreSim
