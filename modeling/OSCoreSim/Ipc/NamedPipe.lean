import OSCoreSim.Lib.Chunked
import OSCoreSim.Lib.ByteStream
import OSCoreSim.Kernel.World
/-!
# The named pipe

Client and server exchange one command and one response per connection, each as a 4-byte
length and the bytes.  The pipe is reliable and keeps the order; how much one call of
`ReadFile` or `WriteFile` moves is left to a schedule.  A reader that runs beside the writer
sees some schedule as well, so writing first and reading afterwards loses no behaviour.
-/

namespace OSCoreSim

open ByteStream (leBytes leValue)
open Chunked (Schedule)

namespace NamedPipe

/-- The text of `message` that its 4-byte length covers. -/
def framed (message : Str) : Str := message.take (UInt32.ofNat message.length).toNat

/-- `writeMessage`, the same text in `NamedPipeServer` and `NamedPipeClient`: the result and the
bytes on the pipe.  The length is written by a single call. -/
def writeMessage (sizes : Schedule) (message : Str) : Bool × Str :=
  let length := UInt32.ofNat message.length
  let header := leBytes 4 length.toNat
  let bytesWritten := Chunked.moved 4 (sizes 0)
  if bytesWritten ≠ 4 then (false, header.take bytesWritten)
  else (true, header ++ Chunked.writeAll sizes 1 (framed message))

/-- `readMessage`, the same text in `NamedPipeServer` and `NamedPipeClient`.  The empty string
stands for every failure, and for a message of length 0. -/
def readMessage (sizes : Schedule) (pipe : Str) : Str :=
  let bytesRead := min (Chunked.moved 4 (sizes 0)) pipe.length
  let length := leValue (pipe.take 4)
  if bytesRead ≠ 4 ∨ length = 0 then []
  else
    match Chunked.readAll sizes 1 length (pipe.drop 4) with
    | none => []
    | some (buffer, _) => buffer

structure Exchange where
  clientWrite : Schedule
  serverRead : Schedule
  serverWrite : Schedule
  clientRead : Schedule

/-- One connection as the server sees it: the command that it hands to the handler, the bytes it
sends back, and the state behind the handler. -/
structure Turn (σ : Type) where
  command : Option Str
  pipe : Str
  master : σ

end NamedPipe

open NamedPipe

variable {σ : Type}

/-- One turn of `serverLoop` behind `ConnectNamedPipe`. -/
def NamedPipeServer.serve (handler : Str → σ → Str × σ) (sizes : Exchange) (pipe : Str)
    (master : σ) : Turn σ :=
  let command := readMessage sizes.serverRead pipe
  if command ≠ [] then
    let handled := handler command master
    { command := some command
      pipe := (writeMessage sizes.serverWrite handled.1).2
      master := handled.2 }
  else { command := none, pipe := [], master := master }

inductive Connection where
  | unavailable
  | createFailed (error : ℕ)
  | modeFailed (error : ℕ)
  | opened

/-- `sendCommand`: the result, `response`, and the state behind the server. -/
def NamedPipeClient.sendCommand (connection : Connection) (sizes : Exchange)
    (handler : Str → σ → Str × σ) (command : Str) (master : σ) : Bool × Str × σ :=
  match connection with
  | .unavailable => (false, str "[ERROR] Cannot connect to Kernel Master. " ++
      str "Please make sure the first instance is running.", master)
  | .createFailed error => (false, str "[ERROR] Cannot connect to Kernel Master " ++
      str "(CreateFileA failed, error=" ++ decimal error ++ str ").", master)
  | .modeFailed error => (false, str "[ERROR] Failed to set pipe read mode (error=" ++
      decimal error ++ str ").", master)
  | .opened =>
    let sent := writeMessage sizes.clientWrite command
    let turn := NamedPipeServer.serve handler sizes sent.2 master
    if !sent.1 then (false, str "[ERROR] Failed to send command to Master.", turn.master)
    else
      let result := readMessage sizes.clientRead turn.pipe
      if result = [] then
        (false, str "[ERROR] Failed to receive response from Master.", turn.master)
      else (true, result, turn.master)

namespace NamedPipe

variable {sizes : Exchange} {handler : Str → σ → Str × σ} {line message : Str} {master : σ}

/-! ## One message -/

/-- A call for the length moves all of it. -/
def HeaderWhole (sizes : Schedule) : Prop := 4 ≤ (sizes 0 : ℕ)

instance (sizes : Schedule) : Decidable (HeaderWhole sizes) := inferInstanceAs (Decidable (_ ≤ _))

theorem writeMessage_whole {sizes : Schedule} (h : HeaderWhole sizes)
    (hlength : message.length < 2 ^ 32) :
    writeMessage sizes message = (true, leBytes 4 message.length ++ message) := by
  have hmoved : Chunked.moved 4 (sizes 0) = 4 := Chunked.moved_eq_iff.mpr h
  have hlen : (UInt32.ofNat message.length).toNat = message.length :=
    UInt32.toNat_ofNat_of_lt' hlength
  simp only [writeMessage, hmoved, ne_eq, not_true_eq_false, if_false, framed, hlen,
    Chunked.writeAll_eq, List.take_length]

/-- A length that takes several calls is not sent. -/
theorem writeMessage_split {sizes : Schedule} (h : ¬HeaderWhole sizes) (message : Str) :
    (writeMessage sizes message).1 = false ∧ (writeMessage sizes message).2.length < 4 := by
  have hne : Chunked.moved 4 (sizes 0) ≠ 4 := fun heq => h (Chunked.moved_eq_iff.mp heq)
  have hle := Chunked.moved_le 4 (sizes 0)
  unfold writeMessage
  simp only [if_pos hne]
  refine ⟨trivial, ?_⟩
  rw [List.length_take]
  omega

theorem readMessage_short {sizes : Schedule} {pipe : Str}
    (h : pipe.length < 4 ∨ ¬HeaderWhole sizes) : readMessage sizes pipe = [] := by
  have hne : min (Chunked.moved 4 (sizes 0)) pipe.length ≠ 4 := by
    intro heq
    rcases h with hshort | hsplit
    · omega
    · have hle := Chunked.moved_le 4 (sizes 0)
      exact hsplit (Chunked.moved_eq_iff.mp (by omega))
  simp only [readMessage, if_pos (Or.inl hne)]

theorem readMessage_framed {sizes : Schedule} (h : HeaderWhole sizes)
    (hlength : message.length < 2 ^ 32) :
    readMessage sizes (leBytes 4 message.length ++ message) = message := by
  have hmoved : Chunked.moved 4 (sizes 0) = 4 := Chunked.moved_eq_iff.mpr h
  have hheader : (leBytes 4 message.length).length = 4 := ByteStream.length_leBytes _ _
  have hvalue : leValue (leBytes 4 message.length) = message.length := by
    rw [ByteStream.leValue_leBytes]
    exact Nat.mod_eq_of_lt hlength
  have hread : min (Chunked.moved 4 (sizes 0)) (leBytes 4 message.length ++ message).length = 4 := by
    rw [hmoved, List.length_append, hheader]
    omega
  have htake : (leBytes 4 message.length ++ message).take 4 = leBytes 4 message.length :=
    List.take_left' hheader
  have hdrop : (leBytes 4 message.length ++ message).drop 4 = message := List.drop_left' hheader
  simp only [readMessage, hread, htake, hdrop, hvalue, ne_eq, not_true_eq_false, false_or,
    Chunked.readAll_eq sizes 1 (Nat.le_refl message.length), List.take_length]
  split
  next hzero => exact (List.length_eq_zero_iff.mp hzero).symm
  next => rfl

theorem readMessage_sent (write read : Schedule) (hlength : message.length < 2 ^ 32) :
    readMessage read (writeMessage write message).2 = message ∧
        HeaderWhole write ∧ HeaderWhole read ∨
      readMessage read (writeMessage write message).2 = [] ∧
        ¬(HeaderWhole write ∧ HeaderWhole read) := by
  by_cases hwrite : HeaderWhole write
  · by_cases hread : HeaderWhole read
    · rw [writeMessage_whole hwrite hlength]
      exact .inl ⟨readMessage_framed hread hlength, hwrite, hread⟩
    · exact .inr ⟨readMessage_short (.inr hread), fun h => hread h.2⟩
  · exact .inr ⟨readMessage_short (.inl (writeMessage_split hwrite message).2),
      fun h => hwrite h.1⟩

/-! ## One connection -/

theorem serve_received {pipe : Str} (hread : readMessage sizes.serverRead pipe = line)
    (hline : line ≠ []) (handler : Str → σ → Str × σ) (master : σ) :
    NamedPipeServer.serve handler sizes pipe master =
      { command := some line
        pipe := (writeMessage sizes.serverWrite (handler line master).1).2
        master := (handler line master).2 } := by
  simp only [NamedPipeServer.serve, hread, ne_eq, hline, not_false_eq_true, if_true]

theorem serve_nothing {pipe : Str} (hread : readMessage sizes.serverRead pipe = []) :
    NamedPipeServer.serve handler sizes pipe master =
      { command := none, pipe := [], master := master } := by
  simp only [NamedPipeServer.serve, hread, ne_eq, not_true_eq_false, if_false]

/-- Whatever the schedules are, the handler runs the line that was sent, or nothing. -/
theorem sendCommand_master (connection : Connection) (hlength : line.length < 2 ^ 32) :
    (NamedPipeClient.sendCommand connection sizes handler line master).2.2 = master ∨
      (NamedPipeClient.sendCommand connection sizes handler line master).2.2 =
        (handler line master).2 := by
  cases connection with
  | opened =>
    have hturn : (NamedPipeServer.serve handler sizes (writeMessage sizes.clientWrite line).2
        master).master = master ∨ (NamedPipeServer.serve handler sizes
          (writeMessage sizes.clientWrite line).2 master).master = (handler line master).2 := by
      by_cases hnil : readMessage sizes.serverRead (writeMessage sizes.clientWrite line).2 = []
      · rw [serve_nothing hnil]
        exact .inl rfl
      · rcases readMessage_sent sizes.clientWrite sizes.serverRead hlength with
          ⟨hread, -⟩ | ⟨hread, -⟩
        · rw [serve_received hread (hread ▸ hnil)]
          exact .inr rfl
        · exact absurd hread hnil
    unfold NamedPipeClient.sendCommand
    simp only
    split
    · exact hturn
    · split <;> exact hturn
  | _ => exact .inl rfl

/-! ## The kernel behind the pipe -/

/-- The kernel that the lines reach, and whether one of them has asked it to stop. -/
structure Master where
  kernel : Kernel
  disk : FileSystem := ∅
  stopped : Bool := false

/-- The handler that `masterLoop` hands to the server. -/
def commandHandler (env : Environment) (line : Str) (master : Master) : Str × Master :=
  let out := master.kernel.executeRequest env master.disk
    { rawLine := line, source := .remoteClient }
  (out.2.2.message,
    { kernel := out.1, disk := out.2.1, stopped := master.stopped || out.2.2.shouldExit })

/-! ## Delivery -/

def Exchange.HeadersWhole (sizes : Exchange) : Prop :=
  HeaderWhole sizes.clientWrite ∧ HeaderWhole sizes.serverRead ∧ HeaderWhole sizes.serverWrite ∧
    HeaderWhole sizes.clientRead

instance (sizes : Exchange) : Decidable sizes.HeadersWhole := inferInstanceAs (Decidable (_ ∧ _))

def evenly (size : ℕ+) : Exchange :=
  { clientWrite := Chunked.steady size, serverRead := Chunked.steady size
    serverWrite := Chunked.steady size, clientRead := Chunked.steady size }

/-- The handler gets the line, and the client gets the handler's response. -/
def Delivers (sizes : Exchange) (handler : Str → σ → Str × σ) (line : Str) (master : σ) : Prop :=
  (NamedPipeServer.serve handler sizes (writeMessage sizes.clientWrite line).2 master).command =
      some line ∧
    NamedPipeClient.sendCommand .opened sizes handler line master = (true, handler line master)

/-- Over a reliable pipe a line and its response are delivered exactly when the response is not
empty and no length is moved in parts. -/
theorem delivers_iff (hline : line ≠ []) (hlength : line.length < 2 ^ 32)
    (hresponse : (handler line master).1.length < 2 ^ 32) :
    Delivers sizes handler line master ↔ (handler line master).1 ≠ [] ∧ sizes.HeadersWhole := by
  unfold Delivers
  rcases readMessage_sent sizes.clientWrite sizes.serverRead hlength with
    ⟨hread, hwrite, hserver⟩ | ⟨hread, hnot⟩
  · have hsent : (writeMessage sizes.clientWrite line).1 = true := by
      rw [writeMessage_whole hwrite hlength]
    have hturn := serve_received hread hline handler master
    have hresult : NamedPipeClient.sendCommand .opened sizes handler line master =
        let response := (handler line master).1
        let result := readMessage sizes.clientRead (writeMessage sizes.serverWrite response).2
        (if result = [] then
          (false, str "[ERROR] Failed to receive response from Master.", (handler line master).2)
        else (true, result, (handler line master).2)) := by
      simp only [NamedPipeClient.sendCommand, hturn, hsent, Bool.not_true, Bool.false_eq_true,
        if_false]
    rw [hturn, hresult]
    dsimp only
    rcases readMessage_sent sizes.serverWrite sizes.clientRead hresponse with
      ⟨hback, hreply, hlast⟩ | ⟨hback, hnot⟩
    · rw [hback]
      by_cases hempty : (handler line master).1 = []
      · simp [hempty]
      · simp [hempty, Exchange.HeadersWhole, hwrite, hserver, hreply, hlast]
    · rw [if_pos hback]
      refine ⟨fun h => ?_, fun h => absurd h.2.2.2 hnot⟩
      exact absurd (congrArg Prod.fst h.2) Bool.false_ne_true
  · rw [serve_nothing hread]
    constructor
    · rintro ⟨hcommand, -⟩
      cases hcommand
    · intro h
      exact absurd ⟨h.2.1, h.2.2.1⟩ hnot

/-- A command and its response, each in chunks of four bytes. -/
theorem delivers_iff_whoami :
    Delivers (evenly 4) (commandHandler World.quietEnvironment) (str "whoami")
        { kernel := Kernel.start {} ∅ } ↔
      (commandHandler World.quietEnvironment (str "whoami") { kernel := Kernel.start {} ∅ }).1 ≠ [] ∧
        (evenly 4).HeadersWhole :=
  delivers_iff (by decide) (by decide) (by decide +kernel)

/-- A vertical tab is not blank for the client and no command for the kernel, whose empty
response is reported as a failure. -/
theorem empty_response_refused :
    let line := str "\x0b"
    let master : Master := { kernel := Kernel.start {} ∅ }
    line.all isSeparator = false ∧
      (master.kernel.executeRequest World.quietEnvironment ∅
        { rawLine := line, source := .remoteClient }).2.2 =
          { success := true, message := [], shouldExit := false } ∧
      (NamedPipeClient.sendCommand .opened (evenly 4096) (commandHandler World.quietEnvironment)
        line master).1 = false ∧
      (NamedPipeClient.sendCommand .opened (evenly 4096) (commandHandler World.quietEnvironment)
        line master).2.1 = str "[ERROR] Failed to receive response from Master." := by
  decide +kernel

end NamedPipe

end OSCoreSim
