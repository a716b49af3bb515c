import OSCoreSim.App.MasterEnd
import OSCoreSim.Lib.Fairness
/-!
# Whether the master ends

Under a schedule in which the threads of the master go on again and again, the process comes to its
end exactly if the worker, when it leaves its loop behind an `exit`, never leaves the request of the
server in the queue, and no client keeps the server waiting for ever.
-/

namespace OSCoreSim

def Caller.left : Caller → ℕ
  | idle | admitted _ => 9
  | waiting => 8
  | refused _ | answered _ => 7

theorem left_le (caller : Caller) : caller.left ≤ 9 := by
  cases caller <;> simp [Caller.left]

def Move.IsServer (move : Move) : Prop := ∃ ok handle, move = .server ok handle

def Move.IsWorker (move : Move) : Prop := ∃ env, move = .kernel (.work env)

def Move.IsScheduler (move : Move) : Prop := move = .kernel .tick

def Move.IsConsole (move : Move) : Prop := ∃ pipe, move = .console pipe

namespace MasterProcess

variable {m : MasterProcess} {move : Move}

structure Healthy (m : MasterProcess) : Prop where
  owned : Owned m
  process : Regular m
  reached : Reached m
  kernel : Threads.Regular m.threads

theorem healthy_start (w : World) : Healthy (start w) where
  owned := owned_start w
  process := regular_start w
  reached := fun hwoken => absurd rfl hwoken.1
  kernel := Threads.regular_start w

theorem Healthy.next (h : Healthy m) (hok : m.Documented move) : Healthy (m.next move) where
  owned := h.owned.next hok
  process := h.process.next move
  reached := h.reached.next h.owned h.process.ordered hok
  kernel := threads_keeps (fun _ act h => h.next act) h.kernel move

def Stalled (m : MasterProcess) : Prop :=
  (∃ pipe, m.server = .awaiting pipe) ∧ m.threads.callers m.call = .waiting ∧
    m.threads.promises m.call = none

def Answered (m : MasterProcess) : Prop :=
  (∃ pipe, m.server = .awaiting pipe) ∧ m.threads.callers m.call = .waiting ∧
    (m.threads.promises m.call).isSome

/-- The server waits for its client, to send in `ReadFile` or to read behind `WriteFile`. -/
def Waits (m : MasterProcess) : Prop :=
  (∃ pipe, m.server = .reading pipe ∧ m.pipes.readMessage pipe = none) ∨
    ∃ pipe response, m.server = .writing pipe response ∧ m.pipes.flushed pipe = false

/-- The worker does not leave its loop behind an `exit` with the request of the server in the
queue. -/
def Spares (m : MasterProcess) (move : Move) : Prop :=
  move.IsWorker → m.threads.worker = .closing → m.call ∉ m.threads.queued

def Keeps (m : MasterProcess) : Prop := m.threads.worker.Done → m.call ∉ m.threads.queued

/-! ## The server behind the connection that wakes it -/

/-- The steps that the server takes at most to its end. -/
def serverLeft (m : MasterProcess) : ℕ :=
  match m.server with
  | .returned => 0
  | .leaving _ => 1
  | .checking _ | .connected _ => 2
  | .creating | .retrying | .rescuing => 3
  | .recreating | .replacing _ _ => 4
  | .dropping _ | .preparing _ => 5
  | .connecting _ | .writing _ _ => 6
  | .awaiting _ => (m.threads.callers m.call).left
  | .calling _ _ => 10
  | .reading _ => 11

theorem serverLeft_congr {m' : MasterProcess} (hserver : m'.server = m.server)
    (hcalls : m'.calls = m.calls)
    (hcallers : ∀ k, m'.threads.callers (2 * k + 1) = m.threads.callers (2 * k + 1)) :
    m'.serverLeft = m.serverLeft := by
  unfold serverLeft call
  rw [hserver, hcalls, hcallers]

theorem left_of_settled {caller : Caller} (h : caller.settled = true) : caller.left = 7 := by
  cases caller with
  | refused | answered => rfl
  | idle | admitted | waiting => cases h

/-- The server waits for the kernel or for its client. -/
def Blocked (m : MasterProcess) : Prop := Stalled m ∨ Waits m

/-- A woken server that does not wait comes nearer to its end. -/
theorem serve_lower (h : Healthy m) (hwoken : Woken m) (hserver : m.server ≠ .returned)
    (hfree : ¬Blocked m) (ok : Bool) (handle : ℕ) :
    (m.serve ok handle).serverLeft < m.serverLeft := by
  have hhalted := h.process.ordered.cleared hwoken.1
  cases hplace : m.server with
  | returned => exact absurd hplace hserver
  | awaiting pipe =>
    cases hcaller : m.threads.callers m.call with
    | idle =>
      exact absurd hcaller (h.process.booked.here.mp ⟨pipe, hplace⟩)
    | admitted request =>
      rw [serve_push hplace ok handle hcaller]
      have hpush := Threads.push_callers hcaller
      simp only [serverLeft, hplace, hcaller]
      change ((m.threads.push m.call).callers m.call).left < 9
      rcases hpush with hwaiting | hsettled
      · rw [hwaiting]
        decide
      · rw [left_of_settled hsettled]
        decide
    | waiting =>
      cases hpromise : m.threads.promises m.call with
      | none => exact absurd (.inl ⟨⟨pipe, hplace⟩, hcaller, hpromise⟩) hfree
      | some response =>
        rw [serve_receive hplace ok handle hcaller]
        have hreceive := Threads.receive_callers hcaller
        rw [hpromise] at hreceive
        simp only [serverLeft, hplace, hcaller]
        change ((m.threads.receive m.call).callers m.call).left < 8
        rw [hreceive]
        exact Nat.lt_succ_self 7
    | refused response | answered response =>
      obtain ⟨text, hback⟩ := serve_back hplace ok handle (hcaller ▸ rfl)
      rw [hback]
      simp only [serverLeft, hplace, hcaller]
      exact Nat.lt_succ_self 6
  | calling pipe line =>
    simp only [serve, serverLeft, hplace]
    exact Nat.lt_succ_of_le (left_le _)
  | connecting pipe =>
    cases pipe with
    | none =>
      simp only [serve, serverLeft, hplace]
      exact Nat.lt_succ_self 5
    | some pipe =>
      have hclient := h.reached hwoken pipe hplace
      cases ok with
      | false =>
        simp only [serve, serverLeft, hplace]
        exact Nat.lt_succ_self 5
      | true => simp [serve, serverLeft, hplace, hclient]
  | creating | recreating | preparing pipe =>
    cases ok with
    | false => simp [serve, serverLeft, hplace, Pipes.createNamedPipe]
    | true => simp [serve, serverLeft, hplace, Pipes.createNamedPipe]
  | checking pipe | connected pipe => simp [serve, serverLeft, hplace, hhalted]
  | reading pipe =>
    cases hread : m.pipes.readMessage pipe with
    | none => exact absurd (.inr (.inl ⟨pipe, hplace, hread⟩)) hfree
    | some command =>
      cases ok with
      | false => simp [serve, serverLeft, hplace]
      | true =>
        by_cases hempty : command = []
        · simp [serve, serverLeft, hplace, hread, hempty]
        · simp [serve, serverLeft, hplace, hread, hempty]
  | writing pipe response =>
    cases hflushed : m.pipes.flushed pipe with
    | false => exact absurd (.inr (.inr ⟨pipe, response, hplace, hflushed⟩)) hfree
    | true => simp [serve, serverLeft, hplace, hflushed]
  | replacing pipe next =>
    cases next with
    | none => simp [serve, serverLeft, hplace]
    | some next => simp [serve, serverLeft, hplace]
  | dropping | retrying | rescuing | leaving => simp [serve, serverLeft, hplace]

/-- A server that waits stays where it is, or its call on the pipe fails. -/
theorem serve_blocked (h : Blocked m) (ok : Bool) (handle : ℕ) :
    (m.serve ok handle).serverLeft ≤ m.serverLeft := by
  rcases h with ⟨⟨pipe, hplace⟩, hcaller, hpromise⟩ | ⟨pipe, hplace, hread⟩ |
    ⟨pipe, response, hplace, hflushed⟩
  · rw [serve_receive hplace ok handle hcaller]
    have hwaits : m.threads.next (.receive m.call) = m.threads := by
      simp [Threads.next, Threads.receive, hcaller, hpromise]
    rw [hwaits]
    exact Nat.le_of_eq (serverLeft_congr hplace.symm rfl fun _ => rfl)
  · cases ok with
    | false => simp [serve, serverLeft, hplace]
    | true => simp [serve, hplace, hread]
  · cases ok with
    | false => simp [serve, serverLeft, hplace]
    | true => simp [serve, hplace, hflushed]

theorem next_frame (hserver : ¬move.IsServer) :
    (m.next move).server = m.server ∧ (m.next move).calls = m.calls ∧
      ∀ k, (m.next move).threads.callers (2 * k + 1) = m.threads.callers (2 * k + 1) := by
  cases move with
  | server ok handle => exact absurd ⟨ok, handle, rfl⟩ hserver
  | client => exact ⟨rfl, rfl, fun _ => rfl⟩
  | kernel act =>
    unfold MasterProcess.next
    dsimp only
    split
    next hforeign => exact ⟨rfl, rfl, callers_foreign hforeign m.threads⟩
    next => exact ⟨rfl, rfl, fun _ => rfl⟩
  | console pipe =>
    unfold MasterProcess.next leave
    dsimp only
    split
    · exact ⟨rfl, rfl, fun _ => rfl⟩
    · exact ⟨rfl, rfl, fun _ => rfl⟩
    · exact ⟨rfl, rfl, fun _ => rfl⟩
    · split <;> exact ⟨rfl, rfl, fun _ => rfl⟩
    · have hcallers : ∀ c, (m.threads.next .stop).callers c = m.threads.callers c := fun c =>
        Threads.next_callers fun hcall => by cases hcall
      exact ⟨rfl, rfl, fun k => hcallers (2 * k + 1)⟩
    · exact ⟨rfl, rfl, fun _ => rfl⟩

theorem next_pipes (hserver : ¬move.IsServer) :
    (m.next move).pipes = m.pipes ∨
      ∃ writing act, (m.next move).pipes = m.pipes.act writing act := by
  cases move with
  | server ok handle => exact absurd ⟨ok, handle, rfl⟩ hserver
  | client act => exact .inr ⟨_, act, rfl⟩
  | kernel act =>
    unfold MasterProcess.next
    dsimp only
    split <;> exact .inl rfl
  | console pipe =>
    unfold MasterProcess.next leave
    dsimp only
    split
    · exact .inl rfl
    · exact .inr ⟨none, .connect pipe, rfl⟩
    · exact .inr ⟨none, .close _, rfl⟩
    · split <;> exact .inl rfl
    · exact .inl rfl
    · exact .inl rfl

/-- Nobody else makes the server wait. -/
theorem blocked_next (hserver : ¬move.IsServer) (h : Blocked (m.next move)) : Blocked m := by
  obtain ⟨hsame, hcalls, hcallers⟩ := next_frame (m := m) hserver
  have hcall : (m.next move).call = m.call := by rw [call, hcalls, call]
  rcases h with ⟨⟨pipe, hplace⟩, hcaller, hpromise⟩ | ⟨pipe, hplace, hread⟩ |
    ⟨pipe, response, hplace, hflushed⟩
  · rw [hsame] at hplace
    rw [hcall] at hcaller hpromise
    refine .inl ⟨⟨pipe, hplace⟩, (hcallers m.calls).symm.trans hcaller, ?_⟩
    by_contra hanswer
    have hstill : ((m.next move).threads.promises m.call).isSome :=
      threads_keeps (P := fun s => (s.promises m.call).isSome)
        (fun _ act h => Threads.next_promises h act) (Option.isSome_iff_ne_none.mpr hanswer) move
    rw [hpromise] at hstill
    cases hstill
  · rw [hsame] at hplace
    refine .inr (.inl ⟨pipe, hplace, ?_⟩)
    rw [Pipes.readMessage_eq_none] at hread ⊢
    rw [← Bool.not_eq_true] at hread ⊢
    rcases next_pipes (m := m) hserver with heq | ⟨writing, act, heq⟩
    · rwa [heq] at hread
    · exact fun hspoken => hread (heq ▸ Pipes.act_spoken hspoken writing act)
  · rw [hsame] at hplace
    refine .inr (.inr ⟨pipe, response, hplace, ?_⟩)
    unfold Pipes.flushed at hflushed ⊢
    rw [← Bool.not_eq_true] at hflushed ⊢
    rcases next_pipes (m := m) hserver with heq | ⟨writing, act, heq⟩
    · rwa [heq] at hflushed
    · exact fun hdone => hflushed (heq ▸ Pipes.act_done hdone writing act)

/-- Behind the connection the server never gets farther away from its end. -/
theorem serverLeft_next (h : Healthy m) (hwoken : Woken m) (move : Move) :
    (m.next move).serverLeft ≤ m.serverLeft := by
  by_cases hmove : move.IsServer
  · obtain ⟨ok, handle, rfl⟩ := hmove
    change (m.serve ok handle).serverLeft ≤ m.serverLeft
    by_cases hblocked : Blocked m
    · exact serve_blocked hblocked ok handle
    by_cases hreturned : m.server = .returned
    · simp only [serve, hreturned]
      exact Nat.le_refl _
    · exact Nat.le_of_lt (serve_lower h hwoken hreturned hblocked ok handle)
  · obtain ⟨hsame, hcalls, hcallers⟩ := next_frame (m := m) hmove
    exact Nat.le_of_eq (serverLeft_congr hsame hcalls hcallers)

/-! ## The server and the worker -/

theorem not_work_of_acts (h : ¬∃ act, move = .kernel act) : ∀ act ∈ m.acts move, ∀ env,
    act ≠ .work env := by
  cases move with
  | kernel act => exact absurd ⟨act, rfl⟩ h
  | client => exact fun act hmem => by cases hmem
  | console =>
    unfold acts
    dsimp only
    split
    · simp
    · simp
  | server ok command =>
    rintro act hmem env rfl
    cases caller_of_ask hmem

theorem worker_next (h : ¬∃ act, move = .kernel act) :
    (m.next move).threads.worker = m.threads.worker := by
  have hacts : ∀ (acts : List Act) (s : Threads), (∀ act ∈ acts, ∀ env, act ≠ .work env) →
      (Runs.run Threads.next s acts).worker = s.worker := by
    intro acts
    induction acts with
    | nil => exact fun _ _ => rfl
    | cons act acts ih =>
      intro s hall
      have hrest := ih (s.next act) fun act hmem => hall act (List.mem_cons_of_mem _ hmem)
      exact hrest.trans (Threads.next_worker (hall act List.mem_cons_self))
  rw [threads_next]
  exact hacts _ _ (not_work_of_acts h)

theorem next_done (h : Threads.Regular m.threads) (hdone : m.threads.worker.Done) (move : Move) :
    (m.next move).threads.worker.Done ∧ (m.next move).threads.queued = m.threads.queued := by
  have hstep : ∀ (s : Threads) (act : Act), s.worker.Done →
      s.requestQueue.shutdownRequested = true →
      (s.next act).worker.Done ∧ (s.next act).requestQueue = s.requestQueue := by
    intro s act hs hdown
    by_cases hwork : ∀ env, act ≠ .work env
    · rw [Threads.next_worker hwork, Threads.next_requestQueue hwork hdown]
      exact ⟨hs, rfl⟩
    · obtain ⟨env, rfl⟩ : ∃ env, act = .work env := by simpa using hwork
      obtain ⟨hend, hqueue⟩ := Threads.work_done hs env
      exact ⟨.inr hend, hqueue⟩
  have hrun : (m.next move).threads.worker.Done ∧
      (m.next move).threads.requestQueue = m.threads.requestQueue := by
    refine threads_keeps (P := fun s => s.worker.Done ∧
      s.requestQueue = m.threads.requestQueue) (fun s act hs => ?_) ⟨hdone, rfl⟩ move
    have hdown := h.down hdone
    rw [← hs.2] at hdown
    obtain ⟨hend, hqueue⟩ := hstep s act hs.1 hdown
    exact ⟨hend, hqueue.trans hs.2⟩
  exact ⟨hrun.1, congrArg (fun queue => queue.values.map Prod.fst) hrun.2⟩

theorem Healthy.stalled_of_queued (h : Healthy m) (hmem : m.call ∈ m.threads.queued) :
    Stalled m := by
  obtain ⟨hcaller, hpromise⟩ := h.kernel.waiting_of_queued hmem
  refine ⟨h.process.booked.here.mpr ?_, hcaller, hpromise⟩
  rw [hcaller]
  exact fun heq => Caller.noConfusion heq

theorem calls_of_awaiting {ok : Bool} {handle : ℕ}
    (h : ∃ pipe, (m.serve ok handle).server = .awaiting pipe) :
    (m.serve ok handle).calls = m.calls := by
  by_cases hawaiting : ∃ pipe, m.server = .awaiting pipe
  · obtain ⟨pipe, hserver⟩ := hawaiting
    revert h
    unfold serve
    rw [hserver]
    dsimp only
    split
    · exact fun ⟨_, heq⟩ => ServerLoop.noConfusion heq
    · exact fun ⟨_, heq⟩ => ServerLoop.noConfusion heq
    · exact fun _ => rfl
  by_cases hcalling : ∃ pipe line, m.server = .calling pipe line
  · obtain ⟨pipe, line, hserver⟩ := hcalling
    unfold serve
    rw [hserver]
  · exact (serve_outside (fun pipe line heq => hcalling ⟨pipe, line, heq⟩)
      (fun pipe heq => hawaiting ⟨pipe, heq⟩) ok handle).2.1

theorem Keeps.next (h : Keeps m) (hhealthy : Healthy m) (hok : m.Documented move)
    (hspares : m.Spares move) : Keeps (m.next move) := by
  intro hdone hmem
  obtain ⟨hserver, -⟩ := (hhealthy.next hok).stalled_of_queued hmem
  have hcalls : (m.next move).calls = m.calls := by
    by_cases hmove : move.IsServer
    · obtain ⟨ok, handle, rfl⟩ := hmove
      exact calls_of_awaiting hserver
    · exact (next_frame hmove).2.1
  have hcall : (m.next move).call = m.call := by rw [call, hcalls, call]
  rw [hcall] at hmem
  by_cases hbefore : m.threads.worker.Done
  · rw [(next_done hhealthy.kernel hbefore move).2] at hmem
    exact h hbefore hmem
  by_cases hkernel : ∃ act, move = .kernel act
  · obtain ⟨act, rfl⟩ := hkernel
    unfold MasterProcess.next at hdone hmem
    dsimp only at hdone hmem
    split at hdone
    next hforeign =>
      rw [if_pos hforeign] at hmem
      by_cases hwork : ∀ env, act ≠ .work env
      · exact hbefore (Threads.next_worker hwork ▸ hdone)
      obtain ⟨env, rfl⟩ : ∃ env, act = .work env := by simpa using hwork
      obtain ⟨-, hnone | ⟨hclosing, hqueue⟩⟩ := Threads.left_loop hbefore hdone
      · exact List.not_mem_nil (hnone ▸ hmem)
      · exact hspares ⟨env, rfl⟩ hclosing (hqueue ▸ hmem)
    next => exact hbefore hdone
  · rw [worker_next hkernel] at hdone
    exact hbefore hdone

theorem Stalled.frame (h : Stalled m) (hhealthy : Healthy m) (hmove : ¬∃ act, move = .kernel act) :
    (m.next move).threads = m.threads ∧ (m.next move).server = m.server ∧
      (m.next move).calls = m.calls := by
  obtain ⟨⟨pipe, hserver⟩, hcaller, hpromise⟩ := h
  cases move with
  | kernel act => exact absurd ⟨act, rfl⟩ hmove
  | client => exact ⟨rfl, rfl, rfl⟩
  | server ok handle =>
    have hwaits : m.threads.next (.receive m.call) = m.threads := by
      simp [Threads.next, Threads.receive, hcaller, hpromise]
    change (m.serve ok handle).threads = _ ∧ (m.serve ok handle).server = _ ∧
      (m.serve ok handle).calls = _
    rw [serve_receive hserver ok handle hcaller]
    exact ⟨hwaits, hserver.symm, rfl⟩
  | console pipe =>
    have hopen : m.console ≠ .closing := fun heq => by
      have hreturned := hhealthy.process.ordered.returned (.inl heq)
      rw [hserver] at hreturned
      cases hreturned
    unfold MasterProcess.next leave
    dsimp only
    split
    · exact ⟨rfl, rfl, rfl⟩
    · exact ⟨rfl, rfl, rfl⟩
    · exact ⟨rfl, rfl, rfl⟩
    · split <;> exact ⟨rfl, rfl, rfl⟩
    next hclosing => exact absurd hclosing hopen
    · exact ⟨rfl, rfl, rfl⟩

/-- A stalled server gets its answer, or the worker has come nearer to it. -/
theorem stalled_next (hhealthy : Healthy m) (hkeeps : Keeps m) (h : Stalled m)
    (hspares : m.Spares move) :
    Answered (m.next move) ∨ Stalled (m.next move) ∧
      (m.next move).threads.answerLeft (m.next move).call ≤ m.threads.answerLeft m.call ∧
      (move.IsWorker →
        (m.next move).threads.answerLeft (m.next move).call < m.threads.answerLeft m.call) := by
  by_cases hkernel : ∃ act, move = .kernel act
  · obtain ⟨act, rfl⟩ := hkernel
    unfold MasterProcess.next
    dsimp only
    split
    next hforeign =>
      obtain ⟨hserver, hcaller, hpromise⟩ := h
      have hcaller' : (m.threads.next act).callers m.call = .waiting :=
        (callers_foreign hforeign m.threads m.calls).trans hcaller
      cases hpromise' : (m.threads.next act).promises m.call with
      | some response => exact .inl ⟨hserver, hcaller', Option.isSome_of_eq_some hpromise'⟩
      | none =>
        refine .inr ⟨⟨hserver, hcaller', hpromise'⟩, ?_⟩
        by_cases hwork : ∀ env, act ≠ .work env
        · have hsame := Threads.answerLeft_next hhealthy.kernel hcaller hpromise hwork
          refine ⟨Nat.le_of_eq hsame, ?_⟩
          rintro ⟨env, heq⟩
          cases heq
          exact absurd rfl (hwork env)
        · obtain ⟨env, rfl⟩ : ∃ env, act = .work env := by simpa using hwork
          have hkeep : m.threads.Keeps m.call := fun hplace =>
            hplace.elim (hspares ⟨env, rfl⟩) hkeeps
          rcases Threads.answerLeft_work hhealthy.kernel hcaller hpromise hkeep env with
            hanswer | hlower
          · have hnone : (m.threads.work env).promises m.call = none := hpromise'
            rw [hnone] at hanswer
            cases hanswer
          · exact ⟨Nat.le_of_lt hlower, fun _ => hlower⟩
    next hown =>
      refine .inr ⟨h, Nat.le_refl _, ?_⟩
      rintro ⟨env, heq⟩
      cases heq
      exact absurd rfl hown
  · obtain ⟨hthreads, hserver, hcalls⟩ := h.frame hhealthy hkernel
    have hcall : (m.next move).call = m.call := by rw [call, hcalls, call]
    refine .inr ⟨?_, ?_, ?_⟩
    · unfold Stalled
      rw [hserver, hcall, hthreads]
      exact h
    · rw [hcall, hthreads]
    · rintro ⟨env, rfl⟩
      exact absurd ⟨_, rfl⟩ hkernel

/-! ## The phases of the end -/

theorem console_next (h : ¬move.IsConsole) : (m.next move).console = m.console := by
  cases move with
  | console pipe => exact absurd ⟨pipe, rfl⟩ h
  | client => rfl
  | server ok handle => exact (serve_frame m ok handle).2
  | kernel act =>
    unfold MasterProcess.next
    dsimp only
    split <;> rfl

/-- The steps of the console to the connection that wakes the server. -/
def wakeLeft (m : MasterProcess) : ℕ :=
  match m.console with
  | .prompt => 2
  | .waking => 1
  | .hangingUp _ | .joining | .closing | .ended => 0

theorem wakeLeft_console (hwoken : ¬Woken m) (pipe : ℕ) :
    (m.next (.console pipe)).wakeLeft < m.wakeLeft := by
  unfold MasterProcess.next leave wakeLeft
  cases hconsole : m.console with
  | prompt => exact Nat.lt_succ_self 1
  | waking =>
    by_cases hfree : m.pipes.Free pipe
    · simp [hfree]
    · simp [hfree]
  | hangingUp | joining | closing | ended => exact absurd (by simp [Woken, hconsole]) hwoken

theorem wakeLeft_of_woken (h : Woken m) : m.wakeLeft = 0 := by
  unfold wakeLeft
  cases hconsole : m.console with
  | prompt => exact absurd hconsole h.1
  | waking => exact absurd hconsole h.2
  | hangingUp | joining | closing | ended => rfl

theorem wakeLeft_next (m : MasterProcess) (move : Move) : (m.next move).wakeLeft ≤ m.wakeLeft := by
  by_cases hwoken : Woken m
  · rw [wakeLeft_of_woken (hwoken.next move)]
    exact Nat.zero_le _
  by_cases hmove : move.IsConsole
  · obtain ⟨pipe, rfl⟩ := hmove
    exact Nat.le_of_lt (wakeLeft_console hwoken pipe)
  · rw [wakeLeft, wakeLeft, console_next hmove]

def joinLeft (m : MasterProcess) : ℕ :=
  match m.console with
  | .hangingUp _ => 1
  | _ => 0

/-! ## The kernel behind the server -/

def Closing (m : MasterProcess) : Prop := m.console = .closing ∨ m.console = .ended

def Joins (m : MasterProcess) : Prop := m.console = .closing ∧ m.threads.Stopping

theorem stopper_next (h : ¬move.IsConsole) :
    (m.next move).threads.stopper = m.threads.stopper := by
  cases move with
  | console pipe => exact absurd ⟨pipe, rfl⟩ h
  | client => rfl
  | server ok handle => exact (serve_stopper m ok handle).1
  | kernel act =>
    unfold MasterProcess.next
    dsimp only
    split
    next hforeign =>
      exact (Threads.next_stopper (Act.isStop_of_foreign hforeign)).1
    next => rfl

theorem next_closing (h : m.console = .closing) (pipe : ℕ) :
    (m.next (.console pipe)).threads = m.threads.stop ∧ (m.next (.console pipe)).console =
      if m.threads.stop.stopper = .outside then .ended else .closing := by
  unfold MasterProcess.next leave
  dsimp only
  rw [h]
  exact ⟨rfl, rfl⟩

theorem ended_next (h : m.console = .ended) (move : Move) : (m.next move).console = .ended := by
  by_cases hmove : move.IsConsole
  · obtain ⟨pipe, rfl⟩ := hmove
    unfold MasterProcess.next leave
    dsimp only
    rw [h]
    exact h
  · rw [console_next hmove]
    exact h

theorem Closing.next (h : Closing m) (move : Move) : Closing (m.next move) := by
  by_cases hmove : move.IsConsole
  · obtain ⟨pipe, rfl⟩ := hmove
    rcases h with hclosing | hended
    · have hconsole := (next_closing hclosing pipe).2
      unfold Closing
      rw [hconsole]
      split
      · exact .inr rfl
      · exact .inl rfl
    · exact .inr (ended_next hended (.console pipe))
  · unfold Closing
    rw [console_next hmove]
    exact h

theorem stopping_next (h : m.threads.Stopping) (move : Move) : (m.next move).threads.Stopping :=
  threads_keeps (fun _ act h => h.next act) h move

theorem Joins.next (h : Joins m) (move : Move) :
    (m.next move).console = .ended ∨ Joins (m.next move) := by
  have hclosing : Closing m := .inl h.1
  rcases hclosing.next move with hplace | hended
  · exact .inr ⟨hplace, stopping_next h.2 move⟩
  · exact .inl hended

theorem terminated_next (h : m.threads.worker = .terminated) (move : Move) :
    (m.next move).threads.worker = .terminated :=
  threads_keeps (P := fun s => s.worker = .terminated)
    (fun _ act h => Threads.next_terminated h act) h move

theorem workLeft_next (h : Joins m) (move : Move) :
    (m.next move).threads.workLeft ≤ m.threads.workLeft := by
  have hboth : (m.next move).threads.requestQueue.shutdownRequested = true ∧
      (m.next move).threads.workLeft ≤ m.threads.workLeft :=
    threads_keeps (P := fun s => s.requestQueue.shutdownRequested = true ∧
        s.workLeft ≤ m.threads.workLeft)
      (fun s act hs => ⟨Threads.next_shutdown hs.1 act,
        Nat.le_trans (Threads.workLeft_next hs.1 act) hs.2⟩) ⟨h.2.down, Nat.le_refl _⟩ move
  exact hboth.2

theorem alone_next (h : m.threads.Alone) (move : Move) : (m.next move).threads.Alone :=
  threads_keeps (fun _ act h => h.next act) h move

theorem schedulerLeft_next (h : Joins m) (move : Move) :
    (m.next move).threads.schedulerLeft ≤ m.threads.schedulerLeft := by
  have hboth : (m.next move).threads.shuttingDown = true ∧
      (m.next move).threads.schedulerLeft ≤ m.threads.schedulerLeft :=
    threads_keeps (P := fun s => s.shuttingDown = true ∧
        s.schedulerLeft ≤ m.threads.schedulerLeft)
      (fun s act hs => ⟨Threads.next_shuttingDown hs.1 act,
        Nat.le_trans (Threads.schedulerLeft_next hs.1 act) hs.2⟩) ⟨h.2.flag, Nat.le_refl _⟩ move
  exact hboth.2

theorem begin_console (hhealthy : Healthy m) (hclosing : Closing m)
    (hgoal : ¬(m.console = .ended ∨ Joins m)) (pipe : ℕ) :
    Joins (m.next (.console pipe)) ∨
      (m.next (.console pipe)).threads.beginLeft < m.threads.beginLeft := by
  have hplace : m.console = .closing := hclosing.resolve_right fun heq => hgoal (.inl heq)
  obtain ⟨hthreads, hconsole⟩ := next_closing hplace pipe
  have hopen : ¬m.threads.Stopping := fun hstopping => hgoal (.inr ⟨hplace, hstopping⟩)
  rcases hhealthy.kernel.orderly with ⟨houtside, hstarted⟩ | ⟨hshutting, hflag⟩ | hstopping
  · refine .inr ?_
    rw [hthreads]
    simp [Threads.beginLeft, Threads.stop, houtside, hstarted]
  · refine .inl ⟨?_, ?_⟩
    · rw [hconsole]
      simp [Threads.stop, hshutting]
    · rw [hthreads]
      simp only [Threads.stop, hshutting]
      exact ⟨hflag, rfl, .scheduler rfl⟩
  · exact absurd hstopping hopen

theorem stopLeft_ne_zero (hhealthy : Healthy m) (hjoins : Joins m) : m.threads.stopLeft ≠ 0 := by
  obtain ⟨hplace, hstopping⟩ := hjoins
  unfold Threads.stopLeft
  cases hstopping.joining with
  | scheduler h | worker h | finishing h => simp [h]
  | closed h =>
    have hstarted := hhealthy.process.ordered.begins hplace h.stopper
    rw [h.started] at hstarted
    cases hstarted

/-! ## Progress -/

section

variable {w : World} {schedule : ℕ → Move} {n k : ℕ}

abbrev moment (w : World) (schedule : ℕ → Move) : ℕ → MasterProcess :=
  Runs.trace next (start w) schedule

/-- The console leaves its loop and wakes the server. -/
theorem eventually_woken (hconsole : Runs.Recurs Move.IsConsole schedule) (n : ℕ) :
    ∃ k, n ≤ k ∧ Woken (moment w schedule k) := by
  refine Runs.eventually_of_variant (A := fun _ _ => True) (P := fun _ => True) (m := wakeLeft)
    hconsole (fun _ => trivial) (fun m move _ _ _ => .inr ⟨trivial, wakeLeft_next m move⟩) ?_
    trivial
  rintro m move - hwoken - ⟨pipe, rfl⟩
  exact .inr (wakeLeft_console hwoken pipe)

theorem woken_moment (h : Woken (moment w schedule n)) (hk : n ≤ k) :
    Woken (moment w schedule k) :=
  Runs.trace_invariant (A := fun _ _ => True) (fun _ move h _ => h.next move) h
    (fun _ => trivial) hk

theorem eventually_closing (hconsole : Runs.Recurs Move.IsConsole schedule)
    (hwoken : Woken (moment w schedule n)) (hreturned : (moment w schedule n).server = .returned) :
    ∃ k, n ≤ k ∧ Closing (moment w schedule k) := by
  refine Runs.eventually_of_variant (A := fun _ _ => True)
    (P := fun m => Woken m ∧ m.server = .returned) (Q := Closing) (m := joinLeft) hconsole
    (fun _ => trivial) ?_ ?_ ⟨hwoken, hreturned⟩
  · rintro m move ⟨hwoken, hreturned⟩ hgoal -
    refine .inr ⟨⟨hwoken.next move, (callers_of_returned hreturned move 0).1⟩, ?_⟩
    by_cases hmove : move.IsConsole
    · obtain ⟨pipe, rfl⟩ := hmove
      unfold MasterProcess.next leave joinLeft
      cases hplace : m.console with
      | prompt => exact absurd hplace hwoken.1
      | waking => exact absurd hplace hwoken.2
      | hangingUp => exact Nat.zero_le 1
      | joining => simp [hreturned]
      | closing => exact absurd (.inl hplace) hgoal
      | ended => exact absurd (.inr hplace) hgoal
    · rw [joinLeft, joinLeft, console_next hmove]
  · rintro m move ⟨hwoken, hreturned⟩ hgoal - ⟨pipe, rfl⟩
    unfold MasterProcess.next leave joinLeft
    cases hplace : m.console with
    | prompt => exact absurd hplace hwoken.1
    | waking => exact absurd hplace hwoken.2
    | hangingUp => exact .inr (Nat.lt_succ_self 0)
    | joining =>
      refine .inl ?_
      dsimp only
      rw [if_pos hreturned]
      exact .inl rfl
    | closing => exact absurd (.inl hplace) hgoal
    | ended => exact absurd (.inr hplace) hgoal

theorem eventually_terminated (hworker : Runs.Recurs Move.IsWorker schedule)
    (hjoins : Joins (moment w schedule n)) :
    ∃ k, n ≤ k ∧ ((moment w schedule k).console = .ended ∨
      Joins (moment w schedule k) ∧ (moment w schedule k).threads.worker = .terminated) := by
  refine Runs.eventually_of_variant (A := fun _ _ => True) (P := Joins)
    (Q := fun m => m.console = .ended ∨ Joins m ∧ m.threads.worker = .terminated)
    (m := fun m => m.threads.workLeft) hworker (fun _ => trivial) ?_ ?_ hjoins
  · rintro m move hjoins hgoal -
    rcases hjoins.next move with hended | hjoins'
    · exact .inl (.inl hended)
    · exact .inr ⟨hjoins', workLeft_next hjoins move⟩
  · rintro m move hjoins hgoal - ⟨env, rfl⟩
    have hlower := Threads.workLeft_work hjoins.2.down env
    have hpos : m.threads.workLeft ≠ 0 := fun hzero =>
      hgoal (.inr ⟨hjoins, Threads.workLeft_eq_zero.mp hzero⟩)
    refine .inr ?_
    change (m.threads.work env).workLeft < m.threads.workLeft
    omega

theorem eventually_alone (hscheduler : Runs.Recurs Move.IsScheduler schedule)
    (hjoins : Joins (moment w schedule n))
    (hworker : (moment w schedule n).threads.worker = .terminated) :
    ∃ k, n ≤ k ∧ ((moment w schedule k).console = .ended ∨
      (moment w schedule k).console = .closing ∧ (moment w schedule k).threads.Alone) := by
  refine Runs.eventually_of_variant (A := fun _ _ => True)
    (P := fun m => Joins m ∧ m.threads.worker = .terminated)
    (Q := fun m => m.console = .ended ∨ m.console = .closing ∧ m.threads.Alone)
    (m := fun m => m.threads.schedulerLeft) hscheduler (fun _ => trivial) ?_ ?_ ⟨hjoins, hworker⟩
  · rintro m move ⟨hjoins, hworker⟩ hgoal -
    rcases hjoins.next move with hended | hjoins'
    · exact .inl (.inl hended)
    · exact .inr ⟨⟨hjoins', terminated_next hworker move⟩, schedulerLeft_next hjoins move⟩
  · rintro m move ⟨hjoins, hworker⟩ hgoal - rfl
    have hlower := Threads.schedulerLeft_tick hjoins.2.flag
    have hpos : m.threads.schedulerLeft ≠ 0 := fun hzero =>
      hgoal (.inr ⟨hjoins.1, hjoins.2, Threads.schedulerLeft_eq_zero.mp hzero, hworker⟩)
    refine .inr ?_
    change (m.threads.next .tick).schedulerLeft < m.threads.schedulerLeft
    omega

section

variable (hsystem : ∀ n, (moment w schedule n).Documented (schedule n))
include hsystem

theorem healthy_moment (n : ℕ) : Healthy (moment w schedule n) :=
  Runs.trace_invariant (A := Documented) (fun _ _ h hok => h.next hok)
    (show Healthy (moment w schedule 0) from healthy_start w) hsystem (Nat.zero_le n)

theorem keeps_moment (hspares : ∀ n, (moment w schedule n).Spares (schedule n)) (n : ℕ) :
    Keeps (moment w schedule n) := by
  have hstart : Keeps (moment w schedule 0) := fun hdone => by
    rcases hdone with hdone | hdone <;> cases hdone
  have hinit : Healthy (moment w schedule 0) ∧ Keeps (moment w schedule 0) :=
    ⟨healthy_start w, hstart⟩
  have hboth : Healthy (moment w schedule n) ∧ Keeps (moment w schedule n) :=
    Runs.trace_invariant (A := fun m move => m.Documented move ∧ m.Spares move)
      (P := fun m => Healthy m ∧ Keeps m)
      (fun m move h hok => ⟨h.1.next hok.1, h.2.next h.1 hok.1 hok.2⟩) hinit
      (fun n => ⟨hsystem n, hspares n⟩) (Nat.zero_le n)
  exact hboth.2

theorem serverLeft_moment (hwoken : Woken (moment w schedule n)) (hk : n ≤ k) :
    (moment w schedule k).serverLeft ≤ (moment w schedule n).serverLeft := by
  have hinit : Healthy (moment w schedule n) ∧ Woken (moment w schedule n) ∧
      (moment w schedule n).serverLeft ≤ (moment w schedule n).serverLeft :=
    ⟨healthy_moment hsystem n, hwoken, Nat.le_refl _⟩
  have hall := Runs.trace_invariant (A := Documented)
    (P := fun m => Healthy m ∧ Woken m ∧ m.serverLeft ≤ (moment w schedule n).serverLeft)
    (fun m move h hok => ⟨h.1.next hok, h.2.1.next move,
      Nat.le_trans (serverLeft_next h.1 h.2.1 move) h.2.2⟩) hinit hsystem hk
  exact hall.2.2

/-- The worker answers the server, as long as it does not leave it behind. -/
theorem eventually_answered (hworker : Runs.Recurs Move.IsWorker schedule)
    (hspares : ∀ n, (moment w schedule n).Spares (schedule n))
    (hstalled : Stalled (moment w schedule n)) :
    ∃ k, n ≤ k ∧ Answered (moment w schedule k) := by
  refine Runs.eventually_of_variant (A := fun m move => m.Documented move ∧ m.Spares move)
    (P := fun m => Healthy m ∧ Keeps m ∧ Stalled m) (m := fun m => m.threads.answerLeft m.call)
    hworker (fun n => ⟨hsystem n, hspares n⟩) ?_ ?_
    ⟨healthy_moment hsystem n, keeps_moment hsystem hspares n, hstalled⟩
  · rintro m move ⟨hhealthy, hkeeps, hstalled⟩ - ⟨hok, hspares⟩
    rcases stalled_next hhealthy hkeeps hstalled hspares with hanswered | ⟨hstalled', hle, -⟩
    · exact .inl hanswered
    · exact .inr ⟨⟨hhealthy.next hok, hkeeps.next hhealthy hok hspares, hstalled'⟩, hle⟩
  · rintro m move ⟨hhealthy, hkeeps, hstalled⟩ - ⟨hok, hspares⟩ hwork
    rcases stalled_next hhealthy hkeeps hstalled hspares with hanswered | ⟨-, -, hlower⟩
    · exact .inl hanswered
    · exact .inr (hlower hwork)

theorem eventually_lower (hserver : Runs.Recurs Move.IsServer schedule)
    (hwoken : Woken (moment w schedule n)) (hreturned : (moment w schedule n).server ≠ .returned)
    (hfree : ¬Blocked (moment w schedule n)) :
    ∃ k, n ≤ k ∧ (moment w schedule k).serverLeft < (moment w schedule n).serverLeft := by
  let bound := (moment w schedule n).serverLeft
  refine Runs.eventually_of_variant (A := Documented)
    (P := fun m => Healthy m ∧ Woken m ∧ m.server ≠ .returned ∧ ¬Blocked m ∧ m.serverLeft = bound)
    (Q := fun m => m.serverLeft < bound) (m := fun _ => 0) hserver hsystem ?_ ?_
    ⟨healthy_moment hsystem n, hwoken, hreturned, hfree, rfl⟩
  · rintro m move ⟨hhealthy, hwoken, hreturned, hfree, heq⟩ - hok
    by_cases hmove : move.IsServer
    · obtain ⟨ok, handle, rfl⟩ := hmove
      exact .inl (heq ▸ serve_lower hhealthy hwoken hreturned hfree ok handle)
    · obtain ⟨hsame, hcalls, hcallers⟩ := next_frame (m := m) hmove
      refine .inr ⟨⟨hhealthy.next hok, hwoken.next move, ?_, ?_, ?_⟩, Nat.le_refl 0⟩
      · rwa [hsame]
      · exact fun hblocked => hfree (blocked_next hmove hblocked)
      · exact (serverLeft_congr hsame hcalls hcallers).trans heq
  · rintro m move ⟨hhealthy, hwoken, hreturned, hfree, heq⟩ - - ⟨ok, handle, rfl⟩
    exact .inl (heq ▸ serve_lower hhealthy hwoken hreturned hfree ok handle)

/-- A server that waits goes on: the kernel answers, or the client moves. -/
theorem eventually_free (hworker : Runs.Recurs Move.IsWorker schedule)
    (hspares : ∀ n, (moment w schedule n).Spares (schedule n))
    (hclients : ∀ n, (moment w schedule n).Waits → ∃ k, n ≤ k ∧ ¬(moment w schedule k).Waits)
    (hwoken : Woken (moment w schedule n)) (hblocked : Blocked (moment w schedule n)) :
    ∃ k, n ≤ k ∧ ((moment w schedule k).serverLeft < (moment w schedule n).serverLeft ∨
      ¬Blocked (moment w schedule k)) := by
  rcases hblocked with hstalled | hwaits
  · obtain ⟨k, hk, ⟨pipe, hplace⟩, -, hpromise⟩ :=
      eventually_answered hsystem hworker hspares hstalled
    refine ⟨k, hk, .inr ?_⟩
    rintro (⟨-, -, hnone⟩ | ⟨_, hreading, -⟩ | ⟨_, _, hwriting, -⟩)
    · rw [hnone] at hpromise
      cases hpromise
    · rw [hplace] at hreading
      cases hreading
    · rw [hplace] at hwriting
      cases hwriting
  · obtain ⟨k, hk, hmoved⟩ := hclients n hwaits
    refine ⟨k, hk, ?_⟩
    by_cases hstalled : Stalled (moment w schedule k)
    · -- it has come to the kernel in the meantime, or would be farther away than before
      have hle := serverLeft_moment hsystem hwoken hk
      have hlater : (moment w schedule k).serverLeft = 8 := by
        obtain ⟨⟨pipe, hplace⟩, hcaller, -⟩ := hstalled
        simp only [serverLeft, hplace, hcaller, Caller.left]
      have hbefore : (moment w schedule n).serverLeft ≠ 8 := by
        rcases hwaits with ⟨pipe, hplace, -⟩ | ⟨pipe, response, hplace, -⟩
        · simp [serverLeft, hplace]
        · simp [serverLeft, hplace]
      exact .inl (by omega)
    · exact .inr fun hblocked => hblocked.elim hstalled hmoved

/-- The woken server returns. -/
theorem eventually_returned (hserver : Runs.Recurs Move.IsServer schedule)
    (hworker : Runs.Recurs Move.IsWorker schedule)
    (hspares : ∀ n, (moment w schedule n).Spares (schedule n))
    (hclients : ∀ n, (moment w schedule n).Waits → ∃ k, n ≤ k ∧ ¬(moment w schedule k).Waits)
    (hwoken : Woken (moment w schedule n)) :
    ∃ k, n ≤ k ∧ (moment w schedule k).server = .returned := by
  refine Runs.eventually_of_descent (P := Woken) (Q := fun m => m.server = .returned)
    (m := serverLeft) (fun n hwoken hreturned => ?_) hwoken
  obtain ⟨k, hk, hlower | hfree⟩ : ∃ k, n ≤ k ∧
      ((moment w schedule k).serverLeft < (moment w schedule n).serverLeft ∨
        ¬Blocked (moment w schedule k)) := by
    by_cases hblocked : Blocked (moment w schedule n)
    · exact eventually_free hsystem hworker hspares hclients hwoken hblocked
    · exact ⟨n, Nat.le_refl n, .inr hblocked⟩
  · exact ⟨k, hk, .inr ⟨woken_moment hwoken hk, hlower⟩⟩
  by_cases hdone : (moment w schedule k).server = .returned
  · exact ⟨k, hk, .inl hdone⟩
  have hwoken' := woken_moment hwoken hk
  obtain ⟨j, hj, hlower⟩ := eventually_lower hsystem hserver hwoken' hdone hfree
  refine ⟨j, Nat.le_trans hk hj, .inr ⟨woken_moment hwoken' hj, ?_⟩⟩
  exact Nat.lt_of_lt_of_le hlower (serverLeft_moment hsystem hwoken hk)

theorem eventually_stopping (hconsole : Runs.Recurs Move.IsConsole schedule)
    (hclosing : Closing (moment w schedule n)) :
    ∃ k, n ≤ k ∧ ((moment w schedule k).console = .ended ∨ Joins (moment w schedule k)) := by
  refine Runs.eventually_of_variant (A := Documented) (P := fun m => Healthy m ∧ Closing m)
    (Q := fun m => m.console = .ended ∨ Joins m) (m := fun m => m.threads.beginLeft) hconsole
    hsystem ?_ ?_ ⟨healthy_moment hsystem n, hclosing⟩
  · rintro m move ⟨hhealthy, hclosing⟩ hgoal hok
    by_cases hmove : move.IsConsole
    · obtain ⟨pipe, rfl⟩ := hmove
      rcases begin_console hhealthy hclosing hgoal pipe with hjoins | hlower
      · exact .inl (.inr hjoins)
      · exact .inr ⟨⟨hhealthy.next hok, hclosing.next _⟩, Nat.le_of_lt hlower⟩
    · refine .inr ⟨⟨hhealthy.next hok, hclosing.next move⟩, ?_⟩
      rw [Threads.beginLeft, Threads.beginLeft, stopper_next hmove]
  · rintro m move ⟨hhealthy, hclosing⟩ hgoal - ⟨pipe, rfl⟩
    rcases begin_console hhealthy hclosing hgoal pipe with hjoins | hlower
    · exact .inl (.inr hjoins)
    · exact .inr hlower

/-- `kernel_.stop()` joins the two threads and returns. -/
theorem eventually_ended (hconsole : Runs.Recurs Move.IsConsole schedule)
    (hclosing : (moment w schedule n).console = .closing)
    (halone : (moment w schedule n).threads.Alone) :
    ∃ k, n ≤ k ∧ (moment w schedule k).console = .ended := by
  refine Runs.eventually_of_variant (A := Documented)
    (P := fun m => Healthy m ∧ m.console = .closing ∧ m.threads.Alone)
    (Q := fun m => m.console = .ended) (m := fun m => m.threads.stopLeft) hconsole hsystem ?_ ?_
    ⟨healthy_moment hsystem n, hclosing, halone⟩
  · rintro m move ⟨hhealthy, hclosing, halone⟩ - hok
    rcases Closing.next (.inl hclosing) move with hclosing' | hended
    · refine .inr ⟨⟨hhealthy.next hok, hclosing', alone_next halone move⟩, ?_⟩
      by_cases hmove : move.IsConsole
      · obtain ⟨pipe, rfl⟩ := hmove
        rw [(next_closing hclosing pipe).1]
        exact Nat.le_trans (Threads.stopLeft_stop halone) (Nat.sub_le _ _)
      · rw [Threads.stopLeft, Threads.stopLeft, stopper_next hmove]
    · exact .inl hended
  · rintro m move ⟨hhealthy, hclosing, halone⟩ - - ⟨pipe, rfl⟩
    have hlower := Threads.stopLeft_stop halone
    have hpos := stopLeft_ne_zero hhealthy ⟨hclosing, halone.stopping⟩
    refine .inr ?_
    rw [(next_closing hclosing pipe).1]
    omega

end

end

/-! ## A request that is left behind -/

/-- The worker has left its loop, and the request of the server is still in the queue. -/
structure Hung (m : MasterProcess) : Prop where
  healthy : Healthy m
  queued : m.call ∈ m.threads.queued
  done : m.threads.worker.Done

theorem Hung.next (h : Hung m) (hok : m.Documented move) : Hung (m.next move) := by
  obtain ⟨hdone, hqueued⟩ := next_done h.healthy.kernel h.done move
  have hcalls : (m.next move).calls = m.calls := by
    by_cases hserver : move.IsServer
    · have hkernel : ¬∃ act, move = .kernel act := by
        rintro ⟨act, rfl⟩
        obtain ⟨ok, handle, heq⟩ := hserver
        cases heq
      exact ((h.healthy.stalled_of_queued h.queued).frame h.healthy hkernel).2.2
    · exact (next_frame hserver).2.1
  refine ⟨h.healthy.next hok, ?_, hdone⟩
  rw [hqueued, call, hcalls]
  exact h.queued

theorem Hung.not_ended (h : Hung m) : m.console ≠ .ended := by
  intro hended
  have hreturned := h.healthy.process.ordered.returned (.inr hended)
  obtain ⟨⟨pipe, hserver⟩, -⟩ := h.healthy.stalled_of_queued h.queued
  rw [hserver] at hreturned
  cases hreturned

/-- The `break` behind an executed `exit`. -/
theorem hung_of_not_spares (h : Healthy m) (hok : m.Documented move) (hnot : ¬m.Spares move) :
    Hung (m.next move) := by
  unfold Spares at hnot
  push Not at hnot
  obtain ⟨⟨env, rfl⟩, hclosing, hqueued⟩ := hnot
  have hwork : (m.threads.work env).worker = .leaving ∧
      (m.threads.work env).queued = m.threads.queued := by
    unfold Threads.work
    rw [hclosing]
    exact ⟨rfl, rfl⟩
  exact ⟨h.next hok, hwork.2.symm ▸ hqueued, .inl hwork.1⟩

/-- A process whose threads all go on again and again comes to its end exactly if the worker never
leaves its loop behind an `exit` with the request of the server in the queue, and no client on which
the server waits stays silent for ever. -/
theorem ends_iff (w : World) (schedule : ℕ → Move)
    (hsystem : ∀ n, (Runs.trace next (start w) schedule n).Documented (schedule n))
    (hserver : Runs.Recurs Move.IsServer schedule) (hworker : Runs.Recurs Move.IsWorker schedule)
    (hscheduler : Runs.Recurs Move.IsScheduler schedule)
    (hconsole : Runs.Recurs Move.IsConsole schedule) :
    (∃ n, (Runs.trace next (start w) schedule n).console = .ended) ↔
      (∀ n, (Runs.trace next (start w) schedule n).Spares (schedule n)) ∧
        ∀ n, (Runs.trace next (start w) schedule n).Waits →
          ∃ k, n ≤ k ∧ ¬(Runs.trace next (start w) schedule k).Waits := by
  constructor
  · rintro ⟨n, hended⟩
    have hstays : ∀ k, n ≤ k → (moment w schedule k).console = .ended := fun k hk =>
      Runs.trace_invariant (A := fun _ _ => True) (P := fun m : MasterProcess => m.console = .ended)
        (fun _ move h _ => ended_next h move) hended (fun _ => trivial) hk
    constructor
    · intro k
      by_contra hnot
      have hhung : Hung (moment w schedule (k + 1)) :=
        hung_of_not_spares (healthy_moment hsystem k) (hsystem k) hnot
      rcases Nat.le_total n (k + 1) with hle | hle
      · exact hhung.not_ended (hstays _ hle)
      · have hlater : Hung (moment w schedule n) :=
          Runs.trace_invariant (A := Documented) (fun _ _ h hok => h.next hok) hhung hsystem hle
        exact hlater.not_ended hended
    · intro k _
      have hreturned : (moment w schedule (max n k)).server = .returned :=
        (healthy_moment hsystem _).process.ordered.returned (.inr (hstays _ (Nat.le_max_left n k)))
      refine ⟨max n k, Nat.le_max_right n k, ?_⟩
      rintro (⟨pipe, hplace, -⟩ | ⟨pipe, response, hplace, -⟩)
      · exact ServerLoop.noConfusion (hreturned.symm.trans hplace)
      · exact ServerLoop.noConfusion (hreturned.symm.trans hplace)
  · rintro ⟨hspares, hclients⟩
    obtain ⟨a, -, hwoken⟩ := eventually_woken (w := w) hconsole 0
    obtain ⟨b, hb, hreturned⟩ :=
      eventually_returned hsystem hserver hworker hspares hclients hwoken
    obtain ⟨c, -, hclosing⟩ := eventually_closing hconsole (woken_moment hwoken hb) hreturned
    obtain ⟨d, -, hended | hjoins⟩ := eventually_stopping hsystem hconsole hclosing
    · exact ⟨d, hended⟩
    obtain ⟨e, -, hended | ⟨hjoins', hterminated⟩⟩ := eventually_terminated hworker hjoins
    · exact ⟨e, hended⟩
    obtain ⟨f, -, hended | ⟨hplace, halone⟩⟩ := eventually_alone hscheduler hjoins' hterminated
    · exact ⟨f, hended⟩
    obtain ⟨g, -, hended⟩ := eventually_ended hsystem hconsole hplace halone
    exact ⟨g, hended⟩

/-- A client's `status` that is pushed between the answer to an `exit` and the `shutdown`; then the
console leaves. -/
def crossing : List Move :=
  [.kernel (.work World.quietEnvironment), .server true 7, .server true 0, .client (.connect 7),
    .server true 0, .server true 0, .client (.send 7 (str "status")), .server true 0,
    .server true 0, .kernel (.submit 0 (str "exit") .localConsole), .kernel (.push 0),
    .kernel (.work World.quietEnvironment), .kernel (.work World.quietEnvironment),
    .kernel (.work World.quietEnvironment), .server true 0, .console 0, .console 0]

def inTurn (n : ℕ) : Move :=
  if n % 4 = 0 then .server false 0
  else if n % 4 = 1 then .kernel (.work World.quietEnvironment)
  else if n % 4 = 2 then .kernel .tick
  else .console 0

/-- Behind the crossing, all threads in turn. -/
def crossed (n : ℕ) : Move := crossing[n]?.getD (inTurn n)

theorem crossed_behind {n : ℕ} (h : 17 ≤ n) : crossed n = inTurn n := by
  have hbehind : crossing.length ≤ n := h
  rw [crossed, List.getElem?_eq_none hbehind, Option.getD_none]

example : ¬(Runs.run next (start { kernel := Kernel.start {} ∅ }) crossing).Spares
    (.kernel (.work World.quietEnvironment)) := by
  intro hspares
  exact hspares ⟨World.quietEnvironment, rfl⟩ (by decide +kernel) (by decide +kernel)

theorem documented_crossed (n : ℕ) :
    (moment { kernel := Kernel.start {} ∅ } crossed n).Documented (crossed n) := by
  by_cases hn : n < 17
  · revert n
    decide +kernel
  · have hwoken : Woken (moment { kernel := Kernel.start {} ∅ } crossed n) :=
      woken_moment (n := 17) (by decide +kernel) (Nat.le_of_not_lt hn)
    rw [crossed_behind (Nat.le_of_not_lt hn), inTurn]
    split
    · exact fun _ hfails => Bool.noConfusion hfails
    split
    · trivial
    split
    · trivial
    · exact fun hwaking => absurd hwaking hwoken.2

/-- The console leaves behind the answer to its `exit`. -/
theorem ends_iff_crossed :
    (∃ n, (Runs.trace next (start { kernel := Kernel.start {} ∅ }) crossed n).console = .ended) ↔
      (∀ n, (Runs.trace next (start { kernel := Kernel.start {} ∅ }) crossed n).Spares
        (crossed n)) ∧
        ∀ n, (Runs.trace next (start { kernel := Kernel.start {} ∅ }) crossed n).Waits →
          ∃ k, n ≤ k ∧
            ¬(Runs.trace next (start { kernel := Kernel.start {} ∅ }) crossed k).Waits := by
  apply ends_iff _ _ documented_crossed
  · intro n
    refine ⟨4 * (n + 17), by omega, false, 0, ?_⟩
    rw [crossed_behind (by omega), inTurn, if_pos (by omega)]
  · intro n
    refine ⟨4 * (n + 17) + 1, by omega, World.quietEnvironment, ?_⟩
    rw [crossed_behind (by omega), inTurn, if_neg (by omega), if_pos (by omega)]
  · intro n
    refine ⟨4 * (n + 17) + 2, by omega, ?_⟩
    rw [crossed_behind (by omega), inTurn, if_neg (by omega), if_neg (by omega), if_pos (by omega)]
    rfl
  · intro n
    refine ⟨4 * (n + 17) + 3, by omega, 0, ?_⟩
    rw [crossed_behind (by omega), inTurn, if_neg (by omega), if_neg (by omega), if_neg (by omega)]

end MasterProcess

end OSCoreSim
