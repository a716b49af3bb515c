import OSCoreSim.App.MasterProcess
import OSCoreSim.Kernel.CallProgress
/-!
# The end of the master

The console thread stops the pipe server before the kernel, so that no command of a client is on
its way when the kernel stops.  The connection that wakes the server is never lost.
-/

namespace OSCoreSim

/-- The commands that the server still brings to the kernel when `running_` is cleared. -/
def ServerLoop.pending : ServerLoop → ℕ
  | reading _ | calling _ _ | awaiting _ => 1
  | _ => 0

theorem Act.isStop_of_foreign {act : Act} (h : act.foreign = true) : act.isStop = false := by
  cases act with
  | stop => cases h
  | submit | push | receive | work | tick => rfl

namespace MasterProcess

variable {m : MasterProcess}

/-! ## The calls of the server -/

theorem caller_of_ask {act : Act} (h : act ∈ m.ask) : act.caller? = some m.call := by
  unfold ask at h
  split at h
  · rw [List.mem_singleton.mp h]
    rfl
  · split at h
    · rw [List.mem_singleton.mp h]
      rfl
    · rw [List.mem_singleton.mp h]
      rfl
    all_goals cases h
  · cases h

/-- The calls of the server come one behind the other. -/
structure Booked (m : MasterProcess) : Prop where
  earlier : ∀ k < m.calls, (m.threads.callers (2 * k + 1)).settled = true
  here : (∃ pipe, m.server = .awaiting pipe) ↔ m.threads.callers m.call ≠ .idle
  later : ∀ k, m.calls < k → m.threads.callers (2 * k + 1) = .idle

theorem booked_start (w : World) : Booked (start w) where
  earlier := fun k hk => absurd hk (Nat.not_lt_zero k)
  here := ⟨fun ⟨_, h⟩ => ServerLoop.noConfusion h, fun h => absurd rfl h⟩
  later := fun _ _ => rfl

theorem Booked.congr {m' : MasterProcess} (h : Booked m) (hcalls : m'.calls = m.calls)
    (hserver : (∃ pipe, m'.server = .awaiting pipe) ↔ ∃ pipe, m.server = .awaiting pipe)
    (hcallers : ∀ k, m'.threads.callers (2 * k + 1) = m.threads.callers (2 * k + 1)) :
    Booked m' where
  earlier k hk := by
    rw [hcallers]
    exact h.earlier k (hcalls ▸ hk)
  here := by
    rw [hserver, call, hcallers, hcalls]
    exact h.here
  later k hk := by
    rw [hcallers]
    exact h.later k (hcalls ▸ hk)

theorem callers_foreign {act : Act} (h : act.foreign = true) (s : Threads) (k : ℕ) :
    (s.next act).callers (2 * k + 1) = s.callers (2 * k + 1) := by
  apply Threads.next_callers
  cases act with
  | submit call | push call | receive call =>
    intro hcall
    obtain rfl := Option.some.inj hcall
    have heven := eq_of_beq h
    omega
  | work env | stop | tick => exact fun hcall => by cases hcall

theorem serve_frame (m : MasterProcess) (ok : Bool) (handle : ℕ) :
    (m.serve ok handle).running = m.running ∧ (m.serve ok handle).console = m.console := by
  unfold serve
  cases m.server with
  | creating | recreating =>
    dsimp only
    split <;> exact ⟨rfl, rfl⟩
  | connecting pipe =>
    cases pipe with
    | none => exact ⟨rfl, rfl⟩
    | some pipe =>
      dsimp only
      split
      · exact ⟨rfl, rfl⟩
      · split <;> exact ⟨rfl, rfl⟩
  | reading pipe =>
    dsimp only
    split
    · exact ⟨rfl, rfl⟩
    · split <;> exact ⟨rfl, rfl⟩
  | awaiting pipe | writing pipe =>
    dsimp only
    split <;> exact ⟨rfl, rfl⟩
  | _ => exact ⟨rfl, rfl⟩

theorem serve_outside (hcalling : ∀ pipe command, m.server ≠ .calling pipe command)
    (hawaiting : ∀ pipe, m.server ≠ .awaiting pipe) (ok : Bool) (handle : ℕ) :
    (m.serve ok handle).threads = m.threads ∧ (m.serve ok handle).calls = m.calls ∧
      ∀ pipe, (m.serve ok handle).server ≠ .awaiting pipe := by
  unfold serve
  cases hserver : m.server with
  | calling pipe command => exact absurd hserver (hcalling pipe command)
  | awaiting pipe => exact absurd hserver (hawaiting pipe)
  | creating | recreating =>
    dsimp only
    split
    · exact ⟨rfl, rfl, fun _ h => ServerLoop.noConfusion h⟩
    · exact ⟨rfl, rfl, fun _ h => ServerLoop.noConfusion h⟩
  | connecting pipe =>
    cases pipe with
    | none => exact ⟨rfl, rfl, fun _ h => ServerLoop.noConfusion h⟩
    | some pipe =>
      dsimp only
      split
      · exact ⟨rfl, rfl, fun _ h => ServerLoop.noConfusion h⟩
      · split
        · exact ⟨rfl, rfl, fun _ h => ServerLoop.noConfusion h⟩
        · exact ⟨rfl, rfl, hawaiting⟩
  | checking pipe | connected pipe | replacing pipe =>
    dsimp only
    split
    · exact ⟨rfl, rfl, fun _ h => ServerLoop.noConfusion h⟩
    · exact ⟨rfl, rfl, fun _ h => ServerLoop.noConfusion h⟩
  | reading pipe =>
    dsimp only
    split
    · exact ⟨rfl, rfl, fun _ h => ServerLoop.noConfusion h⟩
    · split
      · refine ⟨rfl, rfl, fun _ => ?_⟩
        dsimp only
        split
        · exact fun h => ServerLoop.noConfusion h
        · exact fun h => ServerLoop.noConfusion h
      · exact ⟨rfl, rfl, hawaiting⟩
  | writing pipe =>
    dsimp only
    split
    · exact ⟨rfl, rfl, fun _ h => ServerLoop.noConfusion h⟩
    · exact ⟨rfl, rfl, hawaiting⟩
  | returned => exact ⟨rfl, rfl, hawaiting⟩
  | _ => exact ⟨rfl, rfl, fun _ h => ServerLoop.noConfusion h⟩

theorem Booked.asked {act : Act} {pipe : ℕ} (h : Booked m) (hact : act.caller? = some m.call)
    (hbusy : (m.threads.next act).callers m.call ≠ .idle) :
    Booked { m with threads := m.threads.next act, server := .awaiting pipe } := by
  have hother : ∀ k, k ≠ m.calls →
      (m.threads.next act).callers (2 * k + 1) = m.threads.callers (2 * k + 1) := by
    intro k hne
    apply Threads.next_callers
    rw [hact]
    intro hcall
    have heq : 2 * m.calls + 1 = 2 * k + 1 := Option.some.inj hcall
    omega
  constructor
  · intro k hk
    exact (congrArg Caller.settled (hother k (Nat.ne_of_lt hk))).trans (h.earlier k hk)
  · exact ⟨fun _ => hbusy, fun _ => ⟨pipe, rfl⟩⟩
  · intro k hk
    exact (hother k (Nat.ne_of_gt hk)).trans (h.later k hk)

theorem Booked.back {pipe : ℕ} {response : Str} (h : Booked m)
    (hsettled : (m.threads.callers m.call).settled = true) :
    Booked { m with server := .writing pipe response, calls := m.calls + 1 } := by
  constructor
  · intro k hk
    rcases Nat.lt_succ_iff_lt_or_eq.mp hk with hlt | rfl
    · exact h.earlier k hlt
    · exact hsettled
  · have hidle : m.threads.callers (2 * (m.calls + 1) + 1) = .idle := h.later _ (Nat.lt_succ_self _)
    exact iff_of_false (fun ⟨_, heq⟩ => ServerLoop.noConfusion heq) fun hbusy => hbusy hidle
  · intro k hk
    exact h.later k (Nat.lt_of_succ_lt hk)

section

variable {pipe : ℕ} (hserver : m.server = .awaiting pipe) (ok : Bool) (handle : ℕ)
include hserver

theorem serve_push {request : CommandRequest} (h : m.threads.callers m.call = .admitted request) :
    m.serve ok handle =
      { m with threads := m.threads.next (.push m.call), server := .awaiting pipe } := by
  simp only [serve, hserver, ask, h]
  rfl

theorem serve_receive (h : m.threads.callers m.call = .waiting) :
    m.serve ok handle =
      { m with threads := m.threads.next (.receive m.call), server := .awaiting pipe } := by
  simp only [serve, hserver, ask, h]
  rfl

theorem serve_back (h : (m.threads.callers m.call).settled = true) :
    ∃ response, m.serve ok handle =
      { m with server := .writing pipe response, calls := m.calls + 1 } := by
  cases hcaller : m.threads.callers m.call with
  | idle | admitted | waiting =>
    rw [hcaller] at h
    cases h
  | refused response | answered response =>
    refine ⟨response.message, ?_⟩
    simp only [serve, hserver, hcaller]

end

theorem Booked.serve (h : Booked m) (ok : Bool) (handle : ℕ) : Booked (m.serve ok handle) := by
  by_cases hcalling : ∃ pipe command, m.server = .calling pipe command
  · obtain ⟨pipe, line, hserver⟩ := hcalling
    have hidle : m.threads.callers m.call = .idle := by
      by_contra hbusy
      obtain ⟨pipe', hawaiting⟩ := h.here.mpr hbusy
      rw [hserver] at hawaiting
      cases hawaiting
    have hstep : m.serve ok handle = { m with
        threads := m.threads.next (.submit m.call line .remoteClient)
        server := .awaiting pipe } := by
      simp only [MasterProcess.serve, hserver, ask]
      rfl
    rw [hstep]
    exact h.asked rfl (Threads.submit_callers hidle line .remoteClient)
  by_cases hawaiting : ∃ pipe, m.server = .awaiting pipe
  · obtain ⟨pipe, hserver⟩ := hawaiting
    have hbusy := h.here.mp ⟨pipe, hserver⟩
    cases hcaller : m.threads.callers m.call with
    | idle => exact absurd hcaller hbusy
    | admitted request =>
      rw [serve_push hserver ok handle hcaller]
      refine h.asked rfl fun hidle => ?_
      have hidle' : (m.threads.push m.call).callers m.call = .idle := hidle
      rcases Threads.push_callers hcaller with hnow | hnow
      · rw [hidle'] at hnow
        cases hnow
      · rw [hidle'] at hnow
        cases hnow
    | waiting =>
      rw [serve_receive hserver ok handle hcaller]
      refine h.asked rfl fun hidle => ?_
      have hmoved := Threads.receive_callers hcaller
      have hidle' : (m.threads.receive m.call).callers m.call = .idle := hidle
      rw [hidle'] at hmoved
      cases hpromise : m.threads.promises m.call with
      | none =>
        rw [hpromise] at hmoved
        cases hmoved
      | some response =>
        rw [hpromise] at hmoved
        cases hmoved
    | refused response | answered response =>
      obtain ⟨text, hback⟩ := serve_back hserver ok handle (hcaller ▸ rfl)
      rw [hback]
      exact h.back (hcaller ▸ rfl)
  have hcalling' : ∀ pipe command, m.server ≠ .calling pipe command :=
    fun pipe command heq => hcalling ⟨pipe, command, heq⟩
  have hawaiting' : ∀ pipe, m.server ≠ .awaiting pipe := fun pipe heq => hawaiting ⟨pipe, heq⟩
  obtain ⟨hthreads, hcalls, hserver⟩ := serve_outside hcalling' hawaiting' ok handle
  refine h.congr hcalls ?_ fun k => by rw [hthreads]
  have hnot : ¬∃ pipe, (m.serve ok handle).server = .awaiting pipe := by
    rintro ⟨pipe, heq⟩
    exact hserver pipe heq
  exact iff_of_false hnot hawaiting

theorem Booked.next (h : Booked m) (move : Move) : Booked (m.next move) := by
  cases move with
  | server ok handle => exact h.serve ok handle
  | client => exact h.congr rfl Iff.rfl fun _ => rfl
  | kernel act =>
    unfold MasterProcess.next
    dsimp only
    split
    next hforeign => exact h.congr rfl Iff.rfl fun k => callers_foreign hforeign m.threads k
    next => exact h
  | console pipe =>
    unfold MasterProcess.next leave
    dsimp only
    split
    · exact h.congr rfl Iff.rfl fun _ => rfl
    · exact h.congr rfl Iff.rfl fun _ => rfl
    · exact h.congr rfl Iff.rfl fun _ => rfl
    · split
      · exact h.congr rfl Iff.rfl fun _ => rfl
      · exact h
    · have hcallers : ∀ k, (m.threads.next .stop).callers k = m.threads.callers k := fun k =>
        Threads.next_callers fun hcall => by cases hcall
      exact h.congr rfl Iff.rfl fun k => hcallers (2 * k + 1)
    · exact h

/-! ## The order of the shutdown -/

/-- The console clears `running_`, wakes the server and joins it before it stops the kernel. -/
structure Ordered (m : MasterProcess) : Prop where
  running : m.running = true ↔ m.console = .prompt
  returned : m.console = .closing ∨ m.console = .ended → m.server = .returned
  before : m.console ≠ .closing → m.console ≠ .ended →
    m.threads.stopper = .outside ∧ m.threads.started = true
  begins : m.console = .closing → m.threads.stopper = .outside → m.threads.started = true

theorem ordered_start (w : World) : Ordered (start w) where
  running := ⟨fun _ => rfl, fun _ => rfl⟩
  returned := fun h => h.elim ConsoleThread.noConfusion ConsoleThread.noConfusion
  before := fun _ _ => ⟨rfl, rfl⟩
  begins := fun h => ConsoleThread.noConfusion h

theorem Ordered.goes {m' : MasterProcess} (h : Ordered m)
    (hbefore : m.console ≠ .closing ∧ m.console ≠ .ended) (hrunning : m'.running = false)
    (hthreads : m'.threads = m.threads) (hprompt : m'.console ≠ .prompt)
    (hclosing : m'.console ≠ .closing) (hended : m'.console ≠ .ended) : Ordered m' where
  running := by
    rw [hrunning]
    exact iff_of_false Bool.false_ne_true hprompt
  returned := fun heq => (heq.elim hclosing hended).elim
  before := fun _ _ => by
    rw [hthreads]
    exact h.before hbefore.1 hbefore.2
  begins := fun heq => absurd heq hclosing

theorem Ordered.cleared (h : Ordered m) (hprompt : m.console ≠ .prompt) : m.running = false := by
  cases hrunning : m.running with
  | false => rfl
  | true => exact absurd (h.running.mp hrunning) hprompt

/-- The server's call moves neither the stopping thread nor what it sets. -/
theorem serve_stopper (m : MasterProcess) (ok : Bool) (handle : ℕ) :
    (m.serve ok handle).threads.stopper = m.threads.stopper ∧
      (m.serve ok handle).threads.started = m.threads.started := by
  have hthreads := threads_next m (.server ok handle)
  have hrun : ∀ acts : List Act, (∀ act ∈ acts, act.isStop = false) → ∀ s : Threads,
      (Runs.run Threads.next s acts).stopper = s.stopper ∧
        (Runs.run Threads.next s acts).started = s.started := by
    intro acts
    induction acts with
    | nil => exact fun _ _ => ⟨rfl, rfl⟩
    | cons act acts ih =>
      intro hacts s
      obtain ⟨hstopper, hstarted, -⟩ := Threads.next_stopper (s := s) (hacts act List.mem_cons_self)
      obtain ⟨hstopper', hstarted'⟩ :=
        ih (fun act hmem => hacts act (List.mem_cons_of_mem _ hmem)) (s.next act)
      exact ⟨hstopper'.trans hstopper, hstarted'.trans hstarted⟩
  have hask : ∀ act ∈ m.ask, act.isStop = false := by
    intro act hmem
    have hcaller := caller_of_ask hmem
    cases act with
    | stop => cases hcaller
    | submit | push | receive | work | tick => rfl
  change (m.next (.server ok handle)).threads.stopper = _ ∧
    (m.next (.server ok handle)).threads.started = _
  rw [hthreads]
  exact hrun m.ask hask m.threads

theorem Ordered.next (h : Ordered m) (move : Move) : Ordered (m.next move) := by
  cases move with
  | client => exact ⟨h.running, h.returned, h.before, h.begins⟩
  | kernel act =>
    unfold MasterProcess.next
    dsimp only
    split
    next hforeign =>
      obtain ⟨hstopper, hstarted, -⟩ :=
        Threads.next_stopper (s := m.threads) (Act.isStop_of_foreign hforeign)
      refine ⟨h.running, h.returned, fun hclosing hended => ?_, fun hclosing hout => ?_⟩
      · obtain ⟨hout, hup⟩ := h.before hclosing hended
        exact ⟨hstopper.trans hout, hstarted.trans hup⟩
      · exact hstarted.trans (h.begins hclosing (hstopper.symm.trans hout))
    next => exact h
  | server ok handle =>
    obtain ⟨hrunning, hconsole⟩ := serve_frame m ok handle
    obtain ⟨hstopper, hstarted⟩ := serve_stopper m ok handle
    change Ordered (m.serve ok handle)
    constructor
    · rw [hrunning, hconsole]
      exact h.running
    · rw [hconsole]
      intro hclosed
      have hreturned := h.returned hclosed
      simp only [serve, hreturned]
    · rw [hconsole, hstopper, hstarted]
      exact h.before
    · rw [hconsole, hstopper, hstarted]
      exact h.begins
  | console pipe =>
    unfold MasterProcess.next leave
    cases hconsole : m.console with
    | prompt =>
      exact h.goes (by simp [hconsole]) rfl rfl (by simp) (by simp) (by simp)
    | waking =>
      have hcleared := h.cleared (by simp [hconsole])
      by_cases hfree : m.pipes.Free pipe
      · exact h.goes (by simp [hconsole]) hcleared rfl (by simp [hfree]) (by simp [hfree])
          (by simp [hfree])
      · exact h.goes (by simp [hconsole]) hcleared rfl (by simp [hfree]) (by simp [hfree])
          (by simp [hfree])
    | hangingUp wakePipe =>
      have hcleared := h.cleared (by simp [hconsole])
      exact h.goes (by simp [hconsole]) hcleared rfl (by simp) (by simp) (by simp)
    | joining =>
      have hbefore := h.before (by simp [hconsole]) (by simp [hconsole])
      have hcleared := h.cleared (by simp [hconsole])
      dsimp only
      split
      next hreturned =>
        exact ⟨iff_of_false (by simp [hcleared]) (by simp), fun _ => hreturned,
          fun hclosing => absurd rfl hclosing, fun _ _ => hbefore.2⟩
      next => exact h
    | closing =>
      have hreturned := h.returned (.inl hconsole)
      have hcleared := h.cleared (by simp [hconsole])
      dsimp only
      split
      next hout =>
        exact ⟨iff_of_false (by simp [hcleared]) (by simp), fun _ => hreturned,
          fun _ hended => absurd rfl hended, fun hclosing => ConsoleThread.noConfusion hclosing⟩
      next hin =>
        exact ⟨iff_of_false (by simp [hcleared]) (by simp), fun _ => hreturned,
          fun hclosing => absurd rfl hclosing, fun _ hout => absurd hout hin⟩
    | ended => exact h

/-! ## The connection that wakes the server -/

def Woken (m : MasterProcess) : Prop := m.console ≠ .prompt ∧ m.console ≠ .waking

instance (m : MasterProcess) : Decidable (Woken m) := inferInstanceAs (Decidable (_ ∧ _))

theorem Woken.next (h : Woken m) (move : Move) : Woken (m.next move) := by
  obtain ⟨hprompt, hwaking⟩ := h
  cases move with
  | client => exact ⟨hprompt, hwaking⟩
  | server ok handle =>
    have hconsole := (serve_frame m ok handle).2
    exact ⟨fun heq => hprompt (hconsole.symm.trans heq),
      fun heq => hwaking (hconsole.symm.trans heq)⟩
  | kernel act =>
    unfold MasterProcess.next
    dsimp only
    split <;> exact ⟨hprompt, hwaking⟩
  | console pipe =>
    unfold MasterProcess.next leave
    cases hconsole : m.console with
    | prompt => exact absurd hconsole hprompt
    | waking => exact absurd hconsole hwaking
    | hangingUp wakePipe =>
      exact ⟨fun heq => ConsoleThread.noConfusion heq, fun heq => ConsoleThread.noConfusion heq⟩
    | joining =>
      dsimp only
      split
      · exact ⟨fun heq => ConsoleThread.noConfusion heq, fun heq => ConsoleThread.noConfusion heq⟩
      · exact ⟨hprompt, hwaking⟩
    | closing =>
      dsimp only [Woken]
      split
      · exact ⟨fun heq => ConsoleThread.noConfusion heq, fun heq => ConsoleThread.noConfusion heq⟩
      · exact ⟨fun heq => ConsoleThread.noConfusion heq, fun heq => ConsoleThread.noConfusion heq⟩
    | ended => exact ⟨hprompt, hwaking⟩

/-- Behind the connection of `stop` a server that waits for a client has one. -/
def Reached (m : MasterProcess) : Prop :=
  Woken m → ∀ pipe, m.server = .connecting (some pipe) → (m.pipes.clients pipe).isSome = true

/-- A server that waits for a client behind a step of its own has been doing so before, or has
found `running_` set. -/
theorem connecting_of_serve {pipe : ℕ} {ok : Bool} {handle : ℕ}
    (h : (m.serve ok handle).server = .connecting (some pipe)) :
    m.serve ok handle = m ∨ m.running = true := by
  revert h
  unfold serve
  cases hserver : m.server with
  | creating | recreating =>
    dsimp only
    split
    · exact fun h => ServerLoop.noConfusion h
    · exact fun h => ServerLoop.noConfusion h
  | connecting pipe =>
    cases pipe with
    | none => exact fun h => ServerLoop.noConfusion h
    | some pipe =>
      dsimp only
      split
      · exact fun h => ServerLoop.noConfusion h
      · split
        · exact fun h => ServerLoop.noConfusion h
        · exact fun _ => .inl rfl
  | checking pipe =>
    dsimp only
    split
    next hrunning => exact fun _ => .inr hrunning
    next => exact fun h => ServerLoop.noConfusion h
  | connected pipe | replacing pipe =>
    dsimp only
    split
    · exact fun h => ServerLoop.noConfusion h
    · exact fun h => ServerLoop.noConfusion h
  | reading pipe =>
    dsimp only
    split
    · exact fun h => ServerLoop.noConfusion h
    · split
      · dsimp only
        split
        · exact fun h => ServerLoop.noConfusion h
        · exact fun h => ServerLoop.noConfusion h
      · exact fun _ => .inl rfl
  | writing pipe =>
    dsimp only
    split
    · exact fun h => ServerLoop.noConfusion h
    · exact fun _ => .inl rfl
  | awaiting pipe =>
    dsimp only
    split
    · exact fun h => ServerLoop.noConfusion h
    · exact fun h => ServerLoop.noConfusion h
    · exact fun h => ServerLoop.noConfusion h
  | returned =>
    rw [hserver]
    exact fun h => ServerLoop.noConfusion h
  | _ => exact fun h => ServerLoop.noConfusion h

/-- The only open instance is free for the console, or has a client. -/
theorem reached_waking (howned : Owned m) {pipe : ℕ} (hconsole : m.console = .waking)
    (hok : m.Documented (.console pipe)) {only : ℕ} (hserver : m.server = .connecting (some only)) :
    ((m.pipes.createFile pipe).clients only).isSome = true := by
  have hhandles := howned.handles
  rw [hserver] at hhandles
  cases hclient : m.pipes.clients only with
  | some client =>
    exact m.pipes.act_isSome (hclient ▸ rfl) none (.connect pipe)
  | none =>
    have hfree : m.pipes.Free pipe :=
      hok hconsole ⟨only, by rw [hhandles]; exact List.mem_singleton_self only, hclient⟩
    obtain rfl : pipe = only := by
      have hmem := hfree.1
      rw [hhandles] at hmem
      exact List.mem_singleton.mp hmem
    exact Pipes.createFile_isSome hfree

theorem Reached.next (h : Reached m) (howned : Owned m) (hordered : Ordered m) {move : Move}
    (hok : m.Documented move) : Reached (m.next move) := by
  cases move with
  | client act => exact fun hwoken pipe hserver => Pipes.act_isSome (h hwoken pipe hserver) _ act
  | kernel act =>
    unfold MasterProcess.next
    dsimp only
    split
    · exact h
    · exact h
  | server ok handle =>
    intro hwoken pipe hserver
    have hconsole := (serve_frame m ok handle).2
    have hbefore : Woken m := ⟨fun heq => hwoken.1 (hconsole.trans heq),
      fun heq => hwoken.2 (hconsole.trans heq)⟩
    rcases connecting_of_serve hserver with hsame | hrunning
    · change ((m.serve ok handle).pipes.clients pipe).isSome = true
      have hplace : (m.serve ok handle).server = .connecting (some pipe) := hserver
      rw [hsame] at hplace ⊢
      exact h hbefore pipe hplace
    · exact absurd (hordered.running.mp hrunning) hbefore.1
  | console pipe =>
    unfold MasterProcess.next leave
    cases hconsole : m.console with
    | prompt => exact fun hwoken => absurd rfl hwoken.2
    | waking => exact fun _ only hserver => reached_waking howned hconsole hok hserver
    | hangingUp wakePipe =>
      have hwoken : Woken m := by simp [Woken, hconsole]
      exact fun _ only hserver => Pipes.act_isSome (h hwoken only hserver) none (.close wakePipe)
    | joining =>
      have hwoken : Woken m := by simp [Woken, hconsole]
      dsimp only
      split
      · exact fun _ => h hwoken
      · exact h
    | closing =>
      have hwoken : Woken m := by simp [Woken, hconsole]
      exact fun _ => h hwoken
    | ended => exact h

/-! ## No command behind the server -/

structure Regular (m : MasterProcess) : Prop where
  booked : Booked m
  ordered : Ordered m

theorem regular_start (w : World) : Regular (start w) := ⟨booked_start w, ordered_start w⟩

theorem Regular.next (h : Regular m) (move : Move) : Regular (m.next move) :=
  ⟨h.booked.next move, h.ordered.next move⟩

theorem regular_run (w : World) (moves : List Move) : Regular (Runs.run next (start w) moves) :=
  Runs.run_always (fun _ move h => h.next move) (regular_start w) moves

theorem running_next (h : m.running = false) (move : Move) : (m.next move).running = false := by
  cases move with
  | kernel act =>
    unfold MasterProcess.next
    dsimp only
    split <;> exact h
  | client => exact h
  | server ok handle => exact (serve_frame m ok handle).1.trans h
  | console pipe =>
    unfold MasterProcess.next leave
    dsimp only
    split
    · rfl
    · exact h
    · exact h
    · split <;> exact h
    · exact h
    · exact h

theorem pending_serve (h : m.running = false) (ok : Bool) (handle : ℕ) :
    (m.serve ok handle).calls + (m.serve ok handle).server.pending ≤
      m.calls + m.server.pending := by
  unfold serve
  cases hserver : m.server with
  | creating | recreating =>
    dsimp only
    split <;> exact Nat.le_refl _
  | connecting pipe =>
    cases pipe with
    | none => exact Nat.le_refl _
    | some pipe =>
      dsimp only
      split
      · exact Nat.le_refl _
      · split
        · exact Nat.le_refl _
        · rw [hserver]
  | checking pipe | connected pipe =>
    dsimp only
    rw [h]
    exact Nat.le_refl _
  | reading pipe =>
    dsimp only
    split
    · exact Nat.le_succ _
    · split
      · dsimp only
        split
        · exact Nat.le_succ _
        · exact Nat.le_refl _
      · rw [hserver]
  | writing pipe =>
    dsimp only
    split
    · exact Nat.le_refl _
    · rw [hserver]
  | replacing pipe =>
    dsimp only
    split <;> exact Nat.le_refl _
  | awaiting pipe =>
    dsimp only
    split <;> exact Nat.le_refl _
  | returned => rw [hserver]
  | _ => exact Nat.le_refl _

theorem pending_next (h : m.running = false) (move : Move) :
    (m.next move).calls + (m.next move).server.pending ≤ m.calls + m.server.pending := by
  cases move with
  | server ok handle => exact pending_serve h ok handle
  | client => exact Nat.le_refl _
  | kernel act =>
    unfold MasterProcess.next
    dsimp only
    split <;> exact Nat.le_refl _
  | console pipe =>
    unfold MasterProcess.next leave
    dsimp only
    split
    · exact Nat.le_refl _
    · exact Nat.le_refl _
    · exact Nat.le_refl _
    · split <;> exact Nat.le_refl _
    · exact Nat.le_refl _
    · exact Nat.le_refl _

theorem callers_of_returned (h : m.server = .returned) (move : Move) (k : ℕ) :
    (m.next move).server = .returned ∧
      (m.next move).threads.callers (2 * k + 1) = m.threads.callers (2 * k + 1) := by
  cases move with
  | server ok handle =>
    have hstill : m.serve ok handle = m := by simp only [serve, h]
    change (m.serve ok handle).server = _ ∧ (m.serve ok handle).threads.callers _ = _
    rw [hstill]
    exact ⟨h, rfl⟩
  | client => exact ⟨h, rfl⟩
  | kernel act =>
    unfold MasterProcess.next
    dsimp only
    split
    next hforeign => exact ⟨h, callers_foreign hforeign m.threads k⟩
    next => exact ⟨h, rfl⟩
  | console pipe =>
    unfold MasterProcess.next leave
    dsimp only
    split
    · exact ⟨h, rfl⟩
    · exact ⟨h, rfl⟩
    · exact ⟨h, rfl⟩
    · split <;> exact ⟨h, rfl⟩
    · have hcallers : ∀ c, (m.threads.next .stop).callers c = m.threads.callers c := fun c =>
        Threads.next_callers fun hcall => by cases hcall
      exact ⟨h, hcallers (2 * k + 1)⟩
    · exact ⟨h, rfl⟩

theorem pending_le_one (server : ServerLoop) : server.pending ≤ 1 := by
  unfold ServerLoop.pending
  split
  · exact Nat.le_refl 1
  · exact Nat.le_refl 1
  · exact Nat.le_refl 1
  · exact Nat.zero_le 1

/-- Once `running_` is cleared, at most one more command of a client comes to the kernel, calls
that have not returned included.  Once `kernel_.stop()` begins, no such command is open, and none
is submitted any more. -/
theorem quiet_of_run (w : World) (moves later : List Move) :
    let last := Runs.run next (start w) moves
    let behind := Runs.run next last later
    (last.running = false →
        behind.calls + behind.server.pending ≤ last.calls + last.server.pending ∧
          last.server.pending ≤ 1) ∧
      (last.console = .closing ∨ last.console = .ended → ∀ k,
        (last.threads.callers (2 * k + 1) = .idle ∨
          (last.threads.callers (2 * k + 1)).settled = true) ∧
        behind.threads.callers (2 * k + 1) = last.threads.callers (2 * k + 1)) := by
  intro last behind
  have hregular : Regular last := regular_run w moves
  constructor
  · intro hcleared
    have hbound : behind.running = false ∧
        behind.calls + behind.server.pending ≤ last.calls + last.server.pending :=
      Runs.run_always (P := fun m : MasterProcess => m.running = false ∧
          m.calls + m.server.pending ≤ last.calls + last.server.pending)
        (fun m move h => ⟨running_next h.1 move, Nat.le_trans (pending_next h.1 move) h.2⟩)
        ⟨hcleared, Nat.le_refl _⟩ later
    exact ⟨hbound.2, pending_le_one last.server⟩
  · intro hclosed k
    have hreturned := hregular.ordered.returned hclosed
    constructor
    · rcases Nat.lt_trichotomy k last.calls with hlt | rfl | hgt
      · exact .inr (hregular.booked.earlier k hlt)
      · have hidle : ¬last.threads.callers last.call ≠ .idle := by
          rw [← hregular.booked.here]
          rintro ⟨pipe, hawaiting⟩
          rw [hreturned] at hawaiting
          cases hawaiting
        exact .inl (not_not.mp hidle)
      · exact .inl (hregular.booked.later k hgt)
    · have hsame : behind.server = .returned ∧
          behind.threads.callers (2 * k + 1) = last.threads.callers (2 * k + 1) := by
        refine Runs.run_always (P := fun m : MasterProcess => m.server = .returned ∧
          m.threads.callers (2 * k + 1) = last.threads.callers (2 * k + 1))
          (fun m move h => ?_) ⟨hreturned, rfl⟩ later
        obtain ⟨hserver, hcallers⟩ := callers_of_returned h.1 move k
        exact ⟨hserver, hcallers.trans h.2⟩
      exact hsame.2

end MasterProcess

end OSCoreSim
