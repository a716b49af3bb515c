import OSCoreSim.Util.BlockingQueue
import OSCoreSim.Kernel.World
/-!
# The threads of the kernel

Any number of calls of `submitCommand`, the worker, the scheduler and the thread that
stops the kernel, taking the steps that `stateMutex_`, the mutex of the queue and the
atomic flags delimit, in any order.  A thread that submits several lines makes several
calls.
-/

namespace OSCoreSim

deriving instance DecidableEq for CommandRequest

inductive Caller where
  | idle
  /-- Behind the check under `stateMutex_`, in front of the push. -/
  | admitted (request : CommandRequest)
  /-- The check or the push has refused the request. -/
  | refused (response : CommandResponse)
  /-- In `future.get()`. -/
  | waiting
  | answered (response : CommandResponse)
  deriving DecidableEq

def Caller.accepted : Caller → Bool
  | .waiting | .answered _ => true
  | .idle | .admitted _ | .refused _ => false

/-- Where `workerLoop` stands; a popped request is named by its call. -/
inductive Worker where
  | starting
  | popping
  | executing (call : ℕ) (request : CommandRequest)
  /-- In front of `set_value`. -/
  | answering (call : ℕ) (response : CommandResponse)
  /-- In front of the `shutdown` behind an `exit`. -/
  | closing
  /-- Behind the loop. -/
  | leaving
  | terminated
  deriving DecidableEq

namespace Worker

/-- The popped call whose request is not executed yet. -/
def held : Worker → List ℕ
  | executing call _ => [call]
  | _ => []

/-- The executed call whose promise is still open. -/
def owing : Worker → List ℕ
  | answering call _ => [call]
  | _ => []

def Done (worker : Worker) : Prop := worker = leaving ∨ worker = terminated

instance (worker : Worker) : Decidable worker.Done :=
  inferInstanceAs (Decidable (_ ∨ _))

end Worker

/-- Where `schedulerLoop` stands. -/
inductive SchedulerThread where
  /-- In front of the check of `shuttingDown_`. -/
  | checking
  /-- In front of the check of `schedulerRunning_`. -/
  | reading
  /-- In front of the turn under `stateMutex_`. -/
  | locking
  | terminated
  deriving DecidableEq

inductive Stopper where
  | outside
  | shuttingDown
  | joiningScheduler
  | joiningWorker
  | finishing

structure Threads where
  world : World
  started : Bool := true
  stopping : Bool := false
  shuttingDown : Bool := false
  nextRequestId : UInt64 := 1
  requestQueue : BlockingQueue (ℕ × CommandRequest) := {}
  callers : ℕ → Caller := fun _ => .idle
  /-- The promises that are fulfilled. -/
  promises : ℕ → Option CommandResponse := fun _ => none
  worker : Worker := .starting
  scheduler : SchedulerThread := .checking
  stopper : Stopper := .outside
  /-- `workerThread_` and `schedulerThread_` are joined. -/
  joined : Bool := false
  /-- The calls whose request has been executed, in this order. -/
  executed : List ℕ := []

inductive Act where
  | submit (call : ℕ) (rawLine : Str) (source : CommandSource)
  | push (call : ℕ)
  | receive (call : ℕ)
  | work (env : Environment)
  | stop
  | tick

namespace Threads

def start (w : World) : Threads := { world := w }

def setCaller (s : Threads) (call : ℕ) (caller : Caller) : Threads :=
  { s with callers := Function.update s.callers call caller }

def setWorkerRunning (s : Threads) (running : Bool) : Threads :=
  { s with world := { s.world with kernel := { s.world.kernel with workerRunning := running } } }

/-- The check of `submitCommand`. -/
def submit (s : Threads) (call : ℕ) (rawLine : Str) (source : CommandSource) : Threads :=
  match s.callers call with
  | .idle =>
    if !s.started ∨ s.stopping then
      s.setCaller call (.refused { success := false, message := str "Kernel is not running." })
    else
      { s with nextRequestId := s.nextRequestId + 1 }.setCaller call
        (.admitted { id := s.nextRequestId, rawLine := rawLine, source := source })
  | _ => s

/-- The push of `submitCommand`. -/
def push (s : Threads) (call : ℕ) : Threads :=
  match s.callers call with
  | .admitted request =>
    match s.requestQueue.push (call, request) with
    | .ok queue => { s with requestQueue := queue }.setCaller call .waiting
    | .error what =>
      s.setCaller call
        (.refused { success := false, message := str "Failed to submit command: " ++ what })
  | _ => s

/-- The return of `future.get()`. -/
def receive (s : Threads) (call : ℕ) : Threads :=
  match s.callers call, s.promises call with
  | .waiting, some response => s.setCaller call (.answered response)
  | _, _ => s

def work (s : Threads) (env : Environment) : Threads :=
  match s.worker with
  | .starting => { s.setWorkerRunning true with worker := .popping }
  | .popping =>
    match s.requestQueue.pop with
    | .blocked => s
    | .ended => { s with worker := .leaving }
    | .value (call, request) rest =>
      { s with requestQueue := rest, worker := .executing call request }
  | .executing call request =>
    { s with
      world := s.world.step (.request env request)
      executed := s.executed ++ [call]
      worker := .answering call (s.world.kernel.executeRequest env s.world.disk request).2.2 }
  | .answering call response =>
    { s with
      promises := Function.update s.promises call (some response)
      worker := if response.shouldExit then .closing else .popping }
  | .closing => { s with requestQueue := s.requestQueue.shutdown, worker := .leaving }
  | .leaving => { s.setWorkerRunning false with worker := .terminated }
  | .terminated => s

/-- The next step of `schedulerLoop`; its turn is that of `Kernel.schedulerTick`. -/
def tick (s : Threads) : Threads :=
  match s.scheduler with
  | .checking => { s with scheduler := if s.shuttingDown then .terminated else .reading }
  | .reading =>
    { s with scheduler := if s.world.kernel.schedulerRunning then .locking else .checking }
  | .locking => { s with world := s.world.step .tick, scheduler := .checking }
  | .terminated => s

def stop (s : Threads) : Threads :=
  match s.stopper with
  | .outside =>
    if !s.started ∧ s.joined then s
    else
      { s with
        stopping := true
        shuttingDown := true
        world := { s.world with kernel :=
          { s.world.kernel.haltScheduler with schedulerOwner := [] } }
        stopper := .shuttingDown }
  | .shuttingDown =>
    { s with requestQueue := s.requestQueue.shutdown, stopper := .joiningScheduler }
  | .joiningScheduler =>
    match s.scheduler with
    | .terminated => { s with stopper := .joiningWorker }
    | _ => s
  | .joiningWorker =>
    match s.worker with
    | .terminated => { s with joined := true, stopper := .finishing }
    | _ => s
  | .finishing => { s.setWorkerRunning false with started := false, stopper := .outside }

/-- A step of a thread; one that has to wait leaves everything as it is. -/
def next (s : Threads) (act : Act) : Threads :=
  match act with
  | .submit call rawLine source => s.submit call rawLine source
  | .push call => s.push call
  | .receive call => s.receive call
  | .work env => s.work env
  | .stop => s.stop
  | .tick => s.tick

def Accepted (s : Threads) (call : ℕ) : Prop := (s.callers call).accepted = true

/-- Its request has been executed once, and its promise is fulfilled. -/
def Served (s : Threads) (call : ℕ) : Prop :=
  s.executed.count call = 1 ∧ (s.promises call).isSome

/-- The `shutdown` behind an executed `exit` finds no request in the queue. -/
def ClosesEmpty (s : Threads) : Act → Prop
  | .work _ => s.worker = .closing → s.requestQueue.values = []
  | _ => True

instance (s : Threads) (call : ℕ) : Decidable (s.Accepted call) :=
  inferInstanceAs (Decidable (_ = _))

instance (s : Threads) (act : Act) : Decidable (s.ClosesEmpty act) :=
  match act with
  | .work _ => inferInstanceAs (Decidable (_ → _))
  | .submit .. | .push _ | .receive _ | .stop | .tick => isTrue trivial

theorem next_tick (s : Threads) : s.next .tick =
    { s with world := (s.next .tick).world, scheduler := (s.next .tick).scheduler } := by
  unfold next tick
  dsimp only
  split <;> rfl

/-! ## The ledger of the requests -/

def pushed (s : Threads) : List ℕ :=
  s.executed ++ (s.worker.held ++ s.requestQueue.values.map Prod.fst)

/-- Every accepted request is executed, popped or queued, and each just once; the promises of
the executed ones are fulfilled, the one at hand apart. -/
structure Ledger (s : Threads) : Prop where
  nodup : s.pushed.Nodup
  accepted : ∀ call, call ∈ s.pushed ↔ s.Accepted call
  owing : ∀ call ∈ s.worker.owing, call ∈ s.executed
  fulfilled : ∀ call, (s.promises call).isSome ↔ call ∈ s.executed ∧ call ∉ s.worker.owing

variable {s s' : Threads} {call : ℕ}

theorem ledger_start (w : World) : Ledger (start w) where
  nodup := List.nodup_nil
  accepted := fun call => by
    constructor
    · intro h
      exact absurd h List.not_mem_nil
    · intro h
      exact Bool.noConfusion (h : false = true)
  owing := fun call h => absurd h List.not_mem_nil
  fulfilled := fun call => by
    constructor
    · intro h
      exact Bool.noConfusion (h : false = true)
    · rintro ⟨h, -⟩
      exact absurd h List.not_mem_nil

theorem Ledger.congr (h : Ledger s) (hpushed : s'.pushed = s.pushed)
    (hexecuted : s'.executed = s.executed) (howing : s'.worker.owing = s.worker.owing)
    (hpromises : s'.promises = s.promises)
    (haccepted : ∀ call, s'.Accepted call ↔ s.Accepted call) : Ledger s' where
  nodup := by
    rw [hpushed]
    exact h.nodup
  accepted := fun call => by
    rw [hpushed, haccepted]
    exact h.accepted call
  owing := by
    rw [howing, hexecuted]
    exact h.owing
  fulfilled := fun call => by
    rw [hpromises, hexecuted, howing]
    exact h.fulfilled call

theorem Ledger.phase {worker : Worker} {world : World} {queue : BlockingQueue (ℕ × CommandRequest)}
    (h : Ledger s) (hheld : worker.held = s.worker.held) (howing : worker.owing = s.worker.owing)
    (hqueue : queue.values = s.requestQueue.values := by rfl) :
    Ledger { s with world := world, requestQueue := queue, worker := worker } := by
  refine h.congr ?_ rfl howing rfl fun _ => Iff.rfl
  change s.executed ++ (worker.held ++ queue.values.map Prod.fst) = s.pushed
  rw [hheld, hqueue]
  rfl

theorem accepted_setCaller {caller : Caller} {c : ℕ} :
    (s.setCaller call caller).Accepted c ↔
      if c = call then caller.accepted = true else s.Accepted c := by
  change (Function.update s.callers call caller c).accepted = true ↔ _
  by_cases heq : c = call
  · rw [heq, Function.update_self, if_pos rfl]
  · rw [Function.update_of_ne heq, if_neg heq]
    rfl

theorem Ledger.setCaller {caller : Caller} (h : Ledger s)
    (hsame : caller.accepted = (s.callers call).accepted) : Ledger (s.setCaller call caller) := by
  refine h.congr rfl rfl rfl rfl fun c => ?_
  rw [accepted_setCaller]
  split
  next heq =>
    rw [heq, hsame]
    rfl
  next => rfl

theorem Ledger.submit (h : Ledger s) (rawLine : Str) (source : CommandSource) :
    Ledger (s.submit call rawLine source) := by
  unfold Threads.submit
  split
  next hidle =>
    split
    · apply h.setCaller
      rw [hidle]
      rfl
    · have hnext : Ledger { s with nextRequestId := s.nextRequestId + 1 } :=
        h.congr rfl rfl rfl rfl fun _ => Iff.rfl
      apply hnext.setCaller
      rw [hidle]
      rfl
  next => exact h

theorem Ledger.push (h : Ledger s) : Ledger (s.push call) := by
  unfold Threads.push
  split
  next request hadmitted =>
    have hnew : ¬s.Accepted call := by
      unfold Accepted
      rw [hadmitted]
      exact Bool.false_ne_true
    split
    next queue hpush =>
      obtain ⟨-, rfl⟩ := BlockingQueue.push_ok.mp hpush
      set s' : Threads := Threads.setCaller { s with requestQueue := _ } call .waiting with hs'
      have hpushed : s'.pushed = s.pushed ++ [call] := by
        simp [hs', Threads.setCaller, pushed]
      have haccepted : ∀ c, s'.Accepted c ↔ c = call ∨ s.Accepted c := by
        intro c
        rw [hs', accepted_setCaller]
        split
        next heq => exact iff_of_true rfl (Or.inl heq)
        next hne => exact (or_iff_right hne).symm
      constructor
      · rw [hpushed, List.nodup_append_comm]
        apply List.nodup_cons.mpr
        exact ⟨fun hmem => hnew ((h.accepted call).mp hmem), h.nodup⟩
      · intro c
        rw [hpushed, haccepted, List.mem_append, List.mem_singleton, h.accepted, or_comm]
      · exact h.owing
      · exact h.fulfilled
    next =>
      apply h.setCaller
      rw [hadmitted]
      rfl
  next => exact h

theorem Ledger.receive (h : Ledger s) : Ledger (s.receive call) := by
  unfold Threads.receive
  split
  next response hwaiting _ =>
    apply h.setCaller
    rw [hwaiting]
    rfl
  next => exact h

/-- The popped request is executed; its promise is open now. -/
theorem Ledger.execute {request : CommandRequest} (h : Ledger s)
    (hworker : s.worker = .executing call request) (w : World) (response : CommandResponse) :
    Ledger { s with
      world := w, executed := s.executed ++ [call], worker := .answering call response } := by
  have hpushed : s.pushed = s.executed ++ (call :: s.requestQueue.values.map Prod.fst) := by
    rw [pushed, hworker]
    rfl
  have hnew : call ∉ s.executed := by
    have hnodup := h.nodup
    rw [hpushed] at hnodup
    exact fun hmem => List.disjoint_of_nodup_append hnodup hmem List.mem_cons_self
  have howing : s.worker.owing = [] := by
    rw [hworker]
    rfl
  set s' : Threads := { s with
    world := w, executed := s.executed ++ [call], worker := .answering call response }
  have hpushed' : s'.pushed = s.pushed := by
    rw [hpushed]
    exact List.append_assoc _ _ _
  constructor
  · rw [hpushed']
    exact h.nodup
  · intro c
    rw [hpushed']
    exact h.accepted c
  · intro c hc
    exact List.mem_append_right _ hc
  · intro c
    have hold := h.fulfilled c
    rw [howing] at hold
    change (s.promises c).isSome ↔ c ∈ s.executed ++ [call] ∧ c ∉ [call]
    rw [hold, List.mem_append, List.mem_singleton]
    constructor
    · rintro ⟨hmem, -⟩
      exact ⟨Or.inl hmem, fun heq => hnew (heq ▸ hmem)⟩
    · rintro ⟨hmem, hne⟩
      exact ⟨hmem.resolve_right hne, List.not_mem_nil⟩

theorem Ledger.answer {response : CommandResponse} (h : Ledger s)
    (hworker : s.worker = .answering call response) {worker : Worker}
    (hheld : worker.held = []) (howing : worker.owing = []) :
    Ledger { s with
      promises := Function.update s.promises call (some response), worker := worker } := by
  have hmem : call ∈ s.executed := h.owing call (by
    rw [hworker]
    exact List.mem_singleton_self call)
  set s' : Threads := { s with
    promises := Function.update s.promises call (some response), worker := worker } with hs'
  have hpushed : s'.pushed = s.pushed := by
    change s.executed ++ (worker.held ++ _) = s.executed ++ (s.worker.held ++ _)
    rw [hheld, hworker]
    rfl
  constructor
  · rw [hpushed]
    exact h.nodup
  · intro c
    rw [hpushed]
    exact h.accepted c
  · intro c hc
    rw [hs', howing] at hc
    exact absurd hc List.not_mem_nil
  · intro c
    change (Function.update s.promises call (some response) c).isSome ↔
      c ∈ s.executed ∧ c ∉ worker.owing
    rw [howing]
    by_cases heq : c = call
    · rw [heq, Function.update_self]
      exact iff_of_true rfl ⟨hmem, List.not_mem_nil⟩
    · rw [Function.update_of_ne heq, h.fulfilled c, hworker]
      change c ∈ s.executed ∧ c ∉ [call] ↔ _
      rw [List.mem_singleton]
      exact and_congr_right fun _ => iff_of_true heq List.not_mem_nil

theorem Ledger.work (h : Ledger s) (env : Environment) : Ledger (s.work env) := by
  unfold Threads.work
  split
  next hworker =>
    apply h.phase
    · rw [hworker]
      rfl
    · rw [hworker]
      rfl
  next hworker =>
    split
    next => exact h
    next =>
      apply h.phase
      · rw [hworker]
        rfl
      · rw [hworker]
        rfl
    next call request rest hpop =>
      obtain ⟨hvalues, -⟩ := BlockingQueue.pop_value.mp hpop
      refine h.congr ?_ rfl ?_ rfl fun _ => Iff.rfl
      · rw [pushed, pushed, hworker, hvalues]
        rfl
      · rw [hworker]
        rfl
  next call request hworker => exact h.execute hworker _ _
  next call response hworker =>
    apply h.answer hworker
    · split <;> rfl
    · split <;> rfl
  next hworker =>
    apply h.phase
    · rw [hworker]
      rfl
    · rw [hworker]
      rfl
  next hworker =>
    apply h.phase
    · rw [hworker]
      rfl
    · rw [hworker]
      rfl
  next => exact h

theorem Ledger.stop (h : Ledger s) : Ledger s.stop := by
  unfold Threads.stop
  split
  · split
    · exact h
    · exact h.congr rfl rfl rfl rfl fun _ => Iff.rfl
  · exact h.congr rfl rfl rfl rfl fun _ => Iff.rfl
  · split
    · exact h.congr rfl rfl rfl rfl fun _ => Iff.rfl
    · exact h
  · split
    · exact h.congr rfl rfl rfl rfl fun _ => Iff.rfl
    · exact h
  · exact h.congr rfl rfl rfl rfl fun _ => Iff.rfl

theorem Ledger.next (h : Ledger s) (act : Act) : Ledger (s.next act) := by
  cases act with
  | submit call rawLine source => exact h.submit rawLine source
  | push call => exact h.push
  | receive call => exact h.receive
  | work env => exact h.work env
  | stop => exact h.stop
  | tick =>
    rw [next_tick]
    exact h.congr rfl rfl rfl rfl fun _ => Iff.rfl

theorem Ledger.run (h : Ledger s) (acts : List Act) : Ledger (Runs.run Threads.next s acts) :=
  Runs.run_invariant' (fun _ act h _ => h.next act) h
    (Runs.permitted_of_forall fun _ _ _ => trivial)

end Threads

end OSCoreSim
