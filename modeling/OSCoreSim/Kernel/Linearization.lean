import OSCoreSim.Lib.Simulation
import OSCoreSim.Kernel.Threads
/-!
# The threads act one after the other

Any interleaving of the callers, the worker, the automatic scheduler and `stop` does to the
kernel what a sequential kernel does that serves the executed requests one at a time, in the
order of their pushes.  Every caller gets the response that this kernel gives to its own line,
and a call that was made behind the return of another is served behind it.
-/

namespace OSCoreSim

/-- What a thread does to the kernel in one step under `stateMutex_`. -/
inductive Transition where
  | serve (call : ℕ) (env : Environment) (request : CommandRequest)
  | tick
  /-- The first step of `stop`. -/
  | halt
  | workerRunning (running : Bool)

/-- A kernel that serves one request after the other, with its responses so far. -/
structure Sequential where
  world : World
  responses : List (ℕ × CommandResponse) := []

def Sequential.apply (q : Sequential) : Transition → Sequential
  | .serve call env request =>
    { world := q.world.step (.request env request)
      responses := q.responses ++
        [(call, (q.world.kernel.executeRequest env q.world.disk request).2.2)] }
  | .tick => { q with world := q.world.step .tick }
  | .halt =>
    { q with world := { q.world with kernel :=
      { q.world.kernel.haltScheduler with schedulerOwner := [] } } }
  | .workerRunning running =>
    { q with world := { q.world with kernel := { q.world.kernel with workerRunning := running } } }

namespace Threads

def transitions (s : Threads) (act : Act) : List Transition :=
  match act with
  | .work env =>
    match s.worker with
    | .starting => [.workerRunning true]
    | .executing call request => [.serve call env request]
    | .leaving => [.workerRunning false]
    | .popping | .answering .. | .closing | .terminated => []
  | .stop =>
    match s.stopper with
    | .outside => if !s.started ∧ s.joined then [] else [.halt]
    | .finishing => [.workerRunning false]
    | .shuttingDown | .joiningScheduler | .joiningWorker => []
  | .tick =>
    match s.scheduler with
    | .locking => [.tick]
    | .checking | .reading | .terminated => []
  | .submit .. | .push _ | .receive _ => []

/-- The line of a call and where it came from, as its first `submit` says. -/
def asked (call : ℕ) (acts : List Act) : Option (Str × CommandSource) :=
  acts.findSome? fun act =>
    match act with
    | .submit c rawLine source => if c = call then some (rawLine, source) else none
    | .push _ | .receive _ | .work _ | .stop | .tick => none

def pushes (s : Threads) (act : Act) : List ℕ :=
  match act with
  | .push call =>
    match s.callers call with
    | .admitted _ => if s.requestQueue.shutdownRequested then [] else [call]
    | .idle | .refused _ | .waiting | .answered _ => []
  | .submit .. | .receive _ | .work _ | .stop | .tick => []

variable {s : Threads} {q : Sequential} {call : ℕ}

/-! ## The sequential kernel -/

/-- The kernel is that of the sequential one, which has served the executed calls, and every
response on its way to a caller is one of its responses. -/
structure Follows (s : Threads) (q : Sequential) : Prop where
  world : q.world = s.world
  executed : q.responses.map Prod.fst = s.executed
  answering : ∀ call response, s.worker = .answering call response → (call, response) ∈ q.responses
  promised : ∀ call response, s.promises call = some response → (call, response) ∈ q.responses
  answered : ∀ call response, s.callers call = .answered response → (call, response) ∈ q.responses

theorem follows_start (w : World) : Follows (start w) { world := w } where
  world := rfl
  executed := rfl
  answering _ _ h := by cases h
  promised _ _ h := by cases h
  answered _ _ h := by cases h

theorem Follows.setCaller {caller : Caller} (h : Follows s q)
    (hcaller : ∀ response, caller = .answered response → (call, response) ∈ q.responses) :
    Follows (s.setCaller call caller) q := by
  refine { h with answered := fun c response hc => ?_ }
  change Function.update s.callers call caller c = .answered response at hc
  by_cases heq : c = call
  · subst heq
    rw [Function.update_self] at hc
    exact hcaller response hc
  · rw [Function.update_of_ne heq] at hc
    exact h.answered c response hc

theorem Follows.submit (h : Follows s q) (rawLine : Str) (source : CommandSource) :
    Follows (s.submit call rawLine source) q := by
  unfold Threads.submit
  split
  · split
    · exact h.setCaller fun _ heq => by cases heq
    · have hnext : Follows { s with nextRequestId := s.nextRequestId + 1 } q := { h with }
      exact hnext.setCaller fun _ heq => by cases heq
  · exact h

theorem Follows.push (h : Follows s q) : Follows (s.push call) q := by
  unfold Threads.push
  split
  · split
    next queue _ =>
      have hqueue : Follows { s with requestQueue := queue } q := { h with }
      exact hqueue.setCaller fun _ heq => by cases heq
    next => exact h.setCaller fun _ heq => by cases heq
  · exact h

theorem Follows.receive (h : Follows s q) : Follows (s.receive call) q := by
  unfold Threads.receive
  split
  next response _ hpromise =>
    refine h.setCaller fun response' heq => ?_
    cases heq
    exact h.promised call response hpromise
  next => exact h

theorem Follows.work (h : Follows s q) (env : Environment) :
    Follows (s.work env) (Runs.run Sequential.apply q (s.transitions (.work env))) := by
  -- a step of the worker that touches neither the kernel nor a response
  have hphase : ∀ {worker : Worker} {queue : BlockingQueue (ℕ × CommandRequest)},
      worker.owing = [] → Follows { s with requestQueue := queue, worker := worker } q := by
    intro worker queue howing
    refine { h with answering := fun call response hworker => ?_ }
    change worker = .answering call response at hworker
    rw [hworker] at howing
    cases howing
  unfold Threads.work transitions
  cases hworker : s.worker with
  | starting =>
    exact {
      h with
      world := by
        show ({ q.world with kernel := { q.world.kernel with workerRunning := true } } : World) = _
        rw [h.world]
        rfl
      answering := fun _ _ heq => by cases heq }
  | popping =>
    simp only
    split
    · exact h
    · exact hphase rfl
    · exact hphase rfl
  | executing call request =>
    have hworld := h.world
    exact {
      world := by
        show q.world.step (.request env request) = _
        rw [hworld]
      executed := by
        show (q.responses ++ [_]).map Prod.fst = _
        rw [List.map_append, h.executed]
        rfl
      answering := fun c response heq => by
        cases heq
        refine List.mem_append_right _ ?_
        rw [hworld]
        exact List.mem_singleton_self _
      promised := fun c response hc => List.mem_append_left _ (h.promised c response hc)
      answered := fun c response hc => List.mem_append_left _ (h.answered c response hc) }
  | answering call response =>
    refine {
      h with
      answering := fun c response' heq => ?_
      promised := fun c response' hc => ?_ }
    · dsimp only at heq
      split at heq <;> cases heq
    · change Function.update s.promises call (some response) c = some response' at hc
      by_cases heq : c = call
      · rw [heq, Function.update_self] at hc
        cases hc
        rw [heq]
        exact h.answering call response hworker
      · rw [Function.update_of_ne heq] at hc
        exact h.promised c response' hc
  | closing => exact hphase rfl
  | leaving =>
    exact {
      h with
      world := by
        show ({ q.world with kernel := { q.world.kernel with workerRunning := false } } : World) = _
        rw [h.world]
        rfl
      answering := fun _ _ heq => by cases heq }
  | terminated => exact h

theorem Follows.stop (h : Follows s q) :
    Follows s.stop (Runs.run Sequential.apply q (s.transitions .stop)) := by
  unfold Threads.stop transitions
  cases s.stopper with
  | outside =>
    simp only
    split
    · exact h
    · refine { h with world := ?_ }
      show ({ q.world with kernel := _ } : World) = _
      rw [h.world]
  | shuttingDown => exact { h with }
  | joiningScheduler | joiningWorker =>
    simp only
    split
    · exact { h with }
    · exact h
  | finishing =>
    refine { h with world := ?_ }
    show ({ q.world with kernel := _ } : World) = _
    rw [h.world]
    rfl

theorem Follows.tick (h : Follows s q) :
    Follows s.tick (Runs.run Sequential.apply q (s.transitions .tick)) := by
  unfold Threads.tick transitions
  cases s.scheduler with
  | checking | reading => exact { h with }
  | locking =>
    refine { h with world := ?_ }
    show q.world.step .tick = _
    rw [h.world]
  | terminated => exact h

/-- A step of a thread is followed by the sequential kernel. -/
theorem Follows.next (h : Follows s q) (act : Act) :
    Follows (s.next act) (Runs.run Sequential.apply q (s.transitions act)) := by
  cases act with
  | submit call rawLine source => exact h.submit rawLine source
  | push call => exact h.push
  | receive call => exact h.receive
  | work env => exact h.work env
  | stop => exact h.stop
  | tick => exact h.tick

theorem follows_run (w : World) (acts : List Act) : Follows (Runs.run next (start w) acts)
    (Runs.run Sequential.apply { world := w } (Runs.emitted next transitions (start w) acts)) :=
  Runs.simulates' (fun _ _ act h => h.next act) (follows_start w) acts

/-! ## The lines of the callers -/

def Of (acts : List Act) (call : ℕ) (request : CommandRequest) : Prop :=
  asked call acts = some (request.rawLine, request.source)

/-- A call has been made before it is anything but idle, and its request holds its line wherever
it is. -/
structure Origin (acts : List Act) (s : Threads) : Prop where
  idle : ∀ call, s.callers call = .idle → asked call acts = none
  admitted : ∀ call request, s.callers call = .admitted request → Of acts call request
  queued : ∀ entry ∈ s.requestQueue.values, Of acts entry.1 entry.2
  executing : ∀ call request, s.worker = .executing call request → Of acts call request

variable {acts : List Act}

theorem asked_append (call : ℕ) (acts more : List Act) :
    asked call (acts ++ more) = (asked call acts).or (asked call more) := by
  unfold asked
  rw [List.findSome?_append]

theorem Of.append {request : CommandRequest} (h : Of acts call request) (more : List Act) :
    Of (acts ++ more) call request := by
  rw [Of, asked_append, h, Option.some_or]

theorem origin_start (w : World) : Origin [] (start w) where
  idle _ _ := rfl
  admitted _ _ h := by cases h
  queued _ h := by cases h
  executing _ _ h := by cases h

theorem Origin.quiet {s' : Threads} {act : Act} (h : Origin acts s)
    (hasked : ∀ call, asked call [act] = none)
    (hidle : ∀ call, s'.callers call = .idle → s.callers call = .idle)
    (hadmitted : ∀ call request, s'.callers call = .admitted request →
      s.callers call = .admitted request)
    (hqueued : ∀ entry ∈ s'.requestQueue.values, entry ∈ s.requestQueue.values ∨
      s.callers entry.1 = .admitted entry.2)
    (hexecuting : ∀ call request, s'.worker = .executing call request →
      s.worker = .executing call request ∨ (call, request) ∈ s.requestQueue.values) :
    Origin (acts ++ [act]) s' where
  idle call hc := by rw [asked_append, h.idle call (hidle call hc), hasked]; rfl
  admitted call request hc := (h.admitted call request (hadmitted call request hc)).append _
  queued entry hmem := by
    rcases hqueued entry hmem with hold | hpushed
    · exact (h.queued entry hold).append _
    · exact (h.admitted _ _ hpushed).append _
  executing call request hworker := by
    rcases hexecuting call request hworker with hold | hpopped
    · exact (h.executing call request hold).append _
    · exact (h.queued _ hpopped).append _

theorem setCaller_keeps {caller place : Caller} (hplace : place ≠ caller) {c : ℕ}
    (h : (s.setCaller call caller).callers c = place) : s.callers c = place := by
  change Function.update s.callers call caller c = place at h
  by_cases heq : c = call
  · rw [heq, Function.update_self] at h
    exact absurd h.symm hplace
  · rwa [Function.update_of_ne heq] at h

theorem Origin.submit (h : Origin acts s) (rawLine : Str) (source : CommandSource) :
    Origin (acts ++ [.submit call rawLine source]) (s.submit call rawLine source) := by
  have hother : ∀ c, c ≠ call → asked c [Act.submit call rawLine source] = none := by
    intro c hc
    simp [asked, Ne.symm hc]
  have hself : asked call [Act.submit call rawLine source] = some (rawLine, source) := by
    simp [asked]
  -- the call leaves its first place, and the others keep theirs
  have hmoves : ∀ {s' : Threads} {caller : Caller}, s.callers call = .idle → caller ≠ .idle →
      (∀ request, caller = .admitted request →
        request.rawLine = rawLine ∧ request.source = source) →
      s'.callers = s.callers → s'.requestQueue = s.requestQueue → s'.worker = s.worker →
      Origin (acts ++ [.submit call rawLine source]) (s'.setCaller call caller) := by
    intro s' caller hidle hne hrequest hcallers hqueue hworker
    refine ⟨fun c hc => ?_, fun c request hc => ?_, fun entry hmem => ?_, fun c request hc => ?_⟩
    · have hold := setCaller_keeps hne.symm hc
      have hcne : c ≠ call := by
        rintro rfl
        exact hne (by simpa [setCaller] using hc)
      rw [hcallers] at hold
      rw [asked_append, h.idle c hold, hother c hcne]
      rfl
    · by_cases heq : c = call
      · subst heq
        obtain ⟨hline, hsource⟩ := hrequest request (by simpa [setCaller] using hc)
        rw [Of, asked_append, h.idle c hidle, hself, hline, hsource]
        rfl
      · have hold : s.callers c = .admitted request := by
          simpa [setCaller, Function.update_of_ne heq, hcallers] using hc
        exact (h.admitted c request hold).append _
    · exact (h.queued entry (hqueue ▸ hmem)).append _
    · exact (h.executing c request (hworker ▸ hc)).append _
  unfold Threads.submit
  split
  next hidle =>
    split
    · exact hmoves hidle (by simp) (fun _ heq => by cases heq) rfl rfl rfl
    · refine hmoves hidle (by simp) (fun request heq => ?_) rfl rfl rfl
      cases heq
      exact ⟨rfl, rfl⟩
  next hbusy =>
    refine ⟨fun c hc => ?_, fun c request hc => (h.admitted c request hc).append _,
      fun entry hmem => (h.queued entry hmem).append _,
      fun c request hc => (h.executing c request hc).append _⟩
    have hcne : c ≠ call := by
      rintro rfl
      exact hbusy hc
    rw [asked_append, h.idle c hc, hother c hcne]
    rfl

theorem Origin.push (h : Origin acts s) : Origin (acts ++ [.push call]) (s.push call) := by
  refine h.quiet (fun _ => rfl) (fun c hc => ?_) (fun c request hc => ?_) (fun entry hmem => ?_)
    fun c request hc => .inl ?_
  all_goals unfold Threads.push at *
  · split at hc
    · split at hc <;> exact setCaller_keeps (by simp) hc
    · exact hc
  · split at hc
    · split at hc <;> exact setCaller_keeps (by simp) hc
    · exact hc
  · split at hmem
    next request hadmitted =>
      split at hmem
      next queue hpush =>
        obtain ⟨-, rfl⟩ := BlockingQueue.push_ok.mp hpush
        rcases List.mem_append.mp hmem with hold | hnew
        · exact .inl hold
        · rw [List.mem_singleton.mp hnew]
          exact .inr hadmitted
      next => exact .inl hmem
    next => exact .inl hmem
  · split at hc
    · split at hc <;> exact hc
    · exact hc

theorem Origin.receive (h : Origin acts s) : Origin (acts ++ [.receive call]) (s.receive call) := by
  refine h.quiet (fun _ => rfl) (fun c hc => ?_) (fun c request hc => ?_)
    (fun entry hmem => .inl ?_) fun c request hc => .inl ?_
  all_goals unfold Threads.receive at *
  · split at hc
    · exact setCaller_keeps (by simp) hc
    · exact hc
  · split at hc
    · exact setCaller_keeps (by simp) hc
    · exact hc
  · split at hmem <;> exact hmem
  · split at hc <;> exact hc

theorem Origin.work (h : Origin acts s) (env : Environment) :
    Origin (acts ++ [.work env]) (s.work env) := by
  have hcallers : (s.work env).callers = s.callers := by
    unfold Threads.work
    split
    all_goals first | rfl | (split <;> rfl)
  refine h.quiet (fun _ => rfl) (fun c hc => hcallers ▸ hc) (fun c request hc => hcallers ▸ hc)
    (fun entry hmem => .inl ?_) fun c request hc => ?_
  · unfold Threads.work at hmem
    split at hmem
    case h_2 =>
      split at hmem
      · exact hmem
      · exact hmem
      next hpop =>
        obtain ⟨hvalues, -⟩ := BlockingQueue.pop_value.mp hpop
        rw [hvalues]
        exact List.mem_cons_of_mem _ hmem
    all_goals exact hmem
  · unfold Threads.work at hc
    split at hc
    case h_2 hworker =>
      split at hc
      · exact .inl hc
      · cases hc
      next hpop =>
        obtain ⟨hvalues, -⟩ := BlockingQueue.pop_value.mp hpop
        cases hc
        rw [hvalues]
        exact .inr List.mem_cons_self
    case h_4 =>
      dsimp only at hc
      split at hc <;> cases hc
    case h_7 => exact .inl hc
    all_goals cases hc

theorem Origin.stop (h : Origin acts s) : Origin (acts ++ [.stop]) s.stop := by
  have hsame : s.stop.callers = s.callers ∧ s.stop.requestQueue.values = s.requestQueue.values ∧
      s.stop.worker = s.worker := by
    unfold Threads.stop
    split
    · split <;> exact ⟨rfl, rfl, rfl⟩
    · exact ⟨rfl, rfl, rfl⟩
    · split <;> exact ⟨rfl, rfl, rfl⟩
    · split <;> exact ⟨rfl, rfl, rfl⟩
    · exact ⟨rfl, rfl, rfl⟩
  obtain ⟨hcallers, hvalues, hworker⟩ := hsame
  exact h.quiet (fun _ => rfl) (fun c hc => hcallers ▸ hc) (fun c request hc => hcallers ▸ hc)
    (fun entry hmem => .inl (hvalues ▸ hmem)) fun c request hc => .inl (hworker ▸ hc)

theorem Origin.next (h : Origin acts s) (act : Act) : Origin (acts ++ [act]) (s.next act) := by
  cases act with
  | submit call rawLine source => exact h.submit rawLine source
  | push call => exact h.push
  | receive call => exact h.receive
  | work env => exact h.work env
  | stop => exact h.stop
  | tick =>
    rw [next_tick]
    exact h.quiet (fun _ => rfl) (fun c hc => hc) (fun c request hc => hc)
      (fun entry hmem => .inl hmem) fun c request hc => .inl hc

theorem origin_run (w : World) (acts : List Act) : Origin acts (Runs.run next (start w) acts) := by
  induction acts using List.reverseRecOn with
  | nil => exact origin_start w
  | append_singleton acts act ih =>
    rw [Runs.run_append]
    exact ih.next act

/-! ## The order of the calls -/

def executes (s : Threads) (act : Act) : List ℕ :=
  match act with
  | .work _ => s.worker.held
  | .submit .. | .push _ | .receive _ | .stop | .tick => []

theorem executed_next (s : Threads) (act : Act) :
    (s.next act).executed = s.executed ++ s.executes act := by
  cases act with
  | submit call rawLine source =>
    simp only [next, executes, submit, List.append_nil]
    split
    · split <;> rfl
    · rfl
  | push call =>
    simp only [next, executes, push, List.append_nil]
    split
    · split <;> rfl
    · rfl
  | receive call =>
    simp only [next, executes, receive, List.append_nil]
    split <;> rfl
  | work env =>
    simp only [next, executes, work]
    cases s.worker with
    | popping =>
      simp only [Worker.held, List.append_nil]
      split <;> rfl
    | executing => rfl
    | starting | answering | closing | leaving | terminated => exact (List.append_nil _).symm
  | stop =>
    simp only [next, executes, stop, List.append_nil]
    split
    · split <;> rfl
    · rfl
    · split <;> rfl
    · split <;> rfl
    · rfl
  | tick => exact (congrArg executed (next_tick s)).trans (List.append_nil _).symm

theorem pushed_next (s : Threads) (act : Act) : (s.next act).pushed = s.pushed ++ s.pushes act := by
  cases act with
  | submit call rawLine source =>
    simp only [next, pushes, submit, List.append_nil]
    split
    · split <;> rfl
    · rfl
  | push call =>
    simp only [next, pushes, push]
    cases s.callers call with
    | admitted request =>
      simp only
      split
      next queue hpush =>
        obtain ⟨hup, rfl⟩ := BlockingQueue.push_ok.mp hpush
        simp [setCaller, pushed, hup]
      next what hpush =>
        have hdown : s.requestQueue.shutdownRequested = true := by
          by_contra hup
          rw [BlockingQueue.push_ok.mpr ⟨by simpa using hup, rfl⟩] at hpush
          cases hpush
        rw [hdown, if_pos rfl, List.append_nil]
        rfl
    | idle | refused | waiting | answered => exact (List.append_nil _).symm
  | receive call =>
    simp only [next, pushes, receive, List.append_nil]
    split <;> rfl
  | work env =>
    simp only [next, pushes, work, List.append_nil]
    split
    next hworker =>
      rw [pushed, pushed, hworker]
      rfl
    next hworker =>
      split
      next => rfl
      next =>
        rw [pushed, pushed, hworker]
        rfl
      next hpop =>
        obtain ⟨hvalues, -⟩ := BlockingQueue.pop_value.mp hpop
        rw [pushed, pushed, hworker, hvalues]
        rfl
    next hworker =>
      rw [pushed, pushed, hworker]
      exact List.append_assoc _ _ _
    next response hworker =>
      rw [pushed, pushed, hworker]
      dsimp only
      split <;> rfl
    next hworker =>
      rw [pushed, pushed, hworker]
      rfl
    next hworker =>
      rw [pushed, pushed, hworker]
      rfl
    next => rfl
  | stop =>
    simp only [next, pushes, stop, List.append_nil]
    split
    · split <;> rfl
    · rfl
    · split <;> rfl
    · split <;> rfl
    · rfl
  | tick => exact (congrArg pushed (next_tick s)).trans (List.append_nil _).symm

/-- Whatever the interleaving, the kernel is the one that a sequential kernel has behind the same
transitions; it has served each executed call once, with the line of that call, and every answered
call has its response. -/
theorem linearizable_of_run (w : World) (acts : List Act) :
    let s := Runs.run next (start w) acts
    let history := Runs.emitted next transitions (start w) acts
    let q := Runs.run Sequential.apply { world := w } history
    s.world = q.world ∧ s.executed = q.responses.map Prod.fst ∧ s.executed.Nodup ∧
      (∀ call env request, .serve call env request ∈ history → Of acts call request) ∧
      ∀ call response, s.callers call = .answered response → (call, response) ∈ q.responses := by
  intro s history q
  have hfollows := follows_run w acts
  have hnodup : s.pushed.Nodup := ((ledger_start w).run acts).nodup
  refine ⟨hfollows.world.symm, hfollows.executed.symm, ?_, fun call env request hmem => ?_,
    hfollows.answered⟩
  · rw [pushed] at hnodup
    exact hnodup.of_append_left
  · obtain ⟨before, act, after, rfl, hact⟩ := Runs.mem_emitted.mp hmem
    have horigin := origin_run w before
    -- only an executing worker serves
    have hworker : (Runs.run next (start w) before).worker = .executing call request := by
      cases act with
      | work env' =>
        simp only [transitions] at hact
        split at hact
        next => simp at hact
        next hworker =>
          cases List.mem_singleton.mp hact
          exact hworker
        next => simp at hact
        all_goals exact absurd hact List.not_mem_nil
      | stop =>
        simp only [transitions] at hact
        split at hact
        · split at hact <;> simp at hact
        all_goals simp at hact
      | tick =>
        simp only [transitions] at hact
        split at hact <;> simp at hact
      | submit | push | receive => exact absurd hact List.not_mem_nil
    exact (horigin.executing call request hworker).append _

/-- Requests are executed in the order in which they were pushed, and a call that was made when
another had already returned is executed behind it. -/
theorem fifo_of_run (w : World) (acts : List Act) :
    let s := Runs.run next (start w) acts
    s.executed <+: Runs.emitted next pushes (start w) acts ∧
      ∀ before after first second response, acts = before ++ after →
        (Runs.run next (start w) before).callers first = .answered response →
        (Runs.run next (start w) before).callers second = .idle → second ∈ s.executed →
          s.executed.idxOf first < s.executed.idxOf second := by
  intro s
  constructor
  · have hpushed : s.pushed = Runs.emitted next pushes (start w) acts :=
      Runs.append_emitted pushed_next (start w) acts
    rw [← hpushed]
    exact List.prefix_append _ _
  · rintro before after first second response rfl hanswered hidle hsecond
    set mid := Runs.run next (start w) before with hmid
    have hledger : Ledger mid := (ledger_start w).run before
    have hfirst : first ∈ mid.executed := by
      have hfollows := follows_run w before
      rw [← hfollows.executed]
      exact List.mem_map.mpr ⟨_, hfollows.answered first response hanswered, rfl⟩
    have hnew : second ∉ mid.executed := by
      intro hmem
      have haccepted := (hledger.accepted second).mp (List.mem_append_left _ hmem)
      rw [Accepted, hidle] at haccepted
      cases haccepted
    have hexecuted : s.executed = mid.executed ++ Runs.emitted next executes mid after := by
      have hrun : s = Runs.run next mid after := Runs.run_append _ _ _
      rw [hrun, Runs.append_emitted executed_next]
    rw [hexecuted, List.idxOf_append_of_mem hfirst, List.idxOf_append_of_notMem hnew]
    exact Nat.lt_add_right _ (List.idxOf_lt_length_of_mem hfirst)

end Threads

end OSCoreSim
