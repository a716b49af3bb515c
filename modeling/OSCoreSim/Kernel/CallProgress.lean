import OSCoreSim.Kernel.Linearization
import OSCoreSim.Kernel.Shutdown
/-!
# A call on its way

What a step of the kernel does to one call of `submitCommand`, and how many steps of the worker it
is away from its answer.
-/

namespace OSCoreSim

def Act.caller? : Act → Option ℕ
  | .submit call _ _ | .push call | .receive call => some call
  | .work _ | .stop | .tick => none

def Caller.settled : Caller → Bool
  | .refused _ | .answered _ => true
  | .idle | .admitted _ | .waiting => false

namespace Threads

variable {s : Threads} {c : ℕ} {act : Act}

/-! ## The caller -/

theorem next_callers {act : Act} (h : act.caller? ≠ some c) :
    (s.next act).callers c = s.callers c := by
  have hset : ∀ {s' : Threads} {call : ℕ} (caller : Caller), call ≠ c →
      (s'.setCaller call caller).callers c = s'.callers c :=
    fun caller hne => Function.update_of_ne (Ne.symm hne) _ _
  cases act with
  | submit call rawLine source =>
    have hne : call ≠ c := fun heq => h (congrArg some heq)
    simp only [next, submit]
    split
    · split
      · exact hset _ hne
      · exact hset _ hne
    · rfl
  | push call =>
    have hne : call ≠ c := fun heq => h (congrArg some heq)
    simp only [next, push]
    split
    · split
      · exact hset _ hne
      · exact hset _ hne
    · rfl
  | receive call =>
    have hne : call ≠ c := fun heq => h (congrArg some heq)
    simp only [next, receive]
    split
    · exact hset _ hne
    · rfl
  | work env =>
    simp only [next, work, setWorkerRunning]
    split
    case h_2 => split <;> rfl
    all_goals rfl
  | stop =>
    simp only [next, stop, setWorkerRunning]
    split
    case h_2 | h_5 => rfl
    all_goals split <;> rfl
  | tick => rw [next_tick]

theorem submit_callers (h : s.callers c = .idle) (rawLine : Str) (source : CommandSource) :
    (s.submit c rawLine source).callers c ≠ .idle := by
  unfold submit
  rw [h]
  dsimp only
  split
  · simp [setCaller]
  · simp [setCaller]

theorem push_callers {request : CommandRequest} (h : s.callers c = .admitted request) :
    (s.push c).callers c = .waiting ∨ ((s.push c).callers c).settled = true := by
  unfold push
  rw [h]
  dsimp only
  split
  · exact .inl (by simp [setCaller])
  · exact .inr (by simp [setCaller, Caller.settled])

theorem receive_callers (h : s.callers c = .waiting) :
    (s.receive c).callers c = (s.promises c).elim .waiting .answered := by
  unfold receive
  rw [h]
  cases hpromise : s.promises c with
  | none => exact h
  | some response => simp [setCaller]

/-! ## A call of the kernel -/

def queued (s : Threads) : List ℕ := s.requestQueue.values.map Prod.fst

structure Regular (s : Threads) : Prop where
  ledger : Ledger s
  follows : ∃ q, Follows s q
  orderly : Orderly s
  /-- The worker leaves its loop with a queue that is shut down. -/
  down : s.worker.Done → s.requestQueue.shutdownRequested = true

theorem regular_start (w : World) : Regular (start w) where
  ledger := ledger_start w
  follows := ⟨_, follows_start w⟩
  orderly := .inl ⟨rfl, rfl⟩
  down := fun hdone => by rcases hdone with hdone | hdone <;> cases hdone

/-- The worker leaves its loop at an empty queue, or behind an executed `exit`. -/
theorem left_loop {env : Environment} (hbefore : ¬s.worker.Done)
    (hdone : (s.work env).worker.Done) :
    (s.work env).requestQueue.shutdownRequested = true ∧
      ((s.work env).queued = [] ∨ s.worker = .closing ∧ (s.work env).queued = s.queued) := by
  revert hdone
  unfold work
  cases hworker : s.worker with
  | starting | executing => exact fun hdone => by rcases hdone with hdone | hdone <;> cases hdone
  | popping =>
    dsimp only
    split
    next => exact fun hdone => absurd hdone hbefore
    next hpop =>
      obtain ⟨hvalues, hdown⟩ := BlockingQueue.pop_ended.mp hpop
      exact fun _ => ⟨hdown, .inl (congrArg (List.map Prod.fst) hvalues)⟩
    next => exact fun hdone => by rcases hdone with hdone | hdone <;> cases hdone
  | answering call response =>
    dsimp only
    split
    · exact fun hdone => absurd hdone (by decide)
    · exact fun hdone => absurd hdone (by decide)
  | closing => exact fun _ => ⟨rfl, .inr ⟨rfl, rfl⟩⟩
  | leaving => exact absurd (Or.inl hworker) hbefore
  | terminated => exact absurd (Or.inr hworker) hbefore

theorem down_next (h : s.worker.Done → s.requestQueue.shutdownRequested = true) (act : Act)
    (hdone : (s.next act).worker.Done) : (s.next act).requestQueue.shutdownRequested = true := by
  by_cases hbefore : s.worker.Done
  · exact next_shutdown (h hbefore) act
  by_cases hwork : ∀ env, act ≠ .work env
  · rw [next_worker hwork] at hdone
    exact absurd hdone hbefore
  obtain ⟨env, rfl⟩ : ∃ env, act = .work env := by simpa using hwork
  exact (left_loop hbefore hdone).1

theorem Regular.next (h : Regular s) (act : Act) : Regular (s.next act) where
  ledger := h.ledger.next act
  follows := by
    obtain ⟨q, hq⟩ := h.follows
    exact ⟨_, hq.next act⟩
  orderly := h.orderly.next act
  down := down_next h.down act

theorem Regular.waiting_of_queued (h : Regular s) (hmem : c ∈ s.queued) :
    s.callers c = .waiting ∧ s.promises c = none := by
  obtain ⟨q, hq⟩ := h.follows
  have hpushed : c ∈ s.pushed := List.mem_append_right _ (List.mem_append_right _ hmem)
  have haccepted := (h.ledger.accepted c).mp hpushed
  have hnew : c ∉ s.executed := fun hexecuted =>
    List.disjoint_of_nodup_append h.ledger.nodup hexecuted (List.mem_append_right _ hmem)
  constructor
  · unfold Accepted at haccepted
    cases hcaller : s.callers c with
    | waiting => rfl
    | answered response =>
      have hresponse := List.mem_map_of_mem (f := Prod.fst) (hq.answered c response hcaller)
      rw [hq.executed] at hresponse
      exact absurd hresponse hnew
    | idle | admitted | refused =>
      rw [hcaller] at haccepted
      cases haccepted
  · rw [← Option.not_isSome_iff_eq_none, h.ledger.fulfilled]
    exact fun hfulfilled => hnew hfulfilled.1

/-- A call that waits for its promise is at the worker or in the queue. -/
theorem Ledger.place (h : Ledger s) (hcaller : s.callers c = .waiting)
    (hpromise : s.promises c = none) :
    c ∈ s.worker.owing ∨ c ∈ s.worker.held ∨ c ∈ s.queued := by
  have haccepted : s.Accepted c := by
    rw [Accepted, hcaller]
    rfl
  rcases List.mem_append.mp ((h.accepted c).mpr haccepted) with hexecuted | hrest
  · by_contra hnot
    have hfulfilled := (h.fulfilled c).mpr ⟨hexecuted, fun howing => hnot (.inl howing)⟩
    rw [hpromise] at hfulfilled
    cases hfulfilled
  · exact .inr (List.mem_append.mp hrest)

theorem next_promises (h : (s.promises c).isSome) (act : Act) :
    ((s.next act).promises c).isSome := by
  cases act with
  | submit call rawLine source =>
    simp only [next, submit, setCaller]
    split
    · split <;> exact h
    · exact h
  | push call =>
    simp only [next, push, setCaller]
    split
    · split <;> exact h
    · exact h
  | receive call =>
    simp only [next, receive, setCaller]
    split <;> exact h
  | stop =>
    simp only [next, stop, setWorkerRunning]
    split
    case h_2 | h_5 => exact h
    all_goals split <;> exact h
  | tick =>
    rw [next_tick]
    exact h
  | work env =>
    simp only [next, work, setWorkerRunning]
    split
    case h_2 => split <;> exact h
    case h_4 call response _ =>
      dsimp only
      by_cases heq : c = call
      · rw [heq, Function.update_self]
        rfl
      · rw [Function.update_of_ne heq]
        exact h
    all_goals exact h

/-! ## The way to the answer -/

/-- The steps that the worker takes at most to the answer of a call that waits. -/
def answerLeft (s : Threads) (c : ℕ) : ℕ :=
  match s.worker with
  | .starting => 3 * s.queued.idxOf c + 4
  | .popping => 3 * s.queued.idxOf c + 3
  | .executing call _ => if call = c then 2 else 3 * s.queued.idxOf c + 5
  | .answering call _ => if call = c then 1 else 3 * s.queued.idxOf c + 4
  | .closing | .leaving | .terminated => 0

/-- The worker does not leave its loop with the call in the queue. -/
def Keeps (s : Threads) (c : ℕ) : Prop :=
  s.worker = .closing ∨ s.worker.Done → c ∉ s.queued

theorem answerLeft_work (h : Regular s) (hcaller : s.callers c = .waiting)
    (hpromise : s.promises c = none) (hkeeps : s.Keeps c) (env : Environment) :
    ((s.work env).promises c).isSome ∨ (s.work env).answerLeft c < s.answerLeft c := by
  have hplace := h.ledger.place hcaller hpromise
  unfold work
  cases hworker : s.worker with
  | starting =>
    refine .inr ?_
    simp [answerLeft, hworker, queued, setWorkerRunning]
  | popping =>
    rw [hworker] at hplace
    have hmem : c ∈ s.queued := by simpa [Worker.owing, Worker.held] using hplace
    dsimp only
    cases hpop : s.requestQueue.pop with
    | blocked =>
      have hnone : s.requestQueue.values = [] := by
        unfold BlockingQueue.pop at hpop
        split at hpop
        · cases hpop
        next hvalues => exact hvalues
      rw [queued, hnone] at hmem
      cases hmem
    | ended =>
      rw [queued, (BlockingQueue.pop_ended.mp hpop).1] at hmem
      cases hmem
    | value entry rest =>
      refine .inr ?_
      obtain ⟨hvalues, -⟩ := BlockingQueue.pop_value.mp hpop
      have hqueued : s.queued = entry.1 :: rest.values.map Prod.fst := by
        rw [queued, hvalues]
        rfl
      simp only [answerLeft, hworker, hqueued, List.idxOf_cons]
      dsimp only [queued]
      by_cases heq : entry.1 = c
      · simp [heq]
      · simp only [heq, if_false, beq_iff_eq, cond_eq_ite]
        omega
  | executing call request =>
    refine .inr ?_
    simp only [answerLeft, hworker]
    dsimp only [queued]
    split <;> omega
  | answering call response =>
    by_cases heq : call = c
    · refine .inl ?_
      dsimp only
      rw [heq, Function.update_self]
      rfl
    · refine .inr ?_
      cases hexit : response.shouldExit with
      | false =>
        simp only [answerLeft, hworker, heq, if_false, hexit, Bool.false_eq_true]
        dsimp only [queued]
        omega
      | true =>
        simp only [answerLeft, hworker, heq, if_false, hexit, if_true]
        omega
  | closing =>
    rw [hworker] at hplace
    have hmem : c ∈ s.queued := by simpa [Worker.owing, Worker.held] using hplace
    exact absurd hmem (hkeeps (.inl hworker))
  | leaving | terminated =>
    rw [hworker] at hplace
    have hmem : c ∈ s.queued := by simpa [Worker.owing, Worker.held] using hplace
    exact absurd hmem (hkeeps (.inr (by simp [Worker.Done, hworker])))

theorem queued_next (hwork : ∀ env, act ≠ .work env) :
    ∃ more, (s.next act).queued = s.queued ++ more := by
  cases act with
  | push call =>
    simp only [next, push, setCaller]
    split
    next request _ =>
      split
      next queue hpush =>
        obtain ⟨-, rfl⟩ := BlockingQueue.push_ok.mp hpush
        exact ⟨[call], by simp [queued]⟩
      next => exact ⟨[], (List.append_nil _).symm⟩
    next => exact ⟨[], (List.append_nil _).symm⟩
  | submit call rawLine source =>
    refine ⟨[], ?_⟩
    simp only [next, submit, setCaller, queued, List.append_nil]
    split
    · split <;> rfl
    · rfl
  | receive call =>
    refine ⟨[], ?_⟩
    simp only [next, receive, setCaller, queued, List.append_nil]
    split <;> rfl
  | stop =>
    refine ⟨[], ?_⟩
    simp only [next, stop, setWorkerRunning, queued, List.append_nil]
    split
    case h_2 | h_5 => rfl
    all_goals split <;> rfl
  | tick =>
    refine ⟨[], ?_⟩
    rw [next_tick]
    exact (List.append_nil _).symm
  | work env => exact absurd rfl (hwork env)

/-- Only the worker brings a call nearer to its answer, and nobody takes it back. -/
theorem answerLeft_next (h : Regular s) (hcaller : s.callers c = .waiting)
    (hpromise : s.promises c = none) (hwork : ∀ env, act ≠ .work env) :
    (s.next act).answerLeft c = s.answerLeft c := by
  obtain ⟨more, hmore⟩ := queued_next hwork
  have hplace := h.ledger.place hcaller hpromise
  have hindex : c ∈ s.queued → (s.next act).queued.idxOf c = s.queued.idxOf c := fun hmem => by
    rw [hmore, List.idxOf_append_of_mem hmem]
  unfold answerLeft
  rw [next_worker hwork]
  cases hworker : s.worker with
  | executing call request | answering call response =>
    dsimp only
    split
    next => rfl
    next hne =>
      rw [hworker] at hplace
      have hmem : c ∈ s.queued := by
        simpa [Worker.owing, Worker.held, Ne.symm hne] using hplace
      rw [hindex hmem]
  | starting | popping =>
    rw [hworker] at hplace
    have hmem : c ∈ s.queued := by simpa [Worker.owing, Worker.held] using hplace
    dsimp only
    rw [hindex hmem]
  | closing | leaving | terminated => rfl

def beginLeft (s : Threads) : ℕ :=
  match s.stopper with
  | .outside => 2
  | .shuttingDown => 1
  | .joiningScheduler | .joiningWorker | .finishing => 0

end Threads

end OSCoreSim
