import OSCoreSim.Kernel.WorkerEnd
/-!
# The kernel stops

A `stop` that has begun comes to its end however the other threads move: the worker serves what
is left in the queue in a bounded number of steps and ends, the scheduler ends at its next check of
`shuttingDown_`, `stop` joins both, and from then on every call is refused and no thread touches
the kernel any more.
-/

namespace OSCoreSim

deriving instance DecidableEq for Stopper

def Act.isWork : Act → Bool
  | .work _ => true
  | .submit .. | .push _ | .receive _ | .stop | .tick => false

def Act.isTick : Act → Bool
  | .tick => true
  | .submit .. | .push _ | .receive _ | .work _ | .stop => false

def Act.isStop : Act → Bool
  | .stop => true
  | .submit .. | .push _ | .receive _ | .work _ | .tick => false

namespace Threads

variable {s : Threads} {act : Act} {acts : List Act}

/-! ## The worker behind the shutdown -/

/-- The steps that the worker takes at most to its end, once the queue is shut down. -/
def workLeft (s : Threads) : ℕ :=
  match s.worker with
  | .starting => 3 * s.requestQueue.values.length + 3
  | .popping => 3 * s.requestQueue.values.length + 2
  | .executing .. => 3 * s.requestQueue.values.length + 4
  | .answering .. => 3 * s.requestQueue.values.length + 3
  | .closing => 2
  | .leaving => 1
  | .terminated => 0

theorem workLeft_eq_zero : s.workLeft = 0 ↔ s.worker = .terminated := by
  unfold workLeft
  cases s.worker <;> simp

theorem next_shutdown (hdown : s.requestQueue.shutdownRequested = true) (act : Act) :
    (s.next act).requestQueue.shutdownRequested = true := by
  by_cases hwork : ∀ env, act ≠ .work env
  · rw [next_requestQueue hwork hdown]
    exact hdown
  obtain ⟨env, rfl⟩ : ∃ env, act = .work env := by simpa using hwork
  simp only [next, work]
  split
  case h_2 =>
    split
    · exact hdown
    · exact hdown
    next hpop =>
      obtain ⟨-, hflag⟩ := BlockingQueue.pop_value.mp hpop
      exact hflag.trans hdown
  case h_5 => rfl
  all_goals exact hdown

theorem workLeft_work (hdown : s.requestQueue.shutdownRequested = true) (env : Environment) :
    (s.work env).workLeft ≤ s.workLeft - 1 := by
  unfold work
  split
  next hworker => simp [workLeft, hworker, setWorkerRunning]
  next hworker =>
    split
    next hpop =>
      exfalso
      unfold BlockingQueue.pop at hpop
      rw [hdown] at hpop
      split at hpop <;> simp at hpop
    next => simp [workLeft, hworker]
    next hpop =>
      obtain ⟨hvalues, -⟩ := BlockingQueue.pop_value.mp hpop
      simp only [workLeft, hworker, hvalues, List.length_cons]
      omega
  next hworker => simp [workLeft, hworker]
  next hworker =>
    simp only [workLeft, hworker]
    split
    next heq => split at heq <;> cases heq
    next => omega
    next heq => split at heq <;> cases heq
    next heq => split at heq <;> cases heq
    all_goals omega
  next hworker => simp [workLeft, hworker]
  next hworker => simp [workLeft, hworker]
  next hworker => simp [workLeft, hworker]

theorem workLeft_next (hdown : s.requestQueue.shutdownRequested = true) (act : Act) :
    (s.next act).workLeft ≤ s.workLeft := by
  by_cases hwork : ∀ env, act ≠ .work env
  · rw [workLeft, workLeft, next_worker hwork, next_requestQueue hwork hdown]
  obtain ⟨env, rfl⟩ : ∃ env, act = .work env := by simpa using hwork
  exact Nat.le_trans (workLeft_work hdown env) (Nat.sub_le _ _)

theorem worker_ends (hdown : s.requestQueue.shutdownRequested = true)
    (hsteps : s.workLeft ≤ acts.countP Act.isWork) :
    (Runs.run next s acts).worker = .terminated := by
  have hwork : ∀ (s : Threads) (act : Act), s.requestQueue.shutdownRequested = true →
      act.isWork = true → (s.next act).workLeft ≤ s.workLeft - 1 := by
    intro s act h hact
    cases act with
    | work env => exact workLeft_work h env
    | submit | push | receive | stop | tick => cases hact
  have hle : (Runs.run next s acts).workLeft ≤ s.workLeft - acts.countP Act.isWork :=
    Runs.run_measure_le (P := fun s => s.requestQueue.shutdownRequested = true) (m := workLeft)
      (fun _ act h => next_shutdown h act) (fun _ act h => workLeft_next h act) hwork hdown acts
  exact workLeft_eq_zero.mp (by omega)

/-! ## The scheduler behind the flag -/

def schedulerLeft (s : Threads) : ℕ :=
  match s.scheduler with
  | .checking => 1
  | .locking => 2
  | .reading => 3
  | .terminated => 0

theorem schedulerLeft_eq_zero : s.schedulerLeft = 0 ↔ s.scheduler = .terminated := by
  unfold schedulerLeft
  cases s.scheduler <;> simp

theorem next_scheduler (h : act.isTick = false) : (s.next act).scheduler = s.scheduler := by
  cases act with
  | submit call rawLine source =>
    simp only [next, submit, setCaller]
    split
    · split <;> rfl
    · rfl
  | push call =>
    simp only [next, push, setCaller]
    split
    · split <;> rfl
    · rfl
  | receive call =>
    simp only [next, receive, setCaller]
    split <;> rfl
  | work env =>
    simp only [next, work, setWorkerRunning]
    split
    case h_2 => split <;> rfl
    all_goals rfl
  | stop =>
    simp only [next, stop, setWorkerRunning]
    split
    case h_2 | h_5 => rfl
    all_goals split <;> rfl
  | tick => cases h

theorem next_scheduler_terminated (h : s.scheduler = .terminated) (act : Act) :
    (s.next act).scheduler = .terminated := by
  cases hact : act.isTick with
  | false => exact (next_scheduler hact).trans h
  | true =>
    cases act with
    | tick => simp only [next, tick, h]
    | submit | push | receive | work | stop => cases hact

theorem schedulerLeft_tick (hflag : s.shuttingDown = true) :
    (s.next .tick).schedulerLeft ≤ s.schedulerLeft - 1 := by
  simp only [next, tick]
  split
  next hplace => simp [schedulerLeft, hplace, hflag]
  next hplace =>
    simp only [schedulerLeft, hplace]
    split
    next heq => exact Nat.le_succ 1
    next heq => exact Nat.le_refl 2
    next heq => split at heq <;> cases heq
    next heq => exact Nat.zero_le 2
  next hplace => simp [schedulerLeft, hplace]
  next hplace => simp [schedulerLeft, hplace]

/-! ## The thread in `stop` -/

structure Closed (s : Threads) : Prop where
  started : s.started = false
  joined : s.joined = true
  scheduler : s.scheduler = .terminated
  worker : s.worker = .terminated
  stopper : s.stopper = .outside
  down : s.requestQueue.shutdownRequested = true

/-- What `stop` has seen of the two threads behind the shutdown of the queue. -/
inductive Joining (s : Threads) : Prop
  | scheduler (h : s.stopper = .joiningScheduler)
  | worker (h : s.stopper = .joiningWorker) (hscheduler : s.scheduler = .terminated)
  | finishing (h : s.stopper = .finishing) (hscheduler : s.scheduler = .terminated)
      (hworker : s.worker = .terminated) (hjoined : s.joined = true)
  | closed (h : Closed s)

structure Stopping (s : Threads) : Prop where
  flag : s.shuttingDown = true
  down : s.requestQueue.shutdownRequested = true
  joining : Joining s

def Underway (s : Threads) : Prop :=
  s.stopper = .shuttingDown ∧ s.shuttingDown = true ∨ Stopping s

def Orderly (s : Threads) : Prop := s.stopper = .outside ∧ s.started = true ∨ Underway s

theorem next_stopper (h : act.isStop = false) : (s.next act).stopper = s.stopper ∧
    (s.next act).started = s.started ∧ (s.next act).joined = s.joined ∧
    (s.next act).shuttingDown = s.shuttingDown := by
  cases act with
  | submit call rawLine source =>
    simp only [next, submit, setCaller]
    split
    · split <;> exact ⟨rfl, rfl, rfl, rfl⟩
    · exact ⟨rfl, rfl, rfl, rfl⟩
  | push call =>
    simp only [next, push, setCaller]
    split
    · split <;> exact ⟨rfl, rfl, rfl, rfl⟩
    · exact ⟨rfl, rfl, rfl, rfl⟩
  | receive call =>
    simp only [next, receive, setCaller]
    split <;> exact ⟨rfl, rfl, rfl, rfl⟩
  | work env =>
    simp only [next, work, setWorkerRunning]
    split
    case h_2 => split <;> exact ⟨rfl, rfl, rfl, rfl⟩
    all_goals exact ⟨rfl, rfl, rfl, rfl⟩
  | stop => cases h
  | tick =>
    rw [next_tick]
    exact ⟨rfl, rfl, rfl, rfl⟩

theorem next_shuttingDown (h : s.shuttingDown = true) (act : Act) :
    (s.next act).shuttingDown = true := by
  cases hact : act.isStop with
  | false => exact (next_stopper hact).2.2.2.trans h
  | true =>
    cases act with
    | submit | push | receive | work | tick => cases hact
    | stop =>
      simp only [next, stop, setWorkerRunning]
      split
      case h_2 | h_5 => exact h
      all_goals split <;> first | exact h | rfl

theorem schedulerLeft_next (hflag : s.shuttingDown = true) (act : Act) :
    (s.next act).schedulerLeft ≤ s.schedulerLeft := by
  cases hact : act.isTick with
  | false => rw [schedulerLeft, schedulerLeft, next_scheduler hact]
  | true =>
    cases act with
    | tick => exact Nat.le_trans (schedulerLeft_tick hflag) (Nat.sub_le _ _)
    | submit | push | receive | work | stop => cases hact

theorem scheduler_ends (hflag : s.shuttingDown = true)
    (hsteps : s.schedulerLeft ≤ acts.countP Act.isTick) :
    (Runs.run next s acts).scheduler = .terminated := by
  have htick : ∀ (s : Threads) (act : Act), s.shuttingDown = true → act.isTick = true →
      (s.next act).schedulerLeft ≤ s.schedulerLeft - 1 := by
    intro s act h hact
    cases act with
    | tick => exact schedulerLeft_tick h
    | submit | push | receive | work | stop => cases hact
  have hle : (Runs.run next s acts).schedulerLeft ≤ s.schedulerLeft - acts.countP Act.isTick :=
    Runs.run_measure_le (P := fun s => s.shuttingDown = true) (m := schedulerLeft)
      (fun _ act h => next_shuttingDown h act) (fun _ act h => schedulerLeft_next h act) htick
      hflag acts
  exact schedulerLeft_eq_zero.mp (by omega)

theorem next_terminated (h : s.worker = .terminated) (act : Act) :
    (s.next act).worker = .terminated := by
  by_cases hwork : ∀ env, act ≠ .work env
  · rw [next_worker hwork, h]
  obtain ⟨env, rfl⟩ : ∃ env, act = .work env := by simpa using hwork
  exact (work_done (Or.inr h) env).1

theorem Closed.next (h : Closed s) (act : Act) : Closed (s.next act) := by
  have hscheduler := next_scheduler_terminated h.scheduler act
  have hworker := next_terminated h.worker act
  have hdown := next_shutdown h.down act
  cases hact : act.isStop with
  | false =>
    obtain ⟨hstopper, hstarted, hjoined, -⟩ := next_stopper (s := s) hact
    exact ⟨hstarted.trans h.started, hjoined.trans h.joined, hscheduler, hworker,
      hstopper.trans h.stopper, hdown⟩
  | true =>
    have hsame : s.next act = s := by
      cases act with
      | stop => simp [Threads.next, stop, h.stopper, h.started, h.joined]
      | submit | push | receive | work | tick => cases hact
    rw [hsame]
    exact h

theorem Stopping.next (h : Stopping s) (act : Act) : Stopping (s.next act) := by
  refine ⟨next_shuttingDown h.flag act, next_shutdown h.down act, ?_⟩
  cases hact : act.isStop with
  | false =>
    obtain ⟨hstopper, -, hjoined, -⟩ := next_stopper (s := s) hact
    cases h.joining with
    | scheduler h => exact .scheduler (hstopper.trans h)
    | worker h hscheduler =>
      exact .worker (hstopper.trans h) (next_scheduler_terminated hscheduler act)
    | finishing h hscheduler hworker hdone =>
      exact .finishing (hstopper.trans h) (next_scheduler_terminated hscheduler act)
        (next_terminated hworker act) (hjoined.trans hdone)
    | closed h => exact .closed (h.next act)
  | true =>
    cases act with
    | submit | push | receive | work | tick => cases hact
    | stop =>
      cases h.joining with
      | scheduler hplace =>
        simp only [Threads.next, Threads.stop, hplace]
        split
        next hscheduler => exact .worker rfl hscheduler
        next => exact .scheduler hplace
      | worker hplace hscheduler =>
        simp only [Threads.next, Threads.stop, hplace]
        split
        next hworker => exact .finishing rfl hscheduler hworker rfl
        next => exact .worker hplace hscheduler
      | finishing hplace hscheduler hworker hdone =>
        simp only [Threads.next, Threads.stop, hplace]
        exact .closed ⟨rfl, hdone, hscheduler, hworker, rfl, h.down⟩
      | closed h => exact .closed (h.next .stop)

theorem Underway.next (h : Underway s) (act : Act) : Underway (s.next act) := by
  rcases h with ⟨hplace, hflag⟩ | h
  · cases hact : act.isStop with
    | false =>
      exact .inl ⟨(next_stopper hact).1.trans hplace, next_shuttingDown hflag act⟩
    | true =>
      cases act with
      | submit | push | receive | work | tick => cases hact
      | stop =>
        simp only [Threads.next, Threads.stop, hplace]
        exact .inr ⟨hflag, rfl, .scheduler rfl⟩
  · exact .inr (h.next act)

theorem Orderly.next (h : Orderly s) (act : Act) : Orderly (s.next act) := by
  rcases h with ⟨houtside, hstarted⟩ | h
  · cases hact : act.isStop with
    | false =>
      obtain ⟨hstopper, hstart, -⟩ := next_stopper (s := s) hact
      exact .inl ⟨hstopper.trans houtside, hstart.trans hstarted⟩
    | true =>
      cases act with
      | submit | push | receive | work | tick => cases hact
      | stop =>
        refine .inr (.inl ?_)
        simp [Threads.next, stop, houtside, hstarted]
  · exact .inr (h.next act)

theorem orderly_run (w : World) (acts : List Act) : Orderly (Runs.run next (start w) acts) :=
  Runs.run_always (fun _ act h => h.next act) (.inl ⟨rfl, rfl⟩) acts

/-- The next step of `stop` shuts the queue down, if it is not down yet. -/
theorem Underway.stopping (h : Underway s) (hstop : 1 ≤ acts.countP Act.isStop) :
    Stopping (Runs.run Threads.next s acts) := by
  induction acts generalizing s with
  | nil => simp at hstop
  | cons act acts ih =>
    rw [Runs.run_cons]
    by_cases hact : act.isStop = true
    · have hnow : Stopping (s.next act) := by
        rcases h with ⟨hplace, hflag⟩ | h
        · cases act with
          | submit | push | receive | work | tick => cases hact
          | stop =>
            simp only [Threads.next, Threads.stop, hplace]
            exact ⟨hflag, rfl, .scheduler rfl⟩
        · exact h.next act
      exact Runs.run_always (fun _ act h => h.next act) hnow acts
    · exact ih (h.next act) (by simpa [hact] using hstop)

def stopLeft (s : Threads) : ℕ :=
  match s.stopper with
  | .outside => 0
  | .shuttingDown => 4
  | .joiningScheduler => 3
  | .joiningWorker => 2
  | .finishing => 1

structure Alone (s : Threads) : Prop where
  stopping : Stopping s
  scheduler : s.scheduler = .terminated
  worker : s.worker = .terminated

theorem Alone.next (h : Alone s) (act : Act) : Alone (s.next act) where
  stopping := h.stopping.next act
  scheduler := next_scheduler_terminated h.scheduler act
  worker := next_terminated h.worker act

theorem stopLeft_stop (h : Alone s) : s.stop.stopLeft ≤ s.stopLeft - 1 := by
  cases h.stopping.joining with
  | scheduler hplace => simp [Threads.stop, hplace, h.scheduler, stopLeft]
  | worker hplace => simp [Threads.stop, hplace, h.worker, stopLeft]
  | finishing hplace => simp [Threads.stop, hplace, stopLeft, setWorkerRunning]
  | closed h => simp [Threads.stop, h.stopper, h.started, h.joined, stopLeft]

theorem closed_of_joins (h : Alone s) (hstop : 3 ≤ acts.countP Act.isStop) :
    Closed (Runs.run next s acts) := by
  have hdown : ∀ (s : Threads) (act : Act), Alone s → act.isStop = true →
      (s.next act).stopLeft ≤ s.stopLeft - 1 := by
    intro s act h hact
    cases act with
    | stop => exact stopLeft_stop h
    | submit | push | receive | work | tick => cases hact
  have hle : ∀ (s : Threads) (act : Act), Alone s → (s.next act).stopLeft ≤ s.stopLeft := by
    intro s act h
    cases hact : act.isStop with
    | false => rw [stopLeft, stopLeft, (next_stopper hact).1]
    | true => exact Nat.le_trans (hdown s act h hact) (Nat.sub_le _ _)
  have hleft : (Runs.run next s acts).stopLeft ≤ s.stopLeft - acts.countP Act.isStop :=
    Runs.run_measure_le (m := stopLeft) (fun _ act h => Alone.next h act) hle hdown h acts
  have hfirst : s.stopLeft ≤ 3 := by
    cases h.stopping.joining with
    | scheduler h | worker h | finishing h => simp [stopLeft, h]
    | closed h => simp [stopLeft, h.stopper]
  have hend : Stopping (Runs.run next s acts) :=
    Runs.run_always (fun _ act h => h.next act) h.stopping acts
  have hzero : (Runs.run next s acts).stopLeft = 0 := by omega
  cases hend.joining with
  | scheduler h | worker h | finishing h => simp [stopLeft, h] at hzero
  | closed h => exact h

/-! ## The whole of `stop` -/

/-- Behind `stop` no thread touches the kernel, nothing is executed, and every new call is
refused. -/
structure Silent (s : Threads) : Prop where
  world : ∀ acts, (Runs.run next s acts).world = s.world
  executed : ∀ acts, (Runs.run next s acts).executed = s.executed
  refused : ∀ acts call rawLine source, (Runs.run next s acts).callers call = .idle →
    ((Runs.run next s acts).submit call rawLine source).callers call =
      .refused { success := false, message := str "Kernel is not running." }

/-- The only steps left are those of the callers. -/
theorem Closed.frame (h : Closed s) (act : Act) :
    (s.next act).world = s.world ∧ (s.next act).executed = s.executed := by
  cases act with
  | submit call rawLine source =>
    simp only [Threads.next, submit, setCaller]
    split
    · split <;> exact ⟨rfl, rfl⟩
    · exact ⟨rfl, rfl⟩
  | push call =>
    simp only [Threads.next, push, setCaller]
    split
    · split <;> exact ⟨rfl, rfl⟩
    · exact ⟨rfl, rfl⟩
  | receive call =>
    simp only [Threads.next, receive, setCaller]
    split <;> exact ⟨rfl, rfl⟩
  | work env => simp [Threads.next, work, h.worker]
  | stop => simp [Threads.next, Threads.stop, h.stopper, h.started, h.joined]
  | tick => simp [Threads.next, tick, h.scheduler]

theorem Closed.silent (h : Closed s) : Silent s := by
  have hrun : ∀ acts, Closed (Runs.run Threads.next s acts) ∧
      (Runs.run Threads.next s acts).world = s.world ∧
      (Runs.run Threads.next s acts).executed = s.executed := by
    refine Runs.run_always (P := fun s' => Closed s' ∧ s'.world = s.world ∧
      s'.executed = s.executed) (fun s' act h' => ?_) ⟨h, rfl, rfl⟩
    obtain ⟨hclosed, hworld, hexecuted⟩ := h'
    obtain ⟨hkernel, hsame⟩ := hclosed.frame act
    exact ⟨hclosed.next act, hkernel.trans hworld, hsame.trans hexecuted⟩
  refine ⟨fun acts => (hrun acts).2.1, fun acts => (hrun acts).2.2, ?_⟩
  intro acts call rawLine source hidle
  simp [submit, hidle, (hrun acts).1.started, setCaller]

def late : List Act :=
  [.work World.quietEnvironment, .submit 0 (str "whoami") .localConsole, .tick, .stop, .push 0]

def drained : List Act := List.replicate 5 (.work World.quietEnvironment) ++ List.replicate 3 .tick

end Threads

end OSCoreSim
