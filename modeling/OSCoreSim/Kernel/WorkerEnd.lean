import OSCoreSim.Kernel.Threads
/-!
# The end of the worker

When the worker ends, every accepted request has been served, unless the `shutdown`
behind an executed `exit` found requests in the queue: these are abandoned.
-/

namespace OSCoreSim

namespace Threads

variable {s : Threads}

/-- The worker has left its loop with an empty queue that takes no more. -/
def Drained (s : Threads) : Prop :=
  s.worker.Done → s.requestQueue.shutdownRequested = true ∧ s.requestQueue.values = []

/-- The worker has left its loop with these requests in the queue. -/
def Abandoned (values : List (ℕ × CommandRequest)) (s : Threads) : Prop :=
  s.worker.Done ∧ s.requestQueue.shutdownRequested = true ∧ s.requestQueue.values = values

theorem next_worker {act : Act} (h : ∀ env, act ≠ .work env) : (s.next act).worker = s.worker := by
  cases act with
  | submit call rawLine source =>
    simp only [next, submit, setCaller]
    split
    · split <;> rfl
    · rfl
  | push call =>
    simp only [next, push, setCaller]
    split
    · split <;> rfl
    · rfl
  | receive call =>
    simp only [next, receive, setCaller]
    split <;> rfl
  | work env => exact absurd rfl (h env)
  | stop =>
    simp only [next, stop, setWorkerRunning]
    split
    · split <;> rfl
    · rfl
    · split <;> rfl
    · split <;> rfl
    · rfl
  | tick => rw [next_tick]

theorem next_requestQueue {act : Act} (h : ∀ env, act ≠ .work env)
    (hdown : s.requestQueue.shutdownRequested = true) :
    (s.next act).requestQueue = s.requestQueue := by
  have hagain : s.requestQueue.shutdown = s.requestQueue := by
    rw [BlockingQueue.shutdown, ← hdown]
  cases act with
  | submit call rawLine source =>
    simp only [next, submit, setCaller]
    split
    · split <;> rfl
    · rfl
  | push call =>
    simp only [next, push, setCaller]
    split
    · split
      next queue hpush =>
        obtain ⟨hup, -⟩ := BlockingQueue.push_ok.mp hpush
        exact Bool.noConfusion (hup.symm.trans hdown)
      · rfl
    · rfl
  | receive call =>
    simp only [next, receive, setCaller]
    split <;> rfl
  | work env => exact absurd rfl (h env)
  | stop =>
    simp only [next, stop, setWorkerRunning]
    split
    · split <;> rfl
    · exact hagain
    · split <;> rfl
    · split <;> rfl
    · rfl
  | tick => rw [next_tick]

theorem work_done (h : s.worker.Done) (env : Environment) :
    (s.work env).worker = .terminated ∧ (s.work env).requestQueue = s.requestQueue := by
  unfold work
  rcases h with h | h
  · rw [h]
    exact ⟨rfl, rfl⟩
  · rw [h]
    exact ⟨h, rfl⟩

theorem Drained.next {act : Act} (h : Drained s) (hcloses : s.ClosesEmpty act) :
    Drained (s.next act) := by
  by_cases hwork : ∀ env, act ≠ .work env
  · intro hdone
    rw [next_worker hwork] at hdone
    obtain ⟨hdown, hvalues⟩ := h hdone
    rw [next_requestQueue hwork hdown]
    exact ⟨hdown, hvalues⟩
  obtain ⟨env, rfl⟩ : ∃ env, act = .work env := by simpa using hwork
  intro hdone
  by_cases hbefore : s.worker.Done
  · obtain ⟨-, hqueue⟩ := work_done hbefore env
    obtain ⟨hdown, hvalues⟩ := h hbefore
    change (s.work env).requestQueue.shutdownRequested = true ∧
      (s.work env).requestQueue.values = []
    rw [hqueue]
    exact ⟨hdown, hvalues⟩
  -- the loop ends at an empty queue, or behind an executed `exit`
  revert hdone
  simp only [Threads.next, work]
  split
  next => intro hdone; rcases hdone with hdone | hdone <;> cases hdone
  next hworker =>
    split
    next => exact fun hdone => absurd hdone hbefore
    next hpop =>
      obtain ⟨hvalues, hdown⟩ := BlockingQueue.pop_ended.mp hpop
      exact fun _ => ⟨hdown, hvalues⟩
    next => intro hdone; rcases hdone with hdone | hdone <;> cases hdone
  next => intro hdone; rcases hdone with hdone | hdone <;> cases hdone
  next =>
    intro hdone
    dsimp only at hdone
    split at hdone
    · exact absurd hdone (by decide)
    · exact absurd hdone (by decide)
  next hworker => exact fun _ => ⟨rfl, hcloses hworker⟩
  next hworker => exact absurd (Or.inl hworker) hbefore
  next hworker => exact absurd (Or.inr hworker) hbefore

theorem Abandoned.next {values : List (ℕ × CommandRequest)} (h : Abandoned values s) (act : Act) :
    Abandoned values (s.next act) := by
  obtain ⟨hdone, hdown, hvalues⟩ := h
  by_cases hwork : ∀ env, act ≠ .work env
  · rw [Abandoned, next_worker hwork, next_requestQueue hwork hdown]
    exact ⟨hdone, hdown, hvalues⟩
  obtain ⟨env, rfl⟩ : ∃ env, act = .work env := by simpa using hwork
  obtain ⟨hworker, hqueue⟩ := work_done hdone env
  change (s.work env).worker.Done ∧ (s.work env).requestQueue.shutdownRequested = true ∧
    (s.work env).requestQueue.values = values
  rw [hqueue]
  exact ⟨Or.inr hworker, hdown, hvalues⟩

theorem Abandoned.run {values : List (ℕ × CommandRequest)} (h : Abandoned values s)
    (acts : List Act) : Abandoned values (Runs.run Threads.next s acts) :=
  Runs.run_invariant' (fun _ act h _ => h.next act) h
    (Runs.permitted_of_forall fun _ _ _ => trivial)

/-- A `shutdown` that finds requests in the queue abandons them. -/
theorem abandoned_of_not_permitted {acts : List Act}
    (h : ¬Runs.Permitted Threads.next ClosesEmpty s acts) :
    ∃ values ≠ [], Abandoned values (Runs.run Threads.next s acts) := by
  induction acts generalizing s with
  | nil => exact absurd trivial h
  | cons act acts ih =>
    by_cases hact : s.ClosesEmpty act
    · exact ih fun hrest => h ⟨hact, hrest⟩
    cases act with
    | work env =>
      obtain ⟨hworker, hvalues⟩ : s.worker = .closing ∧ s.requestQueue.values ≠ [] := by
        simpa [ClosesEmpty] using hact
      have hnow : Abandoned s.requestQueue.values (s.next (.work env)) := by
        simp only [Threads.next, work, hworker]
        exact ⟨Or.inl rfl, rfl, rfl⟩
      exact ⟨_, hvalues, hnow.run acts⟩
    | submit | push | receive | stop | tick => exact absurd trivial hact

theorem Ledger.unserved (h : Ledger s) {values : List (ℕ × CommandRequest)}
    (habandoned : Abandoned values s) {request : ℕ × CommandRequest} (hmem : request ∈ values) :
    s.Accepted request.1 ∧ s.executed.count request.1 = 0 ∧ s.promises request.1 = none := by
  obtain ⟨hdone, -, rfl⟩ := habandoned
  have hheld : s.worker.held = [] := by
    rcases hdone with hdone | hdone <;> rw [hdone] <;> rfl
  have hqueued : request.1 ∈ s.requestQueue.values.map Prod.fst := List.mem_map_of_mem hmem
  have hnodup := h.nodup
  have haccepted := h.accepted request.1
  rw [pushed, hheld, List.nil_append] at hnodup haccepted
  have hnew : request.1 ∉ s.executed := fun hexecuted =>
    List.disjoint_of_nodup_append hnodup hexecuted hqueued
  refine ⟨haccepted.mp (List.mem_append_right _ hqueued), List.count_eq_zero.mpr hnew, ?_⟩
  rw [← Option.not_isSome_iff_eq_none, h.fulfilled]
  exact fun hfulfilled => hnew hfulfilled.1

/-- In every run of the threads that the worker has ended, every accepted request has been
executed once and answered just when no `shutdown` behind an `exit` found a request in the
queue. -/
theorem served_of_run (w : World) (acts : List Act)
    (hended : (Runs.run next (start w) acts).worker = .terminated) :
    (∀ call, (Runs.run next (start w) acts).Accepted call →
        (Runs.run next (start w) acts).Served call) ↔
      Runs.Permitted next ClosesEmpty (start w) acts := by
  have hledger := (ledger_start w).run acts
  constructor
  · intro hserved
    by_contra hnot
    obtain ⟨values, hne, habandoned⟩ := abandoned_of_not_permitted hnot
    obtain ⟨request, rest, rfl⟩ := List.exists_cons_of_ne_nil hne
    obtain ⟨haccepted, hcount, -⟩ := hledger.unserved habandoned List.mem_cons_self
    have honce := (hserved request.1 haccepted).1
    omega
  · intro hcloses call haccepted
    have hdrained : Drained (Runs.run next (start w) acts) :=
      Runs.run_invariant' (fun _ _ h hok => h.next hok)
        (fun hdone => by rcases hdone with hdone | hdone <;> cases hdone) hcloses
    obtain ⟨-, hvalues⟩ := hdrained (Or.inr hended)
    have hpushed : (Runs.run next (start w) acts).pushed =
        (Runs.run next (start w) acts).executed := by
      rw [pushed, hvalues, hended]
      exact List.append_nil _
    have hnodup := hledger.nodup
    have hmem := (hledger.accepted call).mpr haccepted
    rw [hpushed] at hnodup hmem
    refine ⟨List.count_eq_one_of_mem hnodup hmem, (hledger.fulfilled call).mpr ⟨hmem, ?_⟩⟩
    rw [hended]
    exact List.not_mem_nil

def booted : Threads := start { kernel := Kernel.start {} ∅ }

def firstServed : List Act :=
  [.work World.quietEnvironment, .push 0, .work World.quietEnvironment,
    .work World.quietEnvironment, .work World.quietEnvironment]

/-- Two callers, the second of whom asks for `exit`. -/
theorem served_of_run_exit :
    let s := Runs.run next booted ([.submit 0 (str "register a pw") .localConsole] ++
      firstServed ++ [.submit 1 (str "exit") .localConsole, .push 1] ++
      List.replicate 5 (.work World.quietEnvironment))
    ∀ call, s.Accepted call → s.Served call :=
  (served_of_run _ _ (by decide +kernel)).mpr (by decide +kernel)

/-- The second call is pushed behind the check of the worker's `exit` and in front of its
`shutdown`: it is never executed, and its caller waits for ever. -/
theorem request_lost :
    let s := Runs.run next booted ([.submit 0 (str "exit") .localConsole] ++ firstServed ++
      [.submit 1 (str "status") .remoteClient, .push 1] ++
      List.replicate 2 (.work World.quietEnvironment))
    s.worker = .terminated ∧ s.Accepted 1 ∧ ¬s.Served 1 ∧
      ∀ acts, (Runs.run next s acts).promises 1 = none := by
  intro s
  have hended : s.worker = .terminated := by decide +kernel
  have hledger : Ledger s := (ledger_start _).run _
  have habandoned :
      Abandoned [(1, { id := 2, rawLine := str "status", source := .remoteClient })] s := by
    refine ⟨Or.inr hended, ?_, ?_⟩
    · decide +kernel
    · decide +kernel
  obtain ⟨haccepted, hcount, -⟩ := hledger.unserved habandoned List.mem_cons_self
  refine ⟨hended, haccepted, fun hserved => ?_, fun acts => ?_⟩
  · exact absurd (hcount.symm.trans hserved.1) (by decide)
  · exact ((hledger.run acts).unserved (habandoned.run acts) List.mem_cons_self).2.2

end Threads

end OSCoreSim
