import OSCoreSim.Lib.Runs
import Mathlib.Data.List.Basic
/-!
# Which instance is the master

Every instance opens one named mutex and keeps the handle until it ends.  The instance that
creates the mutex is the master.  What `CreateMutexA` says is up to the system; it is documented
that the object lives as long as anybody has a handle to it, the clients included.
-/

namespace OSCoreSim

inductive InstanceRole where
  | master
  | client
  deriving DecidableEq, Repr

/-- What `CreateMutexA` and `GetLastError` say. -/
inductive CreateMutex where
  | failed
  | created
  | alreadyExists
  deriving DecidableEq

structure InstanceGuard where
  /-- `mutexHandle_ != nullptr` -/
  mutexHandle : Bool := false
  role : InstanceRole := .client
  deriving DecidableEq, Repr

def InstanceGuard.initializeGuard (result : CreateMutex) : InstanceGuard × Bool :=
  match result with
  | .failed => ({ mutexHandle := false, role := .client }, false)
  | .alreadyExists => ({ mutexHandle := true, role := .client }, true)
  | .created => ({ mutexHandle := true, role := .master }, true)

/-- The running instances of one login session, in the order of their starts. -/
structure Desktop where
  running : List (ℕ × InstanceGuard) := []

inductive ProcessEvent where
  /-- `main` of a new process, with what its `CreateMutexA` says. -/
  | launch (process : ℕ) (result : CreateMutex)
  /-- The end of a process for whatever reason; its handle is closed. -/
  | exit (process : ℕ)

namespace Desktop

/-- `main` ends at once if the guard fails; the id of a running process is not given out again. -/
def step (d : Desktop) : ProcessEvent → Desktop
  | .launch process result =>
    if process ∈ d.running.map Prod.fst then d
    else
      let initialized := InstanceGuard.initializeGuard result
      if initialized.2 then { running := d.running ++ [(process, initialized.1)] } else d
  | .exit process => { running := d.running.filter (·.1 ≠ process) }

def handles (d : Desktop) : List ℕ := (d.running.filter (·.2.mutexHandle)).map Prod.fst

/-- What is documented of `CreateMutexA`: unless it fails, it creates the mutex exactly if nobody
has a handle of it. -/
def Documented (d : Desktop) : ProcessEvent → Prop
  | .launch _ result => result ≠ .failed → (result = .created ↔ d.handles = [])
  | .exit _ => True

instance (d : Desktop) (event : ProcessEvent) : Decidable (d.Documented event) :=
  match event with
  | .launch .. => inferInstanceAs (Decidable (_ → (_ ↔ _)))
  | .exit _ => isTrue trivial

def masters (d : Desktop) : List ℕ :=
  (d.running.filter (·.2.role = .master)).map Prod.fst

def Headless (d : Desktop) : Prop := d.running ≠ [] ∧ d.masters = []

instance (d : Desktop) : Decidable d.Headless := inferInstanceAs (Decidable (_ ∧ _))

variable {d : Desktop} {process : ℕ} {result : CreateMutex}

/-- Every running instance has a handle, and only the oldest can be the master. -/
structure Elected (d : Desktop) : Prop where
  handles : ∀ instance' ∈ d.running, instance'.2.mutexHandle = true
  clients : ∀ instance' ∈ d.running.tail, instance'.2.role = .client

theorem Elected.handles_eq_nil (h : Elected d) : d.handles = [] ↔ d.running = [] := by
  rw [Desktop.handles, List.filter_eq_self.mpr h.handles, List.map_eq_nil_iff]

/-- What the mutex says to an instance that starts. -/
theorem Elected.created_iff (h : Elected d) (hok : d.Documented (.launch process result))
    (hresult : result ≠ .failed) : result = .created ↔ d.running = [] :=
  (hok hresult).trans h.handles_eq_nil

theorem mem_tail_filter {α : Type} {p : α → Bool} {a : α} {l : List α}
    (h : a ∈ (l.filter p).tail) : a ∈ l.tail := by
  cases l with
  | nil => cases h
  | cons b l =>
    by_cases hb : p b = true
    · rw [List.filter_cons_of_pos hb] at h
      exact List.mem_of_mem_filter h
    · rw [List.filter_cons_of_neg hb] at h
      exact List.mem_of_mem_filter (List.mem_of_mem_tail h)

theorem step_launch (hnew : process ∉ d.running.map Prod.fst) :
    d.step (.launch process result) =
      if result = .failed then d
      else { running := d.running ++ [(process,
        { mutexHandle := true, role := if result = .created then .master else .client })] } := by
  cases result <;> simp [step, hnew, InstanceGuard.initializeGuard]

theorem Elected.step (h : Elected d) {event : ProcessEvent} (hok : d.Documented event) :
    Elected (d.step event) := by
  cases event with
  | exit process =>
    exact ⟨fun i hmem => h.handles i (List.mem_of_mem_filter hmem),
      fun i hmem => h.clients i (mem_tail_filter hmem)⟩
  | launch process result =>
    by_cases hnew : process ∈ d.running.map Prod.fst
    · simpa [Desktop.step, hnew] using h
    rw [step_launch hnew]
    split
    · exact h
    next hresult =>
      refine ⟨fun i hmem => ?_, fun i hmem => ?_⟩
      · rcases List.mem_append.mp hmem with hold | hlast
        · exact h.handles i hold
        · rw [List.mem_singleton.mp hlast]
      · -- a newcomer behind somebody finds the mutex
        cases hrunning : d.running with
        | nil =>
          rw [hrunning] at hmem
          cases hmem
        | cons first rest =>
          have hold : result ≠ .created := fun hcreated => by
            have hnone := (h.created_iff hok hresult).mp hcreated
            rw [hrunning] at hnone
            cases hnone
          rw [hrunning] at hmem
          rcases List.mem_append.mp hmem with hrest | hlast
          · exact h.clients i (hrunning ▸ hrest)
          · rw [List.mem_singleton.mp hlast]
            exact if_neg hold

theorem elected_run {events : List ProcessEvent}
    (hsystem : Runs.Permitted step Documented {} events) :
    Elected (Runs.run step {} events) :=
  have hnobody : Elected {} :=
    ⟨fun _ h => absurd h List.not_mem_nil, fun _ h => absurd h List.not_mem_nil⟩
  Runs.run_invariant' (fun _ _ h hok => h.step hok) hnobody hsystem

theorem Elected.length_masters (h : Elected d) : d.masters.length ≤ 1 := by
  rw [masters, List.length_map]
  cases hrunning : d.running with
  | nil => exact Nat.zero_le 1
  | cons first rest =>
    have hrest : rest.filter (·.2.role = .master) = [] := by
      refine List.filter_eq_nil_iff.mpr fun i hi => ?_
      rw [h.clients i (by rwa [hrunning])]
      decide
    by_cases hfirst : first.2.role = .master <;> simp [hfirst, hrest]

/-- Whatever the order in which instances start and end, at most one of them is the master; a new
one becomes the master exactly if its `CreateMutexA` succeeds and no instance is running. -/
theorem one_master_of_run (events : List ProcessEvent)
    (hsystem : Runs.Permitted step Documented {} events) :
    let d := Runs.run step {} events
    d.masters.length ≤ 1 ∧
      ∀ process result, process ∉ d.running.map Prod.fst → d.Documented (.launch process result) →
        (process ∈ (d.step (.launch process result)).masters ↔
          result ≠ .failed ∧ d.running = []) := by
  intro d
  have h : Elected d := elected_run hsystem
  refine ⟨h.length_masters, fun process result hnew hok => ?_⟩
  have hold : process ∉ d.masters := fun hmem => by
    obtain ⟨i, hi, rfl⟩ := List.mem_map.mp hmem
    exact hnew (List.mem_map_of_mem (List.mem_of_mem_filter hi))
  rw [step_launch hnew]
  split
  next hfailed => exact iff_of_false hold fun hstarts => hstarts.1 hfailed
  next hresult =>
    rw [← h.created_iff hok hresult]
    have hmasters : process ∉ (d.running.filter (·.2.role = .master)).map Prod.fst := hold
    by_cases hcreated : result = .created
    · simp [masters, hcreated]
    · simp only [masters, List.filter_append, List.map_append, List.mem_append, hmasters, hcreated]
      simp

/-- An instance that comes while another runs, and one that comes when all have ended. -/
theorem one_master_of_run_later :
    let d := Runs.run step {} [.launch 1 .created, .launch 2 .alreadyExists, .exit 1, .exit 2]
    d.masters.length ≤ 1 ∧
      ∀ process result, process ∉ d.running.map Prod.fst → d.Documented (.launch process result) →
        (process ∈ (d.step (.launch process result)).masters ↔
          result ≠ .failed ∧ d.running = []) :=
  one_master_of_run _ (by decide)

theorem Headless.step (h : Elected d) (hheadless : Headless d) {event : ProcessEvent}
    (hok : d.Documented event) (hstays : (d.step event).running ≠ []) :
    Headless (d.step event) := by
  refine ⟨hstays, ?_⟩
  have hnone := hheadless.2
  cases event with
  | exit process =>
    rw [← List.subset_nil, ← hnone]
    refine List.map_subset _ fun i hi => ?_
    simp only [Desktop.step, List.mem_filter] at hi
    exact List.mem_filter.mpr ⟨hi.1.1, hi.2⟩
  | launch process result =>
    by_cases hnew : process ∈ d.running.map Prod.fst
    · simpa [Desktop.step, hnew] using hnone
    rw [step_launch hnew]
    split
    · exact hnone
    next hresult =>
      have hold : result ≠ .created := fun hcreated =>
        hheadless.1 ((h.created_iff hok hresult).mp hcreated)
      simp only [masters, List.map_eq_nil_iff] at hnone ⊢
      rw [List.filter_append, hnone]
      simp [hold]

/-- A master that ends before its clients leaves the mutex to them: no instance becomes the master
again before all of them have ended. -/
theorem headless_of_run (events more : List ProcessEvent)
    (hsystem : Runs.Permitted step Documented {} (events ++ more))
    (hheadless : Headless (Runs.run step {} events))
    (hstays : Runs.Permitted step (fun d event => (d.step event).running ≠ [])
      (Runs.run step {} events) more) :
    Headless (Runs.run step {} (events ++ more)) := by
  obtain ⟨hbefore, hbehind⟩ := Runs.permitted_append.mp hsystem
  rw [Runs.run_append]
  have hboth : Elected (Runs.run step (Runs.run step {} events) more) ∧
      Headless (Runs.run step (Runs.run step {} events) more) :=
    Runs.run_invariant' (P := fun d => Elected d ∧ Headless d)
      (fun _ _ h hok => ⟨h.1.step hok.1, h.2.step h.1 hok.1 hok.2⟩)
      ⟨elected_run hbefore, hheadless⟩ (hbehind.and hstays)
  exact hboth.2

/-- The master leaves, a client stays, and a third instance comes too early. -/
theorem headless_of_run_early :
    Headless (Runs.run step {} ([.launch 1 .created, .launch 2 .alreadyExists, .exit 1] ++
      [.launch 3 .alreadyExists, .exit 2])) :=
  headless_of_run _ _ (by decide) (by decide) ⟨by decide, by decide, trivial⟩

end Desktop

end OSCoreSim
