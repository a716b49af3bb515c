import OSCoreSim.Util.Str
/-!
# The blocking queue

The queue between the threads that submit commands and the worker.  Every method
holds `mutex_` from start to end, so each is one step; a `pop` that would wait
on `condition_` is a step that is not taken yet.
-/

namespace OSCoreSim

structure BlockingQueue (α : Type) where
  values : List α := []
  shutdownRequested : Bool := false

inductive Popped (α : Type) where
  /-- The predicate of `condition_.wait` is false. -/
  | blocked
  /-- `return false` -/
  | ended
  | value (a : α) (rest : BlockingQueue α)

namespace BlockingQueue

variable {α : Type}

/-- `push` throws after a shutdown. -/
def push (q : BlockingQueue α) (value : α) : Except Str (BlockingQueue α) :=
  if q.shutdownRequested then .error (str "cannot push to a shutdown BlockingQueue")
  else .ok { q with values := q.values ++ [value] }

def pop (q : BlockingQueue α) : Popped α :=
  match q.values with
  | value :: rest => .value value { q with values := rest }
  | [] => if q.shutdownRequested then .ended else .blocked

def shutdown (q : BlockingQueue α) : BlockingQueue α := { q with shutdownRequested := true }

@[simp] theorem shutdown_values (q : BlockingQueue α) : q.shutdown.values = q.values := rfl

@[simp] theorem shutdown_shutdownRequested (q : BlockingQueue α) :
    q.shutdown.shutdownRequested = true := rfl

theorem push_ok {q q' : BlockingQueue α} {value : α} :
    q.push value = .ok q' ↔
      q.shutdownRequested = false ∧ q' = { q with values := q.values ++ [value] } := by
  unfold push
  cases q.shutdownRequested <;> simp [eq_comm]

theorem pop_ended {q : BlockingQueue α} :
    q.pop = .ended ↔ q.values = [] ∧ q.shutdownRequested = true := by
  unfold pop
  cases q.values <;> cases q.shutdownRequested <;> simp

theorem pop_value {q rest : BlockingQueue α} {value : α} :
    q.pop = .value value rest ↔
      q.values = value :: rest.values ∧ rest.shutdownRequested = q.shutdownRequested := by
  unfold pop
  obtain ⟨values, down⟩ := q
  obtain ⟨values', down'⟩ := rest
  cases values <;> cases down <;> simp [and_assoc, eq_comm]

end BlockingQueue

end OSCoreSim
