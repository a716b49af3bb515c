import OSCoreSim.Lib.Runs
import Mathlib.Data.Nat.Init
/-!
# Fair schedules

A machine that runs for ever under a schedule of events.  `trace` is the state in front of the
`n`-th event, and a kind of events recurs if the schedule holds infinitely many of them.
`eventually_of_descent` is the rule for progress: a condition leads to a goal if at every moment it
leads to a lower value of a measure.  It does so if every event keeps the condition, none raises
the measure, and those of a recurring kind lower it: `eventually_of_variant`.
-/

namespace Runs

variable {σ ε : Type*} (step : σ → ε → σ)

/-- The state in front of the `n`-th event. -/
def trace (s : σ) (schedule : ℕ → ε) : ℕ → σ
  | 0 => s
  | n + 1 => step (trace s schedule n) (schedule n)

def Recurs (kind : ε → Prop) (schedule : ℕ → ε) : Prop :=
  ∀ n, ∃ m, n ≤ m ∧ kind (schedule m)

variable {step} {s : σ} {schedule : ℕ → ε}

theorem trace_invariant {A : σ → ε → Prop} {P : σ → Prop}
    (hstep : ∀ s e, P s → A s e → P (step s e)) {n : ℕ} (hP : P (trace step s schedule n))
    (hok : ∀ n, A (trace step s schedule n) (schedule n)) {k : ℕ} (hk : n ≤ k) :
    P (trace step s schedule k) := by
  induction k, hk using Nat.le_induction with
  | base => exact hP
  | succ k _ ih => exact hstep _ _ ih (hok k)

section

variable {A : σ → ε → Prop} {P Q : σ → Prop} {m : σ → ℕ} {kind : ε → Prop}

/-- Up to the goal, the condition stays and the measure does not grow. -/
theorem kept_or_reached
    (hstep : ∀ s e, P s → ¬Q s → A s e → Q (step s e) ∨ P (step s e) ∧ m (step s e) ≤ m s)
    (hok : ∀ n, A (trace step s schedule n) (schedule n)) {n k : ℕ} (hk : n ≤ k)
    (hP : P (trace step s schedule n)) :
    (∃ j, n ≤ j ∧ Q (trace step s schedule j)) ∨
      P (trace step s schedule k) ∧ m (trace step s schedule k) ≤ m (trace step s schedule n) := by
  induction k, hk using Nat.le_induction with
  | base => exact .inr ⟨hP, Nat.le_refl _⟩
  | succ k hk ih =>
    rcases ih with hreached | ⟨hkept, hle⟩
    · exact .inl hreached
    by_cases hgoal : Q (trace step s schedule k)
    · exact .inl ⟨k, hk, hgoal⟩
    rcases hstep _ (schedule k) hkept hgoal (hok k) with hreached | ⟨hkept', hle'⟩
    · exact .inl ⟨k + 1, Nat.le_succ_of_le hk, hreached⟩
    · exact .inr ⟨hkept', Nat.le_trans hle' hle⟩

/-- The condition leads to the goal, if it always leads to a lower value of the measure. -/
theorem eventually_of_descent
    (hdescent : ∀ n, P (trace step s schedule n) → ¬Q (trace step s schedule n) →
      ∃ k, n ≤ k ∧ (Q (trace step s schedule k) ∨
        P (trace step s schedule k) ∧ m (trace step s schedule k) < m (trace step s schedule n)))
    {n : ℕ} (hP : P (trace step s schedule n)) : ∃ k, n ≤ k ∧ Q (trace step s schedule k) := by
  induction hm : m (trace step s schedule n) using Nat.strong_induction_on generalizing n with
  | _ bound ih =>
    by_cases hgoal : Q (trace step s schedule n)
    · exact ⟨n, Nat.le_refl n, hgoal⟩
    obtain ⟨k, hk, hreached | ⟨hkept, hlt⟩⟩ := hdescent n hP hgoal
    · exact ⟨k, hk, hreached⟩
    obtain ⟨j, hj, hreached⟩ := ih _ (hm ▸ hlt) hkept rfl
    exact ⟨j, Nat.le_trans hk hj, hreached⟩

/-- The condition leads to the goal, if each event of a recurring kind brings it nearer. -/
theorem eventually_of_variant (hfair : Recurs kind schedule)
    (hok : ∀ n, A (trace step s schedule n) (schedule n))
    (hstep : ∀ s e, P s → ¬Q s → A s e → Q (step s e) ∨ P (step s e) ∧ m (step s e) ≤ m s)
    (hlower : ∀ s e, P s → ¬Q s → A s e → kind e → Q (step s e) ∨ m (step s e) < m s)
    {n : ℕ} (hP : P (trace step s schedule n)) :
    ∃ k, n ≤ k ∧ Q (trace step s schedule k) := by
  refine eventually_of_descent (P := P) (m := m) (fun n hP _ => ?_) hP
  obtain ⟨j, hj, hkind⟩ := hfair n
  rcases kept_or_reached hstep hok hj hP with ⟨k, hk, hreached⟩ | ⟨hkept, hle⟩
  · exact ⟨k, hk, .inl hreached⟩
  by_cases hgoal : Q (trace step s schedule j)
  · exact ⟨j, hj, .inl hgoal⟩
  have hnext : n ≤ j + 1 := Nat.le_succ_of_le hj
  rcases hstep _ (schedule j) hkept hgoal (hok j) with hreached | ⟨hkept', -⟩
  · exact ⟨j + 1, hnext, .inl hreached⟩
  rcases hlower _ (schedule j) hkept hgoal (hok j) hkind with hreached | hlt
  · exact ⟨j + 1, hnext, .inl hreached⟩
  · exact ⟨j + 1, hnext, .inr ⟨hkept', Nat.lt_of_lt_of_le hlt hle⟩⟩

end

end Runs
