import Mathlib.Data.List.Induction
import Mathlib.Tactic.Common
/-!
# Runs of a deterministic machine

A machine is a step function on states and events.  `run` is the state after a
sequence of events, `total` adds up what the events cost, each at the state it
finds, and `Permitted` asks a condition of every event at that state.
`run_invariant` is the induction behind every statement about reachable states:
an invariant that may mention the cost so far, kept by each permitted step while
the cost stays below a bound.
-/

namespace Runs

variable {σ ε : Type*} (step : σ → ε → σ)

def run (s : σ) : List ε → σ
  | [] => s
  | e :: es => run (step s e) es

def total (cost : σ → ε → ℕ) (s : σ) : List ε → ℕ
  | [] => 0
  | e :: es => cost s e + total cost (step s e) es

/-- Every event is permitted at the state it finds. -/
def Permitted (ok : σ → ε → Prop) (s : σ) : List ε → Prop
  | [] => True
  | e :: es => ok s e ∧ Permitted ok (step s e) es

instance decidablePermitted (ok : σ → ε → Prop) [∀ s e, Decidable (ok s e)] (s : σ) :
    (es : List ε) → Decidable (Permitted step ok s es)
  | [] => isTrue trivial
  | e :: es =>
    have := decidablePermitted ok (step s e) es
    inferInstanceAs (Decidable (ok s e ∧ Permitted step ok (step s e) es))

variable {step}

@[simp] theorem run_nil (s : σ) : run step s [] = s := rfl

@[simp] theorem run_cons (s : σ) (e : ε) (es : List ε) :
    run step s (e :: es) = run step (step s e) es := rfl

theorem run_append (s : σ) (es fs : List ε) :
    run step s (es ++ fs) = run step (run step s es) fs := by
  induction es generalizing s with
  | nil => rfl
  | cons e es ih => exact ih _

theorem permitted_append {ok : σ → ε → Prop} {s : σ} {es fs : List ε} :
    Permitted step ok s (es ++ fs) ↔
      Permitted step ok s es ∧ Permitted step ok (run step s es) fs := by
  induction es generalizing s with
  | nil => simp [Permitted]
  | cons e es ih => simp [Permitted, ih, and_assoc]

theorem total_append {cost : σ → ε → ℕ} (s : σ) (es fs : List ε) :
    total step cost s (es ++ fs) = total step cost s es + total step cost (run step s es) fs := by
  induction es generalizing s with
  | nil => exact (Nat.zero_add _).symm
  | cons e es ih =>
    rw [List.cons_append, total, total, ih, Nat.add_assoc]
    rfl

theorem total_le_length {cost : σ → ε → ℕ} (h : ∀ s e, cost s e ≤ 1) (s : σ) (es : List ε) :
    total step cost s es ≤ es.length := by
  induction es generalizing s with
  | nil => exact Nat.le_refl 0
  | cons e es ih =>
    have hrest := ih (step s e)
    have hfirst := h s e
    simp only [total, List.length_cons]
    omega

theorem permitted_of_forall {ok : σ → ε → Prop} {s : σ} {es : List ε}
    (h : ∀ e ∈ es, ∀ s, ok s e) : Permitted step ok s es := by
  induction es generalizing s with
  | nil => trivial
  | cons e es ih =>
    exact ⟨h e List.mem_cons_self s, ih fun f hf => h f (List.mem_cons_of_mem e hf)⟩

/-- An invariant of the state and of the cost so far holds after every permitted run
whose cost stays below the bound. -/
theorem run_invariant {cost : σ → ε → ℕ} {ok : σ → ε → Prop} {P : ℕ → σ → Prop} {bound : ℕ}
    (hstep : ∀ n s e, P n s → ok s e → n + cost s e < bound → P (n + cost s e) (step s e))
    {n : ℕ} {s : σ} {es : List ε} (hinit : P n s) (hok : Permitted step ok s es)
    (hbound : n + total step cost s es < bound) :
    P (n + total step cost s es) (run step s es) := by
  induction es generalizing n s with
  | nil => exact hinit
  | cons e es ih =>
    simp only [total, ← Nat.add_assoc] at hbound ⊢
    have hnext := hstep n s e hinit hok.1 (by omega)
    exact ih hnext hok.2 hbound

/-- What the invariant says about the next event holds of every event of such a run. -/
theorem permitted_of_invariant {cost : σ → ε → ℕ} {ok ok' : σ → ε → Prop} {P : ℕ → σ → Prop}
    {bound : ℕ}
    (hstep : ∀ n s e, P n s → ok s e → n + cost s e < bound → P (n + cost s e) (step s e))
    (hnext : ∀ n s e, P n s → ok s e → ok' s e) {n : ℕ} {s : σ} {es : List ε} (hinit : P n s)
    (hok : Permitted step ok s es) (hbound : n + total step cost s es < bound) :
    Permitted step ok' s es := by
  induction es generalizing n s with
  | nil => trivial
  | cons e es ih =>
    simp only [total, ← Nat.add_assoc] at hbound
    exact ⟨hnext n s e hinit hok.1, ih (hstep n s e hinit hok.1 (by omega)) hok.2 hbound⟩

theorem permitted_of_counted {cost : σ → ε → ℕ} {ok ok' : σ → ε → Prop} {P : ℕ → σ → Prop}
    {bound : ℕ}
    (hstep : ∀ n s e, P n s → ok s e → n + cost s e < bound → P (n + cost s e) (step s e))
    (hnext : ∀ n s e, P n s → ok s e → n + cost s e < bound → ok' s e) {n : ℕ} {s : σ}
    {es : List ε} (hinit : P n s) (hok : Permitted step ok s es)
    (hbound : n + total step cost s es < bound) : Permitted step ok' s es := by
  induction es generalizing n s with
  | nil => trivial
  | cons e es ih =>
    simp only [total, ← Nat.add_assoc] at hbound
    have hroom : n + cost s e < bound := by omega
    exact ⟨hnext n s e hinit hok.1 hroom, ih (hstep n s e hinit hok.1 hroom) hok.2 hbound⟩

theorem run_invariant' {ok : σ → ε → Prop} {P : σ → Prop}
    (hstep : ∀ s e, P s → ok s e → P (step s e))
    {s : σ} {es : List ε} (hinit : P s) (hok : Permitted step ok s es) :
    P (run step s es) := by
  induction es generalizing s with
  | nil => exact hinit
  | cons e es ih => exact ih (hstep s e hinit hok.1) hok.2

theorem run_always {P : σ → Prop} (hstep : ∀ s e, P s → P (step s e)) {s : σ} (hinit : P s)
    (es : List ε) : P (run step s es) := by
  induction es generalizing s with
  | nil => exact hinit
  | cons e es ih => exact ih (hstep s e hinit)

theorem permitted_of_invariant' {ok ok' : σ → ε → Prop} {P : σ → Prop}
    (hstep : ∀ s e, P s → ok s e → P (step s e)) (hnext : ∀ s e, P s → ok s e → ok' s e)
    {s : σ} {es : List ε} (hinit : P s) (hok : Permitted step ok s es) :
    Permitted step ok' s es := by
  induction es generalizing s with
  | nil => trivial
  | cons e es ih => exact ⟨hnext s e hinit hok.1, ih (hstep s e hinit hok.1) hok.2⟩

theorem Permitted.imp {ok ok' : σ → ε → Prop} (h : ∀ s e, ok s e → ok' s e) {s : σ} {es : List ε}
    (hok : Permitted step ok s es) : Permitted step ok' s es :=
  permitted_of_invariant' (P := fun _ => True) (fun _ _ _ _ => trivial) (fun s e _ => h s e)
    trivial hok

theorem Permitted.and {ok ok' : σ → ε → Prop} {s : σ} {es : List ε}
    (h : Permitted step ok s es) (h' : Permitted step ok' s es) :
    Permitted step (fun s e => ok s e ∧ ok' s e) s es := by
  induction es generalizing s with
  | nil => trivial
  | cons e es ih => exact ⟨⟨h.1, h'.1⟩, ih h.2 h'.2⟩

/-- A measure that no step raises and that every counted step lowers falls by one for each of
them, as long as it is positive. -/
theorem run_measure_le {c : ε → Bool} {P : σ → Prop} {m : σ → ℕ}
    (hkeep : ∀ s e, P s → P (step s e)) (hle : ∀ s e, P s → m (step s e) ≤ m s)
    (hlt : ∀ s e, P s → c e = true → m (step s e) ≤ m s - 1) {s : σ} (hinit : P s)
    (es : List ε) : m (run step s es) ≤ m s - es.countP c := by
  induction es generalizing s with
  | nil => exact Nat.le_refl _
  | cons e es ih =>
    have hrest := ih (hkeep s e hinit)
    have hany := hle s e hinit
    rw [run_cons, List.countP_cons]
    by_cases hcounts : c e = true
    · have hdown := hlt s e hinit hcounts
      rw [if_pos hcounts]
      omega
    · rw [if_neg hcounts]
      omega

/-- A property that holds at the end of a run and not at its start has begun to hold for the last
time with one of the events. -/
theorem exists_rise {P : σ → Prop} {s : σ} {es : List ε} (hinit : ¬P s)
    (hend : P (run step s es)) :
    ∃ early e late, es = early ++ e :: late ∧ ¬P (run step s early) ∧
      ∀ between after, late = between ++ after → P (run step s (early ++ e :: between)) := by
  induction es using List.reverseRecOn with
  | nil => exact absurd hend hinit
  | append_singleton es e ih =>
    by_cases hlast : P (run step s es)
    · obtain ⟨early, e', late, rfl, hbefore, hsince⟩ := ih hlast
      refine ⟨early, e', late ++ [e], by simp, hbefore, fun between after heq => ?_⟩
      rcases List.eq_nil_or_concat after with rfl | ⟨after, last, rfl⟩
      · rw [List.append_nil] at heq
        simpa [← heq] using hend
      · rw [List.concat_eq_append, ← List.append_assoc] at heq
        exact hsince between after (List.append_inj_left' heq rfl)
    · refine ⟨es, e, [], rfl, hlast, fun between after heq => ?_⟩
      obtain ⟨rfl, -⟩ := List.append_eq_nil_iff.mp heq.symm
      exact hend

end Runs
