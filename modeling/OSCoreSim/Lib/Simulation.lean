import OSCoreSim.Lib.Runs
/-!
# One machine followed by another

A step of the first machine stands for any number of steps of the second.  `emitted` lists what
a run stands for, and `simulates` is the induction: when every step of the first machine keeps a
relation to what its events do to the second, every run keeps it to what the run emits.
-/

namespace Runs

variable {σ ε τ φ : Type*}

/-- The events of the second machine that a run of the first stands for. -/
def emitted (step : σ → ε → σ) (emit : σ → ε → List φ) (s : σ) : List ε → List φ
  | [] => []
  | e :: es => emit s e ++ emitted step emit (step s e) es

variable {step : σ → ε → σ} {emit : σ → ε → List φ} {spec : τ → φ → τ}

@[simp] theorem emitted_nil (s : σ) : emitted step emit s [] = [] := rfl

@[simp] theorem emitted_cons (s : σ) (e : ε) (es : List ε) :
    emitted step emit s (e :: es) = emit s e ++ emitted step emit (step s e) es := rfl

theorem emitted_append (s : σ) (es fs : List ε) : emitted step emit s (es ++ fs) =
    emitted step emit s es ++ emitted step emit (run step s es) fs := by
  induction es generalizing s with
  | nil => rfl
  | cons e es ih => simp [ih]

theorem mem_emitted {s : σ} {es : List ε} {f : φ} : f ∈ emitted step emit s es ↔
    ∃ before e after, es = before ++ e :: after ∧ f ∈ emit (run step s before) e := by
  induction es generalizing s with
  | nil => simp
  | cons e es ih =>
    rw [emitted_cons, List.mem_append, ih]
    constructor
    · rintro (h | ⟨before, e', after, rfl, h⟩)
      · exact ⟨[], e, es, rfl, h⟩
      · exact ⟨e :: before, e', after, rfl, h⟩
    · rintro ⟨before, e', after, heq, h⟩
      cases before with
      | nil =>
        cases heq
        exact .inl h
      | cons e₀ before =>
        cases heq
        exact .inr ⟨before, e', after, rfl, h⟩

/-- Matched step by step, a run is matched by what it emits. -/
theorem simulates {ok : σ → ε → Prop} {R : σ → τ → Prop}
    (hmatch : ∀ s t e, R s t → ok s e → R (step s e) (run spec t (emit s e)))
    {s : σ} {t : τ} {es : List ε} (hinit : R s t) (hok : Permitted step ok s es) :
    R (run step s es) (run spec t (emitted step emit s es)) := by
  induction es generalizing s t with
  | nil => exact hinit
  | cons e es ih =>
    rw [emitted_cons, run_append]
    exact ih (hmatch s t e hinit hok.1) hok.2

theorem simulates' {R : σ → τ → Prop} (hmatch : ∀ s t e, R s t → R (step s e) (run spec t (emit s e)))
    {s : σ} {t : τ} (hinit : R s t) (es : List ε) :
    R (run step s es) (run spec t (emitted step emit s es)) := by
  have hall : Permitted step (fun _ _ => True) s es := permitted_of_forall fun _ _ _ => trivial
  exact simulates (fun s t e h _ => hmatch s t e h) hinit hall

/-- The events of the second machine are permitted at the states that it meets, if those of every
step are. -/
theorem permitted_emitted {ok : σ → ε → Prop} {ok' : τ → φ → Prop} {R : σ → τ → Prop}
    (hmatch : ∀ s t e, R s t → ok s e → R (step s e) (run spec t (emit s e)))
    (hpermit : ∀ s t e, R s t → ok s e → Permitted spec ok' t (emit s e)) {s : σ} {t : τ}
    {es : List ε} (hinit : R s t) (hok : Permitted step ok s es) :
    Permitted spec ok' t (emitted step emit s es) := by
  induction es generalizing s t with
  | nil => trivial
  | cons e es ih =>
    rw [emitted_cons, permitted_append]
    exact ⟨hpermit s t e hinit hok.1, ih (hmatch s t e hinit hok.1) hok.2⟩

theorem append_emitted {list : σ → List φ} (h : ∀ s e, list (step s e) = list s ++ emit s e) (s : σ)
    (es : List ε) : list (run step s es) = list s ++ emitted step emit s es := by
  induction es generalizing s with
  | nil => simp
  | cons e es ih => rw [run_cons, ih, h, emitted_cons, List.append_assoc]

end Runs
