import Mathlib.Data.List.Nodup
/-!
# First occurrences

`List.eraseDups` keeps the first occurrence of every element.  `firstNew` is what a pass over
a list keeps that has to accept an element and must not have seen it before; the two `cons`
rules follow the pass, and everything else is an induction with them.
-/

namespace FirstOccurrence

variable {α : Type*} [BEq α] [LawfulBEq α] {p : α → Bool} {x : α} {l seen : List α}

/-- The first occurrences of the acceptable elements that have not been seen. -/
def firstNew (p : α → Bool) (seen l : List α) : List α :=
  (l.filter fun x => p x && !seen.contains x).eraseDups

theorem firstNew_cons_of_neg (h : ¬(p x = true ∧ x ∉ seen)) :
    firstNew p seen (x :: l) = firstNew p seen l := by
  have hskip : (p x && !seen.contains x) = false := by simpa using h
  rw [firstNew, List.filter_cons, hskip]
  rfl

theorem firstNew_cons_of_pos (hp : p x = true) (hx : x ∉ seen) :
    firstNew p seen (x :: l) = x :: firstNew p (x :: seen) l := by
  have hkeep : (p x && !seen.contains x) = true := by simp [hp, hx]
  rw [firstNew, List.filter_cons, hkeep, if_pos rfl, List.eraseDups_cons, List.filter_filter,
    firstNew]
  congr 3
  funext y
  by_cases hy : y = x
  · simp [hy]
  · simp [hy]

theorem mem_firstNew : x ∈ firstNew p seen l ↔ x ∈ l ∧ p x = true ∧ x ∉ seen := by
  simp [firstNew, List.mem_eraseDups]

theorem firstNew_sublist : (firstNew p seen l).Sublist l := by
  induction l generalizing seen with
  | nil => exact List.nil_sublist []
  | cons x rest ih =>
    by_cases h : p x = true ∧ x ∉ seen
    · rw [firstNew_cons_of_pos h.1 h.2]
      exact ih.cons_cons x
    · rw [firstNew_cons_of_neg h]
      exact ih.cons x

theorem nodup_firstNew : (firstNew p seen l).Nodup := by
  induction l generalizing seen with
  | nil => exact List.nodup_nil
  | cons x rest ih =>
    by_cases h : p x = true ∧ x ∉ seen
    · rw [firstNew_cons_of_pos h.1 h.2]
      refine List.nodup_cons.mpr ⟨fun hmem => ?_, ih⟩
      exact (mem_firstNew.mp hmem).2.2 List.mem_cons_self
    · rw [firstNew_cons_of_neg h]
      exact ih

theorem firstNew_eq_self_iff :
    firstNew p seen l = l ↔ l.Nodup ∧ ∀ x ∈ l, p x = true ∧ x ∉ seen := by
  constructor
  · intro h
    rw [← h]
    exact ⟨nodup_firstNew, fun x hx => (mem_firstNew.mp hx).2⟩
  · rintro ⟨hnodup, hall⟩
    induction l generalizing seen with
    | nil => rfl
    | cons x rest ih =>
      obtain ⟨hx, hrest⟩ := List.nodup_cons.mp hnodup
      obtain ⟨⟨hp, hnew⟩, hall⟩ := List.forall_mem_cons.mp hall
      have hlater : ∀ y ∈ rest, p y = true ∧ y ∉ x :: seen := by
        intro y hy
        have hne : y ≠ x := fun heq => hx (heq ▸ hy)
        simpa [hne] using hall y hy
      rw [firstNew_cons_of_pos hp hnew, ih hrest hlater]

/-- A memory of elements that are not acceptable is as good as none. -/
theorem firstNew_of_forall (h : ∀ x ∈ seen, ¬p x = true) :
    firstNew p seen l = (l.filter p).eraseDups := by
  unfold firstNew
  congr 2
  funext x
  by_cases hp : p x = true
  · have hx : x ∉ seen := fun hmem => h x hmem hp
    simp [hp, hx]
  · simp [hp]

end FirstOccurrence
