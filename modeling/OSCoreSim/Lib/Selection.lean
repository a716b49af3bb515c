import Mathlib.Order.Bounds.Basic
/-!
# The first best element of a list

A scan that keeps the best fitting element seen so far, and replaces it only by a strictly
better one, ends with the first of the fitting elements of the least rank.  `FirstBest` is the
invariant of the scan; where positions increase along the list it says which element that is
without reference to the scan.
-/

namespace Selection

variable {α κ ι : Type*} [LinearOrder κ] {fits : α → Prop} {rank : α → κ} {l r : List α} {x y : α}

/-- Between `l` and `r`, `x` is the first of the fitting elements of the least rank. -/
structure FirstBest (fits : α → Prop) (rank : α → κ) (l : List α) (x : α) (r : List α) :
    Prop where
  here : fits x
  before : ∀ y ∈ l, fits y → rank x < rank y
  behind : ∀ y ∈ r, fits y → rank x ≤ rank y

theorem FirstBest.first (hl : ∀ y ∈ l, ¬fits y) (hx : fits x) : FirstBest fits rank l x [] :=
  ⟨hx, fun y hy hfits => absurd hfits (hl y hy), fun y hy => by cases hy⟩

theorem FirstBest.keep (h : FirstBest fits rank l x r) (hy : fits y → rank x ≤ rank y) :
    FirstBest fits rank l x (r ++ [y]) := by
  refine ⟨h.here, h.before, fun z hz hfits => ?_⟩
  rcases List.mem_append.mp hz with hz | hz
  · exact h.behind z hz hfits
  · obtain rfl := List.mem_singleton.mp hz
    exact hy hfits

theorem FirstBest.replace (h : FirstBest fits rank l x r) (hy : fits y)
    (hlt : rank y < rank x) : FirstBest fits rank (l ++ x :: r) y [] := by
  refine ⟨hy, fun z hz hfits => ?_, fun z hz => by cases hz⟩
  rcases List.mem_append.mp hz with hz | hz
  · exact hlt.trans (h.before z hz hfits)
  rcases List.mem_cons.mp hz with rfl | hz
  · exact hlt
  · exact hlt.trans_le (h.behind z hz hfits)

theorem FirstBest.rank_le (h : FirstBest fits rank l x r) (hy : y ∈ l ++ x :: r)
    (hfits : fits y) : rank x ≤ rank y := by
  rcases List.mem_append.mp hy with hy | hy
  · exact (h.before y hy hfits).le
  rcases List.mem_cons.mp hy with rfl | hy
  · exact le_refl _
  · exact h.behind y hy hfits

/-- Where positions increase along the list, it stands at the least position of that rank. -/
theorem FirstBest.isLeast_position [Preorder ι] {position : α → ι}
    (h : FirstBest fits rank l x r)
    (hsorted : (l ++ x :: r).Pairwise fun y z => position y < position z) :
    IsLeast {p | ∃ y ∈ l ++ x :: r, (fits y ∧ rank y = rank x) ∧ position y = p}
      (position x) := by
  refine ⟨⟨x, by simp, ⟨h.here, rfl⟩, rfl⟩, ?_⟩
  rintro p ⟨y, hy, ⟨hfits, hrank⟩, rfl⟩
  rcases List.mem_append.mp hy with hy | hy
  · exact absurd hrank.symm (h.before y hy hfits).ne
  rcases List.mem_cons.mp hy with rfl | hy
  · exact le_refl _
  · obtain ⟨-, htail, -⟩ := List.pairwise_append.mp hsorted
    exact ((List.pairwise_cons.mp htail).1 y hy).le

end Selection
