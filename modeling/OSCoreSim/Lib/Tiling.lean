import Mathlib.Tactic.Common
import Mathlib.Algebra.BigOperators.Group.List.Basic
import Mathlib.Algebra.GroupWithZero.Nat
/-!
# Lists of intervals without gaps

`Tiles start size a l b` says that the elements of `l` cover `[a, b)` one after the
other.  A table of this kind is changed by replacing one element with elements
that cover the same interval, so `Tiles.replace` is the rule behind splitting,
releasing and merging.
-/

namespace Tiling

variable {β : Type*} (start size : β → ℕ)

/-- The elements of the list are positive intervals that follow each other from `a` to `b`. -/
def Tiles : ℕ → List β → ℕ → Prop
  | a, [], b => a = b
  | a, x :: xs, b => start x = a ∧ 0 < size x ∧ Tiles (a + size x) xs b

variable {start size} {a b c : ℕ} {l r mid : List β} {x y : β}

@[simp] theorem tiles_nil : Tiles start size a [] b ↔ a = b := Iff.rfl

@[simp] theorem tiles_cons : Tiles start size a (x :: l) b ↔
    start x = a ∧ 0 < size x ∧ Tiles start size (a + size x) l b := Iff.rfl

theorem tiles_append : Tiles start size a (l ++ r) c ↔
    ∃ b, Tiles start size a l b ∧ Tiles start size b r c := by
  induction l generalizing a with
  | nil => simp
  | cons x l ih =>
    simp only [List.cons_append, tiles_cons, ih]
    constructor
    · rintro ⟨hx, hpos, b, hl, hr⟩
      exact ⟨b, ⟨hx, hpos, hl⟩, hr⟩
    · rintro ⟨b, ⟨hx, hpos, hl⟩, hr⟩
      exact ⟨hx, hpos, b, hl, hr⟩

theorem Tiles.sum (h : Tiles start size a l b) : a + (l.map size).sum = b := by
  induction l generalizing a with
  | nil => simpa using h
  | cons x l ih =>
    have hrest := ih h.2.2
    simp only [List.map_cons, List.sum_cons]
    omega

theorem Tiles.le (h : Tiles start size a l b) : a ≤ b := by
  have hsum := h.sum
  omega

/-- Said with sums: every element starts where the sizes before it end. -/
theorem tiles_iff : Tiles start size a l b ↔
    (∀ before x after, l = before ++ x :: after → start x = a + (before.map size).sum) ∧
      (∀ x ∈ l, 0 < size x) ∧ a + (l.map size).sum = b := by
  constructor
  · intro h
    refine ⟨fun before x after hl => ?_, fun x hx => ?_, h.sum⟩
    · rw [hl, tiles_append] at h
      obtain ⟨c, hbefore, hx, -⟩ := h
      rw [hx, hbefore.sum]
    · obtain ⟨before, after, rfl⟩ := List.append_of_mem hx
      obtain ⟨c, -, -, hpos, -⟩ := tiles_append.mp h
      exact hpos
  · rintro ⟨hstart, hpos, hsum⟩
    induction l generalizing a with
    | nil => simpa using hsum
    | cons x l ih =>
      refine ⟨by simpa using hstart [] x l rfl, hpos x List.mem_cons_self, ih ?_ ?_ ?_⟩
      · intro before y after hl
        have hy := hstart (x :: before) y after (by rw [hl, List.cons_append])
        rw [hy, List.map_cons, List.sum_cons, Nat.add_assoc]
      · exact fun y hy => hpos y (List.mem_cons_of_mem x hy)
      · rw [List.map_cons, List.sum_cons, ← Nat.add_assoc] at hsum
        exact hsum

theorem Tiles.length_le (h : Tiles start size a l b) : a + l.length ≤ b := by
  induction l generalizing a with
  | nil => exact Nat.le_of_eq h
  | cons x l ih =>
    have hrest := ih h.2.2
    have hpos := h.2.1
    simp only [List.length_cons]
    omega

theorem Tiles.bounds (h : Tiles start size a l b) (hx : x ∈ l) :
    a ≤ start x ∧ 0 < size x ∧ start x + size x ≤ b := by
  induction l generalizing a with
  | nil => exact absurd hx List.not_mem_nil
  | cons y l ih =>
    obtain ⟨hstart, hpos, hrest⟩ := h
    rcases List.mem_cons.mp hx with rfl | hmem
    · have hle := hrest.le
      exact ⟨by omega, hpos, by omega⟩
    · have hbounds := ih hrest hmem
      exact ⟨by omega, hbounds.2⟩

theorem Tiles.pairwise (h : Tiles start size a l b) :
    l.Pairwise fun x y => start x + size x ≤ start y := by
  induction l generalizing a with
  | nil => exact .nil
  | cons x l ih =>
    refine .cons (fun y hy => ?_) (ih h.2.2)
    have hy := (h.2.2.bounds hy).1
    have hx := h.1
    omega

theorem Tiles.pairwise_start (h : Tiles start size a l b) :
    l.Pairwise fun x y => start x < start y := by
  have hall : ∀ x ∈ l, 0 < size x := fun x hx => (h.bounds hx).2.1
  refine h.pairwise.imp_of_mem fun hx _ hle => ?_
  have hpos := hall _ hx
  omega

/-- The interval of one element may be covered in another way. -/
theorem Tiles.replace (h : Tiles start size a (l ++ x :: r) b)
    (hmid : Tiles start size (start x) mid (start x + size x)) :
    Tiles start size a (l ++ (mid ++ r)) b := by
  obtain ⟨c, hl, hx, _, hr⟩ := tiles_append.mp h
  rw [← hx] at hl hr
  exact tiles_append.mpr ⟨start x, hl, tiles_append.mpr ⟨_, hmid, hr⟩⟩

theorem Tiles.isChain (h : Tiles start size a l b) :
    l.IsChain fun x y => start x + size x = start y := by
  induction l generalizing a with
  | nil => exact .nil
  | cons x l ih =>
    cases l with
    | nil => exact .singleton x
    | cons y l =>
      have hy := h.2.2.1
      have hx := h.1
      exact .cons_cons (by omega) (ih h.2.2)

/-! ## The element at a place -/

variable (start size) in
def cover (l : List β) (p : ℕ) : Option β :=
  l.find? fun x => start x ≤ p ∧ p < start x + size x

variable {p : ℕ}

theorem cover_cons : cover start size (x :: l) p =
    if start x ≤ p ∧ p < start x + size x then some x else cover start size l p := by
  by_cases hp : start x ≤ p ∧ p < start x + size x
  · rw [cover, List.find?_cons_of_pos (by simpa using hp), if_pos hp]
  · rw [cover, List.find?_cons_of_neg (by simpa using hp), if_neg hp]
    rfl

theorem cover_append :
    cover start size (l ++ r) p = (cover start size l p).or (cover start size r p) :=
  List.find?_append

theorem cover_eq_none (h : ∀ x ∈ l, p < start x ∨ start x + size x ≤ p) :
    cover start size l p = none := by
  refine List.find?_eq_none.mpr fun x hx => ?_
  have hout := h x hx
  simp only [decide_eq_true_eq]
  omega

theorem Tiles.cover_outside (h : Tiles start size a l b) (hp : p < a ∨ b ≤ p) :
    cover start size l p = none := by
  refine cover_eq_none fun x hx => ?_
  have hbounds := h.bounds hx
  omega

theorem Tiles.cover_eq (h : Tiles start size a l b) (hx : x ∈ l) (hle : start x ≤ p)
    (hlt : p < start x + size x) : cover start size l p = some x := by
  induction l generalizing a with
  | nil => exact absurd hx List.not_mem_nil
  | cons y l ih =>
    obtain ⟨hy, hpos, hrest⟩ := h
    rw [cover_cons]
    rcases List.mem_cons.mp hx with rfl | hmem
    · rw [if_pos ⟨hle, hlt⟩]
    · have hbounds := hrest.bounds hmem
      rw [if_neg (by omega)]
      exact ih hrest hmem

theorem Tiles.exists_cover (h : Tiles start size a l b) (ha : a ≤ p) (hb : p < b) :
    ∃ x ∈ l, start x ≤ p ∧ p < start x + size x := by
  induction l generalizing a with
  | nil =>
    rw [tiles_nil] at h
    omega
  | cons y l ih =>
    obtain ⟨hy, hpos, hrest⟩ := h
    by_cases hp : p < a + size y
    · exact ⟨y, List.mem_cons_self, by omega, by omega⟩
    · obtain ⟨x, hx, hinside⟩ := ih hrest (by omega)
      exact ⟨x, List.mem_cons_of_mem y hx, hinside⟩

/-- Covering one interval in another way is not seen from the places outside of it. -/
theorem Tiles.cover_replace (h : Tiles start size a (l ++ x :: r) b)
    (hmid : Tiles start size (start x) mid (start x + size x)) :
    cover start size (l ++ (mid ++ r)) p =
      if start x ≤ p ∧ p < start x + size x then cover start size mid p
      else cover start size (l ++ x :: r) p := by
  obtain ⟨c, hl, hx, _, hr⟩ := tiles_append.mp h
  rw [cover_append, cover_append, cover_append, cover_cons]
  split
  next hp =>
    rw [hl.cover_outside (by omega), hr.cover_outside (by omega)]
    simp
  next hp =>
    rw [hmid.cover_outside (by omega), Option.none_or]

end Tiling
