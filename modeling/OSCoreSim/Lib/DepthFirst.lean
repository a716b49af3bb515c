import Mathlib.Tactic.Common
import Mathlib.Data.List.Nodup
import Mathlib.Logic.Relation
/-!
# Depth-first collection with fuel

`collect next` visits the nodes that `next` admits, children in the order in which
`next` lists them, and skips what the accumulator already holds.  As soon as the fuel
covers the admitted nodes outside the accumulator, the result is closed under `next`.
-/

namespace DepthFirst

variable {α : Type*} [DecidableEq α]

/-- `next k` is `none` for a node that is not admitted, else its children. -/
def collect (next : α → Option (List α)) : ℕ → α → List α → List α
  | 0, _, acc => acc
  | depth + 1, k, acc =>
    if k ∈ acc then acc
    else match next k with
      | none => acc
      | some children =>
        children.foldl (fun acc child => collect next depth child acc) (acc ++ [k])

def ClosedFrom (next : α → Option (List α)) (acc res : List α) : Prop :=
  ∀ x ∈ res, x ∉ acc → ∀ children, next x = some children →
    ∀ child ∈ children, (next child).isSome → child ∈ res

variable {next : α → Option (List α)} {acc mid res nodes : List α} {depth : ℕ} {k : α}

theorem ClosedFrom.trans (h : ClosedFrom next acc mid) (h' : ClosedFrom next mid res)
    (hsub : mid ⊆ res) : ClosedFrom next acc res := by
  intro x hx hacc children hnext child hchild hadm
  by_cases hmid : x ∈ mid
  · exact hsub (h x hmid hacc children hnext child hchild hadm)
  · exact h' x hx hmid children hnext child hchild hadm

/-- An invariant of the accumulator that survives each visit survives the collection. -/
theorem collect_induction {P : List α → Prop}
    (hvisit : ∀ acc k, P acc → k ∉ acc → (next k).isSome → P (acc ++ [k]))
    (hacc : P acc) : P (collect next depth k acc) := by
  induction depth generalizing k acc with
  | zero => exact hacc
  | succ depth ih =>
    unfold collect
    split
    · exact hacc
    next hnot =>
      split
      · exact hacc
      next children hnext =>
        have hfirst : P (acc ++ [k]) := hvisit acc k hacc hnot (by simp [hnext])
        clear hnot hnext hacc
        generalize acc ++ [k] = start at hfirst
        induction children generalizing start with
        | nil => exact hfirst
        | cons child children ih' => exact ih' _ (ih hfirst)

theorem subset_collect : acc ⊆ collect next depth k acc :=
  collect_induction (P := fun res => acc ⊆ res)
    (fun _ _ hsub _ _ => List.Subset.trans hsub (List.subset_append_left _ _)) (List.Subset.refl _)

theorem nodup_collect (h : acc.Nodup) : (collect next depth k acc).Nodup :=
  collect_induction (P := List.Nodup)
    (fun acc k hacc hk _ => by
      refine List.nodup_append.mpr ⟨hacc, List.nodup_singleton k, fun a ha b hb hab => ?_⟩
      rw [List.mem_singleton] at hb
      exact hk (hb ▸ hab ▸ ha)) h

theorem admitted_collect (h : ∀ x ∈ acc, (next x).isSome) :
    ∀ x ∈ collect next depth k acc, (next x).isSome :=
  collect_induction (P := fun res => ∀ x ∈ res, (next x).isSome)
    (fun acc k hacc _ hk x hx => by
      rcases List.mem_append.mp hx with hx | hx
      · exact hacc x hx
      · rw [List.mem_singleton.mp hx]
        exact hk) h

def unvisited (nodes acc : List α) : ℕ := nodes.countP (· ∉ acc)

theorem unvisited_le (hsub : acc ⊆ res) : unvisited nodes res ≤ unvisited nodes acc :=
  List.countP_mono_left fun x _ hx => by
    have hx' : x ∉ res := by simpa using hx
    simpa using fun hacc => hx' (hsub hacc)

theorem unvisited_append_lt (hk : k ∈ nodes) (hacc : k ∉ acc) :
    unvisited nodes (acc ++ [k]) < unvisited nodes acc := by
  induction nodes with
  | nil => exact absurd hk List.not_mem_nil
  | cons x nodes ih =>
    have hle : unvisited nodes (acc ++ [k]) ≤ unvisited nodes acc :=
      unvisited_le (List.subset_append_left _ _)
    unfold unvisited at hle ih ⊢
    rw [List.countP_cons, List.countP_cons]
    by_cases hx : x = k
    · subst hx
      have hin : x ∈ acc ++ [x] := by simp
      simp only [hin, hacc, not_true_eq_false, not_false_eq_true, decide_false, decide_true,
        Bool.false_eq_true, if_false, if_true]
      omega
    · have hmem : k ∈ nodes := (List.mem_cons.mp hk).resolve_left fun h => hx h.symm
      have hlt := ih hmem
      have hiff : (x ∉ acc ++ [k]) ↔ x ∉ acc := by simp [hx]
      simp only [hiff]
      omega

/-- With fuel for every admitted node outside the accumulator, the collection contains its
root and is closed. -/
theorem collect_spec (hnodes : ∀ x, (next x).isSome → x ∈ nodes)
    (hfuel : unvisited nodes acc ≤ depth) :
    ((next k).isSome → k ∈ collect next depth k acc) ∧
      ClosedFrom next acc (collect next depth k acc) := by
  induction depth generalizing k acc with
  | zero =>
    have hzero : unvisited nodes acc = 0 := Nat.le_zero.mp hfuel
    refine ⟨fun hk => ?_, fun x hx hacc => absurd hx hacc⟩
    by_contra hnot
    have hlt : unvisited nodes (acc ++ [k]) < unvisited nodes acc :=
      unvisited_append_lt (hnodes k hk) hnot
    omega
  | succ depth ih =>
    unfold collect
    split
    next hmem => exact ⟨fun _ => hmem, fun x hx hacc => absurd hx hacc⟩
    next hnot =>
      split
      next hnone => exact ⟨fun hk => by simp [hnone] at hk, fun x hx hacc => absurd hx hacc⟩
      next children hnext =>
        have hadm : (next k).isSome := by simp [hnext]
        have hlt : unvisited nodes (acc ++ [k]) < unvisited nodes acc :=
          unvisited_append_lt (hnodes k hadm) hnot
        -- the loop over the children keeps the fuel condition and closes what it adds
        have hloop : ∀ (cs start : List α), unvisited nodes start ≤ depth →
            let last := cs.foldl (fun acc child => collect next depth child acc) start
            start ⊆ last ∧ ClosedFrom next start last ∧
              ∀ child ∈ cs, (next child).isSome → child ∈ last := by
          intro cs
          induction cs with
          | nil =>
            intro start _
            exact ⟨List.Subset.refl _, fun x hx hacc => absurd hx hacc,
              fun child hchild => absurd hchild List.not_mem_nil⟩
          | cons c cs ih' =>
            intro start hstart
            have hsub : start ⊆ collect next depth c start := subset_collect
            obtain ⟨hroot, hclosed⟩ := ih (k := c) hstart
            obtain ⟨hsub', hclosed', hall⟩ := ih' _ (Nat.le_trans (unvisited_le hsub) hstart)
            refine ⟨List.Subset.trans hsub hsub', hclosed.trans hclosed' hsub', fun child hchild hchildAdm => ?_⟩
            rcases List.mem_cons.mp hchild with rfl | hchild
            · exact hsub' (hroot hchildAdm)
            · exact hall child hchild hchildAdm
        obtain ⟨hsub, hclosed, hall⟩ := hloop children (acc ++ [k]) (by omega)
        refine ⟨fun _ => hsub (by simp), fun x hx hacc cs hcs child hchild hchildAdm => ?_⟩
        by_cases hxk : x = k
        · rw [hxk, hnext] at hcs
          cases hcs
          exact hall child hchild hchildAdm
        · exact hclosed x hx (by simp [hacc, hxk]) cs hcs child hchild hchildAdm

/-! ## The recursion without fuel -/

/-- The calls on a list of nodes, one after the other, return with the accumulator `res`. -/
inductive Collects (next : α → Option (List α)) : List α → List α → List α → Prop
  | nil (acc : List α) : Collects next [] acc acc
  | skip {k : α} {ks acc res : List α} (h : k ∈ acc ∨ next k = none)
      (hrest : Collects next ks acc res) : Collects next (k :: ks) acc res
  | visit {k : α} {ks children acc mid res : List α} (h : k ∉ acc) (hnext : next k = some children)
      (hchildren : Collects next children (acc ++ [k]) mid) (hrest : Collects next ks mid res) :
      Collects next (k :: ks) acc res

omit [DecidableEq α] in
theorem Collects.cons {ks : List α} (h : Collects next [k] acc mid)
    (hrest : Collects next ks mid res) : Collects next (k :: ks) acc res := by
  cases h with
  | skip hskip hnil =>
    cases hnil
    exact .skip hskip hrest
  | visit hnot hnext hchildren hnil =>
    cases hnil
    exact .visit hnot hnext hchildren hrest

omit [DecidableEq α] in
theorem Collects.unique {ks res' : List α} (h : Collects next ks acc res)
    (h' : Collects next ks acc res') : res' = res := by
  induction h generalizing res' with
  | nil acc =>
    cases h'
    rfl
  | skip hskip _ ih =>
    cases h' with
    | skip _ hrest' => exact ih hrest'
    | visit hnot hnext => exact absurd hskip (not_or.mpr ⟨hnot, by simp [hnext]⟩)
  | visit hnot hnext _ _ ihchildren ihrest =>
    cases h' with
    | skip hskip => exact absurd hskip (not_or.mpr ⟨hnot, by simp [hnext]⟩)
    | visit _ hnext' hchildren' hrest' =>
      rw [hnext] at hnext'
      cases hnext'
      cases ihchildren hchildren'
      exact ihrest hrest'

/-- With fuel for every admitted node outside the accumulator, the fuel is never used up. -/
theorem collects_collect (hnodes : ∀ x, (next x).isSome → x ∈ nodes)
    (hfuel : unvisited nodes acc ≤ depth) : Collects next [k] acc (collect next depth k acc) := by
  induction depth generalizing k acc with
  | zero =>
    refine .skip ?_ (.nil acc)
    by_contra hnot
    rw [not_or] at hnot
    have hlt : unvisited nodes (acc ++ [k]) < unvisited nodes acc :=
      unvisited_append_lt (hnodes k (Option.isSome_iff_ne_none.mpr hnot.2)) hnot.1
    omega
  | succ depth ih =>
    unfold collect
    split
    next hmem => exact .skip (.inl hmem) (.nil acc)
    next hnot =>
      split
      next hnone => exact .skip (.inr hnone) (.nil acc)
      next children hnext =>
        have hlt : unvisited nodes (acc ++ [k]) < unvisited nodes acc :=
          unvisited_append_lt (hnodes k (by simp [hnext])) hnot
        have hloop : ∀ (cs start : List α), unvisited nodes start ≤ depth → Collects next cs start
            (cs.foldl (fun acc child => collect next depth child acc) start) := by
          intro cs
          induction cs with
          | nil => exact fun start _ => .nil start
          | cons c cs ih' =>
            intro start hstart
            have hsub : start ⊆ collect next depth c start := subset_collect
            exact (ih hstart).cons (ih' _ (Nat.le_trans (unvisited_le hsub) hstart))
        exact .visit hnot hnext (hloop children _ (by omega)) (.nil _)

/-! ## The reachable nodes -/

def Follows (next : α → Option (List α)) (a b : α) : Prop :=
  ∃ children, next a = some children ∧ b ∈ children ∧ (next b).isSome

omit [DecidableEq α] in
theorem Collects.reachable {ks : List α} (h : Collects next ks acc res) :
    ∀ x ∈ res, x ∈ acc ∨
      ∃ k ∈ ks, (next k).isSome ∧ Relation.ReflTransGen (Follows next) k x := by
  induction h with
  | nil acc => exact fun x hx => .inl hx
  | skip _ _ ih =>
    intro x hx
    rcases ih x hx with hacc | ⟨k, hk, hreach⟩
    · exact .inl hacc
    · exact .inr ⟨k, List.mem_cons_of_mem _ hk, hreach⟩
  | @visit k ks children acc mid res _ hnext _ _ ihchildren ihrest =>
    intro x hx
    have hadm : (next k).isSome := by simp [hnext]
    rcases ihrest x hx with hmid | ⟨k', hk', hreach⟩
    · rcases ihchildren x hmid with hacc | ⟨child, hchild, hchildAdm, hreach⟩
      · rcases List.mem_append.mp hacc with hacc | hself
        · exact .inl hacc
        · rw [List.mem_singleton.mp hself]
          exact .inr ⟨k, List.mem_cons_self, hadm, .refl⟩
      · exact .inr ⟨k, List.mem_cons_self, hadm,
          .head ⟨children, hnext, hchild, hchildAdm⟩ hreach⟩
    · exact .inr ⟨k', List.mem_cons_of_mem _ hk', hreach⟩

/-- From an empty accumulator exactly the nodes that are reachable from the root are collected. -/
theorem mem_collect_iff (hnodes : ∀ x, (next x).isSome → x ∈ nodes)
    (hfuel : unvisited nodes [] ≤ depth) (hk : (next k).isSome) {x : α} :
    x ∈ collect next depth k [] ↔ Relation.ReflTransGen (Follows next) k x := by
  obtain ⟨hroot, hclosed⟩ := collect_spec (k := k) hnodes hfuel
  constructor
  · intro hx
    rcases (collects_collect hnodes hfuel).reachable x hx with hnil | ⟨k', hk', -, hreach⟩
    · cases hnil
    · rwa [List.mem_singleton.mp hk'] at hreach
  · intro hreach
    induction hreach with
    | refl => exact hroot hk
    | tail _ hfollows ih =>
      obtain ⟨children, hnext, hchild, hadm⟩ := hfollows
      exact hclosed _ ih List.not_mem_nil children hnext _ hchild hadm

end DepthFirst
