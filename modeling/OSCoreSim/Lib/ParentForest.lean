import Mathlib.Data.Fintype.Card
import Mathlib.Logic.Relation
import Mathlib.Tactic.Common
/-!
# Forests of parent links

Nodes that are present may link to a parent.  When a parent is always present and of smaller
rank, the links have no cycle and every node descends from one without a parent; what a node
shares with its parent, it shares with that root.  Among finitely many nodes the absence of
cycles is enough, and a new leaf closes none.
-/

namespace ParentForest

variable {κ : Type*}

/-- `p` is the parent of the present node `k`. -/
def Link (present : κ → Prop) (parent : κ → Option κ) (p k : κ) : Prop :=
  present k ∧ parent k = some p

/-- Parents are present and rank below their children. -/
structure Ranked (present : κ → Prop) (parent : κ → Option κ) (rank : κ → ℕ) : Prop where
  present_parent : ∀ k p, present k → parent k = some p → present p
  rank_lt : ∀ k p, present k → parent k = some p → rank p < rank k

variable {present : κ → Prop} {parent : κ → Option κ} {rank : κ → ℕ} {k p : κ}

theorem Ranked.rank_lt_of_descends (h : Ranked present parent rank)
    (hchain : Relation.TransGen (Link present parent) p k) : rank p < rank k := by
  induction hchain with
  | single hlink => exact h.rank_lt _ _ hlink.1 hlink.2
  | tail _ hlink ih => exact Nat.lt_trans ih (h.rank_lt _ _ hlink.1 hlink.2)

theorem Ranked.acyclic (h : Ranked present parent rank) (k : κ) :
    ¬Relation.TransGen (Link present parent) k k :=
  fun hcycle => Nat.lt_irrefl _ (h.rank_lt_of_descends hcycle)

/-- Every node descends from a root that agrees with it on whatever links keep. -/
theorem Ranked.exists_root (h : Ranked present parent rank) {α : Type*} (color : κ → α)
    (hcolor : ∀ k p, present k → parent k = some p → color p = color k) (hk : present k) :
    ∃ root, present root ∧ parent root = none ∧ color root = color k ∧
      Relation.ReflTransGen (Link present parent) root k := by
  induction hn : rank k using Nat.strongRecOn generalizing k with
  | _ n ih =>
    cases hparent : parent k with
    | none => exact ⟨k, hk, hparent, rfl, .refl⟩
    | some p =>
      have hlt := h.rank_lt k p hk hparent
      obtain ⟨root, hroot, hnone, hsame, hchain⟩ :=
        ih (rank p) (hn ▸ hlt) (h.present_parent k p hk hparent) rfl
      exact ⟨root, hroot, hnone, hsame.trans (hcolor k p hk hparent), hchain.tail ⟨hk, hparent⟩⟩

/-! ## Without ranks -/

variable {R R' : κ → κ → Prop} {a b leaf : κ}

theorem wellFounded_of_acyclic [Finite κ] (h : ∀ k, ¬Relation.TransGen R k k) : WellFounded R := by
  have htrans : IsTrans κ (Relation.TransGen R) := ⟨fun _ _ _ => Relation.TransGen.trans⟩
  have hirrefl : Std.Irrefl (Relation.TransGen R) := ⟨h⟩
  have hwf := Finite.wellFounded_of_trans_of_irrefl (Relation.TransGen R)
  exact Subrelation.wf Relation.TransGen.single hwf

theorem wellFounded_swap_of_acyclic [Finite κ] (h : ∀ k, ¬Relation.TransGen R k k) :
    WellFounded (Function.swap R) :=
  wellFounded_of_acyclic fun k hcycle => h k (Relation.transGen_swap.mp hcycle)

/-- A chain of the new links is one of the old or ends at the leaf. -/
theorem transGen_of_leaf (hlinks : ∀ p k, R' p k → R p k ∨ k = leaf) (hleaf : ∀ k, ¬R' leaf k)
    (hchain : Relation.TransGen R' a b) : Relation.TransGen R a b ∨ b = leaf := by
  induction hchain with
  | single hlink => exact (hlinks _ _ hlink).imp_left .single
  | tail _ hlink ih =>
    rcases ih with hold | rfl
    · exact (hlinks _ _ hlink).imp_left hold.tail
    · exact absurd hlink (hleaf _)

/-- New links to a leaf close no cycle. -/
theorem acyclic_of_leaf (h : ∀ k, ¬Relation.TransGen R k k)
    (hlinks : ∀ p k, R' p k → R p k ∨ k = leaf) (hleaf : ∀ k, ¬R' leaf k) (k : κ) :
    ¬Relation.TransGen R' k k := by
  intro hcycle
  rcases transGen_of_leaf hlinks hleaf hcycle with hold | rfl
  · exact h k hold
  · obtain ⟨child, hlink, -⟩ := Relation.TransGen.head'_iff.mp hcycle
    exact hleaf child hlink

end ParentForest
