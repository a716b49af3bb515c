import Mathlib.Data.List.Nodup
import Mathlib.Logic.Relation
import Mathlib.Tactic.Common
/-!
# Ordered forests

A forest of ordered trees, and the forest that a child list for every node unfolds to.  The
unfolding exists if the child lists do not run in circles; it holds what its roots lead to, and
if no node has two parents, it holds every node once.
-/

/-- The first root, the trees below it, and the trees after it. -/
inductive OrderedForest (κ : Type*) where
  | nil
  | node (root : κ) (below rest : OrderedForest κ)

namespace OrderedForest

variable {κ : Type*}

def roots : OrderedForest κ → List κ
  | nil => []
  | node root _ rest => root :: rest.roots

def preorder : OrderedForest κ → List κ
  | nil => []
  | node root below rest => root :: (below.preorder ++ rest.preorder)

def height : OrderedForest κ → ℕ
  | nil => 0
  | node _ below rest => max (below.height + 1) rest.height

/-- `k` is a node of the forest, with the trees `below` under it. -/
def HasNode (k : κ) (below : OrderedForest κ) : OrderedForest κ → Prop
  | nil => False
  | node root under rest => root = k ∧ under = below ∨ HasNode k below under ∨ HasNode k below rest

/-- The forest over the roots `ks` whose nodes have the children that `next` lists. -/
inductive Unfolds (next : κ → List κ) : List κ → OrderedForest κ → Prop
  | nil : Unfolds next [] nil
  | node {k : κ} {ks : List κ} {below rest : OrderedForest κ} (hbelow : Unfolds next (next k) below)
      (hrest : Unfolds next ks rest) : Unfolds next (k :: ks) (node k below rest)

def Leads (next : κ → List κ) (p c : κ) : Prop := c ∈ next p

variable {next : κ → List κ} {ks : List κ} {forest below : OrderedForest κ} {k : κ}

theorem height_le_length (forest : OrderedForest κ) : forest.height ≤ forest.preorder.length := by
  induction forest with
  | nil => exact Nat.le_refl 0
  | node root below rest ihbelow ihrest =>
    simp only [height, preorder, List.length_cons, List.length_append]
    omega

theorem Unfolds.roots_eq (h : Unfolds next ks forest) : forest.roots = ks := by
  induction h with
  | nil => rfl
  | node _ _ _ ihrest => rw [roots, ihrest]

theorem Unfolds.of_hasNode (h : Unfolds next ks forest) (hnode : HasNode k below forest) :
    Unfolds next (next k) below := by
  induction h with
  | nil => exact hnode.elim
  | node hbelow _ ihbelow ihrest =>
    rcases hnode with ⟨rfl, rfl⟩ | hnode | hnode
    · exact hbelow
    · exact ihbelow hnode
    · exact ihrest hnode

theorem exists_unfolds_of_forall (h : ∀ k ∈ ks, ∃ below, Unfolds next (next k) below) :
    ∃ forest, Unfolds next ks forest := by
  induction ks with
  | nil => exact ⟨nil, .nil⟩
  | cons k ks ih =>
    obtain ⟨below, hbelow⟩ := h k List.mem_cons_self
    obtain ⟨rest, hrest⟩ := ih fun c hc => h c (List.mem_cons_of_mem k hc)
    exact ⟨node k below rest, .node hbelow hrest⟩

/-- Child lists that do not run in circles unfold, whatever the roots are. -/
theorem exists_unfolds (hwf : WellFounded (Function.swap (Leads next))) (ks : List κ) :
    ∃ forest, Unfolds next ks forest := by
  have hall : ∀ k, ∃ below, Unfolds next (next k) below := fun k => by
    induction k using hwf.induction with
    | _ k ih => exact exists_unfolds_of_forall fun c hc => ih c hc
  exact exists_unfolds_of_forall fun k _ => hall k

theorem Unfolds.mem_preorder (h : Unfolds next ks forest) :
    k ∈ forest.preorder ↔ ∃ r ∈ ks, Relation.ReflTransGen (Leads next) r k := by
  induction h with
  | nil => simp [preorder]
  | @node root ks below rest hbelow hrest ihbelow ihrest =>
    rw [preorder, List.mem_cons, List.mem_append, ihbelow, ihrest]
    constructor
    · rintro (rfl | ⟨c, hc, hpath⟩ | ⟨r, hr, hpath⟩)
      · exact ⟨k, List.mem_cons_self, .refl⟩
      · exact ⟨root, List.mem_cons_self, .head hc hpath⟩
      · exact ⟨r, List.mem_cons_of_mem root hr, hpath⟩
    · rintro ⟨r, hr, hpath⟩
      rcases List.mem_cons.mp hr with rfl | hr
      · rcases hpath.cases_head with rfl | ⟨c, hc, hpath⟩
        · exact .inl rfl
        · exact .inr (.inl ⟨c, hc, hpath⟩)
      · exact .inr (.inr ⟨r, hr, hpath⟩)

/-! ## Every node once -/

/-- Child lists of a forest: no repetitions, no circles, and one parent at most. -/
structure Arboreal (next : κ → List κ) : Prop where
  nodup : ∀ p, (next p).Nodup
  acyclic : ∀ k, ¬Relation.TransGen (Leads next) k k
  parent : ∀ p p' c, c ∈ next p → c ∈ next p' → p = p'

variable {p c c' r : κ}

/-- Of two ancestors one descends from the other. -/
theorem Arboreal.ancestors (h : Arboreal next) (hp : Relation.ReflTransGen (Leads next) p k)
    (hr : Relation.ReflTransGen (Leads next) r k) :
    Relation.ReflTransGen (Leads next) r p ∨ Relation.ReflTransGen (Leads next) p r := by
  have hunique : Relator.RightUnique (Function.swap (Leads next)) := fun c p p' hp hp' =>
    h.parent p p' c hp hp'
  have htotal := Relation.ReflTransGen.total_of_right_unique hunique
    (Relation.reflTransGen_swap.mpr hp) (Relation.reflTransGen_swap.mpr hr)
  exact htotal.imp Relation.reflTransGen_swap.mp Relation.reflTransGen_swap.mp

theorem Arboreal.siblings (h : Arboreal next) (hc : c ∈ next p) (hc' : c' ∈ next p) :
    ¬Relation.TransGen (Leads next) c c' := by
  intro hpath
  obtain ⟨p', hpath, hlast⟩ := Relation.TransGen.tail'_iff.mp hpath
  obtain rfl : p' = p := h.parent p' p c' hlast hc'
  exact h.acyclic p' (.head' hc hpath)

/-- If no root leads to another root, no node occurs twice. -/
theorem Unfolds.nodup_preorder (h : Unfolds next ks forest) (hnext : Arboreal next)
    (hnodup : ks.Nodup) (hroots : ∀ r ∈ ks, ∀ r' ∈ ks, ¬Relation.TransGen (Leads next) r r') :
    forest.preorder.Nodup := by
  induction h with
  | nil => exact List.nodup_nil
  | @node root ks below rest hbelow hrest ihbelow ihrest =>
    obtain ⟨hroot, hks⟩ := List.nodup_cons.mp hnodup
    have hsub : ∀ r ∈ ks, r ∈ root :: ks := fun r hr => List.mem_cons_of_mem root hr
    -- whatever stands under another root does not descend from this one
    have hapart : ∀ k ∈ rest.preorder, ¬Relation.ReflTransGen (Leads next) root k := by
      intro k hk hpath
      obtain ⟨r, hr, hpath'⟩ := hrest.mem_preorder.mp hk
      have hne : r ≠ root := fun heq => hroot (heq ▸ hr)
      rcases hnext.ancestors hpath hpath' with hup | hdown
      · have hlong := (Relation.reflTransGen_iff_eq_or_transGen.mp hup).resolve_left hne.symm
        exact hroots r (hsub r hr) root List.mem_cons_self hlong
      · have hlong := (Relation.reflTransGen_iff_eq_or_transGen.mp hdown).resolve_left hne
        exact hroots root List.mem_cons_self r (hsub r hr) hlong
    have hunder : ∀ k ∈ below.preorder, Relation.TransGen (Leads next) root k := by
      intro k hk
      obtain ⟨c, hc, hpath⟩ := hbelow.mem_preorder.mp hk
      exact .head' hc hpath
    refine List.nodup_cons.mpr ⟨fun hmem => ?_, ?_⟩
    · rcases List.mem_append.mp hmem with hmem | hmem
      · exact hnext.acyclic root (hunder root hmem)
      · exact hapart root hmem .refl
    · refine List.Nodup.append ?_ ?_ fun k hk hk' => hapart k hk' (hunder k hk).to_reflTransGen
      · exact ihbelow (hnext.nodup root) fun c hc c' hc' => hnext.siblings hc hc'
      · exact ihrest hks fun r hr r' hr' => hroots r (hsub r hr) r' (hsub r' hr')

end OrderedForest
