import OSCoreSim.Lib.OrderedForest
import OSCoreSim.Process.OwnView
import OSCoreSim.View.OverviewRenderer
/-!
# Drawings of process forests

`ptree` and the overview draw trees with two recursive functions, which remember the PIDs that
they have met.  Of a forest without repetitions each of them draws one line for every node and
nothing else.
-/

namespace OSCoreSim

open ProcessManager

theorem joinLines_cons (line : Str) (rest : List Str) :
    OverviewRenderer.joinLines (line :: rest) = line ++ rest.flatMap (str "\n" ++ ·) := by
  unfold OverviewRenderer.joinLines
  induction rest generalizing line with
  | nil => simp
  | cons next rest ih =>
    rw [List.intercalate_cons_cons, ih, List.flatMap_cons]
    simp only [List.append_assoc]

/-- How a renderer draws a node: the text for its PID, and the branch in front of it. -/
structure TreeStyle where
  label : UInt32 → Str
  branch : Bool → Str

namespace TreeStyle

def line (style : TreeStyle) (linePrefix : Str) (isLast isRoot : Bool) (pid : UInt32) : Str :=
  (if isRoot then [] else linePrefix ++ style.branch isLast) ++ style.label pid

def childPrefix (linePrefix : Str) (isLast isRoot : Bool) : Str :=
  if isRoot then [] else linePrefix ++ (if isLast then str "   " else str "|  ")

def lines (style : TreeStyle) : OrderedForest UInt32 → Str → Bool → List Str
  | .nil, _, _ => []
  | .node pid below rest, linePrefix, isRoot =>
    let isLast : Bool := rest.roots = []
    style.line linePrefix isLast isRoot pid ::
      (lines style below (childPrefix linePrefix isLast isRoot) false ++
        lines style rest linePrefix isRoot)

/-- A recursive drawing: the depth bound, the PID, the prefix, whether it is the last of its
siblings, whether it is a root, and the PIDs met so far. -/
abbrev Drawing := ℕ → UInt32 → Str → Bool → Bool → List UInt32 → List UInt32 × Str

variable {style : TreeStyle} {next : UInt32 → List UInt32} {present : UInt32 → Prop}
  {draw : Drawing} {forest below rest : OrderedForest UInt32} {pid : UInt32} {depth : ℕ}
  {visited : List UInt32} {linePrefix : Str} {isLast isRoot : Bool}

/-- A node met for the first time is drawn as its line and a loop over its children. -/
def DrawsNodes (style : TreeStyle) (next : UInt32 → List UInt32) (present : UInt32 → Prop)
    (draw : Drawing) : Prop :=
  ∀ pid, present pid → ∀ visited, pid ∉ visited → ∀ depth linePrefix isLast isRoot,
    draw (depth + 1) pid linePrefix isLast isRoot visited =
      treeLoop (fun child last =>
          draw depth child (childPrefix linePrefix isLast isRoot) last false)
        (next pid) (pid :: visited, style.line linePrefix isLast isRoot pid)

/-- From its index `n` on, a loop over `total` siblings writes each of them on a new line. -/
def WritesSiblings (draw : Drawing) (depth : ℕ) (linePrefix : Str) (isRoot : Bool) (n total : ℕ)
    (loop : List UInt32 × Str → UInt32 × ℕ → List UInt32 × Str) : Prop :=
  ∀ i, n ≤ i → ∀ pid visited output, loop (visited, output) (pid, i) =
    ((draw depth pid linePrefix (i + 1 = total) isRoot visited).1,
      output ++ str "\n" ++ (draw depth pid linePrefix (i + 1 = total) isRoot visited).2)

/-- Loops over the roots of the forest draw the forest. -/
def LoopsDraw (style : TreeStyle) (draw : Drawing) (forest : OrderedForest UInt32) : Prop :=
  ∀ {depth : ℕ} {linePrefix : Str} {isRoot : Bool} {n total : ℕ}
    {loop : List UInt32 × Str → UInt32 × ℕ → List UInt32 × Str} {visited : List UInt32}
    (output : Str), forest.height ≤ depth → (∀ pid ∈ forest.preorder, pid ∉ visited) →
    n + forest.roots.length = total →
    WritesSiblings draw depth linePrefix isRoot n total loop →
      (forest.roots.zipIdx n).foldl loop (visited, output) = (forest.preorder.reverse ++ visited,
        output ++ (lines style forest linePrefix isRoot).flatMap (str "\n" ++ ·))

theorem writesSiblings_treeLoop (draw : Drawing) (depth : ℕ) (linePrefix : Str) (isRoot : Bool)
    (total : ℕ) : WritesSiblings draw depth linePrefix isRoot 0 total
      fun (visited, output) (child, i) =>
        let (visited, text) := draw depth child linePrefix (i + 1 = total) isRoot visited
        (visited, output ++ str "\n" ++ text) :=
  fun _ _ _ _ _ => rfl

/-- The first root of a forest, met for the first time: it is drawn as its line and the forest
below it, and nothing of the rest has been met afterwards. -/
theorem DrawsNodes.first (h : DrawsNodes style next present draw)
    (hpresent : present pid) (hbelow : LoopsDraw style draw below) (hroots : below.roots = next pid)
    (hnodup : (OrderedForest.node pid below rest).preorder.Nodup)
    (hdepth : (OrderedForest.node pid below rest).height ≤ depth)
    (hnew : ∀ k ∈ (OrderedForest.node pid below rest).preorder, k ∉ visited) (linePrefix : Str)
    (isLast isRoot : Bool) :
    draw depth pid linePrefix isLast isRoot visited =
        (below.preorder.reverse ++ pid :: visited, style.line linePrefix isLast isRoot pid ++
          (lines style below (childPrefix linePrefix isLast isRoot) false).flatMap (str "\n" ++ ·)) ∧
      ∀ k ∈ rest.preorder, k ∉ below.preorder.reverse ++ pid :: visited := by
  simp only [OrderedForest.preorder, List.nodup_cons, List.mem_append, not_or, List.nodup_append]
    at hnodup
  simp only [OrderedForest.preorder, List.forall_mem_cons, List.forall_mem_append] at hnew
  obtain ⟨⟨hpid, hpid'⟩, -, -, hapart⟩ := hnodup
  obtain ⟨hnew, hnewBelow, hnewRest⟩ := hnew
  have hdepth : below.height + 1 ≤ depth := (max_le_iff.mp hdepth).1
  obtain ⟨depth, rfl⟩ : ∃ m, depth = m + 1 := ⟨depth - 1, by omega⟩
  constructor
  · rw [h pid hpresent visited hnew, treeLoop, ← hroots]
    refine hbelow _ (Nat.le_of_succ_le_succ hdepth) (fun k hk => ?_) (Nat.zero_add _)
      (writesSiblings_treeLoop draw depth _ false _)
    rw [List.mem_cons, not_or]
    exact ⟨fun heq => hpid (heq ▸ hk), hnewBelow k hk⟩
  · intro k hk hmem
    rw [List.mem_append, List.mem_reverse, List.mem_cons] at hmem
    rcases hmem with hmem | rfl | hmem
    · exact hapart k hmem k hk rfl
    · exact hpid' hk
    · exact hnewRest k hk hmem

theorem forall_mem_preorder {P : UInt32 → Prop}
    (h : ∀ k ∈ (OrderedForest.node pid below rest).preorder, P k) :
    P pid ∧ (∀ k ∈ below.preorder, P k) ∧ ∀ k ∈ rest.preorder, P k := by
  simpa only [OrderedForest.preorder, List.forall_mem_cons, List.forall_mem_append] using h

theorem nodup_parts (h : (OrderedForest.node pid below rest).preorder.Nodup) :
    below.preorder.Nodup ∧ rest.preorder.Nodup := by
  have hparts := (List.nodup_cons.mp h).2
  exact ⟨hparts.of_append_left, hparts.of_append_right⟩

/-- The induction on the forest behind both renderers: the PIDs below a node and those after it
are still to be met when their turn comes. -/
theorem DrawsNodes.loopsDraw (h : DrawsNodes style next present draw) {ks : List UInt32}
    (hforest : OrderedForest.Unfolds next ks forest)
    (hpresent : ∀ pid ∈ forest.preorder, present pid) (hnodup : forest.preorder.Nodup) :
    LoopsDraw style draw forest := by
  induction hforest with
  | nil =>
    intro depth linePrefix isRoot n total loop visited output _ _ _ _
    simp [OrderedForest.roots, OrderedForest.preorder, lines]
  | @node pid ks below rest hbelow hrest ihbelow ihrest =>
    intro depth linePrefix isRoot n total loop visited output hdepth hnew htotal hloop
    obtain ⟨hhere, hpresent, hpresent'⟩ := forall_mem_preorder hpresent
    obtain ⟨hbelow', hrest'⟩ := nodup_parts hnodup
    rw [OrderedForest.roots, List.length_cons] at htotal
    have hlast : decide (n + 1 = total) = decide (rest.roots = []) := by
      rw [decide_eq_decide, ← htotal, ← List.length_eq_zero_iff]
      omega
    obtain ⟨hfirst, hafter⟩ := h.first hhere (ihbelow hpresent hbelow') hbelow.roots_eq hnodup hdepth
      hnew linePrefix (decide (rest.roots = [])) isRoot
    rw [OrderedForest.roots, List.zipIdx_cons, List.foldl_cons, hloop n (Nat.le_refl n), hlast,
      hfirst]
    rw [ihrest hpresent' hrest' _ (max_le_iff.mp hdepth).2 hafter (by omega)
      fun i hi => hloop i (Nat.le_of_succ_le hi)]
    simp [OrderedForest.preorder, lines, List.append_assoc]

theorem DrawsNodes.loop_from_first (h : DrawsNodes style next present draw) {ks : List UInt32}
    (hforest : OrderedForest.Unfolds next ks forest) (hne : forest.roots ≠ [])
    (hpresent : ∀ pid ∈ forest.preorder, present pid) (hnodup : forest.preorder.Nodup)
    {loop : List UInt32 × Str → UInt32 × ℕ → List UInt32 × Str} (output : Str)
    (hdepth : forest.height ≤ depth)
    (hfirst : ∀ pid, loop ([], output) (pid, 0) =
      ((draw depth pid [] (0 + 1 = forest.roots.length) true []).1,
        output ++ (draw depth pid [] (0 + 1 = forest.roots.length) true []).2))
    (hloop : WritesSiblings draw depth [] true 1 forest.roots.length loop) :
    (forest.roots.zipIdx.foldl loop ([], output)).2 =
      output ++ OverviewRenderer.joinLines (lines style forest [] true) := by
  cases hforest with
  | nil => exact absurd rfl hne
  | @node pid ks below rest hbelow hrest =>
    obtain ⟨hhere, hpresent, hpresent'⟩ := forall_mem_preorder hpresent
    obtain ⟨hbelow', hrest'⟩ := nodup_parts hnodup
    have hlast : decide (0 + 1 = (OrderedForest.node pid below rest).roots.length) =
        decide (rest.roots = []) := by
      rw [decide_eq_decide, OrderedForest.roots, List.length_cons, ← List.length_eq_zero_iff]
      omega
    have hdrawn : LoopsDraw style draw below := h.loopsDraw hbelow hpresent hbelow'
    obtain ⟨hvisit, hafter⟩ := h.first hhere hdrawn hbelow.roots_eq hnodup hdepth
      (fun _ _ => List.not_mem_nil) [] (decide (rest.roots = [])) true
    have hroots : (OrderedForest.node pid below rest).roots = pid :: rest.roots := rfl
    rw [hroots, List.zipIdx_cons, List.foldl_cons, hfirst, hlast, hvisit]
    rw [h.loopsDraw hrest hpresent' hrest' _ (max_le_iff.mp hdepth).2 hafter
      (by rw [hroots, List.length_cons]; omega) hloop]
    simp [lines, joinLines_cons, List.append_assoc]

theorem exists_label {line : Str} (h : line ∈ lines style forest linePrefix isRoot) :
    ∃ lead, ∃ pid ∈ forest.preorder, line = lead ++ style.label pid := by
  induction forest generalizing linePrefix isRoot with
  | nil => exact absurd h List.not_mem_nil
  | node pid below rest ihbelow ihrest =>
    rw [lines, List.mem_cons, List.mem_append] at h
    rw [OrderedForest.preorder]
    rcases h with rfl | h | h
    · exact ⟨_, pid, List.mem_cons_self, rfl⟩
    · obtain ⟨lead, k, hk, rfl⟩ := ihbelow h
      exact ⟨lead, k, by simp [hk], rfl⟩
    · obtain ⟨lead, k, hk, rfl⟩ := ihrest h
      exact ⟨lead, k, by simp [hk], rfl⟩

end TreeStyle

end OSCoreSim
