import OSCoreSim.Process.Kinship
import OSCoreSim.View.QueueWarnings
import OSCoreSim.View.TreeDrawing
/-!
# The two process trees

`ptree` looks the processes of a user up in the process table, the overview in a copy of them.
Both draw the same forest, each in its own style.
-/

namespace OSCoreSim

open OrderedForest ProcessManager
open Std (ExtTreeMap)

variable {pm : ProcessManager} {owner : Str} {forest : OrderedForest UInt32} {pid : UInt32}
  {pcb : PCB} {entries : List (UInt32 × PCB)}

/-! ## The drawings -/

def ptreeNode (pid : UInt32) (pcb : PCB) : Str :=
  pcb.name ++ str "(" ++ decimal pid.toNat ++ str ") [" ++ pcb.state.toText ++ str ", prio=" ++
    decimalInt pcb.priority ++ str ", q=" ++ queueName pcb.queueLevel ++ str ", mem=" ++
    decimal pcb.memSize.toNat ++ str "KB]"

def ptreeStyle (pm : ProcessManager) (owner : Str) : TreeStyle where
  label pid := match pm.ownedPcb owner pid with
    | some pcb => ptreeNode pid pcb
    | none => []
  branch isLast := if isLast then str "`- " else str "|- "

def overviewStyle (pm : ProcessManager) (owner : Str) : TreeStyle where
  label pid := match pm.ownedPcb owner pid with
    | some pcb => OverviewRenderer.nodeText pcb
    | none => []
  branch isLast := if isLast then str "`- " else str "+- "

theorem ptreeStyle_label (hown : pm.ownedPcb owner pid = some pcb) :
    (ptreeStyle pm owner).label pid = ptreeNode pid pcb := by
  simp only [ptreeStyle, hown]

theorem overviewStyle_label (hown : pm.ownedPcb owner pid = some pcb) :
    (overviewStyle pm owner).label pid = OverviewRenderer.nodeText pcb := by
  simp only [overviewStyle, hown]

def ptreeText (pm : ProcessManager) (owner : Str) (forest : OrderedForest UInt32) : Str :=
  str "Process Tree for user: " ++ owner ++
    if forest.roots = [] then str "\nNo process found for current user."
    else ((ptreeStyle pm owner).lines forest [] true).flatMap (str "\n" ++ ·)

def overviewTreeText (pm : ProcessManager) (owner : Str) (forest : OrderedForest UInt32) : Str :=
  str "[3] 进程树 / Process Tree\n" ++
    if forest.roots = [] then str "当前用户暂无进程。 / No process found for current user."
    else OverviewRenderer.joinLines ((overviewStyle pm owner).lines forest [] true)

theorem height_le (h : Covers pm owner forest) {pids : List UInt32}
    (hpids : ∀ pid, pm.hasProcess owner pid → pid ∈ pids) : forest.height ≤ pids.length := by
  have hsub : forest.preorder ⊆ pids := fun pid hmem => hpids pid ((h.mem pid).mp hmem)
  exact Nat.le_trans forest.height_le_length (List.subperm_of_subset h.nodup hsub).length_le

theorem drawsNodes_ptree (pm : ProcessManager) (owner : Str) :
    TreeStyle.DrawsNodes (ptreeStyle pm owner) (pm.visibleChildren owner)
      (pm.hasProcess owner ·) (pm.appendTreeNode owner) := by
  intro pid hpresent visited hnew depth linePrefix isLast isRoot
  obtain ⟨pcb, hown⟩ := Option.isSome_iff_exists.mp hpresent
  have hnode : ∀ lead : Str, lead ++ pcb.name ++ str "(" ++ decimal pid.toNat ++ str ") [" ++
      pcb.state.toText ++ str ", prio=" ++ decimalInt pcb.priority ++ str ", q=" ++
      queueName pcb.queueLevel ++ str ", mem=" ++ decimal pcb.memSize.toNat ++ str "KB]" =
      lead ++ ptreeNode pid pcb := fun lead => by simp only [ptreeNode, List.append_assoc]
  rw [TreeStyle.line, ptreeStyle_label hown, visibleChildren_eq hown]
  simp only [appendTreeNode, hown, hnew, if_false, hnode]
  rfl

/-- `ptree` draws the forest, in whatever order it meets the table. -/
theorem processTreeIn_forest (h : Covers pm owner forest)
    (horder : entries.Perm pm.pcbTable.toList) :
    pm.processTreeIn entries owner = ptreeText pm owner forest := by
  have hsame : SameProcesses owner pm pm := ⟨fun _ => rfl, fun _ => rfl⟩
  rw [processTreeIn_eq hsame horder (List.Perm.refl _), ProcessManager.processTreeIn, ptreeText,
    h.unfolds.roots_eq]
  split
  · rfl
  · have hdepth : forest.height ≤ pm.pcbTable.size + 1 := by
      have hheight := height_le h fun _ => mem_ownPids
      have hsize := length_ownPids_le pm owner
      omega
    have hdraws : TreeStyle.LoopsDraw (ptreeStyle pm owner) (pm.appendTreeNode owner) forest :=
      (drawsNodes_ptree pm owner).loopsDraw h.unfolds (fun pid => (h.mem pid).mp) h.nodup
    rw [← h.unfolds.roots_eq]
    exact congrArg Prod.snd (hdraws _ hdepth (fun _ _ => List.not_mem_nil) (Nat.zero_add _)
      (TreeStyle.writesSiblings_treeLoop _ _ [] true _))

/-! ## The overview -/

namespace OverviewRenderer

variable {table : ExtTreeMap UInt32 PCB}

theorem contains_eq_hasProcess (htable : ∀ pid : UInt32, table[pid]? = pm.ownedPcb owner pid)
    (pid : UInt32) : table.contains pid = pm.hasProcess owner pid := by
  rw [ExtTreeMap.contains_eq_isSome_getElem?, htable, hasProcess]

theorem drawsNodes_overview (htable : ∀ pid : UInt32, table[pid]? = pm.ownedPcb owner pid) :
    TreeStyle.DrawsNodes (overviewStyle pm owner) (pm.visibleChildren owner)
      (pm.hasProcess owner ·) (appendTreeNode table) := by
  intro pid hpresent visited hnew depth linePrefix isLast isRoot
  obtain ⟨pcb, hown⟩ := Option.isSome_iff_exists.mp hpresent
  rw [TreeStyle.line, overviewStyle_label hown, visibleChildren_eq hown]
  simp only [appendTreeNode, htable, hown, hnew, if_false, contains_eq_hasProcess htable]
  rfl

theorem overviewRoots_eq (htable : ∀ pid : UInt32, table[pid]? = pm.ownedPcb owner pid) :
    sortedIds ((table.toList.filter fun (_, pcb) =>
      pcb.ppid = 0 ∨ !table.contains pcb.ppid).map Prod.fst) =
      pm.treeRootsIn pm.pcbTable.toList owner := by
  have hnodup : ∀ table : ExtTreeMap UInt32 PCB, table.toList.Nodup := by
    intro table
    refine List.Nodup.of_map Prod.fst ?_
    rw [ExtTreeMap.map_fst_toList_eq_keys]
    exact ExtTreeMap.nodup_keys
  have hperm : table.toList.Perm (pm.pcbTable.toList.filter (·.2.owner = owner)) := by
    refine (List.perm_ext_iff_of_nodup (hnodup table) ((hnodup pm.pcbTable).filter _)).mpr ?_
    rintro ⟨pid, pcb⟩
    rw [ExtTreeMap.mem_toList_iff_getElem?_eq_some, htable, mem_owned_iff (List.Perm.refl _)]
  simp only [contains_eq_hasProcess htable]
  exact sortedIds_eq_of_perm ((hperm.filter _).map Prod.fst)

/-- A text whose last line ends with a node has no newline to lose. -/
theorem popNewline_joinLines {lines : List Str} (hne : lines ≠ [])
    (hlines : ∀ line ∈ lines, ∃ s, line = s ++ str "]") (header : Str) :
    popNewline (header ++ joinLines lines) = header ++ joinLines lines := by
  have hend : ∃ s, joinLines lines = s ++ str "]" := by
    cases lines with
    | nil => exact absurd rfl hne
    | cons line rest =>
      rw [joinLines_cons]
      induction rest generalizing line with
      | nil =>
        obtain ⟨s, rfl⟩ := hlines line List.mem_cons_self
        exact ⟨s, by simp⟩
      | cons next rest ih =>
        obtain ⟨s, hs⟩ := ih next (List.cons_ne_nil _ _)
          fun line hmem => hlines line (List.mem_cons_of_mem _ hmem)
        exact ⟨line ++ str "\n" ++ s, by simp only [List.flatMap_cons, List.append_assoc, ← hs]⟩
  obtain ⟨s, hs⟩ := hend
  have hlast : (header ++ (s ++ str "]")).getLast? = some 93 := by
    rw [← List.append_assoc]
    exact List.getLast?_concat
  rw [hs, popNewline, hlast]
  exact if_neg (by decide)

end OverviewRenderer

theorem processCopies_eq_nil_iff (h : Covers pm owner forest) :
    pm.getProcessCopiesForUser owner = [] ↔ forest.roots = [] := by
  constructor
  · intro hnone
    cases hroots : forest.roots with
    | nil => rfl
    | cons root rest =>
      rw [h.unfolds.roots_eq] at hroots
      have hroot := (mem_treeRootsIn (List.Perm.refl _)).mp (hroots ▸ List.mem_cons_self)
      obtain ⟨pcb, hown⟩ := Option.isSome_iff_exists.mp hroot.1
      have hmem := mem_processCopies.mpr ⟨root, hown⟩
      rw [hnone] at hmem
      exact absurd hmem List.not_mem_nil
  · intro hnone
    rw [List.eq_nil_iff_forall_not_mem]
    intro pcb hmem
    obtain ⟨pid, hown⟩ := mem_processCopies.mp hmem
    have hin := (h.mem pid).mpr (Option.isSome_of_eq_some hown)
    cases forest with
    | nil => exact List.not_mem_nil hin
    | node => cases hnone

theorem height_le_pcbMap (h : Covers pm owner forest) (hkeyed : pm.Keyed) :
    forest.height ≤ (OverviewRenderer.pcbMap (pm.getProcessCopiesForUser owner)).size + 1 := by
  have hkeys : ∀ pid, pm.hasProcess owner pid →
      pid ∈ (OverviewRenderer.pcbMap (pm.getProcessCopiesForUser owner)).keys := by
    intro pid hpid
    rw [ExtTreeMap.mem_keys, ExtTreeMap.mem_iff_isSome_getElem?,
      OverviewRenderer.pcbMap_processCopies hkeyed owner]
    exact hpid
  have hheight := height_le h hkeys
  rw [ExtTreeMap.length_keys] at hheight
  omega

theorem renderProcessTree_forest (h : Covers pm owner forest) (hkeyed : pm.Keyed)
    (horder : entries.Perm pm.pcbTable.toList) :
    OverviewRenderer.renderProcessTree (processCopiesIn entries owner) =
      overviewTreeText pm owner forest := by
  have hsame : SameProcesses owner pm pm := ⟨fun _ => rfl, fun _ => rfl⟩
  have hcopies : processCopiesIn entries owner = pm.getProcessCopiesForUser owner :=
    processCopiesIn_eq hsame hkeyed.own horder (List.Perm.refl _)
  rw [hcopies]
  have htable := OverviewRenderer.pcbMap_processCopies hkeyed owner
  have hempty := processCopies_eq_nil_iff h
  rw [OverviewRenderer.renderProcessTree, overviewTreeText]
  by_cases hnone : forest.roots = []
  · rw [if_pos (hempty.mpr hnone), if_pos hnone]
  · rw [if_neg fun hcopies => hnone (hempty.mp hcopies), if_neg hnone]
    simp only [OverviewRenderer.overviewRoots_eq htable, ← h.unfolds.roots_eq]
    have hdepth := height_le_pcbMap h hkeyed
    refine (congrArg popNewline ((OverviewRenderer.drawsNodes_overview htable).loop_from_first
      h.unfolds hnone (fun pid => (h.mem pid).mp) h.nodup _ hdepth (fun pid => ?_)
      fun i hi pid visited output => ?_)).trans ?_
    · simp only [Nat.lt_irrefl, if_false, List.append_nil]
    · simp only [Nat.lt_of_lt_of_le Nat.zero_lt_one hi, if_true]
    · refine OverviewRenderer.popNewline_joinLines ?_ (fun line hline => ?_) _
      · intro hlines
        cases forest with
        | nil => exact hnone rfl
        | node => cases hlines
      · obtain ⟨lead, pid, hpid, rfl⟩ := TreeStyle.exists_label hline
        obtain ⟨pcb, hown⟩ := Option.isSome_iff_exists.mp ((h.mem pid).mp hpid)
        rw [overviewStyle_label hown, OverviewRenderer.nodeText, ← List.append_assoc]
        exact ⟨_, rfl⟩

/-- Both trees of `owner` show one forest: each process of the owner once and in full, below its
parent if this is the owner's and at the top otherwise, siblings by increasing PID. -/
def TreesShowProcesses (pm : ProcessManager) (owner : Str) : Prop :=
  ∃ forest, IsFamilyForest pm owner forest ∧
    ∀ entries : List (UInt32 × PCB), entries.Perm pm.pcbTable.toList →
      pm.processTreeIn entries owner = ptreeText pm owner forest ∧
      OverviewRenderer.renderProcessTree (processCopiesIn entries owner) =
        overviewTreeText pm owner forest

theorem treesShowProcesses_of_kindred (h : Kindred pm) (owner : Str) :
    TreesShowProcesses pm owner := by
  obtain ⟨forest, hcovers, hfamily⟩ := h.exists_forest owner
  exact ⟨forest, hfamily, fun _ horder =>
    ⟨processTreeIn_forest hcovers horder, renderProcessTree_forest hcovers h.keyed horder⟩⟩

end OSCoreSim
