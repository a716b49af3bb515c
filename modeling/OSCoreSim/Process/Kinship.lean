import OSCoreSim.Lib.OrderedForest
import OSCoreSim.Lib.ParentForest
import OSCoreSim.Process.OwnView
import Mathlib.Data.FinEnum
/-!
# Parents and children of one owner

The trees look for roots in the parent PIDs and descend along the child lists.  Both speak of
the same forest if the child lists agree with the parent PIDs among the processes of one owner
and no process is its own ancestor among them.
-/

namespace OSCoreSim

open OrderedForest
open Std (ExtTreeMap)

namespace ProcessManager

/-- The parent of a process of `owner`, if it is a live process of `owner` too. -/
def ownParent (pm : ProcessManager) (owner : Str) (pid : UInt32) : Option UInt32 :=
  (pm.ownedPcb owner pid).bind fun pcb =>
    if pcb.ppid ≠ 0 ∧ pm.hasProcess owner pcb.ppid then some pcb.ppid else none

def visibleChildren (pm : ProcessManager) (owner : Str) (pid : UInt32) : List UInt32 :=
  match pm.ownedPcb owner pid with
  | some pcb => sortedIds (pcb.children.filter (pm.hasProcess owner ·))
  | none => []

def OwnChild (pm : ProcessManager) (owner : Str) (p k : UInt32) : Prop :=
  pm.ownParent owner k = some p

/-- Child lists and parent PIDs agree among the processes of one owner, and no process is its own
ancestor there.  The child lists may hold live processes of others. -/
structure Kindred (pm : ProcessManager) : Prop where
  keyed : pm.Keyed
  live : ∀ (k : UInt32) (pcb : PCB), pm.pcbTable[k]? = some pcb → ∀ c ∈ pcb.children,
    pm.pcbTable[c]?.isSome
  nodup : ∀ (k : UInt32) (pcb : PCB), pm.pcbTable[k]? = some pcb →
    (pcb.children.filter (pm.hasProcess pcb.owner ·)).Nodup
  family : ∀ (k : UInt32) (pcb : PCB), pm.pcbTable[k]? = some pcb →
    ∀ (c : UInt32) (child : PCB), pm.pcbTable[c]? = some child → child.owner = pcb.owner →
      (c ∈ pcb.children ↔ child.ppid ≠ 0 ∧ child.ppid = k)
  acyclic : ∀ owner k, ¬Relation.TransGen (pm.OwnChild owner) k k

variable {pm : ProcessManager} {owner : Str} {pid p k c : UInt32} {pcb : PCB}
  {entries : List (UInt32 × PCB)}

theorem Kindred.notMem_children (h : Kindred pm) (hdead : pm.pcbTable[c]? = none)
    (hget : pm.pcbTable[k]? = some pcb) : c ∉ pcb.children := by
  intro hmem
  have hlive := h.live k pcb hget c hmem
  rw [hdead] at hlive
  cases hlive

theorem ownParent_eq_some : pm.ownParent owner k = some p ↔
    ∃ pcb, pm.ownedPcb owner k = some pcb ∧ pcb.ppid ≠ 0 ∧ pm.hasProcess owner pcb.ppid ∧
      pcb.ppid = p := by
  unfold ownParent
  cases pm.ownedPcb owner k with
  | none => simp
  | some pcb =>
    by_cases hparent : pcb.ppid ≠ 0 ∧ pm.hasProcess owner pcb.ppid
    · simp [hparent]
    · simp only [Option.bind_some, if_neg hparent, Option.some.injEq]
      constructor
      · exact fun h => by cases h
      · rintro ⟨pcb', rfl, hne, hhas, -⟩
        exact absurd ⟨hne, hhas⟩ hparent

theorem OwnChild.owned (h : pm.OwnChild owner p k) :
    pm.hasProcess owner p ∧ pm.hasProcess owner k := by
  obtain ⟨pcb, hown, -, hparent, rfl⟩ := ownParent_eq_some.mp h
  exact ⟨hparent, Option.isSome_of_eq_some hown⟩

theorem visibleChildren_eq (hown : pm.ownedPcb owner p = some pcb) :
    pm.visibleChildren owner p = sortedIds (pcb.children.filter (pm.hasProcess owner ·)) := by
  rw [visibleChildren, hown]

theorem pairwise_sortedIds {ids : List UInt32} (h : ids.Nodup) :
    (sortedIds ids).Pairwise (· < ·) := by
  have : Std.Total fun a b : UInt32 => a ≤ b := ⟨UInt32.le_total⟩
  have : IsTrans UInt32 fun a b => a ≤ b := ⟨fun _ _ _ => UInt32.le_trans⟩
  have hsorted := List.pairwise_insertionSort (fun a b : UInt32 => a ≤ b) ids
  have hnodup : (sortedIds ids).Nodup := (List.perm_insertionSort _ _).nodup_iff.mpr h
  exact (hsorted.and hnodup).imp fun h => UInt32.lt_of_le_of_ne h.1 h.2

/-! ## The child lists -/

/-- The trees descend from a process to those that have it as their parent. -/
theorem Kindred.mem_visibleChildren (h : Kindred pm) :
    c ∈ pm.visibleChildren owner p ↔ pm.ownParent owner c = some p := by
  rw [ownParent_eq_some]
  cases hown : pm.ownedPcb owner p with
  | none =>
    rw [visibleChildren, hown]
    constructor
    · exact fun hmem => absurd hmem List.not_mem_nil
    · rintro ⟨child, -, -, hhas, rfl⟩
      rw [hasProcess, hown] at hhas
      cases hhas
  | some pcb =>
    obtain ⟨hget, howner⟩ := ownedPcb_eq_some.mp hown
    rw [visibleChildren_eq hown, mem_sortedIds, List.mem_filter]
    constructor
    · rintro ⟨hmem, hhas⟩
      obtain ⟨child, hchild, hsame⟩ := hasProcess_iff.mp hhas
      obtain ⟨hne, rfl⟩ := (h.family p pcb hget c child hchild (hsame.trans howner.symm)).mp hmem
      exact ⟨child, ownedPcb_eq_some.mpr ⟨hchild, hsame⟩, hne, Option.isSome_of_eq_some hown, rfl⟩
    · rintro ⟨child, hchild, hne, -, rfl⟩
      obtain ⟨hchild', hsame⟩ := ownedPcb_eq_some.mp hchild
      refine ⟨(h.family _ pcb hget c child hchild' (hsame.trans howner.symm)).mpr ⟨hne, rfl⟩, ?_⟩
      exact Option.isSome_of_eq_some hchild

theorem Kindred.pairwise_visibleChildren (h : Kindred pm) (owner : Str) (p : UInt32) :
    (pm.visibleChildren owner p).Pairwise (· < ·) := by
  cases hown : pm.ownedPcb owner p with
  | none =>
    rw [visibleChildren, hown]
    exact List.Pairwise.nil
  | some pcb =>
    rw [visibleChildren_eq hown]
    obtain ⟨hget, rfl⟩ := ownedPcb_eq_some.mp hown
    exact pairwise_sortedIds (h.nodup p pcb hget)

theorem Kindred.leads_eq (h : Kindred pm) (owner : Str) :
    Leads (pm.visibleChildren owner) = pm.OwnChild owner := by
  funext p c
  exact propext h.mem_visibleChildren

theorem Kindred.arboreal (h : Kindred pm) (owner : Str) : Arboreal (pm.visibleChildren owner) where
  nodup p := (h.pairwise_visibleChildren owner p).imp UInt32.ne_of_lt
  acyclic := by
    rw [h.leads_eq]
    exact h.acyclic owner
  parent p p' c hp hp' := by
    rw [h.mem_visibleChildren] at hp hp'
    exact Option.some.inj (hp.symm.trans hp')

/-! ## The roots -/

theorem mem_treeRootsIn (horder : entries.Perm pm.pcbTable.toList) :
    pid ∈ pm.treeRootsIn entries owner ↔
      pm.hasProcess owner pid ∧ pm.ownParent owner pid = none := by
  have hroot : ∀ pcb, pm.ownedPcb owner pid = some pcb →
      (pm.ownParent owner pid = none ↔
        pcb.ppid = 0 ∨ (!pm.hasProcess owner pcb.ppid) = true) := by
    intro pcb hown
    by_cases hzero : pcb.ppid = 0
    · simp [ownParent, hown, hzero]
    · simp [ownParent, hown, hzero]
  rw [treeRootsIn, mem_sortedIds, List.mem_map]
  constructor
  · rintro ⟨⟨k, pcb⟩, hmem, rfl⟩
    obtain ⟨hentry, htop⟩ := List.mem_filter.mp hmem
    have hown := (mem_owned_iff horder).mp hentry
    exact ⟨Option.isSome_of_eq_some hown, (hroot pcb hown).mpr (by simpa using htop)⟩
  · rintro ⟨hhas, hnone⟩
    obtain ⟨pcb, hown⟩ := Option.isSome_iff_exists.mp hhas
    refine ⟨(pid, pcb), List.mem_filter.mpr ⟨(mem_owned_iff horder).mpr hown, ?_⟩, rfl⟩
    simpa using (hroot pcb hown).mp hnone

theorem pairwise_treeRootsIn (pm : ProcessManager) (owner : Str)
    (horder : entries.Perm pm.pcbTable.toList) :
    (pm.treeRootsIn entries owner).Pairwise (· < ·) := by
  apply pairwise_sortedIds
  exact (nodup_entries horder).sublist
    ((List.filter_sublist.trans List.filter_sublist).map Prod.fst)

theorem Kindred.exists_root (h : Kindred pm) (hpid : pm.hasProcess owner pid) :
    ∃ r, pm.hasProcess owner r ∧ pm.ownParent owner r = none ∧
      Relation.ReflTransGen (pm.OwnChild owner) r pid := by
  -- there are finitely many PIDs, so the links upwards end
  induction pid using (ParentForest.wellFounded_of_acyclic (h.acyclic owner)).induction with
  | _ pid ih =>
    cases hparent : pm.ownParent owner pid with
    | none => exact ⟨pid, hpid, hparent, .refl⟩
    | some p =>
      obtain ⟨r, hr, hnone, hpath⟩ := ih p hparent (OwnChild.owned hparent).1
      exact ⟨r, hr, hnone, hpath.tail hparent⟩

/-! ## The forest -/

/-- The forest of the processes of `owner`: each of them once, below its parent if this is the
owner's and at the top otherwise, siblings by increasing PID. -/
structure IsFamilyForest (pm : ProcessManager) (owner : Str) (forest : OrderedForest UInt32) :
    Prop where
  once : ∀ pid, forest.preorder.count pid = if pm.hasProcess owner pid then 1 else 0
  top : forest.roots.Pairwise (· < ·)
  mem_top : ∀ pid, pid ∈ forest.roots ↔
    pm.hasProcess owner pid ∧ pm.ownParent owner pid = none
  below : ∀ p under, HasNode p under forest → under.roots.Pairwise (· < ·)
  mem_below : ∀ p under, HasNode p under forest → ∀ pid, pid ∈ under.roots ↔
    pm.ownParent owner pid = some p

structure Covers (pm : ProcessManager) (owner : Str) (forest : OrderedForest UInt32) : Prop where
  unfolds : Unfolds (pm.visibleChildren owner) (pm.treeRootsIn pm.pcbTable.toList owner) forest
  nodup : forest.preorder.Nodup
  mem : ∀ pid, pid ∈ forest.preorder ↔ pm.hasProcess owner pid

theorem Kindred.exists_forest (h : Kindred pm) (owner : Str) :
    ∃ forest, Covers pm owner forest ∧ IsFamilyForest pm owner forest := by
  obtain ⟨forest, hforest⟩ := exists_unfolds
    (ParentForest.wellFounded_swap_of_acyclic (h.arboreal owner).acyclic)
    (pm.treeRootsIn pm.pcbTable.toList owner)
  have hroots : ∀ pid, pid ∈ pm.treeRootsIn pm.pcbTable.toList owner ↔ _ :=
    fun pid => mem_treeRootsIn (List.Perm.refl _)
  have hsorted := pairwise_treeRootsIn pm owner (List.Perm.refl pm.pcbTable.toList)
  have hnodup : forest.preorder.Nodup := by
    refine hforest.nodup_preorder (h.arboreal owner) (hsorted.imp UInt32.ne_of_lt) ?_
    -- a root has no parent
    intro _ _ r' hr' hpath
    obtain ⟨p, -, hlast⟩ := Relation.TransGen.tail'_iff.mp hpath
    rw [Leads, h.mem_visibleChildren, ((hroots r').mp hr').2] at hlast
    cases hlast
  have hmem : ∀ pid, pid ∈ forest.preorder ↔ pm.hasProcess owner pid := by
    intro pid
    rw [hforest.mem_preorder, h.leads_eq]
    constructor
    · rintro ⟨r, hr, hpath⟩
      rcases hpath.cases_tail with rfl | ⟨p, -, hlast⟩
      · exact ((hroots _).mp hr).1
      · exact (OwnChild.owned hlast).2
    · intro hpid
      obtain ⟨r, hr, hnone, hpath⟩ := h.exists_root hpid
      exact ⟨r, (hroots r).mpr ⟨hr, hnone⟩, hpath⟩
  refine ⟨forest, ⟨hforest, hnodup, hmem⟩, fun pid => ?_, ?_, fun pid => ?_,
    fun p under hnode => ?_, fun p under hnode pid => ?_⟩
  · split
    next hpid => exact List.count_eq_one_of_mem hnodup ((hmem pid).mpr hpid)
    next hpid => exact List.count_eq_zero.mpr fun hin => hpid ((hmem pid).mp hin)
  · rw [hforest.roots_eq]
    exact hsorted
  · rw [hforest.roots_eq]
    exact hroots pid
  · rw [(hforest.of_hasNode hnode).roots_eq]
    exact h.pairwise_visibleChildren owner p
  · rw [(hforest.of_hasNode hnode).roots_eq]
    exact h.mem_visibleChildren

end ProcessManager

end OSCoreSim
