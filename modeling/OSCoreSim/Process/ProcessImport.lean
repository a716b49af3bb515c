import OSCoreSim.Lib.KeyedTable
import OSCoreSim.Process.ReadyIndex
/-!
# Import of the process table

Importing the exported PCBs rebuilds the table.  Children are not imported: they are
recomputed from the parent PIDs, in the order of the PIDs, and end up as exactly the live
processes of the same owner that name the parent.
-/

namespace OSCoreSim

open Std (ExtTreeMap)

namespace ProcessManager

variable {pm : ProcessManager} {pcb : PCB} {k c : UInt32} {pcbs : List PCB}

/-! ## The exported PCBs -/

theorem exportPcbs_perm (pm : ProcessManager) :
    pm.exportPcbs.Perm (KeyedTable.records pm.pcbTable) := List.perm_insertionSort _ _

theorem Keyed.mem_exportPcbs (h : pm.Keyed) :
    pcb ∈ pm.exportPcbs ↔ pm.pcbTable[pcb.pid]? = some pcb :=
  pm.exportPcbs_perm.mem_iff.trans (KeyedTable.mem_records h)

theorem Keyed.nodup_exportPcbs (h : pm.Keyed) : (pm.exportPcbs.map (·.pid)).Nodup :=
  (pm.exportPcbs_perm.map _).nodup_iff.mpr (KeyedTable.nodup_records h)

theorem Keyed.import_exportPcbs (h : pm.Keyed) :
    (importPcbs pm.exportPcbs).pcbTable = pm.pcbTable :=
  KeyedTable.foldl_insert_records h pm.exportPcbs_perm

theorem importPcbs_getElem? (hnodup : (pcbs.map (·.pid)).Nodup) :
    (importPcbs pcbs).pcbTable[k]? = some pcb ↔ pcb ∈ pcbs ∧ pcb.pid = k :=
  KeyedTable.getElem?_foldl_insert_empty hnodup

/-! ## Children from parents -/

def namesParent (k : UInt32) (owner : Str) (entry : UInt32 × PCB) : Bool :=
  entry.2.ppid ≠ 0 ∧ entry.2.ppid = k ∧ owner = entry.2.owner

def childPids (table : ExtTreeMap UInt32 PCB) (k : UInt32) (owner : Str) : List UInt32 :=
  (table.toList.filter (namesParent k owner)).map Prod.fst

theorem mem_childPids {table : ExtTreeMap UInt32 PCB} {owner : Str} :
    c ∈ childPids table k owner ↔
      ∃ child : PCB, table[c]? = some child ∧ child.ppid ≠ 0 ∧ child.ppid = k ∧
        child.owner = owner := by
  unfold childPids
  rw [List.mem_map]
  constructor
  · rintro ⟨⟨c', child⟩, hmem, rfl⟩
    obtain ⟨htable, hnames⟩ := List.mem_filter.mp hmem
    obtain ⟨hne, hk, howner⟩ : child.ppid ≠ 0 ∧ child.ppid = k ∧ owner = child.owner := by
      simpa [namesParent] using hnames
    exact ⟨child, ExtTreeMap.mem_toList_iff_getElem?_eq_some.mp htable, hne, hk, howner.symm⟩
  · rintro ⟨child, hget, hne, hk, howner⟩
    refine ⟨(c, child), List.mem_filter.mpr ⟨?_, ?_⟩, rfl⟩
    · exact ExtTreeMap.mem_toList_iff_getElem?_eq_some.mpr hget
    · simpa [namesParent] using ⟨hne, hk, howner.symm⟩

theorem pairwise_childPids (table : ExtTreeMap UInt32 PCB) (k : UInt32) (owner : Str) :
    (childPids table k owner).Pairwise (· < ·) := by
  have hkeys : table.toList.Pairwise fun a b => a.1 < b.1 :=
    ExtTreeMap.ordered_keys_toList.imp fun h => Std.compare_eq_lt.mp h
  exact List.pairwise_map.mpr (hkeys.filter _)

theorem attachToParent_getElem? (table : ExtTreeMap UInt32 PCB) (pid : UInt32) (pcb : PCB) :
    (attachToParent table pid pcb)[k]? = table[k]?.map fun parent : PCB =>
      { parent with children :=
          parent.children ++ if namesParent k parent.owner (pid, pcb) then [pid] else [] } := by
  unfold attachToParent namesParent
  by_cases hzero : pcb.ppid = 0
  · simp [hzero]
  rw [if_neg hzero]
  cases hparent : table[pcb.ppid]? with
  | none =>
    by_cases hk : pcb.ppid = k
    · simp [← hk, hparent]
    · simp [hk]
  | some parent =>
    by_cases hk : pcb.ppid = k
    · subst hk
      by_cases howner : parent.owner = pcb.owner
      · simp [hparent, howner, hzero]
      · simp [hparent, howner]
    · by_cases howner : parent.owner = pcb.owner
      · simp [howner, hk, KeyedTable.getElem?_insert]
      · simp [howner, hk]

theorem foldl_attachToParent (entries : List (UInt32 × PCB)) (table : ExtTreeMap UInt32 PCB) :
    (entries.foldl (fun table (pid, pcb) => attachToParent table pid pcb) table)[k]? =
      table[k]?.map fun parent : PCB => { parent with children :=
        parent.children ++ (entries.filter (namesParent k parent.owner)).map Prod.fst } := by
  induction entries generalizing table with
  | nil => simp
  | cons entry rest ih =>
    obtain ⟨pid, pcb⟩ := entry
    rw [List.foldl_cons, ih, attachToParent_getElem?, Option.map_map]
    congr 1
    funext parent
    by_cases hnames : namesParent k parent.owner (pid, pcb)
    · simp [hnames, Function.comp]
    · simp [hnames, Function.comp]

theorem rebuildParentChildRelations_getElem? :
    pm.rebuildParentChildRelations.pcbTable[k]? = pm.pcbTable[k]?.map fun pcb : PCB =>
      { pcb with children := childPids pm.pcbTable k pcb.owner } := by
  unfold rebuildParentChildRelations
  simp only [ExtTreeMap.getElem?_map, foldl_attachToParent, Option.map_map]
  congr 1
  funext pcb
  have hentries : ((pm.pcbTable.map fun _ pcb => { pcb with children := [] }).toList.filter
      (namesParent k pcb.owner)).map Prod.fst = childPids pm.pcbTable k pcb.owner := by
    rw [ExtTreeMap.toList_map, List.filter_map, List.map_map]
    rfl
  have hsorted := pairwise_childPids pm.pcbTable k pcb.owner
  have hids : sortedIds (childPids pm.pcbTable k pcb.owner) = childPids pm.pcbTable k pcb.owner :=
    List.Pairwise.insertionSort_eq (hsorted.imp fun h => UInt32.le_of_lt h)
  have hnodup : (childPids pm.pcbTable k pcb.owner).Nodup := hsorted.imp UInt32.ne_of_lt
  simp only [Function.comp, List.nil_append, hentries, hids,
    hnodup.dedup]

/-- Children listed in increasing order that are the processes naming their parent are rebuilt
as they are. -/
theorem rebuildParentChildRelations_eq
    (hsorted : ∀ (k : UInt32) (pcb : PCB), pm.pcbTable[k]? = some pcb →
      pcb.children.Pairwise (· < ·))
    (hchildren : ∀ (k : UInt32) (pcb : PCB), pm.pcbTable[k]? = some pcb → ∀ c,
      c ∈ pcb.children ↔ c ∈ childPids pm.pcbTable k pcb.owner) :
    pm.rebuildParentChildRelations = pm := by
  have htable : pm.rebuildParentChildRelations.pcbTable = pm.pcbTable := by
    refine ExtTreeMap.ext_getElem? fun {k} => ?_
    rw [rebuildParentChildRelations_getElem?]
    cases hget : pm.pcbTable[k]? with
    | none => rfl
    | some pcb =>
      have hirrefl : Std.Irrefl fun a b : UInt32 => a < b := ⟨UInt32.lt_irrefl⟩
      have hasymm : Std.Antisymm fun a b : UInt32 => a < b :=
        ⟨fun _ _ hab hba => absurd hba (UInt32.lt_asymm hab)⟩
      have heq := (pairwise_childPids pm.pcbTable k pcb.owner).eq_of_mem_iff
        (hsorted k pcb hget) fun c => (hchildren k pcb hget c).symm
      rw [Option.map_some, heq]
  calc pm.rebuildParentChildRelations
      = { pm with pcbTable := pm.rebuildParentChildRelations.pcbTable } := rfl
    _ = pm := by rw [htable]

end ProcessManager

end OSCoreSim
