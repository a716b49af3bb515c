import OSCoreSim.Kernel.Coherence
import OSCoreSim.Kernel.PcbInvariant
import OSCoreSim.Process.Kinship
/-!
# What keeps parents and children in agreement

Every operation on the process table does, except for a creation whose PID has a meaning
already: it is a live process of the user that gets a second parent, or the parent that a
process of the user has lost.
-/

namespace OSCoreSim

open ProcessManager
open Std (ExtTreeMap)

namespace Kernel

variable {pm pm' : ProcessManager} {owner message : Str} {pid k p c : UInt32} {pcb : PCB}

def origin (pcb : PCB) : UInt32 × Str := (pcb.ppid, pcb.owner)

def SameOrigins (pm pm' : ProcessManager) : Prop :=
  ∀ k : UInt32, pm'.pcbTable[k]?.map origin = pm.pcbTable[k]?.map origin

theorem SameOrigins.symm (h : SameOrigins pm pm') : SameOrigins pm' pm := fun k => (h k).symm

theorem SameOrigins.exists_old (h : SameOrigins pm pm') {pcb' : PCB}
    (hget : pm'.pcbTable[k]? = some pcb') :
    ∃ pcb, pm.pcbTable[k]? = some pcb ∧ pcb.ppid = pcb'.ppid ∧ pcb.owner = pcb'.owner := by
  have hsame := h k
  rw [hget, Option.map_some] at hsame
  obtain ⟨pcb, hold, heq⟩ := Option.map_eq_some_iff.mp hsame.symm
  exact ⟨pcb, hold, congrArg Prod.fst heq, congrArg Prod.snd heq⟩

theorem SameOrigins.hasProcess_of (h : SameOrigins pm pm') (hhas : pm'.hasProcess owner k) :
    pm.hasProcess owner k := by
  obtain ⟨pcb', hget, rfl⟩ := hasProcess_iff.mp hhas
  obtain ⟨pcb, hold, -, howner⟩ := h.exists_old hget
  exact hasProcess_iff.mpr ⟨pcb, hold, howner⟩

theorem SameOrigins.hasProcess_eq (h : SameOrigins pm pm') :
    pm'.hasProcess owner k = pm.hasProcess owner k :=
  Bool.eq_iff_iff.mpr ⟨h.hasProcess_of, h.symm.hasProcess_of⟩

theorem SameOrigins.ownChild_of (h : SameOrigins pm pm') (hchild : pm'.OwnChild owner p k) :
    pm.OwnChild owner p k := by
  obtain ⟨pcb', hown, hne, hhas, hp⟩ := ownParent_eq_some.mp hchild
  obtain ⟨hget, howner'⟩ := ownedPcb_eq_some.mp hown
  obtain ⟨pcb, hold, hppid, howner⟩ := h.exists_old hget
  rw [← hppid] at hne hhas hp
  exact ownParent_eq_some.mpr
    ⟨pcb, ownedPcb_eq_some.mpr ⟨hold, howner.trans howner'⟩, hne, h.hasProcess_of hhas, hp⟩

/-- A table with the same parents and owners whose child lists have grown by live processes of
others at most. -/
theorem kindred_of_origins (h : Kindred pm) (hkeyed : pm'.Keyed) (horigins : SameOrigins pm pm')
    (hchildren : ∀ (k : UInt32) (pcb' : PCB), pm'.pcbTable[k]? = some pcb' →
      ∃ pcb foreign, pm.pcbTable[k]? = some pcb ∧ pcb'.owner = pcb.owner ∧
        pcb'.children = pcb.children ++ foreign ∧
        ∀ c ∈ foreign, pm.pcbTable[c]?.isSome ∧ pm.hasProcess pcb.owner c = false) :
    Kindred pm' where
  keyed := hkeyed
  live k pcb' hget c hc := by
    obtain ⟨pcb, foreign, hold, -, hlist, hforeign⟩ := hchildren k pcb' hget
    have hlive : pm.pcbTable[c]?.isSome := by
      rw [hlist] at hc
      rcases List.mem_append.mp hc with hc | hc
      · exact h.live k pcb hold c hc
      · exact (hforeign c hc).1
    have hsame := congrArg Option.isSome (horigins c)
    rwa [Option.isSome_map, Option.isSome_map, hlive] at hsame
  nodup k pcb' hget := by
    obtain ⟨pcb, foreign, hold, howner, hlist, hforeign⟩ := hchildren k pcb' hget
    have hnone : foreign.filter (pm.hasProcess pcb.owner ·) = [] :=
      List.filter_eq_nil_iff.mpr fun c hc => by simp [(hforeign c hc).2]
    simp only [horigins.hasProcess_eq, howner, hlist, List.filter_append, hnone, List.append_nil]
    exact h.nodup k pcb hold
  family k pcb' hget c child' hchild' hsame := by
    obtain ⟨pcb, foreign, hold, howner, hlist, hforeign⟩ := hchildren k pcb' hget
    obtain ⟨child, hchild, hppid, howner'⟩ := horigins.exists_old hchild'
    have hown : child.owner = pcb.owner := howner'.trans (hsame.trans howner)
    have hnot : c ∉ foreign := by
      intro hc
      have hfalse := (hforeign c hc).2
      rw [hasProcess_iff.mpr ⟨child, hchild, hown⟩] at hfalse
      cases hfalse
    rw [hlist, List.mem_append, or_iff_left hnot, h.family k pcb hold c child hchild hown, hppid]
  acyclic owner k hcycle :=
    h.acyclic owner k (Relation.TransGen.mono (fun _ _ => horigins.ownChild_of) k k hcycle)

theorem kindred_of_sameKin (h : Kindred pm) (hkeyed : pm'.Keyed)
    (hkin : ∀ k : UInt32, pm'.pcbTable[k]?.map (fun pcb => (origin pcb, pcb.children)) =
      pm.pcbTable[k]?.map fun pcb => (origin pcb, pcb.children)) : Kindred pm' := by
  have horigins : SameOrigins pm pm' := fun k => by
    have hfst := congrArg (Option.map Prod.fst) (hkin k)
    rwa [Option.map_map, Option.map_map] at hfst
  refine kindred_of_origins h hkeyed horigins fun k pcb' hget => ?_
  have hsame := hkin k
  rw [hget, Option.map_some] at hsame
  obtain ⟨pcb, hold, heq⟩ := Option.map_eq_some_iff.mp hsame.symm
  have howner : pcb'.owner = pcb.owner := (congrArg (·.1.2) heq).symm
  have hlist : pcb'.children = pcb.children := (congrArg (·.2) heq).symm
  exact ⟨pcb, [], hold, howner, by rw [hlist, List.append_nil], fun c hc => absurd hc List.not_mem_nil⟩

theorem kindred_store (h : Kindred pm) (hget : pm.pcbTable[pid]? = some pcb) {pcb' : PCB}
    (hpid : pcb'.pid = pcb.pid) (hkin : SameKin pcb pcb')
    (htable : pm'.pcbTable = pm.pcbTable.insert pid pcb') : Kindred pm' := by
  refine kindred_of_sameKin h (h.keyed.insert hget hpid htable) fun k => ?_
  obtain ⟨hppid, howner, hchildren⟩ := hkin
  rw [htable, KeyedTable.getElem?_insert]
  split
  next hk => rw [← hk, hget, Option.map_some, Option.map_some, origin, origin, hppid, howner, hchildren]
  next => rfl

/-! ## Removal -/

/-- What is left of the families does not depend on what is removed. -/
theorem kindred_pruned (h : Kindred pm) (removed : List UInt32) : Kindred (pm.pruned removed) := by
  have hhas : ∀ {owner : Str} {k : UInt32}, (pm.pruned removed).hasProcess owner k →
      pm.hasProcess owner k ∧ k ∉ removed := by
    intro owner k hhas
    obtain ⟨pcb', hget, rfl⟩ := hasProcess_iff.mp hhas
    obtain ⟨hk, pcb, hold, rfl⟩ := pruned_eq_some.mp hget
    exact ⟨hasProcess_iff.mpr ⟨pcb, hold, rfl⟩, hk⟩
  refine ⟨fun k pcb' hget => ?_, fun k pcb' hget c hc => ?_, fun k pcb' hget => ?_,
    fun k pcb' hget c child' hchild' hsame => ?_, fun owner k hcycle => ?_⟩
  · obtain ⟨-, pcb, hold, rfl⟩ := pruned_eq_some.mp hget
    exact h.keyed k pcb hold
  · obtain ⟨-, pcb, hold, rfl⟩ := pruned_eq_some.mp hget
    obtain ⟨hc, hkept⟩ := List.mem_filter.mp hc
    rw [pruned_getElem?, if_neg (by simpa using hkept), Option.isSome_map]
    exact h.live k pcb hold c hc
  · obtain ⟨-, pcb, hold, rfl⟩ := pruned_eq_some.mp hget
    refine (h.nodup k pcb hold).sublist ?_
    show ((pcb.children.filter _).filter _).Sublist _
    rw [List.filter_filter]
    refine List.monotone_filter_right _ fun c hc => ?_
    exact (hhas (Bool.and_eq_true_iff.mp hc).1).1
  · obtain ⟨-, pcb, hold, rfl⟩ := pruned_eq_some.mp hget
    obtain ⟨hc, child, hchild, rfl⟩ := pruned_eq_some.mp hchild'
    show c ∈ pcb.children.filter _ ↔ _
    rw [List.mem_filter, and_iff_left (by simpa using hc)]
    exact h.family k pcb hold c child hchild hsame
  · refine h.acyclic owner k (Relation.TransGen.mono (fun p c hchild => ?_) k k hcycle)
    obtain ⟨pcb', hown, hne, hparent, hp⟩ := ownParent_eq_some.mp hchild
    obtain ⟨hget, howner⟩ := ownedPcb_eq_some.mp hown
    obtain ⟨-, pcb, hold, rfl⟩ := pruned_eq_some.mp hget
    exact ownParent_eq_some.mpr
      ⟨pcb, ownedPcb_eq_some.mpr ⟨hold, howner⟩, hne, (hhas hparent).1, hp⟩

/-! ## Creation -/

/-- The PID that a creation of `owner` is about to give out has no meaning among the processes of
`owner`: it is not a live one that would get a parent, nor the parent that one of them names. -/
def TakesPlace (pm : ProcessManager) (owner : Str) (ppid : UInt32) : Prop :=
  (ppid ≠ 0 → pm.hasProcess owner pm.nextPid = false) ∧
    (pm.nextPid ≠ 0 → pm.pcbTable[pm.nextPid]?.isNone →
      ∀ pcb ∈ pm.exportPcbs, pcb.owner = owner → pcb.ppid ≠ pm.nextPid)

instance (ppid : UInt32) : Decidable (TakesPlace pm owner ppid) :=
  inferInstanceAs (Decidable (_ ∧ (_ → _ → ∀ pcb ∈ pm.exportPcbs, _)))

theorem TakesPlace.unnamed {ppid : UInt32} (h : TakesPlace pm owner ppid) (hkeyed : pm.Keyed)
    (hfresh : pm.pcbTable[pm.nextPid]? = none) (hown : pm.ownedPcb owner k = some pcb)
    (hne : pcb.ppid ≠ 0) : pcb.ppid ≠ pm.nextPid := by
  obtain ⟨hget, howner⟩ := ownedPcb_eq_some.mp hown
  intro heq
  have hmem : pcb ∈ pm.exportPcbs :=
    hkeyed.mem_exportPcbs.mpr (by rw [hkeyed k pcb hget, hget])
  exact h.2 (heq ▸ hne) (by rw [hfresh]; rfl) pcb hmem howner heq

theorem kindred_withChild (h : Kindred pm) (hkeyed : pm'.Keyed) {ppid : UInt32}
    (hlive : pm.pcbTable[c]?.isSome) (hforeign : ppid ≠ 0 → pm.hasProcess owner c = false)
    (hparent : ppid ≠ 0 → pm.hasProcess owner ppid)
    (htable : ∀ k : UInt32, pm'.pcbTable[k]? = pm.pcbTable[k]?.map (withChild ppid c k)) :
    Kindred pm' := by
  refine kindred_of_origins h hkeyed (fun k => ?_) fun k pcb' hget => ?_
  · rw [htable, Option.map_map]
    congr 1
    funext pcb
    obtain ⟨children, heq⟩ := withChild_eq ppid c k pcb
    rw [Function.comp, heq, origin, origin]
  · rw [htable] at hget
    obtain ⟨pcb, hold, rfl⟩ := Option.map_eq_some_iff.mp hget
    by_cases hk : ppid ≠ 0 ∧ k = ppid
    · obtain ⟨hne, rfl⟩ := hk
      obtain ⟨parent, hget', howner⟩ := hasProcess_iff.mp (hparent hne)
      rw [hold] at hget'
      cases hget'
      rw [withChild, if_pos ⟨hne, rfl⟩]
      exact ⟨pcb, [c], hold, rfl, rfl, fun c' hc' => by
        rw [List.mem_singleton.mp hc', howner]
        exact ⟨hlive, hforeign hne⟩⟩
    · rw [withChild, if_neg hk]
      exact ⟨pcb, [], hold, rfl, (List.append_nil _).symm, fun c hc => absurd hc List.not_mem_nil⟩

theorem ownChild_spawned (hkeyed : pm.Keyed) (hfresh : pm.pcbTable[pm.nextPid]? = none)
    (hne : pcb.ppid ≠ 0 → pcb.ppid ≠ pm.nextPid) (hplace : TakesPlace pm pcb.owner pcb.ppid)
    (hchild : (pm.spawned pcb).OwnChild owner p k) :
    p ≠ pm.nextPid ∧ (pm.OwnChild owner p k ∨ k = pm.nextPid) := by
  obtain ⟨found, hown, hzero, hhas, rfl⟩ := ownParent_eq_some.mp hchild
  obtain ⟨hget, howner⟩ := ownedPcb_eq_some.mp hown
  rcases spawned_withChild hne hget with ⟨hk, rfl⟩ | ⟨-, old, hold, -, hppid, howner'⟩
  · exact ⟨hne hzero, .inr hk⟩
  · rw [hppid] at hzero hhas ⊢
    have hold' : pm.ownedPcb owner k = some old :=
      ownedPcb_eq_some.mpr ⟨hold, howner'.symm.trans howner⟩
    have hparent : pm.hasProcess owner old.ppid := by
      refine ((hasProcess_spawned hfresh hne).mp hhas).resolve_right ?_
      rintro ⟨hnext, rfl⟩
      exact hplace.unnamed hkeyed hfresh hold' hzero hnext
    refine ⟨?_, .inl (ownParent_eq_some.mpr ⟨old, hold', hzero, hparent, rfl⟩)⟩
    intro hnext
    obtain ⟨parent, hlive, -⟩ := hasProcess_iff.mp hparent
    rw [hnext, hfresh] at hlive
    cases hlive

section NewLeaf

variable (h : Kindred pm) (hfresh : pm.pcbTable[pm.nextPid]? = none)
  (hne : pcb.ppid ≠ 0 → pcb.ppid ≠ pm.nextPid) (hchildren : pcb.children = [])

include h hfresh hne hchildren

theorem live_spawned {found : PCB} (hget : (pm.spawned pcb).pcbTable[k]? = some found)
    (hc : c ∈ found.children) : (pm.spawned pcb).pcbTable[c]?.isSome := by
  rcases spawned_withChild hne hget with ⟨-, rfl⟩ | ⟨-, old, hold, rfl, -, -⟩
  · rw [hchildren] at hc
    exact absurd hc List.not_mem_nil
  · rcases mem_children_withChild.mp hc with hc | ⟨rfl, -, -⟩
    · obtain ⟨child, hchild⟩ := Option.isSome_iff_exists.mp (h.live k old hold c hc)
      obtain ⟨children, hkept⟩ := spawned_kept hfresh hne hchild
      exact Option.isSome_of_eq_some hkept
    · exact Option.isSome_of_eq_some (spawned_new hne)

theorem nodup_spawned {found : PCB} (hget : (pm.spawned pcb).pcbTable[k]? = some found) :
    (found.children.filter ((pm.spawned pcb).hasProcess found.owner ·)).Nodup := by
  rcases spawned_withChild hne hget with ⟨-, rfl⟩ | ⟨-, old, hold, hfound, -, howner⟩
  · rw [hchildren]
    exact List.nodup_nil
  · have hdead := h.notMem_children hfresh hold
    -- the children from before are not the new process, so they are shown as before
    have hold' : old.children.filter ((pm.spawned pcb).hasProcess old.owner ·) =
        old.children.filter (pm.hasProcess old.owner ·) := by
      refine List.filter_congr fun c hc => Bool.eq_iff_iff.mpr ?_
      rw [hasProcess_spawned hfresh hne, or_iff_left]
      rintro ⟨rfl, -⟩
      exact hdead hc
    rw [howner, hfound, withChild]
    split
    · show ((old.children ++ [pm.nextPid]).filter _).Nodup
      rw [List.filter_append, hold']
      refine (h.nodup k old hold).append ((List.nodup_singleton _).filter _) fun c hc hc' => ?_
      rw [List.mem_singleton.mp (List.mem_filter.mp hc').1] at hc
      exact hdead (List.mem_filter.mp hc).1
    · rw [hold']
      exact h.nodup k old hold

theorem family_spawned (hplace : TakesPlace pm pcb.owner pcb.ppid) {found child : PCB}
    (hget : (pm.spawned pcb).pcbTable[k]? = some found)
    (hchild : (pm.spawned pcb).pcbTable[c]? = some child) (hsame : child.owner = found.owner) :
    c ∈ found.children ↔ child.ppid ≠ 0 ∧ child.ppid = k := by
  rcases spawned_withChild hne hget with ⟨rfl, rfl⟩ | ⟨-, old, hold, rfl, -, howner⟩
  · -- nobody has waited for this PID
    rw [hchildren]
    constructor
    · exact fun hc => absurd hc List.not_mem_nil
    · rintro ⟨hzero, hp⟩
      rcases spawned_withChild hne hchild with ⟨-, rfl⟩ | ⟨-, old, hold, -, hppid, howner⟩
      · exact absurd hp (hne hzero)
      · have hown := ownedPcb_eq_some.mpr ⟨hold, howner.symm.trans hsame⟩
        rw [hppid] at hzero hp
        exact absurd hp (hplace.unnamed h.keyed hfresh hown hzero)
  · rw [mem_children_withChild]
    rcases spawned_withChild hne hchild with ⟨rfl, rfl⟩ | ⟨hc, old', hold', -, hppid, howner'⟩
    · rw [or_iff_right (h.notMem_children hfresh hold)]
      constructor
      · rintro ⟨-, hzero, hp⟩
        exact ⟨hzero, hp.symm⟩
      · rintro ⟨hzero, hp⟩
        exact ⟨rfl, hzero, hp.symm⟩
    · rw [or_iff_left fun hnew => hc hnew.1, hppid]
      exact h.family k old hold c old' hold' (howner'.symm.trans (hsame.trans howner))

end NewLeaf

theorem kindred_spawned (h : Kindred pm) (hfresh : pm.pcbTable[pm.nextPid]? = none)
    (hpid : pcb.pid = pm.nextPid) (hchildren : pcb.children = [])
    (hparent : pcb.ppid ≠ 0 → pm.hasProcess pcb.owner pcb.ppid)
    (hplace : TakesPlace pm pcb.owner pcb.ppid) : Kindred (pm.spawned pcb) := by
  have hne := ProcessManager.ppid_ne_nextPid hfresh hparent
  refine ⟨fun k found hget => ?_, fun _ _ hget _ hc => live_spawned h hfresh hne hchildren hget hc,
    fun _ _ hget => nodup_spawned h hfresh hne hchildren hget,
    fun _ _ hget _ _ hchild hsame =>
      family_spawned h hfresh hne hchildren hplace hget hchild hsame, fun owner => ?_⟩
  · rcases spawned_cases hne hget with ⟨rfl, rfl⟩ | ⟨-, old, children, hold, rfl⟩
    · exact hpid
    · exact h.keyed k old hold
  · have hlinks : ∀ p k, (pm.spawned pcb).OwnChild owner p k →
        p ≠ pm.nextPid ∧ (pm.OwnChild owner p k ∨ k = pm.nextPid) :=
      fun _ _ hchild => ownChild_spawned h.keyed hfresh hne hplace hchild
    exact ParentForest.acyclic_of_leaf (h.acyclic owner) (fun p k hchild => (hlinks p k hchild).2)
      fun k hchild => (hlinks _ k hchild).1 rfl

theorem kindred_created {name : Str} {memKB memStart totalTime : UInt32} {priority : Int32}
    {ppid : Option UInt32} (h : Kindred pm) (hplace : TakesPlace pm owner (ppid.getD 0))
    (hcreate : pm.createProcessWithMemory owner name memKB memStart priority totalTime ppid =
      .ok (pm', pid, message)) : Kindred pm' := by
  cases htaken : pm.pcbTable[pm.nextPid]? with
  | none =>
    obtain ⟨-, -, -, -, hparent, -, rfl⟩ := createProcessWithMemory_spec htaken hcreate
    exact kindred_spawned h htaken rfl rfl hparent hplace
  | some old =>
    -- `emplace` has kept the process that has the PID
    obtain ⟨⟨-, -, -, -, hparent⟩, -, hresult, -⟩ := createProcessWithMemory_eq_ok hcreate
    have hmem : pm.nextPid ∈ pm.pcbTable :=
      ExtTreeMap.mem_iff_isSome_getElem?.mpr (Option.isSome_of_eq_some htaken)
    have htable : ∀ k : UInt32, pm'.pcbTable[k]? =
        pm.pcbTable[k]?.map (withChild (ppid.getD 0) pm.nextPid k) := by
      intro k
      rw [hresult, enqueueReady_pcbTable, linkChild_getElem?, ExtTreeMap.getElem?_insertIfNew,
        if_neg fun hnew => hnew.2 hmem]
    refine kindred_withChild h (fun k pcb' hget => ?_) (Option.isSome_of_eq_some htaken) hplace.1
      hparent htable
    rw [htable] at hget
    obtain ⟨pcb, hold, rfl⟩ := Option.map_eq_some_iff.mp hget
    obtain ⟨children, heq⟩ := withChild_eq (ppid.getD 0) pm.nextPid k pcb
    rw [heq]
    exact h.keyed k pcb hold

end Kernel

end OSCoreSim
