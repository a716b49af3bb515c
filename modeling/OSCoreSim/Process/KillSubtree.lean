import OSCoreSim.Process.ProcessRun
import Mathlib.Order.Bounds.Basic
/-!
# What `killProcess` removes

`collectSubtree` follows the child links of one owner through a table that may hold any
links: cyclic, repeated, dangling, or to processes of other owners.  It returns, and what it
returns is the set of processes that can be reached from the root.
-/

namespace OSCoreSim

namespace ProcessManager

variable {pm : ProcessManager} {owner message : Str} {pid k : UInt32}

/-- `child` is listed by `parent`, is in the table, and has the same owner. -/
def ChildOf (pm : ProcessManager) (parent child : UInt32) : Prop :=
  ∃ pcb childPcb, pm.pcbTable[parent]? = some pcb ∧ child ∈ pcb.children ∧
    pm.pcbTable[child]? = some childPcb ∧ childPcb.owner = pcb.owner

def Descends (pm : ProcessManager) (pid k : UInt32) : Prop :=
  Relation.ReflTransGen pm.ChildOf pid k

/-- A set that holds `pid` and, with a process, its children. -/
def ChildClosed (pm : ProcessManager) (pid : UInt32) (pids : Set UInt32) : Prop :=
  pid ∈ pids ∧ ∀ parent ∈ pids, ∀ child, pm.ChildOf parent child → child ∈ pids

theorem hasProcess_childOf {child : UInt32} (h : pm.hasProcess owner k)
    (hchild : pm.ChildOf k child) :
    pm.hasProcess owner child := by
  obtain ⟨pcb, childPcb, hget, -, hget', howner⟩ := hchild
  obtain ⟨found, hfound, hfoundOwner⟩ := hasProcess_iff.mp h
  rw [hget] at hfound
  cases hfound
  exact hasProcess_iff.mpr ⟨childPcb, hget', howner.trans hfoundOwner⟩

theorem Descends.hasProcess (h : pm.hasProcess owner pid) (hk : pm.Descends pid k) :
    pm.hasProcess owner k := by
  induction hk with
  | refl => exact h
  | tail _ hchild ih => exact hasProcess_childOf ih hchild

/-- For processes of `owner` the recursion follows exactly the child links. -/
theorem follows_ownedChildren {child : UInt32} (h : pm.hasProcess owner k) :
    DepthFirst.Follows (pm.ownedChildren owner) k child ↔ pm.ChildOf k child := by
  obtain ⟨pcb, hget, howner⟩ := hasProcess_iff.mp h
  have hchildren := ownedChildren_eq (ownedPcb_eq_some.mpr ⟨hget, howner⟩)
  constructor
  · rintro ⟨children, hnext, hchild, hadm⟩
    rw [hchildren] at hnext
    cases hnext
    obtain ⟨childPcb, hget', howner'⟩ := hasProcess_iff.mp (ownedChildren_isSome.mp hadm)
    exact ⟨pcb, childPcb, hget, mem_sortedIds.mp hchild, hget', howner'.trans howner.symm⟩
  · intro hchild
    have hadm := ownedChildren_isSome.mpr (hasProcess_childOf h hchild)
    obtain ⟨pcb', -, hget', hlisted, -⟩ := hchild
    rw [hget] at hget'
    cases hget'
    exact ⟨_, hchildren, mem_sortedIds.mpr hlisted, hadm⟩

theorem collects_subtree (pm : ProcessManager) (owner : Str) (pid : UInt32) :
    DepthFirst.Collects (pm.ownedChildren owner) [pid] [] (pm.subtree owner pid) := by
  rw [subtree, collectSubtree_eq]
  exact DepthFirst.collects_collect (fun _ => mem_keys_of_ownedChildren) pm.unvisited_keys

theorem mem_subtree_iff (h : pm.hasProcess owner pid) :
    k ∈ pm.subtree owner pid ↔ pm.Descends pid k := by
  have hadm : (pm.ownedChildren owner pid).isSome := ownedChildren_isSome.mpr h
  rw [subtree, collectSubtree_eq,
    DepthFirst.mem_collect_iff (fun _ => mem_keys_of_ownedChildren) pm.unvisited_keys hadm]
  constructor
  · intro hreach
    induction hreach with
    | refl => exact .refl
    | tail _ hfollows ih => exact ih.tail ((follows_ownedChildren (ih.hasProcess h)).mp hfollows)
  · intro hdesc
    induction hdesc with
    | refl => exact .refl
    | tail hpath hchild ih =>
      have hlive : pm.hasProcess owner _ := Descends.hasProcess h hpath
      exact ih.tail ((follows_ownedChildren hlive).mpr hchild)

/-- The descendants are the least closed set. -/
theorem isLeast_descends (pm : ProcessManager) (pid : UInt32) :
    IsLeast {pids | pm.ChildClosed pid pids} {k | pm.Descends pid k} := by
  refine ⟨⟨.refl, fun parent hparent child hchild => hparent.tail hchild⟩,
    fun pids hclosed k hk => ?_⟩
  induction hk with
  | refl => exact hclosed.1
  | tail _ hchild ih => exact hclosed.2 _ ih _ hchild

/-- `killProcess` on any table: the recursion returns one list, the call succeeds exactly for
a process of the owner, the removed PIDs are the least closed set around it, and nothing but
them disappears, from the table, from the child lists and from the queues. -/
theorem killProcess_removes_closure (pm : ProcessManager) (owner : Str) (pid : UInt32) :
    (∃! ordered, DepthFirst.Collects (pm.ownedChildren owner) [pid] [] ordered) ∧
    ((pm.killProcess owner pid).isOk = true ↔
      ∃ pcb, pm.pcbTable[pid]? = some pcb ∧ pcb.owner = owner) ∧
    (∀ pm' removed message, pm.killProcess owner pid = .ok (pm', removed, message) →
      DepthFirst.Collects (pm.ownedChildren owner) [pid] [] removed ∧ removed.Nodup ∧
      IsLeast {pids | pm.ChildClosed pid pids} {k | k ∈ removed} ∧
      pm'.nextPid = pm.nextPid ∧
      (∀ k : UInt32, pm'.pcbTable[k]? = if k ∈ removed then none else
        pm.pcbTable[k]?.map fun pcb =>
          { pcb with children := pcb.children.filter (· ∉ removed) }) ∧
      ∀ q, pm'.readyQueues q = (pm.readyQueues q).filter (· ∉ removed)) ∧
    (∀ message, pm.killProcess owner pid = .error message →
      pm.keep (pm.killProcess owner pid) = pm) := by
  refine ⟨⟨_, collects_subtree pm owner pid, fun _ h => (collects_subtree pm owner pid).unique h⟩,
    ?_, fun pm' removed message hkill => ?_, fun message hkill => by rw [hkill, keep]⟩
  · rw [← hasProcess_iff]
    constructor
    · intro hok
      cases hkill : pm.killProcess owner pid with
      | error message =>
        rw [hkill] at hok
        cases hok
      | ok result =>
        obtain ⟨pm', removed, message⟩ := result
        exact (killProcess_spec hkill).1
    · intro hhas
      obtain ⟨message, hkill⟩ := killProcess_of_hasProcess hhas
      rw [hkill]
      rfl
  · obtain ⟨hhas, rfl, rfl⟩ := killProcess_spec hkill
    have hset : {k | k ∈ pm.subtree owner pid} = {k | pm.Descends pid k} :=
      Set.ext fun k => mem_subtree_iff hhas
    exact ⟨collects_subtree pm owner pid, (subtree_spec hhas).2.1, hset ▸ isLeast_descends pm pid,
      rfl, fun k => pruned_getElem? _, fun q => rfl⟩

end ProcessManager

end OSCoreSim
