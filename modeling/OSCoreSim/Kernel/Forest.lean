import OSCoreSim.Kernel.Native
import OSCoreSim.Lib.ParentForest
/-!
# The process table is a forest of every user

`ppid` and `children` say the same about the live processes, links stay within one user and
lead to smaller PIDs.
-/

namespace OSCoreSim

open ProcessManager CommandDispatcher
open Std (ExtTreeMap)

namespace Kernel

variable {owner : Str} {pm pm' : ProcessManager} {mm mm' : MemoryManager} {pid k : UInt32}
  {pcb : PCB} {cause : Cause}

/-- The link of a process to its parent; a `ppid` of 0 is none. -/
def parentPid (table : ExtTreeMap UInt32 PCB) (pid : UInt32) : Option UInt32 :=
  table[pid]?.bind fun pcb => if pcb.ppid = 0 then none else some pcb.ppid

def Live (table : ExtTreeMap UInt32 PCB) (pid : UInt32) : Prop := table[pid]?.isSome

/-- A forest of processes, the same one by `ppid` and by `children`. -/
structure IsForest (table : ExtTreeMap UInt32 PCB) : Prop where
  parent : ∀ (k : UInt32) (pcb : PCB), table[k]? = some pcb → pcb.ppid = 0 ∨
    (pcb.ppid < k ∧ ∃ parent : PCB, table[pcb.ppid]? = some parent ∧ parent.owner = pcb.owner)
  sorted : ∀ (k : UInt32) (pcb : PCB), table[k]? = some pcb → pcb.children.Pairwise (· < ·)
  children : ∀ (k : UInt32) (pcb : PCB), table[k]? = some pcb → ∀ c, c ∈ pcb.children ↔
    ∃ child : PCB, table[c]? = some child ∧ child.ppid = k

/-- What a forest of parent links comes to: no cycles, and every process below a parentless one
of the same user. -/
structure IsRooted (table : ExtTreeMap UInt32 PCB) : Prop where
  acyclic : ∀ k, ¬Relation.TransGen (ParentForest.Link (Live table) (parentPid table)) k k
  root : ∀ (k : UInt32) (pcb : PCB), table[k]? = some pcb → ∃ r top, table[r]? = some top ∧
    top.ppid = 0 ∧ top.owner = pcb.owner ∧
    Relation.ReflTransGen (ParentForest.Link (Live table) (parentPid table)) r k

theorem parentPid_eq_some {table : ExtTreeMap UInt32 PCB} {p : UInt32} :
    parentPid table k = some p ↔ ∃ pcb : PCB, table[k]? = some pcb ∧ pcb.ppid ≠ 0 ∧ pcb.ppid = p := by
  unfold parentPid
  cases table[k]? with
  | none => simp
  | some pcb => by_cases hzero : pcb.ppid = 0 <;> simp [hzero]

theorem IsForest.ranked {table : ExtTreeMap UInt32 PCB} (h : IsForest table) :
    ParentForest.Ranked (Live table) (parentPid table) UInt32.toNat where
  present_parent k p hk hparent := by
    obtain ⟨pcb, hget, hne, rfl⟩ := parentPid_eq_some.mp hparent
    rcases h.parent k pcb hget with hzero | ⟨-, parent, hlive, -⟩
    · exact absurd hzero hne
    · exact Option.isSome_of_eq_some hlive
  rank_lt k p hk hparent := by
    obtain ⟨pcb, hget, hne, rfl⟩ := parentPid_eq_some.mp hparent
    rcases h.parent k pcb hget with hzero | ⟨hlt, -⟩
    · exact absurd hzero hne
    · exact UInt32.lt_iff_toNat_lt.mp hlt

theorem IsForest.isRooted {table : ExtTreeMap UInt32 PCB} (h : IsForest table) :
    IsRooted table where
  acyclic := h.ranked.acyclic
  root k pcb hget := by
    have howner : ∀ k p, Live table k → parentPid table k = some p →
        table[p]?.map (·.owner) = table[k]?.map (·.owner) := by
      intro k p hk hparent
      obtain ⟨pcb, hget, hne, rfl⟩ := parentPid_eq_some.mp hparent
      rcases h.parent k pcb hget with hzero | ⟨-, parent, hlive, hsame⟩
      · exact absurd hzero hne
      · rw [hget, hlive, Option.map_some, Option.map_some, hsame]
    obtain ⟨r, hlive, hnone, hsame, hchain⟩ :=
      h.ranked.exists_root (fun k => table[k]?.map (·.owner)) howner (Option.isSome_of_eq_some hget)
    obtain ⟨top, htop⟩ := Option.isSome_iff_exists.mp hlive
    refine ⟨r, top, htop, ?_, ?_, hchain⟩
    · by_contra hne
      have hparent := parentPid_eq_some.mpr ⟨top, htop, hne, rfl⟩
      rw [hnone] at hparent
      cases hparent
    · simpa [htop, hget] using hsame

/-! ## Parents are older -/

def ParentsOlder (pm : ProcessManager) : Prop :=
  ∀ (k : UInt32) (pcb : PCB), pm.pcbTable[k]? = some pcb → pcb.ppid ≠ 0 → pcb.ppid < k

theorem parentsOlder_effect (h : ParentsOlder pm) (he : Effect cause owner pm mm pm' mm') :
    ParentsOlder pm' := by
  intro k pcb' hget hne
  obtain ⟨pcb, hold, hppid, -⟩ := he.touches.origin hget
  rw [hppid] at hne ⊢
  exact h k pcb hold hne

theorem parentsOlder_created {args : CreateArguments} {start : UInt32} (h : ParentsOlder pm)
    (hnumbered : Numbered pm) (hc : Created owner args start pm mm pm' mm') :
    ParentsOlder pm' := by
  intro k found hget hne
  rw [hc.processes] at hget
  rcases spawned_cases (ppid_ne_nextPid hnumbered.fresh hc.parent) hget with
    ⟨hk, rfl⟩ | ⟨-, old, children, hold, rfl⟩
  · -- the parent of a new process is live, so it is below the next PID
    obtain ⟨parent, hlive, -⟩ := hasProcess_iff.mp (hc.parent hne)
    rw [hk, UInt32.lt_iff_toNat_lt]
    exact (hnumbered.bound _ parent hlive).2
  · exact h k old hold hne

structure Rooted (n : ℕ) (k : Kernel) : Prop where
  sound : Sound n k
  older : ParentsOlder k.processManager

theorem Rooted.isForest {n : ℕ} {kernel : Kernel} (h : Rooted n kernel) :
    IsForest kernel.processManager.pcbTable where
  parent k pcb hget := by
    by_cases hzero : pcb.ppid = 0
    · exact .inl hzero
    · have hparent := hasProcess_iff.mp (h.sound.native.parent k pcb hget hzero)
      exact .inr ⟨h.older k pcb hget hzero, hparent⟩
  sorted := h.sound.native.sorted
  children k pcb hget c := by
    rw [h.sound.coherent.lineage.family k pcb hget c]
    constructor
    · rintro ⟨child, hchild, hppid, -⟩
      exact ⟨child, hchild, hppid⟩
    · rintro ⟨child, hchild, hppid⟩
      have hpos := (h.sound.coherent.numbered.bound k pcb hget).1
      have hne : child.ppid ≠ 0 := by
        intro hzero
        rw [← hppid, hzero] at hpos
        exact absurd hpos (by decide)
      -- the parent that the child names is this process
      obtain ⟨parent, hparent, howner⟩ :=
        hasProcess_iff.mp (h.sound.native.parent c child hchild hne)
      rw [hppid, hget] at hparent
      cases hparent
      exact ⟨child, hchild, hppid, howner.symm⟩

variable {kernel kernel' : Kernel} {command : Command} {success : Bool} {n : ℕ}

theorem parentsOlder_change (h : Rooted n kernel) (hc : Change command kernel kernel' success) :
    ParentsOlder kernel'.processManager := by
  cases hc with
  | create owner args hname hlogin hargs halloc hcreate =>
    have hnumbered := h.sound.coherent.numbered
    exact parentsOlder_created h.older hnumbered
      (created_of_ok h.sound.coherent.matched.partition hnumbered.fresh halloc hcreate)
  | act owner hlogin ha =>
    exact parentsOlder_effect h.older (effect_of_action h.sound.coherent.matched ha)
  | _ => exact h.older

theorem parentsOlder_tick (h : Rooted n kernel) :
    ParentsOlder kernel.schedulerTick.1.processManager :=
  tick_keeps (P := fun k => ParentsOlder k.processManager) h.older fun _ ha =>
    parentsOlder_effect h.older (effect_of_action h.sound.coherent.matched ha)

end Kernel

namespace World

open Kernel

variable {w : World} {event : Event} {events : List Event} {n : ℕ}

theorem rooted_step (h : Rooted n w.kernel) (hload : ¬event.Named (str "load"))
    (hroom : n + w.creations event < 2 ^ 32 - 1) :
    Rooted (n + w.creations event) (w.step event).kernel := by
  refine ⟨sound_step h.sound hload hroom, ?_⟩
  apply step_keeps (P := fun k => ParentsOlder k.processManager) hload
  · exact fun _ hc => parentsOlder_change h hc
  · exact parentsOlder_tick h

/-- After any events from a clean start, without `load` and as long as the PIDs do not run out,
the process table is a forest of every user. -/
theorem forest_of_run (hclean : w.kernel.Clean) (hload : NoLoad events)
    (hbudget : Runs.total step creations w events < 2 ^ 32 - 1) :
    let table := (Runs.run step w events).kernel.processManager.pcbTable
    IsForest table ∧ IsRooted table := by
  intro table
  have hstart : Rooted 0 w.kernel :=
    ⟨hclean.sound, fun k pcb hget => by simp [hclean.processes] at hget⟩
  have hrun : Rooted (0 + Runs.total step creations w events) (Runs.run step w events).kernel :=
    Runs.run_invariant (P := fun n (w : World) => Rooted n w.kernel)
      (fun _ _ event h (hok : ¬event.Named (str "load")) hlt => rooted_step h hok hlt) hstart
      (hload.permitted w) (by rwa [Nat.zero_add])
  exact ⟨hrun.isForest, hrun.isForest.isRooted⟩

/-- A family of three, the middle one removed by its completion. -/
theorem forest_of_run_family :
    let w : World := { kernel := Kernel.start {} ∅ }
    let events := [console "register a pw", console "login a pw", console "create_pcb p 4 9 9",
      console "create_pcb q 4 0 1 1", console "create_pcb r 4 9 5 1", console "step",
      console "kill_pcb 3"]
    let table := (Runs.run step w events).kernel.processManager.pcbTable
    IsForest table ∧ IsRooted table :=
  forest_of_run (clean_start {} ∅ fun _ h => by cases h) (by decide)
    (Nat.lt_of_le_of_lt (Runs.total_le_length creations_le_one _ _) (by decide))

end World

end OSCoreSim
