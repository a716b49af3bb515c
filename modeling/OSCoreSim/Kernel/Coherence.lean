import OSCoreSim.Auth.Accounts
import OSCoreSim.Kernel.Isolation
import OSCoreSim.Kernel.SnapshotValidity
/-!
# States whose snapshot is valid

`Coherent` states are those that every accepted snapshot leads to.  Three kinds of steps can
leave them: the removal of a process that is the parent of another user's process, a time
slice beyond the total time, and the creation that takes the last PID.  Every other step
keeps them.
-/

namespace OSCoreSim

open MemoryManager ProcessManager UserManager CommandDispatcher
open Std (ExtTreeMap)

namespace Kernel

variable {owner : Str} {pm pm' : ProcessManager} {mm mm' : MemoryManager} {pid k : UInt32}
  {pcb pcb' : PCB} {cause : Cause} {users : ExtTreeMap Str UserAccount}

/-- What a PCB says about itself and its family. -/
structure Lineage (table : ExtTreeMap UInt32 PCB) : Prop where
  range : ∀ (k : UInt32) (pcb : PCB), table[k]? = some pcb → PcbInRange pcb
  parent : ∀ (k : UInt32) (pcb : PCB), table[k]? = some pcb → pcb.ppid ≠ 0 →
    ∃ parent, table[pcb.ppid]? = some parent
  family : ∀ (k : UInt32) (pcb : PCB), table[k]? = some pcb → ∀ c, c ∈ pcb.children ↔
    ∃ child, table[c]? = some child ∧ child.ppid = k ∧ child.owner = pcb.owner

structure Registered (users : ExtTreeMap Str UserAccount) (pm : ProcessManager)
    (mm : MemoryManager) : Prop where
  process : ∀ (k : UInt32) (pcb : PCB), pm.pcbTable[k]? = some pcb → pcb.owner ∈ users
  block : ∀ block ∈ allocated mm.blocks,
    block.type = .kernel ∨ block.type = .process → block.owner ∈ users

structure Coherent (k : Kernel) : Prop where
  accounts : Accounts k.userManager
  matched : Matched k.processManager k.memoryManager
  numbered : Numbered k.processManager
  lineage : Lineage k.processManager.pcbTable
  registered : Registered k.userManager.users k.processManager k.memoryManager
  attended : Attended k

/-! ## The steps that keep the lineage -/

/-- The subtree holds the parent of another user's process. -/
def Orphans (pm : ProcessManager) (owner : Str) (pid : UInt32) : Prop :=
  ∃ pcb ∈ pm.exportPcbs, pcb.owner ≠ owner ∧ pcb.ppid ∈ pm.subtree owner pid

instance : Decidable (Orphans pm owner pid) :=
  inferInstanceAs (Decidable (∃ pcb ∈ pm.exportPcbs, pcb.owner ≠ owner ∧ _))

/-- The process that the next turn of `owner` goes to can be removed, or can use up its time
slice within its total time. -/
def TurnKeeps (pm : ProcessManager) (owner : Str) : Prop :=
  ∀ pid ∈ pm.selectedPid owner, ∀ pcb ∈ pm.pcbTable[pid]?,
    if pcb.remainingTime ≤ timeSliceForQueue pcb.queueLevel then ¬Orphans pm owner pid
    else pcb.executedTime + timeSliceForQueue pcb.queueLevel ≤ pcb.totalTime

instance : Decidable (TurnKeeps pm owner) :=
  (Option.decidableForallMem (pm.selectedPid owner) :
    Decidable (∀ pid ∈ pm.selectedPid owner, ∀ pcb ∈ pm.pcbTable[pid]?, _))

structure Spares (cause : Cause) (owner : Str) (pm : ProcessManager) : Prop where
  kill : ∀ pid, cause.kills pid → ¬Orphans pm owner pid
  turn : cause.turns → TurnKeeps pm owner

/-! ## Ranges -/

theorem PcbInRange.frame (h : PcbInRange pcb) (state : ProcessState) (memStart : UInt32)
    (swappedOut : Bool) (children : List UInt32) : PcbInRange { pcb with
      state := state, memStart := memStart, swappedOut := swappedOut, children := children } :=
  ⟨h.parent, h.priority, h.level, h.executed, h.remaining⟩

theorem PcbInRange.transition (h : PcbInRange pcb) (ht : Transition pcb pcb') :
    PcbInRange pcb' := by
  cases ht with
  | renice priority hvalid =>
    exact ⟨h.parent, isValidPriority_iff.mp hvalid, queueLevelForPriority_range priority,
      h.executed, h.remaining⟩
  | _ => exact h.frame _ _ _ _

theorem PcbInRange.afterSlice (h : PcbInRange pcb)
    (hleft : timeSliceForQueue pcb.queueLevel < pcb.remainingTime)
    (hroom : pcb.executedTime + timeSliceForQueue pcb.queueLevel ≤ pcb.totalTime) :
    PcbInRange (ProcessManager.afterSlice pcb) where
  parent := h.parent
  priority := h.priority
  level := by
    obtain ⟨hdown, hlast⟩ := demotedLevel_range h.level.1 h.level.2
    exact ⟨Int32.le_trans h.level.1 hdown, hlast⟩
  executed := hroom
  remaining := by
    have hle := UInt32.le_iff_toNat_le.mp h.remaining
    have hsub := UInt32.toNat_sub_of_le pcb.remainingTime _ (UInt32.le_of_lt hleft)
    rw [UInt32.le_iff_toNat_le]
    simp only [ProcessManager.afterSlice, hsub]
    omega

/-! ## The lineage is kept -/

def SameKin (pcb pcb' : PCB) : Prop :=
  pcb'.ppid = pcb.ppid ∧ pcb'.owner = pcb.owner ∧ pcb'.children = pcb.children

theorem Lineage.of_sameKin {table table' : ExtTreeMap UInt32 PCB} (h : Lineage table)
    (hback : ∀ (k : UInt32) (pcb' : PCB), table'[k]? = some pcb' →
      ∃ pcb, table[k]? = some pcb ∧ SameKin pcb pcb' ∧ PcbInRange pcb')
    (hforth : ∀ (k : UInt32) (pcb : PCB), table[k]? = some pcb →
      ∃ pcb', table'[k]? = some pcb' ∧ SameKin pcb pcb') : Lineage table' where
  range k pcb' hget := by
    obtain ⟨pcb, -, -, hrange⟩ := hback k pcb' hget
    exact hrange
  parent k pcb' hget hne := by
    obtain ⟨pcb, hold, ⟨hppid, -, -⟩, -⟩ := hback k pcb' hget
    rw [hppid] at hne ⊢
    obtain ⟨parent, hparent⟩ := h.parent k pcb hold hne
    obtain ⟨parent', hparent', -⟩ := hforth _ parent hparent
    exact ⟨parent', hparent'⟩
  family k pcb' hget c := by
    obtain ⟨pcb, hold, ⟨-, howner, hchildren⟩, -⟩ := hback k pcb' hget
    rw [howner, hchildren, h.family k pcb hold c]
    constructor
    · rintro ⟨child, hchild, hk, hsame⟩
      obtain ⟨child', hchild', hppid', howner', -⟩ := hforth c child hchild
      exact ⟨child', hchild', hppid'.trans hk, howner'.trans hsame⟩
    · rintro ⟨child', hchild', hk, hsame⟩
      obtain ⟨child, hchild, ⟨hppid', howner', -⟩, -⟩ := hback c child' hchild'
      exact ⟨child, hchild, hppid'.symm.trans hk, howner'.symm.trans hsame⟩

/-- Removing a subtree that orphans nobody. -/
theorem Lineage.pruned (hkeyed : pm.Keyed) (h : Lineage pm.pcbTable)
    (hhas : pm.hasProcess owner pid) (hspare : ¬Orphans pm owner pid) :
    Lineage (pm.pruned (pm.subtree owner pid)).pcbTable := by
  obtain ⟨-, -, howned, hclosed⟩ := subtree_spec hhas
  refine ⟨fun k pcb' hget => ?_, fun k pcb' hget hne => ?_, fun k pcb' hget c => ?_⟩
  · obtain ⟨-, pcb, hold, rfl⟩ := pruned_eq_some.mp hget
    exact (h.range k pcb hold).frame _ _ _ _
  · obtain ⟨hk, pcb, hold, rfl⟩ := pruned_eq_some.mp hget
    obtain ⟨parent, hparent⟩ := h.parent k pcb hold hne
    have hout : pcb.ppid ∉ pm.subtree owner pid := by
      intro hin
      obtain ⟨parent', hparent', howner'⟩ := hasProcess_iff.mp (howned _ hin)
      rw [hparent] at hparent'
      cases hparent'
      by_cases hsame : pcb.owner = owner
      · -- a process of the same owner is a child and goes with its parent
        have hchild : k ∈ parent.children :=
          (h.family _ parent hparent k).mpr ⟨pcb, hold, rfl, hsame.trans howner'.symm⟩
        exact hk (hclosed _ hin parent hparent k hchild (hasProcess_iff.mpr ⟨pcb, hold, hsame⟩))
      · have hmem : pcb ∈ pm.exportPcbs :=
          hkeyed.mem_exportPcbs.mpr (by rw [hkeyed k pcb hold, hold])
        exact hspare ⟨pcb, hmem, hsame, hin⟩
    exact ⟨_, pruned_eq_some.mpr ⟨hout, parent, hparent, rfl⟩⟩
  · obtain ⟨hk, pcb, hold, rfl⟩ := pruned_eq_some.mp hget
    show c ∈ pcb.children.filter (· ∉ pm.subtree owner pid) ↔ _
    rw [List.mem_filter, h.family k pcb hold c]
    constructor
    · rintro ⟨⟨child, hchild, hppid, hsame⟩, hc⟩
      exact ⟨_, pruned_eq_some.mpr ⟨by simpa using hc, child, hchild, rfl⟩, hppid, hsame⟩
    · rintro ⟨child', hchild', hppid, hsame⟩
      obtain ⟨hc, child, hchild, rfl⟩ := pruned_eq_some.mp hchild'
      exact ⟨⟨child, hchild, hppid, hsame⟩, by simpa using hc⟩

theorem Rewritten.inRange (hrewritten : Rewritten cause owner pm pid pcb pcb')
    (hspares : Spares cause owner pm) (hget : pm.pcbTable[pid]? = some pcb)
    (hrange : PcbInRange pcb) : PcbInRange pcb' := by
  cases hrewritten with
  | transition ht => exact hrange.transition ht
  | swapOut => exact hrange.frame _ _ _ _
  | slice hcause hsel _ _ hleft =>
    have hturn := hspares.turn hcause pid hsel pcb hget
    rw [if_neg (UInt32.not_le.mpr hleft)] at hturn
    exact hrange.afterSlice hleft hturn

theorem lineage_touches (hkeyed : pm.Keyed) (h : Lineage pm.pcbTable)
    (hspares : Spares cause owner pm) {table : ExtTreeMap UInt32 PCB}
    (ht : Touches cause owner pm mm table) : Lineage table := by
  cases ht with
  | keep => exact h
  | @store pid pcb pcb' hget hrewritten =>
    have htable := (ownedPcb_eq_some.mp hget).1
    obtain ⟨-, hppid, howner, hchildren⟩ := hrewritten.frame
    have hrange := hrewritten.inRange hspares htable (h.range pid pcb htable)
    refine h.of_sameKin (fun k found hfound => ?_) fun k found hfound => ?_
    · rw [KeyedTable.getElem?_insert] at hfound
      split at hfound
      next hk =>
        cases hfound
        exact ⟨pcb, hk ▸ htable, ⟨hppid, howner, hchildren⟩, hrange⟩
      next => exact ⟨found, hfound, ⟨rfl, rfl, rfl⟩, h.range k found hfound⟩
    · rw [KeyedTable.getElem?_insert]
      split
      next hk =>
        rw [← hk, htable] at hfound
        cases hfound
        exact ⟨pcb', rfl, hppid, howner, hchildren⟩
      next => exact ⟨found, hfound, rfl, rfl, rfl⟩
  | @prune pid hcause hhas =>
    refine h.pruned hkeyed hhas ?_
    rcases hcause with hkill | ⟨hturns, hsel, pcb, hget, hlast⟩
    · exact hspares.kill pid hkill
    · have hturn := hspares.turn hturns pid hsel pcb hget
      rwa [if_pos hlast] at hturn
  | move =>
    refine h.of_sameKin (fun k found hfound => ?_) fun k found hfound => ?_
    · rw [compactedProcesses, updateStarts_getElem?] at hfound
      obtain ⟨pcb, hold, rfl⟩ := Option.map_eq_some_iff.mp hfound
      exact ⟨pcb, hold, ⟨rfl, rfl, rfl⟩, (h.range k pcb hold).frame _ _ _ _⟩
    · rw [compactedProcesses, updateStarts_getElem?, hfound]
      exact ⟨_, rfl, rfl, rfl, rfl⟩

theorem mem_children_withChild {ppid c : UInt32} :
    c ∈ (withChild ppid pid k pcb).children ↔
      c ∈ pcb.children ∨ c = pid ∧ ppid ≠ 0 ∧ k = ppid := by
  unfold withChild
  split
  next h => simp [h]
  next h => simp [h]

theorem Lineage.unnamed (h : Lineage pm.pcbTable) (hnumbered : Numbered pm)
    (hget : pm.pcbTable[k]? = some pcb) : pcb.ppid ≠ pm.nextPid := by
  intro heq
  have hpos := hnumbered.next_pos
  by_cases hzero : pcb.ppid = 0
  · rw [← heq, hzero] at hpos
    exact absurd hpos (by decide)
  · obtain ⟨parent, hparent⟩ := h.parent k pcb hget hzero
    rw [heq, hnumbered.fresh] at hparent
    cases hparent

theorem Lineage.spawned (hnumbered : Numbered pm) (h : Lineage pm.pcbTable)
    (hparent : pcb.ppid ≠ 0 → pm.hasProcess pcb.owner pcb.ppid) (hchildren : pcb.children = [])
    (hrange : PcbInRange pcb) (hpid : pcb.pid = pm.nextPid) :
    Lineage (pm.spawned pcb).pcbTable := by
  have hfresh := hnumbered.fresh
  have hne := ProcessManager.ppid_ne_nextPid hfresh hparent
  refine ⟨fun k found hfound => ?_, fun k found hfound hppid => ?_, fun k found hfound c => ?_⟩
  · rcases spawned_cases hne hfound with ⟨-, rfl⟩ | ⟨-, old, children, hget, rfl⟩
    · exact hrange
    · exact (h.range k old hget).frame _ _ _ _
  · rcases spawned_cases hne hfound with ⟨-, rfl⟩ | ⟨-, old, children, hget, rfl⟩
    · obtain ⟨parent, hget, -⟩ := hasProcess_iff.mp (hparent hppid)
      obtain ⟨children, hget'⟩ := spawned_kept hfresh hne hget
      exact ⟨_, hget'⟩
    · obtain ⟨parent, hget⟩ := h.parent k old hget hppid
      obtain ⟨children', hget'⟩ := spawned_kept hfresh hne hget
      exact ⟨_, hget'⟩
  · rcases spawned_cases hne hfound with ⟨rfl, rfl⟩ | ⟨hk, old, children, hget, heq⟩
    · rw [hchildren]
      simp only [List.not_mem_nil, false_iff]
      rintro ⟨child, hchild, hppid, -⟩
      rcases spawned_cases hne hchild with ⟨-, rfl⟩ | ⟨-, old, children, hget, rfl⟩
      · exact hrange.parent (hppid.trans hpid.symm)
      · exact h.unnamed hnumbered hget hppid
    · have howner : found.owner = old.owner := by rw [heq]
      have hlink : found = withChild pcb.ppid pm.nextPid k old := by
        rw [spawned_getElem? hne, if_neg hk, hget] at hfound
        exact (Option.some.inj hfound).symm
      rw [howner, hlink, mem_children_withChild, h.family k old hget c]
      constructor
      · rintro (⟨child, hchild, hppid, hsame⟩ | ⟨rfl, hzero, rfl⟩)
        · obtain ⟨children', hget'⟩ := spawned_kept hfresh hne hchild
          exact ⟨_, hget', hppid, hsame⟩
        · obtain ⟨parent, hparent', howner'⟩ := hasProcess_iff.mp (hparent hzero)
          rw [hget] at hparent'
          cases hparent'
          exact ⟨pcb, spawned_new hne, rfl, howner'.symm⟩
      · rintro ⟨child, hchild, hppid, hsame⟩
        rcases spawned_cases hne hchild with ⟨rfl, rfl⟩ | ⟨-, child', children', hget', rfl⟩
        · have hpos := (hnumbered.bound k old hget).1
          refine .inr ⟨rfl, fun hzero => ?_, hppid.symm⟩
          rw [← hppid, hzero] at hpos
          exact absurd hpos (by decide)
        · exact .inl ⟨child', hget', hppid, hsame⟩

/-! ## Owners are kept -/

theorem Registered.of_blocks (h : Registered users pm mm)
    (hprocess : ∀ (k : UInt32) (pcb' : PCB), pm'.pcbTable[k]? = some pcb' →
      ∃ pcb, pm.pcbTable[k]? = some pcb ∧ pcb'.owner = pcb.owner)
    (hblock : ∀ block' ∈ allocated mm'.blocks, block'.owner ∈ users ∨
      ∃ block ∈ allocated mm.blocks, block'.type = block.type ∧ block'.owner = block.owner) :
    Registered users pm' mm' where
  process k pcb' hget := by
    obtain ⟨pcb, hold, howner⟩ := hprocess k pcb' hget
    rw [howner]
    exact h.process k pcb hold
  block block' hmem htype := by
    rcases hblock block' hmem with hin | ⟨block, hold, htype', howner⟩
    · exact hin
    · rw [howner]
      exact h.block block hold (htype' ▸ htype)

/-- Every PCB goes back to one with the same PID, parent and owner, and no fewer children. -/
theorem Touches.origin {table : ExtTreeMap UInt32 PCB} (ht : Touches cause owner pm mm table)
    (hget : table[k]? = some pcb') :
    ∃ pcb, pm.pcbTable[k]? = some pcb ∧ pcb'.ppid = pcb.ppid ∧ pcb'.owner = pcb.owner ∧
      pcb'.children.Sublist pcb.children := by
  cases ht with
  | keep => exact ⟨pcb', hget, rfl, rfl, .refl _⟩
  | @store pid pcb stored hold hrewritten =>
    rw [KeyedTable.getElem?_insert] at hget
    split at hget
    next hk =>
      cases hget
      obtain ⟨-, hppid, howner, hchildren⟩ := hrewritten.frame
      exact ⟨pcb, hk ▸ (ownedPcb_eq_some.mp hold).1, hppid, howner, hchildren ▸ .refl _⟩
    next => exact ⟨pcb', hget, rfl, rfl, .refl _⟩
  | prune =>
    obtain ⟨-, old, hold, rfl⟩ := pruned_eq_some.mp hget
    exact ⟨old, hold, rfl, rfl, List.filter_sublist⟩
  | move =>
    rw [compactedProcesses, updateStarts_getElem?] at hget
    obtain ⟨old, hold, rfl⟩ := Option.map_eq_some_iff.mp hget
    exact ⟨old, hold, rfl, rfl, .refl _⟩

/-- Blocks in use stay where they are, move, go, or come with the acting user. -/
theorem Effect.blocks (hpart : Partition mm) (he : Effect cause owner pm mm pm' mm') :
    ∀ block' ∈ allocated mm'.blocks, block'.owner = owner ∨
      ∃ block ∈ allocated mm.blocks, block'.type = block.type ∧ block'.owner = block.owner := by
  have hsame : ∀ block' ∈ allocated mm.blocks, block'.owner = owner ∨
      ∃ block ∈ allocated mm.blocks, block'.type = block.type ∧ block'.owner = block.owner :=
    fun block' hmem => .inr ⟨block', hmem, rfl, rfl⟩
  have hrelease : ∀ pids, ∀ block' ∈ allocated (Scheduler.releaseAll owner mm pids).1.blocks,
      block' ∈ allocated mm.blocks := by
    intro pids
    have hboth : Partition (Scheduler.releaseAll owner mm pids).1 ∧
        ∀ block' ∈ allocated (Scheduler.releaseAll owner mm pids).1.blocks,
          block' ∈ allocated mm.blocks :=
      releaseAll_induction (P := fun mm' => Partition mm' ∧ ∀ block' ∈ allocated mm'.blocks,
          block' ∈ allocated mm.blocks)
        (fun h hm => ⟨h.1.of_releases hm, fun block' hmem =>
          h.2 block' (h.1.mem_of_releases hm block' hmem)⟩) pids ⟨hpart, fun _ hmem => hmem⟩
    exact hboth.2
  cases he with
  | alloc htype hne howner hm =>
    obtain ⟨l, r, hold, hadd⟩ := hm.allocated_eq (by simp [htype])
    intro block' hmem
    rw [hadd] at hmem
    rcases List.mem_append.mp hmem with hmem | hmem
    · exact hsame block' (by simp [hold, hmem])
    rcases List.mem_cons.mp hmem with rfl | hmem
    · exact .inl howner
    · exact hsame block' (by simp [hold, hmem])
  | @free l r it hblocks =>
    intro block' hmem
    rw [hpart.allocated_released hblocks, ← allocated_append] at hmem
    refine hsame block' ?_
    obtain ⟨hin, hfree⟩ := mem_allocated.mp hmem
    refine mem_allocated.mpr ⟨?_, hfree⟩
    rw [hblocks]
    simp only [List.mem_append, List.mem_cons] at hin ⊢
    exact hin.imp_right .inr
  | setAlgorithm | rewrite => exact hsame
  | compact =>
    intro block' hmem
    obtain ⟨block, hold, hmoved⟩ := hpart.mem_compact hmem
    have heq : block' = { block with start := block'.start } := hmoved
    exact .inr ⟨block, hold, by rw [heq], by rw [heq]⟩
  | swapOut _ _ hm =>
    exact fun block' hmem => hsame block' (hpart.mem_of_releases hm block' hmem)
  | kill => exact fun block' hmem => hsame block' (hrelease _ block' hmem)
  | step _ ho =>
    cases ho with
    | idle | requeue => exact hsame
    | finish => exact fun block' hmem => hsame block' (hrelease _ block' hmem)

theorem registered_effect (hpart : Partition mm) (h : Registered users pm mm)
    (howner : owner ∈ users) (he : Effect cause owner pm mm pm' mm') :
    Registered users pm' mm' := by
  refine h.of_blocks (fun k pcb' hget => ?_) fun block' hmem =>
    (he.blocks hpart block' hmem).imp_left fun heq => by rwa [heq]
  obtain ⟨pcb, hold, -, hsame, -⟩ := he.touches.origin hget
  exact ⟨pcb, hold, hsame⟩

theorem Registered.mono {users' : ExtTreeMap Str UserAccount} (h : Registered users pm mm)
    (hmono : ∀ name ∈ users, name ∈ users') : Registered users' pm mm where
  process k pcb hget := hmono _ (h.process k pcb hget)
  block block hmem htype := hmono _ (h.block block hmem htype)

theorem registered_created {args : CreateArguments} {start : UInt32}
    (h : Registered users pm mm) (hfresh : pm.pcbTable[pm.nextPid]? = none)
    (howner : owner ∈ users) (hc : Created owner args start pm mm pm' mm') :
    Registered users pm' mm' where
  process k found hget := by
    rw [hc.processes] at hget
    rcases spawned_cases (ppid_ne_nextPid hfresh hc.parent) hget with
      ⟨-, rfl⟩ | ⟨-, old, children, hold, rfl⟩
    · exact howner
    · exact h.process k old hold
  block block hmem htype := by
    obtain ⟨l, r, hold, hadd⟩ := hc.allocates.allocated_eq (by simp)
    rw [hadd] at hmem
    rcases List.mem_append.mp hmem with hmem | hmem
    · exact h.block block (by simp [hold, hmem]) htype
    rcases List.mem_cons.mp hmem with rfl | hmem
    · exact howner
    · exact h.block block (by simp [hold, hmem]) htype

/-! ## One step -/

variable {command : Command} {kernel kernel' : Kernel} {success : Bool}

def KeepsLastPid (command : Command) (k : Kernel) : Prop :=
  command.name = str "create_pcb" → ∀ owner ∈ k.userManager.currentUser,
    ∀ args ∈ parseCreateArguments command.arguments, k.creates owner args = true →
      k.processManager.nextPid ≠ 4294967295

instance : Decidable (KeepsLastPid command kernel) :=
  inferInstanceAs (Decidable (_ → ∀ owner ∈ kernel.userManager.currentUser, ∀ args ∈ _, _ → _))

/-- A removal or a turn of the scheduler spares the other users and the counters. -/
def SparesOthers (command : Command) (k : Kernel) : Prop :=
  ∀ owner ∈ k.userManager.currentUser,
    (command.name = str "kill_pcb" → ∀ pid ∈ pidArgument command.arguments,
      ¬Orphans k.processManager owner pid) ∧
    (command.name = str "step" ∧ command.arguments = [] → TurnKeeps k.processManager owner)

instance (arguments : List Str) : Decidable (∀ pid ∈ pidArgument arguments, ¬Orphans pm owner pid) :=
  Option.decidableForallMem (pidArgument arguments)

instance : Decidable (SparesOthers command kernel) :=
  inferInstanceAs (Decidable (∀ owner ∈ kernel.userManager.currentUser, _ ∧ _))

theorem SparesOthers.spares (h : SparesOthers command kernel)
    (hlogin : kernel.userManager.currentUser = some owner) :
    Spares command.cause owner kernel.processManager :=
  have howner := h owner hlogin
  ⟨fun pid hkills => howner.1 hkills.1 pid hkills.2, howner.2⟩

theorem newPcb_inRange {ppid memKB start totalTime : UInt32} {name : Str} {priority : Int32}
    (hparent : ppid ≠ pid) (hpriority : isValidPriority priority = true) :
    PcbInRange (newPcb pid ppid owner name memKB start priority totalTime) where
  parent := hparent
  priority := isValidPriority_iff.mp hpriority
  level := queueLevelForPriority_range priority
  executed := UInt32.zero_le
  remaining := UInt32.le_refl _

theorem Coherent.effect (h : Coherent kernel) (howner : owner ∈ kernel.userManager.users)
    (hspares : Spares cause owner kernel.processManager)
    (he : Effect cause owner kernel.processManager kernel.memoryManager pm mm) :
    Coherent { kernel with processManager := pm, memoryManager := mm } where
  accounts := h.accounts
  matched := h.matched.effect he
  numbered := numbered_effect h.numbered he
  lineage := lineage_touches h.matched.keyed h.lineage hspares he.touches
  registered := registered_effect h.matched.partition h.registered howner he
  attended := h.attended

theorem Coherent.created {args : CreateArguments} {start : UInt32} (h : Coherent kernel)
    (howner : owner ∈ kernel.userManager.users)
    (hroom : kernel.processManager.nextPid ≠ 4294967295)
    (hc : Created owner args start kernel.processManager kernel.memoryManager pm mm) :
    Coherent { kernel with processManager := pm, memoryManager := mm } := by
  have hfresh := h.numbered.fresh
  have hne := ppid_ne_nextPid hfresh hc.parent
  have hroom' : kernel.processManager.nextPid.toNat + 1 < 2 ^ 32 := by
    have hlt := kernel.processManager.nextPid.toNat_lt
    have hne' : kernel.processManager.nextPid.toNat ≠ 4294967295 := fun heq =>
      hroom (UInt32.toNat_inj.mp heq)
    omega
  have hself : args.ppid.getD 0 ≠ kernel.processManager.nextPid := by
    by_cases hzero : args.ppid.getD 0 = 0
    · intro heq
      have hpos := h.numbered.next_pos
      rw [← heq, hzero] at hpos
      exact absurd hpos (by decide)
    · exact hne hzero
  exact {
    accounts := h.accounts
    matched := h.matched.created hfresh hc
    numbered := by
      rw [hc.processes]
      exact h.numbered.spawned hne hroom'
    lineage := by
      rw [hc.processes]
      exact h.lineage.spawned h.numbered hc.parent rfl (newPcb_inRange hself hc.priority) rfl
    registered := registered_created h.registered hfresh howner hc
    attended := h.attended }

theorem accounts_change (h : Accounts kernel.userManager)
    (hc : Change command kernel kernel' success) : Accounts kernel'.userManager := by
  cases hc with
  | register now username password hregister => exact h.registerUser hregister
  | login username password => exact h.login username password
  | logout hlogout => exact h.logout hlogout
  | _ => exact h

theorem coherent_change (h : Coherent kernel)
    (hroom : success = true → KeepsLastPid command kernel) (hspares : SparesOthers command kernel)
    (hc : Change command kernel kernel' success) : Coherent kernel' := by
  have hattended := attended_change h.attended hc
  have haccounts := accounts_change h.accounts hc
  cases hc with
  | same => exact h
  | register now username password hregister =>
    exact ⟨haccounts, h.matched, h.numbered, h.lineage,
      h.registered.mono fun _ => mem_users_registerUser hregister, hattended⟩
  | login username password =>
    exact ⟨haccounts, h.matched, h.numbered, h.lineage,
      h.registered.mono fun _ => mem_users_login username password, hattended⟩
  | logout hlogout =>
    refine ⟨haccounts, h.matched, h.numbered, h.lineage, ?_, hattended⟩
    exact h.registered.mono fun _ hmem => logout_users hlogout ▸ hmem
  | exit | files | start | stop =>
    exact ⟨haccounts, h.matched, h.numbered, h.lineage, h.registered, hattended⟩
  | create owner args hname hlogin hargs halloc hcreate =>
    have hcreates := creates_of_ok halloc hcreate
    exact h.created (h.accounts.session owner hlogin) (hroom rfl hname owner hlogin args hargs hcreates)
      (created_of_ok h.matched.partition h.numbered.fresh halloc hcreate)
  | rollback owner args hname hlogin hargs halloc =>
    obtain ⟨hmatched, hblocks, -⟩ := h.matched.rolledBack h.numbered.fresh halloc
    refine ⟨h.accounts, hmatched, h.numbered, h.lineage, ⟨h.registered.process, ?_⟩, hattended⟩
    rw [hblocks]
    exact h.registered.block
  | swapHalf owner pid hlogin hmem hmark hhas =>
    exact (h.matched.not_swapHalf hmem hmark hhas).elim
  | act owner hlogin ha =>
    exact h.effect (h.accounts.session owner hlogin) (hspares.spares hlogin)
      (effect_of_action h.matched ha)
  | restart =>
    exact ⟨h.accounts, h.matched.cleaned, h.numbered.of_keys rfl fun _ hk => hk, h.lineage,
      ⟨h.registered.process, h.registered.block⟩, hattended⟩

theorem coherent_tick (h : Coherent kernel)
    (hok : kernel.schedulerRunning = true →
      TurnKeeps kernel.processManager kernel.schedulerOwner) :
    Coherent kernel.schedulerTick.1 := by
  apply tick_keeps (P := Coherent) h
  intro pm mm hrunning ha
  have hspares : Spares .timer kernel.schedulerOwner kernel.processManager :=
    ⟨fun _ hkills => False.elim hkills, fun _ => hok hrunning⟩
  exact h.effect (h.accounts.session _ (h.attended hrunning)) hspares
    (effect_of_action h.matched ha)

end Kernel

namespace World

open Kernel

/-- An event that keeps the snapshot valid. -/
def Keeps (w : World) : Event → Prop
  | .request _ request =>
    (parse request.rawLine).name ≠ str "load" ∧ KeepsLastPid (parse request.rawLine) w.kernel ∧
      SparesOthers (parse request.rawLine) w.kernel
  | .tick => w.kernel.schedulerRunning = true →
      TurnKeeps w.kernel.processManager w.kernel.schedulerOwner

instance (w : World) (event : Event) : Decidable (w.Keeps event) :=
  match event with
  | .request _ request =>
    inferInstanceAs (Decidable (_ ∧ KeepsLastPid (parse request.rawLine) w.kernel ∧ _))
  | .tick => inferInstanceAs (Decidable (_ → TurnKeeps w.kernel.processManager _))

theorem coherent_step {w : World} {event : Event} (h : Coherent w.kernel) (hok : w.Keeps event) :
    Coherent (w.step event).kernel := by
  cases event with
  | request env request =>
    exact coherent_change h (fun _ => hok.2.1) hok.2.2
      (executeRequest_change w.kernel env w.disk request hok.1)
  | tick => exact coherent_tick h hok

theorem accounts_run {w : World} {events : List Event} (h : Accounts w.kernel.userManager)
    (hload : NoLoad events) : Accounts (Runs.run step w events).kernel.userManager :=
  Runs.run_invariant' (P := fun w : World => Accounts w.kernel.userManager)
    (fun _ _ h hok => step_keeps (P := fun k => Accounts k.userManager) hok
      (fun _ hc => accounts_change h hc) (tick_keeps (P := fun k => Accounts k.userManager) h
        fun _ _ => h)) h (hload.permitted w)

theorem coherent_run {w : World} {events : List Event} (h : Coherent w.kernel)
    (hok : Runs.Permitted step Keeps w events) : Coherent (Runs.run step w events).kernel :=
  Runs.run_invariant' (P := fun w : World => Coherent w.kernel)
    (fun _ _ h hok => coherent_step h hok) h hok

end World

end OSCoreSim
