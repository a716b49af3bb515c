import OSCoreSim.Kernel.Coherence
/-!
# Import and export of snapshots

The import of a valid snapshot succeeds and leads to a coherent state; the export of a
coherent state is a valid snapshot.
-/

namespace OSCoreSim

open MemoryManager ProcessManager UserManager
open Std (ExtTreeMap)

namespace Kernel

variable {s : KernelSnapshot} {k kernel : Kernel} {pid : UInt32} {pcb' : PCB}

def restored (k : Kernel) (s : KernelSnapshot) : Kernel :=
  { k with
    schedulerRunning := false
    scheduler := { running := false }
    schedulerOwner := []
    userManager := (k.userManager.importUsers s.users).clearCurrentSession
    processManager := (importProcesses s).1
    memoryManager := snapshotMemory s
    vfs := (k.vfs.importNextFileId s.nextFileId).importFiles s.virtualFiles
    autoLoadStatus := str "manual load success" }

theorem importSnapshot_valid (h : ValidSnapshot s) (k : Kernel) :
    k.importSnapshot s = (k.restored s, true, (importProcesses s).2) := by
  obtain ⟨message, hvalid⟩ := validateSnapshot_ok.mpr h
  obtain ⟨message', hmemory⟩ := h.memory
  have hsame : importMemory k.memoryManager s = snapshotMemory s := rfl
  unfold importSnapshot
  simp only [hvalid, hsame, hmemory]
  rfl

/-! ## Coherence of an imported state -/

/-- An imported PCB is a listed one with recomputed children. -/
theorem imported_getElem? (h : ValidSnapshot s) :
    (importProcesses s).1.pcbTable[pid]? = some pcb' ↔ ∃ pcb ∈ s.pcbs, pcb.pid = pid ∧
      pcb' = { pcb with children := childPids (importPcbs s.pcbs).pcbTable pid pcb.owner } := by
  have htable : (importProcesses s).1.pcbTable[pid]? =
      (importPcbs s.pcbs).pcbTable[pid]?.map fun pcb : PCB =>
        { pcb with children := childPids (importPcbs s.pcbs).pcbTable pid pcb.owner } :=
    rebuildParentChildRelations_getElem?
  rw [htable, Option.map_eq_some_iff]
  simp only [importPcbs_getElem? h.pids, and_assoc, eq_comm]

theorem allocated_snapshotMemory (s : KernelSnapshot) :
    (allocated (snapshotMemory s).blocks).Perm (allocated s.memoryBlocks) := by
  show (allocated (mergeSorted (sortBlocks (sortBlocks s.memoryBlocks)))).Perm _
  rw [allocated_mergeSorted]
  exact ((sortBlocks_perm _).trans (sortBlocks_perm _)).filter _

theorem count_processPids (blocks : List MemoryBlock) (pid : UInt32) :
    (processPids blocks).count pid = (held blocks pid).length := by
  induction blocks with
  | nil => rfl
  | cons block rest ih =>
    rw [held_cons, List.length_append, ← ih]
    unfold processPids footprint
    by_cases htype : block.type = .process
    · by_cases hpid : block.pid = pid
      · simp [htype, hpid, Nat.add_comm]
      · simp [htype, hpid]
    · simp [htype]

theorem eq_of_subset_of_length_le_one {α : Type*} {l l' : List α} (hl : l.length ≤ 1)
    (hl' : l'.length ≤ 1) (hsub : l ⊆ l') (hne : l' ≠ [] → l ≠ []) : l = l' := by
  match l, l', hl, hl' with
  | [], [], _, _ => rfl
  | [], [y], _, _ => exact absurd rfl (hne (List.cons_ne_nil y []))
  | [x], [], _, _ => exact absurd (hsub List.mem_cons_self) List.not_mem_nil
  | [x], [y], _, _ => rw [List.mem_singleton.mp (hsub List.mem_cons_self)]

theorem held_memoryBlocks (h : ValidSnapshot s) (pid : UInt32) :
    held s.memoryBlocks pid = owed (importProcesses s).1 pid := by
  have hone : (held s.memoryBlocks pid).length ≤ 1 := by
    rw [← count_processPids]
    exact List.nodup_iff_count_le_one.mp h.single pid
  refine eq_of_subset_of_length_le_one hone (length_owed _ pid) (fun mark hmem => ?_) fun hne => ?_
  · obtain ⟨block, hblock, htype, rfl, rfl⟩ := mem_held.mp hmem
    obtain ⟨pcb, hget, howner, hswap, hstart, hsize⟩ := h.placed block hblock htype
    obtain ⟨hpcb, hpid⟩ := (importPcbs_getElem? h.pids).mp hget
    have hswap' : ∀ children, isSwapped { pcb with children := children } = false := fun _ => hswap
    rw [owed_eq ((imported_getElem? h).mpr ⟨pcb, hpcb, hpid, rfl⟩), owedBy, hswap', hstart, hsize,
      ← howner]
    exact List.mem_singleton_self _
  · cases hget : (importProcesses s).1.pcbTable[pid]? with
    | none => exact absurd (owed_eq_nil hget) hne
    | some pcb' =>
      obtain ⟨pcb, hpcb, rfl, rfl⟩ := (imported_getElem? h).mp hget
      rw [owed_eq hget, owedBy] at hne
      have hswap : isSwapped pcb = false := by
        by_contra hswap
        exact hne (if_pos (show isSwapped pcb = true by simpa using hswap))
      have hcount := List.count_pos_iff.mpr (h.resident pcb hpcb hswap)
      rw [count_processPids] at hcount
      exact List.ne_nil_of_length_pos hcount

theorem matched_import (h : ValidSnapshot s) :
    Matched (importProcesses s).1 (snapshotMemory s) where
  keyed k pcb' hget := by
    obtain ⟨pcb, -, rfl, rfl⟩ := (imported_getElem? h).mp hget
    rfl
  partition := (initial_importBlocks h.memory).partition
  agree pid := by
    have hperm : (held (snapshotMemory s).blocks pid).Perm (held s.memoryBlocks pid) := by
      rw [← held_allocated, ← held_allocated s.memoryBlocks]
      exact (allocated_snapshotMemory s).filterMap _
    rw [held_memoryBlocks h] at hperm
    have hone := length_owed (importProcesses s).1 pid
    refine eq_of_subset_of_length_le_one (hperm.length_eq ▸ hone) hone hperm.subset ?_
    exact fun hne heq => hne (List.nil_perm.mp (heq ▸ hperm))

theorem nextPid_import (s : KernelSnapshot) : (importProcesses s).1.nextPid = max s.nextPid 1 := rfl

theorem numbered_import (h : ValidSnapshot s) : Numbered (importProcesses s).1 := by
  have hpos := UInt32.lt_iff_toNat_lt.mp h.next
  have hmax : max s.nextPid 1 = s.nextPid := max_one_of_pos hpos
  rw [← hmax] at hpos
  refine ⟨hpos, fun k pcb' hget => ?_⟩
  obtain ⟨pcb, hpcb, rfl, -⟩ := (imported_getElem? h).mp hget
  have hpid := toNat_pos (h.pid pcb hpcb)
  have hlt := UInt32.lt_iff_toNat_lt.mp (h.next_gt pcb hpcb)
  rw [nextPid_import, hmax]
  exact ⟨by omega, hlt⟩

theorem lineage_import (h : ValidSnapshot s) : Lineage (importProcesses s).1.pcbTable where
  range k pcb' hget := by
    obtain ⟨pcb, hpcb, rfl, rfl⟩ := (imported_getElem? h).mp hget
    exact (h.range pcb hpcb).frame _ _ _ _
  parent k pcb' hget hne := by
    obtain ⟨pcb, hpcb, rfl, rfl⟩ := (imported_getElem? h).mp hget
    obtain ⟨parent, hparent, hpid⟩ := List.mem_map.mp (h.parent pcb hpcb hne)
    exact ⟨_, (imported_getElem? h).mpr ⟨parent, hparent, hpid, rfl⟩⟩
  family k pcb' hget c := by
    obtain ⟨pcb, hpcb, rfl, rfl⟩ := (imported_getElem? h).mp hget
    show c ∈ childPids _ pcb.pid pcb.owner ↔ _
    rw [mem_childPids]
    constructor
    · rintro ⟨child, hchild, hne, hppid, howner⟩
      obtain ⟨hmem, hpid⟩ := (importPcbs_getElem? h.pids).mp hchild
      exact ⟨_, (imported_getElem? h).mpr ⟨child, hmem, hpid, rfl⟩, hppid, howner⟩
    · rintro ⟨child', hchild, hppid, howner⟩
      obtain ⟨child, hmem, hpid, rfl⟩ := (imported_getElem? h).mp hchild
      have hppid' : child.ppid = pcb.pid := hppid
      exact ⟨child, (importPcbs_getElem? h.pids).mpr ⟨hmem, hpid⟩,
        fun hzero => h.pid pcb hpcb (hppid'.symm.trans hzero), hppid, howner⟩

/-- The import of a valid snapshot leads to a coherent state. -/
theorem coherent_restored (h : ValidSnapshot s) (k : Kernel) : Coherent (k.restored s) where
  accounts :=
    have haccounts := accounts_importUsers h.usernames h.username
    ⟨haccounts.keyed, haccounts.nonempty, fun _ howner => by cases howner⟩
  matched := matched_import h
  numbered := numbered_import h
  lineage := lineage_import h
  registered := {
    process := fun k pcb' hget => by
      obtain ⟨pcb, hpcb, rfl, rfl⟩ := (imported_getElem? h).mp hget
      exact (mem_importUsers h.usernames).mpr (h.owner pcb hpcb)
    block := fun block hmem htype => by
      have hold := mem_allocated.mp ((allocated_snapshotMemory s).mem_iff.mp hmem)
      exact (mem_importUsers h.usernames).mpr (h.owned block hold.1 htype) }
  attended hrunning := by cases hrunning

/-! ## Validity of an exported state -/

theorem valid_export (h : Coherent kernel) : ValidSnapshot kernel.exportSnapshot := by
  have hkeyed := h.matched.keyed
  have htable : (importPcbs kernel.exportSnapshot.pcbs).pcbTable = kernel.processManager.pcbTable :=
    hkeyed.import_exportPcbs
  have hget : ∀ {pcb : PCB}, pcb ∈ kernel.exportSnapshot.pcbs →
      kernel.processManager.pcbTable[pcb.pid]? = some pcb := fun hmem =>
    hkeyed.mem_exportPcbs.mp hmem
  have hlive : ∀ {k : UInt32} {pcb : PCB}, kernel.processManager.pcbTable[k]? = some pcb →
      k ∈ kernel.exportSnapshot.pcbs.map (·.pid) := by
    intro k pcb hk
    have hpid := hkeyed k pcb hk
    exact List.mem_map.mpr ⟨pcb, hkeyed.mem_exportPcbs.mpr (by rw [hpid, hk]), hpid⟩
  have hheld : ∀ pid, held kernel.exportSnapshot.memoryBlocks pid = owed kernel.processManager pid :=
    h.matched.agree
  exact {
    username := fun account hmem => h.accounts.nonempty _
      (mem_users_of_get (h.accounts.mem_exportUsers.mp hmem))
    usernames := h.accounts.nodup_exportUsers
    pid := fun pcb hmem hzero => by
      have hpos := (h.numbered.bound _ pcb (hget hmem)).1
      rw [hzero] at hpos
      exact absurd hpos (by decide)
    pids := hkeyed.nodup_exportPcbs
    owner := fun pcb hmem =>
      h.accounts.mem_exportUsers_map.mpr (h.registered.process _ pcb (hget hmem))
    range := fun pcb hmem => h.lineage.range _ pcb (hget hmem)
    next := UInt32.lt_iff_toNat_lt.mpr h.numbered.next_pos
    next_gt := fun pcb hmem =>
      UInt32.lt_iff_toNat_lt.mpr (h.numbered.bound _ pcb (hget hmem)).2
    parent := fun pcb hmem hne => by
      obtain ⟨parent, hparent⟩ := h.lineage.parent _ pcb (hget hmem) hne
      exact hlive hparent
    child := fun pcb hmem c hc => by
      obtain ⟨child, hchild, -⟩ := (h.lineage.family _ pcb (hget hmem) c).mp hc
      exact hlive hchild
    total := fun hzero => by
      have hpos := h.matched.partition.total_pos
      rw [show kernel.memoryManager.totalMemoryKB = 0 from hzero] at hpos
      exact absurd hpos (by decide)
    placed := fun block hmem htype => by
      have hmark := mem_held.mpr ⟨block, hmem, htype, rfl, rfl⟩
      rw [hheld] at hmark
      rw [htable]
      cases hfound : kernel.processManager.pcbTable[block.pid]? with
      | none =>
        rw [owed_eq_nil hfound] at hmark
        cases hmark
      | some pcb =>
        rw [owed_eq hfound, owedBy] at hmark
        split at hmark
        · cases hmark
        next hswap =>
          obtain ⟨howner, hstart, hsize⟩ := Footprint.mk.inj (List.mem_singleton.mp hmark)
          exact ⟨pcb, rfl, howner.symm, by simpa using hswap, hstart, hsize⟩
    owned := fun block hmem htype => by
      have hfree : block.type ≠ .free := by rcases htype with h | h <;> simp [h]
      exact h.accounts.mem_exportUsers_map.mpr
        (h.registered.block block (mem_allocated.mpr ⟨hmem, hfree⟩) htype)
    single := List.nodup_iff_count_le_one.mpr fun pid => by
      rw [count_processPids, hheld]
      exact length_owed _ pid
    resident := fun pcb hmem hswap => by
      rw [← List.count_pos_iff, count_processPids, hheld, owed_eq (hget hmem), owedBy, hswap]
      exact Nat.one_pos
    memory := by
      have hsame : snapshotMemory kernel.exportSnapshot = kernel.memoryManager :=
        h.matched.partition.importBlocks _ _
      rw [hsame]
      exact h.matched.partition.validateBlocks }

def Accepts (s : KernelSnapshot) : Prop := ∃ message, validateSnapshot s = .ok message

instance (s : KernelSnapshot) : Decidable (Accepts s) :=
  match h : validateSnapshot s with
  | .ok message => isTrue ⟨message, h⟩
  | .error _ => isFalse fun ⟨_, hok⟩ => by rw [h] at hok; cases hok

end Kernel

namespace World

open Kernel

/-- An accepted state file leads, over events that keep the snapshot valid, to states whose
own snapshot is accepted again. -/
theorem accepted_of_run {s : KernelSnapshot} (haccepts : Accepts s) {k : Kernel} {w : World}
    (himport : w.kernel = (k.importSnapshot s).1) {events : List Event}
    (hok : Runs.Permitted step Keeps w events) :
    Accepts (Runs.run step w events).kernel.exportSnapshot := by
  have hvalid := validateSnapshot_ok.mp haccepts
  have hstart : Coherent w.kernel := by
    rw [himport, importSnapshot_valid hvalid]
    exact coherent_restored hvalid k
  exact validateSnapshot_ok.mpr (valid_export (coherent_run hstart hok))

def accountOf (name : String) : UserAccount :=
  { username := str name, passwordHash := hashPassword (str "s") (str "pw"), salt := str "s" }

/-- Two processes, the second of `b` below the first of `a`; `executed` and `remaining` are the
counters of the first. -/
def familyOf (executed remaining nextPid : UInt32) (owner : String) : KernelSnapshot :=
  { users := [accountOf "a", accountOf "b"]
    nextPid := nextPid
    pcbs := [
      { pid := 1, name := str "p", owner := str "a", state := .ready, totalTime := 5
        executedTime := executed, remainingTime := remaining, memStart := 0, memSize := 4 },
      { pid := 2, ppid := 1, name := str "q", owner := str owner, state := .blocked
        totalTime := 5, remainingTime := 5, memStart := 4, memSize := 4 }]
    readyQueues := fun q => if q = 0 then [1] else []
    memoryBlocks := [
      { start := 0, size := 4, type := .process, pid := 1, owner := str "a", tag := str "p" },
      { start := 4, size := 4, type := .process, pid := 2, owner := str owner, tag := str "q" },
      freeBlock 8 1016]
    totalMemoryKB := 1024
    allocAlgorithm := .firstFit
    schedulerRunning := false
    schedulerOwner := []
    nextFileId := 1
    virtualFiles := [] }

/-- A process and its child, both of `a`: steps, a creation and a removal. -/
theorem accepted_of_run_family :
    let w : World := { kernel := (Kernel.importSnapshot {} (familyOf 0 5 3 "a")).1 }
    let events := [console "login a pw", console "create_pcb r 4 1 5 2", console "step",
      console "kill_pcb 1", .tick]
    Accepts (Runs.run step w events).kernel.exportSnapshot := by
  intro w events
  have haccepts : Accepts (familyOf 0 5 3 "a") := by decide +kernel
  have himport : w.kernel = (Kernel.importSnapshot {} (familyOf 0 5 3 "a")).1 := rfl
  have hok : Runs.Permitted step Keeps w events := by decide +kernel
  exact accepted_of_run haccepts himport hok

/-- The snapshot is accepted, and after the import the events lead to one that is not. -/
def LosesValidity (s : KernelSnapshot) (events : List Event) : Prop :=
  Accepts s ∧ NoLoad events ∧ ¬Accepts
    (Runs.run step { kernel := (Kernel.importSnapshot {} s).1 } events).kernel.exportSnapshot

instance (s : KernelSnapshot) (events : List Event) : Decidable (LosesValidity s events) :=
  inferInstanceAs (Decidable (_ ∧ _ ∧ _))

/-- Removing the parent of another user's process, running a process beyond its total time,
and creating the process with the last PID. -/
theorem validity_lost :
    LosesValidity (familyOf 0 5 3 "b") [console "login a pw", console "kill_pcb 1"] ∧
      LosesValidity (familyOf 5 5 3 "a") [console "login a pw", console "step"] ∧
      LosesValidity (familyOf 0 5 4294967295 "a")
        [console "login a pw", console "create_pcb r 4 1 5"] := by
  decide +kernel

end World

end OSCoreSim
