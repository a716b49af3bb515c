import OSCoreSim.Kernel.Agreement
import OSCoreSim.Kernel.World
import OSCoreSim.Memory.MemoryRun
import OSCoreSim.Process.ProcessRun
/-!
# The invariant of a kernel that started clean

`Touches` sums up what the effects do to the process table alone.  `Core` is what every
run from a clean start keeps as long as no PID is given out twice: the tables agree, the
ready queues index the READY processes, and children have the owner of their parent.
-/

namespace OSCoreSim

open MemoryManager ProcessManager CommandDispatcher

namespace Kernel

variable {owner : Str} {pm pm' : ProcessManager} {mm mm' : MemoryManager} {pid k : UInt32}
  {pcb pcb' : PCB} {cause : Cause}

/-! ## The process table -/

inductive Rewritten (cause : Cause) (owner : Str) (pm : ProcessManager) (pid : UInt32)
    (pcb : PCB) : PCB → Prop
  | transition {pcb' : PCB} (h : Transition pcb pcb') : Rewritten cause owner pm pid pcb pcb'
  | swapOut (hresident : isSwapped pcb = false) :
      Rewritten cause owner pm pid pcb (swappedPcb pcb)
  | slice (hcause : cause.turns) (hsel : pm.selectedPid owner = some pid) (hready : pcb.state = .ready)
      (hswap : pcb.swappedOut = false)
      (hleft : timeSliceForQueue pcb.queueLevel < pcb.remainingTime) :
      Rewritten cause owner pm pid pcb (afterSlice pcb)

/-- The process that the next turn of `owner` runs to its end. -/
def Finishes (pm : ProcessManager) (owner : Str) (pid : UInt32) : Prop :=
  pm.selectedPid owner = some pid ∧ ∃ pcb, pm.pcbTable[pid]? = some pcb ∧
    pcb.remainingTime ≤ timeSliceForQueue pcb.queueLevel

/-- The four things that can happen to the process table. -/
inductive Touches (cause : Cause) (owner : Str) (pm : ProcessManager) (mm : MemoryManager) :
    Std.ExtTreeMap UInt32 PCB → Prop
  | keep : Touches cause owner pm mm pm.pcbTable
  | store {pid : UInt32} {pcb pcb' : PCB} (hget : pm.ownedPcb owner pid = some pcb)
      (h : Rewritten cause owner pm pid pcb pcb') : Touches cause owner pm mm (pm.pcbTable.insert pid pcb')
  | prune {pid : UInt32} (hcause : cause.kills pid ∨ cause.turns ∧ Finishes pm owner pid)
      (hhas : pm.hasProcess owner pid) :
      Touches cause owner pm mm (pm.pruned (pm.subtree owner pid)).pcbTable
  | move : Touches cause owner pm mm (compactedProcesses pm mm).pcbTable

theorem Effect.touches (h : Effect cause owner pm mm pm' mm') :
    Touches cause owner pm mm pm'.pcbTable := by
  cases h with
  | alloc | free | setAlgorithm => exact .keep
  | compact => exact .move
  | swapOut hget hresident => exact .store hget (.swapOut hresident)
  | kill hcause hhas => exact .prune (.inl hcause) hhas
  | rewrite hr =>
    obtain ⟨pcb, pcb', hget, ht, hs⟩ := hr
    rw [hs.pcbTable_eq]
    exact .store hget (.transition ht)
  | step hcause ho =>
    cases ho with
    | idle => exact .keep
    | requeue pid pcb hsel hget hready hswap hleft =>
      exact .store hget (.slice hcause hsel hready hswap hleft)
    | finish pid pcb hsel hget _ _ hlast =>
      have htable := ownedPcb_eq_some.mp hget
      exact .prune (.inr ⟨hcause, hsel, pcb, htable.1, hlast⟩) (hasProcess_iff.mpr ⟨pcb, htable⟩)

theorem Effect.nextPid_eq (h : Effect cause owner pm mm pm' mm') : pm'.nextPid = pm.nextPid := by
  cases h with
  | compact => exact (updateStarts_eq _ pm).1
  | rewrite hr =>
    obtain ⟨pcb, pcb', -, -, hs⟩ := hr
    exact hs.nextPid_eq
  | step _ ho => exact ho.nextPid_eq
  | _ => rfl

theorem Rewritten.frame (h : Rewritten cause owner pm pid pcb pcb') :
    pcb'.pid = pcb.pid ∧ pcb'.ppid = pcb.ppid ∧ pcb'.owner = pcb.owner ∧
      pcb'.children = pcb.children := by
  cases h with
  | transition ht => cases ht <;> exact ⟨rfl, rfl, rfl, rfl⟩
  | swapOut => exact ⟨rfl, rfl, rfl, rfl⟩
  | slice => exact ⟨rfl, rfl, rfl, rfl⟩

/-- The keys of the table that the effects keep. -/
theorem Touches.isSome {table : Std.ExtTreeMap UInt32 PCB} (h : Touches cause owner pm mm table)
    (hk : table[k]?.isSome) : pm.pcbTable[k]?.isSome := by
  cases h with
  | keep => exact hk
  | @store pid pcb pcb' hget hrewritten =>
    rw [KeyedTable.getElem?_insert] at hk
    split at hk
    next heq => exact heq ▸ Option.isSome_of_eq_some (ownedPcb_eq_some.mp hget).1
    next => exact hk
  | prune _ hhas =>
    rw [pruned_getElem?] at hk
    split at hk
    · cases hk
    · simpa using hk
  | move =>
    rw [compactedProcesses, updateStarts_getElem?] at hk
    simpa using hk

theorem numbered_effect (h : Numbered pm) (he : Effect cause owner pm mm pm' mm') :
    Numbered pm' :=
  h.of_keys he.nextPid_eq fun _ hk => he.touches.isSome hk

/-! ## Kinship -/

def Kin (pm : ProcessManager) : Prop :=
  ∀ (k : UInt32) (pcb : PCB), pm.pcbTable[k]? = some pcb → ∀ c ∈ pcb.children,
    ∃ child, pm.pcbTable[c]? = some child ∧ child.owner = pcb.owner

theorem kin_effect (h : Kin pm) (he : Effect cause owner pm mm pm' mm') : Kin pm' := by
  have ht := he.touches
  intro k found hfound c hc
  generalize pm'.pcbTable = table at ht hfound ⊢
  cases ht with
  | keep => exact h k found hfound c hc
  | @store pid pcb pcb' hget hrewritten =>
    have htable := (ownedPcb_eq_some.mp hget).1
    obtain ⟨-, -, howner, hchildren⟩ := hrewritten.frame
    -- parents and children keep their owners, whichever of them is the stored PCB
    have hold : ∀ {j : UInt32} {old : PCB}, (pm.pcbTable.insert pid pcb')[j]? = some old →
        ∃ old', pm.pcbTable[j]? = some old' ∧ old.owner = old'.owner ∧
          old.children = old'.children := by
      intro j old hget'
      rw [KeyedTable.getElem?_insert] at hget'
      split at hget'
      next hj =>
        cases hget'
        exact ⟨pcb, hj ▸ htable, howner, hchildren⟩
      next => exact ⟨old, hget', rfl, rfl⟩
    obtain ⟨parent, hparent, howner', hchildren'⟩ := hold hfound
    rw [hchildren'] at hc
    obtain ⟨child, hchild, heq⟩ := h k parent hparent c hc
    by_cases hcp : pid = c
    · subst hcp
      rw [htable] at hchild
      cases hchild
      exact ⟨pcb', by simp, by rw [howner, heq, howner']⟩
    · exact ⟨child, by simp [KeyedTable.getElem?_insert, hcp, hchild], by rw [heq, howner']⟩
  | @prune pid _ hhas =>
    obtain ⟨-, old, hold, rfl⟩ := pruned_eq_some.mp hfound
    obtain ⟨hmem, hkeep⟩ := List.mem_filter.mp hc
    obtain ⟨child, hchild, heq⟩ := h k old hold c hmem
    exact ⟨_, pruned_eq_some.mpr ⟨by simpa using hkeep, child, hchild, rfl⟩, heq⟩
  | move =>
    rw [compactedProcesses, updateStarts_getElem?] at hfound ⊢
    obtain ⟨old, hold, rfl⟩ := Option.map_eq_some_iff.mp hfound
    obtain ⟨child, hchild, heq⟩ := h k old hold c hc
    rw [hchild]
    exact ⟨_, rfl, heq⟩

theorem kin_spawned (h : Kin pm) (hfresh : pm.pcbTable[pm.nextPid]? = none)
    (hparent : pcb.ppid ≠ 0 → pm.hasProcess pcb.owner pcb.ppid) (hchildren : pcb.children = []) :
    Kin (pm.spawned pcb) := by
  have hne := ppid_ne_nextPid hfresh hparent
  intro k found hfound c hc
  rw [spawned_getElem? hne] at hfound
  split at hfound
  · cases hfound
    rw [hchildren] at hc
    cases hc
  next hk =>
    obtain ⟨old, hold, rfl⟩ := Option.map_eq_some_iff.mp hfound
    unfold withChild at hc ⊢
    split at hc
    next hlink =>
      rw [if_pos hlink]
      rcases List.mem_append.mp hc with hc | hc
      · obtain ⟨child, hchild, heq⟩ := h k old hold c hc
        obtain ⟨children, hkept⟩ := spawned_kept hfresh hne hchild
        exact ⟨_, hkept, heq⟩
      · rw [List.mem_singleton.mp hc]
        obtain ⟨parent, hget, howner⟩ := hasProcess_iff.mp (hparent hlink.1)
        rw [← hlink.2, hold] at hget
        cases hget
        exact ⟨pcb, spawned_new hne, howner.symm⟩
    next hlink =>
      rw [if_neg hlink]
      obtain ⟨child, hchild, heq⟩ := h k old hold c hc
      obtain ⟨children, hkept⟩ := spawned_kept hfresh hne hchild
      exact ⟨_, hkept, heq⟩

/-! ## Swapped processes -/

def Zeroed (pm : ProcessManager) : Prop :=
  ∀ (k : UInt32) (pcb : PCB), pm.pcbTable[k]? = some pcb → isSwapped pcb = true → pcb.memStart = 0

theorem isSwapped_transition (h : Transition pcb pcb') : isSwapped pcb' = isSwapped pcb := by
  cases h with
  | renice priority _ => rfl
  | block h | suspendReady h => rcases h with h | h <;> simp [isSwapped, h]
  | wakeup h | suspendBlocked h | resumeReady h | resumeBlocked h => simp [isSwapped, h]

theorem transition_memStart (h : Transition pcb pcb') : pcb'.memStart = pcb.memStart := by
  cases h <;> rfl

theorem compacted_getElem? (hmatched : Matched pm mm)
    (h : (compactedProcesses pm mm).pcbTable[k]? = some pcb') :
    ∃ pcb start, pm.pcbTable[k]? = some pcb ∧ pcb' = { pcb with memStart := start } ∧
      (isSwapped pcb = true → start = pcb.memStart) := by
  rw [compactedProcesses, updateStarts_getElem?] at h
  obtain ⟨pcb, hget, rfl⟩ := Option.map_eq_some_iff.mp h
  refine ⟨pcb, _, hget, rfl, fun hswap => ?_⟩
  have hheld := hmatched.partition.held_compact k
  rw [hmatched.agree k, owed_eq hget, owedBy, if_pos hswap, List.forall₂_nil_left_iff] at hheld
  rw [hmatched.partition.compact_starts, hheld]
  rfl

theorem zeroed_effect (hmatched : Matched pm mm) (h : Zeroed pm)
    (he : Effect cause owner pm mm pm' mm') : Zeroed pm' := by
  have ht := he.touches
  intro k found hfound hswap
  generalize pm'.pcbTable = table at ht hfound
  cases ht with
  | keep => exact h k found hfound hswap
  | @store pid pcb pcb' hget hrewritten =>
    have htable := (ownedPcb_eq_some.mp hget).1
    rw [KeyedTable.getElem?_insert] at hfound
    split at hfound
    · cases hfound
      cases hrewritten with
      | transition ht =>
        rw [isSwapped_transition ht] at hswap
        rw [transition_memStart ht]
        exact h pid pcb htable hswap
      | swapOut => rfl
      | slice _ _ hready hresident => simp [isSwapped, afterSlice, hresident] at hswap
    · exact h k found hfound hswap
  | prune =>
    obtain ⟨-, old, hold, rfl⟩ := pruned_eq_some.mp hfound
    exact h k old hold hswap
  | move =>
    obtain ⟨pcb, start, hget, rfl, hstart⟩ := compacted_getElem? hmatched hfound
    exact (hstart hswap).trans (h k pcb hget hswap)

theorem zeroed_spawned (h : Zeroed pm) (hparent : pcb.ppid ≠ 0 → pcb.ppid ≠ pm.nextPid)
    (hresident : isSwapped pcb = false) : Zeroed (pm.spawned pcb) := by
  intro k found hfound hswap
  rcases spawned_cases hparent hfound with ⟨-, rfl⟩ | ⟨-, old, children, hold, rfl⟩
  · rw [hresident] at hswap
    cases hswap
  · exact h k old hold hswap

/-! ## The invariant -/

structure Core (pm : ProcessManager) (mm : MemoryManager) : Prop where
  matched : Matched pm mm
  indexed : Indexed pm
  kin : Kin pm
  zeroed : Zeroed pm
  untagged : FreeUntagged mm.blocks

theorem core_clean : Core {} {} where
  matched := ⟨indexed_empty.keyed, Initial.fresh.partition, fun k => by simp [owed, held, footprint, freeBlock]⟩
  indexed := indexed_empty
  kin k pcb hget := by simp at hget
  zeroed k pcb hget := by simp at hget
  untagged block hmem _ := by
    rw [List.mem_singleton.mp hmem]
    rfl

theorem indexed_compacted (h : Indexed pm) : Indexed (compactedProcesses pm mm) := by
  refine h.of_frame (updateStarts_eq _ pm).2 (fun k pcb hget => ?_) fun k pcb' hget => ?_
  · rw [compactedProcesses, updateStarts_getElem?, hget]
    exact ⟨_, pcb.children, rfl⟩
  · rw [compactedProcesses, updateStarts_getElem?] at hget
    obtain ⟨pcb, hold, rfl⟩ := Option.map_eq_some_iff.mp hget
    exact ⟨pcb, _, pcb.children, hold, rfl⟩

theorem indexed_effect (h : Indexed pm) (he : Effect cause owner pm mm pm' mm') :
    Indexed pm' := by
  cases he with
  | alloc | free | setAlgorithm => exact h
  | compact => exact indexed_compacted h
  | swapOut hget => exact h.swapped_out (ownedPcb_eq_some.mp hget).1
  | kill => exact h.pruned _
  | rewrite hr => exact h.rewrites hr
  | step _ ho => exact h.outcome ho

theorem untagged_releaseAll (hpart : Partition mm) (h : FreeUntagged mm.blocks)
    (pids : List UInt32) : FreeUntagged (Scheduler.releaseAll owner mm pids).1.blocks := by
  have hboth : Partition (Scheduler.releaseAll owner mm pids).1 ∧
      FreeUntagged (Scheduler.releaseAll owner mm pids).1.blocks :=
    releaseAll_induction (P := fun mm => Partition mm ∧ FreeUntagged mm.blocks)
      (fun h hm => ⟨h.1.of_releases hm, h.1.untagged_releases h.2 hm⟩) pids ⟨hpart, h⟩
  exact hboth.2

theorem untagged_effect (hpart : Partition mm) (h : FreeUntagged mm.blocks)
    (he : Effect cause owner pm mm pm' mm') : FreeUntagged mm'.blocks := by
  cases he with
  | alloc htype _ _ hm => exact h.allocates (by simp [htype]) hm
  | free hblocks => exact hpart.untagged_released h hblocks
  | setAlgorithm | rewrite => exact h
  | compact => exact hpart.untagged_compact
  | swapOut _ _ hm => exact hpart.untagged_releases h hm
  | kill => exact untagged_releaseAll hpart h _
  | step _ ho =>
    cases ho with
    | idle | requeue => exact h
    | finish => exact untagged_releaseAll hpart h _

theorem Core.effect (h : Core pm mm) (he : Effect cause owner pm mm pm' mm') : Core pm' mm' where
  matched := h.matched.effect he
  indexed := indexed_effect h.indexed he
  kin := kin_effect h.kin he
  zeroed := zeroed_effect h.matched h.zeroed he
  untagged := untagged_effect h.matched.partition h.untagged he

theorem core_cleaned (h : Core pm mm) : Core pm.cleaned mm := by
  rw [h.indexed.cleaned_eq]
  exact h

/-! ## Creation and its rollback -/

section create

variable {args : CreateArguments} {start : UInt32} {text message : Str}

/-- A created process, its block, and what the checks of `create_pcb` guarantee. -/
structure Created (owner : Str) (args : CreateArguments) (start : UInt32) (pm : ProcessManager)
    (mm : MemoryManager) (pm' : ProcessManager) (mm' : MemoryManager) : Prop where
  owner_ne : owner ≠ []
  priority : isValidPriority args.priority = true
  parent : args.ppid.getD 0 ≠ 0 → pm.hasProcess owner (args.ppid.getD 0)
  allocates : Allocates
    { start := start, size := args.memKB, type := .process, pid := pm.nextPid, owner := owner,
      tag := args.name } mm mm'
  processes : pm' = pm.spawned (newPcb pm.nextPid (args.ppid.getD 0) owner args.name args.memKB
    start args.priority args.totalTime)

theorem created_of_ok (h : Partition mm) (hfresh : pm.pcbTable[pm.nextPid]? = none)
    (halloc : mm.allocateForProcess owner pm.nextPid args.name args.memKB = .ok (mm', start, text))
    (hcreate : pm.createProcessWithMemory owner args.name args.memKB start args.priority
      args.totalTime args.ppid = .ok (pm', pid, message)) :
    Created owner args start pm mm pm' mm' := by
  obtain ⟨howner, -, hpriority, -, hparent, -, hpm⟩ := createProcessWithMemory_spec hfresh hcreate
  exact ⟨howner, hpriority, hparent, (h.allocates halloc).2, hpm⟩

theorem Matched.created (h : Matched pm mm) (hfresh : pm.pcbTable[pm.nextPid]? = none)
    (hc : Created owner args start pm mm pm' mm') : Matched pm' mm' := by
  rw [hc.processes]
  exact h.spawned hfresh rfl rfl hc.allocates (ppid_ne_nextPid hfresh hc.parent) rfl rfl

theorem Core.created (h : Core pm mm) (hfresh : pm.pcbTable[pm.nextPid]? = none)
    (hc : Created owner args start pm mm pm' mm') : Core pm' mm' := by
  have hne := ppid_ne_nextPid hfresh hc.parent
  have hmatched := h.matched.created hfresh hc
  have huntagged := h.untagged.allocates (by simp) hc.allocates
  rw [hc.processes] at hmatched ⊢
  exact {
    matched := hmatched
    indexed := h.indexed.spawned hfresh hne rfl (queueIndex_queueLevelForPriority _) (by simp [newPcb])
    kin := kin_spawned h.kin hfresh hc.parent rfl
    zeroed := zeroed_spawned h.zeroed hne rfl
    untagged := huntagged }

theorem Matched.unheld (h : Matched pm mm) (hfresh : pm.pcbTable[pid]? = none) :
    ∀ block ∈ mm.blocks, isProcessBlock owner pid block = false := by
  intro block hmem
  by_contra hblock
  obtain ⟨htype, -, hpid⟩ := isProcessBlock_iff.mp (by simpa using hblock)
  have hmark := mem_held.mpr ⟨block, hmem, htype, hpid, rfl⟩
  rw [h.agree pid, owed_eq_nil hfresh] at hmark
  cases hmark

/-- The rollback takes back exactly what the refused creation had allocated. -/
theorem Matched.rolledBack (h : Matched pm mm) (hfresh : pm.pcbTable[pm.nextPid]? = none)
    (halloc : mm.allocateForProcess owner pm.nextPid args.name args.memKB = .ok (mm', start, text)) :
    Matched pm (Kernel.rolledBack mm' owner pm.nextPid) ∧
      allocated (Kernel.rolledBack mm' owner pm.nextPid).blocks = allocated mm.blocks ∧
      (FreeUntagged mm.blocks → Kernel.rolledBack mm' owner pm.nextPid = mm) := by
  obtain ⟨m'', text', hfree, hpart, hblocks, hexact⟩ :=
    h.partition.rollback (h.unheld hfresh) halloc
  have heq : Kernel.rolledBack mm' owner pm.nextPid = m'' := by
    unfold Kernel.rolledBack
    rw [hfree]
  rw [heq]
  refine ⟨⟨h.keyed, hpart, fun k => ?_⟩, hblocks, hexact⟩
  rw [held_congr hblocks]
  exact h.agree k

end create

/-- Memory that could be swapped out belongs to a process that can be marked. -/
theorem Matched.not_swapHalf (h : Matched pm mm) {text message : Str}
    (hmem : mm.swapOutProcess owner pid = .ok (mm', text))
    (hmark : pm.markSwappedOut owner pid = .error message)
    (hhas : pm.hasProcess owner pid = true) : False := by
  obtain ⟨l, it, r, hblocks, hit, -⟩ := swapOutProcess_spec hmem
  obtain ⟨htype, -, hpid⟩ := isProcessBlock_iff.mp hit
  obtain ⟨pcb, hget, howner⟩ := hasProcess_iff.mp hhas
  have hmem' : _ ∈ held mm.blocks pid :=
    mem_held.mpr ⟨it, by simp [hblocks], htype, hpid, rfl⟩
  rw [h.agree pid, owed_eq hget, owedBy] at hmem'
  unfold markSwappedOut at hmark
  rw [ownedPcb_eq_some.mpr ⟨hget, howner⟩] at hmark
  simp only at hmark
  split at hmark
  next hswapped =>
    rw [if_pos (by simpa [isSwapped] using hswapped)] at hmem'
    cases hmem'
  next => cases hmark

/-! ## Steps -/

variable {command : Command} {kernel kernel' : Kernel} {success : Bool}

theorem core_change (h : Core kernel.processManager kernel.memoryManager)
    (hfresh : kernel.processManager.pcbTable[kernel.processManager.nextPid]? = none)
    (hc : Change command kernel kernel' success) :
    Core kernel'.processManager kernel'.memoryManager := by
  cases hc with
  | same | register | login | logout | exit | files | start | stop => exact h
  | create owner args hname hlogin hargs halloc hcreate =>
    exact h.created hfresh (created_of_ok h.matched.partition hfresh halloc hcreate)
  | rollback owner args hname hlogin hargs halloc =>
    have hback := (h.matched.rolledBack hfresh halloc).2.2 h.untagged
    simp only [hback]
    exact h
  | swapHalf owner pid hlogin hmem hmark hhas => exact (h.matched.not_swapHalf hmem hmark hhas).elim
  | act owner hlogin ha => exact h.effect (effect_of_action h.matched ha)
  | restart => exact core_cleaned h

theorem core_tick (h : Core kernel.processManager kernel.memoryManager) :
    Core kernel.schedulerTick.1.processManager kernel.schedulerTick.1.memoryManager :=
  tick_keeps (P := fun k => Core k.processManager k.memoryManager) h
    fun _ ha => h.effect (effect_of_action h.matched ha)

/-! ## The PID counter -/

/-- The next PID is above every PID in use and `n` creations account for it. -/
structure Counts (n : ℕ) (pm : ProcessManager) : Prop where
  numbered : Numbered pm
  next_le : pm.nextPid.toNat ≤ n + 1

theorem Counts.effect {n : ℕ} (h : Counts n pm) (he : Effect cause owner pm mm pm' mm') :
    Counts n pm' :=
  ⟨numbered_effect h.numbered he, by rw [he.nextPid_eq]; exact h.next_le⟩

theorem Counts.mono {n m : ℕ} (h : Counts n pm) (hle : n ≤ m) : Counts m pm :=
  ⟨h.numbered, by have := h.next_le; omega⟩

theorem Counts.created {n : ℕ} {args : CreateArguments} {start : UInt32} (h : Counts n pm)
    (hroom : n + 1 < 2 ^ 32 - 1) (hc : Created owner args start pm mm pm' mm') :
    Counts (n + 1) pm' := by
  have hle := h.next_le
  have hroom' : pm.nextPid.toNat + 1 < 2 ^ 32 := by omega
  rw [hc.processes]
  refine ⟨h.numbered.spawned (ppid_ne_nextPid h.numbered.fresh hc.parent) hroom', ?_⟩
  rw [spawned_nextPid _ hroom']
  omega

end Kernel

end OSCoreSim
