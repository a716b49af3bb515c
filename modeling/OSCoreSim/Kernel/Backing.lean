import OSCoreSim.Kernel.Invariant
/-!
# Every process block has its process

A PROCESS block stands for a live process of its owner and is the only one of its PID.  This is
less than `Agreement`, which also fixes addresses and sizes, and it survives the rollback of a
creation that was about to take the PID of a live process.
-/

namespace OSCoreSim

open MemoryManager ProcessManager CommandDispatcher

namespace Kernel

variable {owner v : Str} {pm pm' : ProcessManager} {mm mm' : MemoryManager} {pid k : UInt32}
  {cause : Cause}

def holders (mm : MemoryManager) (pid : UInt32) : List Str :=
  (held mm.blocks pid).map Footprint.owner

def Backed (pm : ProcessManager) (mm : MemoryManager) : Prop :=
  ∀ pid, (holders mm pid).length ≤ 1 ∧ ∀ owner ∈ holders mm pid, pm.hasProcess owner pid = true

theorem Agreement.backed (h : Agreement pm mm) : Backed pm mm := by
  intro pid
  unfold holders
  rw [h pid]
  refine ⟨by simpa using length_owed pm pid, fun owner hmem => ?_⟩
  obtain ⟨mark, hmark, rfl⟩ := List.mem_map.mp hmem
  obtain ⟨pcb, hget, howner, -⟩ := mem_owed hmark
  exact hasProcess_iff.mpr ⟨pcb, hget, howner⟩

/-- The release of a rollback takes a block with the PID and the owner of the new one. -/
theorem releases_rolledBack (hpart : Partition mm) {name text : Str} {sizeKB start : UInt32}
    (halloc : mm.allocateForProcess owner pid name sizeKB = .ok (mm', start, text)) :
    Releases (fun block => isProcessBlock owner pid block) mm' (rolledBack mm' owner pid) := by
  obtain ⟨-, hm⟩ := hpart.allocates halloc
  obtain ⟨l, r, -, hadd⟩ := hm.allocated_eq (by simp)
  unfold rolledBack
  cases hfree : mm'.freeByPid owner pid with
  | ok result => exact freeByPid_spec hfree
  | error message =>
    have hnew := (mem_allocated.mp (hadd ▸ List.mem_append_right l List.mem_cons_self)).1
    have hnone := freeByPid_error.mp ⟨message, hfree⟩ _ hnew
    simp [isProcessBlock] at hnone

theorem holders_rolledBack (hpart : Partition mm) {name text : Str} {sizeKB start : UInt32}
    (halloc : mm.allocateForProcess owner pid name sizeKB = .ok (mm', start, text)) :
    (holders (rolledBack mm' owner pid) k).Perm (holders mm k) := by
  unfold holders
  obtain ⟨-, hm⟩ := hpart.allocates halloc
  obtain ⟨l, r, hold, hadd⟩ := hm.allocated_eq (by simp)
  obtain ⟨l', it, r', hfull, hit, hdrop⟩ :=
    (hpart.of_allocates (by simp) hm).allocated_releases (releases_rolledBack hpart halloc)
  obtain ⟨htype, howner, hpid⟩ := isProcessBlock_iff.mp hit
  -- the block that came and the block that went count for the same PID and the same owner
  have hcame := (held_middle k l r
    { start := start, size := sizeKB, type := .process, pid := pid, owner := owner,
      tag := name }).map Footprint.owner
  have hwent := (held_middle k l' r' it).map Footprint.owner
  rw [← hadd, ← hold] at hcame
  rw [← hfull, ← hdrop] at hwent
  simp only [held_allocated, List.map_append] at hcame hwent
  have hsame := hwent.symm.trans hcame
  by_cases hk : pid = k
  · simpa [footprint, htype, howner, hpid, hk] using hsame
  · simpa [footprint, htype, howner, hpid, hk] using hsame

theorem owner_unique (h : pm.hasProcess owner pid) (hv : pm.hasProcess v pid) : owner = v := by
  obtain ⟨pcb, hget, rfl⟩ := hasProcess_iff.mp h
  obtain ⟨found, hfound, rfl⟩ := hasProcess_iff.mp hv
  rw [hget] at hfound
  rw [Option.some.inj hfound]

namespace Backed

variable (h : Backed pm mm)

include h

theorem held_le_one (pid : UInt32) : (held mm.blocks pid).length ≤ 1 := by
  simpa [holders] using (h pid).1

theorem of_eq (hholders : ∀ k, holders mm' k = holders mm k)
    (hprocesses : ∀ owner k, pm'.hasProcess owner k = pm.hasProcess owner k) : Backed pm' mm' := by
  intro k
  rw [hholders k]
  refine ⟨(h k).1, fun owner hmem => ?_⟩
  rw [hprocesses]
  exact (h k).2 owner hmem

theorem swappedOut (hpart : Partition mm)
    (hm : Releases (fun block => isProcessBlock owner pid block) mm mm') : Backed pm mm' := by
  intro k
  rw [holders, hpart.held_of_releases (h.held_le_one pid) hm k]
  split
  · simp
  · exact h k

theorem pruned (hpart : Partition mm) (hhas : pm.hasProcess owner pid) :
    Backed (pm.pruned (pm.subtree owner pid))
      (Scheduler.releaseAll owner mm (pm.subtree owner pid)).1 := by
  have howned := (subtree_spec hhas).2.2.1
  have hmine : ∀ p ∈ pm.subtree owner pid, ∀ mark ∈ held mm.blocks p, mark.owner = owner :=
    fun p hp mark hmem => owner_unique ((h p).2 _ (List.mem_map_of_mem hmem)) (howned p hp)
  have hreleases := releasesAll_releaseAll hpart h.held_le_one hmine
  intro k
  rw [holders, hreleases.held_eq k]
  by_cases hk : k ∈ pm.subtree owner pid
  · simp [hk]
  · rw [if_neg hk]
    refine ⟨(h k).1, fun owner' hmem => ?_⟩
    rw [hasProcess_pruned, (h k).2 owner' hmem]
    simp [hk]

theorem compacted (hpart : Partition mm) : Backed (compactedProcesses pm mm) mm.compact.1 := by
  refine h.of_eq (fun k => ?_) fun owner k => ?_
  · have hmoved := hpart.held_compact k
    unfold holders
    generalize held mm.blocks k = old, held mm.compact.1.blocks k = new at hmoved
    induction hmoved with
    | nil => rfl
    | cons hsame _ ih => rw [List.map_cons, List.map_cons, ih, hsame.1]
  · rw [Bool.eq_iff_iff, hasProcess_iff, hasProcess_iff, compactedProcesses, updateStarts_getElem?]
    simp

theorem rolledBack (hpart : Partition mm) {name text : Str} {sizeKB start : UInt32}
    (halloc : mm.allocateForProcess owner pid name sizeKB = .ok (mm', start, text)) :
    Backed pm (Kernel.rolledBack mm' owner pid) := by
  intro k
  have hperm := holders_rolledBack (k := k) hpart halloc
  rw [hperm.length_eq]
  exact ⟨(h k).1, fun owner hmem => (h k).2 owner (hperm.mem_iff.mp hmem)⟩

theorem effect (hpart : Partition mm) (he : Effect cause owner pm mm pm' mm') :
    Backed pm' mm' := by
  cases he with
  | alloc htype _ _ hm =>
    refine h.of_eq (fun k => ?_) fun _ _ => rfl
    rw [holders, hm.held_eq_of_ne (by simp [htype]) (by simp [htype])]
    rfl
  | free hblocks _ _ hprocess =>
    refine h.of_eq (fun k => ?_) fun _ _ => rfl
    rw [holders, hpart.held_of_released hblocks hprocess]
    rfl
  | setAlgorithm => exact h
  | compact => exact h.compacted hpart
  | swapOut hget _ hm =>
    have htable := (ownedPcb_eq_some.mp hget).1
    exact (h.swappedOut hpart hm).of_eq (fun _ => rfl) fun _ _ =>
      hasProcess_insert htable (by rfl) rfl
  | kill _ hhas => exact h.pruned hpart hhas
  | rewrite hr =>
    obtain ⟨pcb, pcb', hget, ht, hs⟩ := hr
    have howner : pcb'.owner = pcb.owner := by cases ht <;> rfl
    exact h.of_eq (fun _ => rfl) fun _ _ =>
      hasProcess_insert (ownedPcb_eq_some.mp hget).1 howner hs.pcbTable_eq
  | step _ ho =>
    cases ho with
    | idle => exact h
    | requeue pid pcb _ hget =>
      exact h.of_eq (fun _ => rfl) fun _ _ =>
        hasProcess_insert (ownedPcb_eq_some.mp hget).1 (by rfl) rfl
    | finish pid pcb _ hget =>
      exact h.pruned hpart (hasProcess_iff.mpr ⟨pcb, ownedPcb_eq_some.mp hget⟩)

theorem created {args : CreateArguments} {start : UInt32}
    (hfresh : pm.pcbTable[pm.nextPid]? = none) (hc : Created owner args start pm mm pm' mm') :
    Backed pm' mm' := by
  have hnone : held mm.blocks pm.nextPid = [] := by
    refine List.eq_nil_iff_forall_not_mem.mpr fun mark hmem => ?_
    obtain ⟨pcb, hget, -⟩ := hasProcess_iff.mp ((h pm.nextPid).2 _ (List.mem_map_of_mem hmem))
    rw [hfresh] at hget
    cases hget
  have hne := ppid_ne_nextPid hfresh hc.parent
  intro k
  rw [holders, hc.allocates.held_eq rfl hnone k, hc.processes]
  by_cases hk : k = pm.nextPid
  · rw [if_pos hk]
    refine ⟨by simp, fun owner' hmem => (hasProcess_spawned hfresh hne).mpr (.inr ⟨hk, ?_⟩)⟩
    simpa [newPcb] using hmem
  · rw [if_neg hk]
    exact ⟨(h k).1, fun owner' hmem => (hasProcess_spawned hfresh hne).mpr (.inl ((h k).2 owner' hmem))⟩

end Backed

/-! ## What keeps the users apart -/

structure Fenced (pm : ProcessManager) (mm : MemoryManager) : Prop where
  partition : Partition mm
  indexed : Indexed pm
  kin : Kin pm
  backed : Backed pm mm

theorem Core.fenced (h : Core pm mm) : Fenced pm mm :=
  ⟨h.matched.partition, h.indexed, h.kin, h.matched.agree.backed⟩

theorem Fenced.effect (h : Fenced pm mm) (he : Effect cause owner pm mm pm' mm') : Fenced pm' mm' :=
  ⟨partition_effect h.partition he, indexed_effect h.indexed he, kin_effect h.kin he,
    h.backed.effect h.partition he⟩

theorem Fenced.effect_of_action (h : Fenced pm mm) (ha : Action cause owner pm mm pm' mm') :
    Effect cause owner pm mm pm' mm' := effect_of_keyed h.indexed.keyed h.partition ha

theorem Fenced.created {args : CreateArguments} {start : UInt32} (h : Fenced pm mm)
    (hfresh : pm.pcbTable[pm.nextPid]? = none) (hc : Created owner args start pm mm pm' mm') :
    Fenced pm' mm' := by
  have hbacked := h.backed.created hfresh hc
  have hpart := h.partition.of_allocates (by simp) hc.allocates
  rw [hc.processes] at hbacked ⊢
  exact {
    partition := hpart
    indexed := h.indexed.spawned hfresh (ppid_ne_nextPid hfresh hc.parent) rfl
      (queueIndex_queueLevelForPriority _) (by simp [newPcb])
    kin := kin_spawned h.kin hfresh hc.parent rfl
    backed := hbacked }

/-- The creation that `create_pcb` is about to make goes through. -/
def creates (k : Kernel) (owner : Str) (args : CreateArguments) : Bool :=
  match k.memoryManager.allocateForProcess owner k.processManager.nextPid args.name args.memKB with
  | .ok (_, start, _) => (k.processManager.createProcessWithMemory owner args.name args.memKB start
      args.priority args.totalTime args.ppid).isOk
  | .error _ => false

/-- A creation that goes through takes a PID that no live process has. -/
def CreatesFresh (command : Command) (k : Kernel) : Prop :=
  command.name = str "create_pcb" → ∀ owner ∈ k.userManager.currentUser,
    ∀ args ∈ parseCreateArguments command.arguments, k.creates owner args = true →
      k.processManager.pcbTable[k.processManager.nextPid]? = none

variable {command : Command} {kernel kernel' : Kernel} {success : Bool}

instance : Decidable (CreatesFresh command kernel) :=
  inferInstanceAs (Decidable (_ → ∀ owner ∈ kernel.userManager.currentUser, ∀ args ∈ _, _ → _))

theorem creates_of_ok {args : CreateArguments} {start : UInt32} {text message : Str}
    (halloc : kernel.memoryManager.allocateForProcess owner kernel.processManager.nextPid args.name
      args.memKB = .ok (mm, start, text))
    (hcreate : kernel.processManager.createProcessWithMemory owner args.name args.memKB start
      args.priority args.totalTime args.ppid = .ok (pm, pid, message)) :
    kernel.creates owner args = true := by
  simp only [creates, halloc, hcreate]
  rfl

theorem createsFresh_of_numbered (h : Numbered kernel.processManager) :
    CreatesFresh command kernel := fun _ _ _ _ _ _ => h.fresh

/-- The memory stays a partition, whatever PID a creation takes. -/
theorem partition_change (hkeyed : kernel.processManager.Keyed)
    (h : Partition kernel.memoryManager) (hc : Change command kernel kernel' success) :
    Partition kernel'.memoryManager := by
  cases hc with
  | create _ _ _ _ _ halloc => exact h.of_allocates (by simp) (h.allocates halloc).2
  | rollback _ _ _ _ _ halloc =>
    exact (h.of_allocates (by simp) (h.allocates halloc).2).of_releases
      (releases_rolledBack h halloc)
  | swapHalf _ _ _ hmem => exact h.of_releases (swapOutProcess_spec hmem)
  | act _ _ ha => exact partition_effect h (effect_of_keyed hkeyed h ha)
  | _ => exact h

theorem fenced_change (h : Fenced kernel.processManager kernel.memoryManager)
    (hfresh : CreatesFresh command kernel) (hc : Change command kernel kernel' success) :
    Fenced kernel'.processManager kernel'.memoryManager := by
  have hpart := partition_change h.indexed.keyed h.partition hc
  cases hc with
  | same | register | login | logout | exit | files | start | stop => exact h
  | create owner args hname hlogin hargs halloc hcreate =>
    have hnew := hfresh hname owner hlogin args hargs (creates_of_ok halloc hcreate)
    exact h.created hnew (created_of_ok h.partition hnew halloc hcreate)
  | rollback _ _ _ _ _ halloc =>
    exact ⟨hpart, h.indexed, h.kin, h.backed.rolledBack h.partition halloc⟩
  | swapHalf _ _ _ hmem =>
    exact ⟨hpart, h.indexed, h.kin, h.backed.swappedOut h.partition (swapOutProcess_spec hmem)⟩
  | act owner hlogin ha => exact h.effect (h.effect_of_action ha)
  | restart =>
    show Fenced kernel.processManager.cleaned kernel.memoryManager
    rwa [h.indexed.cleaned_eq]

theorem fenced_tick (h : Fenced kernel.processManager kernel.memoryManager) :
    Fenced kernel.schedulerTick.1.processManager kernel.schedulerTick.1.memoryManager :=
  tick_keeps (P := fun k => Fenced k.processManager k.memoryManager) h
    fun _ ha => h.effect (h.effect_of_action ha)

end Kernel

end OSCoreSim
