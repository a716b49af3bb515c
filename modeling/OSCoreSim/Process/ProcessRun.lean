import OSCoreSim.Lib.Runs
import OSCoreSim.Process.ReadyIndex
import Mathlib.Data.List.Nodup
import Mathlib.Data.List.FinRange
/-!
# Runs of the process manager

Any sequence of operations by any users on an empty process manager keeps the ready
queues an exact index of the READY processes, as long as the PIDs do not run out.
-/

namespace OSCoreSim

namespace ProcessManager

/-! ## The PID counter -/

structure Numbered (pm : ProcessManager) : Prop where
  next_pos : 0 < pm.nextPid.toNat
  bound : ∀ (k : UInt32) (pcb : PCB), pm.pcbTable[k]? = some pcb →
    0 < k.toNat ∧ k.toNat < pm.nextPid.toNat

variable {n : ℕ} {pm pm' : ProcessManager} {owner : Str} {pid : UInt32} {pcb : PCB}

theorem numbered_empty : Numbered {} :=
  ⟨by decide, fun k pcb hget => by simp at hget⟩

theorem Numbered.fresh (h : Numbered pm) : pm.pcbTable[pm.nextPid]? = none := by
  cases hget : pm.pcbTable[pm.nextPid]? with
  | none => rfl
  | some pcb => exact absurd (h.bound _ _ hget).2 (Nat.lt_irrefl _)

theorem Numbered.of_keys (h : Numbered pm) (hnext : pm'.nextPid = pm.nextPid)
    (hkeys : ∀ k : UInt32, pm'.pcbTable[k]?.isSome → pm.pcbTable[k]?.isSome) : Numbered pm' := by
  refine ⟨by rw [hnext]; exact h.next_pos, fun k pcb hget => ?_⟩
  obtain ⟨old, hold⟩ := Option.isSome_iff_exists.mp (hkeys k (by simp [hget]))
  rw [hnext]
  exact h.bound k old hold

theorem Numbered.relinked (h : Numbered pm) (hget : pm.pcbTable[pid]?.isSome) (pcb : PCB) :
    Numbered (pm.relinked pid pcb) := by
  refine h.of_keys rfl fun k hk => ?_
  simp only [ProcessManager.relinked, KeyedTable.getElem?_insert] at hk
  split at hk
  next heq => exact heq ▸ hget
  next => exact hk

theorem Numbered.stores {pcb' : PCB} (h : Numbered pm) (hget : pm.pcbTable[pid]?.isSome)
    (hs : Stores pm pid pcb pcb' pm') : Numbered pm' := by
  have hrelinked := h.relinked hget pcb'
  cases hs with
  | relink => exact hrelinked
  | set => exact ⟨hrelinked.next_pos, hrelinked.bound⟩

theorem Numbered.pruned (h : Numbered pm) (removed : List UInt32) :
    Numbered (pm.pruned removed) := by
  refine h.of_keys rfl fun k hk => ?_
  rw [pruned_getElem?] at hk
  split at hk
  · cases hk
  · simpa using hk

theorem Numbered.outcome (h : Numbered pm) {mm mm' : MemoryManager}
    (ho : Scheduler.Outcome owner pm mm pm' mm') : Numbered pm' := by
  have hcleaned : Numbered pm.cleaned := ⟨h.next_pos, h.bound⟩
  cases ho with
  | idle => exact hcleaned
  | requeue pid pcb _ hget =>
    exact hcleaned.relinked (Option.isSome_of_eq_some (ownedPcb_eq_some.mp hget).1) _
  | finish => exact hcleaned.pruned _

theorem spawned_nextPid (pcb : PCB) (hroom : pm.nextPid.toNat + 1 < 2 ^ 32) :
    (pm.spawned pcb).nextPid.toNat = pm.nextPid.toNat + 1 := by
  have hone : (1 : UInt32).toNat = 1 := rfl
  simp only [ProcessManager.spawned, UInt32.toNat_add, hone]
  exact Nat.mod_eq_of_lt hroom

theorem Numbered.spawned (h : Numbered pm) (hparent : pcb.ppid ≠ 0 → pcb.ppid ≠ pm.nextPid)
    (hroom : pm.nextPid.toNat + 1 < 2 ^ 32) : Numbered (pm.spawned pcb) := by
  have hnext := spawned_nextPid pcb hroom
  have hpos := h.next_pos
  refine ⟨by omega, fun k found hget => ?_⟩
  rw [hnext]
  rcases spawned_cases hparent hget with ⟨hk, -⟩ | ⟨-, old, children, hold, -⟩
  · rw [hk]
    omega
  · have hbound := h.bound k old hold
    omega

/-! ## Operations -/

inductive ProcessOp where
  | create (owner name : Str) (memKB memStart : UInt32) (priority : Int32) (totalTime : UInt32)
      (ppid : Option UInt32)
  | kill (owner : Str) (pid : UInt32)
  | block (owner : Str) (pid : UInt32)
  | wakeup (owner : Str) (pid : UInt32)
  | suspend (owner : Str) (pid : UInt32)
  | resume (owner : Str) (pid : UInt32)
  | renice (owner : Str) (pid : UInt32) (priority : Int32)
  | swapOut (owner : Str) (pid : UInt32)
  | step (owner : Str) (memory : MemoryManager)

def keep {α : Type} (pm : ProcessManager) (result : Except Str (ProcessManager × α)) :
    ProcessManager :=
  match result with
  | .ok (pm', _) => pm'
  | .error _ => pm

def perform (pm : ProcessManager) : ProcessOp → ProcessManager
  | .create owner name memKB memStart priority totalTime ppid =>
    pm.keep (pm.createProcessWithMemory owner name memKB memStart priority totalTime ppid)
  | .kill owner pid => pm.keep (pm.killProcess owner pid)
  | .block owner pid => pm.keep (pm.blockProcess owner pid)
  | .wakeup owner pid => pm.keep (pm.wakeupProcess owner pid)
  | .suspend owner pid => pm.keep (pm.suspendProcess owner pid)
  | .resume owner pid => pm.keep (pm.resumeProcess owner pid)
  | .renice owner pid priority => pm.keep (pm.reniceProcess owner pid priority)
  | .swapOut owner pid => pm.keep (pm.markSwappedOut owner pid)
  | .step owner memory => (Scheduler.step owner pm memory).1

def creations (pm : ProcessManager) : ProcessOp → ℕ
  | .create owner name memKB memStart priority totalTime ppid =>
    if (pm.createProcessWithMemory owner name memKB memStart priority totalTime ppid).isOk
    then 1 else 0
  | _ => 0

/-- What a run keeps: the index, and a next PID that `n` creations account for. -/
structure Counted (n : ℕ) (pm : ProcessManager) : Prop where
  indexed : Indexed pm
  numbered : Numbered pm
  next_le : pm.nextPid.toNat ≤ n + 1

theorem counted_perform (op : ProcessOp) (h : Counted n pm)
    (hbound : n + creations pm op < 2 ^ 32 - 1) : Counted (n + creations pm op) (pm.perform op) := by
  have hrewrites : ∀ {owner : Str} {pid : UInt32} {result : Except Str (ProcessManager × Str)},
      (∀ pm' message, result = .ok (pm', message) → Rewrites owner pid pm pm') →
        Counted n (pm.keep result) := by
    intro owner pid result hspec
    cases result with
    | error message => exact h
    | ok pair =>
      have hr := hspec pair.1 pair.2 rfl
      have hindex' := h.indexed.rewrites hr
      obtain ⟨pcb, pcb', hget, -, hs⟩ := hr
      refine ⟨hindex', h.numbered.stores
        (Option.isSome_of_eq_some (ownedPcb_eq_some.mp hget).1) hs, ?_⟩
      rw [keep, hs.nextPid_eq]
      exact h.next_le
  cases op with
  | create owner name memKB memStart priority totalTime ppid =>
    simp only [perform, creations, keep] at hbound ⊢
    cases hcreate : pm.createProcessWithMemory owner name memKB memStart priority totalTime ppid with
    | error message => exact h
    | ok created =>
      obtain ⟨pm', pid, message⟩ := created
      have hfresh := h.numbered.fresh
      have hle := h.next_le
      simp only [hcreate, Except.isOk, Except.toBool, if_true] at hbound ⊢
      obtain ⟨-, -, -, -, hparent, -, rfl⟩ := createProcessWithMemory_spec hfresh hcreate
      have hne := ppid_ne_nextPid hfresh hparent
      have hroom : pm.nextPid.toNat + 1 < 2 ^ 32 := by omega
      refine ⟨h.indexed.spawned hfresh hne rfl (queueIndex_queueLevelForPriority priority)
        (by simp [newPcb]), h.numbered.spawned hne hroom, ?_⟩
      rw [spawned_nextPid _ hroom]
      omega
  | kill owner pid =>
    simp only [perform, keep]
    cases hkill : pm.killProcess owner pid with
    | error message => exact h
    | ok killed =>
      obtain ⟨pm', removed, message⟩ := killed
      obtain ⟨-, -, rfl⟩ := killProcess_spec hkill
      exact ⟨h.indexed.pruned removed, h.numbered.pruned removed, h.next_le⟩
  | block => exact hrewrites fun _ _ => blockProcess_spec
  | wakeup => exact hrewrites fun _ _ => wakeupProcess_spec
  | suspend => exact hrewrites fun _ _ => suspendProcess_spec
  | resume => exact hrewrites fun _ _ => resumeProcess_spec
  | renice => exact hrewrites fun _ _ => reniceProcess_spec
  | swapOut owner pid =>
    simp only [perform, keep]
    cases hswap : pm.markSwappedOut owner pid with
    | error message => exact h
    | ok swapped =>
      obtain ⟨pm', message⟩ := swapped
      obtain ⟨pcb, hget, -, rfl⟩ := markSwappedOut_spec hswap
      have htable := (ownedPcb_eq_some.mp hget).1
      exact ⟨h.indexed.swapped_out htable,
        h.numbered.relinked (Option.isSome_of_eq_some htable) _, h.next_le⟩
  | step owner memory =>
    have ho := Scheduler.step_outcome owner memory h.indexed.keyed
    refine ⟨h.indexed.outcome ho, h.numbered.outcome ho, ?_⟩
    simp only [perform, ho.nextPid_eq]
    exact h.next_le

/-! ## Runs -/

theorem counted_run {ops : List ProcessOp}
    (hbound : Runs.total perform creations {} ops < 2 ^ 32 - 1) :
    Counted (0 + Runs.total perform creations {} ops) (Runs.run perform {} ops) :=
  Runs.run_invariant (P := Counted)
    (fun _ _ op h _ hlt => counted_perform op h hlt)
    ⟨indexed_empty, numbered_empty, by decide⟩
    (Runs.permitted_of_forall fun _ _ _ => trivial) (by rwa [Nat.zero_add])

theorem Indexed.nodup_all (h : Indexed pm) :
    ((List.finRange 3).flatMap pm.readyQueues).Nodup := by
  rw [List.nodup_flatMap]
  refine ⟨fun q _ => h.nodup q, (List.nodup_finRange 3).imp fun {q q'} hne k hk hk' => ?_⟩
  obtain ⟨pcb, hget, hlevel⟩ := (h.mem_iff q k).mp hk
  obtain ⟨pcb', hget', hlevel'⟩ := (h.mem_iff q' k).mp hk'
  rw [hget] at hget'
  cases hget'
  rw [hlevel] at hlevel'
  exact hne (Option.some.inj hlevel')

/-- After any operations a PID stands in queue `q` exactly when its process is READY, resident
and of level `q`; every READY resident process stands in the queues exactly once, and no
entry is repeated. -/
theorem ready_queues_index_of_run {ops : List ProcessOp}
    (hbound : Runs.total perform creations {} ops < 2 ^ 32 - 1) :
    let pm := Runs.run perform {} ops
    (∀ (q : Fin 3) (k : UInt32), k ∈ pm.readyQueues q ↔
      ∃ pcb, pm.pcbTable[k]? = some pcb ∧ pcb.state = .ready ∧ pcb.swappedOut = false ∧
        pcb.queueLevel = levelOfQueue q) ∧
    (∀ (k : UInt32) (pcb : PCB), pm.pcbTable[k]? = some pcb → pcb.state = .ready →
      pcb.swappedOut = false → ((List.finRange 3).flatMap pm.readyQueues).count k = 1) ∧
    ((List.finRange 3).flatMap pm.readyQueues).Nodup := by
  intro pm
  have h : Indexed pm := (counted_run hbound).indexed
  refine ⟨fun q k => ?_, fun k pcb hget hready _ => ?_, h.nodup_all⟩
  · rw [h.mem_iff]
    constructor
    · rintro ⟨pcb, hget, hlevel⟩
      obtain ⟨hready, hq⟩ := readyLevel_eq_some.mp hlevel
      exact ⟨pcb, hget, hready, h.swappedOut_of_ready hget hready, queueIndex_eq_some.mp hq⟩
    · rintro ⟨pcb, hget, hready, -, hq⟩
      exact ⟨pcb, hget, readyLevel_eq_some.mpr ⟨hready, queueIndex_eq_some.mpr hq⟩⟩
  · obtain ⟨q, hq⟩ := h.level k pcb hget
    have hmem : k ∈ pm.readyQueues q :=
      (h.mem_iff q k).mpr ⟨pcb, hget, readyLevel_eq_some.mpr ⟨hready, hq⟩⟩
    exact List.count_eq_one_of_mem h.nodup_all
      (List.mem_flatMap.mpr ⟨q, List.mem_finRange q, hmem⟩)

/-- Operations of two users with a child, a renice and a completed process. -/
theorem ready_queues_index_of_run_mixed :
    let ops : List ProcessOp := [.create (str "a") (str "p") 4 0 1 5 none,
      .create (str "a") (str "c") 4 4 6 1 (some 1), .create (str "b") (str "q") 4 8 9 3 none,
      .renice (str "b") 3 2, .block (str "a") 1, .step (str "a") {}, .wakeup (str "a") 1]
    let pm := Runs.run perform {} ops
    (∀ (q : Fin 3) (k : UInt32), k ∈ pm.readyQueues q ↔
      ∃ pcb, pm.pcbTable[k]? = some pcb ∧ pcb.state = .ready ∧ pcb.swappedOut = false ∧
        pcb.queueLevel = levelOfQueue q) ∧
    (∀ (k : UInt32) (pcb : PCB), pm.pcbTable[k]? = some pcb → pcb.state = .ready →
      pcb.swappedOut = false → ((List.finRange 3).flatMap pm.readyQueues).count k = 1) ∧
    ((List.finRange 3).flatMap pm.readyQueues).Nodup :=
  ready_queues_index_of_run (by decide +kernel)

end ProcessManager

end OSCoreSim
