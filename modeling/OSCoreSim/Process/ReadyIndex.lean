import OSCoreSim.Process.SchedulerSpec
import Mathlib.Data.Fintype.Basic
import Mathlib.Tactic.FinCases
/-!
# The ready queues index the READY processes

`Indexed` says that a PID stands in a ready queue exactly when its PCB asks for that queue,
and never twice.  Each of the four shapes of `Process.Transitions` keeps it, the ones that
touch a PCB because the PID is taken out of every queue before it is put back.
-/

namespace OSCoreSim

namespace ProcessManager

structure Indexed (pm : ProcessManager) : Prop where
  keyed : pm.Keyed
  mem_iff : ∀ (q : Fin 3) (k : UInt32), k ∈ pm.readyQueues q ↔
    ∃ pcb, pm.pcbTable[k]? = some pcb ∧ readyLevel pcb = some q
  nodup : ∀ q : Fin 3, (pm.readyQueues q).Nodup
  level : ∀ (k : UInt32) (pcb : PCB), pm.pcbTable[k]? = some pcb →
    ∃ q, queueIndex pcb.queueLevel = some q
  swapped : ∀ (k : UInt32) (pcb : PCB), pm.pcbTable[k]? = some pcb →
    (pcb.swappedOut = true ↔ pcb.state = .swapped)

variable {pm : ProcessManager} {owner : Str} {pid k : UInt32} {pcb pcb' : PCB} {q : Fin 3}

theorem readyLevel_eq_some :
    readyLevel pcb = some q ↔ pcb.state = .ready ∧ queueIndex pcb.queueLevel = some q := by
  unfold readyLevel
  split
  next h => simp [h]
  next h => simp [h]

theorem Indexed.swappedOut_of_ready (h : Indexed pm) (hget : pm.pcbTable[k]? = some pcb)
    (hready : pcb.state = .ready) : pcb.swappedOut = false := by
  by_contra hswap
  have hstate := (h.swapped k pcb hget).mp (by simpa using hswap)
  rw [hready] at hstate
  cases hstate

theorem Indexed.of_frame (h : Indexed pm) {pm' : ProcessManager}
    (hqueues : pm'.readyQueues = pm.readyQueues)
    (hkeep : ∀ (k : UInt32) (pcb : PCB), pm.pcbTable[k]? = some pcb → ∃ memStart children,
      pm'.pcbTable[k]? = some { pcb with memStart := memStart, children := children })
    (horigin : ∀ (k : UInt32) (pcb' : PCB), pm'.pcbTable[k]? = some pcb' →
      ∃ pcb memStart children, pm.pcbTable[k]? = some pcb ∧
        pcb' = { pcb with memStart := memStart, children := children }) : Indexed pm' where
  keyed k pcb' hget := by
    obtain ⟨pcb, memStart, children, hold, rfl⟩ := horigin k pcb' hget
    exact h.keyed k pcb hold
  mem_iff q k := by
    rw [hqueues, h.mem_iff]
    constructor
    · rintro ⟨pcb, hold, hlevel⟩
      obtain ⟨memStart, children, hget⟩ := hkeep k pcb hold
      exact ⟨_, hget, hlevel⟩
    · rintro ⟨pcb', hget, hlevel⟩
      obtain ⟨pcb, memStart, children, hold, rfl⟩ := horigin k pcb' hget
      exact ⟨pcb, hold, hlevel⟩
  nodup q := by
    rw [hqueues]
    exact h.nodup q
  level k pcb' hget := by
    obtain ⟨pcb, memStart, children, hold, rfl⟩ := horigin k pcb' hget
    exact h.level k pcb hold
  swapped k pcb' hget := by
    obtain ⟨pcb, memStart, children, hold, rfl⟩ := horigin k pcb' hget
    exact h.swapped k pcb hold

theorem indexed_empty : Indexed {} where
  keyed k pcb hget := by simp at hget
  mem_iff q k := by simp
  nodup q := List.nodup_nil
  level k pcb hget := by simp at hget
  swapped k pcb hget := by simp at hget

/-! ## The four shapes -/

theorem Indexed.relinked (h : Indexed pm) (hpid : pcb.pid = pid)
    (hlevel : ∃ q, queueIndex pcb.queueLevel = some q)
    (hswapped : pcb.swappedOut = true ↔ pcb.state = .swapped) :
    Indexed (pm.relinked pid pcb) where
  keyed k old hget := by
    simp only [ProcessManager.relinked, KeyedTable.getElem?_insert] at hget
    by_cases hk : pid = k
    · rw [if_pos hk] at hget
      cases hget
      exact hpid.trans hk
    · rw [if_neg hk] at hget
      exact h.keyed k old hget
  mem_iff q k := by
    simp only [ProcessManager.relinked, requeued, KeyedTable.getElem?_insert, List.mem_append,
      List.mem_filter, h.mem_iff]
    by_cases hk : pid = k
    · subst hk
      by_cases hq : readyLevel pcb = some q <;> simp [hq]
    · have hk' : k ≠ pid := fun heq => hk heq.symm
      by_cases hq : readyLevel pcb = some q <;> simp [hq, hk, hk']
  nodup q := by
    have hrest := (h.nodup q).filter (fun x => decide (x ≠ pid))
    simp only [ProcessManager.relinked, requeued]
    split
    · refine List.nodup_append.mpr ⟨hrest, List.nodup_singleton pid, fun a ha b hb => ?_⟩
      rw [List.mem_singleton.mp hb]
      simpa using (List.mem_filter.mp ha).2
    · simpa using hrest
  level k old hget := by
    simp only [ProcessManager.relinked, KeyedTable.getElem?_insert] at hget
    split at hget
    · cases hget
      exact hlevel
    · exact h.level k old hget
  swapped k old hget := by
    simp only [ProcessManager.relinked, KeyedTable.getElem?_insert] at hget
    split at hget
    · cases hget
      exact hswapped
    · exact h.swapped k old hget

/-- A PID whose PCB is not READY stands in no queue, so storing it needs no unlinking. -/
theorem Indexed.setPcb_eq (h : Indexed pm) (hget : pm.pcbTable[pid]? = some pcb)
    (hold : pcb.state ≠ .ready) (hnew : pcb'.state ≠ .ready) :
    pm.setPcb pid pcb' = pm.relinked pid pcb' := by
  simp only [setPcb, ProcessManager.relinked]
  congr 1
  funext q
  have hnot : pid ∉ pm.readyQueues q := by
    intro hmem
    obtain ⟨found, hfound, hlevel⟩ := (h.mem_iff q pid).mp hmem
    rw [hget] at hfound
    cases hfound
    exact hold (readyLevel_eq_some.mp hlevel).1
  rw [requeued, readyLevel_of_ne hnew, if_neg (by simp), List.append_nil]
  exact (List.filter_eq_self.mpr fun x hx => by simpa using fun heq : x = pid => hnot (heq ▸ hx)).symm

theorem Indexed.stores_eq (h : Indexed pm) {pm' : ProcessManager}
    (hget : pm.pcbTable[pid]? = some pcb) (hs : Stores pm pid pcb pcb' pm') :
    pm' = pm.relinked pid pcb' := by
  cases hs with
  | relink => rfl
  | set hold hnew => exact h.setPcb_eq hget hold hnew

theorem queueIndex_queueLevelForPriority (priority : Int32) :
    ∃ q, queueIndex (queueLevelForPriority priority) = some q := by
  unfold queueLevelForPriority
  split
  · exact ⟨0, by decide⟩
  · split
    · exact ⟨1, by decide⟩
    · exact ⟨2, by decide⟩

theorem queueIndex_eq_some :
    queueIndex pcb.queueLevel = some q ↔ pcb.queueLevel = levelOfQueue q := by
  have h0 : levelOfQueue 0 = 0 := by decide
  have h1 : levelOfQueue 1 = 1 := by decide
  have h2 : levelOfQueue 2 = 2 := by decide
  unfold queueIndex
  split
  next h =>
    rw [h]
    revert q
    decide
  next =>
    split
    next h =>
      rw [h]
      revert q
      decide
    next =>
      split
      next h =>
        rw [h]
        revert q
        decide
      next hn0 hn1 hn2 =>
        simp only [reduceCtorEq, false_iff]
        fin_cases q <;> simp_all

theorem Transition.indexed (ht : Transition pcb pcb')
    (hlevel : ∃ q, queueIndex pcb.queueLevel = some q)
    (hswapped : pcb.swappedOut = true ↔ pcb.state = .swapped) :
    (∃ q, queueIndex pcb'.queueLevel = some q) ∧
      (pcb'.swappedOut = true ↔ pcb'.state = .swapped) := by
  cases ht with
  | renice priority _ => exact ⟨queueIndex_queueLevelForPriority priority, hswapped⟩
  | block h | suspendReady h => exact ⟨hlevel, by rcases h with h | h <;> simp_all⟩
  | wakeup h | suspendBlocked h | resumeReady h | resumeBlocked h =>
    exact ⟨hlevel, by simp_all⟩

theorem Transition.pid_eq (ht : Transition pcb pcb') : pcb'.pid = pcb.pid := by
  cases ht <;> rfl

theorem Indexed.rewrites (h : Indexed pm) {pm' : ProcessManager}
    (hr : Rewrites owner pid pm pm') : Indexed pm' := by
  obtain ⟨pcb, pcb', hget, ht, hs⟩ := hr
  have htable := (ownedPcb_eq_some.mp hget).1
  obtain ⟨hlevel, hswapped⟩ := ht.indexed (h.level _ _ htable) (h.swapped _ _ htable)
  rw [h.stores_eq htable hs]
  exact h.relinked (ht.pid_eq.trans (h.keyed _ _ htable)) hlevel hswapped

theorem Indexed.swapped_out (h : Indexed pm) (hget : pm.pcbTable[pid]? = some pcb) :
    Indexed (pm.relinked pid (swappedPcb pcb)) :=
  h.relinked (h.keyed pid pcb hget) (h.level pid pcb hget) (by simp [swappedPcb])

theorem Indexed.pruned (h : Indexed pm) (removed : List UInt32) : Indexed (pm.pruned removed) where
  keyed k pcb hget := by
    obtain ⟨-, old, hold, rfl⟩ := pruned_eq_some.mp hget
    exact h.keyed k old hold
  mem_iff q k := by
    have hqueue : k ∈ (pm.pruned removed).readyQueues q ↔ k ∈ pm.readyQueues q ∧ k ∉ removed := by
      simp [ProcessManager.pruned, List.mem_filter]
    simp only [hqueue, pruned_eq_some, h.mem_iff]
    constructor
    · rintro ⟨⟨pcb, hget, hlevel⟩, hk⟩
      exact ⟨dropChildren removed pcb, ⟨hk, pcb, hget, rfl⟩, hlevel⟩
    · rintro ⟨_, ⟨hk, pcb, hget, rfl⟩, hlevel⟩
      exact ⟨⟨pcb, hget, hlevel⟩, hk⟩
  nodup q := (h.nodup q).filter _
  level k pcb hget := by
    obtain ⟨-, old, hold, rfl⟩ := pruned_eq_some.mp hget
    exact h.level k old hold
  swapped k pcb hget := by
    obtain ⟨-, old, hold, rfl⟩ := pruned_eq_some.mp hget
    exact h.swapped k old hold

theorem Indexed.spawned (h : Indexed pm) (hfresh : pm.pcbTable[pm.nextPid]? = none)
    (hparent : pcb.ppid ≠ 0 → pcb.ppid ≠ pm.nextPid) (hpid : pcb.pid = pm.nextPid)
    (hlevel : ∃ q, queueIndex pcb.queueLevel = some q)
    (hswapped : pcb.swappedOut = true ↔ pcb.state = .swapped) : Indexed (pm.spawned pcb) := by
  refine ⟨fun k found hget => ?_, fun q k => ?_, fun q => ?_, fun k found hget => ?_,
    fun k found hget => ?_⟩
  · rcases spawned_cases hparent hget with ⟨hk, rfl⟩ | ⟨-, old, children, hold, rfl⟩
    · exact hpid.trans hk.symm
    · exact h.keyed k old hold
  · by_cases hk : k = pm.nextPid
    · subst hk
      have hnot : pm.nextPid ∉ pm.readyQueues q := by
        intro hmem
        obtain ⟨found, hfound, -⟩ := (h.mem_iff q pm.nextPid).mp hmem
        rw [hfresh] at hfound
        cases hfound
      rw [spawned_new hparent]
      by_cases hq : readyLevel pcb = some q <;>
        simp [ProcessManager.spawned, requeued, hq]
    · have hmem : k ∈ (pm.spawned pcb).readyQueues q ↔ k ∈ pm.readyQueues q := by
        by_cases hq : readyLevel pcb = some q <;>
          simp [ProcessManager.spawned, requeued, hq, hk]
      rw [hmem, h.mem_iff]
      constructor
      · rintro ⟨old, hget, hlevel⟩
        obtain ⟨children, hkept⟩ := spawned_kept hfresh hparent hget
        exact ⟨_, hkept, hlevel⟩
      · rintro ⟨found, hget, hlevel⟩
        rcases spawned_cases hparent hget with ⟨heq, -⟩ | ⟨-, old, children, hold, rfl⟩
        · exact absurd heq hk
        · exact ⟨old, hold, hlevel⟩
  · have hrest := (h.nodup q).filter (fun x => decide (x ≠ pm.nextPid))
    simp only [ProcessManager.spawned, requeued]
    split
    · refine List.nodup_append.mpr ⟨hrest, List.nodup_singleton _, fun a ha b hb => ?_⟩
      rw [List.mem_singleton.mp hb]
      simpa using (List.mem_filter.mp ha).2
    · simpa using hrest
  · rcases spawned_cases hparent hget with ⟨-, rfl⟩ | ⟨-, old, children, hold, rfl⟩
    · exact hlevel
    · exact h.level k old hold
  · rcases spawned_cases hparent hget with ⟨-, rfl⟩ | ⟨-, old, children, hold, rfl⟩
    · exact hswapped
    · exact h.swapped k old hold

/-! ## The scheduler -/

theorem Indexed.cleaned_eq (h : Indexed pm) : pm.cleaned = pm := by
  have hqueues : ∀ q, (pm.readyQueues q).filter pm.isSchedulable = pm.readyQueues q := by
    intro q
    refine List.filter_eq_self.mpr fun k hk => ?_
    obtain ⟨pcb, hget, hlevel⟩ := (h.mem_iff q k).mp hk
    have hready := (readyLevel_eq_some.mp hlevel).1
    exact isSchedulable_iff.mpr ⟨pcb, hget, hready, h.swappedOut_of_ready hget hready⟩
  simp only [cleaned, cleanupInvalidReadyQueueEntries, hqueues]

theorem queueIndex_demotedLevel (h : ∃ q, queueIndex pcb.queueLevel = some q) :
    ∃ q, queueIndex (demotedLevel pcb.queueLevel) = some q := by
  obtain ⟨q, hq⟩ := h
  rw [queueIndex_eq_some] at hq
  rw [hq]
  clear hq
  revert q
  decide

theorem Indexed.afterSlice (h : Indexed pm) (hget : pm.pcbTable[pid]? = some pcb)
    (hready : pcb.state = .ready) : Indexed (pm.relinked pid (ProcessManager.afterSlice pcb)) := by
  have hswap := h.swappedOut_of_ready hget hready
  refine h.relinked (h.keyed pid pcb hget) (queueIndex_demotedLevel (h.level pid pcb hget)) ?_
  simp [ProcessManager.afterSlice, hswap]

theorem Indexed.outcome (h : Indexed pm) {pm' : ProcessManager} {mm mm' : MemoryManager}
    (ho : Scheduler.Outcome owner pm mm pm' mm') : Indexed pm' := by
  cases ho with
  | idle =>
    rw [h.cleaned_eq]
    exact h
  | requeue pid pcb _ hget hready hswap hleft =>
    rw [h.cleaned_eq]
    exact h.afterSlice (ownedPcb_eq_some.mp hget).1 hready
  | finish pid pcb =>
    rw [h.cleaned_eq]
    exact h.pruned _

end ProcessManager

end OSCoreSim
