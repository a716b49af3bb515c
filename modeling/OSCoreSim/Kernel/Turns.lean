import OSCoreSim.Kernel.ReadyRun
import OSCoreSim.Process.TurnOrder
/-!
# Steps of one owner in a row

The remaining time of the READY processes of the owner falls with every step, so the steps come
to the idle outcome.  Until then only READY processes run, every one of them completes or
disappears with one that completes, and the other processes lose children at most.
-/

namespace OSCoreSim

open ProcessManager

namespace Scheduler

variable {owner : Str} {pm pm' : ProcessManager} {mm mm' : MemoryManager}
  {s : ProcessManager × MemoryManager} {pid c k : UInt32} {pcb : PCB} {q : Fin 3} {n : ℕ}

def turn (owner : Str) (s : ProcessManager × MemoryManager) : ProcessManager × MemoryManager :=
  ((step owner s.1 s.2).1, (step owner s.1 s.2).2.1)

def turns (owner : Str) : ℕ → ProcessManager × MemoryManager → ProcessManager × MemoryManager
  | 0, s => s
  | n + 1, s => turns owner n (turn owner s)

theorem turns_succ (owner : Str) (n : ℕ) (s : ProcessManager × MemoryManager) :
    turns owner (n + 1) s = turn owner (turns owner n s) := by
  induction n generalizing s with
  | zero => rfl
  | succ n ih => exact ih (turn owner s)

theorem turns_add (owner : Str) (m n : ℕ) (s : ProcessManager × MemoryManager) :
    turns owner (m + n) s = turns owner n (turns owner m s) := by
  induction n with
  | zero => rfl
  | succ n ih => rw [← Nat.add_assoc, turns_succ, ih, turns_succ]

/-- The PCB `afterRun` of a step, when its ticks are over. -/
def afterRun (pm : ProcessManager) (owner : Str) : Option PCB :=
  match pm.cleanupInvalidReadyQueueEntries.1.pickNextReadyProcess owner with
  | (_, none) => none
  | (picked, some pid) =>
    match picked.pcbTable[pid]? with
    | none => none
    | some selected =>
      match picked.markRunning selected.pid with
      | none => none
      | some running =>
        match running.tickProcess selected.pid (timeSliceForQueue selected.queueLevel) with
        | .error _ => none
        | .ok (ran, _) => ran.pcbTable[selected.pid]?

/-- The next step runs `pid`, and no time is left when its ticks are over. -/
def Completes (pm : ProcessManager) (owner : Str) (pid : UInt32) : Prop :=
  ∃ pcb, afterRun pm owner = some pcb ∧ pcb.pid = pid ∧ pcb.remainingTime = 0

/-- The remaining time of the READY processes of `owner`. -/
def backlog (pm : ProcessManager) (owner : Str) : ℕ :=
  KeyedTable.weight (fun pcb => if pcb.owner = owner ∧ pcb.state = .ready then
    pcb.remainingTime.toNat else 0) pm.pcbTable

/-! ## One step -/

structure Sound (pm : ProcessManager) : Prop where
  indexed : Indexed pm
  healthy : Healthy pm

theorem Sound.turn (h : Sound s.1) (owner : Str) : Sound (turn owner s).1 where
  indexed := h.indexed.outcome (step_outcome owner s.2 h.indexed.keyed)
  healthy := h.healthy.outcome (step_outcome owner s.2 h.indexed.keyed)

theorem Sound.turns (h : Sound s.1) (owner : Str) (n : ℕ) : Sound (turns owner n s).1 := by
  induction n generalizing s with
  | zero => exact h
  | succ n ih => exact ih (h.turn owner)

theorem Sound.turn_idle (h : Sound s.1) (hidle : ¬s.1.HasReady owner) :
    Scheduler.turn owner s = s :=
  Prod.ext_iff.mpr (h.indexed.outcome_idle hidle (step_outcome owner s.2 h.indexed.keyed))

theorem Sound.turns_idle (h : Sound s.1) (hidle : ¬s.1.HasReady owner) :
    Scheduler.turns owner n s = s := by
  induction n with
  | zero => rfl
  | succ n ih => rw [turns_succ, ih, h.turn_idle hidle]

theorem afterRun_eq (h : Indexed pm) (hturn : pm.NextTurn owner q pid)
    (hget : pm.ownedPcb owner pid = some pcb) : ∃ slice, afterRun pm owner = some (ranFor pcb
      (UInt32.ofNat (min (quantum q).toNat pcb.remainingTime.toNat)) slice) := by
  obtain ⟨found, hfound, hready, hlevel⟩ := h.nextTurn_pcb hturn
  cases hget.symm.trans hfound
  have htable := (ownedPcb_eq_some.mp hget).1
  have hpid := h.keyed pid pcb htable
  have hslice : timeSliceForQueue pcb.queueLevel = quantum q := by
    rw [hlevel, timeSliceForQueue_levelOfQueue]
  have hsel : (pm.cleaned.pickNextReadyProcess owner).2 = some pid :=
    h.selectedPid_eq_some.mpr ⟨q, hturn⟩
  rcases pickNextReadyProcess_spec pm owner with
    ⟨hpick, -⟩ | ⟨picked, pid', pcb', hpick, hget', -, -, -, -, hpicked, -⟩
  · rw [hpick] at hsel
    cases hsel
  rw [hpick] at hsel
  cases hsel
  cases htable.symm.trans hget'
  have hget'' : picked.pcbTable[pid]? = some pcb := by rw [hpicked, htable]
  obtain ⟨running, slice, log, hmark, htick⟩ :=
    markRunning_tick hget'' hready (h.swappedOut_of_ready htable hready)
  rw [hslice] at htick
  refine ⟨slice, ?_⟩
  unfold cleaned at hpick
  unfold afterRun
  simp only [hpick, hget'', hpid, hslice, hmark, htick, relinked, Std.ExtTreeMap.getElem?_insert_self]

theorem Sound.completes (h : Sound pm) (hturn : pm.NextTurn owner q pid)
    (hget : pm.ownedPcb owner pid = some pcb) (hlast : pcb.remainingTime ≤ quantum q) :
    ∃ after, afterRun pm owner = some after ∧ after.pid = pid ∧ after.remainingTime = 0 ∧
      after.executedTime = pcb.totalTime := by
  have htable := (ownedPcb_eq_some.mp hget).1
  have htime := (h.healthy.wellFormed pid pcb htable).time
  have htotal := pcb.totalTime.toNat_lt
  obtain ⟨slice, hafter⟩ := afterRun_eq h.indexed hturn hget
  rw [Nat.min_eq_right (UInt32.le_iff_toNat_le.mp hlast), UInt32.ofNat_toNat] at hafter
  refine ⟨_, hafter, h.indexed.keyed pid pcb htable, by simp [ranFor], ?_⟩
  rw [← UInt32.toNat_inj]
  show (pcb.executedTime + pcb.remainingTime).toNat = _
  rw [UInt32.toNat_add, htime, Nat.mod_eq_of_lt htotal]

theorem Sound.turn_of_completes (h : Sound pm) (hc : Completes pm owner c) :
    ∃ q pcb, pm.NextTurn owner q c ∧ pm.ownedPcb owner c = some pcb ∧
      pcb.remainingTime ≤ quantum q := by
  obtain ⟨after, hafter, rfl, hzero⟩ := hc
  cases hsel : pm.selectedPid owner with
  | none =>
    have hpick : (pm.cleanupInvalidReadyQueueEntries.1.pickNextReadyProcess owner).2 = none := hsel
    unfold afterRun at hafter
    split at hafter
    · cases hafter
    next hpick' =>
      rw [hpick'] at hpick
      cases hpick
  | some pid =>
    obtain ⟨q, hturn⟩ := h.indexed.selectedPid_eq_some.mp hsel
    obtain ⟨pcb, hget, -, -⟩ := h.indexed.nextTurn_pcb hturn
    obtain ⟨slice, hran⟩ := afterRun_eq h.indexed hturn hget
    cases hafter.symm.trans hran
    have hpid : pcb.pid = pid := h.indexed.keyed pid pcb (ownedPcb_eq_some.mp hget).1
    refine ⟨q, pcb, by rw [← hpid] at hturn; exact hturn, by rw [← hpid] at hget; exact hget, ?_⟩
    -- with more than a quantum left the remaining time does not come down to 0
    by_contra hleft
    have hlt := UInt32.lt_iff_toNat_lt.mp (UInt32.not_le.mp hleft)
    simp only [ranFor, Nat.min_eq_left hlt.le, UInt32.ofNat_toNat] at hzero
    have hsub := UInt32.toNat_sub_of_le pcb.remainingTime (quantum q) (UInt32.le_iff_toNat_le.mpr hlt.le)
    rw [hzero, UInt32.toNat_zero] at hsub
    omega

inductive TurnCase (owner : Str) (pm : ProcessManager) : ProcessManager → Prop
  | idle (hidle : ¬pm.HasReady owner) : TurnCase owner pm pm
  | complete (q : Fin 3) (pid : UInt32) (pcb : PCB) (hturn : pm.NextTurn owner q pid)
      (hget : pm.ownedPcb owner pid = some pcb) (hready : pcb.state = .ready)
      (hcompletes : ∀ c, Completes pm owner c ↔ c = pid) :
      TurnCase owner pm (pm.pruned (pm.subtree owner pid))
  | demote (q : Fin 3) (pid : UInt32) (pcb : PCB) (hturn : pm.NextTurn owner q pid)
      (hget : pm.ownedPcb owner pid = some pcb) (hready : pcb.state = .ready)
      (hlevel : pcb.queueLevel = levelOfQueue q) (hleft : quantum q < pcb.remainingTime)
      (hcompletes : ∀ c, ¬Completes pm owner c) :
      TurnCase owner pm (pm.relinked pid (afterSlice pcb))

theorem Sound.turn_case (h : Sound s.1) (owner : Str) :
    TurnCase owner s.1 (Scheduler.turn owner s).1 := by
  have ho := step_outcome owner s.2 h.indexed.keyed
  by_cases hready : s.1.HasReady owner
  · cases hsel : s.1.selectedPid owner with
    | none => exact absurd hready (h.indexed.selectedPid_eq_none.mp hsel)
    | some pid =>
      obtain ⟨q, hturn⟩ := h.indexed.selectedPid_eq_some.mp hsel
      obtain ⟨pcb, hget, hstate, hlevel⟩ := h.indexed.nextTurn_pcb hturn
      have honly : ∀ c, Completes s.1 owner c → c = pid ∧ pcb.remainingTime ≤ quantum q := by
        intro c hc
        obtain ⟨q', pcb', hturn', hget', hlast⟩ := h.turn_of_completes hc
        obtain ⟨rfl, rfl⟩ := hturn.unique hturn'
        cases hget.symm.trans hget'
        exact ⟨rfl, hlast⟩
      rcases h.indexed.outcome_turn hturn hget ho with ⟨hlast, hpm, -⟩ | ⟨hleft, hpm, -⟩
      · obtain ⟨after, hafter, hpid, hzero, -⟩ := h.completes hturn hget hlast
        rw [Scheduler.turn, hpm]
        refine .complete q pid pcb hturn hget hstate fun c => ⟨fun hc => (honly c hc).1, ?_⟩
        rintro rfl
        exact ⟨after, hafter, hpid, hzero⟩
      · rw [Scheduler.turn, hpm]
        refine .demote q pid pcb hturn hget hstate hlevel hleft fun c hc => ?_
        exact absurd hleft (UInt32.not_lt.mpr (honly c hc).2)
  · rw [h.turn_idle hready]
    exact .idle hready

/-! ## The backlog -/

theorem quantum_pos (q : Fin 3) : 0 < (quantum q).toNat := by
  revert q
  decide

/-- A step that runs a process leaves less to do. -/
theorem TurnCase.backlog_lt (h : Sound pm) (hcase : TurnCase owner pm pm')
    (hready : pm.HasReady owner) : backlog pm' owner < backlog pm owner := by
  cases hcase with
  | idle hidle => exact absurd hready hidle
  | complete q pid pcb hturn hget hstate =>
    obtain ⟨htable, howner⟩ := ownedPcb_eq_some.mp hget
    have hroot := (subtree_spec (hasProcess_iff.mpr ⟨pcb, htable, howner⟩)).1
    have hpos := UInt32.lt_iff_toNat_lt.mp (h.healthy.wellFormed pid pcb htable).remaining_pos
    refine KeyedTable.weight_lt _ (fun k => ?_) pid ?_
    · rw [pruned_getElem?]
      split
      · exact Nat.zero_le _
      · cases pm.pcbTable[k]? <;> exact Nat.le_refl _
    · rw [pruned_getElem?, if_pos hroot, htable]
      simpa [howner, hstate] using hpos
  | demote q pid pcb hturn hget hstate hlevel hleft =>
    obtain ⟨htable, howner⟩ := ownedPcb_eq_some.mp hget
    have hpos := quantum_pos q
    have hless : (afterSlice pcb).remainingTime.toNat < pcb.remainingTime.toNat := by
      have hlt := UInt32.lt_iff_toNat_lt.mp hleft
      have hsub := UInt32.toNat_sub_of_le pcb.remainingTime (quantum q) (UInt32.le_iff_toNat_le.mpr hlt.le)
      simp only [afterSlice, hlevel, timeSliceForQueue_levelOfQueue, hsub]
      omega
    have hafter : (afterSlice pcb).owner = owner ∧ (afterSlice pcb).state = .ready := ⟨howner, rfl⟩
    refine KeyedTable.weight_lt _ (fun k => ?_) pid ?_
    · rw [relinked, KeyedTable.getElem?_insert]
      split
      next heq =>
        rw [← heq, htable, Option.elim_some, Option.elim_some, if_pos hafter, if_pos ⟨howner, hstate⟩]
        exact hless.le
      next => exact Nat.le_refl _
    · rw [relinked, KeyedTable.getElem?_insert, if_pos rfl, htable, Option.elim_some,
        Option.elim_some, if_pos hafter, if_pos ⟨howner, hstate⟩]
      exact hless

/-! ## All steps -/

theorem TurnCase.origin (hcase : TurnCase owner pm pm') {pcb' : PCB}
    (hget : pm'.pcbTable[k]? = some pcb') : ∃ pcb, pm.pcbTable[k]? = some pcb ∧
      pcb'.owner = pcb.owner ∧ pcb'.totalTime = pcb.totalTime := by
  cases hcase with
  | idle => exact ⟨pcb', hget, rfl, rfl⟩
  | complete =>
    obtain ⟨-, pcb, hold, rfl⟩ := pruned_eq_some.mp hget
    exact ⟨pcb, hold, rfl, rfl⟩
  | demote q pid pcb hturn howned =>
    rw [relinked, KeyedTable.getElem?_insert] at hget
    split at hget
    next heq =>
      cases hget
      exact ⟨pcb, heq ▸ (ownedPcb_eq_some.mp howned).1, rfl, rfl⟩
    next => exact ⟨pcb', hget, rfl, rfl⟩

theorem Sound.turns_origin (h : Sound s.1) (owner : Str) {pcb' : PCB}
    (hget : (Scheduler.turns owner n s).1.pcbTable[k]? = some pcb') : ∃ pcb, s.1.pcbTable[k]? = some pcb ∧
      pcb'.owner = pcb.owner ∧ pcb'.totalTime = pcb.totalTime := by
  induction n generalizing s with
  | zero => exact ⟨pcb', hget, rfl, rfl⟩
  | succ n ih =>
    obtain ⟨mid, hmid, howner, htotal⟩ := ih (h.turn owner) hget
    obtain ⟨pcb, hold, howner', htotal'⟩ := (h.turn_case owner).origin hmid
    exact ⟨pcb, hold, howner.trans howner', htotal.trans htotal'⟩

/-- After `n` steps the owner is idle; `removed` are the processes that completed, and the
descendants that they had then. -/
structure Finished (owner : Str) (s : ProcessManager × MemoryManager) (n : ℕ)
    (removed : List UInt32) : Prop where
  mem_removed : ∀ k, k ∈ removed ↔ ∃ m < n, ∃ c, Completes (turns owner m s).1 owner c ∧
    (turns owner m s).1.Descends c k
  idle : ¬(turns owner n s).1.HasReady owner
  ready : ∀ k pcb, s.1.ownedPcb owner k = some pcb → pcb.state = .ready → k ∈ removed
  gone : ∀ k ∈ removed, (turns owner n s).1.pcbTable[k]? = none
  kept : ∀ k ∉ removed, (turns owner n s).1.pcbTable[k]? =
    s.1.pcbTable[k]?.map (dropChildren removed)

theorem dropChildren_nil (pcb : PCB) : dropChildren [] pcb = pcb := by
  simp [dropChildren]

theorem dropChildren_append (removed removed' : List UInt32) (pcb : PCB) :
    dropChildren removed' (dropChildren removed pcb) = dropChildren (removed ++ removed') pcb := by
  simp [dropChildren, List.filter_filter, Bool.and_comm]

theorem Finished.idle_start (hidle : ¬s.1.HasReady owner) : Finished owner s 0 [] where
  mem_removed k := by simp
  idle := hidle
  ready k pcb hget hready := absurd ⟨k, pcb, hget, hready⟩ hidle
  gone k hk := absurd hk List.not_mem_nil
  kept k _ := by
    have hid : dropChildren [] = id := funext dropChildren_nil
    rw [hid, Option.map_id_fun]
    rfl

theorem Finished.complete {removed : List UInt32}
    (hstep : (turn owner s).1 = s.1.pruned (s.1.subtree owner pid))
    (hhas : s.1.hasProcess owner pid) (hcompletes : ∀ c, Completes s.1 owner c ↔ c = pid)
    (hrest : Finished owner (turn owner s) n removed) :
    Finished owner s (n + 1) (s.1.subtree owner pid ++ removed) where
  mem_removed k := by
    rw [List.mem_append, hrest.mem_removed, mem_subtree_iff hhas]
    constructor
    · rintro (hdesc | ⟨m, hm, c, hc, hdesc⟩)
      · exact ⟨0, Nat.succ_pos n, pid, (hcompletes pid).mpr rfl, hdesc⟩
      · exact ⟨m + 1, Nat.succ_lt_succ hm, c, hc, hdesc⟩
    · rintro ⟨m, hm, c, hc, hdesc⟩
      cases m with
      | zero =>
        rw [(hcompletes c).mp hc] at hdesc
        exact .inl hdesc
      | succ m => exact .inr ⟨m, Nat.lt_of_succ_lt_succ hm, c, hc, hdesc⟩
  idle := hrest.idle
  ready k pcb hget hready := by
    obtain ⟨htable, howner⟩ := ownedPcb_eq_some.mp hget
    by_cases hk : k ∈ s.1.subtree owner pid
    · exact List.mem_append_left _ hk
    · refine List.mem_append_right _ (hrest.ready k (dropChildren (s.1.subtree owner pid) pcb) ?_ hready)
      rw [ownedPcb_eq_some, hstep]
      exact ⟨pruned_eq_some.mpr ⟨hk, pcb, htable, rfl⟩, howner⟩
  gone k hk := by
    by_cases hmem : k ∈ removed
    · exact hrest.gone k hmem
    · have hsub := (List.mem_append.mp hk).resolve_right hmem
      refine (hrest.kept k hmem).trans ?_
      rw [hstep, pruned_getElem?, if_pos hsub, Option.map_none]
  kept k hk := by
    rw [List.mem_append, not_or] at hk
    refine (hrest.kept k hk.2).trans ?_
    rw [hstep, pruned_getElem?, if_neg hk.1, Option.map_map]
    congr 1
    funext pcb
    exact dropChildren_append _ _ pcb

theorem Finished.demote {removed : List UInt32} (hget : s.1.ownedPcb owner pid = some pcb)
    (hstep : (turn owner s).1 = s.1.relinked pid (afterSlice pcb))
    (hcompletes : ∀ c, ¬Completes s.1 owner c) (hrest : Finished owner (turn owner s) n removed) :
    Finished owner s (n + 1) removed := by
  obtain ⟨-, howner⟩ := ownedPcb_eq_some.mp hget
  have hself : (turn owner s).1.ownedPcb owner pid = some (afterSlice pcb) := by
    rw [ownedPcb_eq_some, hstep]
    exact ⟨by simp [relinked], howner⟩
  have hother : ∀ k, k ≠ pid → (turn owner s).1.pcbTable[k]? = s.1.pcbTable[k]? := by
    intro k hk
    rw [hstep, relinked, KeyedTable.getElem?_insert, if_neg (Ne.symm hk)]
  have hpid : pid ∈ removed := hrest.ready pid _ hself rfl
  refine ⟨fun k => ?_, hrest.idle, fun k old hold hready => ?_, hrest.gone, fun k hk => ?_⟩
  · rw [hrest.mem_removed]
    constructor
    · rintro ⟨m, hm, c, hc, hdesc⟩
      exact ⟨m + 1, Nat.succ_lt_succ hm, c, hc, hdesc⟩
    · rintro ⟨m, hm, c, hc, hdesc⟩
      cases m with
      | zero => exact absurd hc (hcompletes c)
      | succ m => exact ⟨m, Nat.lt_of_succ_lt_succ hm, c, hc, hdesc⟩
  · by_cases hk : k = pid
    · rw [hk]
      exact hpid
    · refine hrest.ready k old ?_ hready
      rw [ownedPcb_eq_some, hother k hk]
      exact ownedPcb_eq_some.mp hold
  · have hne : k ≠ pid := fun heq => hk (heq ▸ hpid)
    rw [← hother k hne]
    exact hrest.kept k hk

theorem Sound.exists_finished (h : Sound s.1) (owner : Str) :
    ∃ n ≤ backlog s.1 owner, ∃ removed, Finished owner s n removed := by
  induction hbacklog : backlog s.1 owner using Nat.strong_induction_on generalizing s with
  | _ b ih =>
    subst hbacklog
    have hcase := h.turn_case owner
    by_cases hready : s.1.HasReady owner
    · have hless := hcase.backlog_lt h hready
      obtain ⟨n, hn, removed, hrest⟩ := ih _ hless (h.turn owner) rfl
      generalize hpm : (Scheduler.turn owner s).1 = pm' at hcase
      cases hcase with
      | idle hidle => exact absurd hready hidle
      | complete q pid pcb hturn hget _ hcompletes =>
        have hhas : s.1.hasProcess owner pid := by simp [hasProcess, hget]
        exact ⟨n + 1, by omega, _, hrest.complete hpm hhas hcompletes⟩
      | demote q pid pcb hturn hget _ _ _ hcompletes =>
        exact ⟨n + 1, by omega, removed, hrest.demote hget hpm hcompletes⟩
    · exact ⟨0, Nat.zero_le _, [], .idle_start hready⟩

end Scheduler

namespace World

open Kernel Scheduler

/-- From every state of a run without `load` that starts without processes, the steps of one
owner come to the idle outcome within as many steps as its READY processes have time left.
Every one of them has completed with its total time, or has gone with an ancestor that
completed.  What was not READY and had no completed ancestor is still there and has lost
nothing but removed children. -/
theorem scheduling_finishes {w : World} {events : List Event}
    (hempty : w.kernel.processManager = {})
    (hload : NoLoad events) (owner : Str) :
    let k := (Runs.run step w events).kernel
    let state := fun m => turns owner m (k.processManager, k.memoryManager)
    ∃ n ≤ backlog k.processManager owner, ∃ removed : List UInt32,
      (∀ pid, pid ∈ removed ↔ ∃ m < n, ∃ c, Completes (state m).1 owner c ∧
        (state m).1.Descends c pid) ∧
      ¬(state n).1.HasReady owner ∧ turn owner (state n) = state n ∧
      (∀ pid pcb, k.processManager.ownedPcb owner pid = some pcb → pcb.state = .ready →
        (state n).1.pcbTable[pid]? = none ∧
        ((∃ m < n, ∃ after, afterRun (state m).1 owner = some after ∧ after.pid = pid ∧
            after.remainingTime = 0 ∧ after.executedTime = pcb.totalTime) ∨
          ∃ m < n, ∃ c, c ≠ pid ∧ Completes (state m).1 owner c ∧ (state m).1.Descends c pid)) ∧
      ∀ pid pcb, k.processManager.ownedPcb owner pid = some pcb → pid ∉ removed →
        pcb.state ≠ .ready ∧ (state n).1.pcbTable[pid]? =
          some { pcb with children := pcb.children.filter (· ∉ removed) } := by
  intro k state
  have hsound : Sound (state 0).1 := ⟨indexed_run hempty hload, healthy_run hempty hload⟩
  obtain ⟨n, hn, removed, hfinished⟩ := hsound.exists_finished owner
  refine ⟨n, hn, removed, hfinished.mem_removed, hfinished.idle,
    (hsound.turns owner n).turn_idle hfinished.idle, fun pid pcb hget hready => ?_,
    fun pid pcb hget hkept => ⟨fun hready => hkept (hfinished.ready pid pcb hget hready), ?_⟩⟩
  · have hremoved := hfinished.ready pid pcb hget hready
    refine ⟨hfinished.gone pid hremoved, ?_⟩
    obtain ⟨m, hm, c, hc, hdesc⟩ := (hfinished.mem_removed pid).mp hremoved
    by_cases hself : c = pid
    · subst hself
      have hm' := hsound.turns owner m
      obtain ⟨q, now, hturn, hnow, hlast⟩ := hm'.turn_of_completes hc
      obtain ⟨after, hafter, hpid, hzero, htotal⟩ := hm'.completes hturn hnow hlast
      obtain ⟨first, hfirst, -, hsame⟩ := hsound.turns_origin owner (ownedPcb_eq_some.mp hnow).1
      cases hfirst.symm.trans (ownedPcb_eq_some.mp hget).1
      exact .inl ⟨m, hm, after, hafter, hpid, hzero, htotal.trans hsame⟩
    · exact .inr ⟨m, hm, c, hself, hc, hdesc⟩
  · refine (hfinished.kept pid hkept).trans ?_
    show (k.processManager.pcbTable[pid]?).map _ = _
    rw [(ownedPcb_eq_some.mp hget).1]
    rfl

/-- A parent with a longer child, which goes with it, and a process of another user. -/
theorem scheduling_finishes_family :
    let w : World := { kernel := Kernel.start {} ∅ }
    let events := [console "register a pw", console "register b pw", console "login a pw",
      console "create_pcb p 4 8 9", console "create_pcb c 4 9 30 1", console "logout",
      console "login b pw", console "create_pcb q 4 8 20"]
    let k := (Runs.run step w events).kernel
    backlog k.processManager (str "a") = 39 ∧
      ∃ n ≤ backlog k.processManager (str "a"),
        ¬(turns (str "a") n (k.processManager, k.memoryManager)).1.HasReady (str "a") := by
  intro w events k
  have hempty : w.kernel.processManager = {} := (clean_start {} ∅ fun _ h => by cases h).processes
  obtain ⟨n, hn, -, -, hidle, -⟩ := scheduling_finishes (w := w) hempty
    (show NoLoad events by decide) (str "a")
  exact ⟨by decide +kernel, n, hn, hidle⟩

end World

end OSCoreSim
