import OSCoreSim.Process.KillSubtree
/-!
# Whose turn it is

In a state whose queues index the READY processes, `pickNextReadyProcess` takes the first
process of the owner in the lowest queue that holds one.  Entries of other users are passed
over and keep their place.
-/

namespace OSCoreSim

namespace ProcessManager

variable {pm : ProcessManager} {owner : Str} {pid k : UInt32} {pcb : PCB} {q : Fin 3}

/-- The processes of `owner` in the order in which the queues are scanned. -/
def turnOrder (pm : ProcessManager) (owner : Str) : List UInt32 :=
  ((List.finRange 3).flatMap pm.readyQueues).filter (pm.hasProcess owner)

structure NextTurn (pm : ProcessManager) (owner : Str) (q : Fin 3) (pid : UInt32) : Prop where
  first : (pm.readyQueues q).find? (pm.hasProcess owner) = some pid
  lowest : ∀ q' < q, ∀ k ∈ pm.readyQueues q', pm.hasProcess owner k = false

theorem nextTurn_of_empty (hfirst : (pm.readyQueues q).find? (pm.hasProcess owner) = some pid)
    (hempty : ∀ q' < q, pm.readyQueues q' = []) : pm.NextTurn owner q pid where
  first := hfirst
  lowest q' hq k hmem := by
    rw [hempty q' hq] at hmem
    cases hmem

def HasReady (pm : ProcessManager) (owner : Str) : Prop :=
  ∃ pid pcb, pm.ownedPcb owner pid = some pcb ∧ pcb.state = .ready

/-! ## The pick as a search -/

theorem pickFromQueue_snd (owner : Str) {queue : List UInt32}
    (h : ∀ k ∈ queue, pm.isSchedulable k) :
    (pm.pickFromQueue owner queue).2 = queue.find? (pm.hasProcess owner) := by
  induction queue with
  | nil => rfl
  | cons k rest ih =>
    rw [pickFromQueue_cons owner (h k List.mem_cons_self), List.find?_cons]
    cases pm.hasProcess owner k with
    | true => rfl
    | false => exact ih fun x hx => h x (List.mem_cons_of_mem k hx)

theorem pickFromLevels_snd (owner : Str) {queues : ReadyQueues}
    (h : ∀ q, ∀ k ∈ queues q, pm.isSchedulable k) (levels : List (Fin 3)) :
    (pm.pickFromLevels owner levels queues).2 =
      (levels.flatMap queues).find? (pm.hasProcess owner) := by
  induction levels with
  | nil => rfl
  | cons q rest ih =>
    have hsnd := pickFromQueue_snd owner (h q)
    rw [List.flatMap_cons, List.find?_append, ← hsnd]
    unfold pickFromLevels
    rcases pickFromQueue_spec owner (h q) with ⟨heq, -⟩ | ⟨l, k, r, -, heq, -⟩
    · simp only [heq, Function.update_eq_self, ih, Option.none_or]
    · simp only [heq, Option.some_or]

theorem Indexed.selectedPid_eq (h : Indexed pm) (owner : Str) :
    pm.selectedPid owner = (pm.turnOrder owner).head? := by
  have hsched : ∀ q, ∀ k ∈ pm.cleaned.readyQueues q, pm.cleaned.isSchedulable k :=
    fun q k hk => (List.mem_filter.mp hk).2
  have hpick : pm.selectedPid owner = ((List.finRange 3).flatMap pm.cleaned.readyQueues).find?
      (pm.cleaned.hasProcess owner) := pickFromLevels_snd owner hsched (List.finRange 3)
  rw [hpick, h.cleaned_eq, turnOrder, List.head?_filter]

/-! ## The next turn -/

theorem Indexed.mem_turnOrder (h : Indexed pm) : k ∈ pm.turnOrder owner ↔
    ∃ pcb, pm.ownedPcb owner k = some pcb ∧ pcb.state = .ready := by
  simp only [turnOrder, List.mem_filter, List.mem_flatMap, List.mem_finRange, true_and, h.mem_iff,
    hasProcess_iff, ownedPcb_eq_some]
  constructor
  · rintro ⟨⟨q, pcb, hget, hlevel⟩, found, hfound, howner⟩
    rw [hget] at hfound
    cases hfound
    exact ⟨pcb, ⟨hget, howner⟩, (readyLevel_eq_some.mp hlevel).1⟩
  · rintro ⟨pcb, ⟨hget, howner⟩, hready⟩
    obtain ⟨q, hq⟩ := h.level k pcb hget
    exact ⟨⟨q, pcb, hget, readyLevel_eq_some.mpr ⟨hready, hq⟩⟩, pcb, hget, howner⟩

theorem Indexed.selectedPid_eq_none (h : Indexed pm) :
    pm.selectedPid owner = none ↔ ¬pm.HasReady owner := by
  rw [h.selectedPid_eq, List.head?_eq_none_iff, List.eq_nil_iff_forall_not_mem]
  simp only [h.mem_turnOrder, HasReady, not_exists]

theorem nextTurn_iff : (pm.turnOrder owner).head? = some pid ↔ ∃ q, pm.NextTurn owner q pid := by
  rw [turnOrder, List.head?_filter, List.find?_flatMap]
  constructor
  · intro hfind
    obtain ⟨before, q, after, hlevels, hfirst, hbefore⟩ := List.findSome?_eq_some_iff.mp hfind
    refine ⟨q, hfirst, fun q' hlt k hk => ?_⟩
    have hsorted : (before ++ q :: after).Pairwise (· < ·) := hlevels ▸ List.pairwise_lt_finRange 3
    have hmem : q' ∈ before ++ q :: after := hlevels ▸ List.mem_finRange q'
    rcases List.mem_append.mp hmem with hmem | hmem
    · simpa using List.find?_eq_none.mp (hbefore q' hmem) k hk
    · rcases List.mem_cons.mp hmem with rfl | hmem
      · exact absurd hlt (lt_irrefl q')
      · have hlt' := List.rel_of_pairwise_cons (List.pairwise_append.mp hsorted).2.1 hmem
        exact absurd hlt (lt_asymm hlt')
  · rintro ⟨q, hfirst, hlowest⟩
    obtain ⟨before, after, hlevels⟩ := List.append_of_mem (List.mem_finRange q)
    refine List.findSome?_eq_some_iff.mpr ⟨before, q, after, hlevels, hfirst, fun q' hmem => ?_⟩
    have hsorted : (before ++ q :: after).Pairwise (· < ·) := hlevels ▸ List.pairwise_lt_finRange 3
    have hlt : q' < q := (List.pairwise_append.mp hsorted).2.2 q' hmem q List.mem_cons_self
    exact List.find?_eq_none.mpr fun k hk => by simp [hlowest q' hlt k hk]

/-- The selected process is the first of the owner in the lowest queue that holds one. -/
theorem Indexed.selectedPid_eq_some (h : Indexed pm) :
    pm.selectedPid owner = some pid ↔ ∃ q, pm.NextTurn owner q pid := by
  rw [h.selectedPid_eq, nextTurn_iff]

theorem Indexed.nextTurn_pcb (h : Indexed pm) (hturn : pm.NextTurn owner q pid) :
    ∃ pcb, pm.ownedPcb owner pid = some pcb ∧ pcb.state = .ready ∧ pcb.queueLevel = levelOfQueue q := by
  have hmem := List.mem_of_find?_eq_some hturn.first
  obtain ⟨pcb, hget, hlevel⟩ := (h.mem_iff q pid).mp hmem
  obtain ⟨found, hfound, howner⟩ := hasProcess_iff.mp (List.find?_some hturn.first)
  rw [hget] at hfound
  cases hfound
  obtain ⟨hready, hq⟩ := readyLevel_eq_some.mp hlevel
  exact ⟨pcb, ownedPcb_eq_some.mpr ⟨hget, howner⟩, hready, queueIndex_eq_some.mp hq⟩

theorem NextTurn.unique {q' : Fin 3} {pid' : UInt32} (h : pm.NextTurn owner q pid)
    (h' : pm.NextTurn owner q' pid') : q = q' ∧ pid = pid' := by
  have hmem := List.mem_of_find?_eq_some h.first
  have hmem' := List.mem_of_find?_eq_some h'.first
  have hhas : pm.hasProcess owner pid = true := List.find?_some h.first
  have hhas' : pm.hasProcess owner pid' = true := List.find?_some h'.first
  rcases lt_trichotomy q q' with hlt | rfl | hlt
  · rw [h'.lowest q hlt pid hmem] at hhas
    cases hhas
  · exact ⟨rfl, Option.some.inj (h.first.symm.trans h'.first)⟩
  · rw [h.lowest q' hlt pid' hmem'] at hhas'
    cases hhas'

/-! ## Quanta -/

def quantum (q : Fin 3) : UInt32 := if q = 0 then 2 else if q = 1 then 4 else 8

def queueBelow (q : Fin 3) : Fin 3 := ⟨min (q.val + 1) 2, by omega⟩

theorem timeSliceForQueue_levelOfQueue (q : Fin 3) :
    timeSliceForQueue (levelOfQueue q) = quantum q := by
  revert q
  decide

theorem demotedLevel_levelOfQueue (q : Fin 3) :
    demotedLevel (levelOfQueue q) = levelOfQueue (queueBelow q) := by
  revert q
  decide

theorem readyLevel_levelOfQueue (hready : pcb.state = .ready)
    (hlevel : pcb.queueLevel = levelOfQueue q) :
    readyLevel pcb = some q :=
  readyLevel_eq_some.mpr ⟨hready, queueIndex_eq_some.mpr hlevel⟩

/-! ## What a step does -/

variable {pm' : ProcessManager} {mm mm' : MemoryManager}

theorem Indexed.outcome_idle (h : Indexed pm) (hidle : ¬pm.HasReady owner)
    (ho : Scheduler.Outcome owner pm mm pm' mm') : pm' = pm ∧ mm' = mm := by
  have hnone := h.selectedPid_eq_none.mpr hidle
  cases ho with
  | idle => exact ⟨h.cleaned_eq, rfl⟩
  | requeue pid pcb hsel | finish pid pcb hsel =>
    rw [hnone] at hsel
    cases hsel

/-- The process whose turn it is completes or is demoted, depending on its remaining time. -/
theorem Indexed.outcome_turn (h : Indexed pm) (hturn : pm.NextTurn owner q pid)
    (hget : pm.ownedPcb owner pid = some pcb) (ho : Scheduler.Outcome owner pm mm pm' mm') :
    pcb.remainingTime ≤ quantum q ∧ pm' = pm.pruned (pm.subtree owner pid) ∧
        mm' = (Scheduler.releaseAll owner mm (pm.subtree owner pid)).1 ∨
      quantum q < pcb.remainingTime ∧ pm' = pm.relinked pid (ProcessManager.afterSlice pcb) ∧ mm' = mm := by
  have hsel := h.selectedPid_eq_some.mpr ⟨q, hturn⟩
  obtain ⟨found, hfound, -, hlevel⟩ := h.nextTurn_pcb hturn
  cases hget.symm.trans hfound
  have hslice : timeSliceForQueue pcb.queueLevel = quantum q := by
    rw [hlevel, timeSliceForQueue_levelOfQueue]
  cases ho with
  | idle hnone =>
    rw [hnone] at hsel
    cases hsel
  | requeue pid' pcb' hsel' hget' _ _ hleft =>
    cases hsel.symm.trans hsel'
    cases hget.symm.trans hget'
    rw [hslice] at hleft
    rw [h.cleaned_eq]
    exact .inr ⟨hleft, rfl, rfl⟩
  | finish pid' pcb' hsel' hget' _ _ hlast =>
    cases hsel.symm.trans hsel'
    cases hget.symm.trans hget'
    rw [hslice] at hlast
    rw [h.cleaned_eq]
    exact .inl ⟨hlast, rfl, rfl⟩

end ProcessManager

end OSCoreSim
