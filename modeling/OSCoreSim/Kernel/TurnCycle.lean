import OSCoreSim.Kernel.Turns
import OSCoreSim.Lib.RoundRobin
/-!
# Round robin in the lowest queue

Once the processes of an owner stand in queue 2 only, its steps serve its own entries of that
queue in turn: a process that runs goes to the tail, one that completes leaves with its
descendants.  Entries of other users stand between them and are passed over.
-/

namespace OSCoreSim

open ProcessManager RoundRobin

namespace ProcessManager

variable {pm pm' : ProcessManager} {owner : Str} {pid k : UInt32} {q : Fin 3}

def ownQueue (pm : ProcessManager) (owner : Str) (q : Fin 3) : List UInt32 :=
  (pm.readyQueues q).filter (pm.hasProcess owner)

def OnlyLowest (pm : ProcessManager) (owner : Str) : Prop :=
  ∀ q < 2, ∀ k ∈ pm.readyQueues q, pm.hasProcess owner k = false

theorem NextTurn.head_ownQueue (h : pm.NextTurn owner q pid) :
    (pm.ownQueue owner q).head? = some pid := by
  rw [ownQueue, List.head?_filter]
  exact h.first

theorem OnlyLowest.queue_eq (h : pm.OnlyLowest owner) (hturn : pm.NextTurn owner q pid) :
    q = 2 := by
  by_contra hne
  have hlt : q < 2 := lt_of_le_of_ne (Fin.le_last q) hne
  have hhas : pm.hasProcess owner pid = true := List.find?_some hturn.first
  rw [h q hlt pid (List.mem_of_find?_eq_some hturn.first)] at hhas
  cases hhas

theorem OnlyLowest.selectedPid_eq (h : pm.OnlyLowest owner) (hindexed : Indexed pm) :
    pm.selectedPid owner = (pm.ownQueue owner 2).head? := by
  cases hsel : pm.selectedPid owner with
  | some pid =>
    obtain ⟨q, hturn⟩ := hindexed.selectedPid_eq_some.mp hsel
    rw [← h.queue_eq hturn, hturn.head_ownQueue]
  | none =>
    cases hhead : (pm.ownQueue owner 2).head? with
    | none => rfl
    | some pid =>
      rw [ownQueue, List.head?_filter] at hhead
      have hturn := hindexed.selectedPid_eq_some.mpr ⟨2, hhead, h⟩
      rw [hsel] at hturn
      cases hturn

theorem OnlyLowest.mem_ownQueue {pcb : PCB} (h : pm.OnlyLowest owner) (hindexed : Indexed pm)
    (hget : pm.ownedPcb owner k = some pcb) (hready : pcb.state = .ready) :
    k ∈ pm.ownQueue owner 2 := by
  obtain ⟨htable, howner⟩ := ownedPcb_eq_some.mp hget
  have hhas : pm.hasProcess owner k = true := hasProcess_iff.mpr ⟨pcb, htable, howner⟩
  obtain ⟨q, hq⟩ := hindexed.level k pcb htable
  have hqueue : k ∈ pm.readyQueues q :=
    (hindexed.mem_iff q k).mpr ⟨pcb, htable, readyLevel_eq_some.mpr ⟨hready, hq⟩⟩
  have hlowest : q = 2 := by
    by_contra hne
    rw [h q (lt_of_le_of_ne (Fin.le_last q) hne) k hqueue] at hhas
    cases hhas
  exact List.mem_filter.mpr ⟨hlowest ▸ hqueue, hhas⟩

theorem ownQueue_pruned (removed : List UInt32) :
    (pm.pruned removed).ownQueue owner q = (pm.ownQueue owner q).filter (· ∉ removed) := by
  have hqueue : (pm.pruned removed).readyQueues q = (pm.readyQueues q).filter (· ∉ removed) := rfl
  rw [ownQueue, ownQueue, hqueue, List.filter_filter, List.filter_filter]
  refine List.filter_congr fun k _ => ?_
  rw [hasProcess_pruned]
  by_cases hk : k ∈ removed <;> simp [hk]

theorem ownQueue_relinked {pcb : PCB} (pcb' : PCB) (hget : pm.ownedPcb owner pid = some pcb)
    (howner : pcb'.owner = pcb.owner) : (pm.relinked pid pcb').ownQueue owner q =
      (pm.ownQueue owner q).filter (· ≠ pid) ++ if readyLevel pcb' = some q then [pid] else [] := by
  obtain ⟨htable, hown⟩ := ownedPcb_eq_some.mp hget
  have hhas : pm.hasProcess owner pid = true := hasProcess_iff.mpr ⟨pcb, htable, hown⟩
  have hsame : (pm.relinked pid pcb').hasProcess owner = pm.hasProcess owner :=
    funext fun k => hasProcess_insert htable howner rfl
  rw [ownQueue, ownQueue, hsame]
  simp only [relinked, requeued, List.filter_append, List.filter_filter]
  congr 1
  · exact List.filter_congr fun k _ => Bool.and_comm _ _
  · split <;> simp [hhas]

end ProcessManager

namespace Scheduler

variable {owner : Str} {pm pm' : ProcessManager} {q : Fin 3} {k pid : UInt32}

theorem OnlyLowest.of_ownQueue (h : pm.OnlyLowest owner)
    (hsub : ∀ q < 2, pm'.ownQueue owner q ⊆ pm.ownQueue owner q) : pm'.OnlyLowest owner := by
  intro q hq k hk
  by_contra hhas
  have hmem : k ∈ pm'.ownQueue owner q := List.mem_filter.mpr ⟨hk, by simpa using hhas⟩
  obtain ⟨hold, hhas'⟩ := List.mem_filter.mp (hsub q hq hmem)
  rw [h q hq k hold] at hhas'
  cases hhas'

/-- A step of an owner with entries in queue 2 only serves these entries once. -/
theorem TurnCase.serves (h : Sound pm) (hcase : TurnCase owner pm pm') (hready : pm.HasReady owner)
    (honly : pm.OnlyLowest owner) :
    pm'.OnlyLowest owner ∧ Serves (pm.ownQueue owner 2) (pm'.ownQueue owner 2) := by
  cases hcase with
  | idle hidle => exact absurd hready hidle
  | complete q pid pcb hturn hget =>
    obtain rfl := honly.queue_eq hturn
    have hhas : pm.hasProcess owner pid := by simp [hasProcess, hget]
    have hroot := (subtree_spec hhas).1
    obtain ⟨rest, hqueue⟩ := List.head?_eq_some_iff.mp hturn.head_ownQueue
    refine ⟨OnlyLowest.of_ownQueue honly fun q _ => ?_, ?_⟩
    · rw [ownQueue_pruned]
      exact List.filter_subset_self _
    · rw [ownQueue_pruned, hqueue]
      exact .leave pid rest _ hroot
  | demote q pid pcb hturn hget hstate hlevel =>
    obtain rfl := honly.queue_eq hturn
    obtain ⟨rest, hqueue⟩ := List.head?_eq_some_iff.mp hturn.head_ownQueue
    have hbelow : (afterSlice pcb).queueLevel = levelOfQueue 2 := by
      show demotedLevel pcb.queueLevel = _
      rw [hlevel, demotedLevel_levelOfQueue]
      rfl
    have hlast : readyLevel (afterSlice pcb) = some 2 := readyLevel_levelOfQueue rfl hbelow
    refine ⟨OnlyLowest.of_ownQueue honly fun q hq => ?_, ?_⟩
    · rw [ownQueue_relinked (afterSlice pcb) hget rfl, hlast, if_neg (by simpa using hq.ne'),
        List.append_nil]
      exact List.filter_subset_self _
    · have hnodup : (pid :: rest).Nodup := hqueue ▸ (h.indexed.nodup 2).filter _
      have hrest : rest.filter (· ≠ pid) = rest := List.filter_eq_self.mpr fun k hk => by
        simpa using fun heq : k = pid => (List.nodup_cons.mp hnodup).1 (heq ▸ hk)
      rw [ownQueue_relinked (afterSlice pcb) hget rfl, hlast, if_pos rfl, hqueue, List.filter_cons]
      simp only [ne_eq, not_true_eq_false, decide_false, Bool.false_eq_true, if_false, hrest]
      exact .rotate pid rest

/-- An entry that leaves without being served is a descendant of the process that completes. -/
theorem TurnCase.left (h : Sound pm) (hcase : TurnCase owner pm pm') {r : UInt32}
    (hmem : r ∈ pm.ownQueue owner 2) (hgone : r ∉ pm'.ownQueue owner 2)
    (hother : pm.selectedPid owner ≠ some r) :
    (∃ c, c ≠ r ∧ Completes pm owner c ∧ pm.Descends c r) ∧ pm'.pcbTable[r]? = none := by
  cases hcase with
  | idle => exact absurd hmem hgone
  | complete q pid pcb hturn hget _ hcompletes =>
    have hhas : pm.hasProcess owner pid := by simp [hasProcess, hget]
    have hremoved : r ∈ pm.subtree owner pid := by
      by_contra hnot
      rw [ownQueue_pruned] at hgone
      exact hgone (List.mem_filter.mpr ⟨hmem, by simpa using hnot⟩)
    refine ⟨⟨pid, ?_, (hcompletes pid).mpr rfl, (mem_subtree_iff hhas).mp hremoved⟩, ?_⟩
    · rintro rfl
      exact hother (h.indexed.selectedPid_eq_some.mpr ⟨q, hturn⟩)
    · rw [pruned_getElem?, if_pos hremoved]
  | demote q pid pcb hturn hget =>
    have hne : r ≠ pid := by
      rintro rfl
      exact hother (h.indexed.selectedPid_eq_some.mpr ⟨q, hturn⟩)
    rw [ownQueue_relinked (afterSlice pcb) hget rfl] at hgone
    exact absurd (List.mem_append_left _ (List.mem_filter.mpr ⟨hmem, by simpa using hne⟩)) hgone

end Scheduler

namespace World

open Kernel Scheduler

/-- Steps of one owner in a row, from any state of a run without `load` that starts without
processes: between two selections of a process from queue 2 every other process that was READY
is selected exactly once, or goes before its turn with an ancestor that completes. -/
theorem selected_once_per_cycle {w : World} {events : List Event}
    (hempty : w.kernel.processManager = {}) (hload : NoLoad events) (owner : Str) :
    let k := (Runs.run step w events).kernel
    let state := fun m => (turns owner m (k.processManager, k.memoryManager)).1
    ∀ i j p, (state i).NextTurn owner 2 p → i < j → (state j).selectedPid owner = some p →
      (∀ m, i < m → m < j → (state m).selectedPid owner ≠ some p) →
      ∀ r pcb, (state i).ownedPcb owner r = some pcb → pcb.state = .ready → r ≠ p →
        (∃! m, i < m ∧ m < j ∧ (state m).selectedPid owner = some r) ∨
        ∃ m, i ≤ m ∧ m < j ∧
          (∃ c, c ≠ r ∧ Completes (state m) owner c ∧ (state m).Descends c r) ∧
          (state (m + 1)).pcbTable[r]? = none ∧
          ∀ m', i ≤ m' → m' ≤ m → (state m').selectedPid owner ≠ some r := by
  intro k state i j p hfirst hij hagain hnext r pcb hget hready' hne
  have hstart : Sound (k.processManager, k.memoryManager).1 :=
    ⟨indexed_run hempty hload, healthy_run hempty hload⟩
  have hsound : ∀ m, Sound (state m) := fun m => hstart.turns owner m
  have hcase : ∀ m, TurnCase owner (state m) (state (m + 1)) := by
    intro m
    have hturn := (hstart.turns owner m).turn_case owner
    rwa [← turns_succ] at hturn
  -- an idle state would last until step `j`
  have hready : ∀ m, i ≤ m → m < j → (state m).HasReady owner := by
    intro m _ hmj
    by_contra hidle
    have hsame : state j = state m := by
      have hadd := turns_add owner m (j - m) (k.processManager, k.memoryManager)
      rw [(hstart.turns owner m).turns_idle hidle, Nat.add_sub_cancel' hmj.le] at hadd
      exact congrArg Prod.fst hadd
    rw [hsame, (hsound m).indexed.selectedPid_eq_none.mpr hidle] at hagain
    cases hagain
  have honly : ∀ m, i ≤ m → m ≤ j → (state m).OnlyLowest owner := by
    intro m him
    induction m, him using Nat.le_induction with
    | base => exact fun _ => hfirst.lowest
    | succ m him ih =>
      exact fun hmj => ((hcase m).serves (hsound m) (hready m him hmj) (ih (by omega))).1
  have hselect : ∀ m, i ≤ m → m ≤ j → (state m).selectedPid owner =
      ((state m).ownQueue owner 2).head? :=
    fun m him hmj => (honly m him hmj).selectedPid_eq (hsound m).indexed
  have hfirst' : (state i).selectedPid owner = some p :=
    (hsound i).indexed.selectedPid_eq_some.mpr ⟨2, hfirst⟩
  have hmem : r ∈ (state i).ownQueue owner 2 :=
    (honly i (Nat.le_refl i) hij.le).mem_ownQueue (hsound i).indexed hget hready'
  have honce := served_once (fun m => (state m).ownQueue owner 2)
    (((hsound i).indexed.nodup 2).filter _)
    (fun m him hmj => ((hcase m).serves (hsound m) (hready m him hmj) (honly m him hmj.le)).2) hij
    hfirst.head_ownQueue (hselect j hij.le (Nat.le_refl j) ▸ hagain)
    (fun m him hmj => hselect m him.le hmj.le ▸ hnext m him hmj) hmem hne
  rcases honce with ⟨m, ⟨him, hmj, hhead⟩, hunique⟩ | ⟨m, him, hmj, hin, hout, hnot⟩
  · refine .inl ⟨m, ⟨him, hmj, (hselect m him.le hmj.le).trans hhead⟩, ?_⟩
    rintro m' ⟨him', hmj', hsel⟩
    exact hunique m' ⟨him', hmj', hselect m' him'.le hmj'.le ▸ hsel⟩
  · have hwaits : ∀ m', i ≤ m' → m' ≤ m → (state m').selectedPid owner ≠ some r := by
      intro m' him' hm'
      rcases Nat.eq_or_lt_of_le him' with rfl | hlt
      · rw [hfirst']
        exact fun heq => hne (Option.some.inj heq).symm
      · rw [hselect m' him' (by omega)]
        exact hnot m' hlt hm'
    obtain ⟨hcause, hgone⟩ := (hcase m).left (hsound m) hin hout (hwaits m him (Nat.le_refl m))
    exact .inr ⟨m, him, hmj, hcause, hgone, hwaits⟩

/-- Two processes of one user with an entry of another user between them. -/
theorem selected_once_per_cycle_shared :
    let w : World := { kernel := Kernel.start {} ∅ }
    let events := [console "register a pw", console "register b pw", console "login a pw",
      console "create_pcb p 4 8 20", console "logout", console "login b pw",
      console "create_pcb q 4 8 20", console "logout", console "login a pw",
      console "create_pcb r 4 8 20"]
    let k := (Runs.run step w events).kernel
    let state := fun m => (turns (str "a") m (k.processManager, k.memoryManager)).1
    (∃! m, 0 < m ∧ m < 2 ∧ (state m).selectedPid (str "a") = some 3) ∨
    ∃ m, 0 ≤ m ∧ m < 2 ∧
      (∃ c, c ≠ 3 ∧ Completes (state m) (str "a") c ∧ (state m).Descends c 3) ∧
      (state (m + 1)).pcbTable[(3 : UInt32)]? = none ∧
      ∀ m', 0 ≤ m' → m' ≤ m → (state m').selectedPid (str "a") ≠ some 3 := by
  intro w events k state
  have hempty : w.kernel.processManager = {} := (clean_start {} ∅ fun _ h => by cases h).processes
  have hstate : ((state 0).ownedPcb (str "a") 3).map (·.state) = some .ready := by decide +kernel
  obtain ⟨pcb, hget, hready⟩ := Option.map_eq_some_iff.mp hstate
  have hfirst : (state 0).NextTurn (str "a") 2 1 :=
    nextTurn_of_empty (by decide +kernel) (by decide +kernel)
  refine selected_once_per_cycle hempty (by decide) (str "a") 0 2 1 hfirst (by decide)
    (by decide +kernel) (fun m hm hm' => ?_) 3 pcb hget hready (by decide)
  obtain rfl : m = 1 := by omega
  show (state 1).selectedPid (str "a") ≠ some 1
  decide +kernel

end World

end OSCoreSim
