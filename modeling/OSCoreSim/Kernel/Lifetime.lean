import OSCoreSim.Lib.Simulation
import OSCoreSim.Kernel.Orders
import OSCoreSim.Kernel.PidIssue
import OSCoreSim.Kernel.PidReuse
/-!
# The life of a process in a run

Seen from one process, a run is the sequence of the orders that it is given: the commands of its
owner about it and the turns of the scheduler that are its own.  As long as it is there, its PCB is
that of the automaton `Life` behind these orders, whatever else happens in between.
-/

namespace OSCoreSim

open ProcessManager CommandDispatcher Kernel

theorem Scheduler.Sound.settled {pm : ProcessManager} {pid : UInt32} {pcb : PCB}
    (h : Scheduler.Sound pm) (hget : pm.pcbTable[pid]? = some pcb) : Settled pcb where
  not_running := by
    rcases (h.healthy.wellFormed pid pcb hget).state with h | h | h | h | h <;> simp [h]
  swapped := h.indexed.swapped pid pcb hget
  level := by
    obtain ⟨q, hq⟩ := h.indexed.level pid pcb hget
    exact ⟨q, queueIndex_eq_some.mp hq⟩

namespace World

variable {w : World} {event : Event} {events : List Event} {owner : Str} {pid : UInt32}
  {pcb pcb' : PCB} {l : Life} {n : ℕ}

/-- The user for whom the scheduler takes a turn at this event. -/
def turnOf (w : World) : Event → Option Str
  | .request _ request =>
    if (parse request.rawLine).AsksTurn then w.kernel.userManager.currentUser else none
  | .tick =>
    if w.kernel.schedulerRunning ∧ w.kernel.schedulerOwner ≠ [] then some w.kernel.schedulerOwner
    else none

/-- The order that an event is for the process `pid`. -/
def orderFor (pid : UInt32) (w : World) (event : Event) : List Order :=
  match w.turnOf event with
  | some owner =>
    if (w.kernel.processManager.turnOrder owner).head? = some pid then [.turn] else []
  | none =>
    match event.command.bind Command.order, w.kernel.userManager.currentUser with
    | some (target, order), some owner =>
      if target = pid ∧ w.kernel.processManager.hasProcess owner pid then [order] else []
    | _, _ => []

structure Tended (n : ℕ) (w : World) : Prop where
  regular : Regular n w.kernel
  healthy : Healthy w.kernel.processManager

theorem Tended.sound (h : Tended n w) : Scheduler.Sound w.kernel.processManager :=
  ⟨h.regular.core.indexed, h.healthy⟩

def Roomy (w : World) (event : Event) : Prop :=
  ∃ n, Tended n w ∧ ¬event.Named (str "load") ∧ n + w.creations event < 2 ^ 32 - 1

theorem roomy_run (hclean : w.kernel.Clean) (hload : NoLoad events)
    (hbudget : Runs.total step creations w events < 2 ^ 32 - 1) :
    Runs.Permitted step Roomy w events :=
  Runs.permitted_of_counted (P := Tended)
    (fun _ _ _ h hok hlt => ⟨regular_step h.regular hok hlt, healthy_step h.healthy hok⟩)
    (fun n _ _ h hok hlt => ⟨n, h, hok, hlt⟩)
    ⟨hclean.regular, hclean.processes ▸ healthy_empty⟩ (hload.permitted w) (by rwa [Nat.zero_add])

theorem numbered_before (hclean : w.kernel.Clean) {before after : List Event}
    (hload : NoLoad (before ++ after))
    (hbudget : Runs.total step creations w (before ++ after) < 2 ^ 32 - 1) :
    ProcessManager.Numbered (Runs.run step w before).kernel.processManager := by
  have hpast : NoLoad before := fun event hmem => hload event (List.mem_append_left _ hmem)
  have hbefore : Runs.total step creations w before < 2 ^ 32 - 1 := by
    rw [Runs.total_append] at hbudget
    omega
  exact (regular_run hclean hpast hbefore).counts.numbered

/-! ## One event -/

theorem processManager_turn (h : w.turnOf event = some owner) :
    (w.step event).kernel.processManager =
      (Scheduler.turn owner (w.kernel.processManager, w.kernel.memoryManager)).1 := by
  cases event with
  | tick =>
    simp only [turnOf] at h
    split at h
    next hrunning =>
      cases h
      show w.kernel.schedulerTick.1.processManager = _
      rw [schedulerTick, if_pos hrunning]
      rfl
    next => cases h
  | request env request =>
    simp only [turnOf] at h
    split at h
    next hasks =>
      show (w.kernel.executeRequest env w.disk request).1.processManager = _
      rw [executeRequest_step hasks h]
      rfl
    next => cases h

theorem tick_of_no_turn (h : w.turnOf .tick = none) : (w.step .tick).kernel = w.kernel := by
  show w.kernel.schedulerTick.1 = w.kernel
  rw [schedulerTick, if_neg]
  intro hrunning
  simp [turnOf, hrunning] at h

theorem lives_turn (h : Scheduler.Sound w.kernel.processManager)
    (hturn : w.turnOf event = some owner)
    (hget : w.kernel.processManager.pcbTable[pid]? = some pcb) (hl : l.Lives pcb)
    (hget' : (w.step event).kernel.processManager.pcbTable[pid]? = some pcb') :
    (Runs.run Life.obey l (w.orderFor pid event)).Lives pcb' ∧ SameProcess pcb pcb' := by
  have hcase : Scheduler.TurnCase owner w.kernel.processManager
      (Scheduler.turn owner (w.kernel.processManager, w.kernel.memoryManager)).1 :=
    Scheduler.Sound.turn_case (s := (w.kernel.processManager, w.kernel.memoryManager)) h owner
  rw [processManager_turn hturn] at hget'
  simp only [orderFor, hturn]
  generalize (Scheduler.turn owner (w.kernel.processManager, w.kernel.memoryManager)).1 = pm at hcase hget'
  cases hcase with
  | idle hidle =>
    have hnone : w.kernel.processManager.turnOrder owner = [] :=
      List.eq_nil_iff_forall_not_mem.mpr fun k hk => hidle ⟨k, h.indexed.mem_turnOrder.mp hk⟩
    cases hget.symm.trans hget'
    rw [hnone]
    exact ⟨hl, .refl pcb⟩
  | complete q root rootPcb hnext howned =>
    obtain ⟨hkept, old, hold, rfl⟩ := pruned_eq_some.mp hget'
    cases hget.symm.trans hold
    have hne : root ≠ pid := by
      rintro rfl
      exact hkept (subtree_spec (hasProcess_iff.mpr ⟨rootPcb, ownedPcb_eq_some.mp howned⟩)).1
    rw [nextTurn_iff.mpr ⟨q, hnext⟩, if_neg fun heq => hne (Option.some.inj heq)]
    exact ⟨⟨hl.state, hl.priority, hl.level, hl.executed⟩, rfl, rfl, rfl, rfl, rfl, rfl⟩
  | demote q root rootPcb hnext howned hready hlevel hleft =>
    rw [nextTurn_iff.mpr ⟨q, hnext⟩]
    rw [relinked, KeyedTable.getElem?_insert] at hget'
    by_cases hroot : root = pid
    · subst hroot
      cases hget.symm.trans (ownedPcb_eq_some.mp howned).1
      rw [if_pos rfl] at hget' ⊢
      cases hget'
      have htime := (h.healthy.wellFormed root pcb hget).time
      have htotal := pcb.totalTime.toNat_lt
      have hlt := UInt32.lt_iff_toNat_lt.mp hleft
      refine lives_afterSlice hl hready ?_
      rw [hlevel, timeSliceForQueue_levelOfQueue]
      omega
    · rw [if_neg hroot] at hget'
      cases hget.symm.trans hget'
      rw [if_neg fun heq => hroot (Option.some.inj heq)]
      exact ⟨hl, .refl pcb⟩

theorem lives_moved (hl : l.Lives pcb) (start : UInt32) (children : List UInt32) :
    l.Lives { pcb with memStart := start, children := children } ∧
      SameProcess pcb { pcb with memStart := start, children := children } :=
  ⟨⟨hl.state, hl.priority, hl.level, hl.executed⟩, rfl, rfl, rfl, rfl, rfl, rfl⟩

theorem order_ne_turn {command : Command} {order : Order}
    (h : command.order = some (pid, order)) : order ≠ .turn := by
  rintro rfl
  unfold Command.order at h
  repeat' split at h
  all_goals simp at h

theorem lives_carries {order : Order} {target : UInt32} {pm pm' : ProcessManager} {success : Bool}
    (h : Scheduler.Sound pm) (hne : order ≠ .turn)
    (hcarries : Carries pm (pm.carryOut owner target order) pm' success)
    (hget : pm.pcbTable[pid]? = some pcb) (hl : l.Lives pcb) (hget' : pm'.pcbTable[pid]? = some pcb') :
    (Runs.run Life.obey l (if target = pid ∧ pm.hasProcess owner pid then [order] else [])).Lives
      pcb' ∧ SameProcess pcb pcb' := by
  cases howned : pm.ownedPcb owner target with
  | none =>
    have hforeign : ¬(target = pid ∧ pm.hasProcess owner pid = true) := by
      rintro ⟨rfl, hhas⟩
      simp [hasProcess, howned] at hhas
    rw [if_neg hforeign]
    obtain ⟨message, herror⟩ := carryOut_foreign howned order
    cases hcarries with
    | done hok => cases hok.symm.trans herror
    | refused =>
      cases hget.symm.trans hget'
      exact ⟨hl, .refl pcb⟩
  | some targetPcb =>
    have htable := ownedPcb_eq_some.mp howned
    by_cases htarget : target = pid
    · subst htarget
      cases hget.symm.trans htable.1
      rw [if_pos ⟨rfl, hasProcess_iff.mpr ⟨pcb, htable⟩⟩, Runs.run_cons, Runs.run_nil, Life.obey]
      obtain ⟨haccepts, hrefuses⟩ := carryOut_owned howned hl (h.settled hget) hne
      cases hcarries with
      | done hok =>
        have hyes : l.accepts order = true := by
          by_contra hno
          obtain ⟨message, herror⟩ := hrefuses (by simpa using hno)
          cases hok.symm.trans herror
        obtain ⟨pm'', message, after, hdone, hinsert, hafter, hsame⟩ := haccepts hyes
        cases hok.symm.trans hdone
        rw [hinsert, KeyedTable.getElem?_insert, if_pos rfl] at hget'
        cases hget'
        rw [if_pos hyes]
        exact ⟨hafter, hsame⟩
      | refused herror =>
        have hno : l.accepts order = false := by
          by_contra hyes
          obtain ⟨pm'', message, after, hdone, -⟩ := haccepts (by simpa using hyes)
          cases hdone.symm.trans herror
        cases hget.symm.trans hget'
        rw [if_neg (by simp [hno])]
        exact ⟨hl, .refl pcb⟩
    · rw [if_neg fun hboth => htarget hboth.1]
      obtain ⟨l', hl'⟩ := (h.settled htable.1).exists_lives
      obtain ⟨haccepts, hrefuses⟩ := carryOut_owned howned hl' (h.settled htable.1) hne
      have hsame : pcb' = pcb := by
        cases hcarries with
        | refused =>
          cases hget.symm.trans hget'
          rfl
        | done hok =>
          cases haccept : l'.accepts order with
          | false =>
            obtain ⟨message, herror⟩ := hrefuses haccept
            cases hok.symm.trans herror
          | true =>
            obtain ⟨pm'', message, after, hdone, hinsert, -⟩ := haccepts haccept
            cases hok.symm.trans hdone
            rw [hinsert, KeyedTable.getElem?_insert, if_neg htarget, hget] at hget'
            exact (Option.some.inj hget').symm
      rw [hsame]
      exact ⟨hl, .refl pcb⟩

/-- One event is an order for the process, or leaves its life alone. -/
theorem lives_step (h : w.Roomy event)
    (hget : w.kernel.processManager.pcbTable[pid]? = some pcb) (hl : l.Lives pcb)
    (hget' : (w.step event).kernel.processManager.pcbTable[pid]? = some pcb') :
    (Runs.run Life.obey l (w.orderFor pid event)).Lives pcb' ∧ SameProcess pcb pcb' := by
  obtain ⟨n, htended, hload, -⟩ := h
  cases hturn : w.turnOf event with
  | some owner => exact lives_turn htended.sound hturn hget hl hget'
  | none =>
    -- without an order the PCB moves at most
    have hsteady : ∀ {pm : ProcessManager}, Steady w.kernel.processManager pm →
        pm.pcbTable[pid]? = some pcb' → l.Lives pcb' ∧ SameProcess pcb pcb' := by
      intro pm hsteady hafter
      obtain ⟨start, children, rfl⟩ := hsteady pid pcb pcb' hget hafter
      exact lives_moved hl start children
    simp only [orderFor, hturn]
    cases event with
    | tick =>
      rw [tick_of_no_turn hturn] at hget'
      exact hsteady (steady_of_table rfl) hget'
    | request env request =>
      have hname : (parse request.rawLine).name ≠ str "load" := fun heq => hload ⟨_, rfl, heq⟩
      have hasks : w.kernel.userManager.currentUser ≠ none → ¬(parse request.rawLine).AsksTurn := by
        intro hlogin hasks
        exact hlogin (by simpa only [turnOf, if_pos hasks] using hturn)
      simp only [Event.command, Option.bind_some]
      cases horder : (parse request.rawLine).order with
      | none =>
        exact hsteady (steady_request htended.regular.fresh hname hasks fun _ => horder) hget'
      | some pair =>
        obtain ⟨target, order⟩ := pair
        cases hlogin : w.kernel.userManager.currentUser with
        | none =>
          exact hsteady (steady_request htended.regular.fresh hname hasks
            fun hne => absurd hlogin hne) hget'
        | some owner =>
          exact lives_carries htended.sound (order_ne_turn horder)
            (carries_order htended.regular.core hlogin horder) hget hl hget'

theorem numbered_step (h : w.Roomy event) :
    w.kernel.processManager.nextPid.toNat ≤ (w.step event).kernel.processManager.nextPid.toNat ∧
      ∀ pid : UInt32, pid.toNat < w.kernel.processManager.nextPid.toNat →
        (w.step event).kernel.processManager.pcbTable[pid]?.isSome →
          w.kernel.processManager.pcbTable[pid]?.isSome := by
  obtain ⟨n, htended, hload, hroom⟩ := h
  have hquiet : ∀ {pm : ProcessManager} {mm : MemoryManager}, Watched.Quiet w.kernel.processManager pm mm →
      w.kernel.processManager.nextPid.toNat ≤ pm.nextPid.toNat ∧
        ∀ pid : UInt32, pid.toNat < w.kernel.processManager.nextPid.toNat →
          pm.pcbTable[pid]?.isSome → w.kernel.processManager.pcbTable[pid]?.isSome :=
    fun h => ⟨by rw [h.nextPid], fun pid _ => h.keys pid⟩
  have hmatched := htended.regular.core.matched
  refine counted_step (P := fun _ k =>
    w.kernel.processManager.nextPid.toNat ≤ k.processManager.nextPid.toNat ∧
      ∀ pid : UInt32, pid.toNat < w.kernel.processManager.nextPid.toNat →
        k.processManager.pcbTable[pid]?.isSome → w.kernel.processManager.pcbTable[pid]?.isSome)
    hload hroom (fun {command kernel success} hc hlt => ?_) ?_
  · cases hc with
    | create owner args hname hlogin hargs halloc hcreate =>
      have hcreated := created_of_ok hmatched.partition htended.regular.fresh halloc hcreate
      have hle := htended.regular.counts.next_le
      have hone : creationOf command true = 1 := if_pos ⟨hname, rfl⟩
      have hne := ppid_ne_nextPid htended.regular.fresh hcreated.parent
      rw [hone] at hlt
      simp only [hcreated.processes]
      refine ⟨by rw [spawned_nextPid _ (by omega)]; exact Nat.le_succ _, fun pid hpid hsome => ?_⟩
      have hold : pid ≠ w.kernel.processManager.nextPid := by
        rintro rfl
        exact lt_irrefl _ hpid
      rw [spawned_getElem? hne, if_neg hold] at hsome
      simpa using hsome
    | act owner hlogin ha => exact hquiet (.effect hmatched (effect_of_action hmatched ha))
    | _ => exact ⟨Nat.le_refl _, fun _ _ hsome => hsome⟩
  · exact hquiet (tick_keeps (P := fun k => Watched.Quiet _ k.processManager k.memoryManager)
      ⟨hmatched, rfl, fun _ hk => hk⟩ fun _ ha => .effect hmatched (effect_of_action hmatched ha))

/-! ## Runs -/

/-- If the process is there, it is the first one and lives so. -/
structure Accompanies (pid : UInt32) (first : PCB) (s : World) (l : Life) : Prop where
  old : pid.toNat < s.kernel.processManager.nextPid.toNat
  lives : ∀ pcb, s.kernel.processManager.pcbTable[pid]? = some pcb →
    l.Lives pcb ∧ SameProcess first pcb

theorem Accompanies.step {first : PCB} (h : Accompanies pid first w l) (hroomy : w.Roomy event) :
    Accompanies pid first (w.step event) (Runs.run Life.obey l (w.orderFor pid event)) := by
  obtain ⟨hnext, hkeys⟩ := numbered_step hroomy
  refine ⟨Nat.lt_of_lt_of_le h.old hnext, fun pcb' hget' => ?_⟩
  obtain ⟨pcb, hget⟩ := Option.isSome_iff_exists.mp (hkeys pid h.old (Option.isSome_of_eq_some hget'))
  obtain ⟨hl, hsame⟩ := h.lives pcb hget
  obtain ⟨hl', hsame'⟩ := lives_step hroomy hget hl hget'
  exact ⟨hl', hsame.trans hsame'⟩

/-- From any moment on, a process that is still there is the one that it was, in the state, with
the priority, at the level and with the work done that follow from the orders given to it. -/
theorem life_of_run (hclean : w.kernel.Clean) {before after : List Event}
    (hload : NoLoad (before ++ after))
    (hbudget : Runs.total step creations w (before ++ after) < 2 ^ 32 - 1)
    (hget : (Runs.run step w before).kernel.processManager.pcbTable[pid]? = some pcb)
    (hget' : (Runs.run step w (before ++ after)).kernel.processManager.pcbTable[pid]? = some pcb')
    (hl : l.Lives pcb) :
    SameProcess pcb pcb' ∧ (Runs.run Life.obey l
      (Runs.emitted step (orderFor pid) (Runs.run step w before) after)).Lives pcb' := by
  have hok := Runs.permitted_append.mp (roomy_run hclean hload hbudget)
  have hnumbered := numbered_before hclean hload hbudget
  have hstart : Accompanies pid pcb (Runs.run step w before) l :=
    ⟨(hnumbered.bound pid pcb hget).2, fun found hfound => by
      cases hget.symm.trans hfound
      exact ⟨hl, .refl pcb⟩⟩
  have hend := Runs.simulates (R := Accompanies pid pcb) (fun _ _ _ h hroomy => h.step hroomy) hstart
    hok.2
  rw [← Runs.run_append] at hend
  obtain ⟨hlives, hsame⟩ := hend.lives pcb' hget'
  exact ⟨hsame, hlives⟩

/-- A process that is blocked, reniced and woken while another one runs, and then runs itself. -/
theorem life_of_run_woken :
    let w : World := { kernel := Kernel.start {} ∅ }
    let before := [console "register a pw", console "login a pw", console "create_pcb p 4 1 20",
      console "create_pcb q 4 9 20"]
    let after := [console "block_pcb 1", console "step", console "renice 1 5", console "wakeup_pcb 1",
      console "suspend 2", console "start_sched", .tick]
    ∃ pcb pcb', (Runs.run step w before).kernel.processManager.pcbTable[(1 : UInt32)]? = some pcb ∧
      (Runs.run step w (before ++ after)).kernel.processManager.pcbTable[(1 : UInt32)]? = some pcb' ∧
      SameProcess pcb pcb' ∧ Life.Lives ⟨.ready, 5, 2, 4⟩ pcb' := by
  intro w before after
  have hlive : ∃ pcb, (Runs.run step w before).kernel.processManager.pcbTable[(1 : UInt32)]? =
      some pcb := Option.isSome_iff_exists.mp (by decide +kernel)
  have hlive' : ∃ pcb', (Runs.run step w (before ++ after)).kernel.processManager.pcbTable[
      (1 : UInt32)]? = some pcb' := Option.isSome_iff_exists.mp (by decide +kernel)
  obtain ⟨pcb, hget⟩ := hlive
  obtain ⟨pcb', hget'⟩ := hlive'
  have hstate : (Runs.run step w before).kernel.processManager.pcbTable[(1 : UInt32)]?.map
      (fun pcb => (pcb.state, pcb.priority, pcb.queueLevel, pcb.executedTime)) =
        some (.ready, 1, 0, 0) := by decide +kernel
  rw [hget] at hstate
  simp only [Option.map_some, Option.some.injEq, Prod.mk.injEq] at hstate
  obtain ⟨hstate, hpriority, hlevel, hexecuted⟩ := hstate
  have hl : Life.Lives ⟨.ready, 1, 0, 0⟩ pcb :=
    ⟨hstate, hpriority, hlevel, by rw [hexecuted]; rfl⟩
  have hclean : w.kernel.Clean := clean_start {} ∅ fun _ h => by cases h
  have hload : NoLoad (before ++ after) := by decide
  obtain ⟨hsame, hlives⟩ := life_of_run hclean hload
    (Nat.lt_of_le_of_lt (Runs.total_le_length creations_le_one _ _) (by decide)) hget hget' hl
  have horders : Runs.emitted step (orderFor 1) (Runs.run step w before) after =
      [.block, .renice 5, .wakeup, .turn] := by decide +kernel
  rw [horders] at hlives
  exact ⟨pcb, pcb', hget, hget', hsame, hlives⟩

/-! ## Answers -/

/-- An order succeeds just when it comes from the owner of the process, who is logged in, and the
process accepts it in its present state. -/
theorem obeyed_of_run (hclean : w.kernel.Clean) (hload : NoLoad events)
    (hbudget : Runs.total step creations w events < 2 ^ 32 - 1) {env : Environment}
    {request : CommandRequest} {order : Order}
    (horder : (parse request.rawLine).order = some (pid, order)) :
    (Runs.run step w events).Succeeds (.request env request) ↔
      ∃ owner pcb l, (Runs.run step w events).kernel.userManager.currentUser = some owner ∧
        (Runs.run step w events).kernel.processManager.ownedPcb owner pid = some pcb ∧
        Life.Lives l pcb ∧ l.accepts order = true := by
  have hregular := regular_run hclean hload hbudget
  have hsound : Scheduler.Sound (Runs.run step w events).kernel.processManager :=
    ⟨hregular.core.indexed, healthy_run hclean.processes hload⟩
  generalize Runs.run step w events = s at hregular hsound ⊢
  rw [succeeds_request]
  cases hlogin : s.kernel.userManager.currentUser with
  | none =>
    rw [order_refused hlogin horder]
    refine iff_of_false Bool.false_ne_true ?_
    rintro ⟨owner, pcb, l, h, -⟩
    cases h
  | some owner =>
    have hne := order_ne_turn horder
    rw [(carries_order hregular.core hlogin horder).success_iff]
    constructor
    · rintro ⟨pair, hdone⟩
      cases howned : s.kernel.processManager.ownedPcb owner pid with
      | none =>
        obtain ⟨message, herror⟩ := carryOut_foreign howned order
        cases hdone.symm.trans herror
      | some pcb =>
        have hsettled := hsound.settled (ownedPcb_eq_some.mp howned).1
        obtain ⟨l, hl⟩ := hsettled.exists_lives
        refine ⟨owner, pcb, l, rfl, howned, hl, ?_⟩
        by_contra hno
        obtain ⟨message, herror⟩ := (carryOut_owned howned hl hsettled hne).2 (by simpa using hno)
        cases hdone.symm.trans herror
    · rintro ⟨owner', pcb, l, heq, howned, hl, haccepts⟩
      cases heq
      have hsettled := hsound.settled (ownedPcb_eq_some.mp howned).1
      obtain ⟨pm', message, pcb', hdone, -⟩ := (carryOut_owned howned hl hsettled hne).1 haccepts
      exact ⟨_, hdone⟩

/-- A swapped process cannot be woken, but it can be reniced. -/
theorem obeyed_of_run_swapped :
    let w : World := { kernel := Kernel.start {} ∅ }
    let events := [console "register a pw", console "login a pw", console "create_pcb p 4 1 20",
      console "swap_out 1"]
    (Runs.run step w events).Succeeds (console "renice 1 7") ↔
      ∃ owner pcb l, (Runs.run step w events).kernel.userManager.currentUser = some owner ∧
        (Runs.run step w events).kernel.processManager.ownedPcb owner 1 = some pcb ∧
        Life.Lives l pcb ∧ l.accepts (.renice 7) = true :=
  obeyed_of_run (clean_start {} ∅ fun _ h => by cases h) (by decide)
    (Nat.lt_of_le_of_lt (Runs.total_le_length creations_le_one _ _) (by decide))
    (show (parse (str "renice 1 7")).order = some (1, .renice 7) by decide +kernel)

/-! ## The end of a process -/

/-- The event ends the process `root`: its owner kills it, or its last turn is over. -/
inductive Ends (w : World) (event : Event) (root : UInt32) : Prop
  | killed (owner : Str) (hkill : event.Asks (str "kill_pcb") root)
      (hlogin : w.kernel.userManager.currentUser = some owner)
      (hhas : w.kernel.processManager.hasProcess owner root)
  | completed (owner : Str) (hturn : w.turnOf event = some owner)
      (hlast : Scheduler.Completes w.kernel.processManager owner root)

def Dies (pid : UInt32) (w : World) (event : Event) : Prop :=
  ∃ root, w.Ends event root ∧ w.kernel.processManager.Descends root pid

theorem pruned_isSome {pm : ProcessManager} {root : UInt32} (hhas : pm.hasProcess owner root)
    (hlive : pm.pcbTable[pid]?.isSome) :
    (pm.pruned (pm.subtree owner root)).pcbTable[pid]?.isSome ↔ ¬pm.Descends root pid := by
  rw [pruned_getElem?, ← mem_subtree_iff hhas]
  split
  next hmem => exact iff_of_false Bool.false_ne_true (not_not_intro hmem)
  next hkept => exact iff_of_true (by rwa [Option.isSome_map]) hkept

theorem not_asks_of_turn {root : UInt32} (hturn : w.turnOf event = some owner) :
    ¬event.Asks (str "kill_pcb") root := by
  rintro ⟨command, hcommand, hname, -⟩
  cases event with
  | tick => cases hcommand
  | request env request =>
    cases hcommand
    simp only [turnOf] at hturn
    split at hturn
    next hasks =>
      rw [hasks.1] at hname
      exact absurd hname (by decide)
    next => cases hturn

theorem dies_turn (h : Scheduler.Sound w.kernel.processManager) (hturn : w.turnOf event = some owner)
    (hlive : w.kernel.processManager.pcbTable[pid]?.isSome) :
    (w.step event).kernel.processManager.pcbTable[pid]?.isSome ↔ ¬w.Dies pid event := by
  have hdies : w.Dies pid event ↔ ∃ c, Scheduler.Completes w.kernel.processManager owner c ∧
      w.kernel.processManager.Descends c pid := by
    constructor
    · rintro ⟨root, hends, hdescends⟩
      cases hends with
      | killed _ hkill => exact absurd hkill (not_asks_of_turn hturn)
      | completed owner' hturn' hlast =>
        cases hturn.symm.trans hturn'
        exact ⟨root, hlast, hdescends⟩
    · rintro ⟨root, hlast, hdescends⟩
      exact ⟨root, .completed owner hturn hlast, hdescends⟩
  have hcase : Scheduler.TurnCase owner w.kernel.processManager
      (Scheduler.turn owner (w.kernel.processManager, w.kernel.memoryManager)).1 :=
    Scheduler.Sound.turn_case (s := (w.kernel.processManager, w.kernel.memoryManager)) h owner
  rw [processManager_turn hturn, hdies]
  generalize (Scheduler.turn owner (w.kernel.processManager, w.kernel.memoryManager)).1 = pm at hcase
  cases hcase with
  | idle hidle =>
    refine iff_of_true hlive ?_
    rintro ⟨c, hlast, -⟩
    obtain ⟨q, pcb, hnext, -⟩ := h.turn_of_completes hlast
    obtain ⟨pcb, hget, hready, -⟩ := h.indexed.nextTurn_pcb hnext
    exact hidle ⟨c, pcb, hget, hready⟩
  | complete q root rootPcb hnext howned _ hcompletes =>
    rw [pruned_isSome (hasProcess_iff.mpr ⟨rootPcb, ownedPcb_eq_some.mp howned⟩) hlive]
    simp only [hcompletes, exists_eq_left]
  | demote q root rootPcb hnext howned _ _ _ hcompletes =>
    refine iff_of_true ?_ (not_exists.mpr fun c hc => hcompletes c hc.1)
    rw [relinked, KeyedTable.getElem?_insert]
    split
    · rfl
    · exact hlive

theorem executeRequest_killed {k : Kernel} {env : Environment} {fs : FileSystem}
    {request : CommandRequest} {root : UInt32} (hname : (parse request.rawLine).name = str "kill_pcb")
    (hpid : pidArgument (parse request.rawLine).arguments = some root)
    (hlogin : k.userManager.currentUser = some owner) (hhas : k.processManager.hasProcess owner root) :
    (k.executeRequest env fs request).1.processManager =
      k.processManager.pruned (k.processManager.subtree owner root) := by
  have hlogin' : k.managers.users.currentUser = some owner := hlogin
  obtain ⟨message, hkill⟩ : ∃ message, k.managers.processes.killProcess owner root =
      .ok (k.processManager.pruned (k.processManager.subtree owner root),
        k.processManager.subtree owner root, message) := killProcess_of_hasProcess hhas
  rw [executeRequest_pid k env fs request (by rw [hname]; decide), pidCommand_some hlogin' hpid,
    hname, if_neg (by decide), if_pos rfl, killSubtree, hkill]
  rfl

theorem isSome_effect {cause : Cause} {pm pm' : ProcessManager} {mm mm' : MemoryManager}
    (h : Effect cause owner pm mm pm' mm') (hlive : pm.pcbTable[pid]?.isSome)
    (hkills : ∀ root, cause.kills root → ¬pm.hasProcess owner root) (hturns : ¬cause.turns) :
    pm'.pcbTable[pid]?.isSome := by
  have htouches := h.touches
  generalize pm'.pcbTable = table at htouches
  cases htouches with
  | keep => exact hlive
  | store =>
    rw [KeyedTable.getElem?_insert]
    split
    · rfl
    · exact hlive
  | prune hcause hhas =>
    rcases hcause with hkill | ⟨hturn, -⟩
    · exact absurd hhas (hkills _ hkill)
    · exact absurd hturn hturns
  | move =>
    rw [compactedProcesses, updateStarts_getElem?, Option.isSome_map]
    exact hlive

theorem dies_step (h : w.Roomy event) (hlive : w.kernel.processManager.pcbTable[pid]?.isSome) :
    (w.step event).kernel.processManager.pcbTable[pid]?.isSome ↔ ¬w.Dies pid event := by
  obtain ⟨n, htended, hload, hroom⟩ := h
  cases hturn : w.turnOf event with
  | some owner => exact dies_turn htended.sound hturn hlive
  | none =>
  have hmatched := htended.regular.core.matched
  by_cases hkilled : ∃ root owner, event.Asks (str "kill_pcb") root ∧
      w.kernel.userManager.currentUser = some owner ∧ w.kernel.processManager.hasProcess owner root
  · obtain ⟨root, owner, ⟨command, hcommand, hname, hpid⟩, hlogin, hhas⟩ := hkilled
    have hdies : w.Dies pid event ↔ w.kernel.processManager.Descends root pid := by
      refine ⟨?_, fun hdescends =>
        ⟨root, .killed owner ⟨command, hcommand, hname, hpid⟩ hlogin hhas, hdescends⟩⟩
      rintro ⟨root', hends, hdescends⟩
      cases hends with
      | completed _ hturn' => cases hturn.symm.trans hturn'
      | killed _ hkill =>
        obtain ⟨command', hcommand', -, hpid'⟩ := hkill
        cases hcommand.symm.trans hcommand'
        cases hpid.symm.trans hpid'
        exact hdescends
    cases event with
    | tick => cases hcommand
    | request env request =>
      cases hcommand
      show (w.kernel.executeRequest env w.disk request).1.processManager.pcbTable[pid]?.isSome ↔ _
      rw [executeRequest_killed hname hpid hlogin hhas, hdies]
      exact pruned_isSome hhas hlive
  · have hspared : ¬w.Dies pid event := by
      rintro ⟨root, hends, -⟩
      cases hends with
      | completed _ hturn' => cases hturn.symm.trans hturn'
      | killed owner hkill hlogin hhas => exact hkilled ⟨root, owner, hkill, hlogin, hhas⟩
    refine iff_of_true ?_ hspared
    cases event with
    | tick =>
      rwa [tick_of_no_turn hturn]
    | request env request =>
      have hname : (parse request.rawLine).name ≠ str "load" := fun heq => hload ⟨_, rfl, heq⟩
      have hchange := executeRequest_change w.kernel env w.disk request hname
      show (w.kernel.executeRequest env w.disk request).1.processManager.pcbTable[pid]?.isSome
      generalize (w.kernel.executeRequest env w.disk request).1 = kernel at hchange ⊢
      generalize (w.kernel.executeRequest env w.disk request).2.2.success = success at hchange
      cases hchange with
      | create owner args hcreate hlogin hargs halloc hspawn =>
        have hcreated := created_of_ok hmatched.partition htended.regular.fresh halloc hspawn
        have hne := ppid_ne_nextPid htended.regular.fresh hcreated.parent
        rw [hcreated.processes, spawned_getElem? hne]
        split
        · rfl
        · rwa [Option.isSome_map]
      | act owner hlogin ha =>
        refine isSome_effect (effect_of_action hmatched ha) hlive (fun root hkills hhas => ?_) ?_
        · exact hkilled ⟨root, owner, ⟨_, rfl, hkills.1, hkills.2⟩, hlogin, hhas⟩
        · intro hturns
          have hasks : (parse request.rawLine).AsksTurn := hturns
          rw [turnOf, if_pos hasks, hlogin] at hturn
          cases hturn
      | _ => exact hlive

/-- A process that is gone does not come back: its PID is not issued again. -/
theorem isSome_of_isSome_run (hok : Runs.Permitted step Roomy w events)
    (hold : pid.toNat < w.kernel.processManager.nextPid.toNat)
    (hsome : (Runs.run step w events).kernel.processManager.pcbTable[pid]?.isSome) :
    w.kernel.processManager.pcbTable[pid]?.isSome := by
  induction events generalizing w with
  | nil => exact hsome
  | cons event events ih =>
    obtain ⟨hnext, hkeys⟩ := numbered_step hok.1
    exact hkeys pid hold (ih hok.2 (Nat.lt_of_lt_of_le hold hnext) hsome)

theorem survives_run (hok : Runs.Permitted step Roomy w events)
    (hold : pid.toNat < w.kernel.processManager.nextPid.toNat)
    (hlive : w.kernel.processManager.pcbTable[pid]?.isSome) :
    (Runs.run step w events).kernel.processManager.pcbTable[pid]?.isSome ↔
      Runs.Permitted step (fun s event => ¬s.Dies pid event) w events := by
  induction events generalizing w with
  | nil => exact iff_of_true hlive trivial
  | cons event events ih =>
    obtain ⟨hnext, -⟩ := numbered_step hok.1
    have hold' := Nat.lt_of_lt_of_le hold hnext
    rw [Runs.run_cons, Runs.Permitted, ← dies_step hok.1 hlive]
    constructor
    · intro hsome
      have hlive' := isSome_of_isSome_run hok.2 hold' hsome
      exact ⟨hlive', (ih hok.2 hold' hlive').mp hsome⟩
    · rintro ⟨hlive', hspared⟩
      exact (ih hok.2 hold' hlive').mpr hspared

/-- A process is there until an event ends it or one that it descends from. -/
theorem survives_of_run (hclean : w.kernel.Clean) {before after : List Event}
    (hload : NoLoad (before ++ after))
    (hbudget : Runs.total step creations w (before ++ after) < 2 ^ 32 - 1)
    (hlive : (Runs.run step w before).kernel.processManager.pcbTable[pid]?.isSome) :
    (Runs.run step w (before ++ after)).kernel.processManager.pcbTable[pid]?.isSome ↔
      Runs.Permitted step (fun s event => ¬s.Dies pid event) (Runs.run step w before) after := by
  have hok := Runs.permitted_append.mp (roomy_run hclean hload hbudget)
  have hnumbered := numbered_before hclean hload hbudget
  obtain ⟨first, hget⟩ := Option.isSome_iff_exists.mp hlive
  rw [Runs.run_append]
  exact survives_run hok.2 (hnumbered.bound pid first hget).2 hlive

/-- A child outlives a kill of its brother and goes with the last turn of its parent. -/
theorem survives_of_run_child :
    let w : World := { kernel := Kernel.start {} ∅ }
    let before := [console "register a pw", console "login a pw", console "create_pcb p 4 1 2",
      console "create_pcb c 4 9 20 1", console "create_pcb d 4 9 20 1"]
    let after := [console "kill_pcb 3", console "step"]
    ((Runs.run step w (before ++ after)).kernel.processManager.pcbTable[(2 : UInt32)]?.isSome ↔
      Runs.Permitted step (fun s event => ¬s.Dies 2 event) (Runs.run step w before) after) ∧
      (Runs.run step w before).kernel.processManager.pcbTable[(2 : UInt32)]?.isSome ∧
      ¬(Runs.run step w (before ++ after)).kernel.processManager.pcbTable[(2 : UInt32)]?.isSome := by
  intro w before after
  have hclean : w.kernel.Clean := clean_start {} ∅ fun _ h => by cases h
  have hload : NoLoad (before ++ after) := by decide
  have hlive : (Runs.run step w before).kernel.processManager.pcbTable[(2 : UInt32)]?.isSome := by
    decide +kernel
  exact ⟨survives_of_run hclean hload
    (Nat.lt_of_le_of_lt (Runs.total_le_length creations_le_one _ _) (by decide)) hlive, hlive,
    by decide +kernel⟩

end World

end OSCoreSim
