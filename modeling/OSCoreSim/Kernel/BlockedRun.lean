import OSCoreSim.Kernel.ProcessCalls
import OSCoreSim.Kernel.ReadyRun
import OSCoreSim.Process.Blocked
/-!
# A blocked process in a run

Between a successful `block_pcb` and the next successful `wakeup_pcb` of a process, whatever else
is asked for, the process stands in no queue, is not selected and does no work.
-/

namespace OSCoreSim

open ProcessManager CommandDispatcher

namespace Kernel

variable {k : Kernel} {command : Command} {pid executed remaining : UInt32}

theorem executeRequest_pid (k : Kernel) (env : Environment) (fs : FileSystem)
    (request : CommandRequest) (hname : isPidCommand (parse request.rawLine).name = true) :
    k.executeRequest env fs request =
      (k.withManagers (pidCommand k.managers (parse request.rawLine).name
          (parse request.rawLine).arguments).1, fs,
        (pidCommand k.managers (parse request.rawLine).name
          (parse request.rawLine).arguments).2) := by
  have hcases : (parse request.rawLine).name = str "kill_pcb" ∨
      (parse request.rawLine).name = str "block_pcb" ∨
      (parse request.rawLine).name = str "wakeup_pcb" ∨
      (parse request.rawLine).name = str "show_pcb" ∨
      (parse request.rawLine).name = str "suspend" ∨
      (parse request.rawLine).name = str "resume" := by
    simpa [isPidCommand] using hname
  apply executeRequest_dispatched
  · unfold routeCommand dispatchCommand dispatch
    rcases hcases with h | h | h | h | h | h <;> rw [h] <;> rfl
  · rcases hcases with h | h | h | h | h | h <;> rw [h] <;> decide
  · exact (gives_pidCommand (k := k)).1

theorem block_success {env : Environment} {fs : FileSystem} {request : CommandRequest}
    (hname : (parse request.rawLine).name = str "block_pcb")
    (hpid : pidArgument (parse request.rawLine).arguments = some pid)
    (hok : (k.executeRequest env fs request).2.2.success = true) :
    ∃ owner message, k.processManager.blockProcess owner pid =
      .ok ((k.executeRequest env fs request).1.processManager, message) := by
  rw [executeRequest_pid k env fs request (by rw [hname]; decide)] at hok ⊢
  rw [hname] at hok ⊢
  have hblock : pidCommand k.managers (str "block_pcb") (parse request.rawLine).arguments =
      requireLogin k.managers (processResult k.managers
        (k.managers.processes.blockProcess k.managers.users.currentUserName pid)) := by
    generalize (parse request.rawLine).arguments = arguments at hpid ⊢
    unfold pidArgument at hpid
    split at hpid
    · unfold pidCommand withPid
      simp only [hpid]
      rfl
    · cases hpid
  rw [hblock] at hok ⊢
  unfold requireLogin at hok ⊢
  split at hok
  next hlogin =>
    rw [if_pos hlogin]
    cases hresult : k.managers.processes.blockProcess k.managers.users.currentUserName pid with
    | error message =>
      rw [hresult] at hok
      cases hok
    | ok pair => exact ⟨k.managers.users.currentUserName, pair.2, hresult⟩
  next => cases hok

/-! ## The rest of a blocked process -/

theorem restsIn_updateStarts {pm : ProcessManager} (starts : List (UInt32 × UInt32))
    (h : RestsIn pm pid executed remaining) :
    RestsIn (updateStarts pm starts) pid executed remaining := by
  induction starts generalizing pm with
  | nil => exact h
  | cons entry starts ih =>
    obtain ⟨moved, start⟩ := entry
    show RestsIn (updateStarts (pm.updateProcessMemoryStart moved start) starts) _ _ _
    refine ih fun pcb hget => ?_
    rw [updateProcessMemoryStart, KeyedTable.getElem?_modify] at hget
    split at hget
    · obtain ⟨old, hold, rfl⟩ := Option.map_eq_some_iff.mp hget
      obtain ⟨hdormant, hexecuted, hremaining⟩ := h old hold
      exact ⟨hdormant, hexecuted, hremaining⟩
    · exact h pcb hget

/-- Only a wakeup of `pid` ends its rest. -/
theorem restsIn_calls {pm pm' : ProcessManager} {success : Bool}
    (h : RestsIn pm pid executed remaining) (hkeyed : pm.Keyed)
    (hexists : pm.pcbTable[pid]?.isSome) (hc : Calls command pm pm' success)
    (hasleep : ¬(command.name = str "wakeup_pcb" ∧ pidArgument command.arguments = some pid ∧
      success = true)) : RestsIn pm' pid executed remaining := by
  cases hc with
  | untouched => exact h
  | wakeup owner k hname hpid hwake =>
    have hk : k ≠ pid := by
      rintro rfl
      exact hasleep ⟨hname, hpid, rfl⟩
    exact h.other hk (wakeupProcess_spec hwake)
  | perform op hop =>
    refine h.perform hkeyed hexists op fun owner heq => ?_
    rw [heq] at hop
    cases hop
  | compact starts => exact restsIn_updateStarts starts h
  | cleanup => exact h

end Kernel

namespace World

open Kernel

variable {w : World} {event : Event} {pid executed remaining : UInt32}

def StillExists (pid : UInt32) (w : World) (event : Event) : Prop :=
  (w.step event).kernel.processManager.pcbTable[pid]?.isSome

instance (pid : UInt32) (w : World) (event : Event) : Decidable (StillExists pid w event) :=
  inferInstanceAs (Decidable (_ = true))

def Wakes (pid : UInt32) (w : World) (event : Event) : Prop :=
  event.Asks (str "wakeup_pcb") pid ∧ w.Succeeds event

instance (pid : UInt32) (w : World) (event : Event) : Decidable (Wakes pid w event) :=
  inferInstanceAs (Decidable (_ ∧ _))

structure Sleeps (pid executed remaining : UInt32) (w : World) : Prop where
  indexed : Indexed w.kernel.processManager
  alive : w.kernel.processManager.pcbTable[pid]?.isSome
  rests : RestsIn w.kernel.processManager pid executed remaining

theorem sleeps_step (h : Sleeps pid executed remaining w) (hload : ¬event.Named (str "load"))
    (hasleep : ¬Wakes pid w event) (hstill : StillExists pid w event) :
    Sleeps pid executed remaining (w.step event) where
  indexed := indexed_step h.indexed hload
  alive := hstill
  rests := by
    cases event with
    | request env request =>
      have hname : (parse request.rawLine).name ≠ str "load" := fun heq => hload ⟨_, rfl, heq⟩
      refine restsIn_calls h.rests h.indexed.keyed h.alive
        (executeRequest_calls w.kernel env w.disk request hname) ?_
      rintro ⟨hwakeup, hpid, hsuccess⟩
      exact hasleep ⟨⟨_, rfl, hwakeup, hpid⟩, (succeeds_request w env request).mpr hsuccess⟩
    | tick =>
      show RestsIn w.kernel.schedulerTick.1.processManager pid executed remaining
      unfold schedulerTick
      split
      · exact h.rests.outcome
          (Scheduler.step_outcome w.kernel.schedulerOwner w.kernel.memoryManager h.indexed.keyed)
      · exact h.rests

theorem sleeps_block (hindexed : Indexed w.kernel.processManager)
    (hblock : event.Asks (str "block_pcb") pid) (hok : w.Succeeds event) :
    ∃ pcb, w.kernel.processManager.pcbTable[pid]? = some pcb ∧
      Sleeps pid pcb.executedTime pcb.remainingTime (w.step event) := by
  obtain ⟨command, hcommand, hname, hpid⟩ := hblock
  have hload : ¬event.Named (str "load") := by
    rintro ⟨command', hcommand', hname'⟩
    rw [hcommand] at hcommand'
    cases hcommand'
    rw [hname] at hname'
    exact absurd hname' (by decide)
  have hindexed' := indexed_step hindexed hload
  obtain ⟨env, request, rfl, rfl⟩ := Event.exists_request hcommand
  obtain ⟨owner, message, hblocked⟩ :=
    block_success hname hpid ((succeeds_request w env request).mp hok)
  obtain ⟨pcb, hget, hnew⟩ := blockProcess_eq_ok hblocked
  refine ⟨pcb, hget, hindexed', Option.isSome_of_eq_some hnew, fun found hfound => ?_⟩
  have heq : some found = some { pcb with state := .blocked } := hfound.symm.trans hnew
  cases heq
  exact ⟨.inl rfl, rfl, rfl⟩

/-- In every run from a clean start, after a successful `block_pcb` and until the next successful
`wakeup_pcb` of this process: it stands in no queue and is not selected, and as long as it exists
its times do not change. -/
theorem blocked_until_woken (hclean : w.kernel.Clean) {before between : List Event}
    (hbefore : NoLoad before) (hbetween : NoLoad between)
    (hblock : event.Asks (str "block_pcb") pid) (hok : (Runs.run step w before).Succeeds event)
    (hasleep : Runs.Permitted step (fun w event => ¬Wakes pid w event)
      ((Runs.run step w before).step event) between) :
    let pm := (Runs.run step w before).kernel.processManager
    let pm' := (Runs.run step ((Runs.run step w before).step event) between).kernel.processManager
    ∃ pcb, pm.pcbTable[pid]? = some pcb ∧
      (pm'.pcbTable[pid]? = none → Waits pm' pid) ∧
      (Runs.Permitted step (StillExists pid) ((Runs.run step w before).step event) between →
        Waits pm' pid ∧ ∃ pcb', pm'.pcbTable[pid]? = some pcb' ∧
          pcb'.executedTime = pcb.executedTime ∧ pcb'.remainingTime = pcb.remainingTime) := by
  intro pm pm'
  have hindexed := indexed_run hclean.processes hbefore
  obtain ⟨pcb, hget, hsleeps⟩ := sleeps_block hindexed hblock hok
  have hindexed' : Indexed pm' :=
    Runs.run_invariant' (P := fun w : World => Indexed w.kernel.processManager)
      (fun _ _ h hload => indexed_step h hload) hsleeps.indexed (hbetween.permitted _)
  refine ⟨pcb, hget, fun hgone => ?_, fun hstill => ?_⟩
  · refine hindexed'.waits fun found hfound => ?_
    rw [hgone] at hfound
    cases hfound
  · have hlast := Runs.run_invariant' (fun _ _ h hok => sleeps_step h hok.1 hok.2.1 hok.2.2)
      hsleeps ((hbetween.permitted _).and (hasleep.and hstill))
    obtain ⟨pcb', hget'⟩ := Option.isSome_iff_exists.mp hlast.alive
    have hrests := hlast.rests pcb' hget'
    refine ⟨hlast.indexed.waits fun found hfound => ?_, pcb', hget', hrests.executed_eq,
      hrests.remaining_eq⟩
    exact (hlast.rests found hfound).dormant.not_ready

/-- The blocked process 1 is suspended, reniced, resumed and swapped out while process 2 runs. -/
theorem blocked_until_woken_swapped :
    let w : World := { kernel := Kernel.start {} ∅ }
    let before := [console "register a pw", console "login a pw", console "create_pcb p 4 1 5",
      console "create_pcb q 4 1 9"]
    let between := [console "suspend 1", console "renice 1 9", console "step", console "resume 1",
      console "wakeup_pcb 2", console "start_sched", .tick, console "swap_out 1"]
    let pm := (Runs.run step w before).kernel.processManager
    let pm' := (Runs.run step ((Runs.run step w before).step (console "block_pcb 1"))
      between).kernel.processManager
    ∃ pcb, pm.pcbTable[(1 : UInt32)]? = some pcb ∧
      (pm'.pcbTable[(1 : UInt32)]? = none → Waits pm' 1) ∧
      (Runs.Permitted step (StillExists 1)
          ((Runs.run step w before).step (console "block_pcb 1")) between →
        Waits pm' 1 ∧ ∃ pcb', pm'.pcbTable[(1 : UInt32)]? = some pcb' ∧
          pcb'.executedTime = pcb.executedTime ∧ pcb'.remainingTime = pcb.remainingTime) :=
  blocked_until_woken (clean_start {} ∅ fun _ h => by cases h) (by decide) (by decide)
    (by decide +kernel) (by decide +kernel) (by decide +kernel)

end World

end OSCoreSim
