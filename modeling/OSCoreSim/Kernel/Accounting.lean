import OSCoreSim.Kernel.Invariant
/-!
# Process memory is accounted for

From a clean start, and as long as the PIDs do not run out, the process table and the
memory table agree after every request and every turn of the scheduler, and a command
that fails leaves the kernel as it was.
-/

namespace OSCoreSim

open MemoryManager ProcessManager CommandDispatcher

namespace Kernel

variable {k k' : Kernel} {command : Command} {success : Bool} {n : ℕ}

/-- What a run from a clean start keeps after `n` creations. -/
structure Regular (n : ℕ) (k : Kernel) : Prop where
  core : Core k.processManager k.memoryManager
  counts : Counts n k.processManager

theorem Clean.regular (h : k.Clean) : Regular 0 k where
  core := by
    rw [h.processes, h.memory]
    exact core_clean
  counts := by
    rw [h.processes]
    exact ⟨numbered_empty, by decide⟩

theorem Regular.fresh (h : Regular n k) :
    k.processManager.pcbTable[k.processManager.nextPid]? = none := h.counts.numbered.fresh

def creationOf (command : Command) (success : Bool) : ℕ :=
  if command.name = str "create_pcb" ∧ success = true then 1 else 0

theorem counts_change (h : Regular n k) (hc : Change command k k' success)
    (hroom : n + creationOf command success < 2 ^ 32 - 1) :
    Counts (n + creationOf command success) k'.processManager := by
  have hkeep : Counts (n + creationOf command success) k.processManager :=
    h.counts.mono (Nat.le_add_right _ _)
  cases hc with
  | same | register | login | logout | exit | rollback | swapHalf | files | start | stop =>
    exact hkeep
  | create owner args hname hlogin hargs halloc hcreate =>
    have hone : creationOf command true = 1 := if_pos ⟨hname, rfl⟩
    rw [hone] at hroom ⊢
    exact h.counts.created hroom (created_of_ok h.core.matched.partition h.fresh halloc hcreate)
  | act owner hlogin ha => exact hkeep.effect (effect_of_action h.core.matched ha)
  | restart => exact ⟨⟨hkeep.numbered.next_pos, hkeep.numbered.bound⟩, hkeep.next_le⟩

theorem Regular.change (h : Regular n k) (hc : Change command k k' success)
    (hroom : n + creationOf command success < 2 ^ 32 - 1) :
    Regular (n + creationOf command success) k' :=
  ⟨core_change h.core h.fresh hc, counts_change h hc hroom⟩

theorem Regular.tick (h : Regular n k) : Regular n k.schedulerTick.1 := by
  refine ⟨core_tick h.core, ?_⟩
  exact tick_keeps (P := fun k => Counts n k.processManager) h.counts fun _ ha =>
    h.counts.effect (effect_of_action h.core.matched ha)

end Kernel

namespace World

open Kernel

variable {w : World} {event : Event} {events : List Event} {n : ℕ}

theorem creations_request (w : World) (env : Environment) (request : CommandRequest) :
    w.creations (.request env request) = creationOf (parse request.rawLine)
      (w.kernel.executeRequest env w.disk request).2.2.success := by
  simp [creations, creationOf, Event.Named, Event.command, Succeeds, respond]

theorem creations_le_one (w : World) (event : Event) : w.creations event ≤ 1 := by
  unfold creations
  split <;> decide

theorem counted_step {P : ℕ → Kernel → Prop} (hload : ¬event.Named (str "load"))
    (hroom : n + w.creations event < 2 ^ 32 - 1)
    (hchange : ∀ {command kernel success}, Change command w.kernel kernel success →
      n + creationOf command success < 2 ^ 32 - 1 → P (n + creationOf command success) kernel)
    (htick : P n w.kernel.schedulerTick.1) : P (n + w.creations event) (w.step event).kernel := by
  cases event with
  | request env request =>
    rw [creations_request] at hroom ⊢
    have hname : (parse request.rawLine).name ≠ str "load" := fun heq => hload ⟨_, rfl, heq⟩
    exact hchange (executeRequest_change w.kernel env w.disk request hname) hroom
  | tick => exact htick

theorem regular_step (h : Regular n w.kernel) (hload : ¬event.Named (str "load"))
    (hroom : n + w.creations event < 2 ^ 32 - 1) :
    Regular (n + w.creations event) (w.step event).kernel :=
  counted_step (P := Regular) hload hroom h.change h.tick

theorem regular_run (hclean : w.kernel.Clean) (hload : NoLoad events)
    (hbudget : Runs.total step creations w events < 2 ^ 32 - 1) :
    Regular (0 + Runs.total step creations w events) (Runs.run step w events).kernel :=
  Runs.run_invariant (P := fun n (w : World) => Regular n w.kernel)
    (fun _ _ event h (hok : ¬event.Named (str "load")) hlt => regular_step h hok hlt) hclean.regular
    (hload.permitted w) (by rwa [Nat.zero_add])

end World

namespace Kernel

/-! ## Agreement, spelled out -/

def processBlocks (mm : MemoryManager) (pid : UInt32) : List MemoryBlock :=
  mm.blocks.filter fun block => block.type = .process ∧ block.pid = pid

theorem held_eq_map (blocks : List MemoryBlock) (pid : UInt32) : held blocks pid =
    (blocks.filter fun block => block.type = .process ∧ block.pid = pid).map
      fun block => ⟨block.owner, block.start, block.size⟩ := by
  induction blocks with
  | nil => rfl
  | cons block rest ih =>
    rw [held_cons, ih]
    by_cases h : block.type = .process ∧ block.pid = pid
    · rw [footprint, if_pos h, List.filter_cons_of_pos (by simpa using h)]
      rfl
    · rw [footprint_of_ne h, List.filter_cons_of_neg (by simpa using h)]
      rfl

theorem Core.isSwapped_eq {pm : ProcessManager} {mm : MemoryManager} {pid : UInt32} {pcb : PCB}
    (h : Core pm mm) (hget : pm.pcbTable[pid]? = some pcb) : isSwapped pcb = pcb.swappedOut := by
  have hiff := h.indexed.swapped pid pcb hget
  cases hswap : pcb.swappedOut with
  | true => simp [isSwapped, hswap]
  | false =>
    have hne : pcb.state ≠ .swapped := fun heq => by simp [hiff.mpr heq] at hswap
    simp [isSwapped, hswap, hne]

/-- In a coherent state a process has its block, a swapped one has none, and no PROCESS block
is left without its process. -/
structure Accounted (pm : ProcessManager) (mm : MemoryManager) : Prop where
  resident : ∀ (pid : UInt32) (pcb : PCB), pm.pcbTable[pid]? = some pcb →
    pcb.swappedOut = false → ∃ block, processBlocks mm pid = [block] ∧ block.pid = pcb.pid ∧
      block.owner = pcb.owner ∧ block.start = pcb.memStart ∧ block.size = pcb.memSize
  swapped : ∀ (pid : UInt32) (pcb : PCB), pm.pcbTable[pid]? = some pcb →
    pcb.swappedOut = true → processBlocks mm pid = [] ∧ pcb.memStart = 0
  live : ∀ block ∈ mm.blocks, block.type = .process →
    ∃ pcb, pm.pcbTable[block.pid]? = some pcb ∧ pcb.swappedOut = false

theorem Core.accounted {pm : ProcessManager} {mm : MemoryManager} (h : Core pm mm) :
    Accounted pm mm where
  resident pid pcb hget hswap := by
    have hagree := h.matched.agree pid
    rw [held_eq_map, owed_eq hget, owedBy, h.isSwapped_eq hget, hswap, if_neg (by simp),
      List.map_eq_singleton_iff] at hagree
    obtain ⟨block, hblocks, hmark⟩ := hagree
    have hmem : block ∈ processBlocks mm pid := by
      rw [processBlocks, hblocks]
      exact List.mem_singleton_self block
    have hpid : block.type = .process ∧ block.pid = pid := by
      simpa using (List.mem_filter.mp hmem).2
    obtain ⟨howner, hstart, hsize⟩ := Footprint.mk.inj hmark
    exact ⟨block, hblocks, hpid.2.trans (h.matched.keyed pid pcb hget).symm, howner, hstart, hsize⟩
  swapped pid pcb hget hswap := by
    have hagree := h.matched.agree pid
    have hswapped : isSwapped pcb = true := (h.isSwapped_eq hget).trans hswap
    rw [held_eq_map, owed_eq hget, owedBy, if_pos hswapped, List.map_eq_nil_iff] at hagree
    exact ⟨hagree, h.zeroed pid pcb hget hswapped⟩
  live block hmem htype := by
    have hmark : _ ∈ held mm.blocks block.pid := mem_held.mpr ⟨block, hmem, htype, rfl, rfl⟩
    rw [h.matched.agree] at hmark
    cases hget : pm.pcbTable[block.pid]? with
    | none =>
      rw [owed_eq_nil hget] at hmark
      cases hmark
    | some pcb =>
      rw [owed_eq hget, owedBy, h.isSwapped_eq hget] at hmark
      split at hmark
      · cases hmark
      next hswap => exact ⟨pcb, rfl, by simpa using hswap⟩

/-- The only changes of a failed command are those of a failed login. -/
theorem Regular.unchanged (h : Regular n k) (hc : Change command k k' false)
    (hname : command.name ≠ str "login") : k' = k := by
  generalize hfalse : false = success at hc
  cases hc with
  | same => rfl
  | login _ _ hlogin => exact absurd hlogin hname
  | rollback owner args _ _ _ halloc =>
    rw [(h.core.matched.rolledBack h.fresh halloc).2.2 h.core.untagged]
  | swapHalf owner pid _ hmem hmark hhas => exact (h.core.matched.not_swapHalf hmem hmark hhas).elim
  | _ => cases hfalse

end Kernel

namespace World

open Kernel

/-- In every state of a run from a clean start the two tables account for each other. -/
theorem accounted_of_run {w : World} (hclean : w.kernel.Clean) {events : List Event}
    (hload : NoLoad events) (hbudget : Runs.total step creations w events < 2 ^ 32 - 1) :
    Accounted (Runs.run step w events).kernel.processManager
      (Runs.run step w events).kernel.memoryManager :=
  (regular_run hclean hload hbudget).core.accounted

/-- Two processes of one user, the second swapped out, and a compaction. -/
theorem accounted_of_run_swapped :
    let w : World := { kernel := Kernel.start {} ∅ }
    let events := [console "register a pw", console "login a pw", console "create_pcb p 4 1 5",
      console "create_pcb q 8 1 5 1", console "swap_out 2", console "compact", .tick]
    Accounted (Runs.run step w events).kernel.processManager
      (Runs.run step w events).kernel.memoryManager :=
  accounted_of_run (clean_start {} ∅ fun _ h => by cases h) (by decide)
    (Nat.lt_of_le_of_lt (Runs.total_le_length creations_le_one _ _) (by decide))

/-! ## Failed commands -/

/-- After any run from a clean start, a command other than `login` and `load` that answers
with failure leaves the whole kernel as it was. -/
theorem unchanged_of_failure {w : World} (hclean : w.kernel.Clean) {events : List Event}
    (hload : NoLoad events) (hbudget : Runs.total step creations w events < 2 ^ 32 - 1)
    (env : Environment) (request : CommandRequest)
    (hname : (parse request.rawLine).name ≠ str "login" ∧
      (parse request.rawLine).name ≠ str "load")
    (hfails : ((Runs.run step w events).kernel.executeRequest env (Runs.run step w events).disk
      request).2.2.success = false) :
    ((Runs.run step w events).kernel.executeRequest env (Runs.run step w events).disk
      request).1 = (Runs.run step w events).kernel := by
  have h := regular_run hclean hload hbudget
  have hc := executeRequest_change (Runs.run step w events).kernel env
    (Runs.run step w events).disk request hname.2
  rw [hfails] at hc
  exact h.unchanged hc hname.1

/-- A refused creation gives back the memory that it had already allocated. -/
theorem unchanged_of_failure_rollback :
    let w : World := { kernel := Kernel.start {} ∅ }
    let events := [console "register a pw", console "login a pw", console "create_pcb p 4 1 5"]
    ((Runs.run step w events).kernel.executeRequest quietEnvironment
      (Runs.run step w events).disk { rawLine := str "create_pcb q 8 1 5 9" }).1 =
        (Runs.run step w events).kernel :=
  unchanged_of_failure (clean_start {} ∅ fun _ h => by cases h) (by decide)
    (Nat.lt_of_le_of_lt (Runs.total_le_length creations_le_one _ _) (by decide))
    quietEnvironment { rawLine := str "create_pcb q 8 1 5 9" } (by decide) (by decide +kernel)

end World

end OSCoreSim
