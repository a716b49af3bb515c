import OSCoreSim.Kernel.Compaction
import OSCoreSim.Kernel.Orders
import OSCoreSim.Memory.Contiguous
/-!
# Admission

When `create_pcb` and `alloc` succeed.  Their argument checks leave two things to the managers:
the parent of the process, and room for the block.  Room is one hole that is large enough, and
from a compaction on, until memory is given back, it is the free memory.
-/

namespace OSCoreSim

open MemoryManager ProcessManager CommandDispatcher

/-! ## The parsed arguments -/

namespace CommandDispatcher

theorem parseCreateFields_some {name memKB priority totalTime : Str} {ppid : Option UInt32}
    {args : CreateArguments}
    (h : parseCreateFields name memKB priority totalTime ppid = some args) :
    args.name ≠ [] ∧ args.memKB ≠ 0 ∧ isValidPriority args.priority = true ∧
      args.totalTime ≠ 0 := by
  unfold parseCreateFields at h
  split at h
  · split at h
    · cases h
    next hchecks =>
      obtain rfl := Option.some.inj h
      simp only [not_or, Int32.not_lt] at hchecks
      obtain ⟨hname, hmem, htime, hlow, hhigh⟩ := hchecks
      exact ⟨hname, hmem, decide_eq_true ⟨hlow, hhigh⟩, htime⟩
  · cases h

theorem parseCreateArguments_some {arguments : List Str} {args : CreateArguments}
    (h : parseCreateArguments arguments = some args) :
    args.name ≠ [] ∧ args.memKB ≠ 0 ∧ isValidPriority args.priority = true ∧
      args.totalTime ≠ 0 := by
  unfold parseCreateArguments at h
  split at h
  · exact parseCreateFields_some h
  · split at h
    · exact parseCreateFields_some h
    · cases h
  · cases h

end CommandDispatcher

/-- Only the parent of a process with checked arguments can be refused. -/
theorem ProcessManager.createProcessWithMemory_checked {pm : ProcessManager} {owner : Str}
    {args : CreateArguments} {arguments : List Str} (howner : owner ≠ [])
    (hargs : parseCreateArguments arguments = some args) (memStart : UInt32) :
    (∃ pm' pid message, pm.createProcessWithMemory owner args.name args.memKB memStart args.priority
        args.totalTime args.ppid = .ok (pm', pid, message)) ↔
      (args.ppid.getD 0 ≠ 0 → pm.hasProcess owner (args.ppid.getD 0) = true) := by
  obtain ⟨hname, hmem, hpriority, htime⟩ := parseCreateArguments_some hargs
  constructor
  · rintro ⟨pm', pid, message, hok⟩
    exact (createProcessWithMemory_eq_ok hok).1.2.2.2.2
  · intro hparent
    have hallowed : ¬(args.ppid.getD 0 ≠ 0 ∧ (!pm.hasProcess owner (args.ppid.getD 0)) = true) := by
      rintro ⟨hne, hmissing⟩
      rw [hparent hne] at hmissing
      cases hmissing
    unfold createProcessWithMemory
    rw [if_neg howner, if_neg hname, if_neg hmem, if_neg (by simp [hpriority]), if_neg htime]
    dsimp only
    rw [if_neg hallowed]
    exact ⟨_, _, _, rfl⟩

namespace Kernel

variable {k k' : Kernel} {owner : Str} {command : Command} {arguments : List Str}
  {pm pm' : ProcessManager} {mm mm' : MemoryManager} {n : ℕ}

/-! ## One request -/

/-- A request of `owner` for `sizeKB` that only a lack of room can stop. -/
def Asks (k : Kernel) (owner : Str) (command : Command) (sizeKB : UInt32) : Prop :=
  (command.name = str "create_pcb" ∧ ∃ args, parseCreateArguments command.arguments = some args ∧
      (args.ppid.getD 0 ≠ 0 → k.processManager.hasProcess owner (args.ppid.getD 0) = true) ∧
      args.memKB = sizeKB) ∨
    (command.name = str "alloc" ∧ sizeKB ≠ 0 ∧
      ∃ tag, parseAllocArguments command.arguments = some (tag, sizeKB))

theorem Asks.ne_zero {sizeKB : UInt32} (h : k.Asks owner command sizeKB) : sizeKB ≠ 0 := by
  rcases h with ⟨-, args, hargs, -, rfl⟩ | ⟨-, hne, -⟩
  · exact (parseCreateArguments_some hargs).2.1
  · exact hne

theorem allocateLocked_iff (h : Partition mm) (howner : owner ≠ []) {pid sizeKB : UInt32}
    {tag : Str} {type : MemoryBlockType} (hsize : sizeKB ≠ 0) :
    (∃ mm' start message, mm.allocateLocked owner pid tag sizeKB type = .ok (mm', start, message)) ↔
      mm.HasRoom sizeKB :=
  (h.placement pid tag type howner (UInt32.lt_iff_toNat_lt.mpr (toNat_pos hsize))).1

theorem createCommand_succeeds_iff (h : Partition k.memoryManager)
    (hlogin : k.userManager.currentUser = some owner) (howner : owner ≠ []) :
    (createCommand k.managers arguments).2.success = true ↔
      ∃ args, parseCreateArguments arguments = some args ∧
        (args.ppid.getD 0 ≠ 0 → k.processManager.hasProcess owner (args.ppid.getD 0) = true) ∧
        k.memoryManager.HasRoom args.memKB := by
  constructor
  · intro hok
    obtain ⟨user, args, mm, start, text, pm, pid, message, huser, hargs, halloc, hcreate, -⟩ :=
      createCommand_success hok
    obtain rfl : owner = user := Option.some.inj (hlogin.symm.trans huser)
    have hsize := (parseCreateArguments_some hargs).2.1
    exact ⟨args, hargs,
      (createProcessWithMemory_checked howner hargs start).mp ⟨pm, pid, message, hcreate⟩,
      (allocateLocked_iff h howner hsize).mp ⟨mm, start, text, halloc⟩⟩
  · rintro ⟨args, hargs, hparent, hroom⟩
    have hsize := (parseCreateArguments_some hargs).2.1
    obtain ⟨mm, start, text, halloc⟩ := (allocateLocked_iff h howner hsize).mpr hroom
    obtain ⟨pm, pid, message, hcreate⟩ :=
      (createProcessWithMemory_checked howner hargs start).mpr hparent
    have halloc' : k.managers.memory.allocateForProcess owner k.managers.processes.nextPid args.name
        args.memKB = .ok (mm, start, text) := halloc
    have hcreate' : k.managers.processes.createProcessWithMemory owner args.name args.memKB start
        args.priority args.totalTime args.ppid = .ok (pm, pid, message) := hcreate
    have hlogin' : k.managers.users.currentUser = some owner := hlogin
    rw [createCommand, requireLogin_login hlogin', currentUserName_of_login hlogin']
    simp only [hargs, createWithMemory, halloc', hcreate', reply]

theorem memoryResult_success {α : Type} (managers : Managers) (result : Except Str α)
    (f : α → MemoryManager × Str) :
    (memoryResult managers (result.map f)).2.success = true ↔ ∃ out, result = .ok out := by
  cases result with
  | error message => simp [Except.map, memoryResult, reply]
  | ok out => simp [Except.map, memoryResult, reply]

theorem allocCommand_succeeds_iff (h : Partition k.memoryManager)
    (hlogin : k.userManager.currentUser = some owner) (howner : owner ≠ []) :
    (allocCommand k.managers arguments).2.success = true ↔
      ∃ tag sizeKB, parseAllocArguments arguments = some (tag, sizeKB) ∧ sizeKB ≠ 0 ∧
        k.memoryManager.HasRoom sizeKB := by
  have hlogin' : k.managers.users.currentUser = some owner := hlogin
  rw [allocCommand, requireLogin_login hlogin', currentUserName_of_login hlogin']
  cases hargs : parseAllocArguments arguments with
  | none => simp [reply]
  | some pair =>
    obtain ⟨tag, sizeKB⟩ := pair
    by_cases hsize : sizeKB = 0
    · simp [hsize, reply]
    simp only [hsize, if_false]
    rw [memoryResult_success]
    constructor
    · rintro ⟨⟨mm, start, message⟩, hok⟩
      have hroom := (allocateLocked_iff h howner hsize).mp ⟨mm, start, message, hok⟩
      exact ⟨tag, sizeKB, rfl, hsize, hroom⟩
    · rintro ⟨_, _, hsame, -, hroom⟩
      cases hsame
      obtain ⟨mm, start, message, hok⟩ := (allocateLocked_iff h howner hsize).mpr hroom
      exact ⟨(mm, start, message), hok⟩

theorem executeRequest_alloc (k : Kernel) (env : Environment) (fs : FileSystem)
    (request : CommandRequest) (hname : (parse request.rawLine).name = str "alloc") :
    k.executeRequest env fs request =
      (k.withManagers (allocCommand k.managers (parse request.rawLine).arguments).1, fs,
        (allocCommand k.managers (parse request.rawLine).arguments).2) := by
  apply executeRequest_dispatched
  · unfold routeCommand dispatchCommand dispatch
    rw [hname]
    rfl
  · rw [hname]
    decide
  · have hgives : Gives (parse request.rawLine) k
        (allocCommand k.managers (parse request.rawLine).arguments) := gives_allocCommand
    exact hgives.1

/-- With a partition, an asking command succeeds for a user exactly if it has room. -/
theorem asking_succeeds_iff (h : Partition k.memoryManager)
    (haccounts : UserManager.Accounts k.userManager) (env : Environment) (fs : FileSystem)
    {request : CommandRequest}
    (hname : (parse request.rawLine).name = str "create_pcb" ∨
      (parse request.rawLine).name = str "alloc") :
    (k.executeRequest env fs request).2.2.success = true ↔
      ∃ owner sizeKB, k.userManager.currentUser = some owner ∧
        k.Asks owner (parse request.rawLine) sizeKB ∧ k.memoryManager.HasRoom sizeKB := by
  cases hlogin : k.userManager.currentUser with
  | none =>
    have hlogin' : k.managers.users.currentUser = none := hlogin
    have hrefused : (k.executeRequest env fs request).2.2.success = false := by
      rcases hname with hcreate | halloc
      · rw [executeRequest_create k env fs request hcreate, createCommand,
          requireLogin_none hlogin']
        rfl
      · rw [executeRequest_alloc k env fs request halloc, allocCommand, requireLogin_none hlogin']
        rfl
    simp [hrefused]
  | some user =>
    have huser : user ≠ [] := haccounts.nonempty user (haccounts.session user hlogin)
    have hdistinct : str "create_pcb" ≠ str "alloc" := by decide
    rcases hname with hcreate | halloc
    · rw [executeRequest_create k env fs request hcreate, createCommand_succeeds_iff h hlogin huser]
      constructor
      · rintro ⟨args, hargs, hparent, hroom⟩
        exact ⟨user, args.memKB, rfl, .inl ⟨hcreate, args, hargs, hparent, rfl⟩, hroom⟩
      · rintro ⟨_, _, hsame, ⟨-, args, hargs, hparent, rfl⟩ | ⟨halloc, -⟩, hroom⟩
        · cases hsame
          exact ⟨args, hargs, hparent, hroom⟩
        · exact absurd (hcreate.symm.trans halloc) hdistinct
    · rw [executeRequest_alloc k env fs request halloc, allocCommand_succeeds_iff h hlogin huser]
      constructor
      · rintro ⟨tag, sizeKB, hargs, hsize, hroom⟩
        exact ⟨user, sizeKB, rfl, .inr ⟨halloc, hsize, tag, hargs⟩, hroom⟩
      · rintro ⟨_, sizeKB, hsame, ⟨hcreate, -⟩ | ⟨-, hsize, tag, hargs⟩, hroom⟩
        · exact absurd (hcreate.symm.trans halloc) hdistinct
        · cases hsame
          exact ⟨tag, sizeKB, hargs, hsize, hroom⟩

/-! ## Holes -/

theorem ReleasesAll.eq_or_used_lt {pids : List UInt32} (h : ReleasesAll owner mm pids mm') :
    mm' = mm ∨ mm'.usedMemoryKB < mm.usedMemoryKB := by
  induction h with
  | nil => exact .inl rfl
  | skip _ _ _ ih => exact ih
  | release hpart _ hreleases _ ih =>
    have hlower := hpart.used_lt_of_releases hreleases
    rcases ih with hsame | hlower'
    · rw [hsame]
      exact .inr hlower
    · exact .inr (UInt32.lt_trans hlower' hlower)

theorem contiguous_releaseAll (h : Matched pm mm) {pid : UInt32} (hhas : pm.hasProcess owner pid)
    (hone : mm.Contiguous)
    (hkeep : mm.usedMemoryKB ≤
      (Scheduler.releaseAll owner mm (pm.subtree owner pid)).1.usedMemoryKB) :
    (Scheduler.releaseAll owner mm (pm.subtree owner pid)).1.Contiguous := by
  have hreleases := h.agree.releasesAll h.partition (subtree_spec hhas).2.2.1
  rcases ReleasesAll.eq_or_used_lt hreleases with hsame | hlower
  · rwa [hsame]
  · exact absurd hkeep (UInt32.not_le.mpr hlower)

theorem contiguous_effect {cause : Cause} (h : Matched pm mm)
    (he : Effect cause owner pm mm pm' mm')
    (hone : mm.Contiguous) (hkeep : mm.usedMemoryKB ≤ mm'.usedMemoryKB) : mm'.Contiguous := by
  cases he with
  | alloc htype _ _ hm => exact hm.contiguous (by simp [htype]) hone
  | free hblocks _ hfree _ =>
    exact absurd hkeep (UInt32.not_le.mpr (h.partition.used_lt_of_released hblocks hfree))
  | setAlgorithm algorithm => exact hone
  | compact => exact h.partition.contiguous_compact
  | swapOut _ _ hmem =>
    exact absurd hkeep (UInt32.not_le.mpr (h.partition.used_lt_of_releases hmem))
  | kill _ hhas => exact contiguous_releaseAll h hhas hone hkeep
  | rewrite => exact hone
  | step _ ho =>
    cases ho with
    | idle => exact hone
    | requeue => exact hone
    | finish pid pcb _ hget =>
      have hhas : pm.hasProcess owner pid := hasProcess_iff.mpr ⟨pcb, ownedPcb_eq_some.mp hget⟩
      exact contiguous_releaseAll h hhas hone hkeep

theorem contiguous_change {success : Bool} (h : Regular n k) (hc : Change command k k' success)
    (hone : k.memoryManager.Contiguous)
    (hkeep : k.memoryManager.usedMemoryKB ≤ k'.memoryManager.usedMemoryKB) :
    k'.memoryManager.Contiguous := by
  cases hc with
  | same | register | login | logout | exit | files | start | stop | restart => exact hone
  | create owner args hname hlogin hargs halloc hcreate =>
    obtain ⟨-, hm⟩ := h.core.matched.partition.allocates halloc
    exact hm.contiguous (by simp) hone
  | rollback owner args _ _ _ halloc =>
    have hback := (h.core.matched.rolledBack h.fresh halloc).2.2 h.core.untagged
    simp only [hback]
    exact hone
  | swapHalf owner pid _ hmem hmark hhas =>
    exact (h.core.matched.not_swapHalf hmem hmark hhas).elim
  | act owner hlogin ha =>
    exact contiguous_effect h.core.matched (effect_of_action h.core.matched ha) hone hkeep

end Kernel

namespace World

open Kernel

variable {w : World} {event : Event} {events : List Event} {n : ℕ}

def Retains (w : World) (event : Event) : Prop :=
  w.kernel.memoryManager.usedMemoryKB ≤ (w.step event).kernel.memoryManager.usedMemoryKB

instance (w : World) (event : Event) : Decidable (w.Retains event) :=
  inferInstanceAs (Decidable (_ ≤ _))

theorem contiguous_step (h : Regular n w.kernel) (hload : ¬event.Named (str "load"))
    (hkeep : w.Retains event) (hone : w.kernel.memoryManager.Contiguous) :
    (w.step event).kernel.memoryManager.Contiguous := by
  cases event with
  | request env request =>
    have hname : (parse request.rawLine).name ≠ str "load" := fun heq => hload ⟨_, rfl, heq⟩
    exact contiguous_change h (executeRequest_change w.kernel env w.disk request hname) hone hkeep
  | tick =>
    have hidle : w.kernel.memoryManager.usedMemoryKB ≤
        w.kernel.schedulerTick.1.memoryManager.usedMemoryKB := hkeep
    show w.kernel.schedulerTick.1.memoryManager.Contiguous
    rcases schedulerTick_cases w.kernel with hsame | ⟨-, -, pm, mm, ha, hturn⟩
    · rw [hsame]
      exact hone
    · rw [hturn] at hidle ⊢
      exact contiguous_effect h.core.matched (effect_of_action h.core.matched ha) hone hidle

theorem contiguous_compaction (h : Partition w.kernel.memoryManager) {env : Environment}
    {compaction : CommandRequest} (hname : (parse compaction.rawLine).name = str "compact")
    (hok : w.Succeeds (.request env compaction)) :
    (w.step (.request env compaction)).kernel.memoryManager.Contiguous := by
  have hrequest := executeRequest_compact w.kernel env w.disk compaction hname
  rw [succeeds_request, hrequest] at hok
  show (w.kernel.executeRequest env w.disk compaction).1.memoryManager.Contiguous
  rcases compactCommand_cases w.kernel (parse compaction.rawLine).arguments with
    ⟨-, hfail⟩ | ⟨hdone, -⟩
  · rw [hfail] at hok
    cases hok
  · rw [hrequest]
    dsimp only
    rw [hdone]
    exact h.contiguous_compact

theorem contiguous_run (h : Regular n w.kernel) (hone : w.kernel.memoryManager.Contiguous)
    (hload : NoLoad events) (hbudget : n + Runs.total step creations w events < 2 ^ 32 - 1)
    (hkeep : Runs.Permitted step Retains w events) :
    Partition (Runs.run step w events).kernel.memoryManager ∧
      (Runs.run step w events).kernel.memoryManager.Contiguous :=
  have hlast := Runs.run_invariant
    (P := fun n (w : World) => Regular n w.kernel ∧ w.kernel.memoryManager.Contiguous)
    (fun _ _ _ h (hok : ¬Event.Named (str "load") _ ∧ Retains _ _) hlt =>
      ⟨regular_step h.1 hok.1 hlt, contiguous_step h.1 hok.1 hok.2 h.2⟩)
    ⟨h, hone⟩ ((hload.permitted w).and hkeep) hbudget
  ⟨hlast.1.core.matched.partition, hlast.2⟩

theorem accounts_of_clean (hclean : w.kernel.Clean) (hload : NoLoad events) :
    UserManager.Accounts (Runs.run step w events).kernel.userManager := by
  apply accounts_run _ hload
  constructor
  all_goals simp [hclean.users, hclean.session, KeyedTable.Keyed]

/-- In every state of a run from a clean start, `create_pcb` and `alloc` succeed exactly for a
logged-in user whose arguments parse, who owns the parent that is named, and for whom one hole is
large enough. -/
theorem admitted_of_run (hclean : w.kernel.Clean) (hload : NoLoad events) (env : Environment)
    (request : CommandRequest) (hname : (parse request.rawLine).name = str "create_pcb" ∨
      (parse request.rawLine).name = str "alloc") :
    let last := Runs.run step w events
    last.Succeeds (.request env request) ↔
      ∃ owner sizeKB, last.kernel.userManager.currentUser = some owner ∧
        last.kernel.Asks owner (parse request.rawLine) sizeKB ∧
        last.kernel.memoryManager.HasRoom sizeKB := by
  intro last
  rw [succeeds_request]
  exact asking_succeeds_iff (partition_run hclean hload) (accounts_of_clean hclean hload) env
    last.disk hname

/-- A child process, with a hole of 8 KB below and the rest above: the hole is too small, the rest
is not. -/
theorem admitted_of_run_child :
    let w : World := { kernel := Kernel.start {} ∅ }
    let events := [console "register a pw", console "login a pw", console "create_pcb p 4 1 5",
      console "alloc x 8", console "alloc y 4", console "free_mem 4"]
    let last := Runs.run step w events
    (last.Succeeds (console "create_pcb q 16 1 5 1") ↔
      ∃ owner sizeKB, last.kernel.userManager.currentUser = some owner ∧
        last.kernel.Asks owner (parse (str "create_pcb q 16 1 5 1")) sizeKB ∧
        last.kernel.memoryManager.HasRoom sizeKB) ∧
      last.kernel.memoryManager.blocks.map MemoryBlock.size = [4, 8, 4, 1008] ∧
      last.Succeeds (console "create_pcb q 16 1 5 1") :=
  ⟨admitted_of_run (clean_start {} ∅ fun _ h => by cases h) (by decide)
    quietEnvironment { rawLine := str "create_pcb q 16 1 5 1" } (by decide),
    by decide +kernel, by unfold console; rw [succeeds_request]; decide +kernel⟩

/-- From a compaction on, as long as no event gives memory back, such a request succeeds exactly
if it fits into the free memory: nothing is lost to fragmentation, whatever the policy. -/
theorem unfragmented_of_run (hclean : w.kernel.Clean) {later : List Event} (env : Environment)
    (compaction : CommandRequest) (hcompact : (parse compaction.rawLine).name = str "compact")
    (hok : (Runs.run step w events).Succeeds (.request env compaction))
    (hload : NoLoad (events ++ .request env compaction :: later))
    (hbudget : Runs.total step creations w (events ++ .request env compaction :: later) <
      2 ^ 32 - 1)
    (hkeep : Runs.Permitted step Retains
      ((Runs.run step w events).step (.request env compaction)) later)
    (env' : Environment) (request : CommandRequest)
    (hname : (parse request.rawLine).name = str "create_pcb" ∨
      (parse request.rawLine).name = str "alloc") :
    let last := Runs.run step w (events ++ .request env compaction :: later)
    last.Succeeds (.request env' request) ↔
      ∃ owner sizeKB, last.kernel.userManager.currentUser = some owner ∧
        last.kernel.Asks owner (parse request.rawLine) sizeKB ∧
        sizeKB ≤ last.kernel.memoryManager.freeMemoryKB := by
  intro last
  have hbefore : NoLoad events := fun event hmem => hload event (List.mem_append_left _ hmem)
  have hstep : ¬Event.Named (str "load") (.request env compaction) :=
    hload _ (List.mem_append_right _ List.mem_cons_self)
  have hbehind : NoLoad later := fun event hmem =>
    hload event (List.mem_append_right _ (List.mem_cons_of_mem _ hmem))
  rw [Runs.total_append, Runs.total] at hbudget
  have hregular := regular_run hclean hbefore (by omega)
  have hregular' := regular_step hregular hstep (by omega)
  have hpart := hregular.core.matched.partition
  have hone := contiguous_compaction hpart hcompact hok
  have hcut : last =
      Runs.run step ((Runs.run step w events).step (.request env compaction)) later :=
    Runs.run_append w events _
  obtain ⟨hfinal, hlast⟩ := contiguous_run hregular' hone hbehind (by omega) hkeep
  rw [← hcut] at hfinal hlast
  have haccounts := accounts_of_clean hclean hload
  rw [succeeds_request, asking_succeeds_iff hfinal haccounts env' last.disk hname]
  refine exists_congr fun owner => exists_congr fun sizeKB => and_congr_right fun _ => ?_
  exact and_congr_right fun hasks => hfinal.hasRoom_iff hlast hasks.ne_zero

/-- Two holes are one behind the compaction, also for another policy and in front of a process. -/
theorem unfragmented_of_run_holes :
    let w : World := { kernel := Kernel.start {} ∅ }
    let events := [console "register a pw", console "login a pw", console "alloc 8",
      console "alloc 8", console "free_mem 0"]
    let later := [console "set_alloc_algo WF", console "create_pcb p 16 1 5"]
    let last := Runs.run step w (events ++ console "compact" :: later)
    last.Succeeds (console "alloc x 1000") ↔
      ∃ owner sizeKB, last.kernel.userManager.currentUser = some owner ∧
        last.kernel.Asks owner (parse (str "alloc x 1000")) sizeKB ∧
        sizeKB ≤ last.kernel.memoryManager.freeMemoryKB :=
  unfragmented_of_run (clean_start {} ∅ fun _ h => by cases h) quietEnvironment
    { rawLine := str "compact" } (by decide) (by rw [succeeds_request]; decide +kernel) (by decide)
    (Nat.lt_of_le_of_lt (Runs.total_le_length creations_le_one _ _) (by decide))
    (by decide +kernel) quietEnvironment { rawLine := str "alloc x 1000" } (by decide)

end World

end OSCoreSim
