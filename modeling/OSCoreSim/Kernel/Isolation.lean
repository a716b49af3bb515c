import OSCoreSim.Kernel.Accounting
import OSCoreSim.Kernel.Backing
/-!
# Users are isolated from each other

No transition touches the processes, the memory or the files of a user who is not logged
in at that moment, apart from the start addresses that a compaction moves.  The owner
checks of the operations carry this, together with `Fenced`: children have the owner of
their parent, the queues hold no stale entry, and a new PID is not in use.
-/

namespace OSCoreSim

open MemoryManager ProcessManager CommandDispatcher

namespace Kernel

variable {owner v : Str} {pm pm' : ProcessManager} {mm mm' : MemoryManager} {pid k : UInt32}
  {pcb pcb' : PCB} {q : Fin 3} {cause : Cause} {moves : Prop}

/-! ## The processes of another user -/

def unplaced (pcb : PCB) : PCB := { pcb with memStart := 0 }

/-- The PCB of `pid` if it belongs to `v`, without its start address. -/
def processOf (v : Str) (pm : ProcessManager) (pid : UInt32) : Option PCB :=
  (pm.ownedPcb v pid).map unplaced

theorem ownedPcb_eq_filter : pm.ownedPcb v k = pm.pcbTable[k]?.filter (·.owner = v) := by
  unfold ownedPcb
  cases pm.pcbTable[k]? with
  | none => rfl
  | some pcb => by_cases h : pcb.owner = v <;> simp [Option.filter, h]

theorem hasProcess_eq_processOf : pm.hasProcess v k = (processOf v pm k).isSome := by
  simp [hasProcess, processOf]

theorem hasProcess_ne (hv : v ≠ owner) (h : pm.hasProcess owner k) : pm.hasProcess v k = false := by
  obtain ⟨pcb, hget, howner⟩ := hasProcess_iff.mp h
  have hne : ¬pcb.owner = v := fun heq => hv (heq.symm.trans howner)
  simp [hasProcess, ownedPcb_eq_filter, hget, hne, Option.filter]

theorem dropChildren_eq (hkin : Kin pm) (hget : pm.pcbTable[k]? = some pcb) {removed : List UInt32}
    (hremoved : ∀ x ∈ removed, pm.hasProcess pcb.owner x = false) :
    dropChildren removed pcb = pcb := by
  have hchildren : pcb.children.filter (· ∉ removed) = pcb.children := by
    refine List.filter_eq_self.mpr fun c hc => ?_
    obtain ⟨child, hchild, howner⟩ := hkin k pcb hget c hc
    have hmine : pm.hasProcess pcb.owner c = true := hasProcess_iff.mpr ⟨child, hchild, howner⟩
    simp only [decide_eq_true_eq]
    intro hmem
    rw [hremoved c hmem] at hmine
    cases hmine
  rw [dropChildren, hchildren]

theorem processOf_touches (hkin : Kin pm) (hv : v ≠ owner)
    (ht : Touches cause owner pm mm pm'.pcbTable) : processOf v pm' k = processOf v pm k := by
  simp only [processOf, ownedPcb_eq_filter]
  generalize pm'.pcbTable = table at ht
  cases ht with
  | keep => rfl
  | @store pid pcb pcb' hget hrewritten =>
    obtain ⟨htable, howner⟩ := ownedPcb_eq_some.mp hget
    have hne : ¬pcb.owner = v := fun heq => hv (heq.symm.trans howner)
    have hne' : ¬pcb'.owner = v := by
      rw [hrewritten.frame.2.2.1]
      exact hne
    rw [KeyedTable.getElem?_insert]
    by_cases hk : pid = k
    · subst hk
      simp [htable, hne, hne', Option.filter]
    · rw [if_neg hk]
  | @prune pid _ hhas =>
    have hremoved := (subtree_spec hhas).2.2.1
    rw [pruned_getElem?]
    by_cases hk : k ∈ pm.subtree owner pid
    · have hnone := hasProcess_ne hv (hremoved k hk)
      rw [hasProcess, ownedPcb_eq_filter, Option.isSome_eq_false_iff, Option.isNone_iff_eq_none]
        at hnone
      simp [hk, hnone]
    · rw [if_neg hk]
      cases hget : pm.pcbTable[k]? with
      | none => rfl
      | some pcb =>
        by_cases howner : pcb.owner = v
        · rw [Option.map_some, dropChildren_eq hkin hget]
          rw [howner]
          exact fun x hx => hasProcess_ne hv (hremoved x hx)
        · have howner' : ¬(dropChildren (pm.subtree owner pid) pcb).owner = v := howner
          simp [howner, howner', Option.filter]
  | move =>
    rw [compactedProcesses, updateStarts_getElem?]
    cases pm.pcbTable[k]? with
    | none => rfl
    | some pcb => by_cases howner : pcb.owner = v <;> simp [howner, unplaced, Option.filter]

theorem processOf_created {args : CreateArguments} {start : UInt32} (hv : v ≠ owner)
    (hfresh : pm.pcbTable[pm.nextPid]? = none) (hc : Created owner args start pm mm pm' mm') :
    processOf v pm' k = processOf v pm k := by
  have hne := ppid_ne_nextPid hfresh hc.parent
  simp only [processOf, ownedPcb_eq_filter, hc.processes]
  rw [spawned_getElem? hne]
  by_cases hk : k = pm.nextPid
  · have howner : ¬owner = v := fun heq => hv heq.symm
    rw [if_pos hk, hk, hfresh]
    simp [newPcb, howner, Option.filter]
  · rw [if_neg hk]
    cases hget : pm.pcbTable[k]? with
    | none => rfl
    | some pcb =>
      simp only [newPcb, Option.map_some, withChild]
      split
      next hlink =>
        obtain ⟨parent, hparent, howner⟩ := hasProcess_iff.mp (hc.parent hlink.1)
        rw [← hlink.2, hget] at hparent
        cases hparent
        have hforeign : ¬pcb.owner = v := fun heq => hv (heq.symm.trans howner)
        simp [hforeign, Option.filter]
      next => rfl

/-! ## Their order in the queues -/

def queueOf (v : Str) (pm : ProcessManager) (q : Fin 3) : List UInt32 :=
  (pm.readyQueues q).filter (pm.hasProcess v)

theorem queueOf_eq (hsame : ∀ k, processOf v pm' k = processOf v pm k)
    (hqueue : (pm'.readyQueues q).filter (pm.hasProcess v) =
      (pm.readyQueues q).filter (pm.hasProcess v)) : queueOf v pm' q = queueOf v pm q := by
  have hfun : pm'.hasProcess v = pm.hasProcess v := by
    funext k
    rw [hasProcess_eq_processOf, hasProcess_eq_processOf, hsame]
  rw [queueOf, hfun, hqueue]
  rfl

theorem filter_requeued (hpid : pm.hasProcess v pid = false) :
    (requeued pm.readyQueues pid pcb q).filter (pm.hasProcess v) =
      (pm.readyQueues q).filter (pm.hasProcess v) := by
  have htail : (if readyLevel pcb = some q then [pid] else []).filter (pm.hasProcess v) = [] := by
    split <;> simp [hpid]
  rw [requeued, List.filter_append, htail, List.append_nil, List.filter_filter]
  refine List.filter_congr fun x _ => ?_
  by_cases hx : x = pid
  · simp [hx, hpid]
  · simp [hx]

theorem filter_pruned (hv : v ≠ owner) (hhas : pm.hasProcess owner pid) :
    ((pm.pruned (pm.subtree owner pid)).readyQueues q).filter (pm.hasProcess v) =
      (pm.readyQueues q).filter (pm.hasProcess v) := by
  simp only [pruned, List.filter_filter]
  refine List.filter_congr fun x _ => ?_
  by_cases hx : x ∈ pm.subtree owner pid
  · simp [hasProcess_ne hv ((subtree_spec hhas).2.2.1 x hx)]
  · simp [hx]

theorem filter_effect (h : Indexed pm) (hv : v ≠ owner)
    (he : Effect cause owner pm mm pm' mm') :
    (pm'.readyQueues q).filter (pm.hasProcess v) =
      (pm.readyQueues q).filter (pm.hasProcess v) := by
  have hforeign : ∀ {pid : UInt32} {pcb : PCB}, pm.ownedPcb owner pid = some pcb →
      pm.hasProcess v pid = false := fun hget =>
    hasProcess_ne hv (hasProcess_iff.mpr ⟨_, ownedPcb_eq_some.mp hget⟩)
  cases he with
  | alloc | free | setAlgorithm => rfl
  | compact =>
    have hqueues : (compactedProcesses pm mm).readyQueues = pm.readyQueues :=
      (updateStarts_eq _ pm).2
    rw [hqueues]
  | swapOut hget => exact filter_requeued (hforeign hget)
  | kill _ hhas => exact filter_pruned hv hhas
  | rewrite hr =>
    obtain ⟨pcb, pcb', hget, -, hs⟩ := hr
    rw [h.stores_eq (ownedPcb_eq_some.mp hget).1 hs]
    exact filter_requeued (hforeign hget)
  | step _ ho =>
    cases ho with
    | idle => rw [h.cleaned_eq]
    | requeue pid pcb _ hget =>
      rw [h.cleaned_eq]
      exact filter_requeued (hforeign hget)
    | finish pid pcb _ hget =>
      rw [h.cleaned_eq]
      exact filter_pruned hv (hasProcess_iff.mpr ⟨pcb, ownedPcb_eq_some.mp hget⟩)

/-! ## Their memory -/

def blocksOf (v : Str) (mm : MemoryManager) : List MemoryBlock :=
  (allocated mm.blocks).filter (·.owner = v)

theorem blocksOf_allocates {new : MemoryBlock} (hnew : new.type ≠ .free) (hv : v ≠ new.owner)
    (hm : Allocates new mm mm') : blocksOf v mm' = blocksOf v mm := by
  obtain ⟨l, r, hold, hadd⟩ := hm.allocated_eq hnew
  have hne : ¬new.owner = v := fun heq => hv heq.symm
  simp [blocksOf, hold, hadd, hne]

theorem blocksOf_releases (hpart : Partition mm) (hv : v ≠ owner)
    (hm : Releases (fun block => isProcessBlock owner pid block) mm mm') :
    blocksOf v mm' = blocksOf v mm := by
  obtain ⟨l, it, r, hold, hit, hdrop⟩ := hpart.allocated_releases hm
  have hne : ¬it.owner = v := fun heq => hv (heq.symm.trans (isProcessBlock_iff.mp hit).2.1)
  simp [blocksOf, hold, hdrop, hne]

theorem blocksOf_releaseAll (hpart : Partition mm) (hv : v ≠ owner) (pids : List UInt32) :
    blocksOf v (Scheduler.releaseAll owner mm pids).1 = blocksOf v mm := by
  have hboth : Partition (Scheduler.releaseAll owner mm pids).1 ∧
      blocksOf v (Scheduler.releaseAll owner mm pids).1 = blocksOf v mm :=
    releaseAll_induction (P := fun mm' => Partition mm' ∧ blocksOf v mm' = blocksOf v mm)
      (fun h hm => ⟨h.1.of_releases hm, (blocksOf_releases h.1 hv hm).trans h.2⟩) pids
      ⟨hpart, rfl⟩
  exact hboth.2

/-- Same blocks in the same order, at possibly other addresses. -/
def Moved (blocks blocks' : List MemoryBlock) : Prop := List.Forall₂ MovedFrom blocks blocks'

theorem moved_refl (blocks : List MemoryBlock) : Moved blocks blocks :=
  List.forall₂_same.mpr fun _ _ => rfl

theorem moved_filter {blocks blocks' : List MemoryBlock} (h : Moved blocks blocks') :
    Moved (blocks.filter (·.owner = v)) (blocks'.filter (·.owner = v)) := by
  induction h with
  | nil => exact .nil
  | @cons x y xs ys hxy _ ih =>
    have howner : y.owner = x.owner := by
      rw [show y = { x with start := y.start } from hxy]
    by_cases hx : x.owner = v
    · have hy : y.owner = v := howner.trans hx
      rw [List.filter_cons_of_pos (by simpa using hx), List.filter_cons_of_pos (by simpa using hy)]
      exact .cons hxy ih
    · have hy : ¬y.owner = v := fun heq => hx (howner.symm.trans heq)
      rw [List.filter_cons_of_neg (by simpa using hx), List.filter_cons_of_neg (by simpa using hy)]
      exact ih

theorem moved_compact (hpart : Partition mm) :
    Moved (blocksOf v mm) (blocksOf v mm.compact.1) := by
  rw [blocksOf, blocksOf, hpart.allocated_compact]
  exact moved_filter (relocate_forall₂ 0 _)

def Located (v : Str) (pm : ProcessManager) (mm : MemoryManager) : Prop :=
  ∀ block ∈ blocksOf v mm, block.type = .process →
    ∃ pcb, pm.ownedPcb v block.pid = some pcb ∧ pcb.memStart = block.start

/-- A compaction writes the new addresses back, whatever the PCBs said before. -/
theorem located_compact (h : Fenced pm mm) :
    Located v (compactedProcesses pm mm) mm.compact.1 := by
  have hbacked := h.backed.compacted h.partition
  intro block hmem htype
  obtain ⟨hblock, howner⟩ := List.mem_filter.mp hmem
  have hmark : _ ∈ held mm.compact.1.blocks block.pid :=
    mem_held.mpr ⟨block, (mem_allocated.mp hblock).1, htype, rfl, rfl⟩
  obtain ⟨pcb, hget, hpcb⟩ :=
    hasProcess_iff.mp ((hbacked block.pid).2 _ (List.mem_map_of_mem hmark))
  refine ⟨pcb, ownedPcb_eq_some.mpr ⟨hget, hpcb.trans (by simpa using howner)⟩, ?_⟩
  -- the block is the only one of its PID, so that the map returned by `compact` has its address
  obtain ⟨mark, hone⟩ := List.length_eq_one_iff.mp
    (Nat.le_antisymm (hbacked.held_le_one block.pid) (List.length_pos_of_mem hmark))
  have hstart := h.partition.compact_starts block.pid
  rw [hone] at hmark hstart
  rw [← List.mem_singleton.mp hmark] at hstart
  rw [compactedProcesses, updateStarts_getElem?, hstart] at hget
  obtain ⟨old, -, rfl⟩ := Option.map_eq_some_iff.mp hget
  rfl

/-! ## One transition -/

/-- What a transition leaves to the user `v`; `moves` allows new start addresses, the ones that
the processes are told. -/
structure Untouched (v : Str) (moves : Prop) (k k' : Kernel) : Prop where
  processes : ∀ pid, processOf v k'.processManager pid = processOf v k.processManager pid
  queues : ∀ q, queueOf v k'.processManager q = queueOf v k.processManager q
  files : k'.vfs.files.filter (·.owner = v) = k.vfs.files.filter (·.owner = v)
  memory : Moved (blocksOf v k.memoryManager) (blocksOf v k'.memoryManager)
  placed : blocksOf v k'.memoryManager = blocksOf v k.memoryManager ∨
    moves ∧ Located v k'.processManager k'.memoryManager

variable {kernel kernel' : Kernel} {command : Command} {success : Bool}

/-- The tables decide, apart from the files. -/
theorem untouched_of_tables
    (hprocesses : ∀ pid, processOf v kernel'.processManager pid =
      processOf v kernel.processManager pid)
    (hqueues : ∀ q, (kernel'.processManager.readyQueues q).filter
        (kernel.processManager.hasProcess v) =
      (kernel.processManager.readyQueues q).filter (kernel.processManager.hasProcess v))
    (hfiles : kernel'.vfs = kernel.vfs)
    (hblocks : blocksOf v kernel'.memoryManager = blocksOf v kernel.memoryManager) :
    Untouched v moves kernel kernel' where
  processes := hprocesses
  queues q := queueOf_eq hprocesses (hqueues q)
  files := by rw [hfiles]
  memory := by
    rw [hblocks]
    exact moved_refl _
  placed := .inl hblocks

theorem Untouched.mono {moves' : Prop} (h : Untouched v moves kernel kernel')
    (hmoves : moves → moves') : Untouched v moves' kernel kernel' :=
  { h with placed := h.placed.imp_right (And.imp_left hmoves) }

theorem untouched_effect (h : Fenced kernel.processManager kernel.memoryManager) (hv : v ≠ owner)
    (he : Effect cause owner kernel.processManager kernel.memoryManager pm mm) :
    Untouched v cause.compacts kernel { kernel with processManager := pm, memoryManager := mm } := by
  have hprocesses : ∀ pid, processOf v pm pid = processOf v kernel.processManager pid := fun pid =>
    processOf_touches h.kin hv he.touches
  have hqueues := fun q => filter_effect (q := q) h.indexed hv he
  have hpart := h.partition
  cases he with
  | alloc htype _ howner hm =>
    exact untouched_of_tables hprocesses hqueues rfl
      (blocksOf_allocates (by simp [htype]) (by rwa [howner]) hm)
  | @free l r it hblocks howner hfree =>
    refine untouched_of_tables hprocesses hqueues rfl ?_
    have hne : ¬it.owner = v := fun heq => hv (heq.symm.trans howner)
    show blocksOf v (kernel.memoryManager.released l it r) = _
    rw [blocksOf, hpart.allocated_released hblocks, blocksOf, hblocks, allocated_append,
      allocated_cons_of_ne hfree]
    simp [hne]
  | setAlgorithm => exact untouched_of_tables hprocesses hqueues rfl rfl
  | compact hcause =>
    exact {
      processes := hprocesses
      queues := fun q => queueOf_eq hprocesses (hqueues q)
      files := rfl
      memory := moved_compact hpart
      placed := .inr ⟨hcause, located_compact h⟩ }
  | swapOut _ _ hm =>
    exact untouched_of_tables hprocesses hqueues rfl (blocksOf_releases hpart hv hm)
  | kill => exact untouched_of_tables hprocesses hqueues rfl (blocksOf_releaseAll hpart hv _)
  | rewrite => exact untouched_of_tables hprocesses hqueues rfl rfl
  | step _ ho =>
    cases ho with
    | idle | requeue => exact untouched_of_tables hprocesses hqueues rfl rfl
    | finish => exact untouched_of_tables hprocesses hqueues rfl (blocksOf_releaseAll hpart hv _)

theorem untouched_refl : Untouched v moves kernel kernel :=
  untouched_of_tables (fun _ => rfl) (fun _ => rfl) rfl rfl

theorem untouched_change (h : Fenced kernel.processManager kernel.memoryManager)
    (hfresh : CreatesFresh command kernel) (hv : kernel.userManager.currentUser ≠ some v)
    (hc : Change command kernel kernel' success) :
    Untouched v (command.name = str "compact") kernel kernel' := by
  have hother : ∀ {owner : Str}, kernel.userManager.currentUser = some owner → v ≠ owner :=
    fun hlogin heq => hv (heq ▸ hlogin)
  cases hc with
  | same | register | login | logout | exit | start | stop =>
    exact untouched_of_tables (fun _ => rfl) (fun _ => rfl) rfl rfl
  | create owner args hname hlogin hargs halloc hcreate =>
    have hnew := hfresh hname owner hlogin args hargs (creates_of_ok halloc hcreate)
    have hcreated := created_of_ok h.partition hnew halloc hcreate
    have hself : kernel.processManager.hasProcess v kernel.processManager.nextPid = false := by
      simp [hasProcess, ownedPcb_eq_filter, hnew]
    refine untouched_of_tables (fun pid => processOf_created (hother hlogin) hnew hcreated)
      (fun q => ?_) rfl (blocksOf_allocates (by simp) (hother hlogin) hcreated.allocates)
    simp only [hcreated.processes]
    exact filter_requeued hself
  | rollback owner args hname hlogin hargs halloc =>
    have hm := (h.partition.allocates halloc).2
    refine untouched_of_tables (fun _ => rfl) (fun _ => rfl) rfl ?_
    exact (blocksOf_releases (h.partition.of_allocates (by simp) hm) (hother hlogin)
      (releases_rolledBack h.partition halloc)).trans
        (blocksOf_allocates (by simp) (hother hlogin) hm)
  | swapHalf owner pid hlogin hmem =>
    exact untouched_of_tables (fun _ => rfl) (fun _ => rfl) rfl
      (blocksOf_releases h.partition (hother hlogin) (swapOutProcess_spec hmem))
  | act owner hlogin ha => exact untouched_effect h (hother hlogin) (h.effect_of_action ha)
  | files owner hlogin hf =>
    exact {
      processes := fun _ => rfl
      queues := fun _ => rfl
      files := hf.filter_eq (hother hlogin)
      memory := moved_refl _
      placed := .inl rfl }
  | restart =>
    refine untouched_of_tables (fun _ => rfl) (fun q => ?_) rfl rfl
    have hclean := h.indexed.cleaned_eq
    unfold cleaned at hclean
    simp only [haltScheduler, runScheduler, hclean]

/-! ## The session of the automatic scheduler -/

/-- The automatic scheduler runs for the user who is logged in. -/
def Attended (k : Kernel) : Prop :=
  k.schedulerRunning = true → k.userManager.currentUser = some k.schedulerOwner

theorem login_currentUser {um : UserManager} {username password current : Str}
    (h : um.currentUser = some current) :
    (um.login username password).1.currentUser = some current := by
  simp [UserManager.login, h]

theorem registerUser_currentUser {um um' : UserManager} {now : Int64}
    {username password message : Str}
    (h : um.registerUser now username password = .ok (um', message)) :
    um'.currentUser = um.currentUser := by
  unfold UserManager.registerUser at h
  split at h
  · cases h
  · cases h
  · split at h
    · cases h
    · rw [← (Prod.mk.inj (Except.ok.inj h)).1]

theorem attended_change (h : Attended kernel) (hc : Change command kernel kernel' success) :
    Attended kernel' := by
  cases hc with
  | same | create | rollback | swapHalf | act | files => exact h
  | register now username password hregister =>
    intro hrunning
    exact (registerUser_currentUser hregister).trans (h hrunning)
  | login => exact fun hrunning => login_currentUser (h hrunning)
  | logout | exit | stop => exact fun hrunning => by cases hrunning
  | start owner hlogin => exact fun _ => hlogin
  | restart owner hlogin => exact fun _ => hlogin

theorem attended_tick (h : Attended kernel) : Attended kernel.schedulerTick.1 :=
  tick_keeps (P := Attended) h fun _ _ => h

theorem untouched_tick (h : Fenced kernel.processManager kernel.memoryManager)
    (hattended : Attended kernel) (hv : kernel.userManager.currentUser ≠ some v) :
    Untouched v False kernel kernel.schedulerTick.1 := by
  apply tick_keeps (P := Untouched v False kernel) untouched_refl
  intro pm mm hrunning ha
  have hother : v ≠ kernel.schedulerOwner := fun hsame => hv (hsame ▸ hattended hrunning)
  exact untouched_effect h hother (h.effect_of_action ha)

theorem schedulerTick_of_no_session (hattended : Attended kernel)
    (hnone : kernel.userManager.currentUser = none) : kernel.schedulerTick.1 = kernel := by
  rcases schedulerTick_cases kernel with heq | ⟨hrunning, -⟩
  · exact heq
  · rw [hattended hrunning] at hnone
    cases hnone

end Kernel

namespace World

open Kernel

/-- A request that creates a process finds its PID unused. -/
def CreatesFresh (w : World) (event : Event) : Prop :=
  ∀ command, event.command = some command → Kernel.CreatesFresh command w.kernel

variable {w : World} {event : Event} {events : List Event} {v : Str}

theorem fenced_step (h : Fenced w.kernel.processManager w.kernel.memoryManager)
    (hload : ¬event.Named (str "load")) (hfresh : w.CreatesFresh event) :
    Fenced (w.step event).kernel.processManager (w.step event).kernel.memoryManager := by
  apply step_keeps (P := fun k => Fenced k.processManager k.memoryManager) hload
  · exact fun hcommand hc => fenced_change h (hfresh _ hcommand) hc
  · exact fenced_tick h

theorem attended_step (h : Attended w.kernel) (hload : ¬event.Named (str "load")) :
    Attended (w.step event).kernel := by
  apply step_keeps (P := Attended) hload
  · exact fun _ hc => attended_change h hc
  · exact attended_tick h

/-- The condition under which users are isolated. -/
def Separate (w : World) (event : Event) : Prop :=
  ¬event.Named (str "load") ∧ w.CreatesFresh event

theorem fenced_run (hclean : w.kernel.Clean) (hok : Runs.Permitted step Separate w events) :
    Fenced (Runs.run step w events).kernel.processManager
        (Runs.run step w events).kernel.memoryManager ∧
      Attended (Runs.run step w events).kernel :=
  Runs.run_invariant' (P := fun w : World =>
      Fenced w.kernel.processManager w.kernel.memoryManager ∧ Attended w.kernel)
    (fun _ _ h hok => ⟨fenced_step h.1 hok.1 hok.2, attended_step h.2 hok.1⟩)
    ⟨hclean.regular.core.fenced,
      fun hrunning => by rw [hclean.running] at hrunning; cases hrunning⟩ hok

theorem separate_of_budget (hclean : w.kernel.Clean) (hload : NoLoad events)
    (hbudget : Runs.total step creations w events < 2 ^ 32 - 1) :
    Runs.Permitted step Separate w events :=
  Runs.permitted_of_invariant (P := fun n (w : World) => Regular n w.kernel)
    (fun _ _ event h (hok : ¬event.Named (str "load")) hlt => regular_step h hok hlt)
    (fun _ _ _ h hok => ⟨hok, fun _ _ => createsFresh_of_numbered h.counts.numbered⟩)
    hclean.regular (hload.permitted w) (by rwa [Nat.zero_add])

/-- A transition leaves the data of a user without an open session alone. -/
theorem untouched_step (h : Fenced w.kernel.processManager w.kernel.memoryManager)
    (hattended : Attended w.kernel) (hok : w.Separate event)
    (hv : w.kernel.userManager.currentUser ≠ some v) :
    Untouched v (event.Named (str "compact")) w.kernel (w.step event).kernel := by
  cases event with
  | request env request =>
    have hname : (parse request.rawLine).name ≠ str "load" := fun heq => hok.1 ⟨_, rfl, heq⟩
    exact (untouched_change h (hok.2 _ rfl) hv
      (executeRequest_change w.kernel env w.disk request hname)).mono fun heq => ⟨_, rfl, heq⟩
  | tick => exact (untouched_tick h hattended hv).mono False.elim

/-- In every run from a clean start in which no creation that goes through takes the PID of a live
process, every transition leaves alone the processes, the queue order, the files and the memory of
every user who is not logged in at that moment; start addresses change only by `compact`, and then
to the new address of the process.  A turn of the scheduler changes something only for the user who
is logged in. -/
theorem isolation_of_run {w : World} (hclean : w.kernel.Clean) {events : List Event} {event : Event}
    (hok : Runs.Permitted step Separate w (events ++ [event])) :
    let before := Runs.run step w events
    let after := before.step event
    (∀ v, before.kernel.userManager.currentUser ≠ some v →
      Untouched v (event.Named (str "compact")) before.kernel after.kernel) ∧
    (before.kernel.userManager.currentUser = none →
      before.kernel.schedulerTick.1 = before.kernel) ∧
    (before.kernel.schedulerTick.1 ≠ before.kernel →
      before.kernel.userManager.currentUser = some before.kernel.schedulerOwner) := by
  intro before after
  obtain ⟨hpast, hlast, -⟩ := Runs.permitted_append.mp hok
  obtain ⟨hfenced, hattended⟩ := fenced_run hclean hpast
  refine ⟨fun v hv => untouched_step hfenced hattended hlast hv,
    schedulerTick_of_no_session hattended, fun hne => ?_⟩
  rcases schedulerTick_cases before.kernel with heq | ⟨hrunning, -⟩
  · exact absurd heq hne
  · exact hattended hrunning

/-- A compaction by `b`, who has freed the block below a process of `a`. -/
theorem isolation_of_run_compact :
    let w : World := { kernel := Kernel.start {} ∅ }
    let before := Runs.run step w [console "register b pw", console "login b pw",
      console "alloc x 16", console "logout", console "register a pw", console "login a pw",
      console "create_pcb p 4 1 5", console "logout", console "login b pw", console "free_mem 0"]
    let after := before.step (console "compact")
    Untouched (str "a") ((console "compact").Named (str "compact")) before.kernel after.kernel ∧
      (before.kernel.processManager.ownedPcb (str "a") 1).map PCB.memStart = some 16 ∧
      (after.kernel.processManager.ownedPcb (str "a") 1).map PCB.memStart = some 0 := by
  intro w before after
  have hseparate : Runs.Permitted step Separate w ([console "register b pw", console "login b pw",
      console "alloc x 16", console "logout", console "register a pw", console "login a pw",
      console "create_pcb p 4 1 5", console "logout", console "login b pw",
      console "free_mem 0"] ++ [console "compact"]) :=
    separate_of_budget (clean_start {} ∅ fun _ h => by cases h) (by decide)
      (Nat.lt_of_le_of_lt (Runs.total_le_length creations_le_one _ _) (by decide))
  exact ⟨(isolation_of_run (clean_start {} ∅ fun _ h => by cases h) hseparate).1 (str "a")
    (by decide +kernel), by decide +kernel, by decide +kernel⟩

end World

end OSCoreSim
