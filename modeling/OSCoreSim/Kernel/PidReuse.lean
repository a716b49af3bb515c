import OSCoreSim.Kernel.Isolation
/-!
# PIDs come round again

The PID counter is never checked against the table, so after `2 ^ 32` creations it reaches
PIDs that are still in use.  A user who creates a process and lets it run to its end, again
and again, leaves everything as it was apart from the counter; when the counter has come
round to a live PID of somebody else, the next creation moves that PID to the tail of its
ready queue.
-/

namespace OSCoreSim

open MemoryManager ProcessManager CommandDispatcher

namespace Kernel

variable {k : Kernel} {env : Environment} {fs : FileSystem} {request : CommandRequest}
  {owner : Str} {pm pm' : ProcessManager} {mm mm' : MemoryManager} {pid : UInt32}

/-! ## Two requests -/

theorem createCommand_ok {arguments : List Str} (managers : Managers) {args : CreateArguments}
    {start : UInt32} {text message : Str} (hargs : parseCreateArguments arguments = some args)
    (hlogin : managers.users.currentUser = some owner)
    (halloc : managers.memory.allocateForProcess owner managers.processes.nextPid args.name
      args.memKB = .ok (mm, start, text))
    (hcreate : managers.processes.createProcessWithMemory owner args.name args.memKB start
      args.priority args.totalTime args.ppid = .ok (pm, pid, message)) :
    (createCommand managers arguments).1 =
      { managers with processes := pm, memory := mm } := by
  have hin : managers.users.isLoggedIn = true := by simp [UserManager.isLoggedIn, hlogin]
  have hcurrent : managers.users.currentUserName = owner := currentUserName_of_login hlogin
  simp only [createCommand, requireLogin, hin, if_true, hargs, hcurrent, createWithMemory, halloc,
    hcreate]

theorem executeRequest_step (hcommand : (parse request.rawLine).name = str "step" ∧
      (parse request.rawLine).arguments = [])
    (hlogin : k.userManager.currentUser = some owner) :
    (k.executeRequest env fs request).1 = (k.schedulerStep owner).1 := by
  unfold executeRequest
  generalize parse request.rawLine = command at hcommand ⊢
  obtain ⟨hname, hargs⟩ := hcommand
  have hin : k.userManager.isLoggedIn = true := by simp [UserManager.isLoggedIn, hlogin]
  have hcurrent : k.userManager.currentUserName = owner := currentUserName_of_login hlogin
  have hhandle : k.handleSchedulerCommand command =
      ((k.schedulerStep owner).1, reply true (k.schedulerStep owner).2) := by
    unfold handleSchedulerCommand
    simp [hin, hargs, hname, hcurrent]
  have hroute : k.routeCommand env fs request command =
      ((k.schedulerStep owner).1, fs, reply true (k.schedulerStep owner).2) := by
    unfold routeCommand
    rw [hhandle, hname]
    rfl
  have hnot : ¬command.name = str "logout" := by
    rw [hname]
    decide
  simp only [hroute, reply, hnot, and_false, or_false, Bool.false_eq_true, if_false]

/-! ## One process from its creation to its end -/

theorem subtree_lone (honly : ∀ k : UInt32, pm.hasProcess owner k = true → k = pid)
    (hhas : pm.hasProcess owner pid = true) : pm.subtree owner pid = [pid] := by
  obtain ⟨hroot, hnodup, howned, -⟩ := subtree_spec hhas
  have hall := List.eq_replicate_of_mem fun x hx => honly x (howned x hx)
  rw [hall] at hnodup hroot ⊢
  have hle := List.nodup_replicate.mp hnodup
  have hpos : (pm.subtree owner pid).length ≠ 0 := (List.mem_replicate.mp hroot).1
  rw [show (pm.subtree owner pid).length = 1 by omega]
  rfl

theorem selectedPid_lone (honly : ∀ k : UInt32, pm.hasProcess owner k = true → k = pid)
    (hhas : pm.hasProcess owner pid = true) {q : Fin 3}
    (hmem : pid ∈ pm.cleaned.readyQueues q) : pm.selectedPid owner = some pid := by
  unfold selectedPid
  rcases pickNextReadyProcess_spec pm owner with
    ⟨-, hforeign⟩ | ⟨picked, k, pcb, hpick, hget, howner, -⟩
  · rw [hforeign q _ hmem] at hhas
    cases hhas
  · rw [hpick, honly k (hasProcess_iff.mpr ⟨pcb, hget, howner⟩)]

theorem pruned_spawned (h : Core pm mm) (hfresh : pm.pcbTable[pm.nextPid]? = none) {pcb : PCB}
    (hroot : pcb.ppid = 0) :
    (pm.spawned pcb).pruned [pm.nextPid] = { pm with nextPid := pm.nextPid + 1 } := by
  have htable : ((pm.spawned pcb).pruned [pm.nextPid]).pcbTable = pm.pcbTable := by
    apply Std.ExtTreeMap.ext_getElem?
    intro k
    rw [pruned_getElem?, spawned_getElem?_of_root hroot]
    by_cases hk : k = pm.nextPid
    · simp [hk, hfresh]
    · simp only [List.mem_singleton, hk, if_false]
      cases hget : pm.pcbTable[k]? with
      | none => rfl
      | some old =>
        rw [Option.map_some, dropChildren_eq h.kin hget]
        intro x hx
        rw [List.mem_singleton.mp hx]
        simp [hasProcess, ownedPcb_eq_filter, hfresh]
  have hunqueued : ∀ q, pm.nextPid ∉ pm.readyQueues q := by
    intro q hmem
    obtain ⟨old, hget, -⟩ := (h.indexed.mem_iff q pm.nextPid).mp hmem
    rw [hfresh] at hget
    cases hget
  have hqueues : ((pm.spawned pcb).pruned [pm.nextPid]).readyQueues = pm.readyQueues := by
    funext q
    simp only [pruned, spawned, requeued, List.filter_append, List.filter_filter]
    have htail : ∀ c : Prop, ∀ _ : Decidable c,
        (if c then [pm.nextPid] else []).filter (· ∉ [pm.nextPid]) = [] := by
      intro c _
      split <;> simp
    rw [htail, List.append_nil]
    refine List.filter_eq_self.mpr fun x hx => ?_
    have hxne : x ≠ pm.nextPid := fun heq => hunqueued q (heq ▸ hx)
    simp [hxne]
  have hnext : ((pm.spawned pcb).pruned [pm.nextPid]).nextPid = pm.nextPid + 1 := rfl
  generalize (pm.spawned pcb).pruned [pm.nextPid] = last at htable hqueues hnext ⊢
  cases last
  simp_all

/-- A process that is created and completes in the next step leaves the counter behind. -/
theorem cycle_processes (h : Core pm mm) (hfresh : pm.pcbTable[pm.nextPid]? = none)
    (hnone : ∀ pid, pm.hasProcess owner pid = false) {args : CreateArguments} {start : UInt32}
    (hparent : args.ppid = none) (hpriority : args.priority = 0) (htime : args.totalTime = 1)
    (hc : Created owner args start pm mm pm' mm') :
    (Scheduler.step owner pm' mm').1 = { pm with nextPid := pm.nextPid + 1 } ∧
      (Scheduler.step owner pm' mm').2.1 = (Scheduler.releaseAll owner mm' [pm.nextPid]).1 := by
  have hcore := h.created hfresh hc
  let new := newPcb pm.nextPid (args.ppid.getD 0) owner args.name args.memKB start args.priority
    args.totalTime
  have hroot : new.ppid = 0 := by simp [new, newPcb, hparent]
  have hpm : pm' = pm.spawned new := hc.processes
  have honly : ∀ k : UInt32, pm'.hasProcess owner k = true → k = pm.nextPid := by
    intro k hk
    by_contra hkne
    obtain ⟨pcb, hget, howner⟩ := hasProcess_iff.mp hk
    rw [hpm, spawned_getElem?_of_root hroot, if_neg hkne] at hget
    have hold : pm.hasProcess owner k = true := hasProcess_iff.mpr ⟨pcb, hget, howner⟩
    rw [hnone k] at hold
    cases hold
  have hnew : pm'.pcbTable[pm.nextPid]? = some new := by
    rw [hpm, spawned_getElem?_of_root hroot, if_pos rfl]
  have hhas : pm'.hasProcess owner pm.nextPid = true := hasProcess_iff.mpr ⟨new, hnew, rfl⟩
  have hselected : pm'.selectedPid owner = some pm.nextPid := by
    refine selectedPid_lone honly hhas (q := 0) ?_
    rw [hcore.indexed.cleaned_eq, hcore.indexed.mem_iff]
    refine ⟨new, hnew, readyLevel_eq_some.mpr ⟨rfl, ?_⟩⟩
    show queueIndex (queueLevelForPriority args.priority) = some 0
    rw [hpriority]
    decide
  have ho := Scheduler.step_outcome owner mm' hcore.indexed.keyed
  generalize Scheduler.step owner pm' mm' = out at ho ⊢
  obtain ⟨last, freed, text⟩ := out
  simp only at ho ⊢
  cases ho with
  | idle hsel =>
    rw [hselected] at hsel
    cases hsel
  | requeue k pcb hsel hget _ _ hleft =>
    -- one time unit is no more than any quantum
    rw [hselected] at hsel
    cases hsel
    obtain rfl := Option.some.inj ((ownedPcb_eq_some.mp hget).1.symm.trans hnew)
    simp [new, newPcb, hpriority, htime] at hleft
    exact absurd hleft (by decide)
  | finish k pcb hsel hget =>
    rw [hselected] at hsel
    cases hsel
    rw [subtree_lone honly hhas, hcore.indexed.cleaned_eq, hpm]
    exact ⟨pruned_spawned h hfresh hroot, rfl⟩

def briefArgs : CreateArguments := ⟨str "p", 1, 0, 1, none⟩

theorem createProcess_brief (pm : ProcessManager) (hne : owner ≠ []) (start : UInt32) :
    ∃ pm' pid message, pm.createProcessWithMemory owner briefArgs.name briefArgs.memKB start
      briefArgs.priority briefArgs.totalTime briefArgs.ppid = .ok (pm', pid, message) := by
  unfold createProcessWithMemory
  rw [if_neg hne, if_neg (by decide), if_neg (by decide), if_neg (by decide), if_neg (by decide)]
  simp only [briefArgs, Option.getD_none, ne_eq, not_true_eq_false, false_and, if_false]
  exact ⟨_, _, _, rfl⟩

theorem allocate_brief (hne : owner ≠ []) (hroom : (mm.findFreeBlock 1).isSome) (pid : UInt32) :
    ∃ mm' start text, mm.allocateForProcess owner pid briefArgs.name briefArgs.memKB =
      .ok (mm', start, text) := by
  obtain ⟨i, hfind⟩ := Option.isSome_iff_exists.mp hroom
  obtain ⟨it, hget, -⟩ := findFreeBlock_spec hfind
  have hfind' : mm.findFreeBlock briefArgs.memKB = some i := hfind
  unfold allocateForProcess allocateLocked
  rw [if_neg hne, if_neg (by decide), hfind']
  simp only [hget]
  exact ⟨_, _, _, rfl⟩

structure Idle (owner : Str) (k : Kernel) : Prop where
  core : Core k.processManager k.memoryManager
  login : k.userManager.currentUser = some owner
  owner_ne : owner ≠ []
  none : ∀ pid, k.processManager.hasProcess owner pid = false
  room : (k.memoryManager.findFreeBlock 1).isSome

def withNextPid (k : Kernel) (nextPid : UInt32) : Kernel :=
  { k with processManager := { k.processManager with nextPid := nextPid } }

theorem Idle.withNextPid (h : Idle owner k) (nextPid : UInt32) :
    Idle owner (k.withNextPid nextPid) where
  core :=
    { matched := ⟨h.core.matched.keyed, h.core.matched.partition, h.core.matched.agree⟩
      indexed := { h.core.indexed with }
      kin := h.core.kin
      zeroed := h.core.zeroed
      untagged := h.core.untagged }
  login := h.login
  owner_ne := h.owner_ne
  none := h.none
  room := h.room

end Kernel

namespace World

open Kernel

/-- A process that completes in its first step. -/
def briefLife : List Event := [console "create_pcb p 1 0 1", console "step"]

theorem run_briefLife {w : World} {owner : Str} (h : Idle owner w.kernel)
    (hfresh : w.kernel.processManager.pcbTable[w.kernel.processManager.nextPid]? = none) :
    (Runs.run step w briefLife).kernel =
      w.kernel.withNextPid (w.kernel.processManager.nextPid + 1) := by
  obtain ⟨mm', start, text, halloc⟩ := allocate_brief h.owner_ne h.room
    w.kernel.processManager.nextPid
  obtain ⟨pm', pid, message, hcreate⟩ := createProcess_brief w.kernel.processManager
    h.owner_ne start
  have hcreated := created_of_ok h.core.matched.partition hfresh halloc hcreate
  have hfirst : (w.step (console "create_pcb p 1 0 1")).kernel =
      { w.kernel with processManager := pm', memoryManager := mm' } := by
    have hargs : parseCreateArguments [str "p", str "1", str "0", str "1"] = some briefArgs := by
      decide
    have hcreate' := createCommand_ok w.kernel.managers hargs h.login halloc hcreate
    have hrequest := executeRequest_create w.kernel quietEnvironment w.disk
      { rawLine := str "create_pcb p 1 0 1" } (by decide)
    refine (congrArg Prod.fst hrequest).trans ?_
    exact congrArg w.kernel.withManagers hcreate'
  obtain ⟨hpm, hmm⟩ := cycle_processes h.core hfresh h.none rfl rfl rfl hcreated
  have hback := (h.core.matched.rolledBack hfresh halloc).2.2 h.core.untagged
  have hrelease : (Scheduler.releaseAll owner mm' [w.kernel.processManager.nextPid]).1 =
      w.kernel.memoryManager := by
    rw [← hback]
    unfold Scheduler.releaseAll rolledBack
    cases mm'.freeByPid owner w.kernel.processManager.nextPid <;> rfl
  have hsecond : ((w.step (console "create_pcb p 1 0 1")).step (console "step")).kernel =
      ((w.step (console "create_pcb p 1 0 1")).kernel.schedulerStep owner).1 :=
    executeRequest_step (by decide) (by rw [hfirst]; exact h.login)
  show ((w.step (console "create_pcb p 1 0 1")).step (console "step")).kernel = _
  rw [hsecond, hfirst]
  simp only [schedulerStep, hpm, hmm, hrelease]
  rfl

theorem run_briefLives {owner : Str} (cycles : ℕ) {w : World} (h : Idle owner w.kernel)
    (hfresh : ∀ i < cycles, w.kernel.processManager.pcbTable[
      w.kernel.processManager.nextPid + UInt32.ofNat i]? = none) :
    (Runs.run step w (List.replicate cycles briefLife).flatten).kernel =
      w.kernel.withNextPid (w.kernel.processManager.nextPid + UInt32.ofNat cycles) := by
  induction cycles generalizing w with
  | zero =>
    have hzero : w.kernel.processManager.nextPid + UInt32.ofNat 0 =
        w.kernel.processManager.nextPid := UInt32.add_zero _
    rw [hzero]
    rfl
  | succ cycles ih =>
    have hone := run_briefLife h (by simpa using hfresh 0 (Nat.zero_lt_succ cycles))
    have hshift : ∀ i : ℕ, w.kernel.processManager.nextPid + 1 + UInt32.ofNat i =
        w.kernel.processManager.nextPid + UInt32.ofNat (i + 1) := by
      intro i
      rw [UInt32.ofNat_add, UInt32.add_assoc, UInt32.add_comm 1]
      rfl
    rw [List.replicate_succ, List.flatten_cons, Runs.run_append,
      ih (by rw [hone]; exact h.withNextPid _) fun i hi => ?_]
    · rw [hone]
      simp only [withNextPid, hshift]
    · rw [hone]
      show w.kernel.processManager.pcbTable[w.kernel.processManager.nextPid + 1 +
        UInt32.ofNat i]? = none
      rw [hshift]
      exact hfresh (i + 1) (by omega)

/-! ## The collision -/

def twoUsers : List Event := [console "register a pw", console "register b pw",
  console "login a pw", console "create_pcb p 1 0 9", console "create_pcb p 1 0 9",
  console "logout", console "login b pw"]

def booted : World := { kernel := Kernel.start {} ∅ }

theorem clean_booted : booted.kernel.Clean := clean_start {} ∅ fun _ h => by cases h

theorem table_twoUsers : (Runs.run step booted twoUsers).kernel.processManager.pcbTable.toList.map
    (fun entry => (entry.1, entry.2.owner)) = [(1, str "a"), (2, str "a")] := by
  decide +kernel

theorem mem_twoUsers {pid : UInt32} {pcb : PCB}
    (h : (Runs.run step booted twoUsers).kernel.processManager.pcbTable[pid]? = some pcb) :
    (pid = 1 ∨ pid = 2) ∧ pcb.owner = str "a" := by
  have hmem := List.mem_map_of_mem (f := fun entry : UInt32 × PCB => (entry.1, entry.2.owner))
    (Std.ExtTreeMap.mem_toList_iff_getElem?_eq_some.mpr h)
  rw [table_twoUsers] at hmem
  simp only [List.mem_cons, Prod.mk.injEq, List.not_mem_nil, or_false] at hmem
  rcases hmem with ⟨hpid, howner⟩ | ⟨hpid, howner⟩
  · exact ⟨.inl hpid, howner⟩
  · exact ⟨.inr hpid, howner⟩

theorem idle_twoUsers : Idle (str "b") (Runs.run step booted twoUsers).kernel where
  core := (regular_run clean_booted (by decide)
    (Nat.lt_of_le_of_lt (Runs.total_le_length creations_le_one _ _) (by decide))).core
  login := by decide +kernel
  owner_ne := by decide
  none pid := by
    by_contra hhas
    obtain ⟨pcb, hget, howner⟩ := hasProcess_iff.mp (by simpa using hhas)
    rw [(mem_twoUsers hget).2] at howner
    revert howner
    decide
  room := by decide +kernel

/-- So many brief lives of `b` after the processes of `a`. -/
def pidWrap (cycles : ℕ) : List Event :=
  twoUsers ++ (List.replicate cycles briefLife).flatten

theorem run_pidWrap {cycles : ℕ} (hle : cycles ≤ 4294967294) :
    (Runs.run step booted (pidWrap cycles)).kernel =
      (Runs.run step booted twoUsers).kernel.withNextPid (3 + UInt32.ofNat cycles) := by
  have hnext : (Runs.run step booted twoUsers).kernel.processManager.nextPid = 3 := by
    decide +kernel
  rw [pidWrap, Runs.run_append, run_briefLives cycles idle_twoUsers, hnext]
  intro i hi
  rw [hnext]
  cases hget : (Runs.run step booted twoUsers).kernel.processManager.pcbTable[
    3 + UInt32.ofNat i]? with
  | none => rfl
  | some pcb =>
    have hthree : (3 + UInt32.ofNat i).toNat = (3 + i) % 2 ^ 32 := by
      rw [UInt32.toNat_add, UInt32.toNat_ofNat']
      show (3 + i % 2 ^ 32) % 2 ^ 32 = _
      omega
    rcases (mem_twoUsers hget).1 with hpid | hpid
    · rw [hpid, show (1 : UInt32).toNat = 1 from rfl] at hthree
      omega
    · rw [hpid, show (2 : UInt32).toNat = 2 from rfl] at hthree
      omega

theorem noLoad_pidWrap (cycles : ℕ) :
    NoLoad (pidWrap cycles ++ [console "create_pcb p 1 0 1"]) := by
  intro event hmem
  have hcases : event ∈ twoUsers ∨ event ∈ briefLife := by
    simp only [pidWrap, List.mem_append, List.mem_flatten, List.mem_replicate,
      List.mem_singleton] at hmem
    rcases hmem with (hmem | ⟨_, ⟨-, rfl⟩, hmem⟩) | rfl
    · exact .inl hmem
    · exact .inr hmem
    · exact .inr List.mem_cons_self
  have hall : NoLoad (twoUsers ++ briefLife) := by decide
  exact hall event (List.mem_append.mpr hcases)

/-- When the counter stands at 1, a creation of `b` reorders the ready queue of `a`. -/
theorem reordered_of_wrap {cycles : ℕ} (hle : cycles ≤ 4294967294)
    (hwrap : 3 + UInt32.ofNat cycles = 1) :
    let before := Runs.run step booted (pidWrap cycles)
    let after := before.step (console "create_pcb p 1 0 1")
    before.kernel.userManager.currentUser = some (str "b") ∧
      queueOf (str "a") before.kernel.processManager 0 = [1, 2] ∧
      queueOf (str "a") after.kernel.processManager 0 = [2, 1] := by
  intro before after
  have hbefore : before.kernel = (Runs.run step booted twoUsers).kernel.withNextPid 1 := by
    rw [← hwrap]
    exact run_pidWrap hle
  have hafter : after.kernel = before.kernel.withManagers
      (createCommand before.kernel.managers [str "p", str "1", str "0", str "1"]).1 :=
    congrArg Prod.fst (executeRequest_create before.kernel quietEnvironment before.disk
      { rawLine := str "create_pcb p 1 0 1" } (by decide))
  refine ⟨?_, ?_, ?_⟩
  · rw [hbefore]
    exact idle_twoUsers.login
  · rw [hbefore]
    decide +kernel
  · rw [hafter, hbefore]
    decide +kernel

/-- After `2 ^ 32 - 2` brief lives of `b` the next creation of `b` changes the order of the
processes of `a`, who is not logged in. -/
theorem isolation_fails_at_wrap :
    let before := Runs.run step booted (pidWrap 4294967294)
    let after := before.step (console "create_pcb p 1 0 1")
    booted.kernel.Clean ∧ NoLoad (pidWrap 4294967294 ++ [console "create_pcb p 1 0 1"]) ∧
      before.kernel.userManager.currentUser = some (str "b") ∧
      queueOf (str "a") before.kernel.processManager 0 = [1, 2] ∧
      queueOf (str "a") after.kernel.processManager 0 = [2, 1] :=
  ⟨clean_booted, noLoad_pidWrap _, reordered_of_wrap (Nat.le_refl _) (by decide)⟩

end World

end OSCoreSim
