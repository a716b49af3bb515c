import OSCoreSim.Lib.KeyedTable
import OSCoreSim.Lib.DepthFirst
import OSCoreSim.Process.ProcessManager
/-!
# What the process operations do

Every operation on the process table has one of four shapes: it rewrites one PCB and
moves its PID to the queue that the new PCB asks for (`relinked`), it adds a process
(`spawned`), it removes a subtree (`pruned`), or it changes one start address.  The
lemmas here reduce the operations to these shapes; nothing later unfolds them.
-/

namespace OSCoreSim

namespace ProcessManager

variable {pm pm' : ProcessManager} {owner name message : Str} {pid k : UInt32} {pcb pcb' : PCB}

/-! ## Lookups -/

theorem ownedPcb_eq_some :
    pm.ownedPcb owner pid = some pcb ↔ pm.pcbTable[pid]? = some pcb ∧ pcb.owner = owner := by
  unfold ownedPcb
  cases htable : pm.pcbTable[pid]? with
  | none => simp
  | some found =>
    by_cases howner : found.owner = owner
    · simp only [howner, if_true, Option.some.injEq]
      constructor
      · rintro rfl
        exact ⟨rfl, howner⟩
      · exact And.left
    · simp only [howner, if_false, Option.some.injEq, reduceCtorEq, false_iff, not_and]
      rintro rfl
      exact howner

theorem hasProcess_iff : pm.hasProcess owner pid = true ↔
    ∃ pcb, pm.pcbTable[pid]? = some pcb ∧ pcb.owner = owner := by
  simp only [hasProcess, Option.isSome_iff_exists, ownedPcb_eq_some]

def Keyed (pm : ProcessManager) : Prop :=
  ∀ (k : UInt32) (pcb : PCB), pm.pcbTable[k]? = some pcb → pcb.pid = k

theorem Keyed.insert (h : pm.Keyed) (hget : pm.pcbTable[pid]? = some pcb)
    (hpid : pcb'.pid = pcb.pid) (htable : pm'.pcbTable = pm.pcbTable.insert pid pcb') :
    pm'.Keyed := by
  intro k found hfound
  rw [htable, KeyedTable.getElem?_insert] at hfound
  split at hfound
  next hk =>
    cases hfound
    rw [hpid, h pid pcb hget, hk]
  next => exact h k found hfound

theorem hasProcess_insert (hget : pm.pcbTable[pid]? = some pcb) (howner : pcb'.owner = pcb.owner)
    (htable : pm'.pcbTable = pm.pcbTable.insert pid pcb') :
    pm'.hasProcess owner k = pm.hasProcess owner k := by
  rw [Bool.eq_iff_iff, hasProcess_iff, hasProcess_iff, htable]
  by_cases hk : pid = k
  · subst hk
    simp [hget, howner]
  · simp [KeyedTable.getElem?_insert, hk]

/-! ## Rewriting one PCB -/

def readyLevel (pcb : PCB) : Option (Fin 3) :=
  if pcb.state = .ready then queueIndex pcb.queueLevel else none

/-- The queues after `pid` is taken out and put at the tail of the queue that `pcb` asks for. -/
def requeued (queues : ReadyQueues) (pid : UInt32) (pcb : PCB) (q : Fin 3) : List UInt32 :=
  (queues q).filter (· ≠ pid) ++ if readyLevel pcb = some q then [pid] else []

/-- The PCB of `pid` becomes `pcb`, and `pid` moves to the queue that `pcb` asks for. -/
def relinked (pm : ProcessManager) (pid : UInt32) (pcb : PCB) : ProcessManager :=
  { nextPid := pm.nextPid, pcbTable := pm.pcbTable.insert pid pcb
    readyQueues := requeued pm.readyQueues pid pcb }

theorem readyLevel_of_ne (h : pcb.state ≠ .ready) : readyLevel pcb = none := if_neg h

theorem requeued_filter (queues : ReadyQueues) :
    requeued (fun q => (queues q).filter (· ≠ pid)) pid pcb = requeued queues pid pcb := by
  funext q
  simp [requeued, List.filter_filter]

theorem enqueueReady_eq (hget : pm.pcbTable[pid]? = some pcb) (hready : pcb.state = .ready) :
    pm.enqueueReady pid = { pm with readyQueues := requeued pm.readyQueues pid pcb } := by
  unfold enqueueReady
  simp only [hget, hready, ne_eq, not_true_eq_false, if_false]
  cases hlevel : queueIndex pcb.queueLevel with
  | none =>
    have hnone : readyLevel pcb = none := by simp [readyLevel, hready, hlevel]
    simp only [removeFromReadyQueues]
    congr 1
    funext q
    simp [requeued, hnone]
  | some level =>
    have hsome : readyLevel pcb = some level := by simp [readyLevel, hready, hlevel]
    simp only [pushReady, removeFromReadyQueues]
    congr 1
    funext q
    by_cases hq : level = q
    · subst hq
      simp [requeued, hsome]
    · have hq' : q ≠ level := fun h => hq h.symm
      simp [requeued, hsome, Function.update_of_ne hq', hq]

theorem setPcb_enqueueReady (hready : pcb.state = .ready) :
    (pm.setPcb pid pcb).enqueueReady pid = pm.relinked pid pcb := by
  have hget : (pm.setPcb pid pcb).pcbTable[pid]? = some pcb := by simp [setPcb]
  rw [enqueueReady_eq hget hready]
  rfl

theorem remove_setPcb (h : pcb.state ≠ .ready) :
    (pm.removeFromReadyQueues pid).setPcb pid pcb = pm.relinked pid pcb := by
  simp only [setPcb, removeFromReadyQueues, relinked]
  congr 1
  funext q
  simp [requeued, readyLevel_of_ne h]

theorem relinked_remove :
    (pm.removeFromReadyQueues pid).relinked pid pcb = pm.relinked pid pcb := by
  simp only [relinked, removeFromReadyQueues]
  rw [requeued_filter]

theorem insert_insert (table : Std.ExtTreeMap UInt32 PCB) :
    (table.insert pid pcb).insert pid pcb' = table.insert pid pcb' := by
  apply Std.ExtTreeMap.ext_getElem?
  intro a
  simp only [KeyedTable.getElem?_insert]
  split <;> rfl

theorem relinked_setPcb (h : pcb.state ≠ .ready) (h' : pcb'.state ≠ .ready) :
    (pm.relinked pid pcb).setPcb pid pcb' = pm.relinked pid pcb' := by
  simp only [relinked, setPcb, insert_insert]
  congr 1
  funext q
  simp [requeued, readyLevel_of_ne h, readyLevel_of_ne h']

theorem relinked_relinked : (pm.relinked pid pcb).relinked pid pcb' = pm.relinked pid pcb' := by
  have hqueues : requeued (requeued pm.readyQueues pid pcb) pid pcb' =
      requeued pm.readyQueues pid pcb' := by
    funext q
    by_cases hq : readyLevel pcb = some q <;> simp [requeued, hq, List.filter_filter]
  simp only [relinked, insert_insert, hqueues]

/-- What a user may do to a PCB by the six state commands and `renice`. -/
inductive Transition (pcb : PCB) : PCB → Prop
  | block (h : pcb.state = .ready ∨ pcb.state = .running) :
      Transition pcb { pcb with state := .blocked }
  | wakeup (h : pcb.state = .blocked) : Transition pcb { pcb with state := .ready }
  | suspendReady (h : pcb.state = .ready ∨ pcb.state = .running) :
      Transition pcb { pcb with state := .suspendedReady }
  | suspendBlocked (h : pcb.state = .blocked) :
      Transition pcb { pcb with state := .suspendedBlocked }
  | resumeReady (h : pcb.state = .suspendedReady) : Transition pcb { pcb with state := .ready }
  | resumeBlocked (h : pcb.state = .suspendedBlocked) :
      Transition pcb { pcb with state := .blocked }
  | renice (priority : Int32) (h : isValidPriority priority) :
      Transition pcb (reniced pcb priority)

/-- The PCB is stored; the queues change only if it is or was READY. -/
inductive Stores (pm : ProcessManager) (pid : UInt32) (pcb pcb' : PCB) : ProcessManager → Prop
  | relink : Stores pm pid pcb pcb' (pm.relinked pid pcb')
  | set (hold : pcb.state ≠ .ready) (hnew : pcb'.state ≠ .ready) :
      Stores pm pid pcb pcb' (pm.setPcb pid pcb')

theorem Stores.nextPid_eq (h : Stores pm pid pcb pcb' pm') : pm'.nextPid = pm.nextPid := by
  cases h <;> rfl

theorem Stores.pcbTable_eq (h : Stores pm pid pcb pcb' pm') :
    pm'.pcbTable = pm.pcbTable.insert pid pcb' := by
  cases h <;> rfl

def Rewrites (owner : Str) (pid : UInt32) (pm pm' : ProcessManager) : Prop :=
  ∃ pcb pcb', pm.ownedPcb owner pid = some pcb ∧ Transition pcb pcb' ∧
    Stores pm pid pcb pcb' pm'

theorem blockProcess_spec (h : pm.blockProcess owner pid = .ok (pm', message)) :
    Rewrites owner pid pm pm' := by
  unfold blockProcess at h
  cases hget : pm.ownedPcb owner pid with
  | none =>
    rw [hget] at h
    cases h
  | some pcb =>
    simp only [hget] at h
    split at h
    · cases h
    next hstate =>
      simp only [Except.ok.injEq, Prod.mk.injEq] at h
      rw [not_and_or, not_not, not_not] at hstate
      rw [← h.1, remove_setPcb (by simp)]
      exact ⟨pcb, _, hget, .block hstate, .relink⟩

theorem wakeupProcess_spec (h : pm.wakeupProcess owner pid = .ok (pm', message)) :
    Rewrites owner pid pm pm' := by
  unfold wakeupProcess at h
  cases hget : pm.ownedPcb owner pid with
  | none =>
    rw [hget] at h
    cases h
  | some pcb =>
    simp only [hget] at h
    split at h
    · cases h
    next hstate =>
      simp only [Except.ok.injEq, Prod.mk.injEq] at h
      rw [← h.1, setPcb_enqueueReady rfl]
      exact ⟨pcb, _, hget, .wakeup (not_not.mp hstate), .relink⟩

theorem suspendProcess_spec (h : pm.suspendProcess owner pid = .ok (pm', message)) :
    Rewrites owner pid pm pm' := by
  unfold suspendProcess at h
  cases hget : pm.ownedPcb owner pid with
  | none =>
    rw [hget] at h
    cases h
  | some pcb =>
    simp only [hget] at h
    split at h
    next hstate =>
      simp only [Except.ok.injEq, Prod.mk.injEq] at h
      rw [← h.1, remove_setPcb (by simp)]
      exact ⟨pcb, _, hget, .suspendReady hstate, .relink⟩
    next hstate =>
      split at h
      next hblocked =>
        simp only [Except.ok.injEq, Prod.mk.injEq] at h
        rw [← h.1]
        exact ⟨pcb, _, hget, .suspendBlocked hblocked, .set (by simp [hblocked]) (by simp)⟩
      · cases h

theorem resumeProcess_spec (h : pm.resumeProcess owner pid = .ok (pm', message)) :
    Rewrites owner pid pm pm' := by
  unfold resumeProcess at h
  cases hget : pm.ownedPcb owner pid with
  | none =>
    rw [hget] at h
    cases h
  | some pcb =>
    simp only [hget] at h
    split at h
    next hstate =>
      simp only [Except.ok.injEq, Prod.mk.injEq] at h
      rw [← h.1, setPcb_enqueueReady rfl]
      exact ⟨pcb, _, hget, .resumeReady hstate, .relink⟩
    next hstate =>
      split at h
      next hblocked =>
        simp only [Except.ok.injEq, Prod.mk.injEq] at h
        rw [← h.1]
        exact ⟨pcb, _, hget, .resumeBlocked hblocked, .set (by simp [hblocked]) (by simp)⟩
      · cases h

theorem reniceProcess_spec {priority : Int32}
    (h : pm.reniceProcess owner pid priority = .ok (pm', message)) :
    Rewrites owner pid pm pm' := by
  unfold reniceProcess at h
  split at h
  · cases h
  next hvalid =>
    have hvalid' : isValidPriority priority = true := by simpa using hvalid
    cases hget : pm.ownedPcb owner pid with
    | none =>
      rw [hget] at h
      cases h
    | some pcb =>
      simp only [hget, Except.ok.injEq, Prod.mk.injEq] at h
      refine ⟨pcb, reniced pcb priority, hget, .renice priority hvalid', ?_⟩
      by_cases hready : pcb.state = .ready
      · have hready' : (reniced pcb priority).state = .ready := hready
        rw [← h.1, if_pos hready, if_pos hready, setPcb_enqueueReady hready', relinked_remove]
        exact .relink
      · rw [← h.1, if_neg hready, if_neg hready]
        exact .set hready hready

def swappedPcb (pcb : PCB) :
    PCB := { pcb with swappedOut := true, memStart := 0, state := .swapped }

theorem markSwappedOut_spec (h : pm.markSwappedOut owner pid = .ok (pm', message)) :
    ∃ pcb, pm.ownedPcb owner pid = some pcb ∧ ¬(pcb.swappedOut ∨ pcb.state = .swapped) ∧
      pm' = pm.relinked pid (swappedPcb pcb) := by
  unfold markSwappedOut at h
  cases hget : pm.ownedPcb owner pid with
  | none =>
    rw [hget] at h
    cases h
  | some pcb =>
    simp only [hget] at h
    split at h
    · cases h
    next hnot =>
      simp only [Except.ok.injEq, Prod.mk.injEq] at h
      refine ⟨pcb, rfl, hnot, ?_⟩
      rw [← h.1, remove_setPcb (by simp)]
      rfl

/-! ## Adding a process -/

/-- A new process with the PID `nextPid`, linked to its parent. -/
def spawned (pm : ProcessManager) (pcb : PCB) : ProcessManager :=
  { nextPid := pm.nextPid + 1
    pcbTable := linkChild (pm.pcbTable.insert pm.nextPid pcb) pcb.ppid pm.nextPid
    readyQueues := requeued pm.readyQueues pm.nextPid pcb }

def withChild (ppid pid k : UInt32) (old : PCB) : PCB :=
  if ppid ≠ 0 ∧ k = ppid then { old with children := old.children ++ [pid] } else old

theorem withChild_eq (ppid pid k : UInt32) (old : PCB) :
    ∃ children, withChild ppid pid k old = { old with children := children } := by
  unfold withChild
  split
  · exact ⟨_, rfl⟩
  · exact ⟨old.children, rfl⟩

theorem linkChild_getElem? (table : Std.ExtTreeMap UInt32 PCB) (ppid : UInt32) :
    (linkChild table ppid pid)[k]? = table[k]?.map (withChild ppid pid k) := by
  unfold linkChild withChild
  by_cases hzero : ppid = 0
  · simp [hzero]
  · rw [if_pos hzero, KeyedTable.getElem?_modify]
    by_cases hk : ppid = k
    · subst hk
      simp [hzero]
    · have hk' : k ≠ ppid := fun h => hk h.symm
      simp [hk, hk']

theorem spawned_getElem? (hparent : pcb.ppid ≠ 0 → pcb.ppid ≠ pm.nextPid) :
    (pm.spawned pcb).pcbTable[k]? = if k = pm.nextPid then some pcb
      else pm.pcbTable[k]?.map (withChild pcb.ppid pm.nextPid k) := by
  simp only [spawned, linkChild_getElem?, KeyedTable.getElem?_insert]
  by_cases hk : k = pm.nextPid
  · have hne : ¬(pcb.ppid ≠ 0 ∧ pm.nextPid = pcb.ppid) := fun h => hparent h.1 h.2.symm
    simp only [hk, if_true, Option.map_some, withChild, if_neg hne]
  · have hk' : pm.nextPid ≠ k := fun h => hk h.symm
    simp only [hk, hk', if_false]

theorem spawned_new (hparent : pcb.ppid ≠ 0 → pcb.ppid ≠ pm.nextPid) :
    (pm.spawned pcb).pcbTable[pm.nextPid]? = some pcb := by
  rw [spawned_getElem? hparent, if_pos rfl]

/-- After a creation a PCB is the new one, or an old one that may have got it as a child. -/
theorem spawned_withChild (hparent : pcb.ppid ≠ 0 → pcb.ppid ≠ pm.nextPid) {found : PCB}
    (hget : (pm.spawned pcb).pcbTable[k]? = some found) :
    k = pm.nextPid ∧ found = pcb ∨ k ≠ pm.nextPid ∧ ∃ old, pm.pcbTable[k]? = some old ∧
      found = withChild pcb.ppid pm.nextPid k old ∧ found.ppid = old.ppid ∧
      found.owner = old.owner := by
  rw [spawned_getElem? hparent] at hget
  split at hget
  next hk => exact .inl ⟨hk, (Option.some.inj hget).symm⟩
  next hk =>
    obtain ⟨old, hold, rfl⟩ := Option.map_eq_some_iff.mp hget
    obtain ⟨children, heq⟩ := withChild_eq pcb.ppid pm.nextPid k old
    exact .inr ⟨hk, old, hold, rfl, by rw [heq], by rw [heq]⟩

theorem spawned_cases (hparent : pcb.ppid ≠ 0 → pcb.ppid ≠ pm.nextPid) {found : PCB}
    (hget : (pm.spawned pcb).pcbTable[k]? = some found) :
    k = pm.nextPid ∧ found = pcb ∨ k ≠ pm.nextPid ∧ ∃ old children, pm.pcbTable[k]? = some old ∧
      found = { old with children := children } := by
  rcases spawned_withChild hparent hget with hnew | ⟨hk, old, hold, hfound, -, -⟩
  · exact .inl hnew
  · obtain ⟨children, heq⟩ := withChild_eq pcb.ppid pm.nextPid k old
    exact .inr ⟨hk, old, children, hold, hfound.trans heq⟩

theorem spawned_kept (hfresh : pm.pcbTable[pm.nextPid]? = none)
    (hparent : pcb.ppid ≠ 0 → pcb.ppid ≠ pm.nextPid) {old : PCB}
    (hget : pm.pcbTable[k]? = some old) :
    ∃ children, (pm.spawned pcb).pcbTable[k]? = some { old with children := children } := by
  have hk : k ≠ pm.nextPid := by
    rintro rfl
    rw [hfresh] at hget
    cases hget
  obtain ⟨children, heq⟩ := withChild_eq pcb.ppid pm.nextPid k old
  exact ⟨children, by rw [spawned_getElem? hparent, if_neg hk, hget, Option.map_some, heq]⟩

theorem hasProcess_spawned (hfresh : pm.pcbTable[pm.nextPid]? = none)
    (hparent : pcb.ppid ≠ 0 → pcb.ppid ≠ pm.nextPid) : (pm.spawned pcb).hasProcess owner k ↔
      pm.hasProcess owner k ∨ k = pm.nextPid ∧ owner = pcb.owner := by
  constructor
  · intro hhas
    obtain ⟨found, hget, rfl⟩ := hasProcess_iff.mp hhas
    rcases spawned_withChild hparent hget with ⟨hk, rfl⟩ | ⟨-, old, hold, -, -, howner⟩
    · exact .inr ⟨hk, rfl⟩
    · exact .inl (hasProcess_iff.mpr ⟨old, hold, howner.symm⟩)
  · rintro (hhas | ⟨rfl, rfl⟩)
    · obtain ⟨old, hold, howner⟩ := hasProcess_iff.mp hhas
      obtain ⟨children, hget⟩ := spawned_kept hfresh hparent hold
      exact hasProcess_iff.mpr ⟨_, hget, howner⟩
    · exact hasProcess_iff.mpr ⟨pcb, spawned_new hparent, rfl⟩

theorem spawned_getElem?_of_root (hroot : pcb.ppid = 0) :
    (pm.spawned pcb).pcbTable[k]? = if k = pm.nextPid then some pcb else pm.pcbTable[k]? := by
  have hsame : withChild pcb.ppid pm.nextPid k = id := by
    funext old
    simp [withChild, hroot]
  rw [spawned_getElem? fun hne => absurd hroot hne, hsame, Option.map_id_fun, id_eq]

theorem ppid_ne_nextPid {ppid : UInt32} (hfresh : pm.pcbTable[pm.nextPid]? = none)
    (hparent : ppid ≠ 0 → pm.hasProcess owner ppid) : ppid ≠ 0 → ppid ≠ pm.nextPid := by
  intro hzero heq
  obtain ⟨parent, hlive, -⟩ := hasProcess_iff.mp (hparent hzero)
  rw [heq, hfresh] at hlive
  cases hlive

/-- What a successful creation has checked, and what it returns. -/
theorem createProcessWithMemory_eq_ok {memKB memStart totalTime : UInt32} {priority : Int32}
    {ppid : Option UInt32}
    (h : pm.createProcessWithMemory owner name memKB memStart priority totalTime ppid =
      .ok (pm', pid, message)) :
    (owner ≠ [] ∧ memKB ≠ 0 ∧ isValidPriority priority ∧ totalTime ≠ 0 ∧
      (ppid.getD 0 ≠ 0 → pm.hasProcess owner (ppid.getD 0))) ∧
    pid = pm.nextPid ∧
    pm' = enqueueReady
      { pm with
        nextPid := pm.nextPid + 1
        pcbTable := linkChild (pm.pcbTable.insertIfNew pm.nextPid
          (newPcb pm.nextPid (ppid.getD 0) owner name memKB memStart priority totalTime))
          (ppid.getD 0) pm.nextPid } pm.nextPid ∧
    ∃ rest, message = str "[OK] Process created.\nPID=" ++ decimal pid.toNat ++ rest := by
  unfold createProcessWithMemory at h
  simp only at h
  split at h
  · cases h
  next howner =>
  split at h
  · cases h
  split at h
  · cases h
  next hmem =>
  split at h
  · cases h
  next hpriority =>
  split at h
  · cases h
  next htime =>
  split at h
  · cases h
  next hparent =>
  simp only [Except.ok.injEq, Prod.mk.injEq, List.append_assoc] at h
  obtain ⟨rfl, rfl, rfl⟩ := h
  refine ⟨⟨howner, hmem, by simpa using hpriority, htime, fun hne => ?_⟩, rfl, rfl, _,
    (List.append_assoc _ _ _).symm⟩
  by_contra hnot
  exact hparent ⟨hne, by simpa using hnot⟩

theorem createProcessWithMemory_spec {memKB memStart totalTime : UInt32} {priority : Int32}
    {ppid : Option UInt32} (hfresh : pm.pcbTable[pm.nextPid]? = none)
    (h : pm.createProcessWithMemory owner name memKB memStart priority totalTime ppid =
      .ok (pm', pid, message)) :
    owner ≠ [] ∧ memKB ≠ 0 ∧ isValidPriority priority ∧ totalTime ≠ 0 ∧
      (ppid.getD 0 ≠ 0 → pm.hasProcess owner (ppid.getD 0)) ∧ pid = pm.nextPid ∧
      pm' = pm.spawned
        (newPcb pm.nextPid (ppid.getD 0) owner name memKB memStart priority totalTime) := by
  obtain ⟨⟨howner, hmem, hpriority, htime, hparent⟩, hpid, rfl, -⟩ :=
    createProcessWithMemory_eq_ok h
  refine ⟨howner, hmem, hpriority, htime, hparent, hpid, ?_⟩
  have hne := ppid_ne_nextPid hfresh hparent
  have hinsert : ∀ pcb, pm.pcbTable.insertIfNew pm.nextPid pcb = pm.pcbTable.insert pm.nextPid pcb := by
    intro pcb
    apply Std.ExtTreeMap.ext_getElem?
    intro a
    rw [KeyedTable.getElem?_insertIfNew _ _ _ _ hfresh, KeyedTable.getElem?_insert]
  rw [hinsert]
  refine (enqueueReady_eq ?_ ?_).trans rfl
  · simp only [linkChild_getElem?, KeyedTable.getElem?_insert, if_true, Option.map_some,
      Option.some.injEq, withChild]
    exact if_neg fun hcontra => hne hcontra.1 hcontra.2.symm
  · rfl

theorem enqueueReady_pcbTable (pm : ProcessManager) (pid : UInt32) :
    (pm.enqueueReady pid).pcbTable = pm.pcbTable := by
  unfold enqueueReady
  split
  · rfl
  split
  · rfl
  simp only
  split <;> rfl

/-- A creation adds the new PCB and children only, also when its PID is taken. -/
theorem createProcessWithMemory_getElem? {memKB memStart totalTime : UInt32} {priority : Int32}
    {ppid : Option UInt32}
    (h : pm.createProcessWithMemory owner name memKB memStart priority totalTime ppid =
      .ok (pm', pid, message)) (hget : pm'.pcbTable[k]? = some pcb') :
    isValidPriority priority ∧ totalTime ≠ 0 ∧ ∃ pcb children, pcb' = { pcb with children := children } ∧
      (pm.pcbTable[k]? = some pcb ∨ k = pm.nextPid ∧ pcb =
        newPcb pm.nextPid (ppid.getD 0) owner name memKB memStart priority totalTime) := by
  obtain ⟨⟨-, -, hpriority, htime, -⟩, -, rfl, -⟩ := createProcessWithMemory_eq_ok h
  refine ⟨hpriority, htime, ?_⟩
  rw [enqueueReady_pcbTable, linkChild_getElem?, Std.ExtTreeMap.getElem?_insertIfNew] at hget
  obtain ⟨pcb, hold, rfl⟩ := Option.map_eq_some_iff.mp hget
  obtain ⟨children, heq⟩ := withChild_eq (ppid.getD 0) pm.nextPid k pcb
  refine ⟨pcb, children, heq, ?_⟩
  split at hold
  next hnew => exact .inr ⟨(Std.LawfulEqCmp.eq_of_compare hnew.1).symm, (Option.some.inj hold).symm⟩
  next => exact .inl hold

/-! ## Removing a subtree -/

/-- The processes `removed` are gone from the table, the queues and the child lists. -/
def pruned (pm : ProcessManager) (removed : List UInt32) : ProcessManager :=
  { nextPid := pm.nextPid
    pcbTable := removed.foldl (fun table removedPid => table.erase removedPid)
      (pm.pcbTable.map fun _ pcb => dropChildren removed pcb)
    readyQueues := fun q => (pm.readyQueues q).filter (· ∉ removed) }

theorem pruned_getElem? (removed : List UInt32) :
    (pm.pruned removed).pcbTable[k]? =
      if k ∈ removed then none else pm.pcbTable[k]?.map (dropChildren removed) := by
  simp only [pruned, KeyedTable.getElem?_foldl_erase, Std.ExtTreeMap.getElem?_map]

theorem pruned_eq_some {removed : List UInt32} :
    (pm.pruned removed).pcbTable[k]? = some pcb' ↔
      k ∉ removed ∧ ∃ pcb, pm.pcbTable[k]? = some pcb ∧ dropChildren removed pcb = pcb' := by
  rw [pruned_getElem?]
  by_cases hk : k ∈ removed <;> simp [hk]

theorem hasProcess_pruned (removed : List UInt32) :
    (pm.pruned removed).hasProcess owner k = (pm.hasProcess owner k && decide (k ∉ removed)) := by
  rw [Bool.eq_iff_iff, Bool.and_eq_true, decide_eq_true_iff, hasProcess_iff, hasProcess_iff]
  constructor
  · rintro ⟨pcb', hget, howner⟩
    obtain ⟨hk, pcb, hold, rfl⟩ := pruned_eq_some.mp hget
    exact ⟨⟨pcb, hold, howner⟩, hk⟩
  · rintro ⟨⟨pcb, hold, howner⟩, hk⟩
    exact ⟨_, pruned_eq_some.mpr ⟨hk, pcb, hold, rfl⟩, howner⟩

theorem foldl_terminate (removed : List UInt32) (pm : ProcessManager) :
    (removed.foldl terminate pm).nextPid = pm.nextPid ∧
      (∀ q, (removed.foldl terminate pm).readyQueues q =
        (pm.readyQueues q).filter (· ∉ removed)) ∧
      ∀ k ∉ removed, (removed.foldl terminate pm).pcbTable[k]? = pm.pcbTable[k]? := by
  induction removed generalizing pm with
  | nil => simp
  | cons x removed ih =>
    obtain ⟨hnext, hqueues, htable⟩ := ih (pm.terminate x)
    rw [List.foldl_cons]
    refine ⟨hnext, fun q => ?_, fun k hk => ?_⟩
    · rw [hqueues]
      simp only [terminate, removeFromReadyQueues, List.filter_filter, List.mem_cons, not_or]
      refine List.filter_congr fun y _ => ?_
      rw [Bool.and_comm]
      simp
    · rw [List.mem_cons, not_or] at hk
      have hx : x ≠ k := fun h => hk.1 h.symm
      rw [htable k hk.2]
      simp [terminate, removeFromReadyQueues, KeyedTable.getElem?_modify, hx]

def subtree (pm : ProcessManager) (owner : Str) (pid : UInt32) : List UInt32 :=
  pm.collectSubtree owner (pm.pcbTable.size + 1) pid []

theorem killProcess_spec {removed : List UInt32}
    (h : pm.killProcess owner pid = .ok (pm', removed, message)) :
    pm.hasProcess owner pid ∧ removed = pm.subtree owner pid ∧ pm' = pm.pruned removed := by
  unfold killProcess at h
  split at h
  · cases h
  next hhas =>
    simp only [Except.ok.injEq, Prod.mk.injEq] at h
    obtain ⟨hpm, hremoved, -⟩ := h
    refine ⟨by simpa using hhas, hremoved.symm, ?_⟩
    rw [hremoved] at hpm
    obtain ⟨hnext, hqueues, htable⟩ := foldl_terminate removed pm
    rw [← hpm, pruned, hnext]
    congr 1
    · apply Std.ExtTreeMap.ext_getElem?
      intro k
      simp only [KeyedTable.getElem?_foldl_erase, Std.ExtTreeMap.getElem?_map]
      split
      · rfl
      next hk => rw [htable k hk]
    · funext q
      exact hqueues q

theorem killProcess_of_hasProcess (h : pm.hasProcess owner pid) :
    ∃ message, pm.killProcess owner pid =
      .ok (pm.pruned (pm.subtree owner pid), pm.subtree owner pid, message) := by
  cases hkill : pm.killProcess owner pid with
  | error e =>
    unfold killProcess at hkill
    rw [if_neg (by simp [h])] at hkill
    cases hkill
  | ok result =>
    obtain ⟨pm', removed, message⟩ := result
    obtain ⟨-, rfl, rfl⟩ := killProcess_spec hkill
    exact ⟨message, rfl⟩

def ownedChildren (pm : ProcessManager) (owner : Str) (pid : UInt32) : Option (List UInt32) :=
  (pm.ownedPcb owner pid).map fun pcb => sortedIds pcb.children

theorem mem_sortedIds {ids : List UInt32} : k ∈ sortedIds ids ↔ k ∈ ids :=
  (List.perm_insertionSort _ _).mem_iff

theorem ownedChildren_eq (hown : pm.ownedPcb owner k = some pcb) :
    pm.ownedChildren owner k = some (sortedIds pcb.children) := by
  rw [ownedChildren, hown, Option.map_some]

theorem collectSubtree_eq (depth : ℕ) (ordered : List UInt32) :
    pm.collectSubtree owner depth pid ordered =
      DepthFirst.collect (pm.ownedChildren owner) depth pid ordered := by
  induction depth generalizing pid ordered with
  | zero => rfl
  | succ depth ih =>
    unfold collectSubtree DepthFirst.collect ownedChildren
    cases pm.ownedPcb owner pid with
    | none => rfl
    | some pcb =>
      have hfun : (fun acc child => pm.collectSubtree owner depth child acc) =
          fun acc child => DepthFirst.collect (pm.ownedChildren owner) depth child acc := by
        funext acc child
        exact ih acc
      simp only [Option.map_some, hfun]
      rfl

theorem ownedChildren_isSome :
    (pm.ownedChildren owner pid).isSome ↔ pm.hasProcess owner pid = true := by
  simp [ownedChildren, hasProcess]

theorem mem_keys_of_ownedChildren (h : (pm.ownedChildren owner k).isSome) :
    k ∈ pm.pcbTable.keys := by
  obtain ⟨pcb, hget, -⟩ := hasProcess_iff.mp (ownedChildren_isSome.mp h)
  rw [Std.ExtTreeMap.mem_keys]
  exact Std.ExtTreeMap.mem_iff_isSome_getElem?.mpr (by simp [hget])

/-- The depth that `killProcess` allows is enough for every table. -/
theorem unvisited_keys (pm : ProcessManager) :
    DepthFirst.unvisited pm.pcbTable.keys [] ≤ pm.pcbTable.size + 1 := by
  have hle : DepthFirst.unvisited pm.pcbTable.keys [] ≤ pm.pcbTable.keys.length :=
    List.countP_le_length
  rw [Std.ExtTreeMap.length_keys] at hle
  omega

theorem hasProcess_of_mem_subtree (hx : k ∈ pm.subtree owner pid) : pm.hasProcess owner k := by
  rw [subtree, collectSubtree_eq] at hx
  have hadm : ∀ x ∈ DepthFirst.collect (pm.ownedChildren owner) (pm.pcbTable.size + 1) pid [],
      (pm.ownedChildren owner x).isSome := DepthFirst.admitted_collect (by simp)
  exact ownedChildren_isSome.mp (hadm k hx)

/-- The subtree holds its root, only processes of `owner`, none of them twice, and with a
process its children of the same owner. -/
theorem subtree_spec (h : pm.hasProcess owner pid) :
    pid ∈ pm.subtree owner pid ∧ (pm.subtree owner pid).Nodup ∧
      (∀ x ∈ pm.subtree owner pid, pm.hasProcess owner x) ∧
      ∀ x ∈ pm.subtree owner pid, ∀ pcb, pm.pcbTable[x]? = some pcb →
        ∀ c ∈ pcb.children, pm.hasProcess owner c → c ∈ pm.subtree owner pid := by
  have howned : ∀ x ∈ pm.subtree owner pid, pm.hasProcess owner x :=
    fun x hx => hasProcess_of_mem_subtree hx
  obtain ⟨hroot, hclosed⟩ := DepthFirst.collect_spec (k := pid)
    (fun _ => mem_keys_of_ownedChildren) pm.unvisited_keys
  simp only [subtree, collectSubtree_eq] at howned ⊢
  refine ⟨hroot (ownedChildren_isSome.mpr h), DepthFirst.nodup_collect .nil, howned,
    fun x hx pcb hget c hc hown => ?_⟩
  have howned : pm.ownedPcb owner x = some pcb := by
    obtain ⟨pcb', hget', howner⟩ := hasProcess_iff.mp (howned x hx)
    rw [hget] at hget'
    cases hget'
    exact ownedPcb_eq_some.mpr ⟨hget, howner⟩
  exact hclosed x hx (by simp) _ (ownedChildren_eq howned) c (mem_sortedIds.mpr hc)
    (ownedChildren_isSome.mpr hown)

end ProcessManager

end OSCoreSim
