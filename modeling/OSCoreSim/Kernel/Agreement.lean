import OSCoreSim.Kernel.Changes
import OSCoreSim.Memory.InUse
import OSCoreSim.Memory.Validation
import OSCoreSim.Process.ReadyIndex
/-!
# The process table and the memory table agree

The PROCESS blocks of a PID are exactly what the process table accounts for: one block
for a resident process, none for a swapped or an unknown one.  `Effect` says what an
`Action` does when the tables agree, and every effect keeps them in agreement.
-/

namespace OSCoreSim

open MemoryManager ProcessManager CommandDispatcher

namespace Kernel

def owedBy (pcb : PCB) : List Footprint :=
  if isSwapped pcb then [] else [⟨pcb.owner, pcb.memStart, pcb.memSize⟩]

def owed (pm : ProcessManager) (pid : UInt32) : List Footprint :=
  match pm.pcbTable[pid]? with
  | some pcb => owedBy pcb
  | none => []

def Agreement (pm : ProcessManager) (mm : MemoryManager) : Prop :=
  ∀ pid, held mm.blocks pid = owed pm pid

structure Matched (pm : ProcessManager) (mm : MemoryManager) : Prop where
  keyed : pm.Keyed
  partition : Partition mm
  agree : Agreement pm mm

variable {owner : Str} {pm pm' : ProcessManager} {mm mm' : MemoryManager} {pid k : UInt32}
  {pcb pcb' : PCB} {cause : Cause}

/-! ## Footprints of the process table -/

theorem owed_eq (h : pm.pcbTable[pid]? = some pcb) : owed pm pid = owedBy pcb := by
  rw [owed, h]

theorem owed_eq_nil (h : pm.pcbTable[pid]? = none) : owed pm pid = [] := by
  rw [owed, h]

theorem length_owed (pm : ProcessManager) (pid : UInt32) : (owed pm pid).length ≤ 1 := by
  unfold owed owedBy
  split
  · split <;> simp
  · simp

theorem mem_owed {mark : Footprint} (h : mark ∈ owed pm pid) :
    ∃ pcb, pm.pcbTable[pid]? = some pcb ∧ pcb.owner = mark.owner ∧ pcb.memStart = mark.start := by
  cases hget : pm.pcbTable[pid]? with
  | none =>
    rw [owed_eq_nil hget] at h
    cases h
  | some pcb =>
    rw [owed_eq hget, owedBy] at h
    split at h
    · cases h
    · rw [List.mem_singleton.mp h]
      exact ⟨pcb, rfl, rfl, rfl⟩

theorem owed_owner (h : ∀ pcb, pm.pcbTable[pid]? = some pcb → pcb.owner = owner) :
    ∀ mark ∈ owed pm pid, mark.owner = owner := by
  intro mark hmem
  obtain ⟨pcb, hget, howner, -⟩ := mem_owed hmem
  exact howner.symm.trans (h pcb hget)

theorem owed_insert {pm' : ProcessManager} (h : pm'.pcbTable = pm.pcbTable.insert pid pcb) :
    owed pm' k = if k = pid then owedBy pcb else owed pm k := by
  unfold owed
  rw [h, KeyedTable.getElem?_insert]
  by_cases hk : k = pid
  · simp [hk]
  · have hk' : pid ≠ k := fun heq => hk heq.symm
    simp [hk, hk']

theorem owed_insert_same (hget : pm.pcbTable[pid]? = some pcb) (hsame : owedBy pcb' = owedBy pcb)
    (h : pm'.pcbTable = pm.pcbTable.insert pid pcb') : owed pm' k = owed pm k := by
  rw [owed_insert h]
  split
  next hk => rw [hk, owed_eq hget, hsame]
  next => rfl

theorem owed_pruned (removed : List UInt32) :
    owed (pm.pruned removed) k = if k ∈ removed then [] else owed pm k := by
  unfold owed
  rw [pruned_getElem?]
  by_cases hk : k ∈ removed
  · rw [if_pos hk, if_pos hk]
  · rw [if_neg hk, if_neg hk]
    cases pm.pcbTable[k]? <;> rfl

theorem owed_spawned (hparent : pcb.ppid ≠ 0 → pcb.ppid ≠ pm.nextPid) :
    owed (pm.spawned pcb) k = if k = pm.nextPid then owedBy pcb else owed pm k := by
  unfold owed
  rw [spawned_getElem? hparent]
  by_cases hk : k = pm.nextPid
  · rw [if_pos hk, if_pos hk]
  · rw [if_neg hk, if_neg hk]
    cases pm.pcbTable[k]? with
    | none => rfl
    | some old =>
      obtain ⟨children, heq⟩ := ProcessManager.withChild_eq pcb.ppid pm.nextPid k old
      simp only [Option.map_some, heq]
      rfl

theorem owedBy_transition (h : Transition pcb pcb') : owedBy pcb' = owedBy pcb := by
  have hswap : isSwapped pcb' = isSwapped pcb := by
    cases h with
    | renice priority _ => rfl
    | block h | suspendReady h => rcases h with h | h <;> simp [isSwapped, h]
    | wakeup h | suspendBlocked h | resumeReady h | resumeBlocked h => simp [isSwapped, h]
  have hrest : pcb'.owner = pcb.owner ∧ pcb'.memStart = pcb.memStart ∧
      pcb'.memSize = pcb.memSize := by
    cases h <;> exact ⟨rfl, rfl, rfl⟩
  simp only [owedBy, hswap, hrest]

/-! ## The start addresses after a compaction -/

theorem updateStarts_eq (starts : List (UInt32 × UInt32)) (pm : ProcessManager) :
    (updateStarts pm starts).nextPid = pm.nextPid ∧
      (updateStarts pm starts).readyQueues = pm.readyQueues := by
  induction starts generalizing pm with
  | nil => exact ⟨rfl, rfl⟩
  | cons pair starts ih => exact ih _

theorem updateStarts_list {starts : List (UInt32 × UInt32)}
    (hnodup : starts.Pairwise fun a b => a.1 ≠ b.1) (pm : ProcessManager) :
    (∀ start, (k, start) ∈ starts → (updateStarts pm starts).pcbTable[k]? =
        pm.pcbTable[k]?.map fun pcb => { pcb with memStart := start }) ∧
      ((∀ start, (k, start) ∉ starts) →
        (updateStarts pm starts).pcbTable[k]? = pm.pcbTable[k]?) := by
  induction starts generalizing pm with
  | nil => exact ⟨fun _ hmem => absurd hmem List.not_mem_nil, fun _ => rfl⟩
  | cons pair starts ih =>
    obtain ⟨hhead, htail⟩ := List.pairwise_cons.mp hnodup
    obtain ⟨hin, hout⟩ := ih htail (pm.updateProcessMemoryStart pair.1 pair.2)
    have hfirst : (pm.updateProcessMemoryStart pair.1 pair.2).pcbTable[k]? =
        if pair.1 = k then pm.pcbTable[k]?.map fun pcb => { pcb with memStart := pair.2 }
        else pm.pcbTable[k]? := KeyedTable.getElem?_modify _ _ _ _
    have hcons : updateStarts pm (pair :: starts) =
        updateStarts (pm.updateProcessMemoryStart pair.1 pair.2) starts := rfl
    rw [hcons]
    refine ⟨fun start hmem => ?_, fun hnone => ?_⟩
    · rcases List.mem_cons.mp hmem with heq | hmem
      · -- the first pair is the only one with its key
        have hk : pair.1 = k := by rw [← heq]
        rw [hout fun start' hmem' => hhead _ hmem' hk, hfirst, if_pos hk, ← heq]
      · have hk : pair.1 ≠ k := hhead _ hmem
        rw [hin start hmem, hfirst, if_neg hk]
    · have hk : pair.1 ≠ k := fun hk => hnone pair.2 (by rw [← hk]; exact List.mem_cons_self)
      rw [hout fun start hmem => hnone start (List.mem_cons_of_mem _ hmem), hfirst, if_neg hk]

theorem updateStarts_getElem? (starts : Std.ExtTreeMap UInt32 UInt32) (pm : ProcessManager) :
    (updateStarts pm starts.toList).pcbTable[k]? =
      pm.pcbTable[k]?.map fun pcb => { pcb with memStart := starts[k]?.getD pcb.memStart } := by
  have hnodup : starts.toList.Pairwise fun a b => a.1 ≠ b.1 :=
    starts.distinct_keys_toList.imp fun h heq => h (by rw [heq]; exact Std.ReflCmp.compare_self)
  obtain ⟨hin, hout⟩ := updateStarts_list (k := k) hnodup pm
  cases hstart : starts[k]? with
  | none =>
    rw [hout fun start hmem => by
      rw [Std.ExtTreeMap.mem_toList_iff_getElem?_eq_some, hstart] at hmem
      cases hmem]
    cases pm.pcbTable[k]? <;> rfl
  | some start =>
    exact hin start (Std.ExtTreeMap.mem_toList_iff_getElem?_eq_some.mpr hstart)

def compactedProcesses (pm : ProcessManager) (mm : MemoryManager) : ProcessManager :=
  updateStarts pm mm.compact.2.pidNewStart.toList

theorem agreement_compact (hpart : Partition mm) (h : Agreement pm mm) :
    Agreement (compactedProcesses pm mm) mm.compact.1 := by
  intro k
  have hmoved := hpart.held_compact k
  have hstart := hpart.compact_starts k
  have htable := updateStarts_getElem? (k := k) mm.compact.2.pidNewStart pm
  rw [h k] at hmoved
  unfold compactedProcesses owed
  rw [htable, hstart]
  cases hget : pm.pcbTable[k]? with
  | none =>
    rw [owed_eq_nil hget, List.forall₂_nil_left_iff] at hmoved
    rw [hmoved]
    rfl
  | some pcb =>
    rw [owed_eq hget, owedBy] at hmoved
    by_cases hswap : isSwapped pcb = true
    · rw [if_pos hswap, List.forall₂_nil_left_iff] at hmoved
      rw [hmoved]
      exact (if_pos hswap).symm
    · rw [if_neg hswap] at hmoved
      obtain ⟨mark, rest, ⟨howner, hsize⟩, hrest, heq⟩ := List.forall₂_cons_left_iff.mp hmoved
      rw [List.forall₂_nil_left_iff.mp hrest] at heq
      rw [heq]
      refine Eq.trans ?_ (if_neg hswap).symm
      cases mark
      simp_all

/-! ## The release of a removed subtree -/

theorem releaseAll_induction {P : MemoryManager → Prop}
    (hstep : ∀ {m m' pid}, P m → Releases (fun block => isProcessBlock owner pid block) m m' → P m')
    (pids : List UInt32) (h : P mm) : P (Scheduler.releaseAll owner mm pids).1 := by
  induction pids generalizing mm with
  | nil => exact h
  | cons pid rest ih =>
    unfold Scheduler.releaseAll
    split
    next freed message hfree => exact ih (hstep h (freeByPid_spec hfree))
    next => exact ih h

theorem partition_releaseAll (h : Partition mm) (pids : List UInt32) :
    Partition (Scheduler.releaseAll owner mm pids).1 :=
  releaseAll_induction (fun h hm => h.of_releases hm) pids h

/-- The releases of a list of PIDs, each of which holds at most one block. -/
inductive ReleasesAll (owner : Str) : MemoryManager → List UInt32 → MemoryManager → Prop
  | nil (m : MemoryManager) : ReleasesAll owner m [] m
  | skip {m last : MemoryManager} {pid : UInt32} {rest : List UInt32} (hpart : Partition m)
      (hnone : held m.blocks pid = []) (hrest : ReleasesAll owner m rest last) :
      ReleasesAll owner m (pid :: rest) last
  | release {m mid last : MemoryManager} {pid : UInt32} {rest : List UInt32} (hpart : Partition m)
      (hone : (held m.blocks pid).length ≤ 1)
      (hreleases : Releases (fun block => isProcessBlock owner pid block) m mid)
      (hrest : ReleasesAll owner mid rest last) : ReleasesAll owner m (pid :: rest) last

theorem releasesAll_releaseAll (h : Partition mm) (hone : ∀ k, (held mm.blocks k).length ≤ 1)
    {pids : List UInt32} (howner : ∀ p ∈ pids, ∀ mark ∈ held mm.blocks p, mark.owner = owner) :
    ReleasesAll owner mm pids (Scheduler.releaseAll owner mm pids).1 := by
  induction pids generalizing mm with
  | nil => exact .nil mm
  | cons pid rest ih =>
    unfold Scheduler.releaseAll
    cases hfree : mm.freeByPid owner pid with
    | error message =>
      have hnone : held mm.blocks pid = [] := by
        refine List.eq_nil_iff_forall_not_mem.mpr fun mark hmem => ?_
        obtain ⟨block, hblock, htype, hpid, rfl⟩ := mem_held.mp hmem
        have hmine : isProcessBlock owner pid block = true := isProcessBlock_iff.mpr
          ⟨htype, howner pid List.mem_cons_self _ hmem, hpid⟩
        rw [freeByPid_error.mp ⟨message, hfree⟩ block hblock] at hmine
        cases hmine
      exact .skip h hnone (ih h hone fun p hp => howner p (List.mem_cons_of_mem pid hp))
    | ok result =>
      have hreleases : Releases (fun block => isProcessBlock owner pid block) mm result.1 :=
        freeByPid_spec hfree
      have hheld := h.held_of_releases (hone pid) hreleases
      refine .release h (hone pid) hreleases (ih (h.of_releases hreleases) (fun j => ?_)
        fun p hp mark hmem => ?_)
      · rw [hheld j]
        split
        · simp
        · exact hone j
      · rw [hheld p] at hmem
        split at hmem
        · cases hmem
        · exact howner p (List.mem_cons_of_mem pid hp) mark hmem

theorem ReleasesAll.held_eq {pids : List UInt32} (h : ReleasesAll owner mm pids mm') (k : UInt32) :
    held mm'.blocks k = if k ∈ pids then [] else held mm.blocks k := by
  induction h with
  | nil m => rfl
  | @skip m last pid rest _ hnone _ ih =>
    rw [ih]
    by_cases hk : k = pid
    · simp [hk, hnone]
    · simp [hk]
  | @release m mid last pid rest hpart hone hreleases _ ih =>
    rw [ih, hpart.held_of_releases hone hreleases k]
    by_cases hk : k = pid
    · simp [hk]
    · simp [hk]

/-- When the tables agree, a removed process of `owner` holds its own block or none. -/
theorem Agreement.releasesAll (h : Agreement pm mm) (hpart : Partition mm) {removed : List UInt32}
    (howned : ∀ p ∈ removed, pm.hasProcess owner p) :
    ReleasesAll owner mm removed (Scheduler.releaseAll owner mm removed).1 := by
  refine releasesAll_releaseAll hpart (fun j => ?_) fun p hp mark hmem => ?_
  · rw [h j]
    exact length_owed pm j
  · rw [h p] at hmem
    refine owed_owner (fun pcb hget => ?_) mark hmem
    obtain ⟨found, hfound, howner⟩ := hasProcess_iff.mp (howned p hp)
    rw [hget] at hfound
    cases hfound
    exact howner

theorem agreement_releaseAll (hpart : Partition mm) (h : Agreement pm mm) {removed : List UInt32}
    (howned : ∀ p ∈ removed, pm.hasProcess owner p) :
    Agreement (pm.pruned removed) (Scheduler.releaseAll owner mm removed).1 := by
  intro k
  rw [owed_pruned, ← h k]
  exact (h.releasesAll hpart howned).held_eq k

/-! ## Effects -/

/-- What an action does to tables whose memory is a partition. -/
inductive Effect (cause : Cause) (owner : Str) (pm : ProcessManager) (mm : MemoryManager) :
    ProcessManager → MemoryManager → Prop
  | alloc {new : MemoryBlock} (htype : new.type = .kernel) (hne : owner ≠ [])
      (howner : new.owner = owner) {mm' : MemoryManager} (h : Allocates new mm mm') :
      Effect cause owner pm mm pm mm'
  | free {l r : List MemoryBlock} {it : MemoryBlock} (hblocks : mm.blocks = l ++ it :: r)
      (howner : it.owner = owner) (hfree : it.type ≠ .free) (hprocess : it.type ≠ .process) :
      Effect cause owner pm mm pm (mm.released l it r)
  | setAlgorithm (algorithm : AllocAlgorithm) :
      Effect cause owner pm mm pm { mm with algorithm := algorithm }
  | compact (hcause : cause.compacts) :
      Effect cause owner pm mm (compactedProcesses pm mm) mm.compact.1
  | swapOut {pid : UInt32} {pcb : PCB} (hget : pm.ownedPcb owner pid = some pcb)
      (hresident : isSwapped pcb = false) {mm' : MemoryManager}
      (hmem : Releases (fun block => isProcessBlock owner pid block) mm mm') :
      Effect cause owner pm mm (pm.relinked pid (swappedPcb pcb)) mm'
  | kill {pid : UInt32} (hcause : cause.kills pid) (hhas : pm.hasProcess owner pid) :
      Effect cause owner pm mm (pm.pruned (pm.subtree owner pid))
        (Scheduler.releaseAll owner mm (pm.subtree owner pid)).1
  | rewrite {pid : UInt32} {pm' : ProcessManager} (h : Rewrites owner pid pm pm') :
      Effect cause owner pm mm pm' mm
  | step (hcause : cause.turns) {pm' : ProcessManager} {mm' : MemoryManager}
      (h : Scheduler.Outcome owner pm mm pm' mm') : Effect cause owner pm mm pm' mm'

theorem effect_of_keyed (hkeyed : pm.Keyed) (hpart : Partition mm)
    (ha : Action cause owner pm mm pm' mm') : Effect cause owner pm mm pm' mm' := by
  cases ha with
  | alloc tag sizeKB halloc =>
    obtain ⟨hne, hm⟩ := hpart.allocates halloc
    exact .alloc rfl hne rfl hm
  | free addr hfree =>
    obtain ⟨l, it, r, hblocks, -, howner, hnotfree, hprocess, rfl⟩ := freeByAddress_spec hfree
    exact .free hblocks howner hnotfree hprocess
  | setAlgorithm algorithm => exact .setAlgorithm algorithm
  | compact hcause => exact .compact hcause
  | swapOut pid hmem hmark =>
    obtain ⟨pcb, hget, hnot, rfl⟩ := markSwappedOut_spec hmark
    exact .swapOut hget (by simpa [isSwapped] using hnot) (swapOutProcess_spec hmem)
  | kill pid hcause hkill =>
    obtain ⟨hhas, rfl, rfl⟩ := killProcess_spec hkill
    exact .kill hcause hhas
  | rewrite pid hr => exact .rewrite hr
  | step hcause => exact .step hcause (Scheduler.step_outcome owner mm hkeyed)

theorem effect_of_action (h : Matched pm mm) (ha : Action cause owner pm mm pm' mm') :
    Effect cause owner pm mm pm' mm' := effect_of_keyed h.keyed h.partition ha

/-! ## Agreement is kept -/

theorem Matched.insert (h : Matched pm mm) (hget : pm.pcbTable[pid]? = some pcb)
    (hpid : pcb'.pid = pcb.pid) (hsame : owedBy pcb' = owedBy pcb)
    (htable : pm'.pcbTable = pm.pcbTable.insert pid pcb') : Matched pm' mm := by
  refine ⟨h.keyed.insert hget hpid htable, h.partition, fun k => ?_⟩
  rw [owed_insert_same hget hsame htable]
  exact h.agree k

theorem Matched.cleaned (h : Matched pm mm) : Matched pm.cleaned mm :=
  ⟨h.keyed, h.partition, h.agree⟩

theorem keyed_pruned (h : pm.Keyed) (removed : List UInt32) : (pm.pruned removed).Keyed := by
  intro k found hget
  obtain ⟨-, old, hold, rfl⟩ := pruned_eq_some.mp hget
  exact h k old hold

theorem keyed_compacted (h : pm.Keyed) : (compactedProcesses pm mm).Keyed := by
  intro k found hget
  rw [compactedProcesses, updateStarts_getElem?] at hget
  obtain ⟨old, hold, rfl⟩ := Option.map_eq_some_iff.mp hget
  exact h k old hold

theorem Matched.pruned (h : Matched pm mm) (hhas : pm.hasProcess owner pid) :
    Matched (pm.pruned (pm.subtree owner pid))
      (Scheduler.releaseAll owner mm (pm.subtree owner pid)).1 :=
  ⟨keyed_pruned h.keyed _, partition_releaseAll h.partition _,
    agreement_releaseAll h.partition h.agree (subtree_spec hhas).2.2.1⟩

theorem partition_effect (h : Partition mm) (he : Effect cause owner pm mm pm' mm') :
    Partition mm' := by
  cases he with
  | alloc htype _ _ hm => exact h.of_allocates (by simp [htype]) hm
  | free hblocks => exact h.of_released hblocks
  | setAlgorithm => exact ⟨h.total_pos, h.fills, h.freePlain, h.merged⟩
  | compact => exact h.of_compact
  | swapOut _ _ hm => exact h.of_releases hm
  | kill => exact partition_releaseAll h _
  | rewrite => exact h
  | step _ ho =>
    cases ho with
    | idle | requeue => exact h
    | finish => exact partition_releaseAll h _

theorem Matched.effect (h : Matched pm mm) (he : Effect cause owner pm mm pm' mm') :
    Matched pm' mm' := by
  have hpart := partition_effect h.partition he
  cases he with
  | @alloc new htype hne howner mm' hm =>
    refine ⟨h.keyed, hpart, fun k => ?_⟩
    rw [hm.held_eq_of_ne (by simp [htype]) (by simp [htype])]
    exact h.agree k
  | free hblocks howner hfree hprocess =>
    refine ⟨h.keyed, hpart, fun k => ?_⟩
    rw [h.partition.held_of_released hblocks hprocess]
    exact h.agree k
  | setAlgorithm algorithm => exact ⟨h.keyed, hpart, h.agree⟩
  | compact => exact ⟨keyed_compacted h.keyed, hpart, agreement_compact h.partition h.agree⟩
  | @swapOut pid pcb hget hresident mm' hmem =>
    have htable := (ownedPcb_eq_some.mp hget).1
    have hstored : (pm.relinked pid (swappedPcb pcb)).pcbTable =
        pm.pcbTable.insert pid (swappedPcb pcb) := rfl
    refine ⟨h.keyed.insert htable (by rfl) hstored, hpart, fun k => ?_⟩
    have hone : (held mm.blocks pid).length ≤ 1 := by
      rw [h.agree pid]
      exact length_owed pm pid
    rw [h.partition.held_of_releases hone hmem, h.agree k, owed_insert hstored]
    simp [owedBy, isSwapped, swappedPcb]
  | kill _ hhas => exact h.pruned hhas
  | rewrite hr =>
    obtain ⟨pcb, pcb', hget, ht, hs⟩ := hr
    exact h.insert (ownedPcb_eq_some.mp hget).1 ht.pid_eq (owedBy_transition ht) hs.pcbTable_eq
  | step _ ho =>
    cases ho with
    | idle => exact h.cleaned
    | requeue pid pcb _ hget hready hswap =>
      have hsame : owedBy (afterSlice pcb) = owedBy pcb := by
        simp [owedBy, isSwapped, afterSlice, hready, hswap]
      exact h.cleaned.insert (ownedPcb_eq_some.mp hget).1 (by rfl) hsame rfl
    | finish pid pcb _ hget =>
      have hhas : pm.hasProcess owner pid := hasProcess_iff.mpr ⟨pcb, ownedPcb_eq_some.mp hget⟩
      have hpruned := h.pruned hhas
      exact ⟨hpruned.keyed, hpruned.partition, hpruned.agree⟩

theorem Matched.spawned (h : Matched pm mm) (hfresh : pm.pcbTable[pm.nextPid]? = none)
    {new : MemoryBlock} (htype : new.type = .process) (hpid : new.pid = pm.nextPid)
    (hm : Allocates new mm mm') (hparent : pcb.ppid ≠ 0 → pcb.ppid ≠ pm.nextPid)
    (hkey : pcb.pid = pm.nextPid) (hmark : owedBy pcb = [⟨new.owner, new.start, new.size⟩]) :
    Matched (pm.spawned pcb) mm' := by
  refine ⟨fun k found hget => ?_, h.partition.of_allocates (by simp [htype]) hm, fun k => ?_⟩
  · rcases spawned_cases hparent hget with ⟨hk, rfl⟩ | ⟨-, old, children, hold, rfl⟩
    · exact hkey.trans hk.symm
    · exact h.keyed k old hold
  · have hnone : held mm.blocks new.pid = [] := by
      rw [hpid, h.agree, owed_eq_nil hfresh]
    rw [hm.held_eq htype hnone, owed_spawned hparent, hpid, hmark, h.agree k]

end Kernel

end OSCoreSim
