import OSCoreSim.Kernel.Agreement
import OSCoreSim.Memory.ImportedTable
import OSCoreSim.Process.ProcessImport
import OSCoreSim.Process.QueueRepair
/-!
# What `validateSnapshot` accepts

Each loop of `validateSnapshot` is characterised by the conditions on the list it runs
over; `ValidSnapshot` collects them, and a snapshot is accepted exactly if it meets them.
-/

namespace OSCoreSim

open MemoryManager ProcessManager
open Std (ExtTreeMap)

namespace Kernel

structure PcbInRange (pcb : PCB) : Prop where
  parent : pcb.ppid ≠ pcb.pid
  priority : 0 ≤ pcb.priority ∧ pcb.priority ≤ 15
  level : 0 ≤ pcb.queueLevel ∧ pcb.queueLevel ≤ 2
  executed : pcb.executedTime ≤ pcb.totalTime
  remaining : pcb.remainingTime ≤ pcb.totalTime

def Placed (pcbs : ExtTreeMap UInt32 PCB) (block : MemoryBlock) : Prop :=
  block.type = .process → ∃ pcb, pcbs[block.pid]? = some pcb ∧ pcb.owner = block.owner ∧
    isSwapped pcb = false ∧ block.start = pcb.memStart ∧ block.size = pcb.memSize

def OwnedBy (usernames : List Str) (block : MemoryBlock) : Prop :=
  block.type = .kernel ∨ block.type = .process → block.owner ∈ usernames

def processPids (blocks : List MemoryBlock) : List UInt32 :=
  (blocks.filter (·.type = .process)).map (·.pid)

def snapshotMemory (s : KernelSnapshot) : MemoryManager :=
  { totalMemoryKB := s.totalMemoryKB
    algorithm := s.allocAlgorithm : MemoryManager }.importBlocks s.memoryBlocks

structure ValidSnapshot (s : KernelSnapshot) : Prop where
  username : ∀ account ∈ s.users, account.username ≠ []
  usernames : (s.users.map (·.username)).Nodup
  pid : ∀ pcb ∈ s.pcbs, pcb.pid ≠ 0
  pids : (s.pcbs.map (·.pid)).Nodup
  owner : ∀ pcb ∈ s.pcbs, pcb.owner ∈ s.users.map (·.username)
  range : ∀ pcb ∈ s.pcbs, PcbInRange pcb
  next : 0 < s.nextPid
  next_gt : ∀ pcb ∈ s.pcbs, pcb.pid < s.nextPid
  parent : ∀ pcb ∈ s.pcbs, pcb.ppid ≠ 0 → pcb.ppid ∈ s.pcbs.map (·.pid)
  child : ∀ pcb ∈ s.pcbs, ∀ c ∈ pcb.children, c ∈ s.pcbs.map (·.pid)
  total : s.totalMemoryKB ≠ 0
  placed : ∀ block ∈ s.memoryBlocks, Placed (importPcbs s.pcbs).pcbTable block
  owned : ∀ block ∈ s.memoryBlocks, OwnedBy (s.users.map (·.username)) block
  single : (processPids s.memoryBlocks).Nodup
  resident : ∀ pcb ∈ s.pcbs, isSwapped pcb = false → pcb.pid ∈ processPids s.memoryBlocks
  memory : ∃ message, (snapshotMemory s).validateBlocks = .ok message

/-! ## The loops -/

theorem validateUsers_ok {users : List UserAccount} {seen usernames : List Str} :
    validateUsers users seen = .ok usernames ↔
      (∀ account ∈ users, account.username ≠ []) ∧ (users.map (·.username)).Nodup ∧
        (∀ account ∈ users, account.username ∉ seen) ∧
        usernames = (users.map (·.username)).reverse ++ seen := by
  induction users generalizing seen with
  | nil => simp [validateUsers, eq_comm]
  | cons account rest ih =>
    unfold validateUsers
    by_cases hempty : account.username = []
    · simp [hempty]
    by_cases hseen : account.username ∈ seen
    · simp [hempty, hseen]
    rw [if_neg hempty, if_neg hseen, ih, List.forall_mem_cons, List.forall_mem_cons]
    simp only [List.map_cons, List.nodup_cons, List.mem_cons, not_or,
      List.reverse_cons, List.append_assoc, List.singleton_append]
    constructor
    · rintro ⟨hnames, hnodup, hnew, rfl⟩
      refine ⟨⟨hempty, hnames⟩, ⟨fun hmem => ?_, hnodup⟩, ⟨hseen, fun a ha => (hnew a ha).2⟩, rfl⟩
      obtain ⟨a, ha, heq⟩ := List.mem_map.mp hmem
      exact (hnew a ha).1 heq
    · rintro ⟨⟨-, hnames⟩, ⟨hfresh, hnodup⟩, ⟨-, hnew⟩, rfl⟩
      exact ⟨hnames, hnodup,
        fun a ha => ⟨fun heq => hfresh (List.mem_map.mpr ⟨a, ha, heq⟩), hnew a ha⟩, rfl⟩

theorem max_lt_iff {a b bound : UInt32} : max a b < bound ↔ a < bound ∧ b < bound := by
  show (if a ≤ b then b else a) < bound ↔ _
  split
  next hle =>
    have hle' := UInt32.le_iff_toNat_le.mp hle
    simp only [UInt32.lt_iff_toNat_lt]
    omega
  next hle =>
    have hlt := UInt32.lt_iff_toNat_lt.mp (UInt32.not_le.mp hle)
    simp only [UInt32.lt_iff_toNat_lt]
    omega

theorem foldl_max_lt {pcbs : List PCB} {bound maxPid : UInt32} :
    pcbs.foldl (fun m pcb => max m pcb.pid) maxPid < bound ↔
      maxPid < bound ∧ ∀ pcb ∈ pcbs, pcb.pid < bound := by
  induction pcbs generalizing maxPid with
  | nil => simp
  | cons pcb rest ih => rw [List.foldl_cons, ih, List.forall_mem_cons, max_lt_iff, and_assoc]

theorem validatePcbs_ok {usernames : List Str} {pcbs : List PCB}
    {table table' : ExtTreeMap UInt32 PCB} {maxPid maxPid' : UInt32} :
    validatePcbs usernames pcbs table maxPid = .ok (table', maxPid') ↔
      (∀ pcb ∈ pcbs, pcb.pid ≠ 0 ∧ pcb.owner ∈ usernames ∧ PcbInRange pcb) ∧
        (pcbs.map (·.pid)).Nodup ∧ (∀ pcb ∈ pcbs, pcb.pid ∉ table) ∧
        table' = pcbs.foldl (fun table pcb => table.insert pcb.pid pcb) table ∧
        maxPid' = pcbs.foldl (fun m pcb => max m pcb.pid) maxPid := by
  induction pcbs generalizing table maxPid with
  | nil => simp [validatePcbs, eq_comm]
  | cons pcb rest ih =>
    unfold validatePcbs
    by_cases hpid : pcb.pid = 0 ∨ table.contains pcb.pid = true
    · rw [if_pos hpid]
      simp only [List.forall_mem_cons, reduceCtorEq, false_iff]
      rintro ⟨⟨⟨hne, -⟩, -⟩, -, ⟨hnot, -⟩, -⟩
      rcases hpid with h | h
      · exact hne h
      · exact hnot (ExtTreeMap.mem_iff_contains.mpr h)
    by_cases howner : pcb.owner ∉ usernames
    · rw [if_neg hpid, if_pos howner]
      simp [howner]
    by_cases hrange : PcbInRange pcb
    · have hself := hrange.parent
      have hlevels : ¬(pcb.priority < 0 ∨ 15 < pcb.priority ∨ pcb.queueLevel < 0 ∨
          2 < pcb.queueLevel) := by
        simp [Int32.not_lt, hrange.priority, hrange.level]
      have htimes : ¬(pcb.totalTime < pcb.executedTime ∨ pcb.totalTime < pcb.remainingTime) := by
        simp [UInt32.not_lt, hrange.executed, hrange.remaining]
      rw [if_neg hpid, if_neg howner, if_neg hself, if_neg hlevels, if_neg htimes, ih]
      rw [not_or] at hpid
      simp only [List.forall_mem_cons, List.map_cons, List.nodup_cons, List.foldl_cons,
        ExtTreeMap.mem_insert, Std.compare_eq_iff_eq, not_or]
      constructor
      · rintro ⟨hall, hnodup, hnew, htable, hmax⟩
        refine ⟨⟨⟨hpid.1, not_not.mp howner, hrange⟩, hall⟩, ⟨fun hmem => ?_, hnodup⟩,
          ⟨by simpa using hpid.2, fun p hp => (hnew p hp).2⟩, htable, hmax⟩
        obtain ⟨p, hp, heq⟩ := List.mem_map.mp hmem
        exact (hnew p hp).1 heq.symm
      · rintro ⟨⟨-, hall⟩, ⟨hfresh, hnodup⟩, ⟨-, hnew⟩, htable, hmax⟩
        exact ⟨hall, hnodup,
          fun p hp => ⟨fun heq => hfresh (List.mem_map.mpr ⟨p, hp, heq.symm⟩), hnew p hp⟩,
          htable, hmax⟩
    · have hrefused : ∀ table'' maxPid'', (if pcb.ppid = pcb.pid then
            .error (str "invalid snapshot: PCB cannot be its own parent.")
          else if pcb.priority < 0 ∨ 15 < pcb.priority ∨ pcb.queueLevel < 0 ∨
              2 < pcb.queueLevel then
            .error (str "invalid snapshot: PCB priority or queue level out of range.")
          else if pcb.totalTime < pcb.executedTime ∨ pcb.totalTime < pcb.remainingTime then
            .error (str "invalid snapshot: PCB runtime counters out of range.")
          else validatePcbs usernames rest (table.insert pcb.pid pcb) (max maxPid pcb.pid)) ≠
          Except.ok (table'', maxPid'') := by
        intro table'' maxPid'' heq
        split at heq
        · cases heq
        next hself =>
        split at heq
        · cases heq
        next hlevels =>
        split at heq
        · cases heq
        next htimes =>
        simp only [not_or, Int32.not_lt, UInt32.not_lt] at hlevels htimes
        exact hrange ⟨hself, ⟨hlevels.1, hlevels.2.1⟩, hlevels.2.2, htimes.1, htimes.2⟩
      rw [if_neg hpid, if_neg howner]
      simp [hrefused, hrange]

theorem validateLinks_ok {table : ExtTreeMap UInt32 PCB} {pcbs : List PCB} :
    validateLinks table pcbs = .ok () ↔
      ∀ pcb ∈ pcbs, (pcb.ppid ≠ 0 → pcb.ppid ∈ table) ∧ ∀ c ∈ pcb.children, c ∈ table := by
  induction pcbs with
  | nil => simp [validateLinks]
  | cons pcb rest ih =>
    unfold validateLinks
    rw [List.forall_mem_cons]
    by_cases hparent : pcb.ppid ≠ 0 ∧ (!table.contains pcb.ppid) = true
    · rw [if_pos hparent]
      simp only [reduceCtorEq, false_iff]
      rintro ⟨⟨h, -⟩, -⟩
      simpa [ExtTreeMap.mem_iff_contains.mp (h hparent.1)] using hparent.2
    by_cases hchild : pcb.children.any (!table.contains ·) = true
    · rw [if_neg hparent, if_pos hchild]
      simp only [reduceCtorEq, false_iff]
      rintro ⟨⟨-, h⟩, -⟩
      obtain ⟨c, hc, hnot⟩ := List.any_eq_true.mp hchild
      simp [ExtTreeMap.mem_iff_contains.mp (h c hc)] at hnot
    · rw [if_neg hparent, if_neg hchild, ih]
      have hparent' : pcb.ppid ≠ 0 → pcb.ppid ∈ table := by
        intro hne
        by_contra hnot
        exact hparent ⟨hne, by rw [Bool.not_eq_true', ← Bool.not_eq_true]; exact hnot⟩
      have hchild' : ∀ c ∈ pcb.children, c ∈ table := by simpa using hchild
      exact ⟨fun h => ⟨⟨hparent', hchild'⟩, h⟩, fun h => h.2⟩

theorem validateProcessBlock_ok {pcbs : ExtTreeMap UInt32 PCB} {seen : List UInt32}
    {block : MemoryBlock} (htype : block.type = .process) :
    validateProcessBlock pcbs seen block = .ok () ↔ Placed pcbs block ∧ block.pid ∉ seen := by
  unfold validateProcessBlock Placed
  cases hget : pcbs[block.pid]? with
  | none => simp [htype]
  | some process =>
    simp only [htype, true_imp_iff, Option.some.injEq, exists_eq_left']
    by_cases howner : process.owner = block.owner
    swap
    · simp [howner]
    by_cases hswap : isSwapped process = true
    · simp [howner, hswap]
    by_cases hstart : block.start = process.memStart
    swap
    · simp [howner, hswap, hstart]
    by_cases hsize : block.size = process.memSize
    swap
    · simp [howner, hswap, hstart, hsize]
    by_cases hseen : block.pid ∈ seen <;> simp [howner, hswap, hstart, hsize, hseen]

theorem validateMemory_ok {usernames : List Str} {pcbs : ExtTreeMap UInt32 PCB}
    {blocks : List MemoryBlock} {seen seen' : List UInt32} :
    validateMemory usernames pcbs blocks seen = .ok seen' ↔
      (∀ block ∈ blocks, Placed pcbs block) ∧ (∀ block ∈ blocks, OwnedBy usernames block) ∧
        (processPids blocks).Nodup ∧ (∀ pid ∈ processPids blocks, pid ∉ seen) ∧
        seen' = (processPids blocks).reverse ++ seen := by
  induction blocks generalizing seen with
  | nil => simp [validateMemory, processPids, eq_comm]
  | cons block rest ih =>
    unfold validateMemory
    rw [List.forall_mem_cons, List.forall_mem_cons]
    by_cases howned : (block.type = .kernel ∨ block.type = .process) ∧ block.owner ∉ usernames
    · have hnot : ¬OwnedBy usernames block := fun h => howned.2 (h howned.1)
      simp only [hnot, false_and, and_false, iff_false]
      split
      · simp
      · simp [howned]
    have howned' : OwnedBy usernames block := fun h => by
      by_contra hnot
      exact howned ⟨h, hnot⟩
    by_cases htype : block.type = .process
    · have hpids : processPids (block :: rest) = block.pid :: processPids rest := by
        simp [processPids, htype]
      rw [if_pos htype, hpids]
      have hblock : validateProcessBlock pcbs seen block = .ok () ↔
          Placed pcbs block ∧ block.pid ∉ seen := validateProcessBlock_ok htype
      cases hcheck : validateProcessBlock pcbs seen block with
      | error message =>
        rw [hcheck] at hblock
        simp only [reduceCtorEq, false_iff, not_and, not_not] at hblock
        simp only [reduceCtorEq, false_iff]
        rintro ⟨⟨hplaced, -⟩, -, -, hnew, -⟩
        exact hnew block.pid List.mem_cons_self (hblock hplaced)
      | ok u =>
        obtain ⟨hplaced, hseen⟩ := hblock.mp (by rw [hcheck])
        simp only [howned, if_false, if_pos htype]
        rw [ih, List.forall_mem_cons]
        simp only [hplaced, howned', true_and, List.nodup_cons, List.mem_cons, not_or,
          List.reverse_cons, List.append_assoc, List.singleton_append]
        constructor
        · rintro ⟨hrest, howners, hnodup, hnew, rfl⟩
          exact ⟨hrest, howners, ⟨fun hmem => (hnew _ hmem).1 rfl, hnodup⟩,
            ⟨hseen, fun k hk => (hnew k hk).2⟩, rfl⟩
        · rintro ⟨hrest, howners, ⟨hfresh, hnodup⟩, ⟨-, hnew⟩, rfl⟩
          exact ⟨hrest, howners, hnodup,
            fun k hk => ⟨fun heq => hfresh (heq ▸ hk), hnew k hk⟩, rfl⟩
    · have hpids : processPids (block :: rest) = processPids rest := by
        simp [processPids, htype]
      have hplaced : Placed pcbs block := fun h => absurd h htype
      simp only [if_neg htype, howned, if_false, hpids, hplaced, howned', true_and]
      exact ih

/-! ## The whole check -/

/-- An accepted snapshot passes the stages one after the other. -/
theorem validateSnapshot_stages {s : KernelSnapshot} :
    (∃ message, validateSnapshot s = .ok message) ↔
      ∃ usernames table maxPid withMemory, validateUsers s.users [] = .ok usernames ∧
        validatePcbs usernames s.pcbs ∅ 0 = .ok (table, maxPid) ∧ maxPid < s.nextPid ∧
        validateLinks table s.pcbs = .ok () ∧ s.totalMemoryKB ≠ 0 ∧
        validateMemory usernames table s.memoryBlocks [] = .ok withMemory ∧
        (∀ pid pcb, table[pid]? = some pcb → isSwapped pcb = false → pid ∈ withMemory) ∧
        ∃ message, (snapshotMemory s).validateBlocks = .ok message := by
  unfold validateSnapshot snapshotMemory
  constructor
  · rintro ⟨message, h⟩
    split at h
    · cases h
    next usernames husers =>
    split at h
    · cases h
    next table maxPid hpcbs =>
    split at h
    · cases h
    next hnext =>
    split at h
    · cases h
    next hlinks =>
    split at h
    · cases h
    next htotal =>
    split at h
    · cases h
    next withMemory hmemory =>
    split at h
    · cases h
    next hresident =>
    refine ⟨usernames, table, maxPid, withMemory, husers, hpcbs, UInt32.not_le.mp hnext, hlinks,
      htotal, hmemory, fun pid pcb hget hswap => ?_, message, h⟩
    by_contra hnot
    refine hresident (List.any_eq_true.mpr ⟨(pid, pcb), ?_, by simp [hswap, hnot]⟩)
    exact ExtTreeMap.mem_toList_iff_getElem?_eq_some.mpr hget
  · rintro ⟨usernames, table, maxPid, withMemory, husers, hpcbs, hnext, hlinks, htotal, hmemory,
      hresident, message, h⟩
    refine ⟨message, ?_⟩
    simp only [husers, hpcbs, hlinks, hmemory, if_neg (UInt32.not_le.mpr hnext), if_neg htotal]
    rw [if_neg]
    · exact h
    · intro hany
      obtain ⟨⟨pid, pcb⟩, hmem, hcheck⟩ := List.any_eq_true.mp hany
      obtain ⟨hswap, hnot⟩ : isSwapped pcb = false ∧ pid ∉ withMemory := by simpa using hcheck
      exact hnot (hresident pid pcb (ExtTreeMap.mem_toList_iff_getElem?_eq_some.mp hmem) hswap)

theorem validateSnapshot_ok {s : KernelSnapshot} :
    (∃ message, validateSnapshot s = .ok message) ↔ ValidSnapshot s := by
  have hlive : (s.pcbs.map (·.pid)).Nodup →
      ∀ k, k ∈ (importPcbs s.pcbs).pcbTable ↔ k ∈ s.pcbs.map (·.pid) := fun hpids k => by
    rw [ExtTreeMap.mem_iff_isSome_getElem?, Option.isSome_iff_exists, List.mem_map]
    simp only [importPcbs_getElem? hpids]
  rw [validateSnapshot_stages]
  constructor
  · rintro ⟨usernames, table, maxPid, withMemory, husers, hpcbs, hnext, hlinks, htotal, hmemory,
      hresident, hblocks⟩
    obtain ⟨hname, hnames, -, rfl⟩ := validateUsers_ok.mp husers
    obtain ⟨hpcb, hpids, -, rfl, rfl⟩ := validatePcbs_ok.mp hpcbs
    obtain ⟨hplaced, howned, hsingle, -, rfl⟩ := validateMemory_ok.mp hmemory
    obtain ⟨hpos, hgt⟩ := foldl_max_lt.mp hnext
    have hlinks' := validateLinks_ok.mp hlinks
    exact {
      username := hname
      usernames := hnames
      pid := fun pcb hmem => (hpcb pcb hmem).1
      pids := hpids
      owner := fun pcb hmem => by simpa using (hpcb pcb hmem).2.1
      range := fun pcb hmem => (hpcb pcb hmem).2.2
      next := hpos
      next_gt := hgt
      parent := fun pcb hmem hne => (hlive hpids _).mp ((hlinks' pcb hmem).1 hne)
      child := fun pcb hmem c hc => (hlive hpids _).mp ((hlinks' pcb hmem).2 c hc)
      total := htotal
      placed := hplaced
      owned := fun block hmem htype => by simpa using howned block hmem htype
      single := hsingle
      resident := fun pcb hmem hswap => by
        simpa using hresident pcb.pid pcb ((importPcbs_getElem? hpids).mpr ⟨hmem, rfl⟩) hswap
      memory := hblocks }
  · intro h
    refine ⟨(s.users.map (·.username)).reverse ++ [], (importPcbs s.pcbs).pcbTable,
      s.pcbs.foldl (fun m pcb => max m pcb.pid) 0,
      (processPids s.memoryBlocks).reverse ++ [], ?_, ?_, ?_, ?_, h.total, ?_, ?_, h.memory⟩
    · exact validateUsers_ok.mpr ⟨h.username, h.usernames, by simp, rfl⟩
    · refine validatePcbs_ok.mpr ⟨fun pcb hmem => ⟨h.pid pcb hmem, ?_, h.range pcb hmem⟩, h.pids,
        by simp, rfl, rfl⟩
      simpa using h.owner pcb hmem
    · exact foldl_max_lt.mpr ⟨h.next, h.next_gt⟩
    · exact validateLinks_ok.mpr fun pcb hmem =>
        ⟨fun hne => (hlive h.pids _).mpr (h.parent pcb hmem hne),
          fun c hc => (hlive h.pids _).mpr (h.child pcb hmem c hc)⟩
    · refine validateMemory_ok.mpr ⟨h.placed, fun block hmem htype => ?_, h.single, by simp, rfl⟩
      simpa using h.owned block hmem htype
    · intro pid pcb hget hswap
      obtain ⟨hmem, rfl⟩ := (importPcbs_getElem? h.pids).mp hget
      simpa using h.resident pcb hmem hswap

/-! ## The listed blocks -/

/-- The memory check runs on the merged table.  The blocks of an accepted snapshot are a
partition themselves exactly if the merge has joined only sound neighbours. -/
theorem accepted_realPartition_iff {s : KernelSnapshot} {message : Str}
    (h : validateSnapshot s = .ok message) :
    RealPartition s.memoryBlocks s.totalMemoryKB.toNat ↔
      (sortBlocks s.memoryBlocks).IsChain JoinsSoundly := by
  have haccept := (validateSnapshot_ok.mp ⟨message, h⟩).memory
  rw [snapshotMemory, importBlocks_eq] at haccept
  exact realPartition_iff (sortBlocks_perm s.memoryBlocks) haccept

/-- Two halves that the merge joins. -/
theorem accepted_realPartition_halves :
    RealPartition [freeBlock 0 512, freeBlock 512 512] (1024 : UInt32).toNat :=
  (@accepted_realPartition_iff { memoryBlocks := [freeBlock 0 512, freeBlock 512 512] }
    (str "Memory validation passed.") (by decide)).mpr (by decide)

/-- The second block ends behind the 32-bit range, and the merged size is the total. -/
def wrappedFree : KernelSnapshot where
  memoryBlocks := [freeBlock 0 2000, freeBlock 2000 4294966320]

theorem wrappedFree_accepted :
    ¬∀ s message, validateSnapshot s = .ok message →
      RealPartition s.memoryBlocks s.totalMemoryKB.toNat := by
  intro h
  have hreal := h wrappedFree (str "Memory validation passed.") (by decide)
  exact absurd (hreal.end_le (List.mem_cons_self : freeBlock 0 2000 ∈ _)) (by decide)

end Kernel

end OSCoreSim
