import OSCoreSim.Memory.Validation
/-!
# Runs of the memory manager

Any sequence of operations on a fresh memory manager, or on one that has imported an
acceptable table, keeps the table a partition of the memory, and none of the `uint32`
sums and differences of the next operation wraps.
-/

namespace OSCoreSim

open Tiling

namespace MemoryManager

/-! ## The arithmetic of the operations -/

/-- The sums of the merging loop fit in 32 bits. -/
def MergeExact : MemoryBlock → List MemoryBlock → Prop
  | _, [] => True
  | last, block :: rest =>
    last.start.toNat + last.size.toNat < 2 ^ 32 ∧
      if Mergeable last block then
        last.size.toNat + block.size.toNat < 2 ^ 32 ∧ MergeExact (fuse last block) rest
      else MergeExact block rest

def ReleaseExact (m : MemoryManager) (i : ℕ) (it : MemoryBlock) : Prop :=
  match sortBlocks (m.blocks.set i (freeBlock it.start it.size)) with
  | [] => True
  | block :: rest => MergeExact block rest

def AllocateExact (m : MemoryManager) (sizeKB : UInt32) : Prop :=
  ∀ i it, m.findFreeBlock sizeKB = some i → m.blocks[i]? = some it → it.size ≠ sizeKB →
    it.start.toNat + sizeKB.toNat < 2 ^ 32 ∧ sizeKB.toNat ≤ it.size.toNat

def RelocateExact : UInt32 → List MemoryBlock → Prop
  | _, [] => True
  | cursor, block :: rest =>
    cursor.toNat + block.size.toNat < 2 ^ 32 ∧ RelocateExact (cursor + block.size) rest

def CompactExact (m : MemoryManager) : Prop :=
  RelocateExact 0 (allocated m.blocks) ∧
    (relocate 0 (allocated m.blocks)).2.toNat ≤ m.totalMemoryKB.toNat

theorem mergeExact_of_fills {a b : ℕ} {last : MemoryBlock} {rest : List MemoryBlock}
    (h : Fills a (last :: rest) b) (hb : b < 2 ^ 32) : MergeExact last rest := by
  induction rest generalizing a last with
  | nil => trivial
  | cons block rest ih =>
    obtain ⟨hstart, hpos, hblocks⟩ := fills_cons.mp h
    obtain ⟨-, hpos', hrest⟩ := fills_cons.mp hblocks
    have hle := hrest.le
    refine ⟨by omega, ?_⟩
    split
    next hm => exact ⟨by omega, ih (fills_fuse h hb)⟩
    next => exact ih hblocks

theorem relocateExact_of_sizeSum {cursor : UInt32} {blocks : List MemoryBlock}
    (h : cursor.toNat + sizeSum blocks < 2 ^ 32) : RelocateExact cursor blocks := by
  induction blocks generalizing cursor with
  | nil => trivial
  | cons block rest ih =>
    rw [sizeSum_cons] at h
    refine ⟨by omega, ih ?_⟩
    rw [toNat_add_of_lt (by omega)]
    omega

theorem Partition.releaseExact {m : MemoryManager} (h : Partition m) {p : MemoryBlock → Bool}
    {i : ℕ} {it : MemoryBlock} (hfind : m.findBlock p = some (i, it)) : m.ReleaseExact i it := by
  obtain ⟨l, r, hblocks, hlen, -⟩ := findBlock_spec hfind
  have hfills := h.fills_free hblocks
  unfold ReleaseExact
  rw [hblocks, List.set_append_right _ _ (Nat.le_of_eq hlen), hlen, Nat.sub_self,
    List.set_cons_zero, sortBlocks_eq_of_fills hfills]
  cases l with
  | nil => exact mergeExact_of_fills hfills m.totalMemoryKB.toNat_lt
  | cons block l => exact mergeExact_of_fills hfills m.totalMemoryKB.toNat_lt

theorem Partition.allocateExact {m : MemoryManager} (h : Partition m) (sizeKB : UInt32) :
    m.AllocateExact sizeKB := by
  intro i it hfind hget _
  obtain ⟨block, hblock, -, hle⟩ := findFreeBlock_spec hfind
  obtain rfl := Option.some.inj (hget.symm.trans hblock)
  have hle' := UInt32.le_iff_toNat_le.mp hle
  have hbounds := h.fills.bounds (List.mem_of_getElem? hget)
  have hlt := m.totalMemoryKB.toNat_lt
  exact ⟨by omega, hle'⟩

theorem Partition.compactExact {m : MemoryManager} (h : Partition m) : m.CompactExact := by
  have hsplit := sizeSum_allocated_add m.blocks
  have hlt := m.totalMemoryKB.toNat_lt
  have hzero : (0 : UInt32).toNat = 0 := rfl
  rw [h.sizeSum] at hsplit
  exact ⟨relocateExact_of_sizeSum (by omega), h.relocate_fills.2⟩

/-! ## Operations -/

inductive MemoryOp where
  | allocateManual (owner tag : Str) (sizeKB : UInt32)
  | allocateForProcess (owner : Str) (pid : UInt32) (processName : Str) (sizeKB : UInt32)
  | freeByAddress (owner : Str) (addr : UInt32)
  | freeByPid (owner : Str) (pid : UInt32)
  | swapOutProcess (owner : Str) (pid : UInt32)
  | compact
  | setAlgorithm (algoName : Str)

def keep {α : Type} (m : MemoryManager) (result : Except Str (MemoryManager × α)) :
    MemoryManager :=
  match result with
  | .ok (m', _) => m'
  | .error _ => m

def apply (m : MemoryManager) : MemoryOp → MemoryManager
  | .allocateManual owner tag sizeKB => m.keep (m.allocateManual owner tag sizeKB)
  | .allocateForProcess owner pid processName sizeKB =>
    m.keep (m.allocateForProcess owner pid processName sizeKB)
  | .freeByAddress owner addr => m.keep (m.freeByAddress owner addr)
  | .freeByPid owner pid => m.keep (m.freeByPid owner pid)
  | .swapOutProcess owner pid => m.keep (m.swapOutProcess owner pid)
  | .compact => m.compact.1
  | .setAlgorithm algoName => m.keep (m.setAlgorithm algoName)

/-- No `uint32` sum or difference of the call wraps. -/
def Exact (m : MemoryManager) : MemoryOp → Prop
  | .allocateManual _ _ sizeKB => m.AllocateExact sizeKB
  | .allocateForProcess _ _ _ sizeKB => m.AllocateExact sizeKB
  | .freeByAddress _ addr =>
    ∀ i it, m.findBlock (·.start = addr) = some (i, it) → m.ReleaseExact i it
  | .freeByPid owner pid =>
    ∀ i it, m.findBlock (isProcessBlock owner pid) = some (i, it) → m.ReleaseExact i it
  | .swapOutProcess owner pid =>
    ∀ i it, m.findBlock (isProcessBlock owner pid) = some (i, it) → m.ReleaseExact i it
  | .compact => m.CompactExact
  | .setAlgorithm _ => True

theorem Partition.exact {m : MemoryManager} (h : Partition m) (op : MemoryOp) : m.Exact op := by
  cases op with
  | allocateManual => exact h.allocateExact _
  | allocateForProcess => exact h.allocateExact _
  | freeByAddress => exact fun _ _ hfind => h.releaseExact hfind
  | freeByPid => exact fun _ _ hfind => h.releaseExact hfind
  | swapOutProcess => exact fun _ _ hfind => h.releaseExact hfind
  | compact => exact h.compactExact
  | setAlgorithm => trivial

theorem keep_induction {α : Type} {m : MemoryManager} {P : MemoryManager → Prop}
    {result : Except Str (MemoryManager × α)} (hm : P m)
    (hok : ∀ m' a, result = .ok (m', a) → P m') : P (m.keep result) := by
  cases result with
  | error message => exact hm
  | ok pair => exact hok pair.1 pair.2 rfl

theorem Partition.apply {m : MemoryManager} (h : Partition m) (op : MemoryOp) :
    Partition (m.apply op) ∧ (m.apply op).totalMemoryKB = m.totalMemoryKB := by
  have halloc : ∀ {owner tag pid sizeKB type}, type ≠ .free → ∀ m' a,
      m.allocateLocked owner pid tag sizeKB type = .ok (m', a) →
        Partition m' ∧ m'.totalMemoryKB = m.totalMemoryKB := by
    intro owner tag pid sizeKB type htype m' a hok
    have hm := (h.allocates hok).2
    refine ⟨h.of_allocates htype hm, ?_⟩
    obtain ⟨l, it, r, -, -, -, -, -, rfl⟩ := hm
    rfl
  have hrelease : ∀ {p m'}, Releases p m m' →
      Partition m' ∧ m'.totalMemoryKB = m.totalMemoryKB := by
    intro p m' hm
    refine ⟨h.of_releases hm, ?_⟩
    obtain ⟨l, it, r, -, -, -, -, rfl⟩ := hm
    rfl
  let P (m' : MemoryManager) : Prop := Partition m' ∧ m'.totalMemoryKB = m.totalMemoryKB
  have hm : P m := ⟨h, rfl⟩
  cases op with
  | allocateManual owner tag sizeKB =>
    exact keep_induction (P := P) hm (halloc (by simp))
  | allocateForProcess owner pid processName sizeKB =>
    exact keep_induction (P := P) hm (halloc (by simp))
  | freeByAddress owner addr =>
    refine keep_induction (P := P) hm fun m' a hok => ?_
    obtain ⟨l, it, r, hblocks, -, -, -, -, rfl⟩ := freeByAddress_spec hok
    exact ⟨h.of_released hblocks, rfl⟩
  | freeByPid owner pid =>
    exact keep_induction (P := P) hm fun m' a hok => hrelease (freeByPid_spec hok)
  | swapOutProcess owner pid =>
    exact keep_induction (P := P) hm fun m' a hok => hrelease (swapOutProcess_spec hok)
  | compact =>
    refine ⟨h.of_compact, ?_⟩
    simp only [MemoryManager.apply, h.compact_eq]
  | setAlgorithm algoName =>
    refine keep_induction (P := P) hm fun m' a hok => ?_
    obtain ⟨algorithm, rfl⟩ := setAlgorithm_spec hok
    exact ⟨⟨h.total_pos, h.fills, h.freePlain, h.merged⟩, rfl⟩

/-! ## Runs -/

/-- A memory manager before its first operation: a constructed one, or one whose imported
table `validateBlocks` accepts.  `std::sort` leaves the order of blocks with equal starts
open, so every sorted arrangement of the imported table counts. -/
inductive Initial : MemoryManager → Prop
  | fresh : Initial {}
  | imported (totalMemoryKB : UInt32) (algorithm : AllocAlgorithm)
      (table sorted : List MemoryBlock) (hperm : sorted.Perm table)
      (hsorted : sorted.Pairwise fun x y => x.start ≤ y.start)
      (haccept : ∃ message, MemoryManager.validateBlocks
        { totalMemoryKB := totalMemoryKB, algorithm := algorithm, blocks := mergeSorted sorted } =
          .ok message) :
      Initial
        { totalMemoryKB := totalMemoryKB, algorithm := algorithm, blocks := mergeSorted sorted }

theorem initial_importBlocks {m : MemoryManager} {table : List MemoryBlock}
    (haccept : ∃ message, (m.importBlocks table).validateBlocks = .ok message) :
    Initial (m.importBlocks table) :=
  .imported m.totalMemoryKB m.algorithm table (sortBlocks (sortBlocks table))
    ((sortBlocks_perm _).trans (sortBlocks_perm _)) (sortBlocks_pairwise _) haccept

theorem Initial.partition {m : MemoryManager} (h : Initial m) : Partition m := by
  cases h with
  | fresh =>
    refine ⟨by decide, ⟨rfl, by decide, rfl⟩, fun block hmem _ => ?_, .singleton _⟩
    simp only [List.mem_cons, List.not_mem_nil, or_false] at hmem
    exact hmem ▸ ⟨rfl, rfl⟩
  | imported totalMemoryKB algorithm table sorted hperm hsorted haccept =>
    exact partition_of_validateBlocks haccept (mergeSorted_isChain sorted)

/-- The partition invariant in full. -/
structure Sound (m : MemoryManager) : Prop where
  sorted : m.blocks.Pairwise fun x y => x.start < y.start
  starts_at_zero : ∀ block ∈ m.blocks.head?, block.start = 0
  contiguous : m.blocks.IsChain fun x y => x.start.toNat + x.size.toNat = y.start.toNat
  positive : ∀ block ∈ m.blocks, 0 < block.size
  covers : (m.blocks.map fun block => block.size.toNat).sum = m.totalMemoryKB.toNat
  used_add_free : m.usedMemoryKB.toNat + m.freeMemoryKB.toNat = m.totalMemoryKB.toNat
  free_plain : ∀ block ∈ m.blocks, block.type = .free → block.pid = 0 ∧ block.owner = []
  no_free_neighbours : m.blocks.IsChain fun x y => ¬(x.type = .free ∧ y.type = .free)
  accepted : ∃ message, m.validateBlocks = .ok message

theorem Partition.sound {m : MemoryManager} (h : Partition m) : Sound m where
  sorted := h.fills.pairwise_start.imp UInt32.lt_iff_toNat_lt.mpr
  starts_at_zero := by
    intro block hmem
    obtain ⟨rest, hblocks⟩ := List.head?_eq_some_iff.mp hmem
    have hfills := h.fills
    rw [hblocks] at hfills
    exact UInt32.toNat_inj.mp (fills_cons.mp hfills).1
  contiguous := h.fills.isChain
  positive block hmem := UInt32.lt_iff_toNat_lt.mpr (h.fills.bounds hmem).2.1
  covers := h.sizeSum
  used_add_free := h.used_add_free
  free_plain := h.freePlain
  no_free_neighbours := h.merged
  accepted := h.validateBlocks

theorem partition_run {m : MemoryManager} (h : Partition m) (ops : List MemoryOp) :
    Partition (Runs.run apply m ops) ∧ (Runs.run apply m ops).totalMemoryKB = m.totalMemoryKB := by
  induction ops generalizing m with
  | nil => exact ⟨h, rfl⟩
  | cons op ops ih =>
    obtain ⟨hstep, htotal⟩ := h.apply op
    obtain ⟨hrun, hrest⟩ := ih hstep
    exact ⟨hrun, hrest.trans htotal⟩

/-- After any operations the table is sound for the same total, and no operation that may
come next wraps. -/
theorem sound_of_run {m : MemoryManager} (hinit : Initial m) (ops : List MemoryOp) :
    Sound (Runs.run apply m ops) ∧
      (Runs.run apply m ops).totalMemoryKB = m.totalMemoryKB ∧
      ∀ op, (Runs.run apply m ops).Exact op := by
  obtain ⟨hpart, htotal⟩ := partition_run hinit.partition ops
  exact ⟨hpart.sound, htotal, hpart.exact⟩

/-- A split, a release in the middle and a compaction on a fresh manager. -/
theorem sound_of_run_split :
    let ops : List MemoryOp := [.allocateManual (str "a") (str "x") 16,
      .allocateForProcess (str "a") 1 (str "p") 8, .freeByAddress (str "a") 0, .compact]
    Sound (Runs.run apply {} ops) ∧
      (Runs.run apply {} ops).totalMemoryKB = ({} : MemoryManager).totalMemoryKB ∧
      ∀ op, (Runs.run apply {} ops).Exact op :=
  sound_of_run .fresh _

end MemoryManager

end OSCoreSim
