import OSCoreSim.Lib.KeyedTable
import OSCoreSim.Memory.Compaction
/-!
# The blocks in use

What each memory operation does to the blocks in use, FREE blocks aside: an allocation
adds one, a release drops one, a compaction moves them.  `held` are the footprints of the
PROCESS blocks of one PID.
-/

namespace OSCoreSim

namespace MemoryManager

variable {m m' : MemoryManager} {owner name message : Str} {pid sizeKB start : UInt32}

/-! ## Additions and releases -/

theorem Allocates.allocated_eq {new : MemoryBlock} (hnew : new.type ≠ .free)
    (h : Allocates new m m') :
    ∃ l r, allocated m.blocks = l ++ r ∧ allocated m'.blocks = l ++ new :: r := by
  obtain ⟨l, it, r, hblocks, hfree, -, -, -, rfl⟩ := h
  refine ⟨allocated l, allocated r, ?_, ?_⟩
  · rw [hblocks, allocated_append, allocated_cons_of_free hfree]
  · simp only [allocated_append, allocated_carve hnew hfree]
    rfl

theorem Partition.allocated_released (h : Partition m) {l r : List MemoryBlock}
    {it : MemoryBlock} (hblocks : m.blocks = l ++ it :: r) :
    allocated (m.released l it r).blocks = allocated l ++ allocated r := by
  rw [h.released_eq hblocks]
  simp only [allocated_mergeSorted, allocated_append]
  rw [allocated_cons_of_free rfl]

theorem Partition.allocated_releases (h : Partition m) {p : MemoryBlock → Prop}
    (hm : Releases p m m') :
    ∃ l it r, allocated m.blocks = l ++ it :: r ∧ p it ∧ allocated m'.blocks = l ++ r := by
  obtain ⟨l, it, r, hblocks, hit, -, hfree, rfl⟩ := hm
  refine ⟨allocated l, it, allocated r, ?_, hit, h.allocated_released hblocks⟩
  rw [hblocks, allocated_append, allocated_cons_of_ne hfree]

theorem Partition.mem_of_releases (h : Partition m) {p : MemoryBlock → Prop}
    (hm : Releases p m m') : ∀ block ∈ allocated m'.blocks, block ∈ allocated m.blocks := by
  obtain ⟨l, it, r, hold, -, hdrop⟩ := h.allocated_releases hm
  intro block hmem
  rw [hdrop] at hmem
  rw [hold]
  simp only [List.mem_append, List.mem_cons] at hmem ⊢
  exact hmem.imp_right .inr

theorem Releases.totalMemoryKB_eq {p : MemoryBlock → Prop} (h : Releases p m m') :
    m'.totalMemoryKB = m.totalMemoryKB ∧ m'.algorithm = m.algorithm := by
  obtain ⟨l, it, r, -, -, -, -, rfl⟩ := h
  exact ⟨rfl, rfl⟩

theorem Allocates.totalMemoryKB_eq {new : MemoryBlock} (h : Allocates new m m') :
    m'.totalMemoryKB = m.totalMemoryKB ∧ m'.algorithm = m.algorithm := by
  obtain ⟨l, it, r, -, -, -, -, -, rfl⟩ := h
  exact ⟨rfl, rfl⟩

/-! ## Allocation and immediate release -/

def FreeUntagged (blocks : List MemoryBlock) : Prop :=
  ∀ block ∈ blocks, block.type = .free → block.tag = []

/-- A block that is freed again grows back over what the split had left. -/
theorem mergeSorted_carve_back {l rest r : List MemoryBlock} {it new : MemoryBlock}
    (hplain : freeBlock it.start it.size = it) (hstart : new.start = it.start)
    (hrest : carve it new = new :: rest) (hmerged : mergeSorted (l ++ it :: r) = l ++ it :: r) :
    mergeSorted (l ++ freeBlock new.start new.size :: (rest ++ r)) = l ++ it :: r := by
  have hfree : it.type = .free := by
    rw [← hplain]
    rfl
  unfold carve at hrest
  split at hrest
  next heq =>
    obtain ⟨-, rfl⟩ := List.cons.inj hrest
    have hsame : freeBlock new.start new.size = it := by rw [← heq, hstart, hplain]
    rw [hsame]
    exact hmerged
  next hne =>
    obtain ⟨-, rfl⟩ := List.cons.inj hrest
    have hsum : new.size + (it.size - new.size) = it.size := by
      rw [UInt32.add_comm, UInt32.sub_add_cancel]
    have hmergeable : Mergeable (freeBlock new.start new.size)
        { it with start := it.start + new.size, size := it.size - new.size } :=
      ⟨rfl, hfree, by rw [← hstart]; rfl⟩
    have hfuse : fuse (freeBlock new.start new.size)
        { it with start := it.start + new.size, size := it.size - new.size } = it := by
      rw [← hplain]
      simp only [fuse, freeBlock, hsum]
      rw [hstart]
    rw [List.cons_append, List.nil_append, mergeSorted_fuse hmergeable, hfuse]
    exact hmerged

/-- An allocation cuts the table at its block, and the release of this block undoes it. -/
theorem Partition.undone (h : Partition m) {new : MemoryBlock} (hnew : new.type ≠ .free)
    (hm : Allocates new m m') :
    ∃ l r, m'.blocks = l ++ new :: r ∧ (∀ block ∈ l, block ∈ m.blocks) ∧
      allocated (m'.released l new r).blocks = allocated m.blocks ∧
      (FreeUntagged m.blocks → m'.released l new r = m) := by
  have hpart := h.of_allocates hnew hm
  obtain ⟨l, it, r, hblocks, hfree, hstart, -, -, rfl⟩ := hm
  have hcarve : ∃ rest, carve it new = new :: rest ∧ allocated rest = [] := by
    unfold carve
    split
    · exact ⟨[], rfl, rfl⟩
    · exact ⟨_, rfl, by simp [allocated, hfree]⟩
  obtain ⟨rest, hrest, hallocated⟩ := hcarve
  have hcut : l ++ (carve it new ++ r) = l ++ new :: (rest ++ r) := by rw [hrest, List.cons_append]
  refine ⟨l, rest ++ r, hcut, fun block hmem => by simp [hblocks, hmem], ?_, fun huntagged => ?_⟩
  · rw [hpart.allocated_released hcut, hblocks, allocated_append, allocated_append, hallocated,
      allocated_cons_of_free hfree]
    rfl
  · have hmem : it ∈ m.blocks := by simp [hblocks]
    have hplain : freeBlock it.start it.size = it := by
      obtain ⟨hpid, howner⟩ := h.freePlain it hmem hfree
      have htag := huntagged it hmem hfree
      cases it
      simp_all [freeBlock]
    have hmerged := mergeSorted_eq_of_isChain h.merged.not_mergeable
    rw [hblocks] at hmerged
    have hback : mergeSorted (l ++ freeBlock new.start new.size :: (rest ++ r)) = m.blocks :=
      (mergeSorted_carve_back hplain hstart hrest hmerged).trans hblocks.symm
    rw [hpart.released_eq hcut, hback]

theorem Partition.rollback (h : Partition m) (hnone : ∀ block ∈ m.blocks,
      isProcessBlock owner pid block = false)
    (halloc : m.allocateForProcess owner pid name sizeKB = .ok (m', start, message)) :
    ∃ m'' text, m'.freeByPid owner pid = .ok (m'', text) ∧ Partition m'' ∧
      allocated m''.blocks = allocated m.blocks ∧
      (FreeUntagged m.blocks → m'' = m) := by
  obtain ⟨-, hm⟩ := h.allocates halloc
  have hpart := h.of_allocates (by simp) hm
  obtain ⟨l, r, hcut, hold, hallocated, hundone⟩ := h.undone (by simp) hm
  -- the new block is the only one that the release can find
  obtain ⟨text, hfree⟩ := freeByPid_of_cut hcut (isProcessBlock_iff.mpr ⟨rfl, rfl, rfl⟩)
    fun block hmem => hnone block (hold block hmem)
  exact ⟨_, text, hfree, hpart.of_released hcut, hallocated, hundone⟩

theorem Partition.rollback_manual (h : Partition m)
    (halloc : m.allocateManual owner name sizeKB = .ok (m', start, message)) :
    ∃ m'' text, m'.freeByAddress owner start = .ok (m'', text) ∧
      (FreeUntagged m.blocks → m'' = m) := by
  obtain ⟨-, hm⟩ := h.allocates halloc
  have hfills := (h.of_allocates (by simp) hm).fills
  obtain ⟨l, r, hcut, -, -, hundone⟩ := h.undone (by simp) hm
  rw [hcut] at hfills
  have hbefore := (List.pairwise_append.mp hfills.pairwise_start).2.2
  obtain ⟨text, hfree⟩ := freeByAddress_of_cut hcut (fun block hmem hsame => by
    have hlt := hbefore block hmem _ List.mem_cons_self
    rw [hsame] at hlt
    exact Nat.lt_irrefl _ hlt) (by simp) (by simp)
  exact ⟨_, text, hfree, hundone⟩

/-- A release right after an allocation gives back the whole manager as it was, block for
block. -/
theorem Partition.free_undoes_allocate (h : Partition m) (huntagged : FreeUntagged m.blocks)
    (owner tag : Str) (sizeKB : UInt32) :
    (∀ m' start message, m.allocateManual owner tag sizeKB = .ok (m', start, message) →
      ∃ text, m'.freeByAddress owner start = .ok (m, text)) ∧
    ∀ pid, (∀ block ∈ m.blocks,
        ¬(block.type = .process ∧ block.owner = owner ∧ block.pid = pid)) →
      ∀ m' start message, m.allocateForProcess owner pid tag sizeKB = .ok (m', start, message) →
        ∃ text, m'.freeByPid owner pid = .ok (m, text) := by
  constructor
  · intro m' start message halloc
    obtain ⟨m'', text, hfree, hsame⟩ := h.rollback_manual halloc
    rw [hsame huntagged] at hfree
    exact ⟨text, hfree⟩
  · intro pid hnone m' start message halloc
    have hunheld : ∀ block ∈ m.blocks, isProcessBlock owner pid block = false := by
      intro block hmem
      have hblock := hnone block hmem
      rw [← isProcessBlock_iff] at hblock
      exact Bool.not_eq_true _ ▸ hblock
    obtain ⟨m'', text, hfree, -, -, hsame⟩ := h.rollback hunheld halloc
    rw [hsame huntagged] at hfree
    exact ⟨text, hfree⟩

def twoHoles : MemoryManager :=
  { totalMemoryKB := 64
    algorithm := .bestFit
    blocks := [freeBlock 0 16,
      { start := 16, size := 24, type := .process, pid := 1, owner := str "a", tag := str "p" },
      freeBlock 40 24] }

/-- A manual block that splits the first FREE block, and a process block that fills the second. -/
theorem free_undoes_allocate_twoHoles :
    (∃ m' start message, twoHoles.allocateManual (str "a") (str "x") 4 = .ok (m', start, message) ∧
      ∃ text, m'.freeByAddress (str "a") start = .ok (twoHoles, text)) ∧
    ∃ m' start message,
      twoHoles.allocateForProcess (str "a") 2 (str "x") 24 = .ok (m', start, message) ∧
      ∃ text, m'.freeByPid (str "a") 2 = .ok (twoHoles, text) := by
  have hpart : Partition twoHoles :=
    { total_pos := by decide
      fills := ⟨rfl, by decide, rfl, by decide, rfl, by decide, rfl⟩
      freePlain := by unfold FreePlain; decide
      merged := by unfold Merged; decide }
  have huntagged : FreeUntagged twoHoles.blocks := by unfold FreeUntagged; decide
  constructor
  · exact ⟨_, _, _, rfl,
      (hpart.free_undoes_allocate huntagged (str "a") (str "x") 4).1 _ _ _ rfl⟩
  · exact ⟨_, _, _, rfl,
      (hpart.free_undoes_allocate huntagged (str "a") (str "x") 24).2 2 (by decide) _ _ _ rfl⟩

/-! ## Footprints -/

/-- What a PROCESS block and a resident PCB have in common. -/
structure Footprint where
  owner : Str
  start : UInt32
  size : UInt32
  deriving DecidableEq, Repr

def footprint (pid : UInt32) (block : MemoryBlock) : Option Footprint :=
  if block.type = .process ∧ block.pid = pid then some ⟨block.owner, block.start, block.size⟩
  else none

def held (blocks : List MemoryBlock) (pid : UInt32) : List Footprint :=
  blocks.filterMap (footprint pid)

@[simp] theorem held_nil : held [] pid = [] := rfl

@[simp] theorem held_append (l r : List MemoryBlock) :
    held (l ++ r) pid = held l pid ++ held r pid := List.filterMap_append

theorem held_cons (block : MemoryBlock) (rest : List MemoryBlock) :
    held (block :: rest) pid = (footprint pid block).toList ++ held rest pid := by
  unfold held
  rw [List.filterMap_cons]
  cases footprint pid block <;> rfl

theorem held_middle (pid : UInt32) (l r : List MemoryBlock) (it : MemoryBlock) :
    (held (l ++ it :: r) pid).Perm ((footprint pid it).toList ++ held (l ++ r) pid) := by
  rw [held_append, held_cons, held_append]
  exact List.perm_append_comm_assoc _ _ _

theorem footprint_of_ne {block : MemoryBlock} (h : ¬(block.type = .process ∧ block.pid = pid)) :
    footprint pid block = none := if_neg h

theorem held_allocated (blocks : List MemoryBlock) :
    held (allocated blocks) pid = held blocks pid := by
  induction blocks with
  | nil => rfl
  | cons block rest ih =>
    by_cases hfree : block.type = .free
    · have hnone : footprint pid block = none := footprint_of_ne (by simp [hfree])
      rw [allocated_cons_of_free hfree, held_cons, hnone, ih]
      rfl
    · rw [allocated_cons_of_ne hfree, held_cons, held_cons, ih]

theorem held_congr (h : allocated m'.blocks = allocated m.blocks) :
    held m'.blocks pid = held m.blocks pid := by
  rw [← held_allocated, h, held_allocated]

theorem mem_held {blocks : List MemoryBlock} {mark : Footprint} :
    mark ∈ held blocks pid ↔ ∃ block ∈ blocks, block.type = .process ∧ block.pid = pid ∧
      mark = ⟨block.owner, block.start, block.size⟩ := by
  simp only [held, footprint, List.mem_filterMap]
  constructor
  · rintro ⟨block, hmem, hsome⟩
    split at hsome
    next h => exact ⟨block, hmem, h.1, h.2, (Option.some.inj hsome).symm⟩
    next => cases hsome
  · rintro ⟨block, hmem, htype, hpid, rfl⟩
    exact ⟨block, hmem, if_pos ⟨htype, hpid⟩⟩

theorem Allocates.held_eq {new : MemoryBlock} (hnew : new.type = .process) (h : Allocates new m m')
    (hnone : held m.blocks new.pid = []) (k : UInt32) :
    held m'.blocks k =
      if k = new.pid then [⟨new.owner, new.start, new.size⟩] else held m.blocks k := by
  obtain ⟨l, r, hold, hadd⟩ := h.allocated_eq (by simp [hnew])
  rw [← held_allocated m'.blocks, ← held_allocated m.blocks, hadd, hold]
  rw [← held_allocated, hold, held_append, List.append_eq_nil_iff] at hnone
  simp only [held_append, held_cons]
  split
  next hk =>
    subst hk
    simp [hnone.1, hnone.2, footprint, hnew]
  next hk =>
    have hmark : footprint k new = none := footprint_of_ne fun heq => hk heq.2.symm
    simp [hmark]

theorem Allocates.held_eq_of_ne {new : MemoryBlock} (hnew : new.type ≠ .free)
    (hprocess : new.type ≠ .process) (h : Allocates new m m') :
    held m'.blocks pid = held m.blocks pid := by
  obtain ⟨l, r, hold, hadd⟩ := h.allocated_eq hnew
  have hmark : footprint pid new = none := footprint_of_ne fun heq => hprocess heq.1
  rw [← held_allocated m'.blocks, ← held_allocated m.blocks, hadd, hold]
  simp [held_cons, hmark]

theorem Partition.held_of_released (h : Partition m) {l r : List MemoryBlock} {it : MemoryBlock}
    (hblocks : m.blocks = l ++ it :: r) (hprocess : it.type ≠ .process) :
    held (m.released l it r).blocks pid = held m.blocks pid := by
  have hmark : footprint pid it = none := footprint_of_ne fun heq => hprocess heq.1
  rw [← held_allocated, h.allocated_released hblocks, hblocks]
  simp [held_cons, held_allocated, hmark]

theorem Partition.held_of_releases (h : Partition m) (hone : (held m.blocks pid).length ≤ 1)
    (hm : Releases (fun block => isProcessBlock owner pid block) m m') (k : UInt32) :
    held m'.blocks k = if k = pid then [] else held m.blocks k := by
  obtain ⟨l, it, r, hold, hit, hdrop⟩ := h.allocated_releases hm
  obtain ⟨htype, -, hpid⟩ := isProcessBlock_iff.mp hit
  rw [← held_allocated m'.blocks, ← held_allocated m.blocks, hdrop, hold]
  rw [← held_allocated, hold] at hone
  simp only [held_append, held_cons] at hone ⊢
  split
  next hk =>
    subst hk
    simp only [footprint, htype, hpid, and_self, if_true, Option.toList_some, List.length_append,
      List.length_cons, List.length_nil] at hone
    have hl : held l k = [] := List.length_eq_zero_iff.mp (by omega)
    have hr : held r k = [] := List.length_eq_zero_iff.mp (by omega)
    rw [hl, hr]
    rfl
  next hk =>
    have hmark : footprint k it = none := footprint_of_ne fun heq => hk (heq.2.symm.trans hpid)
    simp [hmark]

/-! ## Compaction -/

theorem held_moved {old new : List MemoryBlock} (h : List.Forall₂ MovedFrom old new) :
    List.Forall₂ (fun a b : Footprint => b.owner = a.owner ∧ b.size = a.size)
      (held old pid) (held new pid) := by
  induction h with
  | nil => exact .nil
  | @cons x y xs ys hxy _ ih =>
    have hxy' : y = { x with start := y.start } := hxy
    rw [held_cons, held_cons]
    by_cases hx : x.type = .process ∧ x.pid = pid
    · have hy : y.type = .process ∧ y.pid = pid := by
        rw [hxy']
        exact hx
      rw [footprint, if_pos hx, footprint, if_pos hy]
      refine .cons ⟨?_, ?_⟩ ih
      · show y.owner = x.owner
        rw [hxy']
      · show y.size = x.size
        rw [hxy']
    · have hy : ¬(y.type = .process ∧ y.pid = pid) := by
        rw [hxy']
        exact hx
      rw [footprint_of_ne hx, footprint_of_ne hy]
      exact ih

/-- The map that `compact` returns holds the start of the last PROCESS block of each PID. -/
theorem pidNewStarts_getElem? (moved : List MemoryBlock) (k : UInt32) :
    (pidNewStarts moved)[k]? = (held moved k).getLast?.map Footprint.start := by
  unfold pidNewStarts
  induction moved using List.reverseRecOn with
  | nil => simp
  | append_singleton moved block ih =>
    rw [List.foldl_append, List.foldl_cons, List.foldl_nil, held_append, held_cons, held_nil,
      List.append_nil]
    by_cases htype : block.type = .process
    · rw [if_pos htype, KeyedTable.getElem?_insert]
      by_cases hpid : block.pid = k
      · simp [footprint, htype, hpid]
      · rw [if_neg hpid, footprint_of_ne fun h => hpid h.2, ih]
        simp
    · rw [if_neg htype, footprint_of_ne fun h => htype h.1, ih]
      simp

theorem Partition.held_compact (h : Partition m) (pid : UInt32) :
    List.Forall₂ (fun a b : Footprint => b.owner = a.owner ∧ b.size = a.size)
      (held m.blocks pid) (held m.compact.1.blocks pid) := by
  rw [← held_allocated m.blocks, ← held_allocated m.compact.1.blocks, h.allocated_compact]
  exact held_moved (relocate_forall₂ 0 _)

theorem Partition.mem_compact (h : Partition m) {block' : MemoryBlock}
    (hmem : block' ∈ allocated m.compact.1.blocks) :
    ∃ block ∈ allocated m.blocks, MovedFrom block block' := by
  rw [h.allocated_compact] at hmem
  have hmoved := relocate_forall₂ 0 (allocated m.blocks)
  obtain ⟨i, hi, rfl⟩ := List.getElem_of_mem hmem
  have hlen : i < (allocated m.blocks).length := by
    rw [hmoved.length_eq]
    exact hi
  exact ⟨_, List.getElem_mem hlen, (List.forall₂_iff_get.mp hmoved).2 i hlen hi⟩

theorem Partition.compact_starts (h : Partition m) (k : UInt32) :
    m.compact.2.pidNewStart[k]? =
      (held m.compact.1.blocks k).getLast?.map Footprint.start := by
  rw [← held_allocated, h.allocated_compact]
  exact pidNewStarts_getElem? _ k

/-! ## Untagged FREE blocks -/

theorem FreeUntagged.allocates {new : MemoryBlock} (hnew : new.type ≠ .free)
    (h : FreeUntagged m.blocks) (hm : Allocates new m m') : FreeUntagged m'.blocks := by
  obtain ⟨l, it, r, hblocks, hfree, -, -, -, rfl⟩ := hm
  intro block hmem hblock
  rcases List.mem_append.mp hmem with hmem | hmem
  · exact h block (by simp [hblocks, hmem]) hblock
  rcases List.mem_append.mp hmem with hmem | hmem
  · exact carve_free (P := fun _ _ tag => tag = []) hnew (h it (by simp [hblocks]) hfree) block
      hmem hblock
  · exact h block (by simp [hblocks, hmem]) hblock

theorem Partition.untagged_released (h : Partition m) (huntagged : FreeUntagged m.blocks)
    {l r : List MemoryBlock} {it : MemoryBlock} (hblocks : m.blocks = l ++ it :: r) :
    FreeUntagged (m.released l it r).blocks := by
  rw [h.released_eq hblocks]
  refine mergeSorted_free (P := fun _ _ tag => tag = []) fun block hmem hfree => ?_
  rcases List.mem_append.mp hmem with hmem | hmem
  · exact huntagged block (by simp [hblocks, hmem]) hfree
  rcases List.mem_cons.mp hmem with rfl | hmem
  · rfl
  · exact huntagged block (by simp [hblocks, hmem]) hfree

theorem Partition.untagged_releases (h : Partition m) (huntagged : FreeUntagged m.blocks)
    {p : MemoryBlock → Prop} (hm : Releases p m m') : FreeUntagged m'.blocks := by
  obtain ⟨l, it, r, hblocks, -, -, -, rfl⟩ := hm
  exact h.untagged_released huntagged hblocks

theorem Partition.untagged_compact (h : Partition m) : FreeUntagged m.compact.1.blocks := by
  rw [h.compact_eq]
  intro block hmem hfree
  rcases List.mem_append.mp hmem with hmem | hmem
  · exact absurd hfree (m.compacted_type block hmem)
  · obtain ⟨start, size, rfl⟩ := m.compactTail_eq block hmem
    rfl

end MemoryManager

end OSCoreSim
