import OSCoreSim.Lib.Runs
import OSCoreSim.Memory.BlockTable
import Mathlib.Tactic.Linarith
/-!
# The memory partition invariant

Every block table that the memory commands can produce cuts `[0, totalMemoryKB)` into
positive blocks without a gap, keeps FREE blocks anonymous and never leaves two FREE
blocks side by side.  `Partition` is the inductive form of this, `Sound` spells it out,
and `Exact` lists the `uint32` sums and differences of one operation.
-/

namespace OSCoreSim

open Tiling

namespace MemoryManager

def FreePlain (blocks : List MemoryBlock) : Prop :=
  ∀ block ∈ blocks, block.type = .free → block.pid = 0 ∧ block.owner = []

def Merged (blocks : List MemoryBlock) : Prop :=
  blocks.IsChain fun x y => ¬(x.type = .free ∧ y.type = .free)

structure Partition (m : MemoryManager) : Prop where
  total_pos : 0 < m.totalMemoryKB.toNat
  fills : Fills 0 m.blocks m.totalMemoryKB.toNat
  freePlain : FreePlain m.blocks
  merged : Merged m.blocks

/-! ## Merged tables -/

theorem Merged.not_mergeable {blocks : List MemoryBlock} (h : Merged blocks) :
    blocks.IsChain fun x y => ¬Mergeable x y :=
  List.IsChain.imp (fun _ _ hxy hm => hxy ⟨hm.1, hm.2.1⟩) h

/-- In a table without gaps two neighbours that are both FREE can be merged. -/
theorem merged_of_not_mergeable {a b : ℕ} {blocks : List MemoryBlock} (hfills : Fills a blocks b)
    (hb : b < 2 ^ 32) (h : blocks.IsChain fun x y => ¬Mergeable x y) : Merged blocks := by
  induction blocks generalizing a with
  | nil => exact .nil
  | cons x rest ih =>
    cases rest with
    | nil => exact .singleton x
    | cons y rest =>
      obtain ⟨hx, -, hrest⟩ := fills_cons.mp hfills
      obtain ⟨hnot, hchain⟩ := List.isChain_cons_cons.mp h
      refine .cons_cons (fun hfree => hnot ⟨hfree.1, hfree.2, ?_⟩) (ih hrest hchain)
      obtain ⟨hy, -, hend⟩ := fills_cons.mp hrest
      have hle := hend.le
      rw [← UInt32.toNat_inj, toNat_add_of_lt (by omega), hx, hy]

/-- Merging a gapless table makes it a partition again. -/
theorem partition_mergeSorted {m : MemoryManager} {blocks : List MemoryBlock}
    (hpos : 0 < m.totalMemoryKB.toNat) (hfills : Fills 0 blocks m.totalMemoryKB.toNat)
    (hplain : FreePlain blocks) : Partition { m with blocks := mergeSorted blocks } := by
  have hlt := m.totalMemoryKB.toNat_lt
  have hmerged := fills_mergeSorted hfills hlt
  exact ⟨hpos, hmerged, mergeSorted_free (P := fun pid owner _ => pid = 0 ∧ owner = []) hplain,
    merged_of_not_mergeable hmerged hlt (mergeSorted_isChain blocks)⟩

/-! ## Allocation -/

section carve

variable {it new : MemoryBlock}

theorem fills_carve (hstart : new.start = it.start) (hpos : 0 < new.size.toNat)
    (hle : new.size ≤ it.size) (hlt : it.start.toNat + it.size.toNat < 2 ^ 32) :
    Fills it.start.toNat (carve it new) (it.start.toNat + it.size.toNat) := by
  have hle' := UInt32.le_iff_toNat_le.mp hle
  unfold carve
  split
  next heq => exact fills_cons.mpr ⟨by rw [hstart], hpos, by simp [heq]⟩
  next hne =>
    have hne' : it.size.toNat ≠ new.size.toNat := fun h => hne (UInt32.toNat_inj.mp h)
    have hsize : (it.size - new.size).toNat = it.size.toNat - new.size.toNat :=
      UInt32.toNat_sub_of_le _ _ hle
    have hend : (it.start + new.size).toNat = it.start.toNat + new.size.toNat := by
      exact toNat_add_of_lt (by omega)
    refine fills_cons.mpr ⟨by rw [hstart], hpos, fills_cons.mpr ⟨hend, ?_, ?_⟩⟩
    · simp only [hsize]
      omega
    · simp only [hsize, tiles_nil]
      omega

theorem carve_free {P : UInt32 → Str → Str → Prop} (hnew : new.type ≠ .free)
    (hit : P it.pid it.owner it.tag) :
    ∀ block ∈ carve it new, block.type = .free → P block.pid block.owner block.tag := by
  unfold carve
  split <;> intro block hmem hfree <;> simp only [List.mem_cons, List.not_mem_nil, or_false] at hmem
  · exact absurd (hmem ▸ hfree) hnew
  · rcases hmem with rfl | rfl
    · exact absurd hfree hnew
    · exact hit

theorem allocated_carve (hnew : new.type ≠ .free) (hit : it.type = .free) :
    allocated (carve it new) = [new] := by
  unfold carve
  split <;> simp [allocated, hnew, hit]

theorem merged_carve {l r : List MemoryBlock} (hnew : new.type ≠ .free)
    (h : Merged (l ++ it :: r)) : Merged (l ++ (carve it new ++ r)) := by
  obtain ⟨hl, hr, -⟩ := List.isChain_append.mp h
  have htail : Merged r := hr.tail
  have hcarved : Merged (carve it new ++ r) := by
    unfold carve
    split
    · exact List.isChain_cons.mpr ⟨fun _ _ hfree => hnew hfree.1, htail⟩
    · refine List.isChain_cons.mpr ⟨fun _ _ hfree => hnew hfree.1, ?_⟩
      obtain ⟨hlink, -⟩ := List.isChain_cons.mp hr
      exact List.isChain_cons.mpr ⟨hlink, htail⟩
  refine List.isChain_append.mpr ⟨hl, hcarved, fun x _ y hy hfree => hnew ?_⟩
  have hhead : y = new := by
    unfold carve at hy
    split at hy <;> simpa using hy.symm
  exact hhead ▸ hfree.2

end carve

/-- What a successful allocation does to a partition: the new block is in use and stands at
the low end of a FREE block. -/
def Allocates (new : MemoryBlock) (m m' : MemoryManager) : Prop :=
  ∃ l it r, m.blocks = l ++ it :: r ∧ it.type = .free ∧ new.start = it.start ∧
    new.size ≤ it.size ∧ 0 < new.size.toNat ∧ m' = { m with blocks := l ++ (carve it new ++ r) }

theorem Partition.fills_carve {m : MemoryManager} (h : Partition m) {l r : List MemoryBlock}
    {it new : MemoryBlock} (hblocks : m.blocks = l ++ it :: r) (hstart : new.start = it.start)
    (hpos : 0 < new.size.toNat) (hle : new.size ≤ it.size) :
    Fills 0 (l ++ (carve it new ++ r)) m.totalMemoryKB.toNat := by
  have hfills := h.fills
  rw [hblocks] at hfills
  have hend := (hfills.bounds (x := it) (by simp)).2.2
  have hlt := m.totalMemoryKB.toNat_lt
  exact hfills.replace (MemoryManager.fills_carve hstart hpos hle (by omega))

theorem Partition.allocates {m m' : MemoryManager} (h : Partition m) {owner tag message : Str}
    {pid sizeKB start : UInt32} {type : MemoryBlockType}
    (hok : m.allocateLocked owner pid tag sizeKB type = .ok (m', start, message)) :
    owner ≠ [] ∧ Allocates
      { start := start, size := sizeKB, type := type, pid := pid, owner := owner, tag := tag }
      m m' := by
  obtain ⟨howner, hsize, l, it, r, hblocks, hfree, hle, rfl, rfl⟩ := allocateLocked_spec hok
  have hpos := toNat_pos hsize
  refine ⟨howner, l, it, r, hblocks, hfree, rfl, hle, hpos, ?_⟩
  congr 1
  exact sortBlocks_eq_of_fills (h.fills_carve hblocks rfl hpos hle)

theorem Partition.of_allocates {m m' : MemoryManager} {new : MemoryBlock} (h : Partition m)
    (hnew : new.type ≠ .free) (hm : Allocates new m m') : Partition m' := by
  obtain ⟨l, it, r, hblocks, hfree, hstart, hle, hpos, rfl⟩ := hm
  refine ⟨h.total_pos, h.fills_carve hblocks hstart hpos hle, ?_, ?_⟩
  · intro block hmem hblock
    have hit := h.freePlain it (by simp [hblocks]) hfree
    rcases List.mem_append.mp hmem with hmem | hmem
    · exact h.freePlain block (by simp [hblocks, hmem]) hblock
    rcases List.mem_append.mp hmem with hmem | hmem
    · exact carve_free (P := fun pid owner _ => pid = 0 ∧ owner = []) hnew hit block hmem hblock
    · exact h.freePlain block (by simp [hblocks, hmem]) hblock
  · have hmerged := h.merged
    rw [hblocks] at hmerged
    exact merged_carve hnew hmerged

/-! ## Release -/

theorem Partition.fills_freeBlock {m : MemoryManager} (h : Partition m) {it : MemoryBlock}
    (hmem : it ∈ m.blocks) :
    Fills it.start.toNat [freeBlock it.start it.size] (it.start.toNat + it.size.toNat) :=
  fills_cons.mpr ⟨rfl, (h.fills.bounds hmem).2.1, rfl⟩

theorem Partition.fills_free {m : MemoryManager} (h : Partition m) {l r : List MemoryBlock}
    {it : MemoryBlock} (hblocks : m.blocks = l ++ it :: r) :
    Fills 0 (l ++ freeBlock it.start it.size :: r) m.totalMemoryKB.toNat := by
  have hfills := h.fills
  have hmem : it ∈ m.blocks := by simp [hblocks]
  have hmid := h.fills_freeBlock hmem
  rw [hblocks] at hfills
  exact hfills.replace hmid

theorem Partition.released_eq {m : MemoryManager} (h : Partition m) {l r : List MemoryBlock}
    {it : MemoryBlock} (hblocks : m.blocks = l ++ it :: r) :
    m.released l it r =
      { m with blocks := mergeSorted (l ++ freeBlock it.start it.size :: r) } := by
  rw [released, mergeFreeBlocks_eq_of_fills (h.fills_free hblocks)]

theorem Partition.of_released {m : MemoryManager} (h : Partition m) {l r : List MemoryBlock}
    {it : MemoryBlock} (hblocks : m.blocks = l ++ it :: r) : Partition (m.released l it r) := by
  rw [h.released_eq hblocks]
  refine partition_mergeSorted h.total_pos (h.fills_free hblocks) fun block hmem hfree => ?_
  rcases List.mem_append.mp hmem with hmem | hmem
  · exact h.freePlain block (by simp [hblocks, hmem]) hfree
  rcases List.mem_cons.mp hmem with rfl | hmem
  · exact ⟨rfl, rfl⟩
  · exact h.freePlain block (by simp [hblocks, hmem]) hfree

theorem Partition.of_releases {m m' : MemoryManager} {p : MemoryBlock → Prop} (h : Partition m)
    (hm : Releases p m m') : Partition m' := by
  obtain ⟨l, it, r, hblocks, -, -, -, rfl⟩ := hm
  exact h.of_released hblocks

end MemoryManager

end OSCoreSim
