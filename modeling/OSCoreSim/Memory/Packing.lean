import OSCoreSim.Memory.Placement
/-!
# Packed tables

After a compaction the blocks in use fill the low addresses and one FREE block, if any memory is
free at all, holds the rest.  Such a table is a fixed point of `compact`, and how much of it can
be allocated does not depend on the policy.
-/

namespace OSCoreSim

open Tiling

namespace MemoryManager

/-- Blocks that have no gap between them stay where they are. -/
theorem relocate_of_fills {cursor : UInt32} {blocks : List MemoryBlock} {b : ℕ}
    (h : Fills cursor.toNat blocks b) (hb : b < 2 ^ 32) :
    relocate cursor blocks = (blocks, UInt32.ofNat b) := by
  induction blocks generalizing cursor with
  | nil =>
    have hend : cursor.toNat = b := h
    rw [relocate, ← hend, UInt32.ofNat_toNat]
  | cons block rest ih =>
    obtain ⟨hstart, -, hrest⟩ := fills_cons.mp h
    have hle := hrest.le
    have hnext : (cursor + block.size).toNat = cursor.toNat + block.size.toNat := by
      exact toNat_add_of_lt (by omega)
    rw [← hnext] at hrest
    have hsame : block = { block with start := cursor } := by
      rw [← UInt32.toNat_inj.mp hstart]
    rw [relocate, ih hrest, ← hsame]

def freeTail (used free : UInt32) : List MemoryBlock :=
  if free = 0 then [] else [freeBlock used free]

section Packed

variable {m : MemoryManager}

theorem Partition.relocate_end (h : Partition m) :
    (relocate 0 (allocated m.blocks)).2 = m.usedMemoryKB := by
  have hsplit := sizeSum_allocated_add m.blocks
  have hlt := m.totalMemoryKB.toNat_lt
  have hzero : (0 : UInt32).toNat = 0 := rfl
  rw [h.sizeSum] at hsplit
  have hpos : ∀ block ∈ allocated m.blocks, 0 < block.size.toNat := fun block hmem =>
    (h.fills.bounds (mem_allocated.mp hmem).1).2.1
  obtain ⟨-, hend⟩ := MemoryManager.relocate_fills 0 hpos (by omega)
  apply UInt32.toNat_inj.mp
  rw [hend, h.toNat_used, hzero, Nat.zero_add]

theorem Partition.compactTail_eq (h : Partition m) :
    m.compactTail = freeTail m.usedMemoryKB m.freeMemoryKB := by
  have hadd := h.used_add_free
  have hfree : m.totalMemoryKB - m.usedMemoryKB = m.freeMemoryKB := by
    apply UInt32.toNat_inj.mp
    rw [UInt32.toNat_sub_of_le _ _ (UInt32.le_iff_toNat_le.mpr (by omega))]
    omega
  have hiff : m.usedMemoryKB < m.totalMemoryKB ↔ m.freeMemoryKB ≠ 0 := by
    rw [UInt32.lt_iff_toNat_lt, ne_eq, ← UInt32.toNat_inj, UInt32.toNat_zero]
    omega
  unfold compactTail freeTail
  rw [h.relocate_end, hfree]
  by_cases hzero : m.freeMemoryKB = 0
  · rw [if_neg fun hlt => hiff.mp hlt hzero, if_pos hzero]
  · rw [if_pos (hiff.mpr hzero), if_neg hzero]

theorem Partition.packed_compact (h : Partition m) :
    Fills 0 (allocated m.compact.1.blocks) m.usedMemoryKB.toNat := by
  rw [h.allocated_compact, ← h.relocate_end]
  exact h.relocate_fills.1

theorem Partition.blocks_compact (h : Partition m) : m.compact.1.blocks =
    allocated m.compact.1.blocks ++ freeTail m.usedMemoryKB m.freeMemoryKB := by
  rw [h.allocated_compact, h.compact_eq, h.compactTail_eq]

theorem Partition.counters_compact (h : Partition m) :
    m.compact.1.usedMemoryKB = m.usedMemoryKB ∧ m.compact.1.freeMemoryKB = m.freeMemoryKB := by
  have hused : m.compact.1.usedMemoryKB = m.usedMemoryKB := by
    apply UInt32.toNat_inj.mp
    have hsum := h.packed_compact.sum
    rw [Nat.zero_add] at hsum
    rw [h.of_compact.toNat_used, ← hsum]
    rfl
  refine ⟨hused, ?_⟩
  have hbefore := h.used_add_free
  have hafter := h.of_compact.used_add_free
  have htotal : m.compact.1.totalMemoryKB = m.totalMemoryKB := by rw [h.compact_eq]
  rw [hused, htotal] at hafter
  exact UInt32.toNat_inj.mp (by omega)

theorem Partition.compact_compact (h : Partition m) : m.compact.1.compact.1 = m.compact.1 := by
  have hpacked := h.packed_compact
  obtain ⟨hused, hfree⟩ := h.counters_compact
  have hmoved : m.compact.1.compacted = allocated m.compact.1.blocks := by
    exact congrArg Prod.fst (@relocate_of_fills 0 _ _ hpacked m.usedMemoryKB.toNat_lt)
  rw [h.of_compact.compact_eq, hmoved, h.of_compact.compactTail_eq, hused, hfree,
    ← h.blocks_compact]

theorem Partition.free_compact (h : Partition m) {block : MemoryBlock}
    (hmem : block ∈ m.compact.1.blocks) (hfree : block.type = .free) :
    m.freeMemoryKB ≠ 0 ∧ block = freeBlock m.usedMemoryKB m.freeMemoryKB := by
  rw [h.blocks_compact] at hmem
  rcases List.mem_append.mp hmem with hmem | hmem
  · exact absurd hfree (mem_allocated.mp hmem).2
  · unfold freeTail at hmem
    split at hmem
    · cases hmem
    next hne => exact ⟨hne, List.mem_singleton.mp hmem⟩

/-- Right after a compaction all the free memory can be allocated, and no more. -/
theorem Partition.allocates_compact (h : Partition m) {owner tag : Str} {pid sizeKB : UInt32}
    {type : MemoryBlockType} (howner : owner ≠ []) (algorithm : AllocAlgorithm) :
    (∃ out, { m.compact.1 with algorithm := algorithm }.allocateLocked owner pid tag sizeKB type =
        .ok out) ↔
      0 < sizeKB ∧ sizeKB ≤ m.freeMemoryKB := by
  have hpart : Partition { m.compact.1 with algorithm := algorithm } :=
    ⟨h.of_compact.total_pos, h.of_compact.fills, h.of_compact.freePlain, h.of_compact.merged⟩
  by_cases hzero : sizeKB = 0
  · simp [allocateLocked, howner, hzero]
  have hpos : 0 < sizeKB := UInt32.lt_iff_toNat_lt.mpr (toNat_pos hzero)
  have hserved := (hpart.placement pid tag type howner hpos).1
  constructor
  · rintro ⟨⟨m', start, message⟩, hok⟩
    obtain ⟨block, hmem, hfree, hle⟩ := hserved.mp ⟨m', start, message, hok⟩
    obtain ⟨-, rfl⟩ := h.free_compact hmem hfree
    exact ⟨hpos, hle⟩
  · rintro ⟨-, hle⟩
    have hne : m.freeMemoryKB ≠ 0 := fun h0 => by
      rw [h0, UInt32.le_iff_toNat_le, UInt32.toNat_zero] at hle
      exact hzero (UInt32.toNat_inj.mp (Nat.le_zero.mp hle))
    have hmem : freeBlock m.usedMemoryKB m.freeMemoryKB ∈ m.compact.1.blocks := by
      rw [h.blocks_compact, freeTail, if_neg hne]
      simp
    obtain ⟨m', start, message, hok⟩ := hserved.mpr ⟨_, hmem, rfl, hle⟩
    exact ⟨_, hok⟩

end Packed

end MemoryManager

end OSCoreSim
