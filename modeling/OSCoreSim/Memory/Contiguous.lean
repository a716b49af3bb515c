import OSCoreSim.Memory.InUse
import OSCoreSim.Memory.Packing
/-!
# Contiguous free memory

A table with at most one FREE block has no fragmentation: what can be allocated is limited by the
free memory alone.  A compaction makes the table such, an allocation keeps it so, and only a
release can cut a second hole.
-/

namespace OSCoreSim

namespace MemoryManager

def Contiguous (m : MemoryManager) : Prop :=
  (m.blocks.filter (·.type = .free)).length ≤ 1

instance (m : MemoryManager) : Decidable m.Contiguous := inferInstanceAs (Decidable (_ ≤ 1))

def HasRoom (m : MemoryManager) (sizeKB : UInt32) : Prop :=
  ∃ block ∈ m.blocks, block.type = .free ∧ sizeKB ≤ block.size

instance (m : MemoryManager) (sizeKB : UInt32) : Decidable (m.HasRoom sizeKB) :=
  inferInstanceAs (Decidable (∃ block ∈ m.blocks, _))

variable {m m' : MemoryManager} {sizeKB : UInt32}

/-! ## Room -/

theorem size_le_sizeSum {blocks : List MemoryBlock} {block : MemoryBlock} (h : block ∈ blocks) :
    block.size.toNat ≤ sizeSum blocks := by
  obtain ⟨l, r, rfl⟩ := List.append_of_mem h
  simp only [sizeSum, List.map_append, List.map_cons, List.sum_append, List.sum_cons]
  omega

theorem sizeSum_nil : sizeSum [] = 0 := rfl

theorem Partition.le_free_of_hasRoom (h : Partition m) (hroom : m.HasRoom sizeKB) :
    sizeKB ≤ m.freeMemoryKB := by
  obtain ⟨block, hmem, hfree, hle⟩ := hroom
  have hpart := size_le_sizeSum (List.mem_filter.mpr ⟨hmem, by simpa using hfree⟩ :
    block ∈ m.blocks.filter (·.type = .free))
  rw [UInt32.le_iff_toNat_le] at hle ⊢
  rw [h.toNat_free]
  omega

theorem Partition.hasRoom_iff (h : Partition m) (hone : m.Contiguous) (hsize : sizeKB ≠ 0) :
    m.HasRoom sizeKB ↔ sizeKB ≤ m.freeMemoryKB := by
  refine ⟨h.le_free_of_hasRoom, fun hle => ?_⟩
  have hpos := toNat_pos hsize
  rw [UInt32.le_iff_toNat_le, h.toNat_free] at hle
  obtain ⟨block, hblock⟩ : ∃ block, m.blocks.filter (·.type = .free) = [block] := by
    apply List.length_eq_one_iff.mp
    apply Nat.le_antisymm hone
    apply Nat.succ_le_of_lt
    apply List.length_pos_iff.mpr
    intro hnil
    rw [hnil, sizeSum_nil] at hle
    omega
  have hmem : block ∈ m.blocks.filter (·.type = .free) := by
    rw [hblock]
    exact List.mem_singleton_self block
  obtain ⟨hin, hfree⟩ := List.mem_filter.mp hmem
  refine ⟨block, hin, by simpa using hfree, ?_⟩
  rw [hblock, sizeSum_cons, sizeSum_nil] at hle
  rw [UInt32.le_iff_toNat_le]
  omega

/-! ## Operations -/

theorem Partition.contiguous_compact (h : Partition m) : m.compact.1.Contiguous := by
  have hnone : (allocated m.compact.1.blocks).filter (·.type = .free) = [] :=
    List.filter_eq_nil_iff.mpr fun block hmem => by
      simpa using (mem_allocated.mp hmem).2
  unfold Contiguous
  rw [h.blocks_compact, List.filter_append, hnone, List.nil_append]
  calc ((freeTail m.usedMemoryKB m.freeMemoryKB).filter (·.type = .free)).length
      ≤ (freeTail m.usedMemoryKB m.freeMemoryKB).length := List.length_filter_le _ _
    _ ≤ 1 := by
      unfold freeTail
      split
      · exact Nat.zero_le 1
      · exact Nat.le_refl 1

/-- The new block takes the low end of a hole, which at most shrinks. -/
theorem Allocates.contiguous {new : MemoryBlock} (hnew : new.type ≠ .free)
    (h : Allocates new m m') (hone : m.Contiguous) : m'.Contiguous := by
  obtain ⟨l, it, r, hblocks, hfree, -, -, -, rfl⟩ := h
  have hcarve : ((carve it new).filter (·.type = .free)).length ≤ 1 := by
    unfold carve
    split
    · simp [hnew]
    · simp [hnew, hfree]
  unfold Contiguous at hone ⊢
  rw [hblocks] at hone
  simp only [List.filter_append, List.filter_cons, hfree, decide_true, if_true, List.length_append,
    List.length_cons] at hone ⊢
  omega

theorem used_lt_of_dropped (h : Partition m) (h' : Partition m') {l r : List MemoryBlock}
    {it : MemoryBlock} (hold : allocated m.blocks = l ++ it :: r)
    (hnew : allocated m'.blocks = l ++ r) : m'.usedMemoryKB < m.usedMemoryKB := by
  have hmem : it ∈ allocated m.blocks := by simp [hold]
  have hpos := (h.fills.bounds (mem_allocated.mp hmem).1).2.1
  rw [UInt32.lt_iff_toNat_lt, h.toNat_used, h'.toNat_used, hold, hnew]
  simp only [sizeSum, List.map_append, List.map_cons, List.sum_append, List.sum_cons]
  omega

theorem Partition.used_lt_of_releases (h : Partition m) {p : MemoryBlock → Prop}
    (hm : Releases p m m') : m'.usedMemoryKB < m.usedMemoryKB := by
  obtain ⟨l, it, r, hold, -, hnew⟩ := h.allocated_releases hm
  exact used_lt_of_dropped h (h.of_releases hm) hold hnew

theorem Partition.used_lt_of_released (h : Partition m) {l r : List MemoryBlock}
    {it : MemoryBlock} (hblocks : m.blocks = l ++ it :: r) (hfree : it.type ≠ .free) :
    (m.released l it r).usedMemoryKB < m.usedMemoryKB := by
  have hold : allocated m.blocks = allocated l ++ it :: allocated r := by
    rw [hblocks, allocated_append, allocated_cons_of_ne hfree]
  exact used_lt_of_dropped h (h.of_released hblocks) hold (h.allocated_released hblocks)

end MemoryManager

end OSCoreSim
