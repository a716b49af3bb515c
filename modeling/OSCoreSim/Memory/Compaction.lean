import OSCoreSim.Memory.Partition
import Mathlib.Data.List.Forall2
/-!
# Compaction and the size counters

`compact` moves the blocks in use to the low end of the memory in their order and
leaves at most one FREE block behind them.  The sizes of the used and of the free blocks
add up to the total without overflow.
-/

namespace OSCoreSim

open Tiling

namespace MemoryManager

/-! ## Sums of sizes -/

def sizeSum (blocks : List MemoryBlock) : ℕ :=
  (blocks.map fun block => block.size.toNat).sum

theorem sizeSum_cons (block : MemoryBlock) (rest : List MemoryBlock) :
    sizeSum (block :: rest) = block.size.toNat + sizeSum rest := by
  simp [sizeSum]

theorem Partition.sizeSum {m : MemoryManager} (h : Partition m) :
    sizeSum m.blocks = m.totalMemoryKB.toNat := by
  have hsum := h.fills.sum
  simpa [MemoryManager.sizeSum] using hsum

theorem sizeSum_allocated_add (blocks : List MemoryBlock) :
    sizeSum (allocated blocks) + sizeSum (blocks.filter (·.type = .free)) = sizeSum blocks := by
  induction blocks with
  | nil => rfl
  | cons block rest ih =>
    rw [sizeSum_cons, ← ih]
    by_cases hfree : block.type = .free
    · rw [allocated_cons_of_free hfree, List.filter_cons_of_pos (by simpa using hfree),
        sizeSum_cons]
      omega
    · rw [allocated_cons_of_ne hfree, List.filter_cons_of_neg (by simpa using hfree),
        sizeSum_cons]
      omega

/-- A `uint32` sum of sizes is exact when the sizes fit. -/
theorem toNat_sum_sizes {blocks : List MemoryBlock} (h : sizeSum blocks < 2 ^ 32) :
    (blocks.map MemoryBlock.size).sum.toNat = sizeSum blocks := by
  induction blocks with
  | nil => rfl
  | cons block rest ih =>
    rw [sizeSum_cons] at h ⊢
    rw [List.map_cons, List.sum_cons, UInt32.toNat_add, ih (by omega), Nat.mod_eq_of_lt h]

theorem Partition.toNat_used {m : MemoryManager} (h : Partition m) :
    m.usedMemoryKB.toNat = MemoryManager.sizeSum (allocated m.blocks) := by
  have hsplit := sizeSum_allocated_add m.blocks
  have hlt := m.totalMemoryKB.toNat_lt
  rw [h.sizeSum] at hsplit
  have hfits : MemoryManager.sizeSum (allocated m.blocks) < 2 ^ 32 := by omega
  exact toNat_sum_sizes hfits

theorem Partition.toNat_free {m : MemoryManager} (h : Partition m) :
    m.freeMemoryKB.toNat = MemoryManager.sizeSum (m.blocks.filter (·.type = .free)) := by
  have hsplit := sizeSum_allocated_add m.blocks
  have hlt := m.totalMemoryKB.toNat_lt
  rw [h.sizeSum] at hsplit
  have hfits : MemoryManager.sizeSum (m.blocks.filter (·.type = .free)) < 2 ^ 32 := by omega
  exact toNat_sum_sizes hfits

theorem Partition.used_add_free {m : MemoryManager} (h : Partition m) :
    m.usedMemoryKB.toNat + m.freeMemoryKB.toNat = m.totalMemoryKB.toNat := by
  rw [h.toNat_used, h.toNat_free, sizeSum_allocated_add, h.sizeSum]

/-! ## Relocation -/

def MovedFrom (old new : MemoryBlock) : Prop := new = { old with start := new.start }

theorem relocate_forall₂ (cursor : UInt32) (blocks : List MemoryBlock) :
    List.Forall₂ MovedFrom blocks (relocate cursor blocks).1 := by
  induction blocks generalizing cursor with
  | nil => exact .nil
  | cons block rest ih => exact .cons rfl (ih _)

theorem relocate_type {cursor : UInt32} {blocks : List MemoryBlock}
    (h : ∀ block ∈ blocks, block.type ≠ .free) :
    ∀ block ∈ (relocate cursor blocks).1, block.type ≠ .free := by
  induction blocks generalizing cursor with
  | nil => exact h
  | cons block rest ih =>
    intro x hx
    rcases List.mem_cons.mp hx with rfl | hx
    · exact h block List.mem_cons_self
    · exact ih (fun y hy => h y (List.mem_cons_of_mem block hy)) x hx

theorem relocate_fills (cursor : UInt32) {blocks : List MemoryBlock}
    (hpos : ∀ block ∈ blocks, 0 < block.size.toNat)
    (hlt : cursor.toNat + sizeSum blocks < 2 ^ 32) :
    Fills cursor.toNat (relocate cursor blocks).1 (relocate cursor blocks).2.toNat ∧
      (relocate cursor blocks).2.toNat = cursor.toNat + sizeSum blocks := by
  induction blocks generalizing cursor with
  | nil => exact ⟨rfl, rfl⟩
  | cons block rest ih =>
    rw [sizeSum_cons] at hlt ⊢
    have hnext : (cursor + block.size).toNat = cursor.toNat + block.size.toNat := by
      exact toNat_add_of_lt (by omega)
    have hrest := ih (cursor + block.size)
      (fun y hy => hpos y (List.mem_cons_of_mem block hy)) (by omega)
    rw [hnext] at hrest
    refine ⟨fills_cons.mpr ⟨rfl, hpos block List.mem_cons_self, hrest.1⟩, ?_⟩
    rw [← Nat.add_assoc]
    exact hrest.2

/-! ## The compacted table -/

def compacted (m : MemoryManager) : List MemoryBlock := (relocate 0 (allocated m.blocks)).1

/-- The FREE block that a compaction leaves behind the blocks in use. -/
def compactTail (m : MemoryManager) : List MemoryBlock :=
  if (relocate 0 (allocated m.blocks)).2 < m.totalMemoryKB then
    [freeBlock (relocate 0 (allocated m.blocks)).2
      (m.totalMemoryKB - (relocate 0 (allocated m.blocks)).2)]
  else []

theorem compacted_type (m : MemoryManager) : ∀ block ∈ m.compacted, block.type ≠ .free :=
  relocate_type fun _ hmem => (mem_allocated.mp hmem).2

theorem compactTail_eq (m : MemoryManager) :
    ∀ block ∈ m.compactTail, ∃ start size, block = freeBlock start size := by
  intro block hmem
  unfold compactTail at hmem
  split at hmem <;> simp only [List.mem_cons, List.not_mem_nil, or_false] at hmem
  exact ⟨_, _, hmem⟩

theorem Partition.relocate_fills {m : MemoryManager} (h : Partition m) :
    Fills 0 m.compacted (relocate 0 (allocated m.blocks)).2.toNat ∧
      (relocate 0 (allocated m.blocks)).2.toNat ≤ m.totalMemoryKB.toNat := by
  have hsplit := sizeSum_allocated_add m.blocks
  have hlt := m.totalMemoryKB.toNat_lt
  rw [h.sizeSum] at hsplit
  have hpos : ∀ block ∈ allocated m.blocks, 0 < block.size.toNat := fun block hmem =>
    (h.fills.bounds (mem_allocated.mp hmem).1).2.1
  have hzero : (0 : UInt32).toNat = 0 := rfl
  obtain ⟨hfills, hend⟩ := MemoryManager.relocate_fills 0 hpos (by omega)
  exact ⟨hfills, by omega⟩

theorem Partition.fills_compact {m : MemoryManager} (h : Partition m) :
    Fills 0 (m.compacted ++ m.compactTail) m.totalMemoryKB.toNat := by
  obtain ⟨hfills, hle⟩ := h.relocate_fills
  refine tiles_append.mpr ⟨_, hfills, ?_⟩
  unfold compactTail
  split
  next hlt =>
    have hlt' := UInt32.lt_iff_toNat_lt.mp hlt
    have hsize := UInt32.toNat_sub_of_le m.totalMemoryKB (relocate 0 (allocated m.blocks)).2
      (UInt32.le_iff_toNat_le.mpr hle)
    refine fills_cons.mpr ⟨rfl, ?_, ?_⟩
    · simp only [freeBlock, hsize]
      omega
    · simp only [freeBlock, hsize, tiles_nil]
      omega
  next hge =>
    have hge' := UInt32.le_iff_toNat_le.mp (UInt32.not_lt.mp hge)
    exact Nat.le_antisymm hle hge'

theorem Partition.compact_eq {m : MemoryManager} (h : Partition m) :
    m.compact.1 = { m with blocks := m.compacted ++ m.compactTail } := by
  have hne : m.compacted ++ m.compactTail ≠ [] := by
    intro hnil
    have hfills := h.fills_compact
    rw [hnil] at hfills
    exact absurd hfills (Nat.ne_of_lt h.total_pos)
  have hpacked : (if (relocate 0 (allocated m.blocks)).2 < m.totalMemoryKB then
      m.compacted ++ [freeBlock (relocate 0 (allocated m.blocks)).2
        (m.totalMemoryKB - (relocate 0 (allocated m.blocks)).2)]
      else m.compacted) = m.compacted ++ m.compactTail := by
    unfold compactTail
    split <;> simp
  rw [← hpacked] at hne ⊢
  exact congrArg (fun blocks => { m with blocks := blocks }) (if_neg hne)

theorem Partition.of_compact {m : MemoryManager} (h : Partition m) : Partition m.compact.1 := by
  rw [h.compact_eq]
  refine ⟨h.total_pos, h.fills_compact, fun block hmem hfree => ?_, ?_⟩
  · rcases List.mem_append.mp hmem with hmem | hmem
    · exact absurd hfree (m.compacted_type block hmem)
    · obtain ⟨start, size, rfl⟩ := m.compactTail_eq block hmem
      exact ⟨rfl, rfl⟩
  · have htail : Merged m.compactTail := by
      unfold compactTail Merged
      split <;> simp
    have hmoved : Merged m.compacted := by
      refine List.Pairwise.isChain (List.Pairwise.imp_of_mem (fun hx _ _ hfree =>
        m.compacted_type _ hx hfree.1) (List.pairwise_of_forall (R := fun _ _ => True)
        fun _ _ => trivial))
    refine List.isChain_append.mpr ⟨hmoved, htail, fun x hx y _ hfree => ?_⟩
    exact m.compacted_type x (List.mem_of_getLast? hx) hfree.1

theorem Partition.allocated_compact {m : MemoryManager} (h : Partition m) :
    allocated m.compact.1.blocks = m.compacted := by
  rw [h.compact_eq]
  have htail : allocated m.compactTail = [] := by
    unfold compactTail
    split <;> rfl
  rw [allocated_append, htail, List.append_nil]
  exact List.filter_eq_self.mpr fun block hmem => by simpa using m.compacted_type block hmem

end MemoryManager

end OSCoreSim
