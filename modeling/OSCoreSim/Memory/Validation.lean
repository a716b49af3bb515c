import OSCoreSim.Memory.Compaction
/-!
# What `validateBlocks` accepts

The validation loop accepts exactly the gapless tables whose FREE blocks are anonymous.
Together with the merge inside `importBlocks` an accepted table is a partition.
-/

namespace OSCoreSim

open Tiling

namespace MemoryManager

theorem freePlain_cons {block : MemoryBlock} {rest : List MemoryBlock} :
    FreePlain (block :: rest) ↔
      (block.type = .free → block.pid = 0 ∧ block.owner = []) ∧ FreePlain rest := by
  simp [FreePlain]

theorem exceeds_iff {total start size : UInt32} :
    (total < size ∨ total - size < start) ↔ total.toNat < start.toNat + size.toNat := by
  by_cases hlt : total < size
  · have hlt' := UInt32.lt_iff_toNat_lt.mp hlt
    simp only [hlt, true_or, true_iff]
    omega
  · have hle := UInt32.not_lt.mp hlt
    have hle' := UInt32.le_iff_toNat_le.mp hle
    have hsub := UInt32.toNat_sub_of_le total size hle
    simp only [hlt, false_or, UInt32.lt_iff_toNat_lt, hsub]
    omega

theorem validateLoop_ok {total expectedStart last : UInt32} {blocks : List MemoryBlock} :
    validateLoop total expectedStart blocks = .ok last ↔
      Fills expectedStart.toNat blocks last.toNat ∧ FreePlain blocks ∧
        (∀ block ∈ blocks, block.start.toNat + block.size.toNat ≤ total.toNat) := by
  induction blocks generalizing expectedStart with
  | nil =>
    rw [validateLoop]
    simp [FreePlain, UInt32.toNat_inj]
  | cons block rest ih =>
    rw [validateLoop, fills_cons, freePlain_cons, List.forall_mem_cons]
    by_cases hzero : block.size = 0
    · simp [hzero]
    have hpos := toNat_pos hzero
    by_cases hstart : block.start = expectedStart
    swap
    · have hne : block.start.toNat ≠ expectedStart.toNat := fun h => hstart (UInt32.toNat_inj.mp h)
      simp [hzero, hstart, hne]
    by_cases hrange : total < block.size ∨ total - block.size < block.start
    · have hover := exceeds_iff.mp hrange
      have hnle : ¬block.start.toNat + block.size.toNat ≤ total.toNat := by omega
      simp only [if_neg hzero, hstart, ne_eq, not_true_eq_false, if_false]
      rw [← hstart, if_pos hrange]
      simp [hnle]
    have hle : block.start.toNat + block.size.toNat ≤ total.toNat := by
      rw [exceeds_iff] at hrange
      omega
    have hnext : (block.start + block.size).toNat = expectedStart.toNat + block.size.toNat := by
      have hlt := total.toNat_lt
      rw [toNat_add_of_lt (by omega), hstart]
    by_cases hplain : block.type = .free ∧ (block.pid ≠ 0 ∨ block.owner ≠ [])
    · have hnot : ¬(block.type = .free → block.pid = 0 ∧ block.owner = []) := by
        intro himp
        obtain ⟨hpid, howner⟩ := himp hplain.1
        rcases hplain.2 with h | h
        · exact h hpid
        · exact h howner
      rw [if_neg hzero, if_neg (not_not.mpr hstart), if_neg hrange, if_pos hplain]
      simp only [reduceCtorEq, false_iff]
      exact fun h => hnot h.2.1.1
    · have hfree : block.type = .free → block.pid = 0 ∧ block.owner = [] := by
        intro hfree
        by_contra hcontra
        exact hplain ⟨hfree, not_and_or.mp hcontra⟩
      rw [if_neg hzero, if_neg (not_not.mpr hstart), if_neg hrange, if_neg hplain, ih, hnext]
      constructor
      · rintro ⟨hfills, hrest, hends⟩
        exact ⟨⟨congrArg _ hstart, hpos, hfills⟩, ⟨hfree, hrest⟩, hle, hends⟩
      · rintro ⟨⟨-, -, hfills⟩, ⟨-, hrest⟩, -, hends⟩
        exact ⟨hfills, hrest, hends⟩

theorem validateBlocks_ok {m : MemoryManager} :
    (∃ message, m.validateBlocks = .ok message) ↔
      0 < m.totalMemoryKB.toNat ∧ Fills 0 m.blocks m.totalMemoryKB.toNat ∧
        FreePlain m.blocks := by
  unfold validateBlocks
  by_cases htotal : m.totalMemoryKB = 0
  · simp [htotal]
  have hpos := toNat_pos htotal
  rw [if_neg htotal]
  by_cases hnil : m.blocks = []
  · rw [if_pos hnil, hnil]
    simp only [reduceCtorEq, exists_false, tiles_nil, false_iff]
    omega
  rw [if_neg hnil]
  constructor
  · rintro ⟨message, h⟩
    cases hloop : validateLoop m.totalMemoryKB 0 m.blocks with
    | error e =>
      rw [hloop] at h
      cases h
    | ok last =>
      simp only [hloop] at h
      split at h
      · cases h
      next hlast =>
        obtain ⟨hfills, hplain, -⟩ := validateLoop_ok.mp hloop
        rw [not_not.mp hlast] at hfills
        exact ⟨hpos, hfills, hplain⟩
  · rintro ⟨-, hfills, hplain⟩
    have hloop : validateLoop m.totalMemoryKB 0 m.blocks = .ok m.totalMemoryKB :=
      validateLoop_ok.mpr ⟨hfills, hplain, fun block hmem => (hfills.bounds hmem).2.2⟩
    exact ⟨_, by rw [hloop]; exact if_neg (not_not.mpr rfl)⟩

theorem Partition.validateBlocks {m : MemoryManager} (h : Partition m) :
    ∃ message, m.validateBlocks = .ok message :=
  validateBlocks_ok.mpr ⟨h.total_pos, h.fills, h.freePlain⟩

/-- The accepted tables, said without the loop. -/
structure ExactTable (total : ℕ) (blocks : List MemoryBlock) : Prop where
  total_pos : 0 < total
  nonempty : blocks ≠ []
  starts : ∀ before block after, blocks = before ++ block :: after →
    block.start.toNat = sizeSum before
  positive : ∀ block ∈ blocks, 0 < block.size.toNat
  covers : sizeSum blocks = total
  freePlain : FreePlain blocks

theorem exactTable_iff {total : ℕ} {blocks : List MemoryBlock} : ExactTable total blocks ↔
    0 < total ∧ Fills 0 blocks total ∧ FreePlain blocks := by
  constructor
  · intro h
    refine ⟨h.total_pos, tiles_iff.mpr ⟨fun before block after hblocks => ?_, h.positive, ?_⟩,
      h.freePlain⟩
    · rw [h.starts before block after hblocks, Nat.zero_add]
      rfl
    · rw [Nat.zero_add]
      exact h.covers
  · rintro ⟨hpos, hfills, hplain⟩
    obtain ⟨hstarts, hpositive, hsum⟩ := tiles_iff.mp hfills
    rw [Nat.zero_add] at hsum
    refine ⟨hpos, ?_, fun before block after hblocks => ?_, hpositive, hsum, hplain⟩
    · rintro rfl
      exact Nat.ne_of_lt hpos hfills
    · have hstart := hstarts before block after hblocks
      rw [Nat.zero_add] at hstart
      exact hstart

/-- The loop computes every difference and every end as in unbounded arithmetic, on the paths
that refuse the table as well. -/
def ValidateExact (totalMemoryKB : UInt32) : UInt32 → List MemoryBlock → Prop
  | _, [] => True
  | expectedStart, block :: rest =>
    block.size ≠ 0 → block.start = expectedStart → ¬totalMemoryKB < block.size →
      (totalMemoryKB - block.size).toNat + block.size.toNat = totalMemoryKB.toNat ∧
      (¬totalMemoryKB - block.size < block.start →
        ¬(block.type = .free ∧ (block.pid ≠ 0 ∨ block.owner ≠ [])) →
          (block.start + block.size).toNat = block.start.toNat + block.size.toNat ∧
            ValidateExact totalMemoryKB (block.start + block.size) rest)

theorem validateExact (total expectedStart : UInt32) (blocks : List MemoryBlock) :
    ValidateExact total expectedStart blocks := by
  induction blocks generalizing expectedStart with
  | nil => trivial
  | cons block rest ih =>
    intro _ _ hsize
    have hle := UInt32.not_lt.mp hsize
    have hle' := UInt32.le_iff_toNat_le.mp hle
    have hsub := UInt32.toNat_sub_of_le total block.size hle
    refine ⟨by omega, fun hstart _ => ⟨?_, ih _⟩⟩
    have hrange := not_or.mpr ⟨hsize, hstart⟩
    rw [exceeds_iff] at hrange
    have hlt := total.toNat_lt
    exact toNat_add_of_lt (by omega)

/-- For every total and every list of blocks `validateBlocks` decides the question of unbounded
arithmetic, and nothing that it computes on the way wraps. -/
theorem validateBlocks_exact (m : MemoryManager) :
    ((∃ message, m.validateBlocks = .ok message) ↔
      ExactTable m.totalMemoryKB.toNat m.blocks) ∧
    ValidateExact m.totalMemoryKB 0 m.blocks :=
  ⟨validateBlocks_ok.trans exactTable_iff.symm, validateExact _ _ _⟩

/-- An accepted table that went through the merge is a partition. -/
theorem partition_of_validateBlocks {m : MemoryManager}
    (hok : ∃ message, m.validateBlocks = .ok message)
    (hchain : m.blocks.IsChain fun x y => ¬Mergeable x y) : Partition m := by
  obtain ⟨hpos, hfills, hplain⟩ := validateBlocks_ok.mp hok
  exact ⟨hpos, hfills, hplain, merged_of_not_mergeable hfills m.totalMemoryKB.toNat_lt hchain⟩

theorem Partition.importBlocks {m : MemoryManager} (h : Partition m) (algorithm : AllocAlgorithm)
    (blocks : List MemoryBlock) :
    ({ totalMemoryKB := m.totalMemoryKB, algorithm := algorithm, blocks := blocks } :
      MemoryManager).importBlocks m.blocks =
      { totalMemoryKB := m.totalMemoryKB, algorithm := algorithm, blocks := m.blocks } := by
  unfold MemoryManager.importBlocks
  rw [sortBlocks_eq_of_fills h.fills, mergeFreeBlocks_eq_of_fills h.fills,
    mergeSorted_eq_of_isChain h.merged.not_mergeable]

end MemoryManager

end OSCoreSim
