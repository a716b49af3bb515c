import OSCoreSim.Memory.MemoryRun
/-!
# Placement

Which FREE block an allocation takes, said without the search: the lowest start of any block
that is large enough, of the smallest such blocks, or of the largest blocks.  The table of a run
is sorted by start, so the first best block of the search is the one with the lowest start.
-/

namespace OSCoreSim

open Tiling
open Selection (FirstBest)

namespace MemoryManager

def freeSizes (blocks : List MemoryBlock) : Set ℕ :=
  {size | ∃ block ∈ blocks, block.type = .free ∧ block.size.toNat = size}

/-- The starts of the FREE blocks of the sizes in `sizes`. -/
def freeStarts (blocks : List MemoryBlock) (sizes : Set ℕ) : Set ℕ :=
  {start | ∃ block ∈ blocks, (block.type = .free ∧ block.size.toNat ∈ sizes) ∧
    block.start.toNat = start}

/-- The start that the policy prescribes for `n` KB. -/
def Prescribed (blocks : List MemoryBlock) (n : ℕ) : AllocAlgorithm → ℕ → Prop
  | .firstFit, start => IsLeast (freeStarts blocks {size | n ≤ size}) start
  | .bestFit, start => ∃ size, IsLeast {size ∈ freeSizes blocks | n ≤ size} size ∧
      IsLeast (freeStarts blocks {size}) start
  | .worstFit, start => ∃ size, IsGreatest (freeSizes blocks) size ∧
      IsLeast (freeStarts blocks {size}) start

section FirstBest

variable {a b : ℕ} {l r : List MemoryBlock} {it : MemoryBlock} {algorithm : AllocAlgorithm}
  {sizeKB : UInt32}

theorem fits_iff {block : MemoryBlock} :
    Fits sizeKB block ↔ block.type = .free ∧ sizeKB.toNat ≤ block.size.toNat := by
  rw [Fits, UInt32.le_iff_toNat_le]

theorem isLeast_freeStarts (hfills : Fills a (l ++ it :: r) b)
    (h : FirstBest (Fits sizeKB) (policyRank algorithm) l it r) {sizes : Set ℕ}
    (hsizes : ∀ block, Fits sizeKB block ∧ policyRank algorithm block = policyRank algorithm it ↔
      block.type = .free ∧ block.size.toNat ∈ sizes) :
    IsLeast (freeStarts (l ++ it :: r) sizes) it.start.toNat := by
  have hstart := h.isLeast_position hfills.pairwise_start
  simp only [hsizes] at hstart
  exact hstart

theorem fits_rank_iff (hit : Fits sizeKB it)
    (hrank : ∀ block, policyRank algorithm block = policyRank algorithm it ↔
      block.size.toNat = it.size.toNat) (block : MemoryBlock) :
    Fits sizeKB block ∧ policyRank algorithm block = policyRank algorithm it ↔
      block.type = .free ∧ block.size.toNat ∈ ({it.size.toNat} : Set ℕ) := by
  rw [hrank, Set.mem_singleton_iff, fits_iff, and_assoc]
  refine and_congr_right fun _ => ⟨And.right, fun hsize => ⟨?_, hsize⟩⟩
  rw [hsize]
  exact (fits_iff.mp hit).2

/-- In a table without gaps the first best block has the prescribed start. -/
theorem prescribed_of_firstBest (hfills : Fills a (l ++ it :: r) b)
    (h : FirstBest (Fits sizeKB) (policyRank algorithm) l it r) :
    Prescribed (l ++ it :: r) sizeKB.toNat algorithm it.start.toNat := by
  obtain ⟨hfree, hle⟩ := fits_iff.mp h.here
  have hmem : it ∈ l ++ it :: r := by simp
  cases algorithm with
  | firstFit =>
    exact isLeast_freeStarts hfills h fun block => by simp [fits_iff, policyRank]
  | bestFit =>
    refine ⟨it.size.toNat, ⟨⟨⟨it, hmem, hfree, rfl⟩, hle⟩, ?_⟩, isLeast_freeStarts hfills h
      (fits_rank_iff h.here fun block => by simp [policyRank])⟩
    rintro _ ⟨⟨block, hblock, hfree', rfl⟩, hle'⟩
    exact Int.ofNat_le.mp (h.rank_le hblock (fits_iff.mpr ⟨hfree', hle'⟩))
  | worstFit =>
    refine ⟨it.size.toNat, ⟨⟨it, hmem, hfree, rfl⟩, ?_⟩, isLeast_freeStarts hfills h
      (fits_rank_iff h.here fun block => by simp [policyRank])⟩
    rintro _ ⟨block, hblock, hfree', rfl⟩
    by_cases hle' : sizeKB.toNat ≤ block.size.toNat
    · have hrank := h.rank_le hblock (fits_iff.mpr ⟨hfree', hle'⟩)
      exact Int.ofNat_le.mp (neg_le_neg_iff.mp hrank)
    · exact (Nat.not_le.mp hle').le.trans hle

end FirstBest

/-- An allocation in a partition takes the block that the search ends with. -/
theorem Partition.placement {m : MemoryManager} (h : Partition m) {owner : Str} {sizeKB : UInt32}
    (pid : UInt32) (tag : Str) (type : MemoryBlockType) (howner : owner ≠ [])
    (hsize : 0 < sizeKB) :
    ((∃ m' start message,
        m.allocateLocked owner pid tag sizeKB type = .ok (m', start, message)) ↔
      ∃ block ∈ m.blocks, block.type = .free ∧ sizeKB ≤ block.size) ∧
    ∀ m' start message, m.allocateLocked owner pid tag sizeKB type = .ok (m', start, message) →
      Prescribed m.blocks sizeKB.toNat m.algorithm start.toNat ∧
      ∃ l it r, m.blocks = l ++ it :: r ∧ it.start = start ∧ it.type = .free ∧
        m' = { m with blocks := l ++ (carve it
          { start := start, size := sizeKB, type := type, pid := pid, owner := owner,
            tag := tag } ++ r) } := by
  have hpos := UInt32.lt_iff_toNat_lt.mp hsize
  have hne : sizeKB ≠ 0 := fun h0 => by simp [h0] at hpos
  have hfound := m.findFreeBlock_found sizeKB
  cases hfind : m.findFreeBlock sizeKB with
  | none =>
    obtain ⟨error, herror⟩ :
        ∃ error, m.allocateLocked owner pid tag sizeKB type = .error error :=
      allocateLocked_none hfind
    rw [herror]
    refine ⟨⟨fun ⟨_, _, _, hok⟩ => (by cases hok), fun ⟨block, hblock, hfits⟩ => ?_⟩,
      fun _ _ _ hok => by cases hok⟩
    exact absurd hfits (findFreeBlock_eq_none.mp hfind block hblock)
  | some i =>
    rw [hfind] at hfound
    obtain ⟨l, it, r, hblocks, rfl, hbest⟩ := hfound
    have hfills := h.fills
    have hprescribed := prescribed_of_firstBest (by rwa [hblocks] at hfills) hbest
    obtain ⟨message', hok⟩ := m.allocateLocked_of_find pid tag type howner hne hblocks hfind
    rw [hok]
    refine ⟨⟨fun _ => ⟨it, by simp [hblocks], hbest.here⟩, fun _ => ⟨_, _, _, rfl⟩⟩, ?_⟩
    intro m' start message hsame
    cases hsame
    refine ⟨by rwa [hblocks], l, it, r, hblocks, rfl, hbest.here.1, ?_⟩
    congr 1
    exact sortBlocks_eq_of_fills (h.fills_carve hblocks rfl hpos hbest.here.2)

/-- After any operations an allocation for a user succeeds exactly if a FREE block is large
enough, it takes the start that the policy prescribes, and it changes no other block. -/
theorem placement_of_run {m : MemoryManager} (hinit : Initial m) (ops : List MemoryOp)
    (owner tag : Str) (pid sizeKB : UInt32) (type : MemoryBlockType) (howner : owner ≠ [])
    (hsize : 0 < sizeKB) :
    ((∃ m' start message, (Runs.run apply m ops).allocateLocked owner pid tag sizeKB type =
        .ok (m', start, message)) ↔
      ∃ block ∈ (Runs.run apply m ops).blocks, block.type = .free ∧ sizeKB ≤ block.size) ∧
    ∀ m' start message, (Runs.run apply m ops).allocateLocked owner pid tag sizeKB type =
        .ok (m', start, message) →
      Prescribed (Runs.run apply m ops).blocks sizeKB.toNat (Runs.run apply m ops).algorithm
        start.toNat ∧
      ∃ l it r, (Runs.run apply m ops).blocks = l ++ it :: r ∧ it.start = start ∧
        it.type = .free ∧ m' = { Runs.run apply m ops with blocks := l ++ (carve it
          { start := start, size := sizeKB, type := type, pid := pid, owner := owner,
            tag := tag } ++ r) } :=
  (partition_run hinit.partition ops).1.placement pid tag type howner hsize

/-- A best-fit allocation after a release has left two FREE blocks. -/
theorem placement_of_run_best_fit :
    let ops : List MemoryOp := [.allocateManual (str "a") (str "x") 16,
      .allocateManual (str "a") (str "y") 8, .freeByAddress (str "a") 0, .setAlgorithm (str "BF")]
    let m := Runs.run apply ({} : MemoryManager) ops
    ((∃ m' start message, m.allocateLocked (str "a") 0 (str "z") 4 .kernel =
        .ok (m', start, message)) ↔
      ∃ block ∈ m.blocks, block.type = .free ∧ 4 ≤ block.size) ∧
    ∀ m' start message, m.allocateLocked (str "a") 0 (str "z") 4 .kernel =
        .ok (m', start, message) →
      Prescribed m.blocks (4 : UInt32).toNat m.algorithm start.toNat ∧
      ∃ l it r, m.blocks = l ++ it :: r ∧ it.start = start ∧ it.type = .free ∧
        m' = { m with blocks := l ++ (carve it
          { start := start, size := 4, type := .kernel, pid := 0, owner := str "a",
            tag := str "z" } ++ r) } :=
  placement_of_run .fresh _ (str "a") (str "z") 0 4 .kernel (by decide) (by decide)

/-- Nobody is served without a login, however much memory is free. -/
theorem allocation_needs_owner :
    ¬∀ (m : MemoryManager), Initial m → ∀ (ops : List MemoryOp) (owner tag : Str)
      (pid sizeKB : UInt32) (type : MemoryBlockType), 0 < sizeKB →
      ((∃ m' start message, (Runs.run apply m ops).allocateLocked owner pid tag sizeKB type =
          .ok (m', start, message)) ↔
        ∃ block ∈ (Runs.run apply m ops).blocks, block.type = .free ∧ sizeKB ≤ block.size) := by
  intro h
  have hserved := (h {} .fresh [] [] [] 0 1 .kernel (by decide)).mpr
    ⟨freeBlock 0 1024, List.mem_singleton_self _, rfl, by decide⟩
  obtain ⟨m', start, message, hok⟩ := hserved
  cases hok

end MemoryManager

end OSCoreSim
