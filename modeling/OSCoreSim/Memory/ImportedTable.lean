import OSCoreSim.Memory.Validation
/-!
# Imported tables

`importBlocks` merges before `validateBlocks` looks, so what is accepted is the merged table.
The listed blocks are a partition themselves exactly if the merge has joined FREE blocks with
positive sizes, without a wrapping end and without an owner or a PID that it then drops.
-/

namespace OSCoreSim

open Tiling

namespace MemoryManager

/-- The listed blocks, in any order, cut `[0, total)` into pieces. -/
structure RealPartition (blocks : List MemoryBlock) (total : ℕ) : Prop where
  positive : ∀ block ∈ blocks, 0 < block.size.toNat
  disjoint : blocks.Pairwise fun x y =>
    x.start.toNat + x.size.toNat ≤ y.start.toNat ∨ y.start.toNat + y.size.toNat ≤ x.start.toNat
  covers : ∀ addr, addr < total ↔
    ∃ block ∈ blocks, block.start.toNat ≤ addr ∧ addr < block.start.toNat + block.size.toNat
  freePlain : FreePlain blocks

theorem RealPartition.of_fills {blocks : List MemoryBlock} {total : ℕ} (h : Fills 0 blocks total)
    (hplain : FreePlain blocks) : RealPartition blocks total where
  positive block hmem := (h.bounds hmem).2.1
  disjoint := h.pairwise.imp .inl
  covers addr := by
    constructor
    · exact h.exists_cover (Nat.zero_le addr)
    · rintro ⟨block, hmem, -, hlt⟩
      exact hlt.trans_le (h.bounds hmem).2.2
  freePlain := hplain

theorem RealPartition.perm {blocks blocks' : List MemoryBlock} {total : ℕ}
    (h : RealPartition blocks total) (hperm : blocks.Perm blocks') :
    RealPartition blocks' total where
  positive block hmem := h.positive block (hperm.mem_iff.mpr hmem)
  disjoint := (hperm.pairwise_iff fun hxy => hxy.symm).mp h.disjoint
  covers addr := by
    rw [h.covers addr]
    exact exists_congr fun block => and_congr_left fun _ => hperm.mem_iff
  freePlain block hmem := h.freePlain block (hperm.mem_iff.mpr hmem)

theorem RealPartition.end_le {blocks : List MemoryBlock} {total : ℕ}
    (h : RealPartition blocks total) {block : MemoryBlock} (hmem : block ∈ blocks) :
    block.start.toNat + block.size.toNat ≤ total := by
  have hpos := h.positive block hmem
  have hlast := (h.covers (block.start.toNat + block.size.toNat - 1)).mpr
    ⟨block, hmem, by omega, by omega⟩
  omega

/-! ## What the merge may join -/

/-- If the merge joins the neighbours, neither is empty, neither end wraps, and what is dropped
of the right one is nothing. -/
def JoinsSoundly (left right : MemoryBlock) : Prop :=
  Mergeable left right →
    (0 < left.size.toNat ∧ left.start.toNat + left.size.toNat < 2 ^ 32) ∧
    (0 < right.size.toNat ∧ right.start.toNat + right.size.toNat < 2 ^ 32) ∧
    right.pid = 0 ∧ right.owner = []

instance (left right : MemoryBlock) : Decidable (JoinsSoundly left right) :=
  inferInstanceAs (Decidable (_ → _))

section Fuse

variable {last block : MemoryBlock} {rest : List MemoryBlock}

theorem JoinsSoundly.start_eq (h : JoinsSoundly last block) (hm : Mergeable last block) :
    block.start.toNat = last.start.toNat + last.size.toNat := by
  obtain ⟨⟨-, hlt⟩, -⟩ := h hm
  rw [← hm.2.2, toNat_add_of_lt hlt]

theorem JoinsSoundly.size_add (h : JoinsSoundly last block) (hm : Mergeable last block) :
    (last.size + block.size).toNat = last.size.toNat + block.size.toNat := by
  have hstart := h.start_eq hm
  obtain ⟨-, ⟨-, hlt⟩, -⟩ := h hm
  exact toNat_add_of_lt (by omega)

/-- The joined block ends where its right part does, so that it may be joined further. -/
theorem isChain_fuse (h : (last :: block :: rest).IsChain JoinsSoundly)
    (hm : Mergeable last block) : (fuse last block :: rest).IsChain JoinsSoundly := by
  obtain ⟨hjoin, htail⟩ := List.isChain_cons_cons.mp h
  cases rest with
  | nil => exact .singleton _
  | cons next rest =>
    obtain ⟨hnext, hrest⟩ := List.isChain_cons_cons.mp htail
    refine .cons_cons (fun hm' => ?_) hrest
    have hmergeable : Mergeable block next := by
      refine ⟨hm.2.1, hm'.2.1, ?_⟩
      rw [← hm'.2.2, ← hm.2.2, UInt32.add_assoc]
      rfl
    have hstart := hjoin.start_eq hm
    have hsize := hjoin.size_add hm
    obtain ⟨⟨hpos, -⟩, -⟩ := hjoin hm
    obtain ⟨⟨-, hlt⟩, hright⟩ := hnext hmergeable
    refine ⟨?_, hright⟩
    simp only [fuse, hsize]
    exact ⟨by omega, by omega⟩

theorem fills_of_mergeLoop {a b : ℕ} (hchain : (last :: rest).IsChain JoinsSoundly)
    (h : Fills a (mergeLoop last rest) b) : Fills a (last :: rest) b := by
  induction rest generalizing a last with
  | nil => exact h
  | cons block rest ih =>
    obtain ⟨hjoin, htail⟩ := List.isChain_cons_cons.mp hchain
    by_cases hm : Mergeable last block
    · rw [mergeLoop_cons_of_mergeable hm] at h
      obtain ⟨hstart, -, hrest⟩ := fills_cons.mp (ih (isChain_fuse hchain hm) h)
      obtain ⟨⟨hpos, -⟩, ⟨hpos', -⟩, -⟩ := hjoin hm
      have hnext := hjoin.start_eq hm
      have hsize := hjoin.size_add hm
      simp only [fuse, hsize] at hstart hrest
      rw [← Nat.add_assoc] at hrest
      exact fills_cons.mpr ⟨hstart, hpos, fills_cons.mpr ⟨by omega, hpos', hrest⟩⟩
    · rw [mergeLoop_cons_of_not hm] at h
      obtain ⟨hstart, hpos, hrest⟩ := fills_cons.mp h
      exact fills_cons.mpr ⟨hstart, hpos, ih htail hrest⟩

theorem freePlain_of_mergeLoop (hchain : (last :: rest).IsChain JoinsSoundly)
    (h : FreePlain (mergeLoop last rest)) : FreePlain (last :: rest) := by
  induction rest generalizing last with
  | nil => exact h
  | cons block rest ih =>
    obtain ⟨hjoin, htail⟩ := List.isChain_cons_cons.mp hchain
    by_cases hm : Mergeable last block
    · rw [mergeLoop_cons_of_mergeable hm] at h
      obtain ⟨hlast, hrest⟩ := freePlain_cons.mp (ih (isChain_fuse hchain hm) h)
      obtain ⟨-, -, hplain⟩ := hjoin hm
      exact freePlain_cons.mpr ⟨hlast, freePlain_cons.mpr ⟨fun _ => hplain, hrest⟩⟩
    · rw [mergeLoop_cons_of_not hm] at h
      obtain ⟨hlast, hrest⟩ := freePlain_cons.mp h
      exact freePlain_cons.mpr ⟨hlast, ih htail hrest⟩

end Fuse

theorem importBlocks_eq (m : MemoryManager) (table : List MemoryBlock) :
    m.importBlocks table = { m with blocks := mergeSorted (sortBlocks table) } := by
  have hsorted : sortBlocks (sortBlocks table) = sortBlocks table :=
    List.Pairwise.insertionSort_eq (sortBlocks_pairwise table)
  rw [importBlocks, mergeFreeBlocks, hsorted]

/-- An accepted table, whichever way its blocks were sorted: the listed blocks are a partition
exactly if the merge has joined only sound neighbours. -/
theorem realPartition_iff {m : MemoryManager} {table sorted : List MemoryBlock}
    (hperm : sorted.Perm table)
    (haccept : ∃ message, { m with blocks := mergeSorted sorted }.validateBlocks = .ok message) :
    RealPartition table m.totalMemoryKB.toNat ↔ sorted.IsChain JoinsSoundly := by
  constructor
  · intro h
    have hsound : ∀ {x y}, x ∈ sorted → y ∈ sorted → JoinsSoundly x y := by
      intro x y hx hy hm
      have hlt := m.totalMemoryKB.toNat_lt
      have hx' := hperm.mem_iff.mp hx
      have hy' := hperm.mem_iff.mp hy
      exact ⟨⟨h.positive x hx', (h.end_le hx').trans_lt hlt⟩,
        ⟨h.positive y hy', (h.end_le hy').trans_lt hlt⟩, h.freePlain y hy' hm.2.1⟩
    exact List.Pairwise.isChain (List.Pairwise.imp_of_mem (fun hx hy _ => hsound hx hy)
      (List.pairwise_of_forall (R := fun _ _ => True) fun _ _ => trivial))
  · intro hchain
    obtain ⟨hpos, hfills, hplain⟩ := validateBlocks_ok.mp haccept
    cases sorted with
    | nil => exact absurd hfills (Nat.ne_of_lt hpos)
    | cons block rest =>
      exact (RealPartition.of_fills (fills_of_mergeLoop hchain hfills)
        (freePlain_of_mergeLoop hchain hplain)).perm hperm

end MemoryManager

end OSCoreSim
