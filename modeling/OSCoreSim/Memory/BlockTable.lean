import OSCoreSim.Lib.Tiling
import OSCoreSim.Memory.FreeSearch
import Mathlib.Data.List.Chain
import Mathlib.Order.Basic
/-!
# Facts about block tables

Sorting, merging, carving and relocating a list of blocks, and the one spec lemma of
each operation of `MemoryManager`: an allocation replaces one FREE block by the two
parts of it, a release turns one block into a FREE block and merges.
-/

namespace OSCoreSim

open Tiling

namespace MemoryManager

abbrev Fills (a : ℕ) (blocks : List MemoryBlock) (b : ℕ) : Prop :=
  Tiles (fun block => block.start.toNat) (fun block => block.size.toNat) a blocks b

theorem fills_cons {a b : ℕ} {block : MemoryBlock} {rest : List MemoryBlock} :
    Fills a (block :: rest) b ↔ block.start.toNat = a ∧ 0 < block.size.toNat ∧
      Fills (a + block.size.toNat) rest b := Iff.rfl

/-- Two neighbours that `mergeFreeBlocksLocked` would merge. -/
def Mergeable (left right : MemoryBlock) : Prop :=
  left.type = .free ∧ right.type = .free ∧ left.start + left.size = right.start

instance (left right : MemoryBlock) : Decidable (Mergeable left right) :=
  inferInstanceAs (Decidable (_ ∧ _ ∧ _))

def fuse (left right : MemoryBlock) : MemoryBlock :=
  { left with size := left.size + right.size }

/-! ## Sorting -/

theorem sortBlocks_eq_of_fills {a b : ℕ} {blocks : List MemoryBlock} (h : Fills a blocks b) :
    sortBlocks blocks = blocks := by
  refine List.Pairwise.insertionSort_eq (h.pairwise_start.imp fun {x y} hlt => ?_)
  exact UInt32.le_iff_toNat_le.mpr (Nat.le_of_lt hlt)

theorem sortBlocks_perm (blocks : List MemoryBlock) : (sortBlocks blocks).Perm blocks :=
  List.perm_insertionSort _ _

theorem sortBlocks_pairwise (blocks : List MemoryBlock) :
    (sortBlocks blocks).Pairwise fun x y => x.start ≤ y.start := by
  have : Std.Total fun x y : MemoryBlock => x.start ≤ y.start :=
    ⟨fun x y => UInt32.le_total x.start y.start⟩
  have : IsTrans MemoryBlock fun x y => x.start ≤ y.start :=
    ⟨fun _ _ _ hxy hyz => UInt32.le_trans hxy hyz⟩
  exact List.pairwise_insertionSort _ _

/-! ## Merging -/

theorem mergeLoop_cons_of_mergeable {last block : MemoryBlock} {rest : List MemoryBlock}
    (h : Mergeable last block) :
    mergeLoop last (block :: rest) = mergeLoop (fuse last block) rest := by
  rw [mergeLoop]
  exact if_pos h

theorem mergeLoop_cons_of_not {last block : MemoryBlock} {rest : List MemoryBlock}
    (h : ¬Mergeable last block) :
    mergeLoop last (block :: rest) = last :: mergeLoop block rest := by
  rw [mergeLoop]
  exact if_neg h

theorem mergeLoop_head (last : MemoryBlock) (rest : List MemoryBlock) :
    ∃ size tail, mergeLoop last rest = { last with size := size } :: tail := by
  induction rest generalizing last with
  | nil => exact ⟨last.size, [], rfl⟩
  | cons block rest ih =>
    by_cases h : Mergeable last block
    · rw [mergeLoop_cons_of_mergeable h]
      obtain ⟨size, tail, heq⟩ := ih (fuse last block)
      exact ⟨size, tail, heq⟩
    · rw [mergeLoop_cons_of_not h]
      exact ⟨last.size, mergeLoop block rest, rfl⟩

theorem mergeLoop_isChain (last : MemoryBlock) (rest : List MemoryBlock) :
    (mergeLoop last rest).IsChain fun x y => ¬Mergeable x y := by
  induction rest generalizing last with
  | nil => exact .singleton last
  | cons block rest ih =>
    by_cases h : Mergeable last block
    · rw [mergeLoop_cons_of_mergeable h]
      exact ih _
    · rw [mergeLoop_cons_of_not h]
      have hchain := ih block
      obtain ⟨size, tail, heq⟩ := mergeLoop_head block rest
      rw [heq] at hchain ⊢
      exact .cons_cons (fun hm => h hm) hchain

theorem mergeSorted_isChain (blocks : List MemoryBlock) :
    (mergeSorted blocks).IsChain fun x y => ¬Mergeable x y := by
  cases blocks with
  | nil => exact .nil
  | cons block rest => exact mergeLoop_isChain block rest

theorem mergeLoop_eq_of_isChain {last : MemoryBlock} {rest : List MemoryBlock}
    (h : (last :: rest).IsChain fun x y => ¬Mergeable x y) :
    mergeLoop last rest = last :: rest := by
  induction rest generalizing last with
  | nil => rfl
  | cons block rest ih =>
    rw [List.isChain_cons_cons] at h
    rw [mergeLoop_cons_of_not h.1, ih h.2]

theorem mergeSorted_eq_of_isChain {blocks : List MemoryBlock}
    (h : blocks.IsChain fun x y => ¬Mergeable x y) : mergeSorted blocks = blocks := by
  cases blocks with
  | nil => rfl
  | cons block rest => exact mergeLoop_eq_of_isChain h

theorem size_add_of_fills {a b : ℕ} {last block : MemoryBlock} {rest : List MemoryBlock}
    (h : Fills a (last :: block :: rest) b) (hb : b < 2 ^ 32) :
    (last.size + block.size).toNat = last.size.toNat + block.size.toNat := by
  obtain ⟨-, -, hblocks⟩ := fills_cons.mp h
  obtain ⟨-, -, hrest⟩ := fills_cons.mp hblocks
  have hle := hrest.le
  exact toNat_add_of_lt (by omega)

theorem fills_fuse {a b : ℕ} {last block : MemoryBlock} {rest : List MemoryBlock}
    (h : Fills a (last :: block :: rest) b) (hb : b < 2 ^ 32) :
    Fills a (fuse last block :: rest) b := by
  have hsize := size_add_of_fills h hb
  obtain ⟨hstart, hpos, hblocks⟩ := fills_cons.mp h
  obtain ⟨-, -, hrest⟩ := fills_cons.mp hblocks
  refine fills_cons.mpr ⟨hstart, ?_, ?_⟩
  · simp only [fuse, hsize]
    omega
  · simp only [fuse, hsize, ← Nat.add_assoc]
    exact hrest

/-- Merging keeps the covered addresses, as long as no end wraps. -/
theorem fills_mergeLoop {a b : ℕ} {last : MemoryBlock} {rest : List MemoryBlock}
    (h : Fills a (last :: rest) b) (hb : b < 2 ^ 32) : Fills a (mergeLoop last rest) b := by
  induction rest generalizing a last with
  | nil => exact h
  | cons block rest ih =>
    by_cases hm : Mergeable last block
    · rw [mergeLoop_cons_of_mergeable hm]
      exact ih (fills_fuse h hb)
    · rw [mergeLoop_cons_of_not hm]
      exact ⟨h.1, h.2.1, ih h.2.2⟩

theorem fills_mergeSorted {a b : ℕ} {blocks : List MemoryBlock} (h : Fills a blocks b)
    (hb : b < 2 ^ 32) : Fills a (mergeSorted blocks) b := by
  cases blocks with
  | nil => exact h
  | cons block rest => exact fills_mergeLoop h hb

theorem mergeFreeBlocks_eq_of_fills {a b : ℕ} {blocks : List MemoryBlock}
    (h : Fills a blocks b) : mergeFreeBlocks blocks = mergeSorted blocks := by
  rw [mergeFreeBlocks, sortBlocks_eq_of_fills h]

theorem mergeLoop_free {P : UInt32 → Str → Str → Prop} {last : MemoryBlock}
    {rest : List MemoryBlock}
    (h : ∀ block ∈ last :: rest, block.type = .free → P block.pid block.owner block.tag) :
    ∀ block ∈ mergeLoop last rest, block.type = .free → P block.pid block.owner block.tag := by
  induction rest generalizing last with
  | nil => exact h
  | cons block rest ih =>
    by_cases hm : Mergeable last block
    · rw [mergeLoop_cons_of_mergeable hm]
      refine ih fun x hx hfree => ?_
      rcases List.mem_cons.mp hx with rfl | hx
      · exact h last List.mem_cons_self hm.1
      · exact h x (by simp [hx]) hfree
    · rw [mergeLoop_cons_of_not hm]
      intro x hx hfree
      rcases List.mem_cons.mp hx with rfl | hx
      · exact h x List.mem_cons_self hfree
      · exact ih (fun y hy => h y (List.mem_cons_of_mem last hy)) x hx hfree

theorem mergeSorted_free {P : UInt32 → Str → Str → Prop} {blocks : List MemoryBlock}
    (h : ∀ block ∈ blocks, block.type = .free → P block.pid block.owner block.tag) :
    ∀ block ∈ mergeSorted blocks, block.type = .free → P block.pid block.owner block.tag := by
  cases blocks with
  | nil => exact h
  | cons block rest => exact mergeLoop_free h

def allocated (blocks : List MemoryBlock) : List MemoryBlock := blocks.filter (·.type ≠ .free)

@[simp] theorem allocated_nil : allocated [] = [] := rfl

@[simp] theorem allocated_append (l r : List MemoryBlock) :
    allocated (l ++ r) = allocated l ++ allocated r := List.filter_append _ _

theorem allocated_cons_of_free {block : MemoryBlock} (h : block.type = .free)
    (rest : List MemoryBlock) : allocated (block :: rest) = allocated rest := by
  simp [allocated, h]

theorem allocated_cons_of_ne {block : MemoryBlock} (h : block.type ≠ .free)
    (rest : List MemoryBlock) : allocated (block :: rest) = block :: allocated rest := by
  simp [allocated, h]

theorem mem_allocated {block : MemoryBlock} {blocks : List MemoryBlock} :
    block ∈ allocated blocks ↔ block ∈ blocks ∧ block.type ≠ .free := by
  simp [allocated]

theorem allocated_mergeLoop (last : MemoryBlock) (rest : List MemoryBlock) :
    allocated (mergeLoop last rest) = allocated (last :: rest) := by
  induction rest generalizing last with
  | nil => rfl
  | cons block rest ih =>
    by_cases hm : Mergeable last block
    · have hfuse : (fuse last block).type = .free := hm.1
      rw [mergeLoop_cons_of_mergeable hm, ih, allocated_cons_of_free hfuse,
        allocated_cons_of_free hm.1, allocated_cons_of_free hm.2.1]
    · rw [mergeLoop_cons_of_not hm]
      by_cases hfree : last.type = .free
      · rw [allocated_cons_of_free hfree, allocated_cons_of_free hfree, ih]
      · rw [allocated_cons_of_ne hfree, allocated_cons_of_ne hfree, ih]

theorem allocated_mergeSorted (blocks : List MemoryBlock) :
    allocated (mergeSorted blocks) = allocated blocks := by
  cases blocks with
  | nil => rfl
  | cons block rest => exact allocated_mergeLoop block rest

/-- Two neighbours that can be merged may be merged before the loop runs. -/
theorem mergeLoop_fuse {x y : MemoryBlock} (hxy : Mergeable x y) (last : MemoryBlock)
    (l r : List MemoryBlock) :
    mergeLoop last (l ++ x :: y :: r) = mergeLoop last (l ++ fuse x y :: r) := by
  induction l generalizing last with
  | nil =>
    simp only [List.nil_append]
    by_cases hlast : Mergeable last x
    · have hlast' : Mergeable last (fuse x y) := hlast
      have hnext : Mergeable (fuse last x) y := by
        refine ⟨hlast.1, hxy.2.1, ?_⟩
        simp only [fuse, ← UInt32.add_assoc, hlast.2.2, hxy.2.2]
      rw [mergeLoop_cons_of_mergeable hlast, mergeLoop_cons_of_mergeable hnext,
        mergeLoop_cons_of_mergeable hlast']
      simp [fuse, UInt32.add_assoc]
    · have hlast' : ¬Mergeable last (fuse x y) := hlast
      rw [mergeLoop_cons_of_not hlast, mergeLoop_cons_of_not hlast',
        mergeLoop_cons_of_mergeable hxy]
  | cons block l ih =>
    simp only [List.cons_append]
    by_cases hm : Mergeable last block
    · rw [mergeLoop_cons_of_mergeable hm, mergeLoop_cons_of_mergeable hm, ih]
    · rw [mergeLoop_cons_of_not hm, mergeLoop_cons_of_not hm, ih]

theorem mergeSorted_fuse {x y : MemoryBlock} (hxy : Mergeable x y) (l r : List MemoryBlock) :
    mergeSorted (l ++ x :: y :: r) = mergeSorted (l ++ fuse x y :: r) := by
  cases l with
  | nil => exact mergeLoop_cons_of_mergeable hxy
  | cons block l => exact mergeLoop_fuse hxy block l r

/-! ## What the operations do to the table -/

theorem insertIdx_append_length (l r : List MemoryBlock) (x : MemoryBlock) :
    (l ++ r).insertIdx l.length x = l ++ x :: r := by
  induction l with
  | nil => simp
  | cons y l ih => simp [ih]

theorem exists_split_of_getElem? {blocks : List MemoryBlock} {i : ℕ} {it : MemoryBlock}
    (h : blocks[i]? = some it) : ∃ l r, blocks = l ++ it :: r ∧ l.length = i := by
  obtain ⟨hi, hget⟩ := List.getElem?_eq_some_iff.mp h
  refine ⟨blocks.take i, blocks.drop (i + 1), ?_, List.length_take_of_le (Nat.le_of_lt hi)⟩
  rw [← hget, List.getElem_cons_drop, List.take_append_drop]

/-- What an allocation leaves of a FREE block: the new block at its low end, and the rest. -/
def carve (it new : MemoryBlock) : List MemoryBlock :=
  if it.size = new.size then [new]
  else [new, { it with start := it.start + new.size, size := it.size - new.size }]

section Allocate

variable {m m' : MemoryManager} {owner tag message : Str} {pid sizeKB start : UInt32}
  {type : MemoryBlockType} {l r : List MemoryBlock} {it : MemoryBlock}

/-- An allocation whose search ends at `it` carves this block. -/
theorem allocateLocked_of_find (m : MemoryManager) {l r : List MemoryBlock} {it : MemoryBlock}
    (pid : UInt32) (tag : Str) (type : MemoryBlockType) (howner : owner ≠ []) (hsize : sizeKB ≠ 0)
    (hblocks : m.blocks = l ++ it :: r) (hfind : m.findFreeBlock sizeKB = some l.length) :
    ∃ message, m.allocateLocked owner pid tag sizeKB type =
      .ok ({ m with blocks := sortBlocks (l ++ (carve it
        { start := it.start, size := sizeKB, type := type, pid := pid, owner := owner,
          tag := tag } ++ r)) }, it.start, message) := by
  have hget : m.blocks[l.length]? = some it := by simp [hblocks]
  have hset (x : MemoryBlock) : (l ++ it :: r).set l.length x = l ++ x :: r := by
    rw [List.set_append_right _ _ (Nat.le_refl _), Nat.sub_self, List.set_cons_zero]
  have hcarve (new : MemoryBlock) : (if it.size = new.size then l ++ new :: r
      else l ++ new :: { it with start := it.start + new.size, size := it.size - new.size } :: r) =
      l ++ (carve it new ++ r) := by
    unfold carve
    split <;> simp
  unfold allocateLocked
  rw [if_neg howner, if_neg hsize, hfind]
  simp only [hget]
  simp only [hblocks, hset, insertIdx_append_length]
  rw [← hcarve]
  exact ⟨_, rfl⟩

theorem allocateLocked_none (hfind : m.findFreeBlock sizeKB = none) :
    ∃ message, m.allocateLocked owner pid tag sizeKB type = .error message := by
  unfold allocateLocked
  rw [hfind]
  split
  · exact ⟨_, rfl⟩
  · split <;> exact ⟨_, rfl⟩

theorem allocateLocked_spec
    (h : m.allocateLocked owner pid tag sizeKB type = .ok (m', start, message)) :
    owner ≠ [] ∧ sizeKB ≠ 0 ∧ ∃ l it r, m.blocks = l ++ it :: r ∧
      it.type = .free ∧ sizeKB ≤ it.size ∧ start = it.start ∧
      m' = { m with blocks := sortBlocks (l ++ (carve it
        { start := it.start, size := sizeKB, type := type, pid := pid, owner := owner,
          tag := tag } ++ r)) } := by
  have howner : owner ≠ [] := by
    intro howner
    simp [allocateLocked, howner] at h
  have hsize : sizeKB ≠ 0 := by
    intro hsize
    simp [allocateLocked, howner, hsize] at h
  have hfound := m.findFreeBlock_found sizeKB
  cases hfind : m.findFreeBlock sizeKB with
  | none =>
    obtain ⟨error, herror⟩ :
        ∃ error, m.allocateLocked owner pid tag sizeKB type = .error error :=
      allocateLocked_none hfind
    rw [herror] at h
    cases h
  | some i =>
    rw [hfind] at hfound
    obtain ⟨l, it, r, hblocks, rfl, hbest⟩ := hfound
    obtain ⟨message', hok⟩ := m.allocateLocked_of_find pid tag type howner hsize hblocks hfind
    rw [hok] at h
    cases h
    exact ⟨howner, hsize, l, it, r, hblocks, hbest.here.1, hbest.here.2, rfl, rfl⟩

end Allocate

theorem findBlock_spec {m : MemoryManager} {p : MemoryBlock → Bool} {i : ℕ} {it : MemoryBlock}
    (h : m.findBlock p = some (i, it)) :
    ∃ l r, m.blocks = l ++ it :: r ∧ l.length = i ∧ p it ∧ ∀ block ∈ l, p block = false := by
  unfold findBlock at h
  cases hidx : m.blocks.findIdx? p with
  | none =>
    rw [hidx] at h
    cases h
  | some j =>
    obtain ⟨hj, hp, hbefore⟩ := List.findIdx?_eq_some_iff_getElem.mp hidx
    have hget : m.blocks[j]? = some m.blocks[j] := List.getElem?_eq_getElem hj
    rw [hidx] at h
    dsimp only at h
    rw [hget, Option.map_some, Option.some.injEq, Prod.mk.injEq] at h
    obtain ⟨rfl, hit⟩ := h
    rw [hit] at hget hp
    obtain ⟨l, r, hblocks, hlen⟩ := exists_split_of_getElem? hget
    refine ⟨l, r, hblocks, hlen, hp, fun block hmem => ?_⟩
    obtain ⟨n, hn, rfl⟩ := List.mem_iff_getElem.mp hmem
    have hfalse := hbefore n (by omega)
    simp only [hblocks, List.getElem_append_left hn] at hfalse
    simpa using hfalse

theorem findBlock_of_cut {m : MemoryManager} {p : MemoryBlock → Bool} {l r : List MemoryBlock}
    {it : MemoryBlock} (hblocks : m.blocks = l ++ it :: r) (hit : p it = true)
    (hl : ∀ block ∈ l, p block = false) : m.findBlock p = some (l.length, it) := by
  have hnone : l.findIdx? p = none := List.findIdx?_eq_none_iff.mpr hl
  have hidx : m.blocks.findIdx? p = some l.length := by
    rw [hblocks, List.findIdx?_append, hnone, List.findIdx?_cons, if_pos hit]
    simp
  have hget : m.blocks[l.length]? = some it := by simp [hblocks]
  simp only [findBlock, hidx, hget, Option.map_some]

theorem findBlock_eq_none {m : MemoryManager} {p : MemoryBlock → Bool} :
    m.findBlock p = none ↔ ∀ block ∈ m.blocks, p block = false := by
  unfold findBlock
  cases hidx : m.blocks.findIdx? p with
  | none => simpa using hidx
  | some i =>
    obtain ⟨hi, hp, -⟩ := List.findIdx?_eq_some_iff_getElem.mp hidx
    simp only [List.getElem?_eq_getElem hi, Option.map_some, reduceCtorEq, false_iff]
    intro hall
    rw [hall _ (List.getElem_mem hi)] at hp
    cases hp

/-- The table after the block `it` between `l` and `r` is given back. -/
def released (m : MemoryManager) (l : List MemoryBlock) (it : MemoryBlock)
    (r : List MemoryBlock) : MemoryManager :=
  { m with blocks := mergeFreeBlocks (l ++ freeBlock it.start it.size :: r) }

theorem release_eq_released {m : MemoryManager} {l r : List MemoryBlock} {it : MemoryBlock}
    {i : ℕ} (hblocks : m.blocks = l ++ it :: r) (hlen : l.length = i) :
    m.release i it = m.released l it r := by
  rw [release, released, hblocks, List.set_append_right _ _ (Nat.le_of_eq hlen), hlen,
    Nat.sub_self, List.set_cons_zero]

/-- What `freeByAddress`, `freeByPid` and `swapOutProcess` do when they succeed: the first
block that satisfies a test is given back. -/
def Releases (p : MemoryBlock → Prop) (m m' : MemoryManager) : Prop :=
  ∃ l it r, m.blocks = l ++ it :: r ∧ p it ∧ (∀ block ∈ l, ¬p block) ∧ it.type ≠ .free ∧
    m' = m.released l it r

theorem isProcessBlock_iff {owner : Str} {pid : UInt32} {block : MemoryBlock} :
    isProcessBlock owner pid block = true ↔
      block.type = .process ∧ block.owner = owner ∧ block.pid = pid := by
  simp [isProcessBlock]

theorem releases_of_findBlock {m : MemoryManager} {owner : Str} {pid : UInt32} {i : ℕ}
    {it : MemoryBlock} (hfind : m.findBlock (isProcessBlock owner pid) = some (i, it)) :
    Releases (fun block => isProcessBlock owner pid block) m (m.release i it) := by
  obtain ⟨l, r, hblocks, hlen, hp, hbefore⟩ := findBlock_spec hfind
  refine ⟨l, it, r, hblocks, hp, fun block hb => by simp [hbefore block hb], ?_, ?_⟩
  · simp [(isProcessBlock_iff.mp hp).1]
  · exact release_eq_released hblocks hlen

theorem freeByPid_spec {m m' : MemoryManager} {owner message : Str} {pid : UInt32}
    (h : m.freeByPid owner pid = .ok (m', message)) :
    Releases (fun block => isProcessBlock owner pid block) m m' := by
  unfold freeByPid at h
  cases hfind : m.findBlock (isProcessBlock owner pid) with
  | none =>
    rw [hfind] at h
    cases h
  | some found =>
    simp only [hfind, Except.ok.injEq, Prod.mk.injEq] at h
    exact h.1 ▸ releases_of_findBlock hfind

theorem freeByPid_of_cut {m : MemoryManager} {owner : Str} {pid : UInt32} {l r : List MemoryBlock}
    {it : MemoryBlock} (hblocks : m.blocks = l ++ it :: r)
    (hit : isProcessBlock owner pid it = true)
    (hl : ∀ block ∈ l, isProcessBlock owner pid block = false) :
    ∃ message, m.freeByPid owner pid = .ok (m.released l it r, message) := by
  unfold freeByPid
  rw [findBlock_of_cut hblocks hit hl]
  simp only [release_eq_released hblocks rfl]
  exact ⟨_, rfl⟩

theorem freeByPid_error {m : MemoryManager} {owner : Str} {pid : UInt32} :
    (∃ message, m.freeByPid owner pid = .error message) ↔
      ∀ block ∈ m.blocks, isProcessBlock owner pid block = false := by
  rw [← findBlock_eq_none]
  unfold freeByPid
  cases m.findBlock (isProcessBlock owner pid) <;> simp

theorem swapOutProcess_spec {m m' : MemoryManager} {owner message : Str} {pid : UInt32}
    (h : m.swapOutProcess owner pid = .ok (m', message)) :
    Releases (fun block => isProcessBlock owner pid block) m m' := by
  unfold swapOutProcess at h
  cases hfind : m.findBlock (isProcessBlock owner pid) with
  | none =>
    rw [hfind] at h
    cases h
  | some found =>
    simp only [hfind, Except.ok.injEq, Prod.mk.injEq] at h
    exact h.1 ▸ releases_of_findBlock hfind

theorem freeByAddress_spec {m m' : MemoryManager} {owner message : Str} {addr : UInt32}
    (h : m.freeByAddress owner addr = .ok (m', message)) :
    ∃ l it r, m.blocks = l ++ it :: r ∧ it.start = addr ∧ it.owner = owner ∧
      it.type ≠ .free ∧ it.type ≠ .process ∧ m' = m.released l it r := by
  unfold freeByAddress at h
  cases hfind : m.findBlock (·.start = addr) with
  | none =>
    rw [hfind] at h
    cases h
  | some found =>
    obtain ⟨l, r, hblocks, hlen, hp, -⟩ := findBlock_spec hfind
    simp only [hfind] at h
    split at h
    · cases h
    next hfree =>
      split at h
      · cases h
      next howner =>
        split at h
        · cases h
        next hprocess =>
          simp only [Except.ok.injEq, Prod.mk.injEq] at h
          refine ⟨l, found.2, r, hblocks, by simpa using hp, not_not.mp howner, hfree, hprocess, ?_⟩
          rw [← h.1, release_eq_released hblocks hlen]

theorem freeByAddress_of_cut {m : MemoryManager} {l r : List MemoryBlock} {it : MemoryBlock}
    (hblocks : m.blocks = l ++ it :: r) (hl : ∀ block ∈ l, block.start ≠ it.start)
    (hfree : it.type ≠ .free) (hprocess : it.type ≠ .process) :
    ∃ message, m.freeByAddress it.owner it.start = .ok (m.released l it r, message) := by
  unfold freeByAddress
  rw [findBlock_of_cut hblocks (by simp) fun block hmem => by simp [hl block hmem]]
  simp only [if_neg hfree, if_neg hprocess, ne_eq, not_true_eq_false, if_false,
    release_eq_released hblocks rfl]
  exact ⟨_, rfl⟩

theorem setAlgorithm_spec {m m' : MemoryManager} {algoName message : Str}
    (h : m.setAlgorithm algoName = .ok (m', message)) :
    ∃ algorithm, m' = { m with algorithm := algorithm } := by
  unfold setAlgorithm at h
  simp only at h
  split at h
  · exact ⟨.firstFit, by simpa using congrArg Prod.fst (Except.ok.inj h.symm)⟩
  · split at h
    · exact ⟨.bestFit, by simpa using congrArg Prod.fst (Except.ok.inj h.symm)⟩
    · split at h
      · exact ⟨.worstFit, by simpa using congrArg Prod.fst (Except.ok.inj h.symm)⟩
      · cases h

end MemoryManager

end OSCoreSim
