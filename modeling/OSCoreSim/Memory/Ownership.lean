import OSCoreSim.Memory.MemoryRun
/-!
# The allocator as a map from addresses to owners

A block table says of every address in `[0, totalMemoryKB)` whether it is FREE or who holds
it.  Seen this way an allocation fills a FREE range, a release empties the range of one
block, and splitting, sorting and merging are not seen at all.
-/

namespace OSCoreSim

open Tiling

structure Holder where
  type : MemoryBlockType
  pid : UInt32
  owner : Str
  tag : Str
  deriving DecidableEq

/-- A map that has the value `v` on `[start, start + n)` and is `f` elsewhere. -/
def fillRange {α : Type} (f : ℕ → α) (start n : ℕ) (v : α) (addr : ℕ) : α :=
  if start ≤ addr ∧ addr < start + n then v else f addr

namespace MemoryBlock

def holder (block : MemoryBlock) : Option Holder :=
  if block.type = .free then none else some ⟨block.type, block.pid, block.owner, block.tag⟩

def Contains (block : MemoryBlock) (addr : ℕ) : Prop :=
  block.start.toNat ≤ addr ∧ addr < block.start.toNat + block.size.toNat

instance (block : MemoryBlock) (addr : ℕ) : Decidable (block.Contains addr) :=
  inferInstanceAs (Decidable (_ ∧ _))

end MemoryBlock

namespace MemoryManager

def blockAt (blocks : List MemoryBlock) (addr : ℕ) : Option MemoryBlock :=
  cover (fun block => block.start.toNat) (fun block => block.size.toNat) blocks addr

def holderAt (blocks : List MemoryBlock) (addr : ℕ) : Option Holder :=
  (blockAt blocks addr).bind (·.holder)

/-- The block table as a map. -/
def ownership (m : MemoryManager) : ℕ → Option Holder := holderAt m.blocks

variable {m m' : MemoryManager} {addr a b : ℕ} {l r : List MemoryBlock} {it new : MemoryBlock}

theorem holder_free {block : MemoryBlock} (h : block.type = .free) : block.holder = none :=
  if_pos h

theorem holder_used {block : MemoryBlock} (h : block.type ≠ .free) :
    block.holder = some ⟨block.type, block.pid, block.owner, block.tag⟩ :=
  if_neg h

theorem holderAt_cons {block : MemoryBlock} {rest : List MemoryBlock} :
    holderAt (block :: rest) addr =
      if block.Contains addr then block.holder else holderAt rest addr := by
  unfold holderAt blockAt
  rw [cover_cons]
  by_cases hin : block.Contains addr
  · rw [if_pos hin, if_pos (show _ ∧ _ from hin)]
    rfl
  · rw [if_neg hin, if_neg (show ¬(_ ∧ _) from hin)]

/-! ## Merging -/

theorem holderAt_fuse {last block : MemoryBlock} {rest : List MemoryBlock}
    (hm : Mergeable last block) (hblock : block.start.toNat = last.start.toNat + last.size.toNat)
    (hsize : (last.size + block.size).toNat = last.size.toNat + block.size.toNat) :
    holderAt (fuse last block :: rest) addr = holderAt (last :: block :: rest) addr := by
  have hfree : (fuse last block).holder = none := holder_free hm.1
  rw [holderAt_cons, holderAt_cons, holderAt_cons, hfree, holder_free hm.1, holder_free hm.2.1]
  -- all three ranges are FREE, so only the cover of the fused block matters
  have hrange : (fuse last block).Contains addr ↔ last.Contains addr ∨ block.Contains addr := by
    simp only [MemoryBlock.Contains, fuse, hsize]
    omega
  by_cases hlast : last.Contains addr
  · rw [if_pos hlast, if_pos (hrange.mpr (.inl hlast))]
  · rw [if_neg hlast]
    by_cases hin : block.Contains addr
    · rw [if_pos hin, if_pos (hrange.mpr (.inr hin))]
    · rw [if_neg hin, if_neg fun hboth => (hrange.mp hboth).elim hlast hin]

/-- The merging loop moves no address from one holder to another. -/
theorem holderAt_mergeLoop {last : MemoryBlock} {rest : List MemoryBlock}
    (h : Fills a (last :: rest) b) (hb : b < 2 ^ 32) :
    holderAt (mergeLoop last rest) addr = holderAt (last :: rest) addr := by
  induction rest generalizing a last with
  | nil => rfl
  | cons block rest ih =>
    obtain ⟨hstart, -, hblocks⟩ := fills_cons.mp h
    by_cases hm : Mergeable last block
    · obtain ⟨hnext, -, -⟩ := fills_cons.mp hblocks
      rw [mergeLoop_cons_of_mergeable hm, ih (fills_fuse h hb)]
      exact holderAt_fuse hm (by omega) (size_add_of_fills h hb)
    · rw [mergeLoop_cons_of_not hm, holderAt_cons, holderAt_cons, ih hblocks]

theorem holderAt_mergeSorted {blocks : List MemoryBlock} (h : Fills a blocks b) (hb : b < 2 ^ 32) :
    holderAt (mergeSorted blocks) addr = holderAt blocks addr := by
  cases blocks with
  | nil => rfl
  | cons last rest => exact holderAt_mergeLoop h hb

/-! ## Single addresses -/

/-- Inside the memory exactly one block contains an address, outside none does. -/
theorem Partition.holderAt_eq (h : Partition m) {block : MemoryBlock} (hmem : block ∈ m.blocks)
    (hin : block.Contains addr) : m.ownership addr = block.holder := by
  have hcover := h.fills.cover_eq hmem hin.1 hin.2
  rw [ownership, holderAt, blockAt, hcover]
  rfl

theorem Partition.exists_contains (h : Partition m) :
    (∃ block ∈ m.blocks, block.Contains addr) ↔ addr < m.totalMemoryKB.toNat := by
  constructor
  · rintro ⟨block, hmem, hin⟩
    have hbounds := h.fills.bounds hmem
    have hlt := hin.2
    omega
  · exact h.fills.exists_cover (Nat.zero_le addr)

theorem Partition.contains_unique (h : Partition m) {block other : MemoryBlock}
    (hblock : block ∈ m.blocks) (hother : other ∈ m.blocks) (hin : block.Contains addr)
    (hin' : other.Contains addr) : block = other := by
  have hcover := h.fills.cover_eq hblock hin.1 hin.2
  have hcover' := h.fills.cover_eq hother hin'.1 hin'.2
  exact Option.some.inj (hcover.symm.trans hcover')

theorem holderAt_replace {mid : List MemoryBlock} (h : Fills a (l ++ it :: r) b)
    (hmid : Fills it.start.toNat mid (it.start.toNat + it.size.toNat)) :
    holderAt (l ++ (mid ++ r)) addr =
      if it.Contains addr then holderAt mid addr else holderAt (l ++ it :: r) addr := by
  have hcover := h.cover_replace (p := addr) hmid
  unfold holderAt blockAt
  rw [hcover]
  by_cases hin : it.Contains addr
  · rw [if_pos hin, if_pos (show _ ∧ _ from hin)]
  · rw [if_neg hin, if_neg (show ¬(_ ∧ _) from hin)]

/-! ## Allocation and release -/

theorem holderAt_carve (hit : it.type = .free) :
    holderAt (carve it new) addr = if new.Contains addr then new.holder else none := by
  have hnone : holderAt [] addr = none := rfl
  unfold carve
  split
  · rw [holderAt_cons, hnone]
  · have hrest : (({ it with start := it.start + new.size, size := it.size - new.size } :
        MemoryBlock)).holder = none := holder_free hit
    rw [holderAt_cons, holderAt_cons, hrest, hnone, ite_self]

theorem Partition.ownership_allocates (h : Partition m) (hm : Allocates new m m') :
    (∀ addr, new.Contains addr → m.ownership addr = none ∧ addr < m.totalMemoryKB.toNat) ∧
      m'.ownership = fillRange m.ownership new.start.toNat new.size.toNat new.holder := by
  obtain ⟨l, it, r, hblocks, hfree, hstart, hle, hpos, rfl⟩ := hm
  have hmem : it ∈ m.blocks := by simp [hblocks]
  have hsize := UInt32.le_iff_toNat_le.mp hle
  have hbounds := h.fills.bounds hmem
  have hlt := m.totalMemoryKB.toNat_lt
  have hinside : ∀ {addr}, new.Contains addr → it.Contains addr := by
    intro addr hin
    unfold MemoryBlock.Contains at hin ⊢
    rw [hstart] at hin
    omega
  have hold : ∀ {addr}, it.Contains addr → m.ownership addr = none := fun hin =>
    (h.holderAt_eq hmem hin).trans (holder_free hfree)
  have hfills := h.fills
  rw [hblocks] at hfills
  refine ⟨fun addr hin => ⟨hold (hinside hin), ?_⟩, funext fun addr => ?_⟩
  · exact h.exists_contains.mp ⟨it, hmem, hinside hin⟩
  · have hcarved := MemoryManager.fills_carve hstart hpos hle (by omega)
    show holderAt (l ++ (carve it new ++ r)) addr = if new.Contains addr then _ else _
    rw [holderAt_replace hfills hcarved, holderAt_carve hfree]
    by_cases hnew : new.Contains addr
    · rw [if_pos (hinside hnew), if_pos hnew, if_pos hnew]
    · rw [if_neg hnew, if_neg hnew]
      by_cases hin : it.Contains addr
      · rw [if_pos hin, hold hin]
      · rw [if_neg hin, ownership, hblocks]

theorem Partition.ownership_released (h : Partition m) (hblocks : m.blocks = l ++ it :: r) :
    (m.released l it r).ownership =
      fillRange m.ownership it.start.toNat it.size.toNat none := by
  funext addr
  have hfills := h.fills
  have hmem : it ∈ m.blocks := by simp [hblocks]
  have hmid := h.fills_freeBlock hmem
  rw [hblocks] at hfills
  have hcleared : holderAt [freeBlock it.start it.size] addr = none := by
    rw [holderAt_cons, holder_free rfl]
    exact ite_self _
  rw [h.released_eq hblocks]
  show holderAt (mergeSorted (l ++ freeBlock it.start it.size :: r)) addr =
    if it.Contains addr then _ else _
  rw [holderAt_mergeSorted (h.fills_free hblocks) m.totalMemoryKB.toNat_lt]
  have hreplaced : holderAt (l ++ ([freeBlock it.start it.size] ++ r)) addr =
      if it.Contains addr then holderAt [freeBlock it.start it.size] addr
      else holderAt (l ++ it :: r) addr := holderAt_replace hfills hmid
  rw [hcleared] at hreplaced
  rw [ownership, hblocks]
  exact hreplaced

/-! ## The calls -/

/-- A successful allocation fills a FREE range of the memory, from the start that it returns,
with its holder; any other changes no address. -/
def Grants (m : MemoryManager) (result : Except Str (MemoryManager × UInt32 × Str))
    (sizeKB : UInt32)
    (holder : Holder) : Prop :=
  match result with
  | .ok (m', start, _) =>
    start.toNat + sizeKB.toNat ≤ m.totalMemoryKB.toNat ∧
      (∀ addr, start.toNat ≤ addr → addr < start.toNat + sizeKB.toNat → m.ownership addr = none) ∧
      m'.ownership = fillRange m.ownership start.toNat sizeKB.toNat (some holder) ∧
      m'.totalMemoryKB = m.totalMemoryKB
  | .error _ => (m.keep result).ownership = m.ownership

/-- A successful release empties the range of the first block that satisfies `p`; any other
changes no address. -/
def TakesBack (m : MemoryManager) (result : Except Str (MemoryManager × Str))
    (p : MemoryBlock → Prop) : Prop :=
  match result with
  | .ok (m', _) => ∃ block ∈ m.blocks, p block ∧ block.type ≠ .free ∧
      (∀ other ∈ m.blocks, p other → block.start ≤ other.start) ∧
      m'.ownership = fillRange m.ownership block.start.toNat block.size.toNat none ∧
      m'.totalMemoryKB = m.totalMemoryKB
  | .error _ => (m.keep result).ownership = m.ownership

def IsManualBlock (owner : Str) (addr : UInt32) (block : MemoryBlock) : Prop :=
  block.start = addr ∧ block.owner = owner ∧ block.type ≠ .free ∧ block.type ≠ .process

/-- The block table stands for a map from the addresses of the memory to their holders, and
the calls that hand out and take back memory are the ones of the map. -/
structure RefinesOwnership (m : MemoryManager) : Prop where
  covered : ∀ addr, addr < m.totalMemoryKB.toNat → ∃ block ∈ m.blocks, block.Contains addr ∧
    (∀ other ∈ m.blocks, other.Contains addr → other = block) ∧ m.ownership addr = block.holder
  inside : ∀ block ∈ m.blocks, ∀ addr, block.Contains addr → addr < m.totalMemoryKB.toNat
  allocateManual : ∀ owner tag sizeKB,
    m.Grants (m.allocateManual owner tag sizeKB) sizeKB ⟨.kernel, 0, owner, tag⟩
  allocateForProcess : ∀ owner pid processName sizeKB,
    m.Grants (m.allocateForProcess owner pid processName sizeKB) sizeKB
      ⟨.process, pid, owner, processName⟩
  freeByAddress : ∀ owner addr, m.TakesBack (m.freeByAddress owner addr) (IsManualBlock owner addr)
  freeByPid : ∀ owner pid,
    m.TakesBack (m.freeByPid owner pid) fun block => isProcessBlock owner pid block
  swapOutProcess : ∀ owner pid,
    m.TakesBack (m.swapOutProcess owner pid) fun block => isProcessBlock owner pid block
  setAlgorithm : ∀ algoName, (m.keep (m.setAlgorithm algoName)).ownership = m.ownership

theorem Partition.grants (h : Partition m) {owner tag : Str} {pid sizeKB : UInt32}
    {type : MemoryBlockType} (htype : type ≠ .free) :
    m.Grants (m.allocateLocked owner pid tag sizeKB type) sizeKB ⟨type, pid, owner, tag⟩ := by
  cases hresult : m.allocateLocked owner pid tag sizeKB type with
  | error message => rfl
  | ok result =>
    obtain ⟨m', start, message⟩ := result
    have hm := (h.allocates hresult).2
    obtain ⟨hfree, hmap⟩ := h.ownership_allocates hm
    rw [holder_used htype] at hmap
    obtain ⟨l, it, r, hblocks, hit, hstart, hle, hpos, rfl⟩ := hm
    have hbounds := h.fills.bounds (x := it) (by simp [hblocks])
    have hsize := UInt32.le_iff_toNat_le.mp hle
    simp only at hstart hsize
    refine ⟨?_, fun addr hge hlt => (hfree addr ⟨hge, hlt⟩).1, hmap, rfl⟩
    rw [hstart]
    omega

theorem Partition.takesBack_released (h : Partition m) {p : MemoryBlock → Prop} {message : Str}
    (hblocks : m.blocks = l ++ it :: r) (hp : p it) (hbefore : ∀ block ∈ l, ¬p block)
    (hfree : it.type ≠ .free) : m.TakesBack (.ok (m.released l it r, message)) p := by
  refine ⟨it, by simp [hblocks], hp, hfree, fun other hmem hother => ?_,
    h.ownership_released hblocks, rfl⟩
  have hsorted := h.fills.pairwise_start
  rw [hblocks] at hmem hsorted
  rcases List.mem_append.mp hmem with hleft | hright
  · exact absurd hother (hbefore other hleft)
  rcases List.mem_cons.mp hright with rfl | hright
  · exact UInt32.le_refl _
  · have hlt := List.rel_of_pairwise_cons (List.pairwise_append.mp hsorted).2.1 hright
    exact UInt32.le_iff_toNat_le.mpr hlt.le

theorem Partition.takesBack (h : Partition m) {p : MemoryBlock → Prop}
    {result : Except Str (MemoryManager × Str)}
    (hok : ∀ m' message, result = .ok (m', message) → Releases p m m') : m.TakesBack result p := by
  cases result with
  | error message => rfl
  | ok pair =>
    obtain ⟨l, it, r, hblocks, hp, hbefore, hfree, heq⟩ := hok pair.1 pair.2 rfl
    obtain ⟨m', message⟩ := pair
    obtain rfl : m' = m.released l it r := heq
    exact h.takesBack_released hblocks hp hbefore hfree

theorem Partition.refinesOwnership (h : Partition m) : RefinesOwnership m where
  covered addr hlt := by
    obtain ⟨block, hmem, hin⟩ := h.exists_contains.mpr hlt
    exact ⟨block, hmem, hin, fun other hother hin' => h.contains_unique hother hmem hin' hin,
      h.holderAt_eq hmem hin⟩
  inside block hmem addr hin := h.exists_contains.mp ⟨block, hmem, hin⟩
  allocateManual owner tag sizeKB := h.grants (by simp)
  allocateForProcess owner pid processName sizeKB := h.grants (by simp)
  freeByAddress owner addr := by
    cases hresult : m.freeByAddress owner addr with
    | error message => rfl
    | ok pair =>
      obtain ⟨l, it, r, hblocks, hstart, howner, hfree, hprocess, heq⟩ := freeByAddress_spec hresult
      obtain ⟨m', message⟩ := pair
      obtain rfl : m' = m.released l it r := heq
      refine h.takesBack_released hblocks ⟨hstart, howner, hfree, hprocess⟩ ?_ hfree
      -- no earlier block has the same start
      intro block hmem hblock
      have hsorted := h.fills.pairwise_start
      rw [hblocks] at hsorted
      have hlt := (List.pairwise_append.mp hsorted).2.2 block hmem it List.mem_cons_self
      rw [hblock.1, hstart] at hlt
      exact Nat.lt_irrefl _ hlt
  freeByPid owner pid := h.takesBack fun _ _ hok => freeByPid_spec hok
  swapOutProcess owner pid := h.takesBack fun _ _ hok => swapOutProcess_spec hok
  setAlgorithm algoName := by
    refine keep_induction (P := fun m' => m'.ownership = m.ownership) rfl fun m' message hok => ?_
    obtain ⟨algorithm, rfl⟩ := setAlgorithm_spec hok
    rfl

/-- Every table that the calls can produce, with every algorithm, is an ownership map. -/
theorem refinesOwnership_of_run (hinit : Initial m) (ops : List MemoryOp) :
    RefinesOwnership (Runs.run apply m ops) :=
  (partition_run hinit.partition ops).1.refinesOwnership

/-- Best fit after two splits and a release between them. -/
theorem refinesOwnership_of_run_holes :
    let ops : List MemoryOp := [.setAlgorithm (str "bf"), .allocateManual (str "a") (str "x") 16,
      .allocateForProcess (str "b") 1 (str "p") 8, .freeByAddress (str "a") 0,
      .allocateForProcess (str "a") 2 (str "q") 4, .swapOutProcess (str "b") 1]
    RefinesOwnership (Runs.run apply {} ops) :=
  refinesOwnership_of_run .fresh _

end MemoryManager

end OSCoreSim
