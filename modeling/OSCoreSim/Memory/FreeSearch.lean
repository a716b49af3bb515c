import OSCoreSim.Lib.Selection
import OSCoreSim.Memory.MemoryManager
/-!
# The search for a FREE block

One loop serves the three policies.  Each of them ranks the FREE blocks that are large enough:
`BEST_FIT` by their size, `WORST_FIT` by its opposite, and `FIRST_FIT` not at all, so that it
may stop at the first one.  The loop ends at the first block of the least rank.
-/

namespace OSCoreSim

open Selection (FirstBest)

namespace MemoryManager

def Fits (sizeKB : UInt32) (block : MemoryBlock) : Prop :=
  block.type = .free ∧ sizeKB ≤ block.size

def policyRank : AllocAlgorithm → MemoryBlock → ℤ
  | .firstFit, _ => 0
  | .bestFit, block => block.size.toNat
  | .worstFit, block => -block.size.toNat

theorem not_fits {sizeKB : UInt32} {block : MemoryBlock} :
    ¬Fits sizeKB block ↔ block.type ≠ .free ∨ block.size < sizeKB := by
  rw [Fits, not_and_or, UInt32.not_le]

/-- The best candidate among the blocks that the loop has passed. -/
def Candidate (algorithm : AllocAlgorithm) (sizeKB : UInt32) (passed : List MemoryBlock) :
    Option (ℕ × MemoryBlock) → Prop
  | none => ∀ block ∈ passed, ¬Fits sizeKB block
  | some (i, it) => algorithm ≠ .firstFit ∧ ∃ l r, passed = l ++ it :: r ∧ l.length = i ∧
      FirstBest (Fits sizeKB) (policyRank algorithm) l it r

def Found (algorithm : AllocAlgorithm) (sizeKB : UInt32) (blocks : List MemoryBlock) :
    Option ℕ → Prop
  | none => ∀ block ∈ blocks, ¬Fits sizeKB block
  | some i => ∃ l it r, blocks = l ++ it :: r ∧ l.length = i ∧
      FirstBest (Fits sizeKB) (policyRank algorithm) l it r

section Loop

variable {algorithm : AllocAlgorithm} {sizeKB : UInt32} {passed : List MemoryBlock}
  {block it : MemoryBlock} {i : ℕ} {best : Option (ℕ × MemoryBlock)}

theorem Candidate.found (h : Candidate algorithm sizeKB passed best) :
    Found algorithm sizeKB passed (best.map Prod.fst) := by
  cases best with
  | none => exact h
  | some candidate =>
    obtain ⟨-, l, r, hpassed, hlength, hbest⟩ := h
    exact ⟨l, candidate.2, r, hpassed, hlength, hbest⟩

theorem Candidate.skip (h : Candidate algorithm sizeKB passed best)
    (hblock : ¬Fits sizeKB block) : Candidate algorithm sizeKB (passed ++ [block]) best := by
  cases best with
  | none =>
    intro x hx
    rcases List.mem_append.mp hx with hx | hx
    · exact h x hx
    · exact List.mem_singleton.mp hx ▸ hblock
  | some candidate =>
    obtain ⟨hne, l, r, rfl, hlength, hbest⟩ := h
    exact ⟨hne, l, r ++ [block], by simp, hlength, hbest.keep fun hfits => absurd hfits hblock⟩

theorem Candidate.keep (h : Candidate algorithm sizeKB passed (some (i, it)))
    (hle : policyRank algorithm it ≤ policyRank algorithm block) :
    Candidate algorithm sizeKB (passed ++ [block]) (some (i, it)) := by
  obtain ⟨hne, l, r, rfl, hlength, hbest⟩ := h
  exact ⟨hne, l, r ++ [block], by simp, hlength, hbest.keep fun _ => hle⟩

theorem Candidate.replace (h : Candidate algorithm sizeKB passed (some (i, it)))
    (hfits : Fits sizeKB block)
    (hlt : policyRank algorithm block < policyRank algorithm it) :
    Candidate algorithm sizeKB (passed ++ [block]) (some (passed.length, block)) := by
  obtain ⟨hne, l, r, rfl, hlength, hbest⟩ := h
  exact ⟨hne, _, [], rfl, rfl, hbest.replace hfits hlt⟩

/-- The two comparisons of the loop are one comparison of ranks. -/
theorem policyRank_lt (hne : algorithm ≠ .firstFit) :
    policyRank algorithm block < policyRank algorithm it ↔
      (algorithm = .bestFit ∧ block.size < it.size) ∨
        (algorithm = .worstFit ∧ it.size < block.size) := by
  cases algorithm with
  | firstFit => exact absurd rfl hne
  | bestFit => simp [policyRank, UInt32.lt_iff_toNat_lt]
  | worstFit => simp [policyRank, UInt32.lt_iff_toNat_lt]

theorem findFreeBlockLoop_found {rest : List MemoryBlock}
    (h : Candidate algorithm sizeKB passed best) :
    Found algorithm sizeKB (passed ++ rest)
      (findFreeBlockLoop algorithm sizeKB rest passed.length best) := by
  induction rest generalizing passed best with
  | nil =>
    rw [List.append_nil]
    exact h.found
  | cons block rest ih =>
    have hnext : ∀ {best'}, Candidate algorithm sizeKB (passed ++ [block]) best' →
        Found algorithm sizeKB (passed ++ block :: rest)
          (findFreeBlockLoop algorithm sizeKB rest (passed.length + 1) best') := by
      intro best' hbest'
      have hfound := ih hbest'
      rwa [List.append_assoc, List.length_append] at hfound
    rw [findFreeBlockLoop.eq_def]
    simp only
    by_cases hskip : block.type ≠ .free ∨ block.size < sizeKB
    · rw [if_pos hskip]
      exact hnext (h.skip (not_fits.mpr hskip))
    have hfits : Fits sizeKB block := not_not.mp fun hnot => hskip (not_fits.mp hnot)
    rw [if_neg hskip]
    cases best with
    | none =>
      by_cases hfirst : algorithm = .firstFit
      · -- the early return: no block counts as better than the first one
        rw [if_pos hfirst]
        have hrank : ∀ x, policyRank algorithm x = 0 := fun x => by rw [hfirst]; rfl
        exact ⟨passed, block, rest, rfl, rfl, hfits, fun x hx hx' => absurd hx' (h x hx),
          fun x _ _ => by rw [hrank, hrank]⟩
      · rw [if_neg hfirst]
        exact hnext ⟨hfirst, passed, [], rfl, rfl, .first h hfits⟩
    | some candidate =>
      obtain ⟨j, it⟩ := candidate
      have hne : algorithm ≠ .firstFit := h.1
      rw [if_neg hne]
      by_cases hlt : policyRank algorithm block < policyRank algorithm it
      · have hreplace := hnext (h.replace hfits hlt)
        rcases (policyRank_lt hne).mp hlt with hbetter | hbetter
        · simp only [if_pos hbetter]
          exact hreplace
        · simp only [hbetter, reduceCtorEq, false_and, if_false, and_self, if_true] at hreplace ⊢
          exact hreplace
      · have hkeep := hnext (h.keep (not_lt.mp hlt))
        rw [policyRank_lt hne, not_or] at hlt
        simp only [if_neg hlt.1, if_neg hlt.2]
        exact hkeep

end Loop

/-- The search ends at the first best of the FREE blocks that are large enough, if there is
one. -/
theorem findFreeBlock_found (m : MemoryManager) (sizeKB : UInt32) :
    Found m.algorithm sizeKB m.blocks (m.findFreeBlock sizeKB) :=
  @findFreeBlockLoop_found m.algorithm sizeKB [] none m.blocks fun _ hmem => by cases hmem

theorem findFreeBlock_spec {m : MemoryManager} {sizeKB : UInt32} {i : ℕ}
    (h : m.findFreeBlock sizeKB = some i) :
    ∃ block, m.blocks[i]? = some block ∧ block.type = .free ∧ sizeKB ≤ block.size := by
  have hfound := m.findFreeBlock_found sizeKB
  rw [h] at hfound
  obtain ⟨l, it, r, hblocks, rfl, hbest⟩ := hfound
  exact ⟨it, by simp [hblocks], hbest.here⟩

theorem findFreeBlock_eq_none {m : MemoryManager} {sizeKB : UInt32} :
    m.findFreeBlock sizeKB = none ↔ ∀ block ∈ m.blocks, ¬Fits sizeKB block := by
  have hfound := m.findFreeBlock_found sizeKB
  constructor
  · intro h
    rwa [h] at hfound
  · intro hnone
    cases h : m.findFreeBlock sizeKB with
    | none => rfl
    | some i =>
      rw [h] at hfound
      obtain ⟨l, it, r, hblocks, -, hbest⟩ := hfound
      exact absurd hbest.here (hnone it (by simp [hblocks]))

end MemoryManager

end OSCoreSim
