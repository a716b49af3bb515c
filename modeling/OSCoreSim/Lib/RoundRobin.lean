import Mathlib.Tactic.Common
import Mathlib.Data.List.Nodup
import Mathlib.Data.Nat.Init
/-!
# Round robin

A queue is served at its head.  The served entry goes to the tail, or leaves the queue
together with any other entries; nothing else enters.  Between two services of one entry every
other entry is served exactly once, unless it leaves before its turn.
-/

namespace RoundRobin

variable {α : Type*} [DecidableEq α]

inductive Serves : List α → List α → Prop
  | rotate (a : α) (rest : List α) : Serves (a :: rest) (rest ++ [a])
  | leave (a : α) (rest gone : List α) (h : a ∈ gone) :
      Serves (a :: rest) ((a :: rest).filter (· ∉ gone))

variable {l l' : List α} {a p r : α}

theorem Serves.subset (h : Serves l l') : l' ⊆ l := by
  cases h with
  | rotate a rest =>
    intro x hx
    simpa [or_comm] using hx
  | leave a rest gone h => exact List.filter_subset_self _

theorem Serves.nodup (h : Serves l l') (hnodup : l.Nodup) : l'.Nodup := by
  cases h with
  | rotate a rest => exact (List.perm_append_singleton a rest).nodup_iff.mpr hnodup
  | leave a rest gone h => exact hnodup.filter _

/-- The entries in front of `p` after one service of another entry that lets `p` stay. -/
theorem Serves.split {front back : List α} (h : Serves (a :: front ++ p :: back) l') (hp : p ∈ l') :
    ∃ front' back', l' = front' ++ p :: back' ∧ front' ⊆ front ∧
      ∀ r ∈ front, r ∈ l' → r ∈ front' := by
  cases h with
  | rotate => exact ⟨front, back ++ [a], by simp, List.Subset.refl _, fun r hr _ => hr⟩
  | leave _ _ gone ha =>
    have hstay : p ∉ gone := by simpa using (List.mem_filter.mp hp).2
    refine ⟨front.filter (· ∉ gone), back.filter (· ∉ gone), by simp [ha, hstay],
      List.filter_subset_self _, fun r hr hr' => ?_⟩
    exact List.mem_filter.mpr ⟨hr, (List.mem_filter.mp hr').2⟩

/-! ## A cycle of services -/

/-- `r` waits in front of `p` and has not been served since time `i`. -/
def Waits (queue : ℕ → List α) (i m : ℕ) (p r : α) : Prop :=
  (∃ front back, queue m = front ++ p :: back ∧ r ∈ front) ∧
    ∀ t, i < t → t < m → (queue t).head? ≠ some r

/-- `r` has been served once since time `i` and is not in front of `p`. -/
def Served (queue : ℕ → List α) (i m : ℕ) (p r : α) : Prop :=
  (∃ front back, queue m = front ++ p :: back ∧ r ∉ front) ∧
    ∃! t, i < t ∧ t < m ∧ (queue t).head? = some r

def Left (queue : ℕ → List α) (i m : ℕ) (r : α) : Prop :=
  ∃ t, i ≤ t ∧ t < m ∧ r ∈ queue t ∧ r ∉ queue (t + 1) ∧
    ∀ t', i < t' → t' ≤ t → (queue t').head? ≠ some r

variable {queue : ℕ → List α} {i j m : ℕ}

theorem nodup_of_serves (hnodup : (queue i).Nodup)
    (hserves : ∀ m, i ≤ m → m < j → Serves (queue m) (queue (m + 1))) :
    ∀ m, i ≤ m → m ≤ j → (queue m).Nodup := by
  intro m him
  induction m, him using Nat.le_induction with
  | base => exact fun _ => hnodup
  | succ m him ih => exact fun hmj => (hserves m him (by omega)).nodup (ih (by omega))

theorem subset_of_serves (hserves : ∀ m, i ≤ m → m < j → Serves (queue m) (queue (m + 1)))
    {m t : ℕ} (him : i ≤ m) (hmt : m ≤ t) : t ≤ j → queue t ⊆ queue m := by
  induction t, hmt using Nat.le_induction with
  | base => exact fun _ => List.Subset.refl _
  | succ t hmt ih =>
    exact fun htj => List.Subset.trans (hserves t (by omega) (by omega)).subset (ih (by omega))

theorem cycle_start (hserves : Serves (queue i) (queue (i + 1))) (hi : (queue i).head? = some p)
    (hp : p ∈ queue (i + 1)) (hr : r ∈ queue i) (hne : r ≠ p) : Waits queue i (i + 1) p r := by
  obtain ⟨rest, hqueue⟩ := List.head?_eq_some_iff.mp hi
  rw [hqueue] at hserves hr
  have hrest : r ∈ rest := (List.mem_cons.mp hr).resolve_left hne
  generalize hnew : queue (i + 1) = new at hserves hp
  cases hserves with
  | rotate => exact ⟨⟨rest, [], hnew, hrest⟩, fun t hit hti => absurd hti (by omega)⟩
  | leave _ _ gone hgone => simp [hgone] at hp

theorem cycle_step (him : i < m) (hnodup : (queue m).Nodup)
    (hserves : Serves (queue m) (queue (m + 1)))
    (hp : p ∈ queue (m + 1)) (hhead : (queue m).head? ≠ some p)
    (h : Waits queue i m p r ∨ Served queue i m p r ∨ Left queue i m r) :
    Waits queue i (m + 1) p r ∨ Served queue i (m + 1) p r ∨ Left queue i (m + 1) r := by
  rcases h with ⟨⟨front, back, hsplit, hr⟩, hnot⟩ | ⟨⟨front, back, hsplit, hr⟩, hserved⟩ |
    ⟨t, hit, htm, hleft⟩
  · obtain ⟨a, front, rfl⟩ := List.exists_cons_of_ne_nil (List.ne_nil_of_mem hr)
    have hfirst : (queue m).head? = some a := by simp [hsplit]
    rw [hsplit] at hserves hnodup
    obtain ⟨front', back', hsplit', hsub, hkept⟩ := hserves.split hp
    rcases List.mem_cons.mp hr with rfl | hrest
    · -- the turn of `r`
      have hnotin : r ∉ front' := fun hmem => by
        have hdup := (List.nodup_cons.mp hnodup).1
        exact hdup (List.mem_append_left _ (hsub hmem))
      refine .inr (.inl ⟨⟨front', back', hsplit', hnotin⟩, m, ⟨him, Nat.lt_succ_self m, hfirst⟩, ?_⟩)
      rintro t ⟨hit, htm, ht⟩
      by_contra hne
      exact hnot t hit (by omega) ht
    · have hne : (queue m).head? ≠ some r := by
        rw [hfirst]
        intro heq
        cases heq
        exact (List.nodup_cons.mp hnodup).1 (List.mem_append_left _ hrest)
      have hnot' : ∀ t, i < t → t ≤ m → (queue t).head? ≠ some r := by
        intro t hit htm
        rcases Nat.lt_or_eq_of_le htm with hlt | rfl
        · exact hnot t hit hlt
        · exact hne
      by_cases hstay : r ∈ queue (m + 1)
      · exact .inl ⟨⟨front', back', hsplit', hkept r hrest hstay⟩,
          fun t hit htm => hnot' t hit (by omega)⟩
      · refine .inr (.inr ⟨m, by omega, Nat.lt_succ_self m, ?_, hstay, hnot'⟩)
        rw [hsplit]
        exact List.mem_append_left _ (List.mem_cons_of_mem a hrest)
  · cases front with
    | nil => exact absurd (by simp [hsplit]) hhead
    | cons a front =>
      have hfirst : (queue m).head? = some a := by simp [hsplit]
      rw [List.mem_cons, not_or] at hr
      rw [hsplit] at hserves
      obtain ⟨front', back', hsplit', hsub, -⟩ := hserves.split hp
      obtain ⟨t, ⟨hit, htm, ht⟩, honly⟩ := hserved
      refine .inr (.inl ⟨⟨front', back', hsplit', fun hmem => hr.2 (hsub hmem)⟩, t,
        ⟨hit, by omega, ht⟩, ?_⟩)
      rintro t' ⟨hit', htm', ht'⟩
      by_cases htop : t' = m
      · rw [htop, hfirst] at ht'
        exact absurd (Option.some.inj ht').symm hr.1
      · exact honly t' ⟨hit', by omega, ht'⟩
  · exact .inr (.inr ⟨t, hit, by omega, hleft⟩)

/-- Between two services of `p` every other entry is served exactly once, or leaves before. -/
theorem served_once (queue : ℕ → List α) (hnodup : (queue i).Nodup)
    (hserves : ∀ m, i ≤ m → m < j → Serves (queue m) (queue (m + 1))) (hij : i < j)
    (hi : (queue i).head? = some p) (hj : (queue j).head? = some p)
    (hnext : ∀ m, i < m → m < j → (queue m).head? ≠ some p) (hr : r ∈ queue i) (hne : r ≠ p) :
    (∃! m, i < m ∧ m < j ∧ (queue m).head? = some r) ∨ Left queue i j r := by
  have hnodups := nodup_of_serves hnodup hserves
  have hp : ∀ m, i ≤ m → m ≤ j → p ∈ queue m := fun m him hmj =>
    subset_of_serves hserves him hmj (Nat.le_refl j) (List.mem_of_head? hj)
  have hcycle : ∀ m, i + 1 ≤ m → m ≤ j →
      Waits queue i m p r ∨ Served queue i m p r ∨ Left queue i m r := by
    intro m him
    induction m, him using Nat.le_induction with
    | base =>
      intro hle
      exact .inl (cycle_start (hserves i (Nat.le_refl i) hij) hi (hp _ (by omega) hle) hr hne)
    | succ m him ih =>
      intro hmj
      exact cycle_step (by omega) (hnodups m (by omega) (by omega))
        (hserves m (by omega) (by omega)) (hp _ (by omega) hmj) (hnext m (by omega) (by omega))
        (ih (by omega))
  rcases hcycle j (by omega) (Nat.le_refl j) with
    ⟨⟨front, back, hsplit, hmem⟩, -⟩ | ⟨-, hserved⟩ | hleft
  · -- at its second service `p` is at the head
    obtain ⟨a, front, rfl⟩ := List.exists_cons_of_ne_nil (List.ne_nil_of_mem hmem)
    have hlast := hnodups j (by omega) (Nat.le_refl j)
    rw [hsplit] at hlast hj
    cases hj
    exact absurd (List.mem_append_right front List.mem_cons_self) (List.nodup_cons.mp hlast).1
  · exact .inl hserved
  · exact .inr hleft

end RoundRobin
