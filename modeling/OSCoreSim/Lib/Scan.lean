import Mathlib.Data.List.DropRight
import Mathlib.Tactic.Common
/-!
# Scanning over tokens

A hand-written scanner skips one token by two searches, past the separators and then past
everything else, and repeats this for the next one.  `tokenCount` counts the maximal runs
without separators.  `skipTokens_append_eq_iff` says when a scan over `n` tokens stops at a
given place: exactly when `n` tokens end before it.
-/

namespace Scan

variable {α : Type*} (sep : α → Bool)

def skipToken (s : List α) : List α := (s.dropWhile sep).dropWhile (!sep ·)

/-- The start of the token behind `n` tokens. -/
def skipTokens : ℕ → List α → List α
  | 0, s => s.dropWhile sep
  | n + 1, s => skipTokens n (skipToken sep s)

/-- The number of tokens, each counted at its last character. -/
def tokenCount : List α → ℕ
  | [] => 0
  | c :: s => (if !sep c && s.head?.all sep then 1 else 0) + tokenCount s

def Closed (s : List α) : Prop := s.getLast?.all sep = true

instance (s : List α) : Decidable (Closed sep s) := inferInstanceAs (Decidable (_ = true))

/-- What a scan finds in front of it: no token, a token up to the end, or a token and a
separator behind it. -/
inductive Shape : List α → Prop
  | blank {s : List α} (hs : ∀ c ∈ s, sep c = true) : Shape s
  | last {s w : List α} (hs : ∀ c ∈ s, sep c = true) (hne : w ≠ [])
      (hw : ∀ c ∈ w, sep c = false) : Shape (s ++ w)
  | token {s w t : List α} {d : α} (hs : ∀ c ∈ s, sep c = true) (hne : w ≠ [])
      (hw : ∀ c ∈ w, sep c = false) (hd : sep d = true) : Shape (s ++ (w ++ d :: t))

variable {sep} {s t w pre cs : List α} {c : α} {n : ℕ}

theorem shape (sep : α → Bool) (s : List α) : Shape sep s := by
  have hspace : ∀ c ∈ s.takeWhile sep, sep c = true := fun c => List.mem_takeWhile_imp
  cases hrest : s.dropWhile sep with
  | nil => exact .blank (List.dropWhile_eq_nil_iff.mp hrest)
  | cons c cs =>
    have hc : sep c = false := by
      have hhead := List.head?_dropWhile_not sep s
      rw [hrest] at hhead
      simpa using hhead
    have hplain : ∀ d ∈ (c :: cs).takeWhile (!sep ·), sep d = false := fun d hmem => by
      simpa using List.mem_takeWhile_imp hmem
    have hne : (c :: cs).takeWhile (!sep ·) ≠ [] := by simp [hc]
    have hsplit := List.takeWhile_append_dropWhile (p := (!sep ·)) (l := c :: cs)
    rw [← List.takeWhile_append_dropWhile (p := sep) (l := s), hrest, ← hsplit]
    cases hend : (c :: cs).dropWhile (!sep ·) with
    | nil =>
      rw [List.append_nil]
      exact .last hspace hne hplain
    | cons d t =>
      have hd : sep d = true := by
        have hhead := List.head?_dropWhile_not (!sep ·) (c :: cs)
        rw [hend] at hhead
        simpa using hhead
      exact .token hspace hne hplain hd

/-! ## One token -/

theorem dropWhile_token (hne : w ≠ []) (hw : ∀ c ∈ w, sep c = false) (t : List α) :
    (w ++ t).dropWhile sep = w ++ t := by
  obtain ⟨c, cs, rfl⟩ := List.exists_cons_of_ne_nil hne
  simp [hw c List.mem_cons_self]

theorem skipToken_append_blank (hs : ∀ c ∈ s, sep c = true) (t : List α) :
    skipToken sep (s ++ t) = skipToken sep t := by
  rw [skipToken, List.dropWhile_append_of_pos hs]
  rfl

theorem skipToken_append_token (hne : w ≠ []) (hw : ∀ c ∈ w, sep c = false) (t : List α) :
    skipToken sep (w ++ t) = t.dropWhile (!sep ·) := by
  rw [skipToken, dropWhile_token hne hw, List.dropWhile_append_of_pos fun c hmem => by simp [hw c hmem]]

theorem skipToken_token (hs : ∀ c ∈ s, sep c = true) (hne : w ≠ [])
    (hw : ∀ c ∈ w, sep c = false) (hc : sep c = true) (t : List α) :
    skipToken sep (s ++ (w ++ c :: t)) = c :: t := by
  rw [skipToken_append_blank hs, skipToken_append_token hne hw]
  simp [hc]

theorem tokenCount_append_blank (hs : ∀ c ∈ s, sep c = true) (t : List α) :
    tokenCount sep (s ++ t) = tokenCount sep t := by
  induction s with
  | nil => rfl
  | cons c s ih =>
    rw [List.cons_append, tokenCount, ih fun d hmem => hs d (List.mem_cons_of_mem c hmem)]
    simp [hs c List.mem_cons_self]

theorem tokenCount_blank (hs : ∀ c ∈ s, sep c = true) : tokenCount sep s = 0 := by
  rw [← List.append_nil s, tokenCount_append_blank hs]
  rfl

theorem tokenCount_append_token (hne : w ≠ []) (hw : ∀ c ∈ w, sep c = false)
    (ht : t.head?.all sep = true) : tokenCount sep (w ++ t) = tokenCount sep t + 1 := by
  induction w with
  | nil => exact absurd rfl hne
  | cons c w ih =>
    have hc := hw c List.mem_cons_self
    cases w with
    | nil =>
      simp only [List.cons_append, List.nil_append, tokenCount, hc, ht]
      exact Nat.add_comm 1 _
    | cons d w =>
      have hd := hw d (List.mem_cons_of_mem c List.mem_cons_self)
      rw [List.cons_append, tokenCount, ih (List.cons_ne_nil d w) fun e hmem =>
        hw e (List.mem_cons_of_mem c hmem)]
      simp [hd]

theorem closed_append_cons (s t : List α) (c : α) :
    Closed sep (s ++ c :: t) ↔ Closed sep (c :: t) := by
  have hlast := List.getLast?_eq_some_getLast (List.cons_ne_nil c t)
  rw [Closed, Closed, List.getLast?_append, hlast, Option.some_or]

theorem closed_blank (hs : ∀ c ∈ s, sep c = true) : Closed sep s := by
  cases hlast : s.getLast? with
  | none => simp [Closed, hlast]
  | some c => simpa [Closed, hlast] using hs c (List.mem_of_getLast? hlast)

theorem not_closed_token (hne : w ≠ []) (hw : ∀ c ∈ w, sep c = false) (s : List α) :
    ¬Closed sep (s ++ w) := by
  have hlast := List.getLast?_eq_some_getLast hne
  simp [Closed, List.getLast?_append, hlast, hw _ (List.getLast_mem hne)]

/-! ## The place where a scan stops -/

theorem skipTokens_suffix (sep : α → Bool) (n : ℕ) (s : List α) : skipTokens sep n s <:+ s := by
  induction n generalizing s with
  | zero => exact List.dropWhile_suffix sep
  | succ n ih =>
    exact (ih _).trans ((List.dropWhile_suffix _).trans (List.dropWhile_suffix sep))

theorem dropWhile_skipTokens (sep : α → Bool) (n : ℕ) (s : List α) :
    (skipTokens sep n s).dropWhile sep = skipTokens sep n s := by
  induction n generalizing s with
  | zero => exact List.dropWhile_idempotent sep s
  | succ n ih => exact ih _

/-- A scan that has eaten the first character of a text does not stop in front of it. -/
theorem skipTokens_ne (hskip : skipToken sep s = cs.dropWhile (!sep ·)) (n : ℕ) (c : α) :
    skipTokens sep (n + 1) s ≠ c :: cs := by
  intro heq
  have hlength := (skipTokens_suffix sep n (skipToken sep s)).length_le
  have hrest := (List.dropWhile_suffix (l := cs) (!sep ·)).length_le
  rw [show skipTokens sep n (skipToken sep s) = c :: cs from heq, hskip] at hlength
  simp only [List.length_cons] at hlength
  omega

/-- A scan over `n` tokens stops in front of a token exactly when `n` tokens end before it. -/
theorem skipTokens_append_eq_iff (hc : sep c = false) :
    skipTokens sep n (pre ++ c :: cs) = c :: cs ↔ tokenCount sep pre = n ∧ Closed sep pre := by
  have hplain : ∀ d ∈ [c], sep d = false := fun d hmem => by rw [List.mem_singleton.mp hmem, hc]
  have hstart : (c :: cs).dropWhile sep = c :: cs := dropWhile_token (List.cons_ne_nil c []) hplain cs
  have heat : skipToken sep (c :: cs) = cs.dropWhile (!sep ·) :=
    skipToken_append_token (List.cons_ne_nil c []) hplain cs
  induction n generalizing pre with
  | zero =>
    show (pre ++ c :: cs).dropWhile sep = c :: cs ↔ _
    cases shape sep pre with
    | blank hs =>
      rw [List.dropWhile_append_of_pos hs, hstart]
      exact ⟨fun _ => ⟨tokenCount_blank hs, closed_blank hs⟩, fun _ => rfl⟩
    | @last s w hs hne hw =>
      rw [List.append_assoc, List.dropWhile_append_of_pos hs, dropWhile_token hne hw]
      refine ⟨fun heq => absurd (List.append_left_eq_self.mp heq) hne, fun h => ?_⟩
      exact absurd h.2 (not_closed_token hne hw s)
    | @token s w t d hs hne hw hd =>
      rw [List.append_assoc, List.append_assoc, List.dropWhile_append_of_pos hs,
        dropWhile_token hne hw, tokenCount_append_blank hs,
        tokenCount_append_token hne hw (by simpa using hd), ← List.append_assoc]
      refine ⟨fun heq => ?_, fun h => absurd h.1 (Nat.succ_ne_zero _)⟩
      exact absurd (List.append_eq_nil_iff.mp (List.append_left_eq_self.mp heq)).1 hne
  | succ n ih =>
    cases shape sep pre with
    | blank hs =>
      have hskip : skipToken sep (pre ++ c :: cs) = cs.dropWhile (!sep ·) := by
        rw [skipToken_append_blank hs, heat]
      refine ⟨fun heq => absurd heq (skipTokens_ne hskip n c), fun h => ?_⟩
      exact absurd ((tokenCount_blank hs).symm.trans h.1) (Nat.succ_ne_zero n).symm
    | @last s w hs hne hw =>
      have hskip : skipToken sep (s ++ w ++ c :: cs) = cs.dropWhile (!sep ·) := by
        rw [List.append_assoc, skipToken_append_blank hs, skipToken_append_token hne hw]
        simp [hc]
      refine ⟨fun heq => absurd heq (skipTokens_ne hskip n c), fun h => ?_⟩
      exact absurd h.2 (not_closed_token hne hw s)
    | @token s w t d hs hne hw hd =>
      have hskip : skipToken sep (s ++ (w ++ d :: t) ++ c :: cs) = d :: t ++ c :: cs := by
        rw [List.append_assoc, List.append_assoc]
        exact skipToken_token hs hne hw hd (t ++ c :: cs)
      have hrest : skipTokens sep n (d :: t ++ c :: cs) = c :: cs ↔
          tokenCount sep (d :: t) = n ∧ Closed sep (d :: t) := ih
      show skipTokens sep n (skipToken sep _) = c :: cs ↔ _
      rw [hskip, hrest, tokenCount_append_blank hs,
        tokenCount_append_token hne hw (by simpa using hd), ← List.append_assoc, closed_append_cons,
        Nat.add_right_cancel_iff]

end Scan
