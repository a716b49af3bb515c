import OSCoreSim.Lib.Scan
import OSCoreSim.Util.Str
/-!
# Words of a line

The words that `operator>>` extracts are the tokens between `isSpace` characters, so the scans
over tokens apply to them.  The hand-written scanners know the separators `" \t\r\n"` only.
-/

namespace OSCoreSim

theorem isSpace_of_isSeparator {c : UInt8} (h : isSeparator c = true) : isSpace c = true := by
  have hcases : ((c = 32 ∨ c = 9) ∨ c = 13) ∨ c = 10 := by simpa [isSeparator] using h
  rcases hcases with ((rfl | rfl) | rfl) | rfl <;> decide

theorem isSeparator_of_not_isSpace {c : UInt8} (h : isSpace c = false) : isSeparator c = false := by
  by_contra hsep
  rw [Bool.not_eq_false] at hsep
  rw [isSpace_of_isSeparator hsep] at h
  cases h

/-! ## Texts and their words -/

theorem words_append_blank {s : Str} (hs : ∀ c ∈ s, isSpace c = true) (t : Str) :
    words (s ++ t) = words t := by
  induction s with
  | nil => rfl
  | cons c s ih =>
    rw [List.cons_append, words_space (hs c List.mem_cons_self)]
    exact ih fun d hmem => hs d (List.mem_cons_of_mem c hmem)

theorem words_blank {s : Str} (hs : ∀ c ∈ s, isSpace c = true) : words s = [] := by
  rw [← List.append_nil s, words_append_blank hs]
  rfl

theorem words_single {w : Str} (hne : w ≠ []) (hw : ∀ c ∈ w, isSpace c = false) :
    words w = [w] := by
  rw [← List.append_nil w, words_token hne hw (by simp), List.append_nil]
  rfl

theorem words_append_cons {d : UInt8} (hd : isSpace d = true) (s t : Str) :
    words (s ++ d :: t) = words s ++ words t := by
  induction hlength : s.length using Nat.strong_induction_on generalizing s with
  | _ n ih =>
    cases Scan.shape isSpace s with
    | blank hs => rw [words_append_blank hs, words_blank hs, words_space hd, List.nil_append]
    | @last s w hs hne hw =>
      rw [List.append_assoc, words_append_blank hs, words_append_blank hs, words_single hne hw,
        words_token hne hw (by simpa using hd), words_space hd]
      rfl
    | @token s w r e hs hne hw he =>
      have hrest : words (e :: r ++ d :: t) = words (e :: r) ++ words t := by
        refine ih (e :: r).length ?_ (e :: r) rfl
        have hpos := List.length_pos_iff.mpr hne
        rw [← hlength]
        simp only [List.length_append]
        omega
      rw [List.append_assoc, List.append_assoc, words_append_blank hs, words_append_blank hs,
        words_token hne hw (by simpa using he), List.cons_append, words_token hne hw (by simpa using he),
        ← List.cons_append, hrest, List.cons_append]

/-- A text in which no word reaches the end can be split off. -/
theorem words_append_closed {s : Str} (h : Scan.Closed isSpace s) (t : Str) :
    words (s ++ t) = words s ++ words t := by
  rcases List.eq_nil_or_concat s with rfl | ⟨r, d, rfl⟩
  · rfl
  · have hd : isSpace d = true := by simpa [Scan.Closed] using h
    rw [List.concat_eq_append, List.append_assoc, List.singleton_append, words_append_cons hd,
      words_append_cons hd, show words [] = [] from rfl, List.append_nil]

/-! ## Scans over words -/

theorem words_dropWhile (s : Str) : words (s.dropWhile isSpace) = words s := by
  have hsplit := List.takeWhile_append_dropWhile (p := isSpace) (l := s)
  conv_rhs => rw [← hsplit, words_append_blank fun c => List.mem_takeWhile_imp]

theorem words_skipToken (s : Str) : words (Scan.skipToken isSpace s) = (words s).tail := by
  rw [words_eq s, Scan.skipToken, extractToken]
  cases s.dropWhile isSpace with
  | nil => rfl
  | cons c cs => rfl

theorem words_skipTokens (n : ℕ) (s : Str) :
    words (Scan.skipTokens isSpace n s) = (words s).drop n := by
  induction n generalizing s with
  | zero => exact words_dropWhile s
  | succ n ih =>
    rw [Scan.skipTokens, ih, words_skipToken, List.drop_tail]

/-- A line with words: spaces, the first word, and a rest that does not go on with it. -/
theorem exists_first_word {line token : Str} {more : List Str} (h : words line = token :: more) :
    ∃ s t, line = s ++ (token ++ t) ∧ (∀ c ∈ s, isSpace c = true) ∧ token ≠ [] ∧
      (∀ c ∈ token, isSpace c = false) ∧ ∀ c ∈ t.head?, isSpace c = true := by
  cases Scan.shape isSpace line with
  | blank hs =>
    rw [words_blank hs] at h
    cases h
  | @last s w hs hne hw =>
    rw [words_append_blank hs, words_single hne hw] at h
    obtain ⟨rfl, -⟩ := List.cons.inj h
    exact ⟨s, [], by rw [List.append_nil], hs, hne, hw, by simp⟩
  | @token s w t d hs hne hw hd =>
    have hspace : ∀ c ∈ (d :: t).head?, isSpace c = true := by simpa using hd
    rw [words_append_blank hs, words_token hne hw hspace] at h
    obtain ⟨rfl, -⟩ := List.cons.inj h
    exact ⟨s, d :: t, rfl, hs, hne, hw, hspace⟩

theorem exists_word {s token : Str} {more : List Str} (h : words s = token :: more)
    (hstart : s.dropWhile isSpace = s) :
    ∃ c cs rest, isSpace c = false ∧ token = c :: cs ∧ s = token ++ rest := by
  obtain ⟨blank, t, rfl, hblank, hne, hw, -⟩ := exists_first_word h
  obtain ⟨c, cs, rfl⟩ := List.exists_cons_of_ne_nil hne
  rw [List.dropWhile_append_of_pos hblank, Scan.dropWhile_token hne hw] at hstart
  exact ⟨c, cs, t, hw c List.mem_cons_self, rfl, hstart.symm⟩

theorem isSpace_of_mem_words {s token : Str} (h : token ∈ words s) :
    token ≠ [] ∧ ∀ c ∈ token, isSpace c = false := by
  induction hlength : s.length using Nat.strong_induction_on generalizing s with
  | _ n ih =>
    cases Scan.shape isSpace s with
    | blank hs =>
      rw [words_blank hs] at h
      cases h
    | @last s w hs hne hw =>
      rw [words_append_blank hs, words_single hne hw, List.mem_singleton] at h
      exact h ▸ ⟨hne, hw⟩
    | @token s w r e hs hne hw he =>
      rw [words_append_blank hs, words_token hne hw (by simpa using he), words_space he] at h
      rcases List.mem_cons.mp h with rfl | hmem
      · exact ⟨hne, hw⟩
      · refine ih r.length ?_ hmem rfl
        rw [← hlength]
        simp only [List.length_append, List.length_cons]
        omega

end OSCoreSim
