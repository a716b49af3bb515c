import Mathlib.Data.List.Basic
import Mathlib.Tactic.Common
import Mathlib.Algebra.Group.Nat.Defs
/-!
# Byte strings

`std::string` is a sequence of arbitrary bytes, so the model keeps every name,
command line, file content and message as a `List UInt8`.  The character
classes are those of the C locale, and `words` is the `stream >> token` loop of
an `std::istringstream`.
-/

namespace OSCoreSim

abbrev Str := List UInt8

/-- The bytes of a source literal (the sources are compiled with `/utf-8`). -/
def str (s : String) : Str := s.toUTF8.data.toList

/-- `std::to_string` of an unsigned value. -/
def decimal (n : Nat) : Str := str (toString n)

/-- `output << value` of an `int`. -/
def decimalInt (i : Int32) : Str := str (toString i.toInt)

def boolText (b : Bool) : Str := if b then str "true" else str "false"

/-- `std::left << std::setw(width) << s`. -/
def setw (width : Nat) (s : Str) : Str := s ++ List.replicate (width - s.length) 32

/-- The trailing newline that the listings remove with `result.pop_back()`. -/
def popNewline (s : Str) : Str := if s.getLast? = some 10 then s.dropLast else s

/-! ## Character classes -/

def isDigit (c : UInt8) : Bool := 48 ≤ c && c ≤ 57

def isUpper (c : UInt8) : Bool := 65 ≤ c && c ≤ 90

def isLower (c : UInt8) : Bool := 97 ≤ c && c ≤ 122

def isAlnum (c : UInt8) : Bool := isDigit c || isUpper c || isLower c

/-- `std::isspace`: space, tab, newline, vertical tab, form feed, carriage return. -/
def isSpace (c : UInt8) : Bool := c == 32 || (9 ≤ c && c ≤ 13)

/-- Membership in the separator set `" \t\r\n"` of the hand-written scanners. -/
def isSeparator (c : UInt8) : Bool := c == 32 || c == 9 || c == 13 || c == 10

def toLower (s : Str) : Str := s.map fun c => if isUpper c then c + 32 else c

def toUpper (s : Str) : Str := s.map fun c => if isLower c then c - 32 else c

/-! ## Stream extraction -/

/-- `stream >> token`: the token and the unread rest of the stream. -/
def extractToken (s : Str) : Option (Str × Str) :=
  match s.dropWhile isSpace with
  | [] => none
  | rest => some (rest.takeWhile (!isSpace ·), rest.dropWhile (!isSpace ·))

def wordsUpTo : Nat → Str → List Str
  | 0, _ => []
  | n + 1, s =>
    match extractToken s with
    | none => []
    | some (token, rest) => token :: wordsUpTo n rest

/-- `while (stream >> token)`: every token takes at least one byte. -/
def words (s : Str) : List Str := wordsUpTo s.length s

theorem dropWhile_length_le {α : Type} (p : α → Bool) (l : List α) :
    (l.dropWhile p).length ≤ l.length :=
  (List.dropWhile_suffix p).length_le

theorem extractToken_rest_lt {s token rest : Str}
    (h : extractToken s = some (token, rest)) : rest.length < s.length := by
  unfold extractToken at h
  split at h
  · exact absurd h (by simp)
  · next t hne =>
    obtain ⟨c, cs, hc⟩ : ∃ c cs, s.dropWhile isSpace = c :: cs := by
      cases hs : s.dropWhile isSpace with
      | nil => exact absurd hs hne
      | cons c cs => exact ⟨c, cs, rfl⟩
    have hspace : isSpace c = false := by
      have := List.head?_dropWhile_not isSpace s
      rw [hc] at this
      simpa using this
    have hle : (c :: cs).length ≤ s.length := hc ▸ dropWhile_length_le isSpace s
    have hdrop := dropWhile_length_le (!isSpace ·) cs
    simp only [hc, Option.some.injEq, Prod.mk.injEq] at h
    rw [← h.2]
    simp only [List.dropWhile_cons, hspace, List.length_cons] at hle ⊢
    simp only [Bool.not_false, if_true]
    omega

/-- Fuel beyond the length of the stream changes nothing. -/
theorem wordsUpTo_congr {n m : Nat} {s : Str} (hn : s.length ≤ n) (hm : s.length ≤ m) :
    wordsUpTo n s = wordsUpTo m s := by
  induction n generalizing m s with
  | zero =>
    have hs : s = [] := List.length_eq_zero_iff.mp (by omega)
    cases m <;> simp [hs, wordsUpTo, extractToken]
  | succ n ih =>
    cases m with
    | zero =>
      have hs : s = [] := List.length_eq_zero_iff.mp (by omega)
      simp [hs, wordsUpTo, extractToken]
    | succ m =>
      simp only [wordsUpTo]
      cases htok : extractToken s with
      | none => rfl
      | some p =>
        have hlt := extractToken_rest_lt htok
        simp only [List.cons.injEq, true_and]
        exact ih (by omega) (by omega)

theorem words_eq (s : Str) :
    words s = match extractToken s with
      | none => []
      | some (token, rest) => token :: words rest := by
  cases hs : s.length with
  | zero => rw [List.length_eq_zero_iff.mp hs]; rfl
  | succ n =>
    conv_lhs => rw [words, hs, wordsUpTo]
    cases htok : extractToken s with
    | none => rfl
    | some p =>
      have hlt := extractToken_rest_lt htok
      simp only [List.cons.injEq, true_and]
      exact wordsUpTo_congr (by omega) (Nat.le_refl _)

theorem words_space {c : UInt8} (h : isSpace c = true) (s : Str) : words (c :: s) = words s := by
  have hskip : extractToken (c :: s) = extractToken s := by
    simp only [extractToken, List.dropWhile_cons, h, if_true]
  rw [words_eq, words_eq s, hskip]

theorem words_token {token rest : Str} (hne : token ≠ []) (htoken : ∀ c ∈ token, isSpace c = false)
    (hrest : ∀ c ∈ rest.head?, isSpace c = true) : words (token ++ rest) = token :: words rest := by
  have hplain : ∀ c ∈ token, (!isSpace c) = true := fun c hmem => by simp [htoken c hmem]
  have hstart : (token ++ rest).dropWhile isSpace = token ++ rest := by
    cases token with
    | nil => exact absurd rfl hne
    | cons c cs =>
      have hc := htoken c List.mem_cons_self
      rw [List.cons_append, List.dropWhile_cons, if_neg (by simp [hc])]
  have hend : rest.takeWhile (!isSpace ·) = [] ∧ rest.dropWhile (!isSpace ·) = rest := by
    cases rest with
    | nil => exact ⟨rfl, rfl⟩
    | cons c cs =>
      have hc := hrest c rfl
      simp [hc]
  have htok : extractToken (token ++ rest) = some (token, rest) := by
    unfold extractToken
    rw [hstart]
    split
    next hnil => exact absurd (List.append_eq_nil_iff.mp hnil).1 hne
    next =>
      rw [List.takeWhile_append_of_pos hplain, List.dropWhile_append_of_pos hplain, hend.1, hend.2,
        List.append_nil]
  rw [words_eq, htok]

/-! ## Numbers in command arguments -/

def digitsValue (ds : Str) : Nat := ds.foldl (fun n c => n * 10 + (c.toNat - 48)) 0

/-- `std::from_chars` into an `unsigned long long`: the value and the unread rest. -/
def fromCharsUInt64 (s : Str) : Option (Nat × Str) :=
  match s.takeWhile isDigit with
  | [] => none
  | ds =>
    if digitsValue ds < 2 ^ 64 then some (digitsValue ds, s.dropWhile isDigit) else none

/-- `std::from_chars` into an `int`, which also reads a leading minus sign. -/
def fromCharsInt32 (s : Str) : Option (Int × Str) :=
  let negative := s.head? = some 45
  let digits := if negative then s.tail else s
  match digits.takeWhile isDigit with
  | [] => none
  | ds =>
    let value : Int := if negative then -(digitsValue ds : Int) else digitsValue ds
    if -2147483648 ≤ value ∧ value ≤ 2147483647 then
      some (value, digits.dropWhile isDigit)
    else none

def parseUint32Strict (text : Str) : Option UInt32 :=
  if text = [] then none
  else match fromCharsUInt64 text with
    | some (parsed, []) => if 4294967295 < parsed then none else some (UInt32.ofNat parsed)
    | _ => none

def parseIntStrict (text : Str) : Option Int32 :=
  if text = [] then none
  else match fromCharsInt32 text with
    | some (parsed, []) => some (Int32.ofInt parsed)
    | _ => none

/-! ## Decimal texts -/

theorem str_injective : Function.Injective str := by
  intro s t h
  have hdata : s.toUTF8.data = t.toUTF8.data := Array.toList_inj.mp h
  exact String.toByteArray_inj.mp (ByteArray.ext hdata)

theorem decimal_injective : Function.Injective decimal := by
  intro n m h
  have hrepr : String.ofList (Nat.toDigits 10 n) = .ofList (Nat.toDigits 10 m) := str_injective h
  have hdigits := String.ofList_inj.mp hrepr
  rw [← Nat.ofDigitChars_ten_toDigits (n := n), hdigits, Nat.ofDigitChars_ten_toDigits]

theorem utf8EncodeChar_digit {c : Char} (h : c.isDigit = true) :
    ∃ byte, String.utf8EncodeChar c = [byte] ∧ isDigit byte = true := by
  have hrange : 48 ≤ c.val.toNat ∧ c.val.toNat ≤ 57 := by
    simpa [Char.isDigit, UInt32.le_iff_toNat_le] using h
  have hsmall : c.val.toNat % 256 = c.val.toNat := Nat.mod_eq_of_lt (by omega)
  refine ⟨UInt8.ofNat c.val.toNat, if_pos (by omega), ?_⟩
  simp only [isDigit, UInt8.le_iff_toNat_le, UInt8.toNat_ofNat', Bool.and_eq_true,
    decide_eq_true_eq, hsmall]
  exact hrange

theorem decimal_eq_flatMap (n : Nat) :
    decimal n = (Nat.toDigits 10 n).flatMap String.utf8EncodeChar := by
  show (String.ofList (Nat.toDigits 10 n)).toUTF8.data.toList = _
  simp [List.utf8Encode]

theorem isDigit_of_mem_decimal {n : Nat} : ∀ c ∈ decimal n, isDigit c = true := by
  intro c hmem
  rw [decimal_eq_flatMap, List.mem_flatMap] at hmem
  obtain ⟨digit, hdigit, hc⟩ := hmem
  obtain ⟨byte, hone, his⟩ :=
    utf8EncodeChar_digit (Nat.isDigit_of_mem_toDigits (by decide) (by decide) hdigit)
  rw [hone, List.mem_singleton] at hc
  exact hc ▸ his

theorem length_decimal_le {n k : Nat} (hk : 0 < k) (h : n < 10 ^ k) : (decimal n).length ≤ k := by
  have hchars : (Nat.toDigits 10 n).length ≤ k := (Nat.length_toDigits_le_iff (by decide) hk).mpr h
  have hbytes : (decimal n).length = (Nat.toDigits 10 n).length := by
    rw [decimal_eq_flatMap, List.length_flatMap]
    have hone : (Nat.toDigits 10 n).map (fun c => (String.utf8EncodeChar c).length) =
        (Nat.toDigits 10 n).map fun _ => 1 := by
      refine List.map_congr_left fun c hmem => ?_
      obtain ⟨byte, hbyte, -⟩ :=
        utf8EncodeChar_digit (Nat.isDigit_of_mem_toDigits (by decide) (by decide) hmem)
      rw [hbyte]
      rfl
    rw [hone]
    simp
  omega

/-- A number is read up to the next character that is no digit. -/
theorem takeWhile_decimal {n : Nat} {rest : Str} (hrest : ∀ c ∈ rest.head?, isDigit c = false) :
    (decimal n ++ rest).takeWhile isDigit = decimal n := by
  have hend : rest.takeWhile isDigit = [] := by
    cases rest with
    | nil => rfl
    | cons c cs => simp [hrest c rfl]
  rw [List.takeWhile_append_of_pos isDigit_of_mem_decimal, hend, List.append_nil]

/-- A text behind a column of seven characters that can be told from the number in the column. -/
def Apart (n : Nat) (text : Str) : Prop := n < 1000000 ∨ ∀ c ∈ text.head?, isDigit c = false

instance (n : Nat) (text : Str) : Decidable (Apart n text) := inferInstanceAs (Decidable (_ ∨ _))

theorem column_inj {n m : Nat} {a b : Str} (ha : Apart n a) (hb : Apart m b)
    (h : setw 7 (decimal n) ++ a = setw 7 (decimal m) ++ b) : n = m ∧ a = b := by
  have hread : ∀ {n : Nat} {a : Str}, Apart n a →
      (setw 7 (decimal n) ++ a).takeWhile isDigit = decimal n := by
    intro n a hapart
    rw [setw, List.append_assoc]
    apply takeWhile_decimal
    intro c hc
    cases hpad : 7 - (decimal n).length with
    | zero =>
      rw [hpad] at hc
      refine hapart.resolve_left (fun hsmall => ?_) c hc
      have hlength := length_decimal_le (k := 6) (by decide) hsmall
      omega
    | succ k =>
      rw [hpad] at hc
      cases hc
      decide
  have heq : n = m := by
    apply decimal_injective
    rw [← hread ha, h, hread hb]
  rw [heq] at h
  exact ⟨heq, List.append_cancel_left h⟩

/-! ## Texts of lines -/

theorem popNewline_append (s : Str) : popNewline (s ++ [10]) = s := by simp [popNewline]

theorem append_line_inj {a b rest rest' : Str} (ha : (10 : UInt8) ∉ a) (hb : (10 : UInt8) ∉ b)
    (h : a ++ ([10] ++ rest) = b ++ ([10] ++ rest')) : a = b ∧ rest = rest' := by
  induction a generalizing b with
  | nil =>
    cases b with
    | nil => exact ⟨rfl, (List.cons.inj h).2⟩
    | cons d b => exact absurd ((List.cons.inj h).1 ▸ List.mem_cons_self) hb
  | cons c a ih =>
    cases b with
    | nil => exact absurd ((List.cons.inj h).1 ▸ List.mem_cons_self) ha
    | cons d b =>
      obtain ⟨hcd, htail⟩ := List.cons.inj h
      obtain ⟨hab, hrest⟩ := ih (fun hmem => ha (List.mem_cons_of_mem c hmem))
        (fun hmem => hb (List.mem_cons_of_mem d hmem)) htail
      exact ⟨by rw [hcd, hab], hrest⟩

/-- Texts whose corresponding parts are equal or single lines are equal only part by part. -/
theorem flatMap_lines {α : Type} {r : α → α → Prop} {line : α → Str} {xs ys : List α}
    (hline : ∀ x y, r x y → line x = line y ∨
      ∃ a b, (10 : UInt8) ∉ a ∧ (10 : UInt8) ∉ b ∧ line x = a ++ [10] ∧ line y = b ++ [10])
    (h : List.Forall₂ r xs ys) {rest rest' : Str}
    (heq : xs.flatMap line ++ rest = ys.flatMap line ++ rest') :
    List.Forall₂ (fun x y => line x = line y) xs ys ∧ rest = rest' := by
  induction h with
  | nil => exact ⟨.nil, heq⟩
  | @cons x y xs ys hxy _ ih =>
    simp only [List.flatMap_cons, List.append_assoc] at heq
    rcases hline x y hxy with hsame | ⟨a, b, ha, hb, hx, hy⟩
    · rw [hsame] at heq
      obtain ⟨hrows, hrest⟩ := ih (List.append_cancel_left heq)
      exact ⟨.cons hsame hrows, hrest⟩
    · rw [hx, hy, List.append_assoc, List.append_assoc] at heq
      obtain ⟨hab, htail⟩ := append_line_inj ha hb heq
      obtain ⟨hrows, hrest⟩ := ih htail
      exact ⟨.cons (by rw [hx, hy, hab]) hrows, hrest⟩

/-! ## 32-bit counters -/

theorem toNat_pos {value : UInt32} (h : value ≠ 0) : 0 < value.toNat :=
  Nat.pos_of_ne_zero fun hzero => h (UInt32.toNat_inj.mp hzero)

theorem toNat_add_of_lt {a b : UInt32} (h : a.toNat + b.toNat < 2 ^ 32) :
    (a + b).toNat = a.toNat + b.toNat := by
  rw [UInt32.toNat_add, Nat.mod_eq_of_lt h]

/-- The clamp of the imported counters leaves a positive one as it is. -/
theorem max_one_of_pos {value : UInt32} (h : 0 < value.toNat) : max value 1 = value := by
  show (if value ≤ 1 then 1 else value) = value
  split
  next hle =>
    have hle' := UInt32.le_iff_toNat_le.mp hle
    have hone : (1 : UInt32).toNat = 1 := rfl
    exact UInt32.toNat_inj.mp (by omega)
  next => rfl

/-! ## Floating point output -/

/-- The three places where a `double` reaches the output.  Their arithmetic is not
modelled; the texts are functions of the integers they are computed from. -/
structure FloatFormat where
  /-- two digits of the external fragmentation rate, from the largest and the total free size -/
  fragmentationText : UInt32 → UInt32 → Str
  /-- two digits of `percentOf(value, total)` -/
  percentText : UInt32 → UInt32 → Str
  /-- the number of filled cells of `progressBar(value, total, width)`, before clamping -/
  progressFilled : UInt32 → UInt32 → Nat → Nat

end OSCoreSim
