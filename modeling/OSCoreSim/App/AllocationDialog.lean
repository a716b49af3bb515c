import OSCoreSim.App.MenuScript
import OSCoreSim.Kernel.Admission
/-!
# The allocation dialog

The dialog checks the name and the size of a block before it sends them.  What passes its checks
reaches the memory manager as it was typed, and there are three reasons left to refuse it: nobody
is logged in, the size does not fit into 32 bits, or no hole is large enough.
-/

namespace OSCoreSim

open CommandDispatcher MemoryManager

/-! ## Digits -/

theorem isSpace_of_isAlnum {c : UInt8} (h : isAlnum c = true) : isSpace c = false := by
  by_contra hspace
  rw [Bool.not_eq_false] at hspace
  have hlow : c.toNat ≤ 32 := by
    rcases Bool.or_eq_true_iff.mp hspace with heq | hrange
    · rw [eq_of_beq heq]
      decide
    · have hupper := of_decide_eq_true (Bool.and_eq_true_iff.mp hrange).2
      have hnat := UInt8.le_iff_toNat_le.mp hupper
      exact Nat.le_trans hnat (by decide)
  have hhigh : 48 ≤ c.toNat := by
    simp only [isAlnum, isDigit, isUpper, isLower, Bool.or_eq_true, Bool.and_eq_true,
      decide_eq_true_eq, UInt8.le_iff_toNat_le] at h
    have h48 : (48 : UInt8).toNat = 48 := rfl
    have h65 : (65 : UInt8).toNat = 65 := rfl
    have h97 : (97 : UInt8).toNat = 97 := rfl
    omega
  omega

theorem digitsValue_append (ds : Str) (c : UInt8) :
    digitsValue (ds ++ [c]) = digitsValue ds * 10 + (c.toNat - 48) := by
  simp [digitsValue]

theorem digitsValue_pos {ds : Str} (hdigits : ∀ c ∈ ds, isDigit c = true)
    (hzero : ¬∀ c ∈ ds, c = 48) : 0 < digitsValue ds := by
  induction ds using List.reverseRecOn with
  | nil => exact absurd (fun c hmem => by cases hmem) hzero
  | append_singleton ds c ih =>
    rw [digitsValue_append]
    by_cases hc : c = 48
    · have hrest : ¬∀ d ∈ ds, d = 48 := fun hall => hzero fun d hmem => by
        rcases List.mem_append.mp hmem with hmem | hmem
        · exact hall d hmem
        · rw [List.mem_singleton.mp hmem, hc]
      have hpos := ih (fun d hmem => hdigits d (List.mem_append_left _ hmem)) hrest
      omega
    · have hdigit := hdigits c (by simp)
      have hlow := of_decide_eq_true (Bool.and_eq_true_iff.mp hdigit).1
      have hnat : 48 ≤ c.toNat := UInt8.le_iff_toNat_le.mp hlow
      have hne : c.toNat ≠ 48 := fun heq => hc (UInt8.toNat_inj.mp heq)
      omega

theorem parseUint32Strict_digits {ds : Str} (hne : ds ≠ []) (hdigits : ∀ c ∈ ds, isDigit c = true) :
    parseUint32Strict ds =
      if digitsValue ds < 2 ^ 32 then some (UInt32.ofNat (digitsValue ds)) else none := by
  have htake : ds.takeWhile isDigit = ds := List.takeWhile_eq_self_iff.mpr hdigits
  have hdrop : ds.dropWhile isDigit = [] := List.dropWhile_eq_nil_iff.mpr hdigits
  rw [parseUint32Strict, if_neg hne, fromCharsUInt64, htake, hdrop]
  obtain ⟨c, cs, rfl⟩ := List.exists_cons_of_ne_nil hne
  dsimp only
  by_cases hsmall : digitsValue (c :: cs) < 2 ^ 32
  · rw [if_pos (by omega), if_pos hsmall]
    dsimp only
    rw [if_neg (by omega)]
  · rw [if_neg hsmall]
    by_cases hmedium : digitsValue (c :: cs) < 2 ^ 64
    · rw [if_pos hmedium]
      dsimp only
      rw [if_pos (by omega)]
    · rw [if_neg hmedium]

namespace MenuConsole

/-! ## The checks of the dialog -/

theorem trim_trim (value : Str) : trim (trim value) = trim value := by
  have hdrop : (trim value).dropWhile isSeparator = trim value := by
    apply List.dropWhile_eq_self_iff.mpr
    intro hpos
    have hfront : trim value <+: value.dropWhile isSeparator := List.rdropWhile_prefix _ _
    have hlt : 0 < (value.dropWhile isSeparator).length := Nat.lt_of_lt_of_le hpos hfront.length_le
    rw [hfront.getElem]
    exact List.dropWhile_get_zero_not isSeparator value hlt
  rw [trim, hdrop]
  exact List.rdropWhile_idempotent _ _

theorem isDigit_of_sizeComplaint {size : Str} (h : sizeComplaint (trim size) = none) :
    trim size ≠ [] ∧ (∀ c ∈ trim size, isDigit c = true) ∧ ¬∀ c ∈ trim size, c = 48 := by
  unfold sizeComplaint at h
  split at h
  · cases h
  next hne =>
  split at h
  · cases h
  split at h
  · cases h
  next hpositive =>
  split at h
  · cases h
  next hzero =>
    simp only [isPositiveIntegerText, isZeroIntegerText, trim_trim, hne, ne_eq, not_false_eq_true,
      true_and, List.all_eq_true, Bool.not_eq_true', decide_eq_false_iff_not, not_not,
      decide_eq_true_eq, beq_iff_eq] at hpositive hzero
    exact ⟨hne, hpositive, hzero⟩

theorem tagComplaint_none {name : Str} (h : tagComplaint (trim name) = none) :
    trim name ≠ [] ∧ CommandDispatcher.isValidMemoryTag (trim name) = true ∧
      ∀ c ∈ trim name, isSpace c = false := by
  unfold tagComplaint at h
  split at h
  · cases h
  next hne =>
  split at h
  · cases h
  next hvalid =>
    have hmenu : isValidMemoryTag (trim name) = true := by
      cases htag : isValidMemoryTag (trim name)
      · exact absurd (by rw [htag]; rfl) hvalid
      · rfl
    have hvalid' : CommandDispatcher.isValidMemoryTag (trim name) = true := by
      rw [isValidMemoryTag, trim_trim] at hmenu
      exact hmenu
    refine ⟨hne, hvalid', fun c hmem => ?_⟩
    have hall := (of_decide_eq_true hvalid').2.2
    have hc := List.all_eq_true.mp hall c hmem
    simp only [Bool.or_eq_true, beq_iff_eq] at hc
    rcases hc with ((halnum | rfl) | rfl) | rfl
    · exact isSpace_of_isAlnum halnum
    all_goals decide

/-- The dispatcher reads the name and the size as they were typed. -/
theorem parse_allocation {name size : Str} (hname : tagComplaint (trim name) = none)
    (hsize : sizeComplaint (trim size) = none) :
    (parse (commandLine (str "alloc") [trim name, trim size])).name = str "alloc" ∧
      parseAllocArguments (parse (commandLine (str "alloc") [trim name, trim size])).arguments =
        if digitsValue (trim size) < 2 ^ 32 then
          some (trim name, UInt32.ofNat (digitsValue (trim size))) else none := by
  obtain ⟨hname', hvalid, hplain⟩ := tagComplaint_none hname
  obtain ⟨hsize', hdigits, -⟩ := isDigit_of_sizeComplaint hsize
  have hspaces : ∀ c ∈ trim size, isSpace c = false := fun c hmem =>
    isSpace_of_isAlnum (by simp [isAlnum, hdigits c hmem])
  rw [parse_commandLine (by decide)]
  refine ⟨rfl, ?_⟩
  have hwords : [trim name, trim size].flatMap words = [trim name, trim size] := by
    simp [words_single hname' hplain, words_single hsize' hspaces]
  dsimp only
  rw [hwords, parseAllocArguments, if_pos hvalid, parseUint32Strict_digits hsize' hdigits]
  split <;> rfl

end MenuConsole

/-! ## The command of the dialog -/

theorem Kernel.allocCommand_allocates {k : Kernel} {owner tag : Str} {sizeKB : UInt32}
    {arguments : List Str} (h : Partition k.memoryManager)
    (hlogin : k.userManager.currentUser = some owner)
    (hargs : parseAllocArguments arguments = some (tag, sizeKB))
    (hok : (allocCommand k.managers arguments).2.success = true) :
    ∃ start mm, k.withManagers (allocCommand k.managers arguments).1 =
        { k with memoryManager := mm } ∧
      Allocates { start := start, size := sizeKB, type := .kernel, pid := 0, owner := owner
                  tag := tag } k.memoryManager mm := by
  have hlogin' : k.managers.users.currentUser = some owner := hlogin
  rw [allocCommand, requireLogin_login hlogin', currentUserName_of_login hlogin'] at hok ⊢
  simp only [hargs] at hok ⊢
  by_cases hsize : sizeKB = 0
  · rw [if_pos hsize] at hok
    cases hok
  rw [if_neg hsize] at hok ⊢
  obtain ⟨⟨mm, start, message⟩, halloc⟩ := (memoryResult_success _ _ _).mp hok
  rw [halloc]
  exact ⟨start, mm, rfl, (h.allocates halloc).2⟩

namespace World

open Kernel MenuConsole

variable {w : World} {events : List Event}

/-- In every state of a run, an allocation that passed the checks of its dialog succeeds exactly
for a logged-in user, if its size fits into 32 bits and into one hole.  Then the user has one
block more, with the typed name and size, and nothing else of the kernel has changed. -/
theorem allocation_of_dialog (hclean : w.kernel.Clean) (hload : NoLoad events) (env : Environment)
    (name size : Str) (hname : tagComplaint (trim name) = none)
    (hsize : sizeComplaint (trim size) = none) :
    let last := Runs.run step w events
    let event := Event.request env { rawLine := commandLine (str "alloc") [trim name, trim size] }
    let sizeKB := UInt32.ofNat (digitsValue (trim size))
    (last.Succeeds event ↔
      (∃ owner, last.kernel.userManager.currentUser = some owner) ∧
        digitsValue (trim size) < 2 ^ 32 ∧ last.kernel.memoryManager.HasRoom sizeKB) ∧
    (last.Succeeds event → ∃ owner start mm l r,
      last.kernel.userManager.currentUser = some owner ∧
      (last.step event).kernel = { last.kernel with memoryManager := mm } ∧
      allocated last.kernel.memoryManager.blocks = l ++ r ∧
      allocated mm.blocks = l ++ { start := start, size := sizeKB, type := .kernel, pid := 0
                                   owner := owner, tag := trim name } :: r) := by
  intro last event sizeKB
  obtain ⟨hcommand, hargs⟩ := parse_allocation hname hsize
  obtain ⟨-, hdigits, hzero⟩ := isDigit_of_sizeComplaint hsize
  have hpart := partition_run hclean hload
  have haccounts := accounts_of_clean hclean hload
  have hrun := executeRequest_alloc last.kernel env last.disk
    { rawLine := commandLine (str "alloc") [trim name, trim size] } hcommand
  have hexact : last.Succeeds event ↔
      (∃ owner, last.kernel.userManager.currentUser = some owner) ∧
        digitsValue (trim size) < 2 ^ 32 ∧ last.kernel.memoryManager.HasRoom sizeKB := by
    rw [succeeds_request, hrun]
    cases hlogin : last.kernel.userManager.currentUser with
    | none =>
      have hlogin' : last.kernel.managers.users.currentUser = none := hlogin
      rw [allocCommand, requireLogin_none hlogin']
      simp [reply]
    | some owner =>
      have howner := haccounts.nonempty owner (haccounts.session owner hlogin)
      dsimp only
      rw [allocCommand_succeeds_iff hpart hlogin howner, hargs]
      constructor
      · rintro ⟨tag, sizeKB', hparsed, -, hroom⟩
        split at hparsed
        next hfits =>
          cases hparsed
          exact ⟨⟨owner, rfl⟩, hfits, hroom⟩
        · cases hparsed
      · rintro ⟨-, hfits, hroom⟩
        rw [if_pos hfits]
        refine ⟨trim name, sizeKB, rfl, fun hnone => ?_, hroom⟩
        have hpos := digitsValue_pos hdigits hzero
        have hvalue := congrArg UInt32.toNat hnone
        rw [UInt32.toNat_ofNat_of_lt' hfits] at hvalue
        exact absurd hvalue (Nat.ne_of_gt hpos)
  refine ⟨hexact, fun hok => ?_⟩
  obtain ⟨⟨owner, hlogin⟩, hfits, -⟩ := hexact.mp hok
  rw [if_pos hfits] at hargs
  rw [succeeds_request, hrun] at hok
  obtain ⟨start, mm, hkernel, halloc⟩ := allocCommand_allocates hpart hlogin hargs hok
  obtain ⟨l, r, hbefore, hafter⟩ := halloc.allocated_eq (by simp)
  refine ⟨owner, start, mm, l, r, hlogin, ?_, hbefore, hafter⟩
  show (last.kernel.executeRequest env last.disk _).1 = _
  rw [hrun]
  exact hkernel

/-- Spaces around the name, and zeros in front of the size. -/
theorem allocation_of_dialog_spaces :
    let w : World := { kernel := Kernel.start {} ∅ }
    let last := Runs.run step w [console "register a pw", console "login a pw"]
    let event := Event.request quietEnvironment
      { rawLine := commandLine (str "alloc") [trim (str " cache "), trim (str "016")] }
    let sizeKB := UInt32.ofNat (digitsValue (trim (str "016")))
    (last.Succeeds event ↔
      (∃ owner, last.kernel.userManager.currentUser = some owner) ∧
        digitsValue (trim (str "016")) < 2 ^ 32 ∧ last.kernel.memoryManager.HasRoom sizeKB) ∧
    (last.Succeeds event → ∃ owner start mm l r,
      last.kernel.userManager.currentUser = some owner ∧
      (last.step event).kernel = { last.kernel with memoryManager := mm } ∧
      allocated last.kernel.memoryManager.blocks = l ++ r ∧
      allocated mm.blocks = l ++ { start := start, size := sizeKB, type := .kernel, pid := 0
                                   owner := owner, tag := trim (str " cache ") } :: r) :=
  allocation_of_dialog (clean_start {} ∅ fun _ h => by cases h) (by decide) quietEnvironment
    (str " cache ") (str "016") (by decide) (by decide)

end World

end OSCoreSim
