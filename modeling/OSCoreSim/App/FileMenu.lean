import OSCoreSim.App.Menus
/-!
# The menu of files as a table

`handleVfsMenu` is written out branch by branch; the other menus are tables of dialogs.  The table
`vfsMenu` does the same as the function.
-/

namespace OSCoreSim

namespace MenuConsole

variable {σ : Type}

theorem commandLine_one (name : Str) {answer : Str} (h : answer ≠ []) :
    commandLine name [answer] = name ++ str " " ++ answer := by
  rw [commandLine, List.filter_cons_of_pos (by simpa using h)]
  simp

theorem commandLine_two (name : Str) {answer answer' : Str} (h : answer ≠ []) (h' : answer' ≠ []) :
    commandLine name [answer, answer'] = name ++ str " " ++ answer ++ str " " ++ answer' := by
  rw [commandLine, List.filter_cons_of_pos (by simpa using h),
    List.filter_cons_of_pos (by simpa using h')]
  simp

theorem lookup_vfsMenu_none {choice : Str} (h4 : choice ≠ str "4") (h2 : choice ≠ str "2")
    (hname : nameCommand choice = none) : vfsMenu.entries.lookup choice = none := by
  unfold nameCommand at hname
  split at hname
  · cases hname
  next h1 =>
  split at hname
  · cases hname
  next h3 =>
  split at hname
  · cases hname
  next h5 =>
  simp [vfsMenu, h1, h2, h3, h4, h5]

theorem lookup_vfsMenu_name {choice command : Str} (hname : nameCommand choice = some command) :
    ∃ name, command = name ++ str " " ∧
      vfsMenu.entries.lookup choice = some (.command name [askFileName]) := by
  unfold nameCommand at hname
  split at hname
  next h1 =>
    cases hname
    exact ⟨str "touch_file", by decide, by rw [h1]; rfl⟩
  split at hname
  next h3 =>
    cases hname
    exact ⟨str "read_file", by decide, by rw [h3]; rfl⟩
  split at hname
  next h5 =>
    cases hname
    exact ⟨str "rm_file", by decide, by rw [h5]; rfl⟩
  · cases hname

section Steps

variable {executor : Str → σ → MenuCommandResult × σ} {menu : Menu} {line name output : Str}
  {lines answers unread : List Str} {questions : List Question} {master : σ}
  (hchoice : trim line ≠ str "0")
  (hentry : menu.entries.lookup (trim line) = some (.command name questions))
include hchoice hentry

theorem menuLoop_endOfInput (hasked : askAll questions lines = .endOfInput output) :
    menuLoop executor menu (line :: lines) master = endOfInput (menu.text ++ output) master := by
  unfold menuLoop
  dsimp only
  rw [if_neg hchoice, hentry]
  simp [Entry.handler, dialog, hasked, endOfInput, MenuRun.after]

theorem menuLoop_cancelled (hasked : askAll questions lines = .cancelled output unread) :
    menuLoop executor menu (line :: lines) master =
      (menuLoop executor menu unread master).after (menu.text ++ output) := by
  rw [menuLoop]
  dsimp only
  rw [if_neg hchoice, hentry]
  simp [Entry.handler, dialog, hasked]

theorem menuLoop_answered (hasked : askAll questions lines = .answered output answers unread)
    {command : Str} (hcommand : commandLine name answers = command) :
    menuLoop executor menu (line :: lines) master =
      if (execute executor command master).2.1 then
        { output := menu.text ++ output ++ (execute executor command master).1, leave := true
          unread := unread, master := (execute executor command master).2.2 }
      else (menuLoop executor menu unread (execute executor command master).2.2).after
        (menu.text ++ output ++ (execute executor command master).1) := by
  rw [menuLoop]
  dsimp only
  rw [if_neg hchoice, hentry]
  simp only [Entry.handler, dialog, hasked, hcommand]
  split
  next hdone => simp [MenuRun.after, hdone]
  next => rw [List.append_assoc]

end Steps

section Dialogs

variable {executor : Str → σ → MenuCommandResult × σ} {line command : Str} {lines : List Str}
  {master : σ}
  (hrest : ∀ rest, rest <:+ lines → ∀ m,
    menuLoop executor vfsMenu rest m = handleVfsMenu executor rest m)
include hrest

theorem menuLoop_write (hchoice : trim line = str "2") :
    menuLoop executor vfsMenu (line :: lines) master =
      handleVfsMenu executor (line :: lines) master := by
  have htext : vfsMenu.text = vfsMenuText := rfl
  have hchoices : str "2" ≠ [] ∧ str "2" ≠ str "0" ∧ str "2" ≠ str "4" := by decide
  have hstay : trim line ≠ str "0" := by
    rw [hchoice]
    exact hchoices.2.1
  have hentry : vfsMenu.entries.lookup (trim line) = some (.command (str "write_file")
      [askFileName, { prompt := askContentText, preserveSpaces := true }]) := by
    rw [hchoice]
    rfl
  rw [handleVfsMenu.eq_def]
  simp only [hchoice, hchoices, if_false, if_true]
  cases lines with
  | nil =>
    rw [menuLoop_endOfInput hstay hentry rfl, htext]
    rfl
  | cons typedName rest =>
    dsimp only
    by_cases hname : required false typedName = []
    · have hasked : askAll [askFileName, { prompt := askContentText, preserveSpaces := true }]
          (typedName :: rest) = .cancelled (askNameText ++ cancelledText) rest := by
        simp [askAll, askFileName, Question.answer, hname]
      rw [if_pos hname, menuLoop_cancelled hstay hentry hasked, htext,
        hrest rest (List.suffix_cons typedName rest), List.append_assoc]
    rw [if_neg hname]
    cases rest with
    | nil =>
      have hasked : askAll [askFileName, { prompt := askContentText, preserveSpaces := true }]
          [typedName] = .endOfInput (askNameText ++ askContentText) := by
        simp [askAll, askFileName, Question.answer, hname]
      rw [menuLoop_endOfInput hstay hentry hasked, htext, List.append_assoc]
    | cons typedContent rest =>
      have hsuffix : rest <:+ typedName :: typedContent :: rest :=
        List.suffix_append [typedName, typedContent] rest
      dsimp only
      by_cases hcontent : required true typedContent = []
      · have hasked : askAll [askFileName, { prompt := askContentText, preserveSpaces := true }]
            (typedName :: typedContent :: rest) =
              .cancelled (askNameText ++ askContentText ++ cancelledText) rest := by
          simp [askAll, askFileName, Question.answer, hname, hcontent]
        rw [if_pos hcontent, menuLoop_cancelled hstay hentry hasked, htext, hrest rest hsuffix]
        simp only [List.append_assoc]
      · have hasked : askAll [askFileName, { prompt := askContentText, preserveSpaces := true }]
            (typedName :: typedContent :: rest) = .answered (askNameText ++ askContentText)
              [required false typedName, required true typedContent] rest := by
          simp [askAll, askFileName, Question.answer, hname, hcontent]
        have hwrite : str "write_file" ++ str " " = str "write_file " := by decide
        have hline := commandLine_two (str "write_file") hname hcontent
        rw [hwrite] at hline
        rw [if_neg hcontent, menuLoop_answered hstay hentry hasked hline, htext,
          hrest rest hsuffix, ← List.append_assoc]
        rfl

theorem menuLoop_name (hblank : trim line ≠ []) (hstay : trim line ≠ str "0")
    (hlist : trim line ≠ str "4") (hwrite : trim line ≠ str "2")
    (hname : nameCommand (trim line) = some command) :
    menuLoop executor vfsMenu (line :: lines) master =
      handleVfsMenu executor (line :: lines) master := by
  have htext : vfsMenu.text = vfsMenuText := rfl
  obtain ⟨name, rfl, hentry⟩ := lookup_vfsMenu_name hname
  rw [handleVfsMenu.eq_def]
  simp only [hblank, hstay, hlist, hwrite, if_false, hname]
  cases lines with
  | nil =>
    rw [menuLoop_endOfInput hstay hentry rfl, htext]
    rfl
  | cons typedName rest =>
    have hsuffix : rest <:+ typedName :: rest := List.suffix_cons typedName rest
    dsimp only
    by_cases hempty : required false typedName = []
    · have hasked : askAll [askFileName] (typedName :: rest) =
          .cancelled (askNameText ++ cancelledText) rest := by
        simp [askAll, askFileName, Question.answer, hempty]
      rw [if_pos hempty, menuLoop_cancelled hstay hentry hasked, htext, hrest rest hsuffix,
        List.append_assoc]
    · have hasked : askAll [askFileName] (typedName :: rest) =
          .answered askNameText [required false typedName] rest := by
        simp [askAll, askFileName, Question.answer, hempty]
      rw [if_neg hempty, menuLoop_answered hstay hentry hasked (commandLine_one name hempty),
        htext, hrest rest hsuffix]

end Dialogs

/-- The table of the menu of files is its function. -/
theorem menuLoop_vfsMenu (executor : Str → σ → MenuCommandResult × σ) (lines : List Str)
    (master : σ) :
    menuLoop executor vfsMenu lines master = handleVfsMenu executor lines master := by
  have htext : vfsMenu.text = vfsMenuText := rfl
  induction hlength : lines.length using Nat.strong_induction_on generalizing lines master with
  | _ n ih =>
    cases lines with
    | nil =>
      unfold menuLoop
      rfl
    | cons line lines =>
      have hrest : ∀ rest : List Str, rest <:+ lines → ∀ m,
          menuLoop executor vfsMenu rest m = handleVfsMenu executor rest m :=
        fun rest hsuffix m =>
          ih rest.length (hlength ▸ Nat.lt_succ_of_le hsuffix.length_le) rest m rfl
      by_cases hblank : trim line = []
      · have hne : ([] : Str) ≠ str "0" := by decide
        have hnone : vfsMenu.entries.lookup [] = none := by decide
        rw [menuLoop, handleVfsMenu.eq_def]
        simp only [hblank, hne, if_false, if_true, hnone]
        rw [hrest lines List.suffix_rfl, htext]
      by_cases hleave : trim line = str "0"
      · rw [menuLoop, handleVfsMenu.eq_def]
        dsimp only
        rw [if_pos hleave, if_neg hblank, if_pos hleave, htext]
      by_cases hlist : trim line = str "4"
      · have hentry : vfsMenu.entries.lookup (trim line) = some (.command (str "ls_file") []) := by
          rw [hlist]
          rfl
        have hcommand : commandLine (str "ls_file") [] = str "ls_file" := by decide
        rw [menuLoop_answered hleave hentry rfl hcommand, handleVfsMenu.eq_def]
        dsimp only
        rw [if_neg hblank, if_neg hleave, if_pos hlist, List.append_nil, htext,
          hrest lines List.suffix_rfl]
      by_cases hwrite : trim line = str "2"
      · exact menuLoop_write hrest hwrite
      cases hname : nameCommand (trim line) with
      | some command => exact menuLoop_name hrest hblank hleave hlist hwrite hname
      | none =>
        rw [menuLoop, handleVfsMenu.eq_def]
        simp only [hleave, hblank, hlist, hwrite, if_false, hname,
          lookup_vfsMenu_none hlist hwrite hname]
        rw [hrest lines List.suffix_rfl, htext, List.append_nil]

end MenuConsole

end OSCoreSim
