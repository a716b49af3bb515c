import OSCoreSim.Util.Words
import OSCoreSim.Kernel.World
/-!
# The text of write_file

`parse` splits the line with `operator>>`, and `extractWriteFileContent` scans the same line
with five searches for `" \t\r\n"`.  Vertical tab and form feed separate words for the first
and belong to a word for the second.
-/

namespace OSCoreSim

open CommandDispatcher VirtualFileSystem

/-! ## The second argument -/

/-- The line from the first character of its third word on. -/
def secondArgumentOn (line : Str) : Str := Scan.skipTokens isSpace 2 line

def beforeSecondArgument (line : Str) : Str :=
  line.take (line.length - (secondArgumentOn line).length)

theorem beforeSecondArgument_append (line : Str) :
    beforeSecondArgument line ++ secondArgumentOn line = line :=
  List.suffix_iff_eq_append.mp (Scan.skipTokens_suffix isSpace 2 line)

theorem secondArgumentOn_spec {line command name second : Str} {more : List Str}
    (h : words line = command :: name :: second :: more) :
    ∃ c cs, isSpace c = false ∧ secondArgumentOn line = c :: cs ∧
      second <+: secondArgumentOn line ∧ words (secondArgumentOn line) = second :: more ∧
      words (beforeSecondArgument line) = [command, name] := by
  have hwords : words (secondArgumentOn line) = second :: more := by
    rw [secondArgumentOn, words_skipTokens, h]
    rfl
  obtain ⟨c, cs, rest, hc, hsecond, htext⟩ :=
    exists_word hwords (Scan.dropWhile_skipTokens isSpace 2 line)
  have hcons : secondArgumentOn line = c :: (cs ++ rest) := by rw [htext, hsecond, List.cons_append]
  have hline := beforeSecondArgument_append line
  have hscan : Scan.skipTokens isSpace 2 (beforeSecondArgument line ++ c :: (cs ++ rest)) =
      c :: (cs ++ rest) := by
    rw [← hcons, hline]
    rfl
  obtain ⟨-, hclosed⟩ := (Scan.skipTokens_append_eq_iff hc).mp hscan
  have hsplit := words_append_closed hclosed (secondArgumentOn line)
  rw [hline, h, hwords] at hsplit
  have hbefore : [command, name] ++ second :: more =
      words (beforeSecondArgument line) ++ second :: more := hsplit
  exact ⟨c, cs ++ rest, hc, hcons, ⟨rest, htext.symm⟩, hwords,
    (List.append_cancel_right hbefore).symm⟩

/-- The content scan finds the second argument exactly when the separators it knows divide the
text before it into two words as well. -/
def SplitAlike (line : Str) : Prop :=
  Scan.tokenCount isSeparator (beforeSecondArgument line) = 2 ∧
    Scan.Closed isSeparator (beforeSecondArgument line)

instance (line : Str) : Decidable (SplitAlike line) := inferInstanceAs (Decidable (_ ∧ _))

theorem extractWriteFileContent_eq_iff {line command name second : Str} {more : List Str}
    (h : words line = command :: name :: second :: more) :
    Kernel.extractWriteFileContent line = secondArgumentOn line ↔ SplitAlike line := by
  obtain ⟨c, cs, hc, hcons, -⟩ := secondArgumentOn_spec h
  have hplain : isSeparator c = false := isSeparator_of_not_isSpace hc
  have hiff : Scan.skipTokens isSeparator 2 (beforeSecondArgument line ++ c :: cs) = c :: cs ↔
      SplitAlike line := Scan.skipTokens_append_eq_iff hplain
  rw [← hcons, beforeSecondArgument_append] at hiff
  exact hiff

namespace Kernel

variable {k : Kernel} {owner name second : Str} {rest : List Str} {request : CommandRequest}

theorem parse_rawLine (line : Str) : (parse line).rawLine = line := by
  unfold parse
  split <;> rfl

theorem words_of_parse {line : Str} (hargs : (parse line).arguments = name :: second :: rest) :
    ∃ command, words line = command :: name :: second :: rest := by
  unfold parse at hargs
  split at hargs
  next => cases hargs
  next command arguments hwords =>
    refine ⟨command, ?_⟩
    rw [hwords, ← hargs]

theorem executeRequest_writeFile (env : Environment) (fs : FileSystem)
    (hname : (parse request.rawLine).name = str "write_file")
    (hargs : (parse request.rawLine).arguments = name :: second :: rest)
    (hlogin : k.userManager.currentUser = some owner) :
    k.executeRequest env fs request =
      let out := k.vfsResult (k.vfs.writeFile env.time owner name
        (extractWriteFileContent request.rawLine))
      (out.1, fs, out.2) := by
  have hvfs : isVfsCommand (parse request.rawLine).name = true := by rw [hname]; decide
  have htouch : str "write_file" ≠ str "touch_file" := by decide
  have hlogged : (!k.userManager.isLoggedIn) = false := by simp [UserManager.isLoggedIn, hlogin]
  rw [executeRequest_vfs _ _ _ _ hvfs]
  simp only [handleVfsCommand, hlogged, currentUserName_of_login hlogin, hname, hargs, htouch,
    parse_rawLine, Bool.false_eq_true, if_false, if_true]

theorem arguments_of_success {env : Environment} {fs : FileSystem}
    (hname : (parse request.rawLine).name = str "write_file")
    (hok : (k.executeRequest env fs request).2.2.success = true) :
    ∃ name second rest, (parse request.rawLine).arguments = name :: second :: rest := by
  have hvfs : isVfsCommand (parse request.rawLine).name = true := by rw [hname]; decide
  have htouch : str "write_file" ≠ str "touch_file" := by decide
  rw [executeRequest_vfs _ _ _ _ hvfs] at hok
  unfold handleVfsCommand at hok
  split at hok
  · cases hok
  rcases hargs : (parse request.rawLine).arguments with _ | ⟨name, _ | ⟨second, rest⟩⟩
  · simp [hname, hargs, htouch, reply] at hok
  · simp [hname, hargs, htouch, reply] at hok
  · exact ⟨name, second, rest, rfl⟩

theorem writeFile_success {env : Environment} {fs : FileSystem}
    (hname : (parse request.rawLine).name = str "write_file")
    (hargs : (parse request.rawLine).arguments = name :: second :: rest)
    (hlogin : k.userManager.currentUser = some owner)
    (hok : (k.executeRequest env fs request).2.2.success = true) :
    ∃ vfs message, k.vfs.writeFile env.time owner name
        (extractWriteFileContent request.rawLine) = .ok (vfs, message) ∧
      (k.executeRequest env fs request).1.vfs = vfs := by
  rw [executeRequest_writeFile env fs hname hargs hlogin] at hok ⊢
  cases hwrite : k.vfs.writeFile env.time owner name (extractWriteFileContent request.rawLine) with
  | error message =>
    rw [hwrite] at hok
    cases hok
  | ok pair => exact ⟨pair.1, pair.2, rfl, rfl⟩

/-- A successful `write_file` stores the line from its second argument on exactly when both
scanners split the line alike up to there. -/
theorem stored_content_iff {env : Environment} {fs : FileSystem}
    (hname : (parse request.rawLine).name = str "write_file")
    (hargs : (parse request.rawLine).arguments = name :: second :: rest)
    (hlogin : k.userManager.currentUser = some owner)
    (hok : (k.executeRequest env fs request).2.2.success = true) :
    (k.executeRequest env fs request).1.vfs.contentOf owner name =
        some (secondArgumentOn request.rawLine) ↔
      SplitAlike request.rawLine := by
  obtain ⟨command, hwords⟩ := words_of_parse hargs
  obtain ⟨vfs, message, hwrite, hvfs⟩ := writeFile_success hname hargs hlogin hok
  rw [hvfs, contentOf_writeFile hwrite, Option.some_inj]
  exact extractWriteFileContent_eq_iff hwords

/-- Spaces at the start of the line and between the words are no obstacle. -/
theorem stored_content_iff_spaced :
    (World.loggedIn.kernel.executeRequest World.quietEnvironment ∅
        { rawLine := str "  write_file \t f  x  y" }).1.vfs.contentOf (str "a") (str "f") =
        some (secondArgumentOn (str "  write_file \t f  x  y")) ↔
      SplitAlike (str "  write_file \t f  x  y") :=
  stored_content_iff (by decide +kernel)
    (show (parse (str "  write_file \t f  x  y")).arguments = [str "f", str "x", str "y"] by
      decide +kernel) (by decide +kernel) (by decide +kernel)

/-- A vertical tab behind the file name: the command has two arguments and succeeds, and the file
is empty. -/
theorem content_lost :
    let request : CommandRequest := { rawLine := str "write_file f\x0bx" }
    let out := World.loggedIn.kernel.executeRequest World.quietEnvironment ∅ request
    (parse request.rawLine).name = str "write_file" ∧
      (parse request.rawLine).arguments = [str "f", str "x"] ∧
      secondArgumentOn request.rawLine = str "x" ∧ out.2.2.success = true ∧
      out.1.vfs.contentOf (str "a") (str "f") = some [] := by
  decide +kernel

end Kernel

end OSCoreSim
