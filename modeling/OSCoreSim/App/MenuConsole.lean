import OSCoreSim.Kernel.WriteFile
/-!
# The menu of virtual files

The menu turns answers into raw commands.  The file name is trimmed and the content is kept as it
was typed; both go into one line, which `parse` splits into words and `extractWriteFileContent`
scans again.
-/

namespace OSCoreSim

open CommandDispatcher VirtualFileSystem

structure MenuCommandResult where
  message : Str := []
  shouldExit : Bool := false
  fatalError : Bool := false

namespace MenuConsole

/-! ## The dialogs -/

def trim (value : Str) : Str := (value.dropWhile isSeparator).rdropWhile isSeparator

def maskedCommandForDisplay (command : Str) : Str :=
  match words command with
  | name :: username :: _ =>
    if toLower name = str "register" ∨ toLower name = str "login" then
      name ++ str " " ++ username ++ str " ******"
    else command
  | _ => command

/-- How a menu ends: what it printed, whether the program ends with it, the lines it has not
read, and the state behind the executor. -/
structure MenuRun (σ : Type) where
  output : Str
  leave : Bool
  unread : List Str
  master : σ

def MenuRun.after {σ : Type} (output : Str) (run : MenuRun σ) : MenuRun σ :=
  { run with output := output ++ run.output }

variable {σ : Type}

/-- `execute`: what it prints, whether to leave, and the state behind the executor. -/
def execute (executor : Str → σ → MenuCommandResult × σ) (command : Str) (master : σ) :
    Str × Bool × σ :=
  let result := (executor command master).1
  (str "\n正在执行命令：" ++ maskedCommandForDisplay command ++ str "\n命令执行结果：\n" ++
      (if result.message = [] then str "（无输出）\n" else result.message ++ str "\n"),
    result.shouldExit || result.fatalError, (executor command master).2)

def vfsMenuText : Str :=
  str "\n========== 虚拟文件系统 ==========\n1. 创建空文件\n2. 写入文件\n3. 读取文件\n" ++
    str "4. 列出文件\n5. 删除文件\n0. 返回主菜单\n请输入选项编号："

def askNameText : Str := str "请输入文件名："

def askContentText : Str := str "请输入文件内容："

def invalidText : Str := str "输入无效，请重新输入。\n"

/-- What `askRequired` prints for a blank answer, which it turns into the empty string. -/
def cancelledText : Str := str "输入为空，操作已取消，返回上一级菜单。\n"

def required (preserveSpaces : Bool) (value : Str) : Str :=
  if trim value = [] then [] else if preserveSpaces then value else trim value

def endOfInput (output : Str) (master : σ) : MenuRun σ :=
  { output := output ++ str "\n", leave := true, unread := [], master := master }

def nameCommand (choice : Str) : Option Str :=
  if choice = str "1" then some (str "touch_file ")
  else if choice = str "3" then some (str "read_file ")
  else if choice = str "5" then some (str "rm_file ")
  else none

def writeFileCommand (name content : Str) : Str :=
  str "write_file " ++ name ++ str " " ++ content

def handleVfsMenu (executor : Str → σ → MenuCommandResult × σ) : List Str → σ → MenuRun σ
  | [], master => endOfInput vfsMenuText master
  | line :: lines, master =>
    let choice := trim line
    if choice = [] then
      (handleVfsMenu executor lines master).after (vfsMenuText ++ invalidText ++ invalidText)
    else if choice = str "0" then
      { output := vfsMenuText ++ str "已返回主菜单。\n", leave := false, unread := lines
        master := master }
    else if choice = str "4" then
      let done := execute executor (str "ls_file") master
      if done.2.1 then
        { output := vfsMenuText ++ done.1, leave := true, unread := lines, master := done.2.2 }
      else (handleVfsMenu executor lines done.2.2).after (vfsMenuText ++ done.1)
    else if choice = str "2" then
      match lines with
      | [] => endOfInput (vfsMenuText ++ askNameText) master
      | typedName :: rest =>
        if required false typedName = [] then
          (handleVfsMenu executor rest master).after (vfsMenuText ++ askNameText ++ cancelledText)
        else match rest with
          | [] => endOfInput (vfsMenuText ++ askNameText ++ askContentText) master
          | typedContent :: rest =>
            let asked := vfsMenuText ++ askNameText ++ askContentText
            if required true typedContent = [] then
              (handleVfsMenu executor rest master).after (asked ++ cancelledText)
            else
              let done := execute executor (writeFileCommand (required false typedName)
                (required true typedContent)) master
              if done.2.1 then
                { output := asked ++ done.1, leave := true, unread := rest, master := done.2.2 }
              else (handleVfsMenu executor rest done.2.2).after (asked ++ done.1)
    else match nameCommand choice with
      | none => (handleVfsMenu executor lines master).after (vfsMenuText ++ invalidText)
      | some command =>
        match lines with
        | [] => endOfInput (vfsMenuText ++ askNameText) master
        | typedName :: rest =>
          let asked := vfsMenuText ++ askNameText
          if required false typedName = [] then
            (handleVfsMenu executor rest master).after (asked ++ cancelledText)
          else
            let done := execute executor (command ++ required false typedName) master
            if done.2.1 then
              { output := asked ++ done.1, leave := true, unread := rest, master := done.2.2 }
            else (handleVfsMenu executor rest done.2.2).after (asked ++ done.1)

/-! ## The line of the write dialog -/

theorem writeFileCommand_eq (name content : Str) :
    writeFileCommand name content = str "write_file" ++ 32 :: (name ++ 32 :: content) := by
  have hcommand : str "write_file " = str "write_file" ++ [32] := by decide
  have hspace : str " " = [32] := by decide
  rw [writeFileCommand, hcommand, hspace]
  simp

theorem words_writeFileCommand (name content : Str) :
    words (writeFileCommand name content) = str "write_file" :: (words name ++ words content) := by
  have hspace : isSpace 32 = true := by decide
  have hcommand : words (str "write_file") = [str "write_file"] := by decide
  rw [writeFileCommand_eq, words_append_cons hspace, words_append_cons hspace, hcommand]
  rfl

theorem parse_writeFileCommand (name content : Str) :
    parse (writeFileCommand name content) =
      { rawLine := writeFileCommand name content, name := str "write_file"
        arguments := words name ++ words content } := by
  have hlower : toLower (str "write_file") = str "write_file" := by decide
  rw [parse, words_writeFileCommand]
  simp only [hlower]

/-- The content scan skips the separators in front of the content with those behind the name. -/
theorem extractWriteFileContent_writeFileCommand {name : Str} (hne : name ≠ [])
    (hname : ∀ c ∈ name, isSeparator c = false) (content : Str) :
    Kernel.extractWriteFileContent (writeFileCommand name content) =
      content.dropWhile isSeparator := by
  have hspace : isSeparator 32 = true := by decide
  have hcommand : ∀ c ∈ str "write_file", isSeparator c = false := by
    have hall : (str "write_file").all (!isSeparator ·) = true := by decide
    simpa using List.all_eq_true.mp hall
  have hblank : ∀ c ∈ [(32 : UInt8)], isSeparator c = true := by simp [hspace]
  have hfirst : Scan.skipToken isSeparator (writeFileCommand name content) =
      32 :: (name ++ 32 :: content) := by
    rw [writeFileCommand_eq]
    exact Scan.skipToken_token (s := []) (by simp) (by decide) hcommand hspace _
  have hsecond : Scan.skipToken isSeparator (32 :: (name ++ 32 :: content)) = 32 :: content :=
    Scan.skipToken_token hblank hne hname hspace content
  show (Scan.skipToken isSeparator (Scan.skipToken isSeparator
    (writeFileCommand name content))).dropWhile isSeparator = _
  rw [hfirst, hsecond, List.dropWhile_cons, if_pos hspace]

/-! ## The dialog and the kernel -/

def kernelExecutor (env : Environment) (command : Str) (master : Kernel × FileSystem) :
    MenuCommandResult × (Kernel × FileSystem) :=
  let out := master.1.executeRequest env master.2 { rawLine := command }
  ({ message := out.2.2.message, shouldExit := out.2.2.shouldExit }, (out.1, out.2.1))

theorem required_name {value : Str} (h : trim value ≠ []) : required false value = trim value := by
  simp [required, h]

theorem required_content {value : Str} (h : trim value ≠ []) : required true value = value := by
  simp [required, h]

theorem ne_nil_of_trim {value : Str} (h : trim value ≠ []) : value ≠ [] := by
  rintro rfl
  exact h rfl

theorem handleVfsMenu_write (executor : Str → σ → MenuCommandResult × σ)
    {typedName typedContent : Str}
    (hname : trim typedName ≠ []) (hcontent : trim typedContent ≠ []) (master : σ) :
    (handleVfsMenu executor [str "2", typedName, typedContent, str "0"] master).master =
      (executor (writeFileCommand (trim typedName) typedContent) master).2 := by
  have htwo : trim (str "2") = str "2" := by decide
  have hzero : trim (str "0") = str "0" := by decide
  have hne : str "2" ≠ [] ∧ str "2" ≠ str "0" ∧ str "2" ≠ str "4" ∧ str "0" ≠ [] := by decide
  simp only [handleVfsMenu, htwo, hzero, hne, required_name hname, required_content hcontent, hname,
    ne_nil_of_trim hcontent, execute, MenuRun.after, if_false, if_true]
  split <;> rfl

/-- The dialog writes the typed content into the file of the typed name, and nothing else, in
every state in which its command succeeds. -/
def WritesTyped (typedName typedContent : Str) : Prop :=
  ∀ (k : Kernel) (env : Environment) (fs : FileSystem) (owner : Str),
    k.userManager.currentUser = some owner →
    (k.executeRequest env fs
      { rawLine := writeFileCommand (trim typedName) typedContent }).2.2.success = true →
    let final := (handleVfsMenu (kernelExecutor env)
      [str "2", typedName, typedContent, str "0"] (k, fs)).master.1
    final.vfs.contentOf owner (trim typedName) = some typedContent ∧
      (final.vfs.files.filter fun file => ¬(file.owner = owner ∧ file.name = trim typedName)) =
        k.vfs.files.filter fun file => ¬(file.owner = owner ∧ file.name = trim typedName)

def Acceptable (name content : Str) : Prop :=
  ∃ file second rest, words name ++ words content = file :: second :: rest ∧
    isValidFileName file = .ok ()

/-- The name is one word and the content does not begin with a separator. -/
def Fits (name content : Str) : Prop :=
  (∀ c ∈ name, isSpace c = false) ∧ ∀ c ∈ content.head?, isSeparator c = false

instance (name content : Str) : Decidable (Fits name content) :=
  decidable_of_iff (name.all (!isSpace ·) = true ∧ content.head?.all (!isSeparator ·) = true)
    (by simp [Fits, Option.all_eq_true])

theorem parts_of_success {k : Kernel} {env : Environment} {fs : FileSystem}
    {owner name content : Str}
    (hlogin : k.userManager.currentUser = some owner)
    (hok : (k.executeRequest env fs { rawLine := writeFileCommand name content }).2.2.success = true) :
    ∃ file second rest vfs message, words name ++ words content = file :: second :: rest ∧
      k.vfs.writeFile env.time owner file
        (Kernel.extractWriteFileContent (writeFileCommand name content)) = .ok (vfs, message) ∧
      (k.executeRequest env fs { rawLine := writeFileCommand name content }).1.vfs = vfs := by
  have hparse := parse_writeFileCommand name content
  have hcommand := congrArg Command.name hparse
  obtain ⟨file, second, rest, hargs⟩ :=
    @Kernel.arguments_of_success k { rawLine := writeFileCommand name content } env fs hcommand hok
  obtain ⟨vfs, message, hwrite, hvfs⟩ := Kernel.writeFile_success hcommand hargs hlogin hok
  exact ⟨file, second, rest, vfs, message, (congrArg Command.arguments hparse).symm.trans hargs,
    hwrite, hvfs⟩

theorem writesTyped_of_fits {typedName typedContent : Str} (hname : trim typedName ≠ [])
    (hcontent : trim typedContent ≠ [])
    (h : Acceptable (trim typedName) typedContent → Fits (trim typedName) typedContent) :
    WritesTyped typedName typedContent := by
  intro k env fs owner hlogin hok
  obtain ⟨file, second, rest, vfs, message, hwords, hwrite, hvfs⟩ := parts_of_success hlogin hok
  obtain ⟨hplain, hstart⟩ := h ⟨file, second, rest, hwords, (writeFile_eq_ok hwrite).1⟩
  have hfile : file = trim typedName := by
    rw [words_single hname hplain, List.singleton_append] at hwords
    exact (List.cons.inj hwords).1.symm
  have hsep : ∀ c ∈ trim typedName, isSeparator c = false := fun c hmem =>
    isSeparator_of_not_isSpace (hplain c hmem)
  have hkept : typedContent.dropWhile isSeparator = typedContent := by
    obtain ⟨c, cs, rfl⟩ := List.exists_cons_of_ne_nil (ne_nil_of_trim hcontent)
    rw [List.dropWhile_cons, if_neg (by simp [hstart c rfl])]
  rw [hfile, extractWriteFileContent_writeFileCommand hname hsep, hkept] at hwrite
  have hfinal : (handleVfsMenu (kernelExecutor env)
      [str "2", typedName, typedContent, str "0"] (k, fs)).master.1.vfs = vfs := by
    rw [handleVfsMenu_write _ hname hcontent]
    exact hvfs
  simp only [hfinal]
  exact ⟨contentOf_writeFile hwrite, others_writeFile hwrite⟩

theorem fits_of_writesTyped {typedName typedContent : Str} (hname : trim typedName ≠ [])
    (hcontent : trim typedContent ≠ []) (h : WritesTyped typedName typedContent)
    (haccept : Acceptable (trim typedName) typedContent) : Fits (trim typedName) typedContent := by
  obtain ⟨file, second, rest, hwords, hvalid⟩ := haccept
  let k : Kernel := { userManager := { currentUser := some (str "a") } }
  let request : CommandRequest := { rawLine := writeFileCommand (trim typedName) typedContent }
  let content := Kernel.extractWriteFileContent request.rawLine
  have hparse := parse_writeFileCommand (trim typedName) typedContent
  obtain ⟨message, hwrite⟩ : ∃ message, k.vfs.writeFile 0 (str "a") file content =
      .ok (k.vfs.addFile (str "a") file content 0, message) :=
    writeFile_new (by decide) hvalid rfl content 0
  have hrun : k.executeRequest World.quietEnvironment ∅ request =
      ((k.vfsResult (k.vfs.writeFile 0 (str "a") file content)).1, ∅,
        (k.vfsResult (k.vfs.writeFile 0 (str "a") file content)).2) :=
    Kernel.executeRequest_writeFile World.quietEnvironment ∅ (congrArg Command.name hparse)
      ((congrArg Command.arguments hparse).trans hwords) rfl
  rw [hwrite] at hrun
  obtain ⟨hstored, -⟩ := h k World.quietEnvironment ∅ (str "a") rfl (congrArg (·.2.2.success) hrun)
  rw [handleVfsMenu_write _ hname hcontent] at hstored
  have hvfs : (kernelExecutor World.quietEnvironment request.rawLine (k, ∅)).2.1.vfs =
      k.vfs.addFile (str "a") file content 0 :=
    congrArg (·.1.vfs) hrun
  rw [hvfs, contentOf_eq] at hstored
  have hone : file = trim typedName ∧ content = typedContent := by
    simpa [addFile, newFile, k] using hstored
  have hplain : ∀ c ∈ trim typedName, isSpace c = false := by
    have hmem : file ∈ words (trim typedName) ++ words typedContent := by
      rw [hwords]
      exact List.mem_cons_self
    rw [← hone.1]
    rcases List.mem_append.mp hmem with hmem | hmem <;> exact (isSpace_of_mem_words hmem).2
  refine ⟨hplain, fun c hc => ?_⟩
  have hsep : ∀ c ∈ trim typedName, isSeparator c = false := fun c hmem =>
    isSeparator_of_not_isSpace (hplain c hmem)
  have hkept : typedContent.dropWhile isSeparator = typedContent :=
    (extractWriteFileContent_writeFileCommand hname hsep typedContent).symm.trans hone.2
  have hhead := List.head?_dropWhile_not isSeparator typedContent
  rw [hkept, Option.mem_def.mp hc] at hhead
  exact hhead

/-- The dialog writes what was typed exactly for a name without white space and a content that does
not begin with a separator, unless its command has no valid name or no text. -/
theorem writesTyped_iff {typedName typedContent : Str} (hname : trim typedName ≠ [])
    (hcontent : trim typedContent ≠ []) : WritesTyped typedName typedContent ↔
      (Acceptable (trim typedName) typedContent → Fits (trim typedName) typedContent) :=
  ⟨fits_of_writesTyped hname hcontent, writesTyped_of_fits hname hcontent⟩

theorem writesTyped_iff_padded : WritesTyped (str " f ") (str "x  y ") ↔
    (Acceptable (trim (str " f ")) (str "x  y ") → Fits (trim (str " f ")) (str "x  y ")) :=
  writesTyped_iff (by decide) (by decide)

/-- The spaces in front of a content are lost, and a space in the name sends the content to
another file. -/
theorem typed_text_shifted :
    let dialog (name content : Str) := (handleVfsMenu (kernelExecutor World.quietEnvironment)
      [str "2", name, content, str "0"] (World.loggedIn.kernel, ∅)).master.1.vfs
    (dialog (str "f") (str "  x")).contentOf (str "a") (str "f") = some (str "x") ∧
      ¬WritesTyped (str "f") (str "  x") ∧
      (dialog (str "g f") (str "x")).contentOf (str "a") (str "g") = some (str "f x") ∧
      ¬WritesTyped (str "g f") (str "x") := by
  have hlogin : World.loggedIn.kernel.userManager.currentUser = some (str "a") := by
    decide +kernel
  refine ⟨by decide +kernel, fun h => ?_, by decide +kernel, fun h => ?_⟩
  · have hstored := (h World.loggedIn.kernel World.quietEnvironment ∅ (str "a") hlogin
      (by decide +kernel)).1
    exact absurd hstored (by decide +kernel)
  · have hstored := (h World.loggedIn.kernel World.quietEnvironment ∅ (str "a") hlogin
      (by decide +kernel)).1
    exact absurd hstored (by decide +kernel)

end MenuConsole

end OSCoreSim
