import OSCoreSim.App.MenuConsole
import OSCoreSim.Ipc.InstanceGuard
/-!
# The menus

`MenuConsole::run` on the lines that are typed.  A dialog asks its questions and puts the answers
behind the name of its command; a menu is a table of dialogs and runs until it is left or the
lines end.  Whatever a part of the menu does, it reads the lines from the front, and its record
says so, which is why the loops around it end.
-/

namespace OSCoreSim

open CommandDispatcher

inductive MenuOutcome where
  | exitProgram
  | enterRawMode
  deriving DecidableEq, Repr

namespace MenuConsole

variable {σ : Type}

/-! ## Questions -/

/-- A call of `askRequired`, or of `askOptional`. -/
structure Question where
  prompt : Str
  isOptional : Bool := false
  preserveSpaces : Bool := false

def Question.answer (question : Question) (line : Str) : Str :=
  if question.isOptional then (if question.preserveSpaces then line else trim line)
  else required question.preserveSpaces line

inductive Asked where
  | endOfInput (output : Str)
  | cancelled (output : Str) (unread : List Str)
  | answered (output : Str) (answers unread : List Str)

/-- The questions of a dialog: a blank answer to `askRequired` cancels it. -/
def askAll : List Question → List Str → Asked
  | [], lines => .answered [] [] lines
  | question :: _, [] => .endOfInput question.prompt
  | question :: questions, line :: lines =>
    let answer := question.answer line
    if question.isOptional = false ∧ answer = [] then
      .cancelled (question.prompt ++ cancelledText) lines
    else match askAll questions lines with
      | .endOfInput output => .endOfInput (question.prompt ++ output)
      | .cancelled output unread => .cancelled (question.prompt ++ output) unread
      | .answered output answers unread =>
        .answered (question.prompt ++ output) (answer :: answers) unread

/-! ## Commands -/

/-- The command that a dialog puts together: an optional answer that is empty is left out. -/
def commandLine (name : Str) (answers : List Str) : Str :=
  name ++ ((answers.filter (· ≠ [])).map (str " " ++ ·)).flatten

def messageText (result : MenuCommandResult) : Str :=
  if result.message = [] then str "（无输出）\n" else result.message ++ str "\n"

def processTableText : Str := str "\n========== 当前进程表 ==========\n"

def executeProcessCommandAndShowTable (executor : Str → σ → MenuCommandResult × σ) (command : Str)
    (master : σ) : Str × Bool × σ :=
  let done := execute executor command master
  let table := executor (str "list_pcb") done.2.2
  (done.1 ++ processTableText ++ messageText table.1, done.2.1 || table.1.fatalError, table.2)

def executeMemoryAllocationAndShowState (executor : Str → σ → MenuCommandResult × σ)
    (command : Str) (master : σ) : Str × Bool × σ :=
  let done := executor command master
  let map := executor (str "show_mem") done.2
  let processes := executor (str "list_pcb") map.2
  (str "\n正在执行命令：\n" ++ maskedCommandForDisplay command ++ str "\n\n命令执行结果：\n" ++
      messageText done.1 ++ str "\n========== 当前内存分区 ==========\n" ++ messageText map.1 ++
      processTableText ++ messageText processes.1,
    done.1.shouldExit || done.1.fatalError || map.1.shouldExit || map.1.fatalError ||
      processes.1.shouldExit || processes.1.fatalError,
    processes.2)

/-! ## Handlers -/

/-- A part of the menu: it reads some lines and leaves the others. -/
structure Handler (σ : Type) where
  run : List Str → σ → MenuRun σ
  reads : ∀ lines master, (run lines master).unread <:+ lines

def Asked.unread : Asked → List Str
  | .endOfInput _ => []
  | .cancelled _ unread => unread
  | .answered _ _ unread => unread

theorem askAll_suffix (questions : List Question) (lines : List Str) :
    (askAll questions lines).unread <:+ lines := by
  induction questions generalizing lines with
  | nil => exact List.suffix_rfl
  | cons question questions ih =>
    cases lines with
    | nil => exact List.suffix_rfl
    | cons line lines =>
      have hrest := (ih lines).trans (List.suffix_cons line lines)
      unfold askAll
      dsimp only
      split
      · exact List.suffix_cons line lines
      · split
        next heq =>
          rw [heq] at hrest
          exact hrest
        next heq =>
          rw [heq] at hrest
          exact hrest
        next heq =>
          rw [heq] at hrest
          exact hrest

/-- A dialog with one command, which `perform` executes. -/
def dialog (perform : Str → σ → Str × Bool × σ) (name : Str) (questions : List Question) :
    Handler σ where
  run lines master :=
    match askAll questions lines with
    | .endOfInput output => endOfInput output master
    | .cancelled output unread =>
      { output := output, leave := false, unread := unread, master := master }
    | .answered output answers unread =>
      let done := perform (commandLine name answers) master
      { output := output ++ done.1, leave := done.2.1, unread := unread, master := done.2.2 }
  reads lines master := by
    have hsuffix := askAll_suffix questions lines
    split
    next => exact List.nil_suffix
    next heq =>
      rw [heq] at hsuffix
      exact hsuffix
    next heq =>
      rw [heq] at hsuffix
      exact hsuffix

/-! ## Creating processes one after another -/

def askProcessNameText : Str := str "请输入进程名称（输入 0 退出）："

def createQuestions : List Question :=
  [{ prompt := str "请输入内存大小 KB：" }, { prompt := str "请输入优先级 0-15：" },
    { prompt := str "请输入总运行时间 tick：" },
    { prompt := str "请输入父进程 PID（可直接回车跳过）：", isOptional := true }]

def continueCreateText : Str := str "\n是否继续创建进程？（输入 1 继续，其他任意键返回）："

/-- The loop of `handleContinuousCreateProcess`. -/
def createRounds (executor : Str → σ → MenuCommandResult × σ) : List Str → σ → MenuRun σ
  | [], master => endOfInput askProcessNameText master
  | line :: lines, master =>
    let name := required false line
    if name = [] then
      (createRounds executor lines master).after (askProcessNameText ++ cancelledText)
    else if trim name = str "0" then
      { output := askProcessNameText ++ str "已退出连续创建流程，返回进程管理菜单。\n", leave := false
        unread := lines, master := master }
    else match _ : askAll createQuestions lines with
      | .endOfInput output => endOfInput (askProcessNameText ++ output) master
      | .cancelled output unread =>
        (createRounds executor unread master).after (askProcessNameText ++ output)
      | .answered output answers unread =>
        let done := executeProcessCommandAndShowTable executor
          (commandLine (str "create_pcb") (name :: answers)) master
        let shown := askProcessNameText ++ output ++ done.1
        if done.2.1 then { output := shown, leave := true, unread := unread, master := done.2.2 }
        else match unread with
          | [] => endOfInput (shown ++ continueCreateText) done.2.2
          | again :: rest =>
            if trim again = str "1" then
              (createRounds executor rest done.2.2).after (shown ++ continueCreateText)
            else
              { output := shown ++ continueCreateText ++ str "已返回进程管理菜单。\n"
                leave := false, unread := rest, master := done.2.2 }
termination_by lines => lines.length
decreasing_by
  · exact Nat.lt_succ_self _
  · have hle := (askAll_suffix createQuestions lines).length_le
    rw [‹askAll createQuestions lines = _›] at hle
    exact Nat.lt_succ_of_le hle
  · have hle := (askAll_suffix createQuestions lines).length_le
    rw [‹askAll createQuestions lines = _›] at hle
    exact Nat.lt_succ_of_lt hle

/-! ## Allocating memory one block after another -/

def isValidMemoryTag (value : Str) : Bool :=
  let trimmed := trim value
  trimmed ≠ [] ∧ trimmed.length ≤ 32 ∧
    trimmed.all fun ch => isAlnum ch || ch == 95 || ch == 45 || ch == 46

def isPositiveIntegerText (input : Str) : Bool :=
  trim input ≠ [] ∧ (trim input).all isDigit

def isZeroIntegerText (input : Str) : Bool :=
  trim input ≠ [] ∧ (trim input).all (· == 48)

def isNegativeIntegerText (input : Str) : Bool :=
  match trim input with
  | sign :: digit :: digits => sign = 45 ∧ (digit :: digits).all isDigit
  | _ => false

def tagComplaint (name : Str) : Option Str :=
  if name = [] then some (str "内存区名称不能为空，请重新输入。\n")
  else if !isValidMemoryTag name then
    some (str "内存区名称只能包含字母、数字、下划线、横线或点号，请重新输入。\n")
  else none

def sizeComplaint (size : Str) : Option Str :=
  if size = [] then some (str "内存大小不能为空，请重新输入。\n")
  else if isNegativeIntegerText size then some (str "内存大小必须大于 0 KB，请重新输入。\n")
  else if !isPositiveIntegerText size then some (str "内存大小必须是正整数 KB，请重新输入。\n")
  else if isZeroIntegerText size then some (str "内存大小必须大于 0 KB，请重新输入。\n")
  else none

def askTagText : Str := str "请输入内存区名称（输入 0 退出）："

def askSizeText : Str := str "请输入内存大小 KB："

def continueAllocText : Str := str "\n是否继续分配内存？（输入 1 继续，其他任意键返回）："

/-- The loop of `handleContinuousManualMemoryAllocation`. -/
def allocRounds (executor : Str → σ → MenuCommandResult × σ) : List Str → σ → MenuRun σ
  | [], master => endOfInput askTagText master
  | line :: lines, master =>
    let name := trim line
    if name = str "0" then
      { output := askTagText ++ str "已退出连续分配流程，返回内存管理菜单。\n", leave := false
        unread := lines, master := master }
    else match tagComplaint name with
      | some text => (allocRounds executor lines master).after (askTagText ++ text)
      | none =>
        match lines with
        | [] => endOfInput (askTagText ++ askSizeText) master
        | sizeLine :: lines =>
          let size := trim sizeLine
          match sizeComplaint size with
          | some text =>
            (allocRounds executor lines master).after (askTagText ++ askSizeText ++ text)
          | none =>
            let command := commandLine (str "alloc") [name, size]
            let done := executeMemoryAllocationAndShowState executor command master
            let shown := askTagText ++ askSizeText ++ str "\n系统将执行命令：\n" ++ command ++
              str "\n" ++ done.1
            if done.2.1 then { output := shown, leave := true, unread := lines, master := done.2.2 }
            else match lines with
              | [] => endOfInput (shown ++ continueAllocText) done.2.2
              | again :: lines =>
                if trim again = str "1" then
                  (allocRounds executor lines done.2.2).after (shown ++ continueAllocText)
                else
                  { output := shown ++ continueAllocText ++ str "已返回内存管理菜单。\n"
                    leave := false, unread := lines, master := done.2.2 }

@[simp] theorem MenuRun.after_unread (output : Str) (run : MenuRun σ) :
    (run.after output).unread = run.unread := rfl

theorem createRounds_suffix (executor : Str → σ → MenuCommandResult × σ) (lines : List Str)
    (master : σ) : (createRounds executor lines master).unread <:+ lines := by
  fun_induction createRounds executor lines master with
  | case1 => exact List.suffix_rfl
  | case2 line lines _ _ _ ih => exact ih.trans (List.suffix_cons line lines)
  | case3 line lines => exact List.suffix_cons line lines
  | case4 => exact List.nil_suffix
  | case5 line lines _ _ _ _ output unread hasked ih =>
    have hrest := askAll_suffix createQuestions lines
    rw [hasked] at hrest
    exact ih.trans (hrest.trans (List.suffix_cons line lines))
  | case6 line lines _ _ _ _ output answers unread hasked =>
    have hrest := askAll_suffix createQuestions lines
    rw [hasked] at hrest
    exact hrest.trans (List.suffix_cons line lines)
  | case7 => exact List.nil_suffix
  | case8 line lines _ _ _ _ output answers _ _ _ again rest hasked _ _ ih =>
    have hrest := askAll_suffix createQuestions lines
    rw [hasked] at hrest
    exact ih.trans ((List.suffix_cons again rest).trans (hrest.trans (List.suffix_cons line lines)))
  | case9 line lines _ _ _ _ output answers _ _ _ again rest hasked =>
    have hrest := askAll_suffix createQuestions lines
    rw [hasked] at hrest
    exact (List.suffix_cons again rest).trans (hrest.trans (List.suffix_cons line lines))

theorem allocRounds_suffix (executor : Str → σ → MenuCommandResult × σ) (lines : List Str)
    (master : σ) : (allocRounds executor lines master).unread <:+ lines := by
  fun_induction allocRounds executor lines master with
  | case1 => exact List.suffix_rfl
  | case2 line lines => exact List.suffix_cons line lines
  | case3 line lines _ _ _ _ _ ih => exact ih.trans (List.suffix_cons line lines)
  | case4 => exact List.nil_suffix
  | case5 line _ _ _ _ sizeLine lines _ _ _ ih =>
    exact ih.trans (List.suffix_append [line, sizeLine] lines)
  | case6 line _ _ _ _ sizeLine lines => exact List.suffix_append [line, sizeLine] lines
  | case7 => exact List.nil_suffix
  | case8 line _ _ _ _ sizeLine _ _ _ _ _ _ again lines _ ih =>
    exact ih.trans (List.suffix_append [line, sizeLine, again] lines)
  | case9 line _ _ _ _ sizeLine _ _ _ _ _ _ again lines =>
    exact List.suffix_append [line, sizeLine, again] lines

def createProcessesText : Str :=
  str "\n========== 连续创建进程 ==========\n输入进程信息后将创建一个进程，每次创建后自动显示进程表。\n" ++
    str "进程名输入 0 可退出连续创建流程。\n"

def handleContinuousCreateProcess (executor : Str → σ → MenuCommandResult × σ) : Handler σ where
  run lines master := (createRounds executor lines master).after createProcessesText
  reads lines master := by
    rw [MenuRun.after_unread]
    exact createRounds_suffix executor lines master

def allocateMemoryText : Str :=
  str "\n========== 连续分配内存 ==========\n" ++
    str "输入内存区信息后将创建一个手动内存区，每次分配后自动显示内存分区和进程表。\n" ++
    str "内存区名称会显示在 show_mem 的 Tag 列中。\n手动内存区不会创建 PCB，进程表仅用于对照观察。\n" ++
    str "内存区名称输入 0 可退出连续分配流程。\n"

def handleContinuousManualMemoryAllocation (executor : Str → σ → MenuCommandResult × σ) :
    Handler σ where
  run lines master := (allocRounds executor lines master).after allocateMemoryText
  reads lines master := by
    rw [MenuRun.after_unread]
    exact allocRounds_suffix executor lines master

/-! ## Menus -/

/-- What a choice leads to: a dialog for one command, or one of the two loops. -/
inductive Entry where
  | command (name : Str) (questions : List Question)
  /-- A command that `executeProcessCommandAndShowTable` executes. -/
  | processCommand (name : Str) (questions : List Question)
  | createProcesses
  | allocateMemory

def Entry.handler (executor : Str → σ → MenuCommandResult × σ) : Entry → Handler σ
  | .command name questions => dialog (execute executor) name questions
  | .processCommand name questions =>
    dialog (executeProcessCommandAndShowTable executor) name questions
  | .createProcesses => handleContinuousCreateProcess executor
  | .allocateMemory => handleContinuousManualMemoryAllocation executor

structure Menu where
  text : Str
  entries : List (Str × Entry)

/-- The loop of every menu: the choice `0` and the end of the input leave it, a choice that it does
not have is invalid, and a blank one is said to be so twice. -/
def menuLoop (executor : Str → σ → MenuCommandResult × σ) (menu : Menu) :
    List Str → σ → MenuRun σ
  | [], master => endOfInput menu.text master
  | line :: lines, master =>
    let choice := trim line
    if choice = str "0" then
      { output := menu.text ++ str "已返回主菜单。\n", leave := false, unread := lines
        master := master }
    else match menu.entries.lookup choice with
      | none => (menuLoop executor menu lines master).after
          (menu.text ++ (if choice = [] then invalidText else []) ++ invalidText)
      | some entry =>
        let done := (entry.handler executor).run lines master
        if done.leave then done.after menu.text
        else (menuLoop executor menu done.unread done.master).after (menu.text ++ done.output)
termination_by lines => lines.length
decreasing_by
  · exact Nat.lt_succ_self _
  · exact Nat.lt_succ_of_le ((entry.handler executor).reads lines master).length_le

def choiceText : Str := str "请输入选项编号："

def askPid : Question := { prompt := str "请输入PID：" }

def userMenu : Menu where
  text := str "\n========== 用户管理 ==========\n1. 注册用户\n2. 登录用户\n3. 退出登录\n" ++
    str "4. 查看当前用户\n0. 返回主菜单\n" ++ choiceText
  entries :=
    let asked := [{ prompt := str "请输入用户名：" }, { prompt := str "请输入密码：" }]
    [(str "1", .command (str "register") asked), (str "2", .command (str "login") asked),
      (str "3", .command (str "logout") []), (str "4", .command (str "whoami") [])]

def processMenu : Menu where
  text := str "\n========== 进程管理 ==========\n1. 创建进程\n2. 查看进程列表\n3. 查看进程详情\n" ++
    str "4. 查看进程树\n5. 阻塞进程\n6. 唤醒进程\n7. 挂起进程\n8. 恢复进程\n" ++
    str "9. 修改进程优先级\n10. 删除进程\n11. 查看就绪队列\n0. 返回主菜单\n" ++ choiceText
  entries :=
    [(str "1", .createProcesses), (str "2", .command (str "list_pcb") []),
      (str "3", .command (str "show_pcb") [askPid]), (str "4", .command (str "ptree") []),
      (str "5", .processCommand (str "block_pcb") [askPid]),
      (str "6", .processCommand (str "wakeup_pcb") [askPid]),
      (str "7", .processCommand (str "suspend") [askPid]),
      (str "8", .processCommand (str "resume") [askPid]),
      (str "9", .processCommand (str "renice") [askPid, { prompt := str "请输入新的优先级0-15：" }]),
      (str "10", .processCommand (str "kill_pcb") [askPid]),
      (str "11", .command (str "readyq") [])]

def memoryMenu : Menu where
  text := str "\n========== 内存管理 ==========\n1. 手动分配内存\n2. 释放手动内存\n" ++
    str "3. 查看内存分区\n4. 查看内存统计\n5. 内存紧缩\n6. 切换分配算法\n7. 模拟缺页中断\n" ++
    str "8. 换出进程\n0. 返回主菜单\n" ++ choiceText
  entries :=
    [(str "1", .allocateMemory),
      (str "2", .command (str "free_mem") [{ prompt := str "请输入起始地址：" }]),
      (str "3", .command (str "show_mem") []), (str "4", .command (str "mem_stat") []),
      (str "5", .command (str "compact") []),
      (str "6", .command (str "set_alloc_algo") [{ prompt := str "请输入分配算法（FF/BF/WF）：" }]),
      (str "7", .command (str "pgfault")
        [{ prompt := str "请输入PID（可直接回车执行通用缺页）：", isOptional := true }]),
      (str "8", .command (str "swap_out") [askPid])]

def schedulerMenu : Menu where
  text := str "\n========== 调度管理 ==========\n1. 单步调度\n2. 启动自动调度\n3. 停止自动调度\n" ++
    str "4. 重启调度器\n0. 返回主菜单\n" ++ choiceText
  entries :=
    [(str "1", .command (str "step") []), (str "2", .command (str "start_sched") []),
      (str "3", .command (str "stop_sched") []), (str "4", .command (str "restart_sched") [])]

def persistenceMenu : Menu where
  text := str "\n========== 持久化管理 ==========\n1. 保存系统状态\n2. 加载系统状态\n0. 返回主菜单\n" ++
    choiceText
  entries := [(str "1", .command (str "save") []), (str "2", .command (str "load") [])]

def overviewMenu : Menu where
  text := str "\n========== 系统总览 ==========\n1. 查看系统全局总览\n2. 查看系统状态\n" ++
    str "0. 返回主菜单\n" ++ choiceText
  entries := [(str "1", .command (str "overview") []), (str "2", .command (str "status") [])]

def askFileName : Question := { prompt := askNameText }

/-- `handleVfsMenu`, as a table. -/
def vfsMenu : Menu where
  text := vfsMenuText
  entries :=
    [(str "1", .command (str "touch_file") [askFileName]),
      (str "2", .command (str "write_file")
        [askFileName, { prompt := askContentText, preserveSpaces := true }]),
      (str "3", .command (str "read_file") [askFileName]), (str "4", .command (str "ls_file") []),
      (str "5", .command (str "rm_file") [askFileName])]

/-! ## The main menu -/

def mainMenuText : Str :=
  str "\n========== 主菜单 ==========\n1. 用户管理\n2. 进程管理\n3. 内存管理\n4. 调度管理\n" ++
    str "5. 持久化管理\n6. 系统总览\n7. 虚拟文件系统\n8. 进入原始命令模式\n0. 退出程序\n" ++ choiceText

def mainMenus : List (Str × Menu) :=
  [(str "1", userMenu), (str "2", processMenu), (str "3", memoryMenu), (str "4", schedulerMenu),
    (str "5", persistenceMenu), (str "6", overviewMenu), (str "7", vfsMenu)]

def confirmText : Str := str "是否确认退出？输入 y 确认："

/-- `confirmExit`: what it prints, whether it is confirmed, and the lines behind it.  The end of
the input confirms. -/
def confirmExit : List Str → Str × Bool × List Str
  | [] => (confirmText ++ str "\n", true, [])
  | answer :: lines =>
    let normalized := toLower (trim answer)
    (confirmText, normalized = str "y" ∨ normalized = str "yes", lines)

theorem confirmExit_suffix (lines : List Str) : (confirmExit lines).2.2 <:+ lines := by
  cases lines with
  | nil => exact List.suffix_rfl
  | cons answer lines => exact List.suffix_cons answer lines

structure MenuEnd (σ : Type) where
  output : Str
  outcome : MenuOutcome
  unread : List Str
  master : σ

def MenuEnd.after (output : Str) (ended : MenuEnd σ) : MenuEnd σ :=
  { ended with output := output ++ ended.output }

theorem menuLoop_suffix (executor : Str → σ → MenuCommandResult × σ) (menu : Menu)
    (lines : List Str) (master : σ) : (menuLoop executor menu lines master).unread <:+ lines := by
  fun_induction menuLoop executor menu lines master with
  | case1 => exact List.suffix_rfl
  | case2 line lines => exact List.suffix_cons line lines
  | case3 line lines _ _ _ _ ih => exact ih.trans (List.suffix_cons line lines)
  | case4 line lines master _ _ entry =>
    exact ((entry.handler executor).reads lines master).trans (List.suffix_cons line lines)
  | case5 line lines master _ _ entry _ _ _ ih =>
    have hread := (entry.handler executor).reads lines master
    exact ih.trans (hread.trans (List.suffix_cons line lines))

def run (role : InstanceRole) (executor : Str → σ → MenuCommandResult × σ) :
    List Str → σ → MenuEnd σ
  | [], master =>
    { output := mainMenuText ++ str "\n", outcome := .exitProgram, unread := [], master := master }
  | line :: lines, master =>
    let choice := trim line
    match mainMenus.lookup choice with
    | some menu =>
      let done := menuLoop executor menu lines master
      if done.leave then
        { output := mainMenuText ++ done.output, outcome := .exitProgram, unread := done.unread
          master := done.master }
      else (run role executor done.unread done.master).after (mainMenuText ++ done.output)
    | none =>
      if choice = str "8" then
        { output := mainMenuText ++ str "已切换到原始命令模式。\n", outcome := .enterRawMode
          unread := lines, master := master }
      else if choice = str "0" then
        let confirmed := confirmExit lines
        if confirmed.2.1 then
          match role with
          | .master =>
            let done := execute executor (str "exit") master
            { output := mainMenuText ++ confirmed.1 ++ done.1, outcome := .exitProgram
              unread := confirmed.2.2, master := done.2.2 }
          | .client =>
            { output := mainMenuText ++ confirmed.1 ++ str "正在关闭当前客户端窗口。\n"
              outcome := .exitProgram, unread := confirmed.2.2, master := master }
        else
          (run role executor confirmed.2.2 master).after
            (mainMenuText ++ confirmed.1 ++ str "已取消退出，返回主菜单。\n")
      else
        (run role executor lines master).after
          (mainMenuText ++ (if choice = [] then invalidText else []) ++ invalidText)
termination_by lines => lines.length
decreasing_by
  · exact Nat.lt_succ_of_le (menuLoop_suffix executor menu lines master).length_le
  · exact Nat.lt_succ_of_le (confirmExit_suffix lines).length_le
  · exact Nat.lt_succ_self _

theorem run_suffix (role : InstanceRole) (executor : Str → σ → MenuCommandResult × σ)
    (lines : List Str) (master : σ) : (run role executor lines master).unread <:+ lines := by
  fun_induction run role executor lines master with
  | case1 => exact List.suffix_rfl
  | case2 line lines master _ menu =>
    exact (menuLoop_suffix executor menu lines master).trans (List.suffix_cons line lines)
  | case3 line lines master _ menu _ _ _ ih =>
    have hread := menuLoop_suffix executor menu lines master
    exact ih.trans (hread.trans (List.suffix_cons line lines))
  | case4 line lines => exact List.suffix_cons line lines
  | case5 line lines => exact (confirmExit_suffix lines).trans (List.suffix_cons line lines)
  | case6 line lines => exact (confirmExit_suffix lines).trans (List.suffix_cons line lines)
  | case7 line lines _ _ _ _ _ _ _ ih =>
    exact ih.trans ((confirmExit_suffix lines).trans (List.suffix_cons line lines))
  | case8 line lines _ _ _ _ _ ih => exact ih.trans (List.suffix_cons line lines)

end MenuConsole

end OSCoreSim
