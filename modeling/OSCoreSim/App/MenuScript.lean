import OSCoreSim.App.Menus
import OSCoreSim.Lib.Runs
/-!
# The script of a menu session

The menus look at two bits of a reply only: whether to exit and whether the connection is lost.
Two executors that agree on them lead through the same menus, so what a session sends is settled
by what is typed.  The relation `R` between the two masters is kept by every command.
-/

namespace OSCoreSim

open CommandDispatcher

namespace MenuConsole

variable {σ τ : Type} {R : σ → τ → Prop} {allowed typed : Str → Prop}
  {executor : Str → σ → MenuCommandResult × σ} {executor' : Str → τ → MenuCommandResult × τ}

/-! ## The commands of the menus -/

def menuNames : List Str :=
  [str "register", str "login", str "logout", str "whoami", str "create_pcb", str "list_pcb",
    str "show_pcb", str "ptree", str "block_pcb", str "wakeup_pcb", str "suspend", str "resume",
    str "renice", str "kill_pcb", str "readyq", str "alloc", str "free_mem", str "show_mem",
    str "mem_stat", str "compact", str "set_alloc_algo", str "pgfault", str "swap_out", str "step",
    str "start_sched", str "stop_sched", str "restart_sched", str "save", str "load",
    str "overview", str "status", str "touch_file", str "write_file", str "read_file",
    str "ls_file", str "rm_file"]

/-- A dialog of a menu sends one of these commands and asks five questions at most. -/
def Entry.Plain : Entry → Prop
  | .command name questions => name ∈ menuNames ∧ questions.length ≤ 5
  | .processCommand name questions => name ∈ menuNames ∧ questions.length ≤ 5
  | .createProcesses => True
  | .allocateMemory => True

instance (entry : Entry) : Decidable entry.Plain :=
  match entry with
  | .command name questions => inferInstanceAs (Decidable (name ∈ menuNames ∧ questions.length ≤ 5))
  | .processCommand name questions =>
    inferInstanceAs (Decidable (name ∈ menuNames ∧ questions.length ≤ 5))
  | .createProcesses => isTrue trivial
  | .allocateMemory => isTrue trivial

theorem plain_mainMenus :
    ∀ menu ∈ mainMenus, ∀ entry ∈ menu.2.entries, entry.2.Plain := by decide +kernel

/-! ## Executors -/

/-- The executors answer every allowed command with the same bits and keep `R`. -/
structure Alike (R : σ → τ → Prop) (allowed : Str → Prop)
    (executor : Str → σ → MenuCommandResult × σ) (executor' : Str → τ → MenuCommandResult × τ) :
    Prop where
  exits : ∀ command, allowed command → ∀ m m', R m m' →
    (executor command m).1.shouldExit = (executor' command m').1.shouldExit
  fatal : ∀ command, allowed command → ∀ m m', R m m' →
    (executor command m).1.fatalError = (executor' command m').1.fatalError
  next : ∀ command, allowed command → ∀ m m', R m m' →
    R (executor command m).2 (executor' command m').2

def PerformAlike (R : σ → τ → Prop) (allowed : Str → Prop) (perform : Str → σ → Str × Bool × σ)
    (perform' : Str → τ → Str × Bool × τ) : Prop :=
  ∀ command, allowed command → ∀ m m', R m m' →
    (perform command m).2.1 = (perform' command m').2.1 ∧
      R (perform command m).2.2 (perform' command m').2.2

theorem performAlike_execute (h : Alike R allowed executor executor') :
    PerformAlike R allowed (execute executor) (execute executor') := by
  intro command hallowed m m' hm
  refine ⟨?_, h.next command hallowed m m' hm⟩
  simp only [execute, h.exits command hallowed m m' hm, h.fatal command hallowed m m' hm]

theorem performAlike_table (h : Alike R allowed executor executor')
    (hlist : allowed (str "list_pcb")) :
    PerformAlike R allowed (executeProcessCommandAndShowTable executor)
      (executeProcessCommandAndShowTable executor') := by
  intro command hallowed m m' hm
  obtain ⟨hleave, hnext⟩ := performAlike_execute h command hallowed m m' hm
  refine ⟨?_, h.next _ hlist _ _ hnext⟩
  simp only [executeProcessCommandAndShowTable, hleave, h.fatal _ hlist _ _ hnext]

theorem performAlike_state (h : Alike R allowed executor executor')
    (hshow : allowed (str "show_mem")) (hlist : allowed (str "list_pcb")) :
    PerformAlike R allowed (executeMemoryAllocationAndShowState executor)
      (executeMemoryAllocationAndShowState executor') := by
  intro command hallowed m m' hm
  have hdone := h.next command hallowed m m' hm
  have hmap := h.next _ hshow _ _ hdone
  refine ⟨?_, h.next _ hlist _ _ hmap⟩
  simp only [executeMemoryAllocationAndShowState, h.exits command hallowed m m' hm,
    h.fatal command hallowed m m' hm, h.exits _ hshow _ _ hdone, h.fatal _ hshow _ _ hdone,
    h.exits _ hlist _ _ hmap, h.fatal _ hlist _ _ hmap]

/-! ## Answers -/

/-- Every command that answers of this kind can be put into is allowed. -/
structure Admits (typed allowed : Str → Prop) : Prop where
  empty : typed []
  trim : ∀ line, typed line → typed (trim line)
  command : ∀ name ∈ menuNames, ∀ answers : List Str, answers.length ≤ 5 →
    (∀ answer ∈ answers, typed answer) → allowed (commandLine name answers)

theorem Admits.list_pcb (h : Admits typed allowed) : allowed (str "list_pcb") :=
  h.command (str "list_pcb") (by decide) [] (by simp) fun _ hmem => by cases hmem

theorem Admits.show_mem (h : Admits typed allowed) : allowed (str "show_mem") :=
  h.command (str "show_mem") (by decide) [] (by simp) fun _ hmem => by cases hmem

theorem Admits.required (h : Admits typed allowed) {line : Str}
    (hline : typed line) (preserveSpaces : Bool) : typed (required preserveSpaces line) := by
  unfold MenuConsole.required
  split
  · exact h.empty
  · split
    · exact hline
    · exact h.trim line hline

theorem Admits.answer (h : Admits typed allowed) {line : Str}
    (hline : typed line) (question : Question) : typed (question.answer line) := by
  unfold Question.answer
  split
  · split
    · exact hline
    · exact h.trim line hline
  · exact h.required hline _

theorem askAll_answered (h : Admits typed allowed) {questions : List Question}
    {lines answers unread : List Str} {output : Str}
    (hlines : ∀ line ∈ lines, typed line)
    (hasked : askAll questions lines = .answered output answers unread) :
    answers.length = questions.length ∧ ∀ answer ∈ answers, typed answer := by
  induction questions generalizing lines output answers with
  | nil =>
    cases hasked
    exact ⟨rfl, fun answer hmem => by cases hmem⟩
  | cons question questions ih =>
    cases lines with
    | nil => cases hasked
    | cons line lines =>
      unfold askAll at hasked
      dsimp only at hasked
      split at hasked
      · cases hasked
      · split at hasked
        · cases hasked
        · cases hasked
        next hrest =>
          cases hasked
          have htail : ∀ l ∈ lines, typed l := fun l hmem =>
            hlines l (List.mem_cons_of_mem line hmem)
          obtain ⟨hlength, hanswers⟩ := ih htail hrest
          refine ⟨congrArg (· + 1) hlength, fun answer hmem => ?_⟩
          rcases List.mem_cons.mp hmem with rfl | hmem
          · exact h.answer (hlines line List.mem_cons_self) question
          · exact hanswers answer hmem

/-! ## Runs of a menu -/

/-- Two runs that leave the same lines and related masters. -/
structure MenuRun.Similar (R : σ → τ → Prop) (a : MenuRun σ) (b : MenuRun τ) : Prop where
  leave : a.leave = b.leave
  unread : a.unread = b.unread
  master : R a.master b.master

theorem similar_after {a : MenuRun σ} {b : MenuRun τ} (h : MenuRun.Similar R a b)
    (output output' : Str) : MenuRun.Similar R (a.after output) (b.after output') :=
  ⟨h.leave, h.unread, h.master⟩

theorem similar_endOfInput {m : σ} {m' : τ} (hm : R m m') (output output' : Str) :
    MenuRun.Similar R (endOfInput output m) (endOfInput output' m') := ⟨rfl, rfl, hm⟩

theorem similar_dialog (hadmits : Admits typed allowed)
    {perform : Str → σ → Str × Bool × σ} {perform' : Str → τ → Str × Bool × τ}
    (h : PerformAlike R allowed perform perform') {name : Str} (hname : name ∈ menuNames)
    {questions : List Question} (hquestions : questions.length ≤ 5) {lines : List Str}
    (hlines : ∀ line ∈ lines, typed line) {m : σ} {m' : τ} (hm : R m m') :
    MenuRun.Similar R ((dialog perform name questions).run lines m)
      ((dialog perform' name questions).run lines m') := by
  unfold dialog
  dsimp only
  split
  · exact similar_endOfInput hm _ _
  · exact ⟨rfl, rfl, hm⟩
  next answers unread hasked =>
    obtain ⟨hlength, hanswers⟩ := askAll_answered hadmits hlines hasked
    have hallowed := hadmits.command name hname answers (hlength ▸ hquestions) hanswers
    obtain ⟨hleave, hnext⟩ := h _ hallowed m m' hm
    exact ⟨hleave, rfl, hnext⟩

section Rounds

variable (hadmits : Admits typed allowed) (h : Alike R allowed executor executor')
include hadmits h

theorem similar_createRounds {lines : List Str}
    (hlines : ∀ line ∈ lines, typed line) {m : σ} {m' : τ} (hm : R m m') :
    MenuRun.Similar R (createRounds executor lines m) (createRounds executor' lines m') := by
  induction hlength : lines.length using Nat.strong_induction_on generalizing lines m m' with
  | _ n ih =>
    cases lines with
    | nil =>
      rw [createRounds, createRounds]
      exact similar_endOfInput hm _ _
    | cons line lines =>
      have hline : typed line := hlines line List.mem_cons_self
      have htail : ∀ l ∈ lines, typed l := fun l hmem => hlines l (List.mem_cons_of_mem line hmem)
      -- the rest of the lines behind the questions is typed as well, and shorter
      have hrest : ∀ rest, rest <:+ lines → (∀ l ∈ rest, typed l) ∧ rest.length < n :=
        fun rest hsuffix => ⟨fun l hmem => htail l (hsuffix.subset hmem),
          hlength ▸ Nat.lt_succ_of_le hsuffix.length_le⟩
      have hsuffix := askAll_suffix createQuestions lines
      rw [createRounds, createRounds]
      dsimp only
      split
      · exact similar_after (ih _ (hrest lines List.suffix_rfl).2 htail hm rfl) _ _
      split
      · exact ⟨rfl, rfl, hm⟩
      split
      · exact similar_endOfInput hm _ _
      next output unread hasked =>
        rw [hasked] at hsuffix
        obtain ⟨htyped, hlt⟩ := hrest unread hsuffix
        exact similar_after (ih _ hlt htyped hm rfl) _ _
      next output answers unread hasked =>
        rw [hasked] at hsuffix
        obtain ⟨hcount, hanswers⟩ := askAll_answered hadmits htail hasked
        have hcommand := hadmits.command (str "create_pcb") (by decide)
        have hallowed := hcommand (required false line :: answers)
          (by rw [List.length_cons, hcount]; decide) fun answer hmem => by
            rcases List.mem_cons.mp hmem with rfl | hmem
            · exact hadmits.required hline false
            · exact hanswers answer hmem
        obtain ⟨hleave, hnext⟩ := performAlike_table h hadmits.list_pcb _ hallowed m m' hm
        rw [hleave]
        split
        · exact ⟨rfl, rfl, hnext⟩
        split
        · exact similar_endOfInput hnext _ _
        next again rest _ =>
          have hbehind : rest <:+ lines := (List.suffix_cons again rest).trans hsuffix
          split
          · exact similar_after (ih _ (hrest rest hbehind).2 (hrest rest hbehind).1 hnext rfl) _ _
          · exact ⟨rfl, rfl, hnext⟩

theorem similar_allocRounds {lines : List Str}
    (hlines : ∀ line ∈ lines, typed line) {m : σ} {m' : τ} (hm : R m m') :
    MenuRun.Similar R (allocRounds executor lines m) (allocRounds executor' lines m') := by
  induction hlength : lines.length using Nat.strong_induction_on generalizing lines m m' with
  | _ n ih =>
    cases lines with
    | nil => exact similar_endOfInput hm _ _
    | cons line lines =>
      have hline : typed line := hlines line List.mem_cons_self
      have htail : ∀ l ∈ lines, typed l := fun l hmem => hlines l (List.mem_cons_of_mem line hmem)
      have hrest : ∀ rest, rest <:+ lines → (∀ l ∈ rest, typed l) ∧ rest.length < n :=
        fun rest hsuffix => ⟨fun l hmem => htail l (hsuffix.subset hmem),
          hlength ▸ Nat.lt_succ_of_le hsuffix.length_le⟩
      rw [allocRounds.eq_def, allocRounds.eq_def executor']
      dsimp only
      split
      · exact ⟨rfl, rfl, hm⟩
      split
      · exact similar_after (ih _ (hrest lines List.suffix_rfl).2 htail hm rfl) _ _
      split
      · exact similar_endOfInput hm _ _
      next sizeLine lines =>
        have hbehind : lines <:+ sizeLine :: lines := List.suffix_cons sizeLine lines
        split
        · exact similar_after (ih _ (hrest lines hbehind).2 (hrest lines hbehind).1 hm rfl) _ _
        have hcommand := hadmits.command (str "alloc") (by decide)
        have hallowed := hcommand [trim line, trim sizeLine] (by simp)
          fun answer hmem => by
            rcases List.mem_pair.mp hmem with rfl | rfl
            · exact hadmits.trim line hline
            · exact hadmits.trim sizeLine (htail sizeLine List.mem_cons_self)
        obtain ⟨hleave, hnext⟩ :=
          performAlike_state h hadmits.show_mem hadmits.list_pcb _ hallowed m m' hm
        rw [hleave]
        split
        · exact ⟨rfl, rfl, hnext⟩
        split
        · exact similar_endOfInput hnext _ _
        next again rest =>
          have hlast : rest <:+ sizeLine :: again :: rest :=
            List.suffix_append [sizeLine, again] rest
          split
          · exact similar_after (ih _ (hrest rest hlast).2 (hrest rest hlast).1 hnext rfl) _ _
          · exact ⟨rfl, rfl, hnext⟩

theorem similar_handler {entry : Entry} (hplain : entry.Plain) {lines : List Str}
    (hlines : ∀ line ∈ lines, typed line) {m : σ} {m' : τ} (hm : R m m') :
    MenuRun.Similar R ((entry.handler executor).run lines m)
      ((entry.handler executor').run lines m') := by
  cases entry with
  | command name questions =>
    exact similar_dialog hadmits (performAlike_execute h) hplain.1 hplain.2 hlines hm
  | processCommand name questions =>
    have hperform := performAlike_table h hadmits.list_pcb
    exact similar_dialog hadmits hperform hplain.1 hplain.2 hlines hm
  | createProcesses => exact similar_after (similar_createRounds hadmits h hlines hm) _ _
  | allocateMemory => exact similar_after (similar_allocRounds hadmits h hlines hm) _ _

theorem similar_menuLoop {menu : Menu} (hplain : ∀ entry ∈ menu.entries, entry.2.Plain)
    {lines : List Str} (hlines : ∀ line ∈ lines, typed line) {m : σ} {m' : τ} (hm : R m m') :
    MenuRun.Similar R (menuLoop executor menu lines m) (menuLoop executor' menu lines m') := by
  induction hlength : lines.length using Nat.strong_induction_on generalizing lines m m' with
  | _ n ih =>
    cases lines with
    | nil =>
      rw [menuLoop, menuLoop]
      exact similar_endOfInput hm _ _
    | cons line lines =>
      have htail : ∀ l ∈ lines, typed l := fun l hmem => hlines l (List.mem_cons_of_mem line hmem)
      rw [menuLoop, menuLoop]
      dsimp only
      split
      · exact ⟨rfl, rfl, hm⟩
      split
      · exact similar_after (ih _ (by simp [← hlength]) htail hm rfl) _ _
      next entry hentry =>
        obtain ⟨before, behind, hentries, -⟩ := List.lookup_eq_some_iff.mp hentry
        have hknown : entry.Plain := hplain (trim line, entry) (by simp [hentries])
        obtain ⟨hleave, hunread, hnext⟩ := similar_handler hadmits h hknown htail hm
        rw [hleave, hunread]
        split
        · exact similar_after ⟨hleave, hunread, hnext⟩ _ _
        · have hsuffix := (entry.handler executor').reads lines m'
          have hlt : ((entry.handler executor').run lines m').unread.length < n := by
            rw [← hlength]
            exact Nat.lt_succ_of_le hsuffix.length_le
          have hrest := fun l hmem => htail l (hsuffix.subset hmem)
          exact similar_after (ih _ hlt hrest hnext rfl) _ _

/-- Sessions that end alike; `R'` is what is left of `R` when the program ends. -/
structure MenuEnd.Similar (R R' : σ → τ → Prop) (a : MenuEnd σ) (b : MenuEnd τ) : Prop where
  outcome : a.outcome = b.outcome
  unread : a.unread = b.unread
  ended : R' a.master b.master
  raw : a.outcome = .enterRawMode → R a.master b.master

/-- The menus lead both sessions the same way, up to the `exit` of a master. -/
theorem similar_run {role : InstanceRole} {R' : σ → τ → Prop} (hweaker : ∀ m m', R m m' → R' m m')
    (hexit : role = .master → ∀ m m', R m m' →
      R' (executor (str "exit") m).2 (executor' (str "exit") m').2)
    {lines : List Str} (hlines : ∀ line ∈ lines, typed line) {m : σ} {m' : τ} (hm : R m m') :
    MenuEnd.Similar R R' (run role executor lines m) (run role executor' lines m') := by
  induction hlength : lines.length using Nat.strong_induction_on generalizing lines m m' with
  | _ n ih =>
    cases lines with
    | nil =>
      unfold run
      exact ⟨rfl, rfl, hweaker m m' hm, fun _ => hm⟩
    | cons line lines =>
      have htail : ∀ l ∈ lines, typed l := fun l hmem => hlines l (List.mem_cons_of_mem line hmem)
      have hrest : ∀ rest, rest <:+ lines → ∀ m m', R m m' →
          MenuEnd.Similar R R' (run role executor rest m) (run role executor' rest m') :=
        fun rest hsuffix m m' hm => ih rest.length (hlength ▸ Nat.lt_succ_of_le hsuffix.length_le)
          (fun l hmem => htail l (hsuffix.subset hmem)) hm rfl
      unfold run
      dsimp only
      split
      next menu hmenu =>
        obtain ⟨before, behind, hmenus, -⟩ := List.lookup_eq_some_iff.mp hmenu
        have hplain := plain_mainMenus (trim line, menu) (by simp [hmenus])
        obtain ⟨hleave, hunread, hnext⟩ := similar_menuLoop hadmits h hplain htail hm
        rw [hleave, hunread]
        split
        · exact ⟨rfl, rfl, hweaker _ _ hnext, fun _ => hnext⟩
        · have hended := hrest _ (menuLoop_suffix executor' menu lines m') _ _ hnext
          exact ⟨hended.outcome, hended.unread, hended.ended, hended.raw⟩
      next =>
      split
      · exact ⟨rfl, rfl, hweaker m m' hm, fun _ => hm⟩
      split
      · split
        · cases role with
          | master => exact ⟨rfl, rfl, hexit rfl m m' hm, fun hraw => by cases hraw⟩
          | client => exact ⟨rfl, rfl, hweaker m m' hm, fun hraw => by cases hraw⟩
        · have hended := hrest _ (confirmExit_suffix lines) m m' hm
          exact ⟨hended.outcome, hended.unread, hended.ended, hended.raw⟩
      · have hended := hrest lines List.suffix_rfl m m' hm
        exact ⟨hended.outcome, hended.unread, hended.ended, hended.raw⟩

end Rounds

/-! ## The command lines -/

theorem words_answers (answers : List Str) (text : Str) :
    words (text ++ ((answers.filter (· ≠ [])).map (str " " ++ ·)).flatten) =
      words text ++ answers.flatMap words := by
  have hspace : isSpace 32 = true := by decide
  have hblank : str " " = [32] := by decide
  induction answers generalizing text with
  | nil => simp
  | cons answer answers ih =>
    by_cases hempty : answer = []
    · rw [hempty, List.filter_cons_of_neg (by simp), ih]
      rfl
    · rw [List.filter_cons_of_pos (by simpa using hempty), List.map_cons, List.flatten_cons,
        ← List.append_assoc, ih, hblank, List.singleton_append, words_append_cons hspace,
        List.flatMap_cons, List.append_assoc]

theorem words_menuNames : ∀ name ∈ menuNames, words name = [name] ∧ toLower name = name := by
  decide +kernel

theorem parse_commandLine {name : Str} (hname : name ∈ menuNames) (answers : List Str) :
    parse (commandLine name answers) =
      { rawLine := commandLine name answers, name := name
        arguments := answers.flatMap words } := by
  obtain ⟨hwords, hlower⟩ := words_menuNames name hname
  have hline : words (commandLine name answers) = name :: answers.flatMap words := by
    rw [commandLine, words_answers, hwords]
    rfl
  rw [parse, hline]
  simp only [hlower]

def TypedIn (lines : List Str) (answer : Str) : Prop :=
  answer = [] ∨ ∃ line ∈ lines, answer <:+: line

/-- A command that a dialog puts together from what was typed. -/
def FromDialog (lines : List Str) (command : Str) : Prop :=
  ∃ name ∈ menuNames, ∃ answers : List Str, answers.length ≤ 5 ∧
    (∀ answer ∈ answers, TypedIn lines answer) ∧ command = commandLine name answers

theorem infix_of_trim (value : Str) : trim value <:+: value :=
  (List.rdropWhile_prefix _ _).isInfix.trans (List.dropWhile_suffix _).isInfix

theorem admits_typedIn (lines : List Str) : Admits (TypedIn lines) (FromDialog lines) where
  empty := .inl rfl
  trim line hline := by
    rcases hline with rfl | ⟨whole, hmem, hpart⟩
    · exact .inl rfl
    · exact .inr ⟨whole, hmem, (infix_of_trim line).trans hpart⟩
  command name hname answers hcount hanswers := ⟨name, hname, answers, hcount, hanswers, rfl⟩

/-! ## The script -/

/-- The executor that notes what it is sent and answers nothing. -/
def record (command : Str) (sent : List Str) : MenuCommandResult × List Str :=
  ({}, sent ++ [command])

/-- The session of the lines, without a kernel: what is sent, and where it ends. -/
def script (role : InstanceRole) (lines : List Str) : MenuEnd (List Str) := run role record lines []

/-- A menu session of a master ends with its only `exit`, a session of a client has none. -/
theorem script_commands (role : InstanceRole) (lines : List Str) :
    (∀ command ∈ (script role lines).master, FromDialog lines command) ∨
      role = .master ∧ (script role lines).outcome = .exitProgram ∧
        ∃ sent, (script role lines).master = sent ++ [str "exit"] ∧
          ∀ command ∈ sent, FromDialog lines command := by
  let R (a b : List Str) : Prop := a = b ∧ ∀ command ∈ a, FromDialog lines command
  let R' (a b : List Str) : Prop := R a b ∨ role = .master ∧
    ∃ sent, a = sent ++ [str "exit"] ∧ ∀ command ∈ sent, FromDialog lines command
  have hnote : Alike R (FromDialog lines) record record :=
    { exits := fun _ _ _ _ _ => rfl
      fatal := fun _ _ _ _ _ => rfl
      next := by
        rintro command hdialog sent _ ⟨rfl, hsent⟩
        refine ⟨rfl, fun c hmem => ?_⟩
        rcases List.mem_append.mp hmem with hmem | hmem
        · exact hsent c hmem
        · rwa [List.mem_singleton.mp hmem] }
  have hlines : ∀ line ∈ lines, TypedIn lines line := fun line hmem =>
    .inr ⟨line, hmem, List.infix_rfl⟩
  have hstart : R [] [] := ⟨rfl, fun _ hmem => by cases hmem⟩
  have hended : MenuEnd.Similar R R' (script role lines) (script role lines) :=
    similar_run (admits_typedIn lines) hnote (fun _ _ hR => .inl hR)
      (fun hrole sent _ hR => .inr ⟨hrole, sent, rfl, hR.2⟩) hlines hstart
  rcases hended.ended with hR | ⟨hrole, hexit⟩
  · exact .inl hR.2
  · cases houtcome : (script role lines).outcome with
    | exitProgram => exact .inr ⟨hrole, rfl, hexit⟩
    | enterRawMode => exact .inl (hended.raw houtcome).2

/-- A master that never ends a session for a command of the menus is sent the script, whatever it
answers. -/
theorem run_script (role : InstanceRole)
    (hstay : ∀ command, (parse command).name ∈ menuNames → ∀ m : σ,
      (executor command m).1.shouldExit = false ∧ (executor command m).1.fatalError = false)
    (lines : List Str) (m : σ) :
    (run role executor lines m).outcome = (script role lines).outcome ∧
      (run role executor lines m).unread = (script role lines).unread ∧
      (run role executor lines m).master =
        Runs.run (fun m command => (executor command m).2) m (script role lines).master := by
  let R (m' : σ) (sent : List Str) : Prop :=
    m' = Runs.run (fun m command => (executor command m).2) m sent
  have hnext : ∀ command m' sent, R m' sent →
      R (executor command m').2 (record command sent).2 := by
    rintro command _ sent rfl
    show (executor command _).2 = Runs.run _ m (sent ++ [command])
    rw [Runs.run_append]
    rfl
  have hnamed : ∀ command, FromDialog lines command → (parse command).name ∈ menuNames := by
    rintro _ ⟨name, hname, answers, -, -, rfl⟩
    rw [parse_commandLine hname]
    exact hname
  have hlike : Alike R (FromDialog lines) executor record :=
    { exits := fun command hdialog m' _ _ => (hstay command (hnamed command hdialog) m').1
      fatal := fun command hdialog m' _ _ => (hstay command (hnamed command hdialog) m').2
      next := fun command _ m' sent hR => hnext command m' sent hR }
  have hlines : ∀ line ∈ lines, TypedIn lines line := fun line hmem =>
    .inr ⟨line, hmem, List.infix_rfl⟩
  have hstart : R m [] := rfl
  have hended : MenuEnd.Similar R R (run role executor lines m) (script role lines) :=
    similar_run (admits_typedIn lines) hlike (fun _ _ hR => hR)
      (fun _ m' sent hR => hnext _ m' sent hR) hlines hstart
  exact ⟨hended.outcome, hended.unread, hended.ended⟩

end MenuConsole

end OSCoreSim
