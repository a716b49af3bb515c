import OSCoreSim.Ipc.NamedPipe
import OSCoreSim.Util.Words
import OSCoreSim.Kernel.ViewIsolation
/-!
# The client's prompt

A client forwards what is typed to the master and keeps `exit` and `quit` for itself.  It finds
the command name with its own scan for `" \t\r\n"`; the master's `parse` also ends a word at
a vertical tab or a form feed.
-/

namespace OSCoreSim

open CommandDispatcher NamedPipe

namespace ConsoleApp

/-! ## The loop -/

def isBlankLine (line : Str) : Bool := line.all isSeparator

def lowered (s : Str) : Str := s.map fun ch => if 65 ≤ ch && ch ≤ 90 then ch + (97 - 65) else ch

def isLocalExitCommand (line : Str) : Bool :=
  match line.dropWhile isSeparator with
  | [] => false
  | rest =>
    let cmd := lowered (rest.takeWhile (!isSeparator ·))
    cmd = str "exit" ∨ cmd = str "quit"

def clientPrompt : Str := str "OS-SIM[CLIENT]> "

/-- The command loop of `clientLoop` on the lines of its input: what it prints, and the master
behind `sendCommand` when it ends. -/
def clientLoop {σ : Type} (sendCommand : Str → σ → Bool × Str × σ) : List Str → σ → Str × σ
  | [], master => (clientPrompt ++ str "\n", master)
  | line :: lines, master =>
    if isBlankLine line then
      let rest := clientLoop sendCommand lines master
      (clientPrompt ++ rest.1, rest.2)
    else if isLocalExitCommand line then (clientPrompt, master)
    else
      let sent := sendCommand line master
      if sent.1 then
        let rest := clientLoop sendCommand lines sent.2.2
        (clientPrompt ++ (if sent.2.1 = [] then [] else sent.2.1 ++ str "\n") ++ rest.1, rest.2)
      else
        (clientPrompt ++ sent.2.1 ++
          str "\n[INFO] Client will exit because it cannot reach Master.\n", sent.2.2)

/-! ## The two command names -/

theorem lowered_eq_toLower (s : Str) : lowered s = toLower s := rfl

/-- Both scans end the first word in the same place: only the separators that the client knows
stand before it and directly behind it. -/
def DelimitedAlike (line : Str) : Prop :=
  (∀ c ∈ line.takeWhile isSpace, isSeparator c = true) ∧
    ∀ c ∈ (Scan.skipToken isSpace line).head?, isSeparator c = true

instance (line : Str) : Decidable (DelimitedAlike line) :=
  decidable_of_iff ((line.takeWhile isSpace).all isSeparator = true ∧
    (Scan.skipToken isSpace line).head?.all isSeparator = true) (by
      rw [DelimitedAlike, List.all_eq_true, Option.all_eq_true]
      rfl)

/-- The command name as the client reads it, behind any spaces. -/
theorem delimitedAlike_iff {s w t : Str} (hs : ∀ c ∈ s, isSpace c = true) (hne : w ≠ [])
    (hw : ∀ c ∈ w, isSpace c = false) (ht : ∀ c ∈ t.head?, isSpace c = true) :
    DelimitedAlike (s ++ (w ++ t)) ↔
      (∀ c ∈ s, isSeparator c = true) ∧ ∀ c ∈ t.head?, isSeparator c = true := by
  have htake : (s ++ (w ++ t)).takeWhile isSpace = s := by
    obtain ⟨c, cs, rfl⟩ := List.exists_cons_of_ne_nil hne
    rw [List.takeWhile_append_of_pos hs]
    simp [hw c List.mem_cons_self]
  have hrest : Scan.skipToken isSpace (s ++ (w ++ t)) = t := by
    rw [Scan.skipToken_append_blank hs, Scan.skipToken_append_token hne hw]
    cases t with
    | nil => rfl
    | cons d t => simp [ht d rfl]
  rw [DelimitedAlike, htake, hrest]

def IsExitName (name : Str) : Prop := name = str "exit" ∨ name = str "quit"

instance (name : Str) : Decidable (IsExitName name) := inferInstanceAs (Decidable (_ ∨ _))

theorem IsExitName.length {name : Str} (h : IsExitName name) : name.length = 4 := by
  rcases h with rfl | rfl <;> decide

theorem IsExitName.head {name : Str} (h : IsExitName name) : name.head?.all isLower = true := by
  rcases h with rfl | rfl <;> decide

theorem isLocalExitCommand_eq {line rest : Str} {c : UInt8}
    (h : line.dropWhile isSeparator = c :: rest) : isLocalExitCommand line = true ↔
      IsExitName (lowered ((c :: rest).takeWhile (!isSeparator ·))) := by
  simp [isLocalExitCommand, h, IsExitName]

theorem not_isLower_of_isSpace {c : UInt8} (h : isSpace c = true) :
    isLower (if isUpper c then c + 32 else c) = false := by
  have hle : c.toNat ≤ 32 := by
    rcases Bool.or_eq_true_iff.mp h with heq | hrange
    · rw [eq_of_beq heq]
      decide
    · have hupper := (Bool.and_eq_true_iff.mp hrange).2
      have hnat := UInt8.le_iff_toNat_le.mp (of_decide_eq_true hupper)
      exact Nat.le_trans hnat (by decide)
  have hcase : isUpper c = false := by
    have hnot : ¬65 ≤ c := fun hge => absurd (UInt8.le_iff_toNat_le.mp hge) (Nat.not_le.mpr (by
      have h65 : (65 : UInt8).toNat = 65 := rfl
      omega))
    simp [isUpper, hnot]
  have hnot : ¬97 ≤ c := fun hge => absurd (UInt8.le_iff_toNat_le.mp hge) (Nat.not_le.mpr (by
    have h97 : (97 : UInt8).toNat = 97 := rfl
    omega))
  simp [hcase, isLower, hnot]

theorem isLocalExitCommand_of_space {line rest : Str} {v : UInt8}
    (h : line.dropWhile isSeparator = v :: rest) (hv : isSeparator v = false)
    (hspace : isSpace v = true) : isLocalExitCommand line = false := by
  rw [← Bool.not_eq_true, isLocalExitCommand_eq h]
  intro hlocal
  have hlower := hlocal.head
  simp [lowered_eq_toLower, toLower, hv, not_isLower_of_isSpace hspace] at hlower

theorem takeWhile_plain_eq_nil {t : Str} :
    t.takeWhile (!isSeparator ·) = [] ↔ ∀ c ∈ t.head?, isSeparator c = true := by
  cases t with
  | nil => simp
  | cons e t => cases hsep : isSeparator e <;> simp [hsep]

theorem isExitName_append {w t : Str} (h : IsExitName (toLower w)) :
    IsExitName (toLower (w ++ t)) ↔ t = [] := by
  constructor
  · intro hlonger
    have hlength := hlonger.length
    rw [toLower, List.length_map, List.length_append] at hlength
    have hshort := h.length
    rw [toLower, List.length_map] at hshort
    exact List.length_eq_zero_iff.mp (by omega)
  · rintro rfl
    rwa [List.append_nil]

theorem isLocalExitCommand_iff {line : Str} (hexit : IsExitName (parse line).name) :
    isLocalExitCommand line = true ↔ DelimitedAlike line := by
  obtain ⟨w, more, hwords, hname⟩ : ∃ w more, words line = w :: more ∧ IsExitName (toLower w) := by
    unfold parse at hexit
    split at hexit
    next => exact absurd (show IsExitName [] from hexit) (by decide)
    next w more hwords => exact ⟨w, more, hwords, hexit⟩
  obtain ⟨s, t, rfl, hs, hne, hw, ht⟩ := exists_first_word hwords
  have hplain : ∀ c ∈ w, isSeparator c = false := fun c hmem =>
    isSeparator_of_not_isSpace (hw c hmem)
  rw [delimitedAlike_iff hs hne hw ht]
  cases hrest : s.dropWhile isSeparator with
  | cons v s' =>
    have hv : isSeparator v = false := by
      have hhead := List.head?_dropWhile_not isSeparator s
      rw [hrest] at hhead
      simpa using hhead
    have hmem : v ∈ s := (List.dropWhile_suffix isSeparator).subset (hrest ▸ List.mem_cons_self)
    have hline : (s ++ (w ++ t)).dropWhile isSeparator = v :: (s' ++ (w ++ t)) := by
      rw [List.dropWhile_append, hrest]
      rfl
    rw [isLocalExitCommand_of_space hline hv (hs v hmem)]
    refine ⟨fun hlocal => absurd hlocal Bool.false_ne_true, fun h => ?_⟩
    exact absurd (h.1 v hmem) (by simp [hv])
  | nil =>
    have hsep : ∀ d ∈ s, isSeparator d = true := List.dropWhile_eq_nil_iff.mp hrest
    have hline : (s ++ (w ++ t)).dropWhile isSeparator = w ++ t := by
      rw [List.dropWhile_append_of_pos hsep, Scan.dropWhile_token hne hplain]
    have hword : (w ++ t).takeWhile (!isSeparator ·) = w ++ t.takeWhile (!isSeparator ·) :=
      List.takeWhile_append_of_pos fun d hmem => by simp [hplain d hmem]
    obtain ⟨c, cs, hcons⟩ := List.exists_cons_of_ne_nil (List.append_ne_nil_of_left_ne_nil hne t)
    rw [isLocalExitCommand_eq (hline.trans hcons), ← hcons, hword, lowered_eq_toLower,
      isExitName_append hname, takeWhile_plain_eq_nil]
    exact ⟨fun hend => ⟨hsep, hend⟩, fun h => h.2⟩

/-! ## The line at the prompt -/

theorem not_blank_of_local {line : Str} (h : isLocalExitCommand line = true) :
    isBlankLine line = false := by
  cases hblank : isBlankLine line with
  | false => rfl
  | true =>
    have hnone : line.dropWhile isSeparator = [] :=
      List.dropWhile_eq_nil_iff.mpr (List.all_eq_true.mp hblank)
    rw [isLocalExitCommand, hnone] at h
    cases h

/-- A line that the master would run as `exit` or `quit` ends the client and leaves the master
alone exactly when the two scans delimit its first word alike. -/
theorem exit_stays_local_iff {line : Str}
    (hexit : (parse line).name = str "exit" ∨ (parse line).name = str "quit") :
    (isLocalExitCommand line = true ∧
        ∀ (σ : Type) (sendCommand : Str → σ → Bool × Str × σ) (lines : List Str) (master : σ),
          clientLoop sendCommand (line :: lines) master = (clientPrompt, master)) ↔
      DelimitedAlike line := by
  rw [← isLocalExitCommand_iff hexit]
  refine ⟨And.left, fun hlocal => ⟨hlocal, fun σ sendCommand lines master => ?_⟩⟩
  rw [clientLoop, if_neg (by simp [not_blank_of_local hlocal]), if_pos hlocal]

theorem exit_stays_local_iff_padded :
    (isLocalExitCommand (str " \tQuit now") = true ∧
        ∀ (σ : Type) (sendCommand : Str → σ → Bool × Str × σ) (lines : List Str) (master : σ),
          clientLoop sendCommand (str " \tQuit now" :: lines) master = (clientPrompt, master)) ↔
      DelimitedAlike (str " \tQuit now") :=
  exit_stays_local_iff (by decide)

/-- An `exit` behind a vertical tab is not blank, is not kept, and stops the master. -/
theorem exit_forwarded :
    let line := str "\x0bexit"
    (parse line).name = str "exit" ∧ isBlankLine line = false ∧ isLocalExitCommand line = false ∧
      (clientLoop (NamedPipeClient.sendCommand .opened (evenly 4096)
        (commandHandler World.quietEnvironment)) [line] { kernel := Kernel.start {} ∅ }).2.stopped =
        true := by
  decide +kernel

/-! ## The master behind the client -/

theorem shouldExit_persistence (k : Kernel) (io : SnapshotStore.SaveIo) (fs : FileSystem)
    (command : Command) : (k.handlePersistenceCommand io fs command).2.2.shouldExit = false := by
  by_cases hload : command.name = str "load"
  · unfold Kernel.handlePersistenceCommand
    have hsave : command.name ≠ str "save" := by rw [hload]; decide
    by_cases hargs : command.arguments ≠ []
    · rw [if_pos hargs]
      rfl
    rw [if_neg hargs, if_neg hsave, if_pos hload]
    dsimp only
    unfold Kernel.handleLoad
    dsimp only
    split
    · rfl
    · split <;> rfl
  · obtain ⟨fs', response, heq, hstay⟩ := Kernel.persistenceCommand_save k io fs hload
    rw [heq]
    exact hstay

theorem shouldExit_iff (k : Kernel) (env : Environment) (fs : FileSystem)
    (request : CommandRequest) : (k.executeRequest env fs request).2.2.shouldExit = true ↔
      IsExitName (parse request.rawLine).name := by
  rw [Kernel.executeRequest_response]
  generalize parse request.rawLine = command
  by_cases hexit : IsExitName command.name
  · refine iff_of_true ?_ hexit
    unfold Kernel.routeCommand Kernel.dispatchCommand dispatch
    rcases hexit with hname | hname <;> rw [hname] <;> rfl
  refine iff_of_false ?_ hexit
  rw [Bool.not_eq_true]
  unfold Kernel.routeCommand
  split
  · exact (Kernel.handled_schedulerCommand (k := k)).1
  split
  · exact shouldExit_persistence k env.saveIo fs command
  split
  · exact (Kernel.handled_overview (k := k)).1
  split
  · exact (Kernel.handled_vfsCommand (k := k)).1
  by_cases hlogout : command.name = str "logout"
  · have hdispatch : (k.dispatchCommand env request command).2 = (logoutCommand k.managers).2 := by
      unfold Kernel.dispatchCommand dispatch
      rw [hlogout]
      rfl
    show (k.dispatchCommand env request command).2.shouldExit = false
    rw [hdispatch]
    unfold logoutCommand
    split <;> rfl
  · exact (Kernel.gives_dispatch (k := k) hexit hlogout).1

/-- A client whose exits are all delimited alike never stops the master, whatever becomes of its
connections and however the pipe moves the bytes. -/
theorem not_stopped_of_session (env : Environment) (connection : Str → Master → Connection)
    (sizes : Str → Master → Exchange) {lines : List Str} {master : Master}
    (hlength : ∀ line ∈ lines, line.length < 2 ^ 32)
    (h : ∀ line ∈ lines, IsExitName (parse line).name → DelimitedAlike line) :
    (clientLoop (fun line master => NamedPipeClient.sendCommand (connection line master)
      (sizes line master) (commandHandler env) line master) lines master).2.stopped =
        master.stopped := by
  induction lines generalizing master with
  | nil => rfl
  | cons line lines ih =>
    have hrest := fun (master : Master) => @ih master
      (fun l hmem => hlength l (List.mem_cons_of_mem line hmem))
      (fun l hmem => h l (List.mem_cons_of_mem line hmem))
    rw [clientLoop]
    split
    · exact hrest master
    split
    · rfl
    next hlocal =>
      have hname : ¬IsExitName (parse line).name := fun hexit =>
        hlocal ((isLocalExitCommand_iff hexit).mpr (h line List.mem_cons_self hexit))
      have hstay : (commandHandler env line master).2.stopped = master.stopped := by
        have hgoes := (shouldExit_iff master.kernel env master.disk
          { rawLine := line, source := .remoteClient }).not.mpr hname
        rw [Bool.not_eq_true] at hgoes
        simp [commandHandler, hgoes]
      have hsent : (NamedPipeClient.sendCommand (connection line master) (sizes line master)
          (commandHandler env) line master).2.2.stopped = master.stopped := by
        rcases sendCommand_master (connection line master) (hlength line List.mem_cons_self) with
          hsame | hrun
        · rw [hsame]
        · rw [hrun, hstay]
      dsimp only
      split
      · rw [hrest, hsent]
      · exact hsent

end ConsoleApp

end OSCoreSim
