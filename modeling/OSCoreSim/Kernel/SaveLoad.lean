import OSCoreSim.Kernel.Native
import OSCoreSim.Kernel.SnapshotRestore
import OSCoreSim.Kernel.StateFile
import OSCoreSim.Kernel.WriteFile
import OSCoreSim.Persistence.SnapshotCounts
import Mathlib.Order.Interval.Finset.Nat
/-!
# Loading what was saved

The cross-references of a reachable state always pass `validateSnapshot`, and its enumerators
and flags always decode.  What decides whether a saved state can be loaded is the sizes alone.
-/

namespace OSCoreSim

open MemoryManager ProcessManager UserManager CommandDispatcher SnapshotStore
open Std (ExtTreeMap)

namespace Kernel

variable {kernel kernel' : Kernel} {command : Command} {success : Bool} {n : ℕ}

/-! ## Lists that fit their length fields -/

theorem length_lt_of_nodup {pids : List UInt32} (hnodup : pids.Nodup)
    (hne : ∀ pid ∈ pids, pid ≠ 0) :
    pids.length < 2 ^ 32 := by
  have hvalues : (pids.map UInt32.toNat).Nodup :=
    hnodup.map fun _ _ heq => UInt32.toNat_inj.mp heq
  have hsub : (pids.map UInt32.toNat).toFinset ⊆ Finset.Ico 1 (2 ^ 32) := by
    intro value hmem
    obtain ⟨pid, hpid, rfl⟩ := List.mem_map.mp (List.mem_toFinset.mp hmem)
    exact Finset.mem_Ico.mpr ⟨toNat_pos (hne pid hpid), pid.toNat_lt⟩
  have hcard := Finset.card_le_card hsub
  rw [List.toFinset_card_of_nodup hvalues, List.length_map, Nat.card_Ico] at hcard
  omega

theorem countsFit_export (h : Sound n kernel) : CountsFit kernel.exportSnapshot := by
  have hkeyed := h.coherent.matched.keyed
  have hlive : ∀ {k : UInt32} {pcb : PCB}, kernel.processManager.pcbTable[k]? = some pcb →
      k ≠ 0 := by
    rintro k pcb hget rfl
    exact absurd (h.coherent.numbered.bound 0 pcb hget).1 (by decide)
  refine ⟨?_, fun pcb hmem => ?_, fun q => ?_, ?_⟩
  · have hpids : ∀ pid ∈ kernel.exportSnapshot.pcbs.map (·.pid), pid ≠ 0 := by
      intro pid hmem
      obtain ⟨pcb, hpcb, rfl⟩ := List.mem_map.mp hmem
      exact hlive (hkeyed.mem_exportPcbs.mp hpcb)
    have hlt := length_lt_of_nodup hkeyed.nodup_exportPcbs hpids
    rwa [List.length_map] at hlt
  · have hget := hkeyed.mem_exportPcbs.mp hmem
    refine length_lt_of_nodup ((h.native.sorted _ pcb hget).imp UInt32.ne_of_lt) fun c hc => ?_
    obtain ⟨child, hchild, -⟩ := (h.coherent.lineage.family _ pcb hget c).mp hc
    exact hlive hchild
  · refine length_lt_of_nodup (h.regular.core.indexed.nodup q) fun pid hmem => ?_
    obtain ⟨pcb, hget, -⟩ := (h.regular.core.indexed.mem_iff q pid).mp hmem
    exact hlive hget
  · have hle := h.coherent.matched.partition.fills.length_le
    have hlt := kernel.memoryManager.totalMemoryKB.toNat_lt
    show kernel.memoryManager.blocks.length < 2 ^ 32
    omega

/-! ## Accounts -/

theorem credentials_change (h : Credentials kernel.userManager)
    (hc : Change command kernel kernel' success) : Credentials kernel'.userManager := by
  cases hc with
  | register now username password hregister => exact credentials_registerUser h hregister
  | login username password => exact credentials_login h username password
  | logout hlogout =>
    intro name account hget
    refine h name account ?_
    rw [← logout_users hlogout]
    exact hget
  | _ => exact h

theorem printable_exportUsers {um : UserManager} (h : Credentials um) :
    ∀ account ∈ um.exportUsers, Printable account := by
  intro account hmem
  obtain ⟨⟨name, found⟩, hin, rfl⟩ := List.mem_map.mp (um.exportUsers_perm.subset hmem)
  exact h name found (ExtTreeMap.mem_toList_iff_getElem?_eq_some.mp hin)

/-! ## The answer to a load -/

theorem ValidSnapshot.countedFiles {s : KernelSnapshot} (h : ValidSnapshot s) :
    ValidSnapshot (countedFiles s) :=
  ⟨h.username, h.usernames, h.pid, h.pids, h.owner, h.range, h.next, h.next_gt, h.parent, h.child,
    h.total, h.placed, h.owned, h.single, h.resident, h.memory⟩

theorem executeRequest_load_success {env : Environment} {fs : FileSystem}
    {request : CommandRequest} (hname : (parse request.rawLine).name = str "load")
    (hargs : (parse request.rawLine).arguments = []) :
    (kernel.executeRequest env fs request).2.2.success = true ↔
      ∃ s, kernel.snapshotStore.load fs = .ok s ∧ (kernel.halted.importSnapshot s).2.1 = true := by
  rw [executeRequest_load kernel env fs request hname hargs]
  cases hread : kernel.snapshotStore.load fs with
  | error message => simp [handleLoad_error hread, reply]
  | ok s => simp [(handleLoad_ok hread).2]

/-- What a `load` by any kernel with the same state file makes of a state that was saved. -/
theorem load_saved (h : Sound n kernel) (hcredentials : Credentials kernel.userManager)
    {io : SaveIo} {fs fs' : FileSystem}
    (hsave : kernel.snapshotStore.save io fs kernel.exportSnapshot = (fs', .ok ()))
    (loader : Kernel) (hstore : loader.snapshotStore = kernel.snapshotStore) (env : Environment)
    {request : CommandRequest} (hname : (parse request.rawLine).name = str "load")
    (hargs : (parse request.rawLine).arguments = []) :
    (loader.executeRequest env fs' request).2.2.success = true ↔
      SnapshotWithin readable (countedFiles kernel.exportSnapshot) := by
  obtain ⟨hreads, hrefuses⟩ := load_after_save hsave (countsFit_export h)
    (printable_exportUsers hcredentials)
  rw [executeRequest_load_success hname hargs, hstore]
  constructor
  · rintro ⟨s, hread, -⟩
    by_contra hbeyond
    obtain ⟨message, hrefused⟩ := hrefuses hbeyond
    rw [hrefused] at hread
    cases hread
  · intro hwithin
    refine ⟨_, hreads hwithin, ?_⟩
    rw [importSnapshot_valid (valid_export h.coherent).countedFiles]

end Kernel

namespace World

open Kernel

variable {w : World} {events : List Event}

theorem credentials_step {event : Event} (h : Credentials w.kernel.userManager)
    (hload : ¬event.Named (str "load")) : Credentials (w.step event).kernel.userManager := by
  apply step_keeps (P := fun k => Credentials k.userManager) hload
  · exact fun _ hc => credentials_change h hc
  · exact tick_keeps (P := fun k => Credentials k.userManager) h fun _ _ => h

theorem credentials_run (hclean : w.kernel.Clean) (hload : NoLoad events) :
    Credentials (Runs.run step w events).kernel.userManager := by
  have hinit : Credentials w.kernel.userManager := by
    intro name account hget
    simp [hclean.users] at hget
  exact Runs.run_invariant' (P := fun w : World => Credentials w.kernel.userManager)
    (fun _ event h (hok : ¬event.Named (str "load")) => credentials_step h hok) hinit
    (hload.permitted w)

/-- After any run from a clean start that loads nothing, a state that was saved with success can
be loaded, by any kernel that uses the same state file, if and only if all its strings and lists
are within the limits of the reader, the files as far as their length field counts them. -/
theorem reload_of_run (hclean : w.kernel.Clean) (hload : NoLoad events)
    (hbudget : Runs.total step creations w events < 2 ^ 32 - 1) {save : Event}
    (hsave : save.Named (str "save")) (hok : (Runs.run step w events).Succeeds save)
    (loader : Kernel) (hstore : loader.snapshotStore = (Runs.run step w events).kernel.snapshotStore)
    (env : Environment) (request : CommandRequest)
    (hname : (parse request.rawLine).name = str "load")
    (hargs : (parse request.rawLine).arguments = []) :
    (loader.executeRequest env ((Runs.run step w events).step save).disk request).2.2.success =
        true ↔
      SnapshotWithin readable (countedFiles (Runs.run step w events).kernel.exportSnapshot) := by
  obtain ⟨⟨io, hwritten⟩, -, -⟩ := step_save hsave hok
  exact load_saved (sound_run hclean hload hbudget) (credentials_run hclean hload) hwritten loader
    hstore env hname hargs

/-- A process and a file, saved and loaded by a fresh kernel. -/
theorem reload_of_run_small :
    let w : World := { kernel := Kernel.start {} ∅ }
    let events := [console "register a pw", console "login a pw", console "create_pcb p 4 1 5",
      console "write_file f x"]
    (Kernel.executeRequest {} quietEnvironment
        ((Runs.run step w events).step (console "save")).disk
        { rawLine := str "load" }).2.2.success = true ↔
      SnapshotWithin readable (countedFiles (Runs.run step w events).kernel.exportSnapshot) :=
  reload_of_run (w := { kernel := Kernel.start {} ∅ }) (clean_start {} ∅ fun _ h => by cases h)
    (by decide) (Nat.lt_of_le_of_lt (Runs.total_le_length creations_le_one _ _) (by decide))
    (by decide) (by decide +kernel) {} (by decide +kernel) quietEnvironment { rawLine := str "load" }
    (by decide) (by decide)

end World

/-! ## A file that is too long -/

namespace Kernel

def writeLine (content : Str) : Str := str "write_file f " ++ content

variable {content : Str}

theorem parse_writeLine (hne : content ≠ []) (hplain : ∀ c ∈ content, isSpace c = false) :
    parse (writeLine content) = { rawLine := writeLine content, name := str "write_file"
                                  arguments := [str "f", content] } := by
  have hspace : isSpace 32 = true := by decide
  have hline : writeLine content = str "write_file" ++ 32 :: (str "f" ++ 32 :: content) := by
    have hbytes : str "write_file f " = str "write_file" ++ 32 :: (str "f" ++ [32]) := by decide
    rw [writeLine, hbytes]
    simp
  have hwords : words (writeLine content) = [str "write_file", str "f", content] := by
    have hcommand : words (str "write_file") = [str "write_file"] := by decide
    have hfile : words (str "f") = [str "f"] := by decide
    rw [hline, words_append_cons hspace, words_append_cons hspace, words_single hne hplain,
      hcommand, hfile]
    rfl
  unfold parse
  rw [hwords]
  have hlower : toLower (str "write_file") = str "write_file" := by decide
  simp only [hlower]

theorem extractWriteFileContent_writeLine (hne : content ≠ [])
    (hplain : ∀ c ∈ content, isSpace c = false) :
    extractWriteFileContent (writeLine content) = content := by
  obtain ⟨c, cs, rfl⟩ := List.exists_cons_of_ne_nil hne
  have hc : isSeparator c = false := isSeparator_of_not_isSpace (hplain c List.mem_cons_self)
  have hbefore : Scan.tokenCount isSeparator (str "write_file f ") = 2 ∧
      Scan.Closed isSeparator (str "write_file f ") := by decide
  have hstop : Scan.skipTokens isSeparator 2 (str "write_file f " ++ c :: cs) = c :: cs :=
    (Scan.skipTokens_append_eq_iff hc).mpr hbefore
  exact hstop

theorem executeRequest_writeLine {k : Kernel} {owner : Str} (env : Environment) (fs : FileSystem)
    (hlogin : k.userManager.currentUser = some owner) (howner : owner ≠ [])
    (hnew : k.vfs.findFileIndex owner (str "f") = none) (hne : content ≠ [])
    (hplain : ∀ c ∈ content, isSpace c = false) :
    (k.executeRequest env fs { rawLine := writeLine content }).1 =
      { k with vfs := k.vfs.addFile owner (str "f") content env.time } := by
  have hparse := parse_writeLine hne hplain
  have hvalid : VirtualFileSystem.isValidFileName (str "f") = .ok () := by decide
  obtain ⟨message, hwrite⟩ := VirtualFileSystem.writeFile_new howner hvalid hnew content env.time
  rw [executeRequest_writeFile env fs (congrArg Command.name hparse)
    (congrArg Command.arguments hparse) hlogin, extractWriteFileContent_writeLine hne hplain, hwrite]
  rfl

end Kernel

namespace World

open Kernel

theorem writable_loggedIn : SnapshotWithin writable loggedIn.kernel.exportSnapshot :=
  ⟨by decide +kernel, by decide +kernel, by decide +kernel, by decide +kernel, by decide +kernel,
    by decide +kernel⟩

def writeEvent (content : Str) : Event :=
  .request quietEnvironment { rawLine := writeLine content }

variable {content : Str}

theorem run_writeEvent (hne : content ≠ []) (hplain : ∀ c ∈ content, isSpace c = false) :
    (loggedIn.step (writeEvent content)).kernel =
      { loggedIn.kernel with
        vfs := loggedIn.kernel.vfs.addFile (str "a") (str "f") content 0 } := by
  have hlogin : loggedIn.kernel.userManager.currentUser = some (str "a") := by decide +kernel
  have hnew : loggedIn.kernel.vfs.findFileIndex (str "a") (str "f") = none := by decide +kernel
  exact executeRequest_writeLine quietEnvironment loggedIn.disk hlogin (by decide) hnew hne hplain

theorem exportSnapshot_writeEvent (hne : content ≠ [])
    (hplain : ∀ c ∈ content, isSpace c = false) :
    (loggedIn.step (writeEvent content)).kernel.exportSnapshot =
      { loggedIn.kernel.exportSnapshot with
        nextFileId := 2
        virtualFiles := [VirtualFileSystem.newFile 1 (str "a") (str "f") content 0] } := by
  have hvfs : loggedIn.kernel.vfs = {} := by decide +kernel
  rw [run_writeEvent hne hplain, hvfs]
  rfl

theorem run_events (content : Str) : Runs.run step { kernel := Kernel.start {} ∅ }
    [console "register a pw", console "login a pw", writeEvent content] =
      loggedIn.step (writeEvent content) := rfl

theorem noLoad_writeEvent (hne : content ≠ [])
    (hplain : ∀ c ∈ content, isSpace c = false) :
    NoLoad [console "register a pw", console "login a pw", writeEvent content] := by
  have hwrite : ¬(writeEvent content).Named (str "load") := by
    rintro ⟨command, hcommand, hname⟩
    cases hcommand
    simp only [parse_writeLine hne hplain] at hname
    exact absurd hname (by decide)
  intro event hmem
  rcases List.mem_cons.mp hmem with rfl | hmem
  · decide
  rcases List.mem_cons.mp hmem with rfl | hmem
  · decide
  · exact List.mem_singleton.mp hmem ▸ hwrite

/-- A content that the writer takes and the reader does not: the save reports success, and the
state file cannot be loaded any more. -/
theorem refused_of_long (hne : content ≠ []) (hplain : ∀ c ∈ content, isSpace c = false)
    (hfits : content.length ≤ writable.string) (hlong : readable.string < content.length) :
    (loggedIn.step (writeEvent content)).Succeeds (console "save") ∧
      ¬((loggedIn.step (writeEvent content)).step (console "save")).Succeeds (console "load") := by
  have hexport := exportSnapshot_writeEvent hne hplain
  have hwritable : SnapshotWithin writable
      (loggedIn.step (writeEvent content)).kernel.exportSnapshot := by
    rw [hexport]
    have hold := writable_loggedIn
    refine ⟨hold.users, hold.pcbs, hold.readyQueues, hold.memoryBlocks, hold.schedulerOwner,
      (by decide : 1 ≤ writable.list), fun file hmem => ?_⟩
    rw [List.mem_singleton.mp hmem]
    exact ⟨(by decide : (str "a").length ≤ writable.string),
      (by decide : (str "f").length ≤ writable.string), hfits⟩
  have hsave : (loggedIn.step (writeEvent content)).Succeeds (console "save") := by
    have hpath : tempPathFor (loggedIn.step (writeEvent content)).kernel.snapshotStore.path ≠
        (loggedIn.step (writeEvent content)).kernel.snapshotStore.path := by
      rw [run_writeEvent hne hplain]
      show tempPathFor loggedIn.kernel.snapshotStore.path ≠ loggedIn.kernel.snapshotStore.path
      decide +kernel
    obtain ⟨fs', hquiet⟩ := save_quiet hpath hwritable _
    exact (succeeds_request _ _ _).mpr
      (executeRequest_save_success (by decide) (by decide) hquiet)
  refine ⟨hsave, ?_⟩
  intro hload
  obtain ⟨⟨io, hwritten⟩, hkernel, -⟩ := step_save (by decide) hsave
  have hclean : Kernel.Clean (Kernel.start {} ∅) := clean_start {} ∅ fun _ h => by cases h
  have hnoload := noLoad_writeEvent hne hplain
  have hsound := sound_run (w := { kernel := Kernel.start {} ∅ }) hclean hnoload
    (Nat.lt_of_le_of_lt (Runs.total_le_length creations_le_one _ _) (by simp))
  have hcredentials := credentials_run (w := { kernel := Kernel.start {} ∅ }) hclean hnoload
  rw [run_events] at hsound hcredentials
  have hsuccess := (succeeds_request _ quietEnvironment { rawLine := str "load" }).mp hload
  have hwithin := (load_saved hsound hcredentials hwritten _ (congrArg Kernel.snapshotStore hkernel)
    quietEnvironment (by decide) (by decide)).mp hsuccess
  have hexport' : (countedFiles (loggedIn.step (writeEvent content)).kernel.exportSnapshot).virtualFiles =
      [VirtualFileSystem.newFile 1 (str "a") (str "f") content 0] := by
    rw [hexport]
    exact counted_of_lt (by decide : 1 < 2 ^ 32)
  obtain ⟨-, hfiles⟩ := hwithin.virtualFiles
  rw [hexport'] at hfiles
  obtain ⟨-, -, hcontent⟩ := hfiles _ (List.mem_singleton_self _)
  exact absurd hcontent (Nat.not_le.mpr hlong)

def longContent : Str := List.replicate 1048577 120

theorem longContent_plain : ∀ c ∈ longContent, isSpace c = false := fun c hmem => by
  rw [List.eq_of_mem_replicate hmem]
  decide

theorem length_longContent : longContent.length = 1048577 := List.length_replicate

theorem saved_state_refused :
    let w : World := { kernel := Kernel.start {} ∅ }
    let events := [console "register a pw", console "login a pw", writeEvent longContent]
    NoLoad events ∧ (Runs.run step w events).Succeeds (console "save") ∧
      ¬((Runs.run step w events).step (console "save")).Succeeds (console "load") := by
  have hlength := length_longContent
  have hne : longContent ≠ [] := by
    intro hnil
    rw [hnil] at hlength
    cases hlength
  have hlong : readable.string < longContent.length := by
    rw [hlength]
    decide
  have hfits : longContent.length ≤ writable.string := by
    rw [hlength]
    decide
  intro w events
  rw [show Runs.run step w events = loggedIn.step (writeEvent longContent) from
    run_events longContent]
  exact ⟨noLoad_writeEvent hne longContent_plain, refused_of_long hne longContent_plain hfits hlong⟩

end World

end OSCoreSim
