import OSCoreSim.Kernel.SnapshotIdentity
import OSCoreSim.Kernel.ViewIsolation
/-!
# Files after an import

`validateSnapshot` checks users, processes and memory, and `importSnapshotLocked` then takes
the file list and `nextFileId` as they are.  The file operations keep keys, ids and names in
order, so a run from an import keeps them exactly when the snapshot had them and the ids do
not run out.
-/

namespace OSCoreSim

open CommandDispatcher VirtualFileSystem

namespace Kernel

variable {k : Kernel} {snapshot : KernelSnapshot} {command : Command} {name : Str}

def importedFiles (snapshot : KernelSnapshot) : VirtualFileSystem :=
  { nextFileId := max snapshot.nextFileId 1, files := snapshot.virtualFiles }

theorem vfs_of_accepted (h : (k.importSnapshot snapshot).2.1 = true) :
    (k.importSnapshot snapshot).1.vfs = importedFiles snapshot := by
  unfold importSnapshot at h ⊢
  split at h
  · cases h
  next hvalid =>
  simp only at h ⊢
  split at h
  · cases h
  next => rfl

theorem rmFile_success (hname : command.name = str "rm_file") (hargs : command.arguments = [name])
    {time : UInt64} (hok : (k.handleVfsCommand time command).2.success = true) :
    ∃ owner vfs message, k.userManager.currentUser = some owner ∧
      k.vfs.deleteFile owner name = .ok (vfs, message) ∧
      (k.handleVfsCommand time command).1 = { k with vfs := vfs } := by
  have htouch : str "rm_file" ≠ str "touch_file" := by decide
  have hwrite : str "rm_file" ≠ str "write_file" := by decide
  have hread : str "rm_file" ≠ str "read_file" := by decide
  have hls : str "rm_file" ≠ str "ls_file" := by decide
  cases hlogin : k.userManager.currentUser with
  | none =>
    have hout : k.userManager.isLoggedIn = false := by simp [UserManager.isLoggedIn, hlogin]
    rw [handleVfsCommand, hout] at hok
    cases hok
  | some owner =>
    simp only [handleVfsCommand, isLoggedIn_of_login hlogin, currentUserName_of_login hlogin, hname,
      hargs, htouch, hwrite, hread, hls, Bool.not_true, Bool.false_eq_true, if_false,
      if_true] at hok ⊢
    cases hdelete : k.vfs.deleteFile owner name with
    | error message =>
      rw [hdelete] at hok
      cases hok
    | ok pair => exact ⟨owner, pair.1, pair.2, rfl, hdelete, rfl⟩

theorem executeRequest_readFile_missing {owner : Str} {request : CommandRequest}
    (hname : (parse request.rawLine).name = str "read_file")
    (hargs : (parse request.rawLine).arguments = [name])
    (hlogin : k.userManager.currentUser = some owner)
    (hgone : k.vfs.findFileIndex owner name = none) (howner : owner ≠ []) (env : Environment)
    (fs : FileSystem) : (k.executeRequest env fs request).2.2 =
      reply true (str "VFS read failed: file '" ++ name ++ str "' does not exist.") := by
  have hvfs : isVfsCommand (parse request.rawLine).name = true := by rw [hname]; decide
  rw [executeRequest_vfs _ _ _ _ hvfs, readFile_response hname hlogin, hargs]
  simp only [onlyArgument, Option.elim, readFile, howner, hgone, if_false, Option.bind_none]

end Kernel

namespace World

open Kernel

variable {w : World} {event : Event} {events : List Event}

/-- Every file is found by its key and by its id: the table is consistent, a removed file is
gone for its user, and a new file takes an id that no file has. -/
structure FilesIdentified (w : World) : Prop where
  consistent : Consistent w.kernel.vfs
  removed : ∀ (env env' : Environment) (remove read : CommandRequest) (name : Str),
    (parse remove.rawLine).name = str "rm_file" → (parse remove.rawLine).arguments = [name] →
    (parse read.rawLine).name = str "read_file" → (parse read.rawLine).arguments = [name] →
    w.Succeeds (.request env remove) →
      (w.step (.request env remove)).respond (.request env' read) =
        some (reply true (str "VFS read failed: file '" ++ name ++ str "' does not exist."))
  fresh : ∀ event, ¬event.Named (str "load") → ∀ file,
    (w.step event).kernel.vfs.files = w.kernel.vfs.files ++ [file] →
      ∀ old ∈ w.kernel.vfs.files, old.fileId ≠ file.fileId

theorem respond_removed (h : Consistent w.kernel.vfs) {env env' : Environment}
    {remove read : CommandRequest} {name : Str}
    (hremove : (parse remove.rawLine).name = str "rm_file")
    (hremoved : (parse remove.rawLine).arguments = [name])
    (hread : (parse read.rawLine).name = str "read_file")
    (hreads : (parse read.rawLine).arguments = [name]) (hok : w.Succeeds (.request env remove)) :
    (w.step (.request env remove)).respond (.request env' read) =
      some (reply true (str "VFS read failed: file '" ++ name ++ str "' does not exist.")) := by
  have hrm : isVfsCommand (parse remove.rawLine).name = true := by rw [hremove]; decide
  rw [succeeds_request, executeRequest_vfs _ _ _ _ hrm] at hok
  obtain ⟨owner, vfs, message, hlogin, hdelete, hkernel⟩ := rmFile_success hremove hremoved hok
  have hgone : vfs.findFileIndex owner name = none := h.findFileIndex_deleteFile hdelete
  have howner : owner ≠ [] := by
    rintro rfl
    cases hdelete
  have hstep : (w.step (.request env remove)).kernel = { w.kernel with vfs := vfs } := by
    show (w.kernel.executeRequest env w.disk remove).1 = _
    rw [executeRequest_vfs _ _ _ _ hrm, hkernel]
  have hread' := executeRequest_readFile_missing (k := { w.kernel with vfs := vfs }) hread hreads
    hlogin hgone howner env' (w.step (.request env remove)).disk
  rw [← hstep] at hread'
  exact congrArg some hread'

theorem fresh_of_consistent (h : Consistent w.kernel.vfs) (hload : ¬event.Named (str "load"))
    {file : VirtualFile} (hadd : (w.step event).kernel.vfs.files = w.kernel.vfs.files ++ [file]) :
    ∀ old ∈ w.kernel.vfs.files, old.fileId ≠ file.fileId := by
  intro old hold
  have hlength := congrArg List.length hadd
  rw [List.length_append, List.length_singleton] at hlength
  rcases vfs_step hload with hsame | ⟨owner, hc⟩
  · rw [hsame] at hlength
    omega
  · generalize (w.step event).kernel.vfs = vfs' at hc hadd hlength
    cases hc with
    | add name content time =>
      have hlast : newFile w.kernel.vfs.nextFileId owner name content time = file :=
        List.singleton_inj.mp (List.append_cancel_left hadd)
      rw [← hlast]
      exact UInt32.ne_of_lt (h.below old hold)
    | rewrite content time hfiles =>
      simp [hfiles] at hlength
    | remove hfiles =>
      simp only [hfiles, List.length_append, List.length_cons] at hlength
      omega

theorem filesIdentified_iff : w.FilesIdentified ↔ Consistent w.kernel.vfs := by
  refine ⟨FilesIdentified.consistent, fun h => ⟨h, ?_, ?_⟩⟩
  · exact fun env env' remove read name => respond_removed h
  · exact fun event hload file => fresh_of_consistent h hload

/-! ## Steps and runs -/

theorem nextFileId_step (hload : ¬event.Named (str "load"))
    (h : Consistent (w.step event).kernel.vfs) :
    (w.step event).kernel.vfs.nextFileId.toNat =
      w.kernel.vfs.nextFileId.toNat + w.fileCreations event := by
  rw [fileCreations, if_neg hload]
  rcases vfs_step (w := w) hload with hsame | ⟨owner, hc⟩
  · simp [hsame, addedFiles]
  · exact hc.nextFileId h

theorem consistent_step (hload : ¬event.Named (str "load")) (h : Consistent w.kernel.vfs)
    (hroom : w.kernel.vfs.nextFileId.toNat + w.fileCreations event < 2 ^ 32) :
    Consistent (w.step event).kernel.vfs := by
  rw [fileCreations, if_neg hload] at hroom
  rcases vfs_step hload with hsame | ⟨owner, hc⟩
  · rw [hsame]
    exact h
  · exact hc.consistent h hroom

theorem consistent_run_iff (hload : NoLoad events) :
    (∀ before after, events = before ++ after →
        Consistent (Runs.run step w before).kernel.vfs) ↔
      Consistent w.kernel.vfs ∧
        w.kernel.vfs.nextFileId.toNat + Runs.total step fileCreations w events < 2 ^ 32 := by
  induction events generalizing w with
  | nil =>
    refine ⟨fun h => ⟨h [] [] rfl, w.kernel.vfs.nextFileId.toNat_lt⟩, ?_⟩
    rintro ⟨h, -⟩ before after heq
    rw [(List.append_eq_nil_iff.mp heq.symm).1]
    exact h
  | cons event events ih =>
    have hfirst : ¬event.Named (str "load") := hload event List.mem_cons_self
    have hrest : NoLoad events := fun e hmem => hload e (List.mem_cons_of_mem event hmem)
    simp only [Runs.total, ← Nat.add_assoc]
    constructor
    · intro h
      obtain ⟨hnext, hroom⟩ := (ih (w := w.step event) hrest).mp fun before after heq =>
        h (event :: before) after (congrArg (event :: ·) heq)
      rw [nextFileId_step hfirst hnext] at hroom
      exact ⟨h [] (event :: events) rfl, hroom⟩
    · rintro ⟨h, hroom⟩ before after heq
      cases before with
      | nil => exact h
      | cons e before =>
        obtain ⟨rfl, htail⟩ := List.cons.inj heq
        have hnext := consistent_step hfirst h (by omega)
        refine (ih (w := w.step event) hrest).mpr ⟨hnext, ?_⟩ before after htail
        rw [nextFileId_step hfirst hnext]
        exact hroom

def oneFile : World :=
  Runs.run step { kernel := Kernel.start {} ∅ }
    [console "register a pw", console "login a pw", console "write_file f x"]

/-- The snapshot of that state with its file listed twice. -/
def doubledFile : KernelSnapshot :=
  { oneFile.kernel.exportSnapshot with
    virtualFiles := oneFile.kernel.exportSnapshot.virtualFiles ++
      oneFile.kernel.exportSnapshot.virtualFiles }

end World

end OSCoreSim
