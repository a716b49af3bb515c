import OSCoreSim.Lib.OrderedMap
import OSCoreSim.Lib.Runs
import OSCoreSim.Vfs.FileTable
/-!
# The file table refines a finite map

What the virtual file system is for: a map from owner and name to content that remembers the order
of creation.  The code keeps a list with first-match lookups, an id counter, and a sort on export.
-/

namespace OSCoreSim

/-- A call on the virtual file system, with the time that a creation or a write reads from the
clock.  What `importFiles` imports is the own current export, with its next id. -/
inductive FileOp where
  | create (now : UInt64) (owner name : Str)
  | write (now : UInt64) (owner name content : Str)
  | delete (owner name : Str)
  | read (owner name : Str)
  | list (owner : Str)
  | exportFiles
  | importFiles

def FileOp.owner : FileOp → Option Str
  | .create _ owner _ | .write _ owner _ _ | .delete owner _ | .read owner _ | .list owner =>
    some owner
  | .exportFiles | .importFiles => none

inductive FileReply where
  | status (success : Bool) (message : Str)
  | text (text : Str)
  | files (files : List VirtualFile)
  | done

/-! ## The abstract map -/

/-- From owner and name to content. -/
abbrev FileMap := OrderedMap (Str × Str) Str

namespace FileMap

def perform (m : FileMap) : FileOp → FileMap
  | .create _ owner name =>
    if owner ≠ [] ∧ VirtualFileSystem.isValidFileName name = .ok () ∧ m.value (owner, name) = none
    then m.write (owner, name) []
    else m
  | .write _ owner name content =>
    if owner ≠ [] ∧ VirtualFileSystem.isValidFileName name = .ok () then
      m.write (owner, name) content
    else m
  | .delete owner name => if owner ≠ [] then m.delete (owner, name) else m
  | .read _ _ | .list _ | .exportFiles | .importFiles => m

def createReply (m : FileMap) (owner name : Str) : FileReply :=
  if owner = [] then .status false (str "VFS create failed: user must login first.")
  else match VirtualFileSystem.isValidFileName name with
    | .error message => .status false message
    | .ok () => match m.value (owner, name) with
      | some _ =>
        .status false (str "VFS create failed: file '" ++ name ++ str "' already exists.")
      | none => .status true (str "[OK] Virtual file created.\nName: " ++ name ++ str "\nOwner: " ++
          owner)

def writeReply (m : FileMap) (owner name content : Str) : FileReply :=
  if owner = [] then .status false (str "VFS write failed: user must login first.")
  else match VirtualFileSystem.isValidFileName name with
    | .error message => .status false message
    | .ok () => .status true ((match m.value (owner, name) with
        | some _ => str "[OK] Virtual file written.\n"
        | none => str "[OK] Virtual file auto-created and written.\n") ++
          (str "Name: " ++ name ++ str "\nSize: " ++ decimal content.length ++ str " bytes"))

def deleteReply (m : FileMap) (owner name : Str) : FileReply :=
  if owner = [] then .status false (str "VFS delete failed: user must login first.")
  else match m.value (owner, name) with
    | none => .status false (str "VFS delete failed: file '" ++ name ++ str "' does not exist.")
    | some _ => .status true (str "[OK] Virtual file removed: " ++ name)

def readReply (m : FileMap) (owner name : Str) : FileReply :=
  .text (if owner = [] then str "VFS read failed: user must login first."
    else match m.value (owner, name) with
      | none => str "VFS read failed: file '" ++ name ++ str "' does not exist."
      | some content => str "=== Virtual File ===\nName: " ++ name ++ str "\nOwner: " ++ owner ++
          str "\nSize: " ++ decimal content.length ++ str " bytes\nContent:\n" ++ content)

def ownEntries (m : FileMap) (owner : Str) : List ((Str × Str) × Str) :=
  m.entries.filter (·.1.1 = owner)

end FileMap

namespace VirtualFileSystem

def fileKey (file : VirtualFile) : Str × Str := (file.owner, file.name)

def fileEntry (file : VirtualFile) : (Str × Str) × Str := (fileKey file, file.content)

def listText (owner : Str) (files : List VirtualFile) : Str :=
  let header := str "=== Virtual Files for user: " ++ owner ++ str " ===\n"
  if files = [] then header ++ str "No virtual files found."
  else popNewline (header ++ setw 6 (str "ID") ++ setw 14 (str "Name") ++
    setw 8 (str "Size") ++ str "Modified\n" ++ files.flatMap listRow)

/-- The reply that the map prescribes.  The rows of a listing or an export are the entries of the
map in the order of their creation, with increasing ids and any times. -/
def Answers (m : FileMap) : FileOp → FileReply → Prop
  | .create _ owner name, reply => reply = m.createReply owner name
  | .write _ owner name content, reply => reply = m.writeReply owner name content
  | .delete owner name, reply => reply = m.deleteReply owner name
  | .read owner name, reply => reply = m.readReply owner name
  | .list owner, reply =>
    if owner = [] then reply = .text (str "VFS list failed: user must login first.")
    else ∃ files : List VirtualFile, reply = .text (listText owner files) ∧
      files.map fileEntry = m.ownEntries owner ∧ files.Pairwise fun a b => a.fileId < b.fileId
  | .exportFiles, reply => ∃ files : List VirtualFile, reply = .files files ∧
      files.map fileEntry = m.entries ∧ files.Pairwise fun a b => a.fileId < b.fileId
  | .importFiles, reply => reply = .done

/-! ## The calls of the code -/

def keep (vfs : VirtualFileSystem) (result : Except Str (VirtualFileSystem × Str)) :
    VirtualFileSystem :=
  match result with
  | .ok (vfs', _) => vfs'
  | .error _ => vfs

def statusOf (result : Except Str (VirtualFileSystem × Str)) : FileReply :=
  match result with
  | .ok (_, message) => .status true message
  | .error message => .status false message

def perform (vfs : VirtualFileSystem) : FileOp → VirtualFileSystem
  | .create now owner name => vfs.keep (vfs.createFile now owner name)
  | .write now owner name content => vfs.keep (vfs.writeFile now owner name content)
  | .delete owner name => vfs.keep (vfs.deleteFile owner name)
  | .read _ _ | .list _ | .exportFiles => vfs
  | .importFiles => (vfs.importNextFileId vfs.nextFileId).importFiles vfs.exportFiles

def respond (vfs : VirtualFileSystem) : FileOp → FileReply
  | .create now owner name => statusOf (vfs.createFile now owner name)
  | .write now owner name content => statusOf (vfs.writeFile now owner name content)
  | .delete owner name => statusOf (vfs.deleteFile owner name)
  | .read owner name => .text (vfs.readFile owner name)
  | .list owner => .text (vfs.listFiles owner)
  | .exportFiles => .files vfs.exportFiles
  | .importFiles => .done

def creations (vfs : VirtualFileSystem) (op : FileOp) : ℕ := addedFiles vfs (vfs.perform op)

/-- The ids of the files behind a call whose keys were free before it. -/
def newIds (vfs : VirtualFileSystem) (op : FileOp) : List UInt32 :=
  ((vfs.perform op).files.filter fun file => (vfs.findFileIndex file.owner file.name).isNone).map
    (·.fileId)

def issuedIds : VirtualFileSystem → List FileOp → List UInt32
  | _, [] => []
  | vfs, op :: ops => vfs.newIds op ++ issuedIds (vfs.perform op) ops

/-! ## Lookups -/

variable {vfs : VirtualFileSystem} {m : FileMap} {n : ℕ} {owner name : Str}

/-- The files are the entries of the map in the order of their creation. -/
def Stores (vfs : VirtualFileSystem) (m : FileMap) : Prop :=
  OrderedMap.Lists fileKey (·.content) vfs.files m

theorem Stores.value_eq (h : Stores vfs m) {file : VirtualFile} (hmem : file ∈ vfs.files) :
    m.value (file.owner, file.name) = some file.content := OrderedMap.Lists.value_eq h file hmem

theorem Stores.lookup (h : Stores vfs m) (owner name : Str) :
    (∃ l file r, vfs.files = l ++ file :: r ∧ vfs.findFileIndex owner name = some l.length ∧
        fileKey file = (owner, name) ∧ m.value (owner, name) = some file.content) ∨
      vfs.findFileIndex owner name = none ∧ m.value (owner, name) = none := by
  cases hfind : vfs.findFileIndex owner name with
  | some index =>
    obtain ⟨l, file, r, hfiles, hlength, ⟨rfl, rfl⟩, -⟩ := findFileIndex_spec hfind
    refine .inl ⟨l, file, r, hfiles, by rw [hlength], rfl, h.value_eq ?_⟩
    simp [hfiles]
  | none =>
    refine .inr ⟨rfl, OrderedMap.notMem_keys.mp ?_⟩
    rw [← OrderedMap.Lists.keys_eq h, List.mem_map]
    rintro ⟨file, hmem, hkey⟩
    exact findFileIndex_eq_none.mp hfind file hmem (Prod.mk.inj hkey)

theorem getElem?_of_split {l r : List VirtualFile} {file : VirtualFile}
    (hfiles : vfs.files = l ++ file :: r) : vfs.files[l.length]? = some file := by
  simp [hfiles]

theorem Stores.contentOf_eq (h : Stores vfs m) (owner name : Str) :
    vfs.contentOf owner name = m.value (owner, name) := by
  rcases h.lookup owner name with ⟨l, file, r, hfiles, hfind, -, hvalue⟩ | ⟨hfind, hvalue⟩
  · rw [contentOf, hfind, hvalue, Option.bind_some, getElem?_of_split hfiles]
    rfl
  · rw [contentOf, hfind, hvalue]
    rfl

/-! ## The replies -/

theorem Stores.create_reply (h : Stores vfs m) (now : UInt64) (owner name : Str) :
    statusOf (vfs.createFile now owner name) = m.createReply owner name := by
  unfold createFile FileMap.createReply
  split
  · rfl
  cases isValidFileName name with
  | error message => rfl
  | ok =>
    rcases h.lookup owner name with ⟨l, file, r, -, hfind, -, hvalue⟩ | ⟨hfind, hvalue⟩
    · simp only [hfind, hvalue, Option.isSome_some, if_true]
      rfl
    · simp only [hfind, hvalue, Option.isSome_none, Bool.false_eq_true, if_false]
      rfl

theorem Stores.write_reply (h : Stores vfs m) (now : UInt64) (owner name content : Str) :
    statusOf (vfs.writeFile now owner name content) = m.writeReply owner name content := by
  unfold writeFile FileMap.writeReply
  split
  · rfl
  cases isValidFileName name with
  | error message => rfl
  | ok =>
    rcases h.lookup owner name with ⟨l, file, r, -, hfind, -, hvalue⟩ | ⟨hfind, hvalue⟩
    · simp only [hfind, hvalue]
      rfl
    · simp only [hfind, hvalue]
      rfl

theorem Stores.delete_reply (h : Stores vfs m) (owner name : Str) :
    statusOf (vfs.deleteFile owner name) = m.deleteReply owner name := by
  unfold deleteFile FileMap.deleteReply
  split
  · rfl
  · rcases h.lookup owner name with ⟨l, file, r, -, hfind, -, hvalue⟩ | ⟨hfind, hvalue⟩
    · simp only [hfind, hvalue]
      rfl
    · simp only [hfind, hvalue]
      rfl

theorem Stores.read_reply (h : Stores vfs m) (owner name : Str) :
    FileReply.text (vfs.readFile owner name) = m.readReply owner name := by
  unfold readFile FileMap.readReply
  congr 1
  split
  · rfl
  · rcases h.lookup owner name with ⟨l, file, r, hfiles, hfind, hkey, hvalue⟩ | ⟨hfind, hvalue⟩
    · obtain ⟨rfl, rfl⟩ := Prod.mk.inj hkey
      simp only [hfind, hvalue, Option.bind_some, getElem?_of_split hfiles]
    · simp only [hfind, hvalue, Option.bind_none]

theorem sortById_eq {files : List VirtualFile} (h : files.Pairwise fun a b => a.fileId < b.fileId) :
    sortById files = files :=
  List.Pairwise.insertionSort_eq (h.imp fun hlt => UInt32.le_of_lt hlt)

theorem Stores.ownEntries_eq (h : Stores vfs m) (owner : Str) :
    (ownFiles owner vfs).map fileEntry = m.ownEntries owner := by
  have hentries : vfs.files.map fileEntry = m.entries := OrderedMap.Lists.entries_eq h
  rw [FileMap.ownEntries, ← hentries, List.filter_map]
  rfl

theorem Stores.list_reply (h : Stores vfs m) (hordered : Ordered n vfs) (howner : owner ≠ []) :
    ∃ files : List VirtualFile, vfs.listFiles owner = listText owner files ∧
      files.map fileEntry = m.ownEntries owner ∧
      files.Pairwise fun a b => a.fileId < b.fileId := by
  have hids : (ownFiles owner vfs).Pairwise fun a b => a.fileId < b.fileId :=
    hordered.sorted.filter _
  refine ⟨ownFiles owner vfs, ?_, h.ownEntries_eq owner, hids⟩
  rw [listFiles, if_neg howner,
    show vfs.files.filter (·.owner = owner) = ownFiles owner vfs from rfl, sortById_eq hids]
  rfl

/-- Every call replies what the map prescribes. -/
theorem Stores.answers (h : Stores vfs m) (hordered : Ordered n vfs) (op : FileOp) :
    Answers m op (vfs.respond op) := by
  cases op with
  | create now owner name => exact h.create_reply now owner name
  | write now owner name content => exact h.write_reply now owner name content
  | delete owner name => exact h.delete_reply owner name
  | read owner name => exact h.read_reply owner name
  | list owner =>
    by_cases howner : owner = []
    · simp only [Answers, respond, listFiles, howner, if_true]
    · simp only [Answers, respond, howner, if_false]
      obtain ⟨files, htext, hentries, hids⟩ := h.list_reply hordered howner
      exact ⟨files, by rw [htext], hentries, hids⟩
  | exportFiles =>
    refine ⟨vfs.files, ?_, OrderedMap.Lists.entries_eq h, hordered.sorted⟩
    rw [respond, exportFiles, sortById_eq hordered.sorted]
  | importFiles => rfl

/-! ## The steps -/

theorem Stores.addFile (h : Stores vfs m) (hnew : m.value (owner, name) = none) (content : Str)
    (now : UInt64) :
    Stores (vfs.addFile owner name content now) (m.write (owner, name) content) :=
  OrderedMap.Lists.append (r := newFile vfs.nextFileId owner name content now) h hnew

theorem Stores.findFileIndex_eq_none (h : Stores vfs m) :
    vfs.findFileIndex owner name = none ↔ m.value (owner, name) = none := by
  rcases h.lookup owner name with ⟨l, file, r, -, hfind, -, hvalue⟩ | ⟨hfind, hvalue⟩
  · simp [hfind, hvalue]
  · simp [hfind, hvalue]

theorem keep_createFile (vfs : VirtualFileSystem) (now : UInt64) (owner name : Str) :
    vfs.keep (vfs.createFile now owner name) =
      if owner ≠ [] ∧ isValidFileName name = .ok () ∧ vfs.findFileIndex owner name = none then
        vfs.addFile owner name [] now
      else vfs := by
  unfold createFile
  by_cases howner : owner = []
  · simp only [howner, ne_eq, not_true_eq_false, false_and, if_true, if_false]
    rfl
  cases hvalid : isValidFileName name with
  | error message =>
    simp only [howner, reduceCtorEq, false_and, and_false, if_false]
    rfl
  | ok =>
    cases hfind : vfs.findFileIndex owner name with
    | none =>
      simp only [howner, Option.isSome_none, ne_eq, not_false_eq_true, and_self, Bool.false_eq_true,
        if_true, if_false]
      rfl
    | some index =>
      simp only [howner, Option.isSome_some, reduceCtorEq, and_false, if_true, if_false]
      rfl

theorem Stores.create (h : Stores vfs m) (now : UInt64) (owner name : Str) :
    Stores (vfs.perform (.create now owner name)) (m.perform (.create now owner name)) := by
  show Stores (vfs.keep (vfs.createFile now owner name)) (if owner ≠ [] ∧
    isValidFileName name = .ok () ∧ m.value (owner, name) = none then m.write (owner, name) []
    else m)
  rw [keep_createFile]
  simp only [h.findFileIndex_eq_none]
  split
  next hnew => exact h.addFile hnew.2.2 [] now
  next => exact h

/-- A write is refused for its name and without a user only. -/
theorem writeFile_eq_error {now : UInt64} {content message : Str}
    (h : vfs.writeFile now owner name content = .error message) :
    ¬(owner ≠ [] ∧ isValidFileName name = .ok ()) := by
  rintro ⟨howner, hvalid⟩
  simp only [writeFile, howner, hvalid, if_false] at h
  split at h <;> cases h

theorem Stores.write (h : Stores vfs m) (now : UInt64) (owner name content : Str) :
    Stores (vfs.perform (.write now owner name content))
      (m.perform (.write now owner name content)) := by
  show Stores (vfs.keep (vfs.writeFile now owner name content)) (if owner ≠ [] ∧
    isValidFileName name = .ok () then m.write (owner, name) content else m)
  cases hwrite : vfs.writeFile now owner name content with
  | error message =>
    rw [if_neg (writeFile_eq_error hwrite)]
    exact h
  | ok pair =>
    have howner : owner ≠ [] := fun howner => by simp [writeFile, howner] at hwrite
    obtain ⟨hvalid, ⟨l, file, r, hfiles, ⟨rfl, rfl⟩, -, hvfs⟩ | ⟨hnew, hvfs⟩⟩ :=
      writeFile_eq_ok hwrite
    · rw [if_pos ⟨howner, hvalid⟩, keep, hvfs]
      unfold Stores at h ⊢
      rw [hfiles] at h
      exact OrderedMap.Lists.overwrite h
        (rfl : fileKey { file with content := content, modifiedAt := now } = fileKey file)
    · rw [if_pos ⟨howner, hvalid⟩, keep, hvfs]
      exact h.addFile (h.findFileIndex_eq_none.mp hnew) content now

theorem Stores.delete (h : Stores vfs m) (owner name : Str) :
    Stores (vfs.perform (.delete owner name)) (m.perform (.delete owner name)) := by
  show Stores (vfs.keep (vfs.deleteFile owner name)) (if owner ≠ [] then m.delete (owner, name)
    else m)
  by_cases howner : owner = []
  · rw [if_neg (not_not.mpr howner), deleteFile, if_pos howner]
    exact h
  rw [if_pos howner]
  cases hdelete : vfs.deleteFile owner name with
  | error message =>
    rcases h.lookup owner name with ⟨l, file, r, -, hfind, -⟩ | ⟨-, hvalue⟩
    · simp only [deleteFile, howner, hfind, if_false] at hdelete
      cases hdelete
    · rw [OrderedMap.delete_of_none hvalue]
      exact h
  | ok pair =>
    obtain ⟨l, file, r, hfiles, rfl, rfl, hvfs⟩ := deleteFile_eq_ok hdelete
    rw [keep, hvfs]
    unfold Stores at h ⊢
    rw [hfiles] at h
    exact OrderedMap.Lists.erase h

theorem Stores.perform (h : Stores vfs m) (hordered : Ordered n vfs) (op : FileOp) :
    Stores (vfs.perform op) (m.perform op) := by
  cases op with
  | create now owner name => exact h.create now owner name
  | write now owner name content => exact h.write now owner name content
  | delete owner name => exact h.delete owner name
  | read | list | exportFiles => exact h
  | importFiles =>
    rw [VirtualFileSystem.perform, hordered.import_exportFiles]
    exact h

theorem perform_cases (hordered : Ordered n vfs) (op : FileOp) :
    vfs.perform op = vfs ∨
      ∃ owner, op.owner = some owner ∧ FileChange owner vfs (vfs.perform op) := by
  have hkeep : ∀ {owner : Str} {result : Except Str (VirtualFileSystem × Str)},
      (∀ vfs' message, result = .ok (vfs', message) → FileChange owner vfs vfs') →
        vfs.keep result = vfs ∨ FileChange owner vfs (vfs.keep result) := by
    intro owner result hspec
    cases result with
    | error message => exact .inl rfl
    | ok pair => exact .inr (hspec pair.1 pair.2 rfl)
  cases op with
  | create now owner name => exact (hkeep fun _ _ => createFile_spec).imp_right (⟨owner, rfl, ·⟩)
  | write now owner name content =>
    exact (hkeep fun _ _ => writeFile_spec).imp_right (⟨owner, rfl, ·⟩)
  | delete owner name => exact (hkeep fun _ _ => deleteFile_spec).imp_right (⟨owner, rfl, ·⟩)
  | read | list | exportFiles => exact .inl rfl
  | importFiles => exact .inl (hordered.import_exportFiles vfs)

theorem Ordered.perform (h : Ordered n vfs) (op : FileOp)
    (hroom : n + vfs.creations op < 2 ^ 32 - 1) :
    Ordered (n + vfs.creations op) (vfs.perform op) := by
  rcases perform_cases h op with hsame | ⟨owner, -, hchange⟩
  · rw [hsame]
    exact h.mono (Nat.le_add_right n _)
  · exact hchange.ordered h hroom

/-! ## Ids -/

theorem Ordered.addFile_next {content : Str} {now : UInt64} (h : Ordered n vfs)
    (hroom : n + 1 < 2 ^ 32 - 1) :
    (vfs.addFile owner name content now).nextFileId.toNat = vfs.nextFileId.toNat + 1 := by
  have hle := h.next_le
  show (vfs.nextFileId + 1).toNat = vfs.nextFileId.toNat + 1
  rw [UInt32.toNat_add]
  exact Nat.mod_eq_of_lt (by omega : vfs.nextFileId.toNat + 1 < 2 ^ 32)

theorem isNone_findFileIndex_of_mem {file : VirtualFile} (hmem : file ∈ vfs.files)
    (howner : file.owner = owner) (hname : file.name = name) :
    (vfs.findFileIndex owner name).isNone = false := by
  cases hfind : vfs.findFileIndex owner name with
  | some index => rfl
  | none => exact absurd ⟨howner, hname⟩ (findFileIndex_eq_none.mp hfind file hmem)

theorem newIds_cases (h : Ordered n vfs) {op : FileOp}
    (hroom : n + vfs.creations op < 2 ^ 32 - 1) :
    (vfs.newIds op = [] ∧ (vfs.perform op).nextFileId = vfs.nextFileId) ∨
      (vfs.newIds op = [vfs.nextFileId] ∧
        (vfs.perform op).nextFileId.toNat = vfs.nextFileId.toNat + 1) := by
  have hknown : ∀ file ∈ vfs.files, (vfs.findFileIndex file.owner file.name).isNone = false :=
    fun file hmem => isNone_findFileIndex_of_mem hmem rfl rfl
  have hnone : vfs.files.filter (fun file => (vfs.findFileIndex file.owner file.name).isNone) =
      [] := List.filter_eq_nil_iff.mpr fun file hmem => by rw [hknown file hmem]; exact Bool.false_ne_true
  unfold creations at hroom
  unfold newIds
  rcases perform_cases h op with hsame | ⟨owner, -, hchange⟩
  · rw [hsame, hnone]
    exact .inl ⟨rfl, rfl⟩
  generalize vfs.perform op = vfs' at hchange hroom ⊢
  cases hchange with
  | add name content now hvalid hnew =>
    rw [addedFiles_addFile] at hroom
    refine .inr ⟨?_, h.addFile_next hroom⟩
    have hlast : (vfs.findFileIndex owner name).isNone = true := by rw [hnew]; rfl
    simp only [addFile, newFile, List.filter_append, hnone, List.nil_append, List.filter_cons, hlast,
      if_true, List.filter_nil, List.map_cons, List.map_nil]
  | @rewrite l r file content now hfiles =>
    refine .inl ⟨List.map_eq_nil_iff.mpr (List.filter_eq_nil_iff.mpr fun found hmem => ?_), rfl⟩
    have hold : (vfs.findFileIndex found.owner found.name).isNone = false := by
      rw [hfiles] at hknown
      rcases List.mem_append.mp hmem with hl | hr
      · exact hknown found (List.mem_append_left _ hl)
      rcases List.mem_cons.mp hr with rfl | hr
      · exact hknown file (by simp)
      · exact hknown found (by simp [hr])
    rw [hold]
    exact Bool.false_ne_true
  | @remove l r file hfiles =>
    refine .inl ⟨List.map_eq_nil_iff.mpr (List.filter_eq_nil_iff.mpr fun found hmem => ?_), rfl⟩
    have hold : found ∈ vfs.files := by
      rw [hfiles]
      exact ((List.Sublist.refl l).append (List.sublist_cons_self file r)).subset hmem
    rw [hknown found hold]
    exact Bool.false_ne_true

theorem issuedIds_increasing {ops : List FileOp} (h : Ordered n vfs)
    (hbudget : n + Runs.total perform creations vfs ops < 2 ^ 32 - 1) :
    (issuedIds vfs ops).Pairwise (· < ·) ∧
      ∀ id ∈ issuedIds vfs ops, vfs.nextFileId.toNat ≤ id.toNat := by
  induction ops generalizing n vfs with
  | nil => exact ⟨.nil, fun _ hmem => by cases hmem⟩
  | cons op ops ih =>
    simp only [Runs.total, ← Nat.add_assoc] at hbudget
    have hroom : n + vfs.creations op < 2 ^ 32 - 1 := by omega
    obtain ⟨hrest, hlater⟩ := ih (h.perform op hroom) hbudget
    rw [issuedIds]
    rcases newIds_cases h hroom with ⟨hids, hnext⟩ | ⟨hids, hnext⟩
    · rw [hids, List.nil_append]
      exact ⟨hrest, hnext ▸ hlater⟩
    · rw [hnext] at hlater
      rw [hids]
      refine ⟨List.pairwise_cons.mpr ⟨fun id hmem => ?_, hrest⟩, fun id hmem => ?_⟩
      · exact UInt32.lt_iff_toNat_lt.mpr (hlater id hmem)
      · rcases List.mem_cons.mp hmem with rfl | hmem
        · exact Nat.le_refl _
        · exact Nat.le_of_succ_le (hlater id hmem)

/-! ## Runs -/

theorem stores_run (ops : List FileOp)
    (hbudget : Runs.total perform creations {} ops < 2 ^ 32 - 1) :
    Ordered (0 + Runs.total perform creations {} ops) (Runs.run perform {} ops) ∧
      Stores (Runs.run perform {} ops) (Runs.run FileMap.perform .empty ops) := by
  have hgeneral : ∀ (ops : List FileOp) (n : ℕ) (vfs : VirtualFileSystem) (m : FileMap),
      Ordered n vfs → Stores vfs m → n + Runs.total perform creations vfs ops < 2 ^ 32 - 1 →
        Ordered (n + Runs.total perform creations vfs ops) (Runs.run perform vfs ops) ∧
          Stores (Runs.run perform vfs ops) (Runs.run FileMap.perform m ops) := by
    intro ops
    induction ops with
    | nil => exact fun n vfs m hordered hstores _ => ⟨hordered, hstores⟩
    | cons op ops ih =>
      intro n vfs m hordered hstores hbound
      simp only [Runs.total, ← Nat.add_assoc] at hbound ⊢
      exact ih _ _ _ (hordered.perform op (by omega)) (hstores.perform hordered op) hbound
  exact hgeneral ops 0 {} .empty ordered_empty OrderedMap.lists_empty (by rwa [Nat.zero_add])

end VirtualFileSystem

end OSCoreSim
