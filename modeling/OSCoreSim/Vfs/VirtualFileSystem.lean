import OSCoreSim.Util.Str
import Mathlib.Data.List.Sort
/-!
# Flat virtual file system

One list of files for all users; `owner` and `name` together are the lookup key.
-/

namespace OSCoreSim

structure VirtualFile where
  fileId : UInt32 := 0
  owner : Str := []
  name : Str := []
  content : Str := []
  createdAt : UInt64 := 0
  modifiedAt : UInt64 := 0
  deriving DecidableEq, Repr

structure VirtualFileSystem where
  nextFileId : UInt32 := 1
  files : List VirtualFile := []
  deriving DecidableEq, Repr

namespace VirtualFileSystem

/-- `isValidFileName`; the message on refusal. -/
def isValidFileName (name : Str) : Except Str Unit :=
  if name = [] then .error (str "VFS failed: file name cannot be empty.")
  else if 64 < name.length then
    .error (str "VFS failed: file name must be 1 to 64 characters.")
  else if !name.all (fun ch => isAlnum ch || ch == 95 || ch == 45 || ch == 46) then
    .error (str "VFS failed: file name may only contain " ++
      str "letters, digits, underscore, hyphen, or dot.")
  else .ok ()

/-- `findFileIndex`; `none` is the index -1. -/
def findFileIndex (vfs : VirtualFileSystem) (owner name : Str) : Option Nat :=
  vfs.files.findIdx? fun file => file.owner = owner ∧ file.name = name

def newFile (fileId : UInt32) (owner name content : Str) (now : UInt64) : VirtualFile :=
  { fileId := fileId, owner := owner, name := name, content := content
    createdAt := now, modifiedAt := now }

def addFile (vfs : VirtualFileSystem) (owner name content : Str) (now : UInt64) :
    VirtualFileSystem :=
  { vfs with
    nextFileId := vfs.nextFileId + 1
    files := vfs.files ++ [newFile vfs.nextFileId owner name content now] }

/-- `createFile` at the time `now`. -/
def createFile (vfs : VirtualFileSystem) (now : UInt64) (owner name : Str) :
    Except Str (VirtualFileSystem × Str) :=
  if owner = [] then .error (str "VFS create failed: user must login first.")
  else match isValidFileName name with
    | .error message => .error message
    | .ok () =>
      if (vfs.findFileIndex owner name).isSome then
        .error (str "VFS create failed: file '" ++ name ++ str "' already exists.")
      else .ok (vfs.addFile owner name [] now,
        str "[OK] Virtual file created.\nName: " ++ name ++ str "\nOwner: " ++ owner)

def writeFile (vfs : VirtualFileSystem) (now : UInt64) (owner name content : Str) :
    Except Str (VirtualFileSystem × Str) :=
  if owner = [] then .error (str "VFS write failed: user must login first.")
  else match isValidFileName name with
    | .error message => .error message
    | .ok () =>
      let report := str "Name: " ++ name ++ str "\nSize: " ++ decimal content.length ++
        str " bytes"
      match vfs.findFileIndex owner name with
      | some index =>
        .ok ({ vfs with files := vfs.files.modify index fun file =>
            { file with content := content, modifiedAt := now } },
          str "[OK] Virtual file written.\n" ++ report)
      | none => .ok (vfs.addFile owner name content now,
          str "[OK] Virtual file auto-created and written.\n" ++ report)

def readFile (vfs : VirtualFileSystem) (owner name : Str) : Str :=
  if owner = [] then str "VFS read failed: user must login first."
  else match (vfs.findFileIndex owner name).bind fun index => vfs.files[index]? with
    | none => str "VFS read failed: file '" ++ name ++ str "' does not exist."
    | some file =>
      str "=== Virtual File ===\nName: " ++ file.name ++ str "\nOwner: " ++ file.owner ++
        str "\nSize: " ++ decimal file.content.length ++ str " bytes\nContent:\n" ++ file.content

def deleteFile (vfs : VirtualFileSystem) (owner name : Str) :
    Except Str (VirtualFileSystem × Str) :=
  if owner = [] then .error (str "VFS delete failed: user must login first.")
  else match vfs.findFileIndex owner name with
    | none => .error (str "VFS delete failed: file '" ++ name ++ str "' does not exist.")
    | some index =>
      .ok ({ vfs with files := vfs.files.eraseIdx index },
        str "[OK] Virtual file removed: " ++ name)

def listRow (file : VirtualFile) : Str :=
  setw 6 (decimal file.fileId.toNat) ++ setw 14 file.name ++
    setw 8 (decimal file.content.length) ++ decimal file.modifiedAt.toNat ++ str "\n"

/-- `std::sort` by `fileId`. -/
def sortById (files : List VirtualFile) : List VirtualFile :=
  files.insertionSort fun a b => a.fileId ≤ b.fileId

def listFiles (vfs : VirtualFileSystem) (owner : Str) : Str :=
  if owner = [] then str "VFS list failed: user must login first."
  else
    let userFiles := sortById (vfs.files.filter (·.owner = owner))
    let header := str "=== Virtual Files for user: " ++ owner ++ str " ===\n"
    if userFiles = [] then header ++ str "No virtual files found."
    else popNewline (header ++ setw 6 (str "ID") ++ setw 14 (str "Name") ++
      setw 8 (str "Size") ++ str "Modified\n" ++ userFiles.flatMap listRow)

def fileCountForUser (vfs : VirtualFileSystem) (owner : Str) : Nat :=
  (vfs.files.filter (·.owner = owner)).length

/-! ## Persistence interface -/

def exportFiles (vfs : VirtualFileSystem) : List VirtualFile := sortById vfs.files

def importFiles (vfs : VirtualFileSystem) (files : List VirtualFile) : VirtualFileSystem :=
  { vfs with files := files }

def importNextFileId (vfs : VirtualFileSystem) (nextFileId : UInt32) : VirtualFileSystem :=
  { vfs with nextFileId := max nextFileId 1 }

end VirtualFileSystem

end OSCoreSim
