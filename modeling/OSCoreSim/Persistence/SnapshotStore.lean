import OSCoreSim.Lib.ByteStream
import OSCoreSim.Auth.UserManager
import OSCoreSim.Memory.MemoryManager
import OSCoreSim.Process.ProcessManager
import OSCoreSim.Vfs.VirtualFileSystem
import Mathlib.Data.Fin.VecNotation
/-!
# Binary snapshots

The version 2 snapshot format, and the replacement of the state file on disk.
A stream that throws in the middle of a record leaves the bytes it has already
written in the temporary file.
-/

namespace OSCoreSim

open Std (ExtTreeMap)
open ByteStream (Reader writeBytes readBytes leBytes leValue readMany)

structure KernelSnapshot where
  users : List UserAccount := []
  nextPid : UInt32 := 1
  pcbs : List PCB := []
  readyQueues : ReadyQueues := fun _ => []
  memoryBlocks : List MemoryBlock := []
  totalMemoryKB : UInt32 := 1024
  allocAlgorithm : AllocAlgorithm := .firstFit
  schedulerRunning : Bool := false
  schedulerOwner : Str := []
  nextFileId : UInt32 := 1
  virtualFiles : List VirtualFile := []

structure SnapshotStore where
  path : Str := str "data/os_state.bin"
  deriving DecidableEq, Repr

abbrev FileSystem := ExtTreeMap Str Str

namespace SnapshotStore

def kMagic : Str := str "OSSM2026"
def kVersionV1 : UInt32 := 1
def kVersionV2 : UInt32 := 2
def kSnapshotVersion : UInt32 := 2
def kHeaderSize : UInt32 := 20
def kFlags : UInt32 := 0
def kMaxStringLength : UInt32 := 1048576
def kMaxVectorCount : UInt32 := 1000000

/-! ## Scalars and strings -/

abbrev BinaryWriter := ByteStream.Writer Str Unit
abbrev BinaryReader (α : Type) := Reader Str α

def writeUint32 (value : UInt32) : BinaryWriter := writeBytes (leBytes 4 value.toNat)

def writeUint64 (value : UInt64) : BinaryWriter := writeBytes (leBytes 8 value.toNat)

def writeInt32 (value : Int32) : BinaryWriter := writeUint32 value.toUInt32

def writeBool (value : Bool) : BinaryWriter := writeUint32 (if value then 1 else 0)

def writeString (value : Str) : BinaryWriter :=
  if 4294967295 < value.length then throw (str "string too large")
  else do
    writeUint32 (UInt32.ofNat value.length)
    writeBytes value

def readRaw (n : Nat) : BinaryReader Str := readBytes (str "truncated file") n

def readUint32 : BinaryReader UInt32 := do
  let bytes ← readRaw 4
  pure (UInt32.ofNat (leValue bytes))

def readUint64 : BinaryReader UInt64 := do
  let bytes ← readRaw 8
  pure (UInt64.ofNat (leValue bytes))

def readInt32 : BinaryReader Int32 := do
  let bits ← readUint32
  pure bits.toInt32

def readBool : BinaryReader Bool := do
  let encoded ← readUint32
  if 1 < encoded then throw (str "invalid bool value") else pure (encoded == 1)

def readString : BinaryReader Str := do
  let length ← readUint32
  if kMaxStringLength < length then throw (str "string length is too large")
  else readRaw length.toNat

/-- `writeUint32(list.size())` and the loop over the elements. -/
def writeList {α : Type} (write : α → BinaryWriter) (xs : List α) : BinaryWriter := do
  writeUint32 (UInt32.ofNat xs.length)
  xs.forM write

/-- The count, its limit, and the loop that reads the elements. -/
def readList {α : Type} (tooMany : Str) (read : BinaryReader α) : BinaryReader (List α) := do
  let count ← readUint32
  if kMaxVectorCount < count then throw tooMany else readMany read count.toNat

/-! ## Enumerations -/

/-- The enumerators of an enumeration in declaration order, each with its `int32` code. -/
def codeIn {α : Type} [DecidableEq α] (values : List α) (value : α) : Int32 :=
  Int32.ofNat (values.idxOf value)

/-- `static_cast` from an `int32`, refused outside the declared range. -/
def readEnum {α : Type} (values : List α) (invalid : Str) : BinaryReader α := do
  let code ← readInt32
  if code < 0 then throw invalid
  else match values[code.toNatClampNeg]? with
    | some value => pure value
    | none => throw invalid

def accountStatuses : List AccountStatus := [.normal, .locked]

def processStates : List ProcessState :=
  [.new, .ready, .running, .blocked, .suspendedReady, .suspendedBlocked, .terminated, .swapped]

def memoryBlockTypes : List MemoryBlockType := [.free, .process, .kernel, .swapped]

def allocAlgorithms : List AllocAlgorithm := [.firstFit, .bestFit, .worstFit]

/-! ## Records -/

def writeVirtualFile (file : VirtualFile) : BinaryWriter := do
  writeUint32 file.fileId
  writeString file.owner
  writeString file.name
  writeString file.content
  writeUint64 file.createdAt
  writeUint64 file.modifiedAt

def readVirtualFile : BinaryReader VirtualFile := do
  let fileId ← readUint32
  let owner ← readString
  let name ← readString
  let content ← readString
  let createdAt ← readUint64
  let modifiedAt ← readUint64
  pure { fileId := fileId, owner := owner, name := name, content := content
         createdAt := createdAt, modifiedAt := modifiedAt }

def writeUser (account : UserAccount) : BinaryWriter := do
  writeString account.username
  writeString account.passwordHash
  writeString account.salt
  writeInt32 account.failedAttempts
  writeInt32 (codeIn accountStatuses account.status)

def readUser : BinaryReader UserAccount := do
  let username ← readString
  let passwordHash ← readString
  let salt ← readString
  let failedAttempts ← readInt32
  let status ← readEnum accountStatuses (str "invalid account status")
  pure { username := username, passwordHash := passwordHash, salt := salt
         failedAttempts := failedAttempts, status := status }

def writePcb (pcb : PCB) : BinaryWriter := do
  writeUint32 pcb.pid
  writeUint32 pcb.ppid
  writeString pcb.name
  writeString pcb.owner
  writeInt32 (codeIn processStates pcb.state)
  writeInt32 pcb.priority
  writeInt32 pcb.queueLevel
  writeUint32 pcb.totalTime
  writeUint32 pcb.executedTime
  writeUint32 pcb.remainingTime
  writeUint32 pcb.timeSliceLeft
  writeUint32 pcb.memStart
  writeUint32 pcb.memSize
  writeBool pcb.swappedOut
  writeList writeUint32 pcb.children

def readPcb : BinaryReader PCB := do
  let pid ← readUint32
  let ppid ← readUint32
  let name ← readString
  let owner ← readString
  let state ← readEnum processStates (str "invalid process state")
  let priority ← readInt32
  let queueLevel ← readInt32
  let totalTime ← readUint32
  let executedTime ← readUint32
  let remainingTime ← readUint32
  let timeSliceLeft ← readUint32
  let memStart ← readUint32
  let memSize ← readUint32
  let swappedOut ← readBool
  let children ← readList (str "too many child PIDs") readUint32
  pure { pid := pid, ppid := ppid, name := name, owner := owner, state := state
         priority := priority, queueLevel := queueLevel, totalTime := totalTime
         executedTime := executedTime, remainingTime := remainingTime
         timeSliceLeft := timeSliceLeft, memStart := memStart, memSize := memSize
         swappedOut := swappedOut, children := children }

def writeMemoryBlock (block : MemoryBlock) : BinaryWriter := do
  writeUint32 block.start
  writeUint32 block.size
  writeInt32 (codeIn memoryBlockTypes block.type)
  writeUint32 block.pid
  writeString block.owner
  writeString block.tag

def readMemoryBlock : BinaryReader MemoryBlock := do
  let start ← readUint32
  let size ← readUint32
  let type ← readEnum memoryBlockTypes (str "invalid memory block type")
  let pid ← readUint32
  let owner ← readString
  let tag ← readString
  pure { start := start, size := size, type := type, pid := pid, owner := owner, tag := tag }

/-! ## The whole file -/

def writeHeader : BinaryWriter := do
  writeBytes kMagic
  writeUint32 kSnapshotVersion
  writeUint32 kHeaderSize
  writeUint32 kFlags

/-- `readHeader`: the version, which is 1 or 2. -/
def readHeader : BinaryReader UInt32 := do
  let magic ← readRaw 8
  if magic ≠ kMagic then throw (str "invalid magic")
  else do
    let version ← readUint32
    if version ≠ kVersionV1 ∧ version ≠ kVersionV2 then throw (str "unsupported version")
    else do
      let headerSize ← readUint32
      if headerSize ≠ kHeaderSize then throw (str "invalid header size")
      else do
        let _ ← readUint32
        pure version

/-- The block of `save` that writes the stream. -/
def serialize (snapshot : KernelSnapshot) : BinaryWriter := do
  writeHeader
  writeList writeUser snapshot.users
  writeUint32 snapshot.nextPid
  writeList writePcb snapshot.pcbs
  writeList writeUint32 (snapshot.readyQueues 0)
  writeList writeUint32 (snapshot.readyQueues 1)
  writeList writeUint32 (snapshot.readyQueues 2)
  writeUint32 snapshot.totalMemoryKB
  writeInt32 (codeIn allocAlgorithms snapshot.allocAlgorithm)
  writeList writeMemoryBlock snapshot.memoryBlocks
  writeBool snapshot.schedulerRunning
  writeString snapshot.schedulerOwner
  writeUint32 snapshot.nextFileId
  writeList writeVirtualFile snapshot.virtualFiles

/-- The version-dependent tail of `load`: a version 1 file has no VFS section. -/
def readVfsSection (version : UInt32) : BinaryReader (UInt32 × List VirtualFile) :=
  if 2 ≤ version then do
    let nextFileId ← readUint32
    let virtualFiles ← readList (str "too many virtual files") readVirtualFile
    pure (nextFileId, virtualFiles)
  else pure (1, [])

/-- The block of `load` that reads the stream. -/
def deserialize : BinaryReader KernelSnapshot := do
  let fileVersion ← readHeader
  let users ← readList (str "too many users") readUser
  let nextPid ← readUint32
  let pcbs ← readList (str "too many PCBs") readPcb
  let q0 ← readList (str "too many ready queue entries") readUint32
  let q1 ← readList (str "too many ready queue entries") readUint32
  let q2 ← readList (str "too many ready queue entries") readUint32
  let totalMemoryKB ← readUint32
  let allocAlgorithm ← readEnum allocAlgorithms (str "invalid allocation algorithm")
  let memoryBlocks ← readList (str "too many memory blocks") readMemoryBlock
  let schedulerRunning ← readBool
  let schedulerOwner ← readString
  let vfs ← readVfsSection fileVersion
  pure { users := users, nextPid := nextPid, pcbs := pcbs, readyQueues := ![q0, q1, q2]
         memoryBlocks := memoryBlocks, totalMemoryKB := totalMemoryKB
         allocAlgorithm := allocAlgorithm, schedulerRunning := schedulerRunning
         schedulerOwner := schedulerOwner, nextFileId := vfs.1, virtualFiles := vfs.2 }

/-! ## Paths -/

def isPathSeparator (c : UInt8) : Bool := c == 47 || c == 92

def filename (path : Str) : Str := (path.reverse.takeWhile (!isPathSeparator ·)).reverse

def directory (path : Str) : Str := path.take (path.length - (filename path).length)

/-- `path.stem()`: the filename up to its last dot, unless that dot is its first byte. -/
def stem (name : Str) : Str :=
  if name = str "." ∨ name = str ".." then name
  else match name.reverse.dropWhile (· ≠ 46) with
    | [] => name
    | [_] => name
    | _ :: rest => rest.reverse

/-- `tempPathFor`: `replace_extension(".tmp")`. -/
def tempPathFor (path : Str) : Str := directory path ++ stem (filename path) ++ str ".tmp"

/-! ## The state file -/

/-- How the calls of one `save` to the file system go. -/
structure SaveIo where
  /-- what `create_directories` throws -/
  createDirectories : Option Str := none
  opens : Bool := true
  /-- the number of bytes the stream takes before it goes bad -/
  writeLimit : Option Nat := none
  flushes : Bool := true
  removes : Bool := true
  /-- the error of `rename`, if it fails although its source is there -/
  renameError : Option Str := none
  /-- the error text for a missing source of `rename` -/
  missingError : Str := []

/-- `std::filesystem::remove`, its error discarded. -/
def removeFile (io : SaveIo) (fs : FileSystem) (path : Str) : FileSystem :=
  if io.removes then fs.erase path else fs

/-- `std::filesystem::rename`, which replaces an existing target. -/
def renameFile (io : SaveIo) (fs : FileSystem) (source target : Str) : Except Str FileSystem :=
  match fs[source]?, io.renameError with
  | none, _ => .error io.missingError
  | some _, some error => .error error
  | some content, none => .ok ((fs.erase source).insert target content)

/-- The stream part of `save`: what reaches the temporary file, and the exception. -/
def writeStream (io : SaveIo) (snapshot : KernelSnapshot) : Str × Except Str Unit :=
  let (result, bytes) := (serialize snapshot).run.run []
  match io.writeLimit with
  | none => (bytes, result)
  | some limit => if limit < bytes.length then (bytes.take limit, .error (str "failed write"))
    else (bytes, result)

/-- `SnapshotStore::save`: the files afterwards, and the message of a failure. -/
def save (store : SnapshotStore) (io : SaveIo) (fs : FileSystem) (snapshot : KernelSnapshot) :
    FileSystem × Except Str Unit :=
  let tmpPath := tempPathFor store.path
  match (if directory store.path = [] then none else io.createDirectories) with
  | some what => (fs, .error (str "Save failed: " ++ what))
  | none =>
    if !io.opens then
      (fs, .error (str "Save failed: cannot open temporary snapshot file."))
    else
      let (written, result) := writeStream io snapshot
      let fs := fs.insert tmpPath written
      match result with
      | .error what => (fs, .error (str "Save failed: " ++ what))
      | .ok () =>
        if !io.flushes then
          (fs, .error (str "Save failed: failed to flush snapshot file."))
        else
          let fs := removeFile io fs store.path
          match renameFile io fs tmpPath store.path with
          | .error error =>
            (fs, .error (str "Save failed: cannot replace snapshot file: " ++ error))
          | .ok fs => (fs, .ok ())

def load (store : SnapshotStore) (fs : FileSystem) : Except Str KernelSnapshot :=
  match fs[store.path]? with
  | none => .error (str "Load failed: state file does not exist or cannot be opened.")
  | some bytes =>
    match deserialize.run bytes with
    | .ok (loaded, _) => .ok loaded
    | .error what => .error (str "Load failed: " ++ what)

def fileExists (store : SnapshotStore) (fs : FileSystem) : Bool := fs.contains store.path

end SnapshotStore

end OSCoreSim
