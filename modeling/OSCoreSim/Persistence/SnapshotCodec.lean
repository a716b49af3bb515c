import OSCoreSim.Persistence.SnapshotStore
import Mathlib.Data.Fintype.Basic
import Mathlib.Tactic.FinCases
/-!
# The snapshot codec

The writer of each record against its reader, field by field.  The writer takes strings and
lists up to `2 ^ 32 - 1` elements, the reader only those within its own limits; inside the
limits the reader gives back what was written and stops at the last byte written, beyond
them it refuses.
-/

namespace OSCoreSim

open ByteStream

namespace SnapshotStore

/-! ## Scalars -/

theorem transcribes_uint32 (value : UInt32) :
    Transcribes (writeUint32 value) readUint32 value True True := by
  have h := transcribes_fixed (str "truncated file") 4 value.toNat fun bytes =>
    UInt32.ofNat (leValue bytes)
  have hvalue : UInt32.ofNat (leValue (leBytes 4 value.toNat)) = value := by
    rw [leValue_leBytes, Nat.mod_eq_of_lt (by exact value.toNat_lt), UInt32.ofNat_toNat]
  rw [hvalue] at h
  exact h

theorem decodes_uint32 (bs : Bytes) (h : bs.length = 4) :
    Decodes readUint32 bs (UInt32.ofNat (leValue bs)) := by
  have hread := decodes_readBytes (str "truncated file") bs
  rw [h] at hread
  exact hread.map fun bytes => UInt32.ofNat (leValue bytes)

theorem transcribes_uint64 (value : UInt64) :
    Transcribes (writeUint64 value) readUint64 value True True := by
  have h := transcribes_fixed (str "truncated file") 8 value.toNat fun bytes =>
    UInt64.ofNat (leValue bytes)
  have hvalue : UInt64.ofNat (leValue (leBytes 8 value.toNat)) = value := by
    rw [leValue_leBytes, Nat.mod_eq_of_lt (by exact value.toNat_lt), UInt64.ofNat_toNat]
  rw [hvalue] at h
  exact h

theorem transcribes_int32 (value : Int32) :
    Transcribes (writeInt32 value) readInt32 value True True := by
  have h := (transcribes_uint32 value.toUInt32).map UInt32.toInt32
  exact h

theorem transcribes_bool (value : Bool) :
    Transcribes (writeBool value) readBool value True True := by
  refine (transcribes_uint32 (if value then 1 else 0)).then_pure ?_
  cases value <;> rfl

/-- The length limits of the file format, in bytes and in elements. -/
structure Limits where
  string : ℕ
  list : ℕ

/-- What the writer can express. -/
def writable : Limits := { string := 4294967295, list := 4294967295 }

/-- What the reader accepts. -/
def readable : Limits := { string := 1048576, list := 1000000 }

theorem transcribes_string (value : Str) : Transcribes (writeString value) readString value
    (value.length ≤ writable.string) (value.length ≤ readable.string) := by
  intro hfits
  have hfits' : ¬4294967295 < value.length := Nat.not_lt.mpr hfits
  have hcount : (UInt32.ofNat value.length).toNat = value.length := by
    rw [UInt32.toNat_ofNat', Nat.mod_eq_of_lt (by omega)]
  have hlimit : kMaxStringLength.toNat = 1048576 := rfl
  have hfront := transcribes_uint32 (UInt32.ofNat value.length)
  obtain ⟨bs, hemit, hdec, -⟩ := hfront trivial
  have hwrite : writeString value =
      (writeUint32 (UInt32.ofNat value.length) >>= fun _ => writeBytes value) := by
    unfold writeString
    rw [if_neg hfits']
  rw [hwrite]
  refine ⟨bs ++ value, hemit.bind (emits_writeBytes value), fun hw => ?_, fun hw => ?_⟩
  · refine (hdec trivial).bind ?_
    have hle : ¬kMaxStringLength < UInt32.ofNat value.length := by
      rw [UInt32.lt_iff_toNat_lt, hcount, hlimit]
      exact Nat.not_lt.mpr hw
    rw [if_neg hle, hcount]
    exact decodes_readBytes _ value
  · refine (hdec trivial).bind_rejects ?_
    have hlt : kMaxStringLength < UInt32.ofNat value.length := by
      rw [UInt32.lt_iff_toNat_lt, hcount, hlimit]
      exact Nat.not_le.mp hw
    rw [if_pos hlt]
    exact ⟨_, fun rest => rfl⟩

theorem transcribes_list {α : Type} (tooMany : Str) {write : α → BinaryWriter}
    {read : BinaryReader α} {fits within : α → Prop} (xs : List α)
    (h : ∀ x ∈ xs, Transcribes (write x) read x (fits x) (within x)) :
    Transcribes (writeList write xs) (readList tooMany read) xs
      (xs.length ≤ writable.list ∧ ∀ x ∈ xs, fits x)
      (xs.length ≤ readable.list ∧ ∀ x ∈ xs, within x) := by
  rintro ⟨hlength, hfits⟩
  have hcount : (UInt32.ofNat xs.length).toNat = xs.length := by
    have hle : xs.length ≤ 4294967295 := hlength
    rw [UInt32.toNat_ofNat', Nat.mod_eq_of_lt (by omega)]
  have hlimit : kMaxVectorCount.toNat = 1000000 := rfl
  obtain ⟨bs, hemit, hdec, -⟩ := transcribes_uint32 (UInt32.ofNat xs.length) trivial
  obtain ⟨bs', hemit', hdec', hrej'⟩ := Transcribes.forM xs h hfits
  refine ⟨bs ++ bs', hemit.bind hemit', fun hw => ?_, fun hw => ?_⟩
  · refine (hdec trivial).bind ?_
    have hle : ¬kMaxVectorCount < UInt32.ofNat xs.length := by
      rw [UInt32.lt_iff_toNat_lt, hcount, hlimit]
      exact Nat.not_lt.mpr hw.1
    rw [if_neg hle, hcount]
    exact hdec' hw.2
  · refine (hdec trivial).bind_rejects ?_
    by_cases hle : xs.length ≤ readable.list
    · have hle' : ¬kMaxVectorCount < UInt32.ofNat xs.length := by
        rw [UInt32.lt_iff_toNat_lt, hcount, hlimit]
        exact Nat.not_lt.mpr hle
      rw [if_neg hle', hcount]
      exact hrej' fun hall => hw ⟨hle, hall⟩
    · have hlt : kMaxVectorCount < UInt32.ofNat xs.length := by
        rw [UInt32.lt_iff_toNat_lt, hcount, hlimit]
        exact Nat.not_le.mp hle
      rw [if_pos hlt]
      refine ⟨tooMany, fun rest => rfl⟩

theorem transcribes_enum {α : Type} [DecidableEq α] {values : List α} (invalid : Str) {value : α}
    (hcode : ¬codeIn values value < 0)
    (hget : values[(codeIn values value).toNatClampNeg]? = some value) :
    Transcribes (writeInt32 (codeIn values value)) (readEnum values invalid) value True True := by
  refine (transcribes_int32 (codeIn values value)).then_pure ?_
  simp only [if_neg hcode, hget]

theorem transcribes_accountStatus (invalid : Str) (status : AccountStatus) :
    Transcribes (writeInt32 (codeIn accountStatuses status)) (readEnum accountStatuses invalid)
      status True True := by
  apply transcribes_enum <;> cases status <;> decide

theorem transcribes_processState (invalid : Str) (state : ProcessState) :
    Transcribes (writeInt32 (codeIn processStates state)) (readEnum processStates invalid)
      state True True := by
  apply transcribes_enum <;> cases state <;> decide

theorem transcribes_memoryBlockType (invalid : Str) (type : MemoryBlockType) :
    Transcribes (writeInt32 (codeIn memoryBlockTypes type)) (readEnum memoryBlockTypes invalid)
      type True True := by
  apply transcribes_enum <;> cases type <;> decide

theorem transcribes_allocAlgorithm (invalid : Str) (algorithm : AllocAlgorithm) :
    Transcribes (writeInt32 (codeIn allocAlgorithms algorithm)) (readEnum allocAlgorithms invalid)
      algorithm True True := by
  apply transcribes_enum <;> cases algorithm <;> decide

/-! ## Records -/

variable (limits : Limits)

def VirtualFileWithin (file : VirtualFile) : Prop :=
  file.owner.length ≤ limits.string ∧ file.name.length ≤ limits.string ∧
    file.content.length ≤ limits.string

def UserWithin (account : UserAccount) : Prop :=
  account.username.length ≤ limits.string ∧ account.passwordHash.length ≤ limits.string ∧
    account.salt.length ≤ limits.string

def PcbWithin (pcb : PCB) : Prop :=
  pcb.name.length ≤ limits.string ∧ pcb.owner.length ≤ limits.string ∧
    pcb.children.length ≤ limits.list

def MemoryBlockWithin (block : MemoryBlock) : Prop :=
  block.owner.length ≤ limits.string ∧ block.tag.length ≤ limits.string

instance : DecidablePred (VirtualFileWithin limits) := fun _ =>
  inferInstanceAs (Decidable (_ ∧ _ ∧ _))

instance : DecidablePred (UserWithin limits) := fun _ => inferInstanceAs (Decidable (_ ∧ _ ∧ _))

instance : DecidablePred (PcbWithin limits) := fun _ => inferInstanceAs (Decidable (_ ∧ _ ∧ _))

instance : DecidablePred (MemoryBlockWithin limits) := fun _ =>
  inferInstanceAs (Decidable (_ ∧ _))

structure SnapshotWithin (snapshot : KernelSnapshot) : Prop where
  users : snapshot.users.length ≤ limits.list ∧ ∀ x ∈ snapshot.users, UserWithin limits x
  pcbs : snapshot.pcbs.length ≤ limits.list ∧ ∀ x ∈ snapshot.pcbs, PcbWithin limits x
  readyQueues : ∀ q, (snapshot.readyQueues q).length ≤ limits.list
  memoryBlocks : snapshot.memoryBlocks.length ≤ limits.list ∧
    ∀ x ∈ snapshot.memoryBlocks, MemoryBlockWithin limits x
  schedulerOwner : snapshot.schedulerOwner.length ≤ limits.string
  virtualFiles : snapshot.virtualFiles.length ≤ limits.list ∧
    ∀ x ∈ snapshot.virtualFiles, VirtualFileWithin limits x

variable {limits} in
theorem SnapshotWithin.mono {snapshot : KernelSnapshot} {larger : Limits}
    (h : SnapshotWithin limits snapshot) (hstring : limits.string ≤ larger.string)
    (hlist : limits.list ≤ larger.list) : SnapshotWithin larger snapshot where
  users := ⟨h.users.1.trans hlist, fun x hx => by
    obtain ⟨h1, h2, h3⟩ := h.users.2 x hx
    exact ⟨h1.trans hstring, h2.trans hstring, h3.trans hstring⟩⟩
  pcbs := ⟨h.pcbs.1.trans hlist, fun x hx => by
    obtain ⟨h1, h2, h3⟩ := h.pcbs.2 x hx
    exact ⟨h1.trans hstring, h2.trans hstring, h3.trans hlist⟩⟩
  readyQueues q := (h.readyQueues q).trans hlist
  memoryBlocks := ⟨h.memoryBlocks.1.trans hlist, fun x hx => by
    obtain ⟨h1, h2⟩ := h.memoryBlocks.2 x hx
    exact ⟨h1.trans hstring, h2.trans hstring⟩⟩
  schedulerOwner := h.schedulerOwner.trans hstring
  virtualFiles := ⟨h.virtualFiles.1.trans hlist, fun x hx => by
    obtain ⟨h1, h2, h3⟩ := h.virtualFiles.2 x hx
    exact ⟨h1.trans hstring, h2.trans hstring, h3.trans hstring⟩⟩

theorem transcribes_virtualFile (file : VirtualFile) :
    Transcribes (writeVirtualFile file) readVirtualFile file
      (VirtualFileWithin writable file) (VirtualFileWithin readable file) := by
  refine ((transcribes_uint32 file.fileId).bind <| (transcribes_string file.owner).bind <|
    (transcribes_string file.name).bind <| (transcribes_string file.content).bind <|
    (transcribes_uint64 file.createdAt).bind <|
    (transcribes_uint64 file.modifiedAt).map _).congr ?_ ?_ <;>
  simp only [VirtualFileWithin, true_and, and_true]

theorem transcribes_user (account : UserAccount) :
    Transcribes (writeUser account) readUser account
      (UserWithin writable account) (UserWithin readable account) := by
  refine ((transcribes_string account.username).bind <|
    (transcribes_string account.passwordHash).bind <| (transcribes_string account.salt).bind <|
    (transcribes_int32 account.failedAttempts).bind <|
    (transcribes_accountStatus _ account.status).map _).congr ?_ ?_ <;>
  simp only [UserWithin, and_true]

theorem transcribes_pcb (pcb : PCB) : Transcribes (writePcb pcb) readPcb pcb
    (PcbWithin writable pcb) (PcbWithin readable pcb) := by
  refine ((transcribes_uint32 pcb.pid).bind <| (transcribes_uint32 pcb.ppid).bind <|
    (transcribes_string pcb.name).bind <| (transcribes_string pcb.owner).bind <|
    (transcribes_processState _ pcb.state).bind <| (transcribes_int32 pcb.priority).bind <|
    (transcribes_int32 pcb.queueLevel).bind <| (transcribes_uint32 pcb.totalTime).bind <|
    (transcribes_uint32 pcb.executedTime).bind <| (transcribes_uint32 pcb.remainingTime).bind <|
    (transcribes_uint32 pcb.timeSliceLeft).bind <| (transcribes_uint32 pcb.memStart).bind <|
    (transcribes_uint32 pcb.memSize).bind <| (transcribes_bool pcb.swappedOut).bind <|
    (transcribes_list _ pcb.children fun x _ => transcribes_uint32 x).map _).congr
      ?_ ?_ <;>
  simp only [PcbWithin, true_and, implies_true, and_true]

theorem transcribes_memoryBlock (block : MemoryBlock) :
    Transcribes (writeMemoryBlock block) readMemoryBlock block
      (MemoryBlockWithin writable block) (MemoryBlockWithin readable block) := by
  refine ((transcribes_uint32 block.start).bind <| (transcribes_uint32 block.size).bind <|
    (transcribes_memoryBlockType _ block.type).bind <| (transcribes_uint32 block.pid).bind <|
    (transcribes_string block.owner).bind <|
    (transcribes_string block.tag).map _).congr ?_ ?_ <;>
  simp only [MemoryBlockWithin, true_and]

/-! ## The whole file -/

theorem transcribes_header :
    Transcribes writeHeader readHeader kVersionV2 True True := by
  have hmagic : Transcribes (writeBytes kMagic) (readRaw 8) kMagic True True := fun _ =>
    ⟨kMagic, emits_writeBytes kMagic, fun _ => decodes_readBytes _ kMagic,
      fun h => absurd trivial h⟩
  refine hmagic.bind_const ?_
  rw [if_neg (by simp)]
  refine (transcribes_uint32 kSnapshotVersion).bind_const ?_
  rw [if_neg (by decide)]
  refine (transcribes_uint32 kHeaderSize).bind_const ?_
  rw [if_neg (by simp)]
  exact (transcribes_uint32 kFlags).then_pure rfl

theorem transcribes_vfsSection (nextFileId : UInt32) (files : List VirtualFile) :
    Transcribes (writeUint32 nextFileId >>= fun _ => writeList writeVirtualFile files)
      (readVfsSection kVersionV2) (nextFileId, files)
      (files.length ≤ writable.list ∧ ∀ x ∈ files, VirtualFileWithin writable x)
      (files.length ≤ readable.list ∧ ∀ x ∈ files, VirtualFileWithin readable x) := by
  unfold readVfsSection
  rw [if_pos (by decide)]
  exact ((transcribes_uint32 nextFileId).bind
    ((transcribes_list _ files fun x _ => transcribes_virtualFile x).map _)).congr
      (by simp) (by simp)

theorem transcribes_snapshot (snapshot : KernelSnapshot) :
    Transcribes (serialize snapshot) deserialize snapshot
      (SnapshotWithin writable snapshot) (SnapshotWithin readable snapshot) := by
  have hqueues : ![snapshot.readyQueues 0, snapshot.readyQueues 1, snapshot.readyQueues 2] =
      snapshot.readyQueues := by
    funext q
    fin_cases q <;> rfl
  have hall : Transcribes (serialize snapshot) deserialize
      { snapshot with readyQueues :=
          ![snapshot.readyQueues 0, snapshot.readyQueues 1, snapshot.readyQueues 2] } _ _ :=
    transcribes_header.bind <|
    (transcribes_list _ snapshot.users fun x _ => transcribes_user x).bind <|
    (transcribes_uint32 snapshot.nextPid).bind <|
    (transcribes_list _ snapshot.pcbs fun x _ => transcribes_pcb x).bind <|
    (transcribes_list _ (snapshot.readyQueues 0) fun x _ => transcribes_uint32 x).bind <|
    (transcribes_list _ (snapshot.readyQueues 1) fun x _ => transcribes_uint32 x).bind <|
    (transcribes_list _ (snapshot.readyQueues 2) fun x _ => transcribes_uint32 x).bind <|
    (transcribes_uint32 snapshot.totalMemoryKB).bind <|
    (transcribes_allocAlgorithm _ snapshot.allocAlgorithm).bind <|
    (transcribes_list _ snapshot.memoryBlocks fun x _ => transcribes_memoryBlock x).bind <|
    (transcribes_bool snapshot.schedulerRunning).bind <|
    (transcribes_string snapshot.schedulerOwner).bind <|
    (transcribes_vfsSection snapshot.nextFileId snapshot.virtualFiles).map _
  simp only [hqueues] at hall
  refine Transcribes.congr hall ?_ ?_
  all_goals
    constructor
    · rintro ⟨husers, hpcbs, hready, hblocks, howner, hfiles⟩
      exact ⟨trivial, husers, trivial, hpcbs, ⟨hready 0, fun _ _ => trivial⟩,
        ⟨hready 1, fun _ _ => trivial⟩, ⟨hready 2, fun _ _ => trivial⟩, trivial, trivial, hblocks,
        trivial, howner, hfiles⟩
    · rintro ⟨-, husers, -, hpcbs, h0, h1, h2, -, -, hblocks, -, howner, hfiles⟩
      refine ⟨husers, hpcbs, fun q => ?_, hblocks, howner, hfiles⟩
      fin_cases q
      · exact h0.1
      · exact h1.1
      · exact h2.1

/-! ## Save and load -/

/-- A stream without an exception has taken every byte. -/
theorem writeStream_ok {io : SaveIo} {snapshot : KernelSnapshot}
    (h : (writeStream io snapshot).2 = .ok ()) :
    (serialize snapshot).run.run [] = (.ok (), (writeStream io snapshot).1) := by
  unfold writeStream at h ⊢
  generalize (serialize snapshot).run.run [] = out at h ⊢
  obtain ⟨result, bytes⟩ := out
  cases hlimit : io.writeLimit with
  | none =>
    simp only [hlimit] at h ⊢
    rw [h]
  | some limit =>
    simp only [hlimit] at h ⊢
    by_cases hlong : limit < bytes.length
    · rw [if_pos hlong] at h
      cases h
    · rw [if_neg hlong] at h ⊢
      exact Prod.ext h rfl

theorem getElem?_of_removeFile {io : SaveIo} {fs : FileSystem} {path file content : Str}
    (h : (removeFile io fs path)[file]? = some content) : fs[file]? = some content := by
  unfold removeFile at h
  split at h
  · rw [Std.ExtTreeMap.getElem?_erase] at h
    split at h
    · cases h
    · exact h
  · exact h

theorem renameFile_eq_ok {io : SaveIo} {fs fs' : FileSystem} {source target : Str}
    (h : renameFile io fs source target = .ok fs') :
    ∃ content, fs[source]? = some content ∧ fs'[target]? = some content := by
  unfold renameFile at h
  split at h
  · cases h
  · cases h
  next content hsource _ =>
  cases h
  exact ⟨content, hsource, Std.ExtTreeMap.getElem?_insert_self⟩

theorem save_ok {store : SnapshotStore} {io : SaveIo} {fs fs' : FileSystem}
    {snapshot : KernelSnapshot} (h : store.save io fs snapshot = (fs', .ok ())) :
    ∃ bytes, (serialize snapshot).run.run [] = (.ok (), bytes) ∧ fs'[store.path]? = some bytes := by
  unfold save at h
  simp only at h
  split at h
  · cases h
  split at h
  · cases h
  split at h
  · cases h
  next hresult =>
  split at h
  · cases h
  split at h
  · cases h
  next renamed hrename =>
  obtain rfl : renamed = fs' := congrArg Prod.fst h
  obtain ⟨content, hsource, htarget⟩ := renameFile_eq_ok hrename
  -- the temporary file still holds what the stream wrote
  have hwritten : some (writeStream io snapshot).1 = some content :=
    Std.ExtTreeMap.getElem?_insert_self.symm.trans (getElem?_of_removeFile hsource)
  exact ⟨_, writeStream_ok hresult, htarget.trans hwritten.symm⟩

theorem file_of_save {store : SnapshotStore} {io : SaveIo} {fs fs' : FileSystem}
    {snapshot : KernelSnapshot} {bytes : Str}
    (hrun : (serialize snapshot).run.run [] = (.ok (), bytes))
    (hsave : store.save io fs snapshot = (fs', .ok ())) : fs'[store.path]? = some bytes := by
  obtain ⟨written, hwritten, hfile⟩ := save_ok hsave
  rw [hrun] at hwritten
  cases hwritten
  exact hfile

/-- A readable snapshot is loaded as it was saved. -/
theorem load_of_save {store : SnapshotStore} {io : SaveIo} {fs fs' : FileSystem}
    {snapshot : KernelSnapshot} (h : SnapshotWithin readable snapshot)
    (hsave : store.save io fs snapshot = (fs', .ok ())) : store.load fs' = .ok snapshot := by
  obtain ⟨bytes, hemit, hdec, -⟩ :=
    transcribes_snapshot snapshot (h.mono (by decide) (by decide))
  have hfile : fs'[store.path]? = some bytes := file_of_save (hemit []) hsave
  have hread : deserialize.run bytes = .ok (snapshot, []) := by simpa using hdec h []
  simp only [load, hfile, hread]

/-- Whatever a successful `save` of a readable snapshot writes, the reader decodes to this
snapshot and stops behind its last byte, whatever follows. -/
theorem codec_round_trip {snapshot : KernelSnapshot} (h : SnapshotWithin readable snapshot) :
    ∃ bytes, (serialize snapshot).run.run [] = (.ok (), bytes) ∧
      (∀ store io fs fs', save store io fs snapshot = (fs', .ok ()) →
        fs'[store.path]? = some bytes) ∧
      ∀ rest, deserialize.run (bytes ++ rest) = .ok (snapshot, rest) := by
  have hfits : SnapshotWithin writable snapshot := h.mono (by decide) (by decide)
  obtain ⟨bytes, hemit, hdec, -⟩ := transcribes_snapshot snapshot hfits
  have hrun : (serialize snapshot).run.run [] = (.ok (), bytes) := hemit []
  exact ⟨bytes, hrun, fun store io fs fs' hsave => file_of_save hrun hsave, hdec h⟩

def oneOfEach : KernelSnapshot where
  users := [{ username := str "a", passwordHash := str "h", salt := str "s" }]
  nextPid := 2
  pcbs := [{ pid := 1, name := str "p", owner := str "a", state := .ready, memSize := 4,
             children := [1] }]
  readyQueues := ![[1], [], []]
  memoryBlocks := [{ start := 0, size := 4, type := .process, pid := 1, owner := str "a" },
    freeBlock 4 1020]
  virtualFiles := [{ fileId := 1, owner := str "a", name := str "f", content := [0, 255] }]

theorem oneOfEach_within : SnapshotWithin readable oneOfEach where
  users := by decide
  pcbs := by decide
  readyQueues := by decide
  memoryBlocks := by decide
  schedulerOwner := by decide
  virtualFiles := by decide

theorem codec_round_trip_oneOfEach :
    ∃ bytes, (serialize oneOfEach).run.run [] = (.ok (), bytes) ∧
      (∀ store io fs fs', save store io fs oneOfEach = (fs', .ok ()) →
        fs'[store.path]? = some bytes) ∧
      ∀ rest, deserialize.run (bytes ++ rest) = .ok (oneOfEach, rest) :=
  codec_round_trip oneOfEach_within

end SnapshotStore

end OSCoreSim
