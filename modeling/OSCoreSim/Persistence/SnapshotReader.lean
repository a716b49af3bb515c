import OSCoreSim.Lib.TakenBytes
import OSCoreSim.Persistence.SnapshotCodec
/-!
# What the snapshot reader accepts

The readers of the records against arbitrary bytes, not only against bytes that the writers
have written.  No reader looks ahead, so a file that is cut short is never read as a smaller
snapshot.  Every reader refuses the values that its writer does not produce, so the bytes that
`load` takes are the encoding of what it returns, up to the flags of the header.
-/

namespace OSCoreSim

open ByteStream

namespace SnapshotStore

/-! ## Scalars -/

theorem takes_uint32 : Takes readUint32 fun value used => used = leBytes 4 value.toNat := by
  refine (takes_digits _ 4).map ?_
  rintro bytes used ⟨hlt, hused⟩
  rw [UInt32.toNat_ofNat', Nat.mod_eq_of_lt (by exact hlt), hused]

theorem canonical_uint32 : Canonical writeUint32 readUint32 :=
  takes_uint32.imp fun value used hused => by
    rw [hused]
    exact emits_writeBytes _

theorem canonical_uint64 : Canonical writeUint64 readUint64 := by
  refine (takes_digits _ 8).map ?_
  rintro bytes used ⟨hlt, hused⟩
  unfold writeUint64
  rw [UInt64.toNat_ofNat', Nat.mod_eq_of_lt (by exact hlt), hused]
  exact emits_writeBytes _

theorem canonical_int32 : Canonical writeInt32 readInt32 :=
  Takes.map canonical_uint32 fun _ _ h => h

theorem canonical_bool : Canonical writeBool readBool := by
  refine Takes.bind canonical_uint32 fun encoded used h => .throw_if fun hle => .pure ?_
  have hle' : encoded.toNat ≤ 1 := Nat.not_lt.mp fun hlt => hle (UInt32.lt_iff_toNat_lt.mpr hlt)
  -- 0 and 1 are the only codes left, and each is the code of the value it is read as
  have hcode : (if (encoded == 1) = true then (1 : UInt32) else 0) = encoded := by
    split
    next hone => exact (beq_iff_eq.mp hone).symm
    next hone =>
      have hne : encoded.toNat ≠ 1 := fun h1 => hone (beq_iff_eq.mpr (UInt32.toNat_inj.mp h1))
      exact UInt32.toNat_inj.mp (by rw [UInt32.toNat_zero]; omega)
  rw [List.append_nil]
  unfold writeBool
  rwa [hcode]

theorem canonical_string : Canonical writeString readString := by
  refine Takes.bind canonical_uint32 fun length used h => .throw_if fun hle =>
    (takes_readBytes _ length.toNat).imp ?_
  rintro value _ ⟨rfl, hlength⟩
  have hfits : ¬4294967295 < value.length := by
    have hlt := length.toNat_lt
    omega
  have hcount : UInt32.ofNat value.length = length := by
    rw [hlength, UInt32.ofNat_toNat]
  unfold writeString
  rw [if_neg hfits, hcount]
  exact h.bind (emits_writeBytes value)

theorem canonical_list {α : Type} {write : α → BinaryWriter} {read : BinaryReader α}
    (tooMany : Str) (h : Canonical write read) :
    Canonical (writeList write) (readList tooMany read) := by
  refine Takes.bind canonical_uint32 fun count used hcount => .throw_if fun hle =>
    (h.readMany count.toNat).imp ?_
  rintro xs used' ⟨hlength, hxs⟩
  unfold writeList
  rw [hlength, UInt32.ofNat_toNat]
  exact hcount.bind hxs

theorem canonical_enum {α : Type} [DecidableEq α] {values : List α} (invalid : Str)
    (h : values.Nodup) :
    Canonical (fun value => writeInt32 (codeIn values value)) (readEnum values invalid) := by
  refine Takes.bind canonical_int32 fun code used hcode => .throw_if fun hneg => ?_
  split
  next value hvalue =>
    refine .pure ?_
    have hindex : values.idxOf value = code.toNatClampNeg := by
      obtain ⟨hlt, hget⟩ := List.getElem?_eq_some_iff.mp hvalue
      rw [← hget]
      exact h.idxOf_getElem _ hlt
    have hsame : codeIn values value = code := by
      unfold codeIn
      rw [hindex]
      exact Int32.ofNat_toNatClampNeg code (Int32.not_lt.mp hneg)
    rw [List.append_nil]
    beta_reduce
    rwa [hsame]
  next => exact .throw _

/-! ## Records -/

theorem canonical_virtualFile : Canonical writeVirtualFile readVirtualFile :=
  Takes.bind canonical_uint32 fun _ _ hid => Takes.bind canonical_string fun _ _ howner =>
  Takes.bind canonical_string fun _ _ hname => Takes.bind canonical_string fun _ _ hcontent =>
  Takes.bind canonical_uint64 fun _ _ hcreated => Takes.map canonical_uint64 fun _ _ hmodified =>
  hid.bind <| howner.bind <| hname.bind <| hcontent.bind <| hcreated.bind hmodified

theorem canonical_user : Canonical writeUser readUser :=
  Takes.bind canonical_string fun _ _ husername => Takes.bind canonical_string fun _ _ hhash =>
  Takes.bind canonical_string fun _ _ hsalt => Takes.bind canonical_int32 fun _ _ hfailed =>
  Takes.map (canonical_enum _ (by decide)) fun _ _ hstatus =>
  husername.bind <| hhash.bind <| hsalt.bind <| hfailed.bind hstatus

theorem canonical_pcb : Canonical writePcb readPcb :=
  Takes.bind canonical_uint32 fun _ _ hpid => Takes.bind canonical_uint32 fun _ _ hppid =>
  Takes.bind canonical_string fun _ _ hname => Takes.bind canonical_string fun _ _ howner =>
  Takes.bind (canonical_enum _ (by decide)) fun _ _ hstate =>
  Takes.bind canonical_int32 fun _ _ hpriority => Takes.bind canonical_int32 fun _ _ hlevel =>
  Takes.bind canonical_uint32 fun _ _ htotal => Takes.bind canonical_uint32 fun _ _ hexecuted =>
  Takes.bind canonical_uint32 fun _ _ hremaining => Takes.bind canonical_uint32 fun _ _ hslice =>
  Takes.bind canonical_uint32 fun _ _ hstart => Takes.bind canonical_uint32 fun _ _ hsize =>
  Takes.bind canonical_bool fun _ _ hswapped =>
  Takes.map (canonical_list _ canonical_uint32) fun _ _ hchildren =>
  hpid.bind <| hppid.bind <| hname.bind <| howner.bind <| hstate.bind <| hpriority.bind <|
  hlevel.bind <| htotal.bind <| hexecuted.bind <| hremaining.bind <| hslice.bind <|
  hstart.bind <| hsize.bind <| hswapped.bind hchildren

theorem canonical_memoryBlock : Canonical writeMemoryBlock readMemoryBlock :=
  Takes.bind canonical_uint32 fun _ _ hstart => Takes.bind canonical_uint32 fun _ _ hsize =>
  Takes.bind (canonical_enum _ (by decide)) fun _ _ htype =>
  Takes.bind canonical_uint32 fun _ _ hpid => Takes.bind canonical_string fun _ _ howner =>
  Takes.map canonical_string fun _ _ htag =>
  hstart.bind <| hsize.bind <| htype.bind <| hpid.bind <| howner.bind htag

/-! ## The sections behind the header -/

/-- What `load` reads between the header and the VFS section. -/
def readSections : BinaryReader KernelSnapshot := do
  let users ← readList (str "too many users") readUser
  let nextPid ← readUint32
  let pcbs ← readList (str "too many PCBs") readPcb
  let q0 ← readList (str "too many ready queue entries") readUint32
  let q1 ← readList (str "too many ready queue entries") readUint32
  let q2 ← readList (str "too many ready queue entries") readUint32
  let totalMemoryKB ← readUint32
  let allocAlgorithm ← readEnum allocAlgorithms (str "invalid allocation algorithm")
  let memoryBlocks ← readList (str "too many memory blocks") readMemoryBlock
  let schedulerRunning ← readBool
  let schedulerOwner ← readString
  pure { users := users, nextPid := nextPid, pcbs := pcbs, readyQueues := ![q0, q1, q2]
         memoryBlocks := memoryBlocks, totalMemoryKB := totalMemoryKB
         allocAlgorithm := allocAlgorithm, schedulerRunning := schedulerRunning
         schedulerOwner := schedulerOwner }

def writeSections (snapshot : KernelSnapshot) : BinaryWriter := do
  writeList writeUser snapshot.users
  writeUint32 snapshot.nextPid
  writeList writePcb snapshot.pcbs
  writeList writeUint32 (snapshot.readyQueues 0)
  writeList writeUint32 (snapshot.readyQueues 1)
  writeList writeUint32 (snapshot.readyQueues 2)
  writeUint32 snapshot.totalMemoryKB
  writeInt32 (codeIn allocAlgorithms snapshot.allocAlgorithm)
  writeList writeMemoryBlock snapshot.memoryBlocks
  writeBool snapshot.schedulerRunning
  writeString snapshot.schedulerOwner

def writeVfsSection (snapshot : KernelSnapshot) : BinaryWriter := do
  writeUint32 snapshot.nextFileId
  writeList writeVirtualFile snapshot.virtualFiles

def withVfs (loaded : KernelSnapshot) (vfs : UInt32 × List VirtualFile) : KernelSnapshot :=
  { loaded with nextFileId := vfs.1, virtualFiles := vfs.2 }

theorem deserialize_eq : deserialize =
    (readHeader >>= fun version => readSections >>= fun loaded =>
      readVfsSection version >>= fun vfs => pure (withVfs loaded vfs)) := by
  unfold deserialize readSections
  simp only [bind_assoc, pure_bind]
  rfl

theorem serialize_sections (snapshot : KernelSnapshot) : serialize snapshot =
    (writeHeader >>= fun _ => writeSections snapshot >>= fun _ => writeVfsSection snapshot) := by
  unfold serialize writeSections writeVfsSection
  simp only [bind_assoc]

theorem canonical_sections : Canonical writeSections readSections :=
  Takes.bind (canonical_list _ canonical_user) fun _ _ husers =>
  Takes.bind canonical_uint32 fun _ _ hnextPid =>
  Takes.bind (canonical_list _ canonical_pcb) fun _ _ hpcbs =>
  Takes.bind (canonical_list _ canonical_uint32) fun _ _ h0 =>
  Takes.bind (canonical_list _ canonical_uint32) fun _ _ h1 =>
  Takes.bind (canonical_list _ canonical_uint32) fun _ _ h2 =>
  Takes.bind canonical_uint32 fun _ _ htotal =>
  Takes.bind (canonical_enum _ (by decide)) fun _ _ halgorithm =>
  Takes.bind (canonical_list _ canonical_memoryBlock) fun _ _ hblocks =>
  Takes.bind canonical_bool fun _ _ hrunning => Takes.map canonical_string fun _ _ howner =>
  husers.bind <| hnextPid.bind <| hpcbs.bind <| h0.bind <| h1.bind <| h2.bind <| htotal.bind <|
  halgorithm.bind <| hblocks.bind <| hrunning.bind howner

/-! ## No reader looks ahead -/

theorem local_uint32 : Local readUint32 := (local_readBytes _ 4).bind fun _ => .pure _

theorem local_uint64 : Local readUint64 := (local_readBytes _ 8).bind fun _ => .pure _

theorem local_int32 : Local readInt32 := local_uint32.bind fun _ => .pure _

theorem local_bool : Local readBool := local_uint32.bind fun _ => .ite (.throw _) (.pure _)

theorem local_string : Local readString :=
  local_uint32.bind fun _ => .ite (.throw _) (local_readBytes _ _)

theorem local_list {α : Type} {read : BinaryReader α} (tooMany : Str) (h : Local read) :
    Local (readList tooMany read) :=
  local_uint32.bind fun _ => .ite (.throw _) (h.readMany _)

theorem local_enum {α : Type} (values : List α) (invalid : Str) :
    Local (readEnum values invalid) :=
  local_int32.bind fun code => .ite (.throw _) <| by
    split
    · exact .pure _
    · exact .throw _

theorem local_virtualFile : Local readVirtualFile :=
  local_uint32.bind fun _ => local_string.bind fun _ => local_string.bind fun _ =>
  local_string.bind fun _ => local_uint64.bind fun _ => local_uint64.bind fun _ => .pure _

theorem local_user : Local readUser :=
  local_string.bind fun _ => local_string.bind fun _ => local_string.bind fun _ =>
  local_int32.bind fun _ => (local_enum _ _).bind fun _ => .pure _

theorem local_pcb : Local readPcb :=
  local_uint32.bind fun _ => local_uint32.bind fun _ => local_string.bind fun _ =>
  local_string.bind fun _ => (local_enum _ _).bind fun _ => local_int32.bind fun _ =>
  local_int32.bind fun _ => local_uint32.bind fun _ => local_uint32.bind fun _ =>
  local_uint32.bind fun _ => local_uint32.bind fun _ => local_uint32.bind fun _ =>
  local_uint32.bind fun _ => local_bool.bind fun _ => (local_list _ local_uint32).bind fun _ =>
  .pure _

theorem local_memoryBlock : Local readMemoryBlock :=
  local_uint32.bind fun _ => local_uint32.bind fun _ => (local_enum _ _).bind fun _ =>
  local_uint32.bind fun _ => local_string.bind fun _ => local_string.bind fun _ => .pure _

theorem local_header : Local readHeader :=
  (local_readBytes _ 8).bind fun _ => .ite (.throw _) <| local_uint32.bind fun _ =>
  .ite (.throw _) <| local_uint32.bind fun _ => .ite (.throw _) <|
  local_uint32.bind fun _ => .pure _

theorem local_sections : Local readSections :=
  (local_list _ local_user).bind fun _ => local_uint32.bind fun _ =>
  (local_list _ local_pcb).bind fun _ => (local_list _ local_uint32).bind fun _ =>
  (local_list _ local_uint32).bind fun _ => (local_list _ local_uint32).bind fun _ =>
  local_uint32.bind fun _ => (local_enum _ _).bind fun _ =>
  (local_list _ local_memoryBlock).bind fun _ => local_bool.bind fun _ =>
  local_string.bind fun _ => .pure _

theorem local_vfsSection (version : UInt32) : Local (readVfsSection version) :=
  .ite (local_uint32.bind fun _ => (local_list _ local_virtualFile).bind fun _ => .pure _)
    (.pure _)

theorem local_deserialize : Local deserialize := by
  rw [deserialize_eq]
  exact local_header.bind fun version => local_sections.bind fun _ =>
    (local_vfsSection version).bind fun _ => .pure _

/-! ## Truncated files -/

/-- `SnapshotStore::load` with the object and the message that it writes to. -/
def loadInto (store : SnapshotStore) (fs : FileSystem) (snapshot : KernelSnapshot)
    (message : Str) : Bool × KernelSnapshot × Str :=
  match store.load fs with
  | .ok loaded => (true, loaded, message)
  | .error what => (false, snapshot, what)

theorem load_error {store : SnapshotStore} {fs : FileSystem} {bytes what : Str}
    (hfile : fs[store.path]? = some bytes) (h : deserialize.run bytes = .error what) :
    store.load fs = .error (str "Load failed: " ++ what) := by
  simp only [load, hfile, h]

theorem load_ok {store : SnapshotStore} {fs : FileSystem} {bytes rest : Str}
    {snapshot : KernelSnapshot} (hfile : fs[store.path]? = some bytes)
    (h : deserialize.run bytes = .ok (snapshot, rest)) : store.load fs = .ok snapshot := by
  simp only [load, hfile, h]

/-- However the file of a readable snapshot is cut short, `load` fails and leaves the object of
its caller as it was. -/
theorem truncated_rejected {snapshot : KernelSnapshot} (h : SnapshotWithin readable snapshot) :
    ∃ bytes, (serialize snapshot).run.run [] = (.ok (), bytes) ∧
      (∀ store io fs fs', save store io fs snapshot = (fs', .ok ()) →
        fs'[store.path]? = some bytes) ∧
      ∀ cut, cut <+: bytes → cut ≠ bytes → ∀ (store : SnapshotStore) fs,
        fs[store.path]? = some cut → ∀ caller message, ∃ what,
          store.loadInto fs caller message = (false, caller, str "Load failed: " ++ what) := by
  obtain ⟨bytes, hemit, hdec, -⟩ :=
    transcribes_snapshot snapshot (h.mono (by decide) (by decide))
  have hrun : (serialize snapshot).run.run [] = (.ok (), bytes) := hemit []
  refine ⟨bytes, hrun, fun store io fs fs' hsave => file_of_save hrun hsave, ?_⟩
  intro cut hcut hne store fs hfile caller message
  obtain ⟨what, hwhat⟩ := local_deserialize.truncated (hdec h) hcut hne
  refine ⟨what, ?_⟩
  simp only [loadInto, load_error hfile hwhat]

theorem truncated_rejected_oneOfEach :
    ∃ bytes, (serialize oneOfEach).run.run [] = (.ok (), bytes) ∧
      (∀ store io fs fs', save store io fs oneOfEach = (fs', .ok ()) →
        fs'[store.path]? = some bytes) ∧
      ∀ cut, cut <+: bytes → cut ≠ bytes → ∀ (store : SnapshotStore) fs,
        fs[store.path]? = some cut → ∀ caller message, ∃ what,
          store.loadInto fs caller message = (false, caller, str "Load failed: " ++ what) :=
  truncated_rejected oneOfEach_within

end SnapshotStore

end OSCoreSim
