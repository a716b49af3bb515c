import OSCoreSim.Persistence.SnapshotCounts
import OSCoreSim.Persistence.SnapshotReader
/-!
# The two versions of the snapshot file

An accepted file is a header, the sections of version 1 and, in version 2, the VFS section.
The sections are the encoding of what is read from them, so that a version 2 file is determined
by its snapshot and the flags of its header, and a version 1 file is a version 2 file whose VFS
section is missing.
-/

namespace OSCoreSim

open ByteStream

namespace SnapshotStore

/-! ## The header -/

def headerBytes (version : UInt32) (flags : Str) : Str :=
  kMagic ++ (leBytes 4 version.toNat ++ (leBytes 4 kHeaderSize.toNat ++ flags))

def fileVersion (bytes : Str) : UInt32 := UInt32.ofNat (leValue ((bytes.drop 8).take 4))

def fileFlags (bytes : Str) : Str := (bytes.drop 16).take 4

def setVersion (version : UInt32) (bytes : Str) : Str :=
  bytes.take 8 ++ (leBytes 4 version.toNat ++ bytes.drop 12)

def clearFlags (bytes : Str) : Str := bytes.take 16 ++ (leBytes 4 kFlags.toNat ++ bytes.drop 20)

section Header

variable {version : UInt32} {flags : Str}

theorem length_kMagic : kMagic.length = 8 := rfl

theorem take_kMagic {n : ℕ} (h : 8 ≤ n) : kMagic.take n = kMagic := List.take_of_length_le h

theorem drop_kMagic {n : ℕ} (h : 8 ≤ n) : kMagic.drop n = [] := List.drop_eq_nil_of_le h

@[simp] theorem fileVersion_header (rest : Str) :
    fileVersion (headerBytes version flags ++ rest) = version := by
  have hfield : ((headerBytes version flags ++ rest).drop 8).take 4 =
      leBytes 4 version.toNat := by
    simp [headerBytes, List.drop_append, List.take_append, length_kMagic]
  rw [fileVersion, hfield, leValue_leBytes, Nat.mod_eq_of_lt (by exact version.toNat_lt),
    UInt32.ofNat_toNat]

theorem fileVersion_setVersion (version : UInt32) {bytes : Str} (h : 8 ≤ bytes.length) :
    fileVersion (setVersion version bytes) = version := by
  have hfield : ((setVersion version bytes).drop 8).take 4 = leBytes 4 version.toNat := by
    simp [setVersion, h]
  rw [fileVersion, hfield, leValue_leBytes, Nat.mod_eq_of_lt (by exact version.toNat_lt),
    UInt32.ofNat_toNat]

@[simp] theorem setVersion_header (version' : UInt32) (rest : Str) :
    setVersion version' (headerBytes version flags ++ rest) =
      headerBytes version' flags ++ rest := by
  simp [setVersion, headerBytes, List.drop_append, List.take_append, length_kMagic,
    take_kMagic, drop_kMagic]

theorem fileFlags_header (hflags : flags.length = 4) (rest : Str) :
    fileFlags (headerBytes version flags ++ rest) = flags := by
  simp [fileFlags, headerBytes, List.drop_append, length_kMagic, hflags, drop_kMagic,
    List.drop_eq_nil_of_le]

theorem clearFlags_header (hflags : flags.length = 4) (rest : Str) :
    clearFlags (headerBytes version flags ++ rest) =
      headerBytes version (leBytes 4 kFlags.toNat) ++ rest := by
  simp [clearFlags, headerBytes, List.drop_append, List.take_append, length_kMagic, hflags,
    take_kMagic, drop_kMagic, List.take_of_length_le, List.drop_eq_nil_of_le]

end Header

theorem takes_header : Takes readHeader fun version used =>
    (version = kVersionV1 ∨ version = kVersionV2) ∧
      ∃ flags, flags.length = 4 ∧ used = headerBytes version flags := by
  refine Takes.bind (takes_readBytes _ 8) ?_
  rintro magic _ ⟨rfl, -⟩
  refine .throw_if fun hmagic => Takes.bind takes_uint32 ?_
  rintro version _ rfl
  refine .throw_if fun hversion => Takes.bind takes_uint32 ?_
  rintro size _ rfl
  refine .throw_if fun hsize => Takes.map takes_uint32 ?_
  rintro flags _ rfl
  rw [not_not.mp hmagic, not_not.mp hsize]
  exact ⟨by tauto, _, length_leBytes _ _, rfl⟩

theorem decodes_word (value : UInt32) :
    Decodes readUint32 (leBytes 4 value.toNat) value := by
  obtain ⟨bytes, hemit, hdec, -⟩ := transcribes_uint32 value trivial
  obtain rfl := hemit.inj (emits_writeBytes _)
  exact hdec trivial

theorem decodes_header {version : UInt32} {flags : Str}
    (hversion : version = kVersionV1 ∨ version = kVersionV2) (hflags : flags.length = 4) :
    Decodes readHeader (headerBytes version flags) version := by
  refine (decodes_readBytes _ kMagic).bind ?_
  rw [if_neg (not_not.mpr rfl)]
  refine (decodes_word version).bind ?_
  rw [if_neg (by tauto)]
  refine (decodes_word kHeaderSize).bind ?_
  rw [if_neg (not_not.mpr rfl)]
  exact (decodes_uint32 flags hflags).map fun _ => version

/-! ## The parts of a file -/

/-- The bytes of the sections: they are read as `loaded`, and they are its encoding. -/
def IsSections (bytes : Str) (loaded : KernelSnapshot) : Prop :=
  Decodes readSections bytes loaded ∧ Emits (writeSections loaded) () bytes

def IsVfsSection (bytes : Str) (vfs : UInt32 × List VirtualFile) : Prop :=
  Decodes (readVfsSection kVersionV2) bytes vfs ∧
    Emits (writeUint32 vfs.1 >>= fun _ => writeList writeVirtualFile vfs.2) () bytes

/-- The files that the reader accepts as a whole, with the snapshot that it returns. -/
inductive FileOf : KernelSnapshot → Str → Prop
  | v1 {flags sections : Str} {loaded : KernelSnapshot} (hflags : flags.length = 4)
      (hsections : IsSections sections loaded) :
      FileOf (withVfs loaded (1, [])) (headerBytes kVersionV1 flags ++ sections)
  | v2 {flags sections files : Str} {loaded : KernelSnapshot} {vfs : UInt32 × List VirtualFile}
      (hflags : flags.length = 4) (hsections : IsSections sections loaded)
      (hfiles : IsVfsSection files vfs) :
      FileOf (withVfs loaded vfs) (headerBytes kVersionV2 flags ++ (sections ++ files))

theorem takes_sections : Takes readSections fun loaded used => IsSections used loaded :=
  Takes.and local_sections canonical_sections

theorem takes_vfsSection :
    Takes (readVfsSection kVersionV2) fun vfs used => IsVfsSection used vfs := by
  refine Takes.and (local_vfsSection _) ?_
  unfold readVfsSection
  rw [if_pos (by decide)]
  exact Takes.bind canonical_uint32 fun _ _ hid =>
    Takes.map (canonical_list _ canonical_virtualFile) fun _ _ hfiles => hid.bind hfiles

theorem takes_file : Takes deserialize FileOf := by
  rw [deserialize_eq]
  refine Takes.bind takes_header ?_
  rintro version _ ⟨rfl | rfl, flags, hflags, rfl⟩
  · refine Takes.bind takes_sections fun loaded sections hsections => .pure ?_
    rw [List.append_nil]
    exact .v1 hflags hsections
  · exact Takes.bind takes_sections fun loaded sections hsections =>
      Takes.map takes_vfsSection fun vfs files hfiles => .v2 hflags hsections hfiles

theorem FileOf.decodes {snapshot : KernelSnapshot} {bytes : Str} (h : FileOf snapshot bytes) :
    Decodes deserialize bytes snapshot := by
  rw [deserialize_eq]
  cases h with
  | v1 hflags hsections =>
    exact (decodes_header (.inl rfl) hflags).bind (hsections.1.map fun loaded =>
      withVfs loaded (1, []))
  | v2 hflags hsections hfiles =>
    exact (decodes_header (.inr rfl) hflags).bind (hsections.1.bind (hfiles.1.map _))

/-- `load` returns the snapshot of these bytes, having taken `used` off their front. -/
def Consumes (bytes : Str) (snapshot : KernelSnapshot) (used : Str) : Prop :=
  ∃ rest, bytes = used ++ rest ∧ deserialize.run bytes = .ok (snapshot, rest)

theorem Consumes.fileOf {bytes used : Str} {snapshot : KernelSnapshot}
    (h : Consumes bytes snapshot used) : FileOf snapshot used := by
  obtain ⟨rest, hbytes, hrun⟩ := h
  obtain ⟨used', hbytes', hfile⟩ := takes_file _ _ _ hrun
  rw [hbytes] at hbytes'
  rwa [List.append_cancel_right hbytes']

theorem FileOf.fileVersion_append {used : Str} {snapshot : KernelSnapshot}
    (h : FileOf snapshot used) (rest : Str) : fileVersion (used ++ rest) = fileVersion used := by
  cases h <;> simp only [List.append_assoc, fileVersion_header]

theorem FileOf.fileFlags_append {used : Str} {snapshot : KernelSnapshot}
    (h : FileOf snapshot used) (rest : Str) : fileFlags (used ++ rest) = fileFlags used := by
  cases h with
  | v1 hflags hsections => simp only [List.append_assoc, fileFlags_header hflags]
  | v2 hflags hsections hfiles => simp only [List.append_assoc, fileFlags_header hflags]

theorem consumes_of_load {store : SnapshotStore} {fs : FileSystem} {bytes : Str}
    {snapshot : KernelSnapshot} (hfile : fs[store.path]? = some bytes)
    (h : store.load fs = .ok snapshot) : ∃ used, Consumes bytes snapshot used := by
  cases hrun : deserialize.run bytes with
  | error what =>
    rw [load_error hfile hrun] at h
    cases h
  | ok out =>
    obtain ⟨loaded, rest⟩ := out
    rw [load_ok hfile hrun] at h
    cases h
    obtain ⟨used, hbytes, -⟩ := takes_file _ _ _ hrun
    exact ⟨used, rest, hbytes, hrun⟩

/-! ## One encoding for each snapshot -/

theorem emits_header :
    Emits writeHeader () (headerBytes kVersionV2 (leBytes 4 kFlags.toNat)) :=
  (emits_writeBytes kMagic).bind <| (emits_writeBytes _).bind <|
    (emits_writeBytes _).bind (emits_writeBytes _)

theorem FileOf.emits {used : Str} {snapshot : KernelSnapshot} (h : FileOf snapshot used)
    (hversion : fileVersion used = kVersionV2) :
    Emits (serialize snapshot) () (clearFlags used) := by
  cases h with
  | v1 hflags hsections =>
    rw [fileVersion_header] at hversion
    exact absurd hversion (by decide)
  | v2 hflags hsections hfiles =>
    rw [clearFlags_header hflags, serialize_sections]
    exact emits_header.bind (hsections.2.bind hfiles.2)

theorem FileOf.length {used : Str} {snapshot : KernelSnapshot} (h : FileOf snapshot used) :
    16 ≤ used.length := by
  cases h <;> simp only [headerBytes, List.length_append, length_kMagic, length_leBytes] <;> omega

theorem eq_take_flags_drop (bytes : Str) :
    bytes.take 16 ++ (fileFlags bytes ++ bytes.drop 20) = bytes := by
  have hdrop : bytes.drop 20 = (bytes.drop 16).drop 4 := by rw [List.drop_drop]
  rw [fileFlags, hdrop, List.take_append_drop, List.take_append_drop]

theorem FileOf.eq_of_clearFlags {used used' : Str} {snapshot snapshot' : KernelSnapshot}
    (h : FileOf snapshot used) (h' : FileOf snapshot' used')
    (hclear : clearFlags used = clearFlags used') (hflags : fileFlags used = fileFlags used') :
    used = used' := by
  have hlength : (used.take 16).length = (used'.take 16).length := by
    rw [List.length_take_of_le h.length, List.length_take_of_le h'.length]
  obtain ⟨hfront, hback⟩ := List.append_inj hclear hlength
  rw [← eq_take_flags_drop used, ← eq_take_flags_drop used', hfront, hflags,
    List.append_cancel_left hback]

/-- The bytes that `load` takes off a version 2 file are what `save` writes for the snapshot that
it returns, up to the flags, so that equal snapshots have equal files. -/
theorem load_canonical :
    (∀ (store : SnapshotStore) fs bytes snapshot, fs[store.path]? = some bytes →
      fileVersion bytes = kVersionV2 → store.load fs = .ok snapshot →
        ∃ used, Consumes bytes snapshot used ∧
          (serialize snapshot).run.run [] = (.ok (), clearFlags used)) ∧
    ∀ bytes bytes' snapshot used used', Consumes bytes snapshot used →
      Consumes bytes' snapshot used' → fileVersion bytes = kVersionV2 →
      fileVersion bytes' = kVersionV2 → fileFlags used = fileFlags used' → used = used' := by
  have hemits : ∀ bytes snapshot used, Consumes bytes snapshot used →
      fileVersion bytes = kVersionV2 → Emits (serialize snapshot) () (clearFlags used) := by
    intro bytes snapshot used hused hversion
    refine hused.fileOf.emits ?_
    obtain ⟨rest, rfl, -⟩ := id hused
    rwa [hused.fileOf.fileVersion_append] at hversion
  constructor
  · intro store fs bytes snapshot hfile hversion hload
    obtain ⟨used, hused⟩ := consumes_of_load hfile hload
    exact ⟨used, hused, hemits bytes snapshot used hused hversion []⟩
  · intro bytes bytes' snapshot used used' hused hused' hversion hversion' hflags
    exact hused.fileOf.eq_of_clearFlags hused'.fileOf
      ((hemits _ _ _ hused hversion).inj (hemits _ _ _ hused' hversion')) hflags

theorem fileOf_serialize {snapshot : KernelSnapshot} (h : SnapshotWithin readable snapshot) :
    ∃ bytes, (serialize snapshot).run.run [] = (.ok (), bytes) ∧ FileOf snapshot bytes ∧
      fileVersion bytes = kVersionV2 := by
  obtain ⟨bytes, hemit, hdec, -⟩ :=
    transcribes_snapshot snapshot (h.mono (by decide) (by decide))
  have hreads : deserialize.run bytes = .ok (snapshot, []) := by simpa using hdec h []
  have hused : Consumes bytes snapshot bytes := ⟨[], (List.append_nil _).symm, hreads⟩
  obtain ⟨-, rest, rfl⟩ := emits_header.bind_writes
    ((writes_list snapshot.users fun account _ => writes_user account).bind
      (writes_rest snapshot)) (hemit [])
  exact ⟨_, hemit [], hused.fileOf, fileVersion_header rest⟩

theorem load_canonical_oneOfEach :
    ∃ bytes used, Consumes bytes oneOfEach used ∧
      (serialize oneOfEach).run.run [] = (.ok (), clearFlags used) ∧ used = bytes := by
  obtain ⟨bytes, hrun, hfile, hversion⟩ := fileOf_serialize oneOfEach_within
  have hreads : deserialize.run bytes = .ok (oneOfEach, []) := by simpa using hfile.decodes []
  let store : SnapshotStore := {}
  let fs : FileSystem := (∅ : FileSystem).insert store.path bytes
  have hstored : fs[store.path]? = some bytes := Std.ExtTreeMap.getElem?_insert_self
  obtain ⟨used, hused, hsame⟩ :=
    load_canonical.1 store fs bytes oneOfEach hstored hversion (load_ok hstored hreads)
  have hwhole : Consumes bytes oneOfEach bytes := ⟨[], (List.append_nil _).symm, hreads⟩
  have hflags : fileFlags used = fileFlags bytes := by
    obtain ⟨rest, rfl, -⟩ := id hused
    exact (hused.fileOf.fileFlags_append rest).symm
  exact ⟨bytes, used, hused, hsame,
    load_canonical.2 bytes bytes oneOfEach used bytes hused hwhole hversion hversion hflags⟩

/-! ## From one version to the other -/

def emptyVfs (nextFileId : UInt32) : Str := leBytes 4 nextFileId.toNat ++ leBytes 4 0

/-- The reader takes these bytes as a whole, and `load` returns the snapshot. -/
structure LoadsWhole (bytes : Str) (snapshot : KernelSnapshot) : Prop where
  reads : deserialize.run bytes = .ok (snapshot, [])
  load : ∀ (store : SnapshotStore) fs, fs[store.path]? = some bytes →
    store.load fs = .ok snapshot

theorem loadsWhole_iff {bytes : Str} {snapshot : KernelSnapshot} :
    LoadsWhole bytes snapshot ↔ FileOf snapshot bytes := by
  constructor
  · intro h
    have hused : Consumes bytes snapshot bytes := ⟨[], (List.append_nil _).symm, h.reads⟩
    exact hused.fileOf
  · intro h
    have hreads : deserialize.run bytes = .ok (snapshot, []) := by
      simpa using h.decodes []
    exact ⟨hreads, fun store fs hfile => load_ok hfile hreads⟩

theorem LoadsWhole.inj {bytes : Str} {snapshot snapshot' : KernelSnapshot}
    (h : LoadsWhole bytes snapshot) (h' : LoadsWhole bytes snapshot') : snapshot = snapshot' :=
  congrArg Prod.fst (Except.ok.inj (h.reads.symm.trans h'.reads))

theorem emits_emptyVfs (nextFileId : UInt32) :
    Emits (writeUint32 nextFileId >>= fun _ => writeList writeVirtualFile []) ()
      (emptyVfs nextFileId) := by
  have hcount : Emits (writeList writeVirtualFile []) () (leBytes 4 0 ++ []) :=
    (emits_writeBytes _).bind (.pure ())
  exact (emits_writeBytes _).bind (by rwa [List.append_nil] at hcount)

theorem isVfsSection_empty (nextFileId : UInt32) :
    IsVfsSection (emptyVfs nextFileId) (nextFileId, []) := by
  obtain ⟨bytes, hemit, hdec, -⟩ := transcribes_vfsSection nextFileId [] (by simp)
  obtain rfl := hemit.inj (emits_emptyVfs nextFileId)
  exact ⟨hdec (by simp), hemit⟩

theorem IsVfsSection.eq_empty {bytes : Str} {nextFileId : UInt32}
    (h : IsVfsSection bytes (nextFileId, [])) : bytes = emptyVfs nextFileId :=
  h.2.inj (emits_emptyVfs nextFileId)

theorem FileOf.v1_to_v2 {bytes : Str} {snapshot : KernelSnapshot} (h : FileOf snapshot bytes)
    (hversion : fileVersion bytes = kVersionV1) :
    FileOf snapshot (setVersion kVersionV2 bytes ++ emptyVfs 1) := by
  cases h with
  | v1 hflags hsections =>
    rw [setVersion_header, List.append_assoc]
    exact .v2 hflags hsections (isVfsSection_empty 1)
  | v2 hflags hsections hfiles =>
    rw [fileVersion_header] at hversion
    exact absurd hversion (by decide)

/-- A version 2 file without virtual files is a version 1 file and an empty VFS section. -/
theorem FileOf.v2_to_v1 {bytes : Str} {snapshot : KernelSnapshot} (h : FileOf snapshot bytes)
    (hversion : fileVersion bytes = kVersionV2) (hfiles : snapshot.virtualFiles = []) :
    ∃ front, bytes = front ++ emptyVfs snapshot.nextFileId ∧
      FileOf { snapshot with nextFileId := 1 } (setVersion kVersionV1 front) := by
  cases h with
  | v1 hflags hsections =>
    rw [fileVersion_header] at hversion
    exact absurd hversion (by decide)
  | @v2 flags sections files loaded vfs hflags hsections hvfs =>
    obtain ⟨nextFileId, virtualFiles⟩ := vfs
    obtain rfl : virtualFiles = [] := hfiles
    obtain rfl := hvfs.eq_empty
    refine ⟨headerBytes kVersionV2 flags ++ sections, (List.append_assoc ..).symm, ?_⟩
    have hfront : FileOf (withVfs loaded (1, [])) (headerBytes kVersionV1 flags ++ sections) :=
      .v1 hflags hsections
    rwa [setVersion_header]

/-- The version 1 form of an encoding forgets the identifier of the next file. -/
theorem loadsWhole_v1_form {snapshot : KernelSnapshot}
    (h : SnapshotWithin readable snapshot) (hfiles : snapshot.virtualFiles = []) :
    ∃ front, (serialize snapshot).run.run [] =
        (.ok (), front ++ emptyVfs snapshot.nextFileId) ∧
      LoadsWhole (setVersion kVersionV1 front) { snapshot with nextFileId := 1 } := by
  obtain ⟨bytes, hrun, hfile, hversion⟩ := fileOf_serialize h
  obtain ⟨front, rfl, hfront⟩ := hfile.v2_to_v1 hversion hfiles
  exact ⟨front, hrun, loadsWhole_iff.mpr hfront⟩

/-- A version 1 file is a version 2 file with a VFS section that has the defaults: the two are
read as the same snapshot, and what is lost in the version 1 form is the identifier of the next
file. -/
theorem v1_as_v2 :
    (∀ bytes snapshot, fileVersion bytes = kVersionV1 → LoadsWhole bytes snapshot →
      LoadsWhole (setVersion kVersionV2 bytes ++ emptyVfs 1) snapshot) ∧
    (∀ bytes snapshot, fileVersion bytes = kVersionV2 → LoadsWhole bytes snapshot →
      snapshot.nextFileId = 1 → snapshot.virtualFiles = [] →
        ∃ front, bytes = front ++ emptyVfs 1 ∧
          LoadsWhole (setVersion kVersionV1 front) snapshot) ∧
    ∀ snapshot, SnapshotWithin readable snapshot → snapshot.virtualFiles = [] →
      ∃ front, (serialize snapshot).run.run [] =
          (.ok (), front ++ emptyVfs snapshot.nextFileId) ∧
        LoadsWhole (setVersion kVersionV1 front) { snapshot with nextFileId := 1 } ∧
        (LoadsWhole (setVersion kVersionV1 front) snapshot ↔ snapshot.nextFileId = 1) := by
  have hsame : ∀ snapshot : KernelSnapshot, snapshot.nextFileId = 1 →
      { snapshot with nextFileId := 1 } = snapshot := by
    intro snapshot hid
    rw [← hid]
  refine ⟨?_, ?_, ?_⟩
  · intro bytes snapshot hversion hload
    exact loadsWhole_iff.mpr ((loadsWhole_iff.mp hload).v1_to_v2 hversion)
  · intro bytes snapshot hversion hload hid hfiles
    obtain ⟨front, hbytes, hfront⟩ := (loadsWhole_iff.mp hload).v2_to_v1 hversion hfiles
    rw [hid] at hbytes
    rw [hsame snapshot hid] at hfront
    exact ⟨front, hbytes, loadsWhole_iff.mpr hfront⟩
  · intro snapshot hwithin hfiles
    obtain ⟨front, hrun, hload⟩ := loadsWhole_v1_form hwithin hfiles
    refine ⟨front, hrun, hload, fun hexact => ?_, fun hid => ?_⟩
    · exact congrArg KernelSnapshot.nextFileId (hexact.inj hload)
    · rwa [hsame snapshot hid] at hload

def fileless (nextFileId : UInt32) : KernelSnapshot :=
  { oneOfEach with nextFileId := nextFileId, virtualFiles := [] }

theorem fileless_within (nextFileId : UInt32) : SnapshotWithin readable (fileless nextFileId) :=
  { oneOfEach_within with virtualFiles := ⟨Nat.zero_le _, fun _ h => by cases h⟩ }

theorem v1_as_v2_fileless :
    ∃ front, (serialize (fileless 1)).run.run [] = (.ok (), front ++ emptyVfs 1) ∧
      LoadsWhole (setVersion kVersionV1 front) (fileless 1) ∧
      LoadsWhole (setVersion kVersionV2 (setVersion kVersionV1 front) ++ emptyVfs 1) (fileless 1) ∧
      ∃ front', front ++ emptyVfs 1 = front' ++ emptyVfs 1 ∧
        LoadsWhole (setVersion kVersionV1 front') (fileless 1) := by
  obtain ⟨front, hrun, hload, -⟩ := v1_as_v2.2.2 (fileless 1) (fileless_within 1) rfl
  obtain ⟨bytes, hrun', hfile, hversion⟩ := fileOf_serialize (fileless_within 1)
  obtain rfl : bytes = front ++ emptyVfs 1 := congrArg Prod.snd (hrun'.symm.trans hrun)
  refine ⟨front, hrun, hload, ?_, ?_⟩
  · refine v1_as_v2.1 _ (fileless 1) ?_ hload
    have hlength := (loadsWhole_iff.mp hload).length
    simp only [setVersion, List.length_append, List.length_take, length_leBytes,
      List.length_drop] at hlength
    exact fileVersion_setVersion kVersionV1 (by omega)
  · exact v1_as_v2.2.1 _ (fileless 1) hversion (loadsWhole_iff.mpr hfile) rfl rfl

/-- After all files are removed the identifier of the next one is still counted. -/
theorem v1_form_forgets_nextFileId :
    ¬∀ snapshot, SnapshotWithin readable snapshot → snapshot.virtualFiles = [] →
      ∀ front, (serialize snapshot).run.run [] =
          (.ok (), front ++ emptyVfs snapshot.nextFileId) →
        LoadsWhole (setVersion kVersionV1 front) snapshot := by
  intro h
  obtain ⟨front, hrun, hload⟩ := loadsWhole_v1_form (fileless_within 2) rfl
  have hexact := h (fileless 2) (fileless_within 2) rfl front hrun
  exact absurd (congrArg KernelSnapshot.nextFileId (hexact.inj hload)) (by decide)

end SnapshotStore

end OSCoreSim
