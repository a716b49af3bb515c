import OSCoreSim.Lib.KeyedTable
import OSCoreSim.Persistence.SnapshotCounts
import Mathlib.Data.List.Infix
/-!
# Replacing the state file

The file system after each step of `save`.  A crash leaves one of these states, and so
does a step that fails.
-/

namespace OSCoreSim

open ByteStream

namespace SnapshotStore

variable {store : SnapshotStore} {io : SaveIo} {fs fs' : FileSystem} {snapshot : KernelSnapshot}

/-- The file system at the start of `save` and after each of its steps; any part of what is
written to the temporary file may have reached the disk. -/
def saveStates (store : SnapshotStore) (io : SaveIo) (fs : FileSystem)
    (snapshot : KernelSnapshot) : List FileSystem :=
  let tmpPath := tempPathFor store.path
  match (if directory store.path = [] then none else io.createDirectories) with
  | some _ => [fs]
  | none =>
    if !io.opens then [fs]
    else
      let (written, result) := writeStream io snapshot
      let writing := fs :: written.inits.map (fs.insert tmpPath)
      match result with
      | .error _ => writing
      | .ok () =>
        if !io.flushes then writing
        else
          let removed := removeFile io (fs.insert tmpPath written) store.path
          match renameFile io removed tmpPath store.path with
          | .error _ => writing ++ [removed]
          | .ok renamed => writing ++ [removed, renamed]

def Opened (store : SnapshotStore) (io : SaveIo) : Prop :=
  (directory store.path = [] ∨ io.createDirectories = none) ∧ io.opens = true

def Flushed (io : SaveIo) (snapshot : KernelSnapshot) : Prop :=
  (writeStream io snapshot).2 = .ok () ∧ io.flushes = true

def removed (store : SnapshotStore) (io : SaveIo) (fs : FileSystem) (snapshot : KernelSnapshot) :
    FileSystem :=
  removeFile io (fs.insert (tempPathFor store.path) (writeStream io snapshot).1) store.path

theorem mem_saveStates : fs' ∈ saveStates store io fs snapshot ↔
    fs' = fs ∨ Opened store io ∧
      ((∃ bs, bs <+: (writeStream io snapshot).1 ∧ fs.insert (tempPathFor store.path) bs = fs') ∨
        Flushed io snapshot ∧ (fs' = removed store io fs snapshot ∨
          renameFile io (removed store io fs snapshot) (tempPathFor store.path) store.path =
            .ok fs')) := by
  unfold saveStates Opened Flushed removed
  cases hdirs : (if directory store.path = [] then none else io.createDirectories) with
  | some what =>
    have hnot : ¬(directory store.path = [] ∨ io.createDirectories = none) := by
      intro h
      rcases h with h | h
      · rw [if_pos h] at hdirs
        cases hdirs
      · rw [h, ite_self] at hdirs
        cases hdirs
    simp [hnot]
  | none =>
    have hready : directory store.path = [] ∨ io.createDirectories = none := by
      by_cases h : directory store.path = []
      · exact Or.inl h
      · rw [if_neg h] at hdirs
        exact Or.inr hdirs
    obtain ⟨written, result⟩ := writeStream io snapshot
    cases io.opens with
    | false => simp
    | true =>
      cases result with
      | error what => simp [hready]
      | ok u =>
        cases io.flushes with
        | false => simp [hready]
        | true =>
          cases hrename : renameFile io
            (removeFile io (fs.insert (tempPathFor store.path) written) store.path)
            (tempPathFor store.path) store.path with
          | error what => simp [hready, hrename]
          | ok renamed => simp [hready, hrename, eq_comm (a := renamed)]

theorem inits_eq_append {α : Type*} (l : List α) : ∃ front, l.inits = front ++ [l] := by
  induction l with
  | nil => exact ⟨[], rfl⟩
  | cons a l ih =>
    obtain ⟨front, hfront⟩ := ih
    refine ⟨[] :: front.map (a :: ·), ?_⟩
    rw [List.inits_cons, hfront, List.map_append]
    rfl

theorem getLast?_saveStates (store : SnapshotStore) (io : SaveIo) (fs : FileSystem)
    (snapshot : KernelSnapshot) :
    (saveStates store io fs snapshot).getLast? = some (store.save io fs snapshot).1 := by
  unfold saveStates save
  cases (if directory store.path = [] then none else io.createDirectories) with
  | some what => rfl
  | none =>
    obtain ⟨written, result⟩ := writeStream io snapshot
    have hwritten : (fs :: written.inits.map (fs.insert (tempPathFor store.path))).getLast? =
        some (fs.insert (tempPathFor store.path) written) := by
      obtain ⟨front, hfront⟩ := inits_eq_append written
      rw [hfront, List.map_append, ← List.cons_append]
      exact List.getLast?_concat
    cases io.opens with
    | false => rfl
    | true =>
      cases result with
      | error what => exact hwritten
      | ok u =>
        cases io.flushes with
        | false => exact hwritten
        | true =>
          cases hrename : renameFile io
            (removeFile io (fs.insert (tempPathFor store.path) written) store.path)
            (tempPathFor store.path) store.path with
          | error what =>
            simp only [hrename]
            exact List.getLast?_concat
          | ok renamed =>
            simp only [hrename, Bool.not_true, Bool.false_eq_true, if_false, List.getLast?_append]
            rfl

/-! ## The file at the path -/

def Complete (snapshot : KernelSnapshot) (content : Str) : Prop :=
  (serialize snapshot).run.run [] = (.ok (), content)

/-- At the path stands what stood there before, or the complete new snapshot. -/
def OldOrNew (store : SnapshotStore) (fs : FileSystem) (snapshot : KernelSnapshot)
    (fs' : FileSystem) : Prop :=
  fs'[store.path]? = fs[store.path]? ∨
    ∃ content, fs'[store.path]? = some content ∧ Complete snapshot content

/-- The temporary file is not opened, or it is another file and the old one is not removed. -/
def LeavesOld (store : SnapshotStore) (io : SaveIo) (snapshot : KernelSnapshot) : Prop :=
  ¬Opened store io ∨
    tempPathFor store.path ≠ store.path ∧ (¬Flushed io snapshot ∨ io.removes = false)

theorem Complete.ne_nil {content : Str} (h : Complete snapshot content) : content ≠ [] := by
  obtain ⟨header, hemit, hread, -⟩ := transcribes_header trivial
  have hrest := (writes_list snapshot.users fun account _ => writes_user account).bind
    (writes_rest snapshot)
  obtain ⟨-, rest, rfl⟩ := hemit.bind_writes hrest h
  intro hnil
  obtain ⟨rfl, -⟩ := List.append_eq_nil_iff.mp hnil
  have hempty : readHeader.run [] = .ok (kVersionV2, []) := hread trivial []
  cases hempty

theorem load_bytes {old : KernelSnapshot} (h : store.load fs = .ok old) :
    ∃ bytes, fs[store.path]? = some bytes ∧ bytes ≠ [] := by
  unfold load at h
  cases hget : fs[store.path]? with
  | none =>
    rw [hget] at h
    cases h
  | some bytes =>
    refine ⟨bytes, rfl, ?_⟩
    rintro rfl
    rw [hget] at h
    cases h

/-- In every state of a `save` the file is the old one or the new one just when the save leaves
the old one alone. -/
theorem old_or_new_of_save {old : KernelSnapshot} (hold : store.load fs = .ok old) :
    (∀ fs' ∈ saveStates store io fs snapshot, OldOrNew store fs snapshot fs') ↔
      LeavesOld store io snapshot := by
  obtain ⟨bytes, hbytes, hne⟩ := load_bytes hold
  constructor
  · intro hall
    by_contra hnot
    obtain ⟨hopened, hrest⟩ := not_or.mp hnot
    have hopened : Opened store io := not_not.mp hopened
    by_cases htmp : tempPathFor store.path = store.path
    · -- opening the temporary file empties the state file
      have hmem : fs.insert (tempPathFor store.path) [] ∈ saveStates store io fs snapshot :=
        mem_saveStates.mpr (Or.inr ⟨hopened, Or.inl ⟨[], List.nil_prefix, rfl⟩⟩)
      have hempty : (fs.insert (tempPathFor store.path) [])[store.path]? = some ([] : Str) := by
        rw [htmp, KeyedTable.getElem?_insert, if_pos rfl]
      rcases hall _ hmem with h | ⟨content, h, hcomplete⟩
      · rw [hempty, hbytes] at h
        exact hne (Option.some.inj h).symm
      · rw [hempty] at h
        exact hcomplete.ne_nil (Option.some.inj h).symm
    · obtain ⟨hflushed, hremoves⟩ : Flushed io snapshot ∧ io.removes = true := by
        simpa [htmp] using hrest
      have hmem : removed store io fs snapshot ∈ saveStates store io fs snapshot :=
        mem_saveStates.mpr (Or.inr ⟨hopened, Or.inr ⟨hflushed, Or.inl rfl⟩⟩)
      have hgone : (removed store io fs snapshot)[store.path]? = none := by
        rw [removed, removeFile, if_pos hremoves, KeyedTable.getElem?_erase, if_pos rfl]
      rcases hall _ hmem with h | ⟨content, h, -⟩
      · rw [hgone, hbytes] at h
        cases h
      · rw [hgone] at h
        cases h
  · rintro hleaves fs' hmem
    rcases mem_saveStates.mp hmem with rfl | ⟨hopened, hrest⟩
    · exact Or.inl rfl
    obtain ⟨htmp, hstops⟩ := hleaves.resolve_left (not_not.mpr hopened)
    have hwriting : ∀ bs, (fs.insert (tempPathFor store.path) bs)[store.path]? =
        fs[store.path]? := fun bs => by
      rw [KeyedTable.getElem?_insert, if_neg htmp]
    rcases hrest with ⟨bs, -, rfl⟩ | ⟨hflushed, hrest⟩
    · exact Or.inl (hwriting bs)
    have hkept : io.removes = false := hstops.resolve_left (not_not.mpr hflushed)
    have hremoved : removed store io fs snapshot =
        fs.insert (tempPathFor store.path) (writeStream io snapshot).1 := by
      rw [removed, removeFile, hkept]
      rfl
    rcases hrest with rfl | hrename
    · rw [hremoved]
      exact Or.inl (hwriting _)
    · -- the rename puts the new snapshot over the old one
      obtain ⟨content, hsource, htarget⟩ := renameFile_eq_ok hrename
      rw [hremoved, KeyedTable.getElem?_insert, if_pos rfl] at hsource
      exact Or.inr ⟨_, htarget.trans hsource.symm, writeStream_ok hflushed.1⟩

def emptySnapshot : KernelSnapshot where
  users := []
  nextPid := 1
  pcbs := []
  readyQueues := fun _ => []
  totalMemoryKB := 1024
  allocAlgorithm := .firstFit
  memoryBlocks := [freeBlock 0 1024]
  schedulerRunning := false
  schedulerOwner := []
  nextFileId := 1
  virtualFiles := []

def savedDisk : FileSystem :=
  (∅ : FileSystem).insert (str "data/os_state.bin") ((serialize emptySnapshot).run.run []).2

theorem savedDisk_loads : ∃ old, SnapshotStore.load {} savedDisk = .ok old := by
  have hok : (SnapshotStore.load {} savedDisk).isOk = true := by decide +kernel
  cases hload : SnapshotStore.load {} savedDisk with
  | error message =>
    rw [hload] at hok
    cases hok
  | ok old => exact ⟨old, rfl⟩

def laterSnapshot : KernelSnapshot :=
  { emptySnapshot with
    users := [{ username := str "a", passwordHash := str "h", salt := str "s" }] }

/-- The old file resists its removal; the rename then replaces it in one step. -/
theorem old_or_new_of_save_kept :
    let io : SaveIo := { removes := false }
    (∃ old, SnapshotStore.load {} savedDisk = .ok old) ∧
      (∀ fs' ∈ saveStates {} io savedDisk laterSnapshot, OldOrNew {} savedDisk laterSnapshot fs') ∧
      (SnapshotStore.save {} io savedDisk laterSnapshot).1[str "data/os_state.bin"]? ≠
        savedDisk[str "data/os_state.bin"]? := by
  intro io
  obtain ⟨old, hold⟩ := savedDisk_loads
  have hleaves : LeavesOld {} io laterSnapshot := .inr ⟨by decide, .inr rfl⟩
  exact ⟨⟨old, hold⟩, (old_or_new_of_save hold).mpr hleaves, by decide +kernel⟩

/-- The rename fails behind the removal: the save answers with a failure, and there is no
state file any more. -/
theorem state_file_missing :
    let io : SaveIo := { renameError := some (str "Access is denied.") }
    (∃ old, SnapshotStore.load {} savedDisk = .ok old) ∧
      (SnapshotStore.save {} io savedDisk emptySnapshot).2.isOk = false ∧
      (SnapshotStore.save {} io savedDisk emptySnapshot).1[str "data/os_state.bin"]? = none ∧
      ¬∀ fs' ∈ saveStates {} io savedDisk emptySnapshot, OldOrNew {} savedDisk emptySnapshot fs' := by
  intro io
  have hgone : (SnapshotStore.save {} io savedDisk emptySnapshot).1[str "data/os_state.bin"]? =
      none := by decide +kernel
  have hbefore : savedDisk[str "data/os_state.bin"]? ≠ none := by decide +kernel
  refine ⟨savedDisk_loads, by decide +kernel, hgone, fun hall => ?_⟩
  have hlast := List.mem_of_getLast? (getLast?_saveStates {} io savedDisk emptySnapshot)
  rcases hall _ hlast with h | ⟨content, h, -⟩
  · exact hbefore (h.symm.trans hgone)
  · cases h.symm.trans hgone

end SnapshotStore

end OSCoreSim
