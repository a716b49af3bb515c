import OSCoreSim.Vfs.VirtualFileSystem
/-!
# What the file operations do

A successful operation appends one file of the owner, rewrites the content of one, or
removes one; every other file keeps its place.
-/

namespace OSCoreSim

namespace VirtualFileSystem

variable {vfs vfs' : VirtualFileSystem} {owner name content message : Str} {time : UInt64}

/-- The change that one operation of `owner` makes to the files. -/
inductive FileChange (owner : Str) (vfs : VirtualFileSystem) : VirtualFileSystem → Prop
  | add (name content : Str) (time : UInt64) (hvalid : isValidFileName name = .ok ())
      (hnew : vfs.findFileIndex owner name = none) :
      FileChange owner vfs (vfs.addFile owner name content time)
  | rewrite {l r : List VirtualFile} {file : VirtualFile} (content : Str) (time : UInt64)
      (hfiles : vfs.files = l ++ file :: r) (howner : file.owner = owner) :
      FileChange owner vfs
        { vfs with files := l ++ { file with content := content, modifiedAt := time } :: r }
  | remove {l r : List VirtualFile} {file : VirtualFile}
      (hfiles : vfs.files = l ++ file :: r) (howner : file.owner = owner) :
      FileChange owner vfs { vfs with files := l ++ r }

theorem findFileIndex_spec {index : ℕ} (h : vfs.findFileIndex owner name = some index) :
    ∃ l file r, vfs.files = l ++ file :: r ∧ l.length = index ∧
      (file.owner = owner ∧ file.name = name) ∧
      ∀ other ∈ l, ¬(other.owner = owner ∧ other.name = name) := by
  obtain ⟨hlt, hfound, hbefore⟩ := List.findIdx?_eq_some_iff_getElem.mp h
  refine ⟨vfs.files.take index, vfs.files[index], vfs.files.drop (index + 1), ?_,
    List.length_take_of_le (Nat.le_of_lt hlt), by simpa using hfound, fun other hmem => ?_⟩
  · rw [List.getElem_cons_drop, List.take_append_drop]
  · obtain ⟨j, hj, rfl⟩ := List.mem_take_iff_getElem.mp hmem
    have hfirst := hbefore j (Nat.lt_of_lt_of_le hj (Nat.min_le_left _ _))
    simpa using hfirst

theorem findFileIndex_eq_none :
    vfs.findFileIndex owner name = none ↔
      ∀ file ∈ vfs.files, ¬(file.owner = owner ∧ file.name = name) := by
  simp [findFileIndex, List.findIdx?_eq_none_iff]

theorem createFile_spec (h : vfs.createFile time owner name = .ok (vfs', message)) :
    FileChange owner vfs vfs' := by
  unfold createFile at h
  split at h
  · cases h
  split at h
  · cases h
  next hvalid =>
  split at h
  · cases h
  next hnew =>
    obtain ⟨rfl, -⟩ := Prod.mk.inj (Except.ok.inj h)
    exact .add name [] time hvalid (Option.not_isSome_iff_eq_none.mp hnew)

theorem writeFile_eq_ok (h : vfs.writeFile time owner name content = .ok (vfs', message)) :
    isValidFileName name = .ok () ∧
      ((∃ l file r, vfs.files = l ++ file :: r ∧ (file.owner = owner ∧ file.name = name) ∧
          (∀ other ∈ l, ¬(other.owner = owner ∧ other.name = name)) ∧
          vfs' = { vfs with
            files := l ++ { file with content := content, modifiedAt := time } :: r }) ∨
        vfs.findFileIndex owner name = none ∧ vfs' = vfs.addFile owner name content time) := by
  unfold writeFile at h
  split at h
  · cases h
  split at h
  · cases h
  next hvalid =>
  simp only at h
  split at h
  next index hfind =>
    obtain ⟨l, file, r, hfiles, hlength, hkey, hfirst⟩ := findFileIndex_spec hfind
    have hmodify : vfs.files.modify index (fun file =>
        { file with content := content, modifiedAt := time }) =
        l ++ { file with content := content, modifiedAt := time } :: r := by
      rw [hfiles, ← hlength]
      exact List.modifyTailIdx_add _ 0 l (file :: r)
    obtain ⟨rfl, -⟩ := Prod.mk.inj (Except.ok.inj h)
    rw [hmodify]
    exact ⟨hvalid, .inl ⟨l, file, r, hfiles, hkey, hfirst, rfl⟩⟩
  next hnew =>
    obtain ⟨rfl, -⟩ := Prod.mk.inj (Except.ok.inj h)
    exact ⟨hvalid, .inr ⟨hnew, rfl⟩⟩

theorem writeFile_new (howner : owner ≠ []) (hvalid : isValidFileName name = .ok ())
    (hnew : vfs.findFileIndex owner name = none) (content : Str) (time : UInt64) :
    ∃ message, vfs.writeFile time owner name content =
      .ok (vfs.addFile owner name content time, message) := by
  unfold writeFile
  rw [if_neg howner, hvalid]
  simp only [hnew]
  exact ⟨_, rfl⟩

theorem writeFile_spec (h : vfs.writeFile time owner name content = .ok (vfs', message)) :
    FileChange owner vfs vfs' := by
  obtain ⟨hvalid, ⟨l, file, r, hfiles, hkey, -, rfl⟩ | ⟨hnew, rfl⟩⟩ := writeFile_eq_ok h
  · exact .rewrite content time hfiles hkey.1
  · exact .add name content time hvalid hnew

theorem deleteFile_eq_ok (h : vfs.deleteFile owner name = .ok (vfs', message)) :
    ∃ l file r, vfs.files = l ++ file :: r ∧ file.owner = owner ∧ file.name = name ∧
      vfs' = { vfs with files := l ++ r } := by
  unfold deleteFile at h
  split at h
  · cases h
  split at h
  · cases h
  next index hfind =>
    obtain ⟨l, file, r, hfiles, hlength, ⟨howner, hname⟩, -⟩ := findFileIndex_spec hfind
    have herase : vfs.files.eraseIdx index = l ++ r := by
      rw [hfiles, ← hlength, List.eraseIdx_append_of_length_le (Nat.le_refl _), Nat.sub_self]
      rfl
    obtain ⟨rfl, -⟩ := Prod.mk.inj (Except.ok.inj h)
    rw [herase]
    exact ⟨l, file, r, hfiles, howner, hname, rfl⟩

theorem deleteFile_spec (h : vfs.deleteFile owner name = .ok (vfs', message)) :
    FileChange owner vfs vfs' := by
  obtain ⟨l, file, r, hfiles, howner, -, rfl⟩ := deleteFile_eq_ok h
  exact .remove hfiles howner

theorem FileChange.filter_eq {v : Str} (h : FileChange owner vfs vfs') (hv : v ≠ owner) :
    vfs'.files.filter (·.owner = v) = vfs.files.filter (·.owner = v) := by
  have hne : ¬owner = v := fun heq => hv heq.symm
  cases h with
  | add name content time => simp [addFile, newFile, hne]
  | rewrite content time hfiles howner => simp [hfiles, howner, hne]
  | remove hfiles howner => simp [hfiles, howner, hne]

/-! ## File ids -/

/-- The files stand in the order of their ids, which are below the next one, and `n` creations
account for it. -/
structure Ordered (n : ℕ) (vfs : VirtualFileSystem) : Prop where
  next_pos : 0 < vfs.nextFileId.toNat
  next_le : vfs.nextFileId.toNat ≤ n + 1
  bound : ∀ file ∈ vfs.files, file.fileId.toNat < vfs.nextFileId.toNat
  sorted : vfs.files.Pairwise fun a b => a.fileId < b.fileId

theorem ordered_empty : Ordered 0 {} :=
  ⟨by decide, by decide, fun _ hmem => absurd hmem List.not_mem_nil, .nil⟩

theorem Ordered.mono {n m : ℕ} (h : Ordered n vfs) (hle : n ≤ m) : Ordered m vfs :=
  ⟨h.next_pos, by have := h.next_le; omega, h.bound, h.sorted⟩

def addedFiles (vfs vfs' : VirtualFileSystem) : ℕ := vfs'.files.length - vfs.files.length

theorem addedFiles_addFile (content : Str) (time : UInt64) :
    addedFiles vfs (vfs.addFile owner name content time) = 1 := by
  simp [addedFiles, addFile]

theorem Ordered.addFile {n : ℕ} (h : Ordered n vfs) (hroom : n + 1 < 2 ^ 32 - 1)
    (owner name content : Str) (time : UInt64) :
    Ordered (n + 1) (vfs.addFile owner name content time) := by
  have hle := h.next_le
  have hnext : (vfs.nextFileId + 1).toNat = vfs.nextFileId.toNat + 1 := by
    rw [UInt32.toNat_add]
    exact Nat.mod_eq_of_lt (by omega : vfs.nextFileId.toNat + 1 < 2 ^ 32)
  refine ⟨?_, ?_, fun file hmem => ?_, ?_⟩
  · show 0 < (vfs.nextFileId + 1).toNat
    omega
  · show (vfs.nextFileId + 1).toNat ≤ n + 1 + 1
    omega
  · show file.fileId.toNat < (vfs.nextFileId + 1).toNat
    rcases List.mem_append.mp hmem with hold | hnew
    · have hlt := h.bound file hold
      omega
    · rw [List.mem_singleton.mp hnew, hnext]
      exact Nat.lt_succ_self _
  · refine List.pairwise_append.mpr ⟨h.sorted, List.pairwise_singleton _ _, fun file hold new hnew => ?_⟩
    rw [List.mem_singleton.mp hnew]
    exact UInt32.lt_iff_toNat_lt.mpr (h.bound file hold)

theorem FileChange.ordered {n : ℕ} (hc : FileChange owner vfs vfs') (h : Ordered n vfs)
    (hroom : n + addedFiles vfs vfs' < 2 ^ 32 - 1) : Ordered (n + addedFiles vfs vfs') vfs' := by
  cases hc with
  | add name content time =>
    rw [addedFiles_addFile] at hroom ⊢
    exact h.addFile hroom owner name content time
  | @rewrite l r file content time hfiles =>
    obtain ⟨hpos, hle, hbound, hsorted⟩ := h.mono (Nat.le_add_right n _)
    rw [hfiles] at hbound hsorted
    refine ⟨hpos, hle, fun found hmem => ?_, ?_⟩
    · rcases List.mem_append.mp hmem with hmem | hmem
      · exact hbound found (List.mem_append_left _ hmem)
      rcases List.mem_cons.mp hmem with rfl | hmem
      · exact hbound file (by simp)
      · exact hbound found (by simp [hmem])
    · have hids := List.pairwise_map.mpr hsorted
      refine List.pairwise_map.mp ?_
      simpa using hids
  | @remove l r file hfiles =>
    obtain ⟨hpos, hle, hbound, hsorted⟩ := h.mono (Nat.le_add_right n _)
    have hsub : (l ++ r).Sublist vfs.files := by
      rw [hfiles]
      exact (List.Sublist.refl l).append (List.sublist_cons_self file r)
    exact ⟨hpos, hle, fun found hmem => hbound found (hsub.subset hmem), hsorted.sublist hsub⟩

theorem Ordered.import_exportFiles {n : ℕ} (h : Ordered n vfs) (vfs' : VirtualFileSystem) :
    (vfs'.importNextFileId vfs.nextFileId).importFiles vfs.exportFiles = vfs := by
  have hfiles : vfs.exportFiles = vfs.files :=
    List.Pairwise.insertionSort_eq (h.sorted.imp fun hlt => UInt32.le_of_lt hlt)
  rw [hfiles]
  show ({ nextFileId := max vfs.nextFileId 1, files := vfs.files } : VirtualFileSystem) = vfs
  rw [max_one_of_pos h.next_pos]

/-! ## Keys, ids and names -/

/-- `owner + name` and `fileId` each tell a file from all others, the ids are below the next one,
and every name keeps the naming rule. -/
structure Consistent (vfs : VirtualFileSystem) : Prop where
  keys : vfs.files.Pairwise fun a b => ¬(a.owner = b.owner ∧ a.name = b.name)
  ids : vfs.files.Pairwise fun a b => a.fileId ≠ b.fileId
  below : ∀ file ∈ vfs.files, file.fileId < vfs.nextFileId
  names : ∀ file ∈ vfs.files, isValidFileName file.name = .ok ()

theorem Consistent.addFile (h : Consistent vfs) (hroom : vfs.nextFileId.toNat + 1 < 2 ^ 32)
    (hvalid : isValidFileName name = .ok ()) (hnew : vfs.findFileIndex owner name = none)
    (content : Str) (time : UInt64) : Consistent (vfs.addFile owner name content time) := by
  have hnext : (vfs.nextFileId + 1).toNat = vfs.nextFileId.toNat + 1 := by
    rw [UInt32.toNat_add]
    exact Nat.mod_eq_of_lt hroom
  have hlt : vfs.nextFileId < vfs.nextFileId + 1 := by
    rw [UInt32.lt_iff_toNat_lt, hnext]
    exact Nat.lt_succ_self _
  refine ⟨?_, ?_, fun file hmem => ?_, fun file hmem => ?_⟩
  · refine List.pairwise_append.mpr ⟨h.keys, List.pairwise_singleton _ _, fun a ha b hb => ?_⟩
    rw [List.mem_singleton.mp hb]
    exact findFileIndex_eq_none.mp hnew a ha
  · refine List.pairwise_append.mpr ⟨h.ids, List.pairwise_singleton _ _, fun a ha b hb => ?_⟩
    rw [List.mem_singleton.mp hb]
    exact UInt32.ne_of_lt (h.below a ha)
  · show file.fileId < vfs.nextFileId + 1
    rcases List.mem_append.mp hmem with hold | hlast
    · exact UInt32.lt_trans (h.below file hold) hlt
    · rw [List.mem_singleton.mp hlast]
      exact hlt
  · rcases List.mem_append.mp hmem with hold | hlast
    · exact h.names file hold
    · rw [List.mem_singleton.mp hlast]
      exact hvalid

/-- An id that wraps around to 0 is not above the file that took the last one. -/
theorem not_consistent_addFile (hwrap : vfs.nextFileId.toNat + 1 = 2 ^ 32) (content : Str)
    (time : UInt64) : ¬Consistent (vfs.addFile owner name content time) := by
  intro h
  have hbelow := UInt32.lt_iff_toNat_lt.mp
    (h.below (newFile vfs.nextFileId owner name content time) (by simp [addFile]))
  have hzero : (vfs.nextFileId + 1).toNat = 0 := by
    rw [UInt32.toNat_add]
    show (vfs.nextFileId.toNat + 1) % 2 ^ 32 = 0
    rw [hwrap]
    rfl
  rw [show (vfs.addFile owner name content time).nextFileId = vfs.nextFileId + 1 from rfl,
    hzero] at hbelow
  exact Nat.not_lt_zero _ hbelow

theorem Consistent.rewrite {l r : List VirtualFile} {file : VirtualFile} (h : Consistent vfs)
    (hfiles : vfs.files = l ++ file :: r) (content : Str) (time : UInt64) :
    Consistent
      { vfs with files := l ++ { file with content := content, modifiedAt := time } :: r } := by
  obtain ⟨hkeys, hids, hbelow, hnames⟩ := h
  rw [hfiles] at hkeys hids hbelow hnames
  refine ⟨?_, ?_, ?_, ?_⟩
  · simpa [List.pairwise_append] using hkeys
  · simpa [List.pairwise_append] using hids
  · simpa only [List.forall_mem_append, List.forall_mem_cons] using hbelow
  · simpa only [List.forall_mem_append, List.forall_mem_cons] using hnames

theorem Consistent.remove {l r : List VirtualFile} {file : VirtualFile} (h : Consistent vfs)
    (hfiles : vfs.files = l ++ file :: r) : Consistent { vfs with files := l ++ r } := by
  have hsub : (l ++ r).Sublist vfs.files := by
    rw [hfiles]
    exact (List.Sublist.refl l).append (List.sublist_cons_self file r)
  exact ⟨h.keys.sublist hsub, h.ids.sublist hsub, fun found hmem => h.below found (hsub.subset hmem),
    fun found hmem => h.names found (hsub.subset hmem)⟩

/-- A change that leaves consistent files advances the next id by the files it adds. -/
theorem FileChange.nextFileId (hc : FileChange owner vfs vfs') (h : Consistent vfs') :
    vfs'.nextFileId.toNat = vfs.nextFileId.toNat + addedFiles vfs vfs' := by
  cases hc with
  | add name content time =>
    rw [addedFiles_addFile]
    have hlt := vfs.nextFileId.toNat_lt
    have hroom : vfs.nextFileId.toNat + 1 ≠ 2 ^ 32 :=
      fun hwrap => not_consistent_addFile hwrap content time h
    show (vfs.nextFileId + 1).toNat = vfs.nextFileId.toNat + 1
    rw [UInt32.toNat_add]
    exact Nat.mod_eq_of_lt (by omega : vfs.nextFileId.toNat + 1 < 2 ^ 32)
  | rewrite content time hfiles => simp [addedFiles, hfiles]
  | @remove l r file hfiles =>
    have hnone : addedFiles vfs { vfs with files := l ++ r } = 0 := by
      simp only [addedFiles, hfiles, List.length_append, List.length_cons]
      omega
    rw [hnone]
    rfl

theorem FileChange.consistent (hc : FileChange owner vfs vfs') (h : Consistent vfs)
    (hroom : vfs.nextFileId.toNat + addedFiles vfs vfs' < 2 ^ 32) : Consistent vfs' := by
  cases hc with
  | add name content time hvalid hnew =>
    rw [addedFiles_addFile] at hroom
    exact h.addFile hroom hvalid hnew content time
  | rewrite content time hfiles => exact h.rewrite hfiles content time
  | remove hfiles => exact h.remove hfiles

theorem Consistent.findFileIndex_deleteFile (h : Consistent vfs)
    (hok : vfs.deleteFile owner name = .ok (vfs', message)) :
    vfs'.findFileIndex owner name = none := by
  obtain ⟨l, file, r, hfiles, howner, hname, rfl⟩ := deleteFile_eq_ok hok
  have hkeys := h.keys
  rw [hfiles, List.pairwise_append] at hkeys
  obtain ⟨-, hright, hcross⟩ := hkeys
  refine findFileIndex_eq_none.mpr fun other hmem ⟨hother, hsame⟩ => ?_
  rcases List.mem_append.mp hmem with hl | hr
  · exact hcross other hl file List.mem_cons_self ⟨hother.trans howner.symm, hsame.trans hname.symm⟩
  · exact (List.pairwise_cons.mp hright).1 other hr
      ⟨howner.trans hother.symm, hname.trans hsame.symm⟩

/-! ## What an owner reads -/

def ownFiles (owner : Str) (vfs : VirtualFileSystem) : List VirtualFile :=
  vfs.files.filter (·.owner = owner)

theorem listFiles_eq (h : ownFiles owner vfs = ownFiles owner vfs') :
    vfs.listFiles owner = vfs'.listFiles owner := by
  unfold listFiles
  rw [show vfs.files.filter (·.owner = owner) = vfs'.files.filter (·.owner = owner) from h]

theorem bind_findFileIndex (vfs : VirtualFileSystem) (owner name : Str) :
    ((vfs.findFileIndex owner name).bind fun index => vfs.files[index]?) =
      (ownFiles owner vfs).find? (·.name = name) := by
  rw [ownFiles, List.find?_filter, findFileIndex, List.find?_eq_bind_findIdx?_getElem?]
  simp only [Bool.decide_and, Bool.decide_eq_true]

def contentOf (vfs : VirtualFileSystem) (owner name : Str) : Option Str :=
  ((vfs.findFileIndex owner name).bind fun index => vfs.files[index]?).map (·.content)

theorem contentOf_eq (vfs : VirtualFileSystem) (owner name : Str) :
    vfs.contentOf owner name =
      (vfs.files.find? fun file => file.owner = owner ∧ file.name = name).map (·.content) := by
  rw [contentOf, List.find?_eq_bind_findIdx?_getElem?]
  rfl

theorem contentOf_writeFile (h : vfs.writeFile time owner name content = .ok (vfs', message)) :
    vfs'.contentOf owner name = some content := by
  rw [contentOf_eq]
  obtain ⟨-, ⟨l, file, r, -, hkey, hfirst, rfl⟩ | ⟨hnew, rfl⟩⟩ := writeFile_eq_ok h
  · have hnone : (l.find? fun file => file.owner = owner ∧ file.name = name) = none := by
      simpa using hfirst
    rw [List.find?_append, hnone, List.find?_cons_of_pos (by simpa using hkey)]
    rfl
  · have hnone : (vfs.files.find? fun file => file.owner = owner ∧ file.name = name) = none := by
      simpa using findFileIndex_eq_none.mp hnew
    rw [addFile, List.find?_append, hnone, List.find?_cons_of_pos (by simp [newFile])]
    rfl

theorem others_writeFile (h : vfs.writeFile time owner name content = .ok (vfs', message)) :
    (vfs'.files.filter fun file => ¬(file.owner = owner ∧ file.name = name)) =
      vfs.files.filter fun file => ¬(file.owner = owner ∧ file.name = name) := by
  obtain ⟨-, ⟨l, file, r, hfiles, hkey, -, rfl⟩ | ⟨-, rfl⟩⟩ := writeFile_eq_ok h
  · simp [hfiles, hkey]
  · simp [addFile, newFile]

theorem readFile_eq (h : ownFiles owner vfs = ownFiles owner vfs') (name : Str) :
    vfs.readFile owner name = vfs'.readFile owner name := by
  unfold readFile
  rw [bind_findFileIndex, bind_findFileIndex, h]

end VirtualFileSystem

end OSCoreSim
