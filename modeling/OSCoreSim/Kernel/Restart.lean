import OSCoreSim.Kernel.FailedLoad
import OSCoreSim.Kernel.Routing
import OSCoreSim.Kernel.SnapshotIdentity
import OSCoreSim.Persistence.AtomicReplace
/-!
# Crashes and restarts

The process can end at any time, also in the middle of a `save`, and a new one starts on the files
that are left.  What it finds is what the last completed `save` has written.
-/

namespace OSCoreSim

open CommandDispatcher SnapshotStore VirtualFileSystem

namespace SnapshotStore

variable {store : SnapshotStore} {io : SaveIo} {fs fs' : FileSystem} {snapshot : KernelSnapshot}

theorem load_of_complete {content : Str} (h : SnapshotWithin readable snapshot)
    (hfile : fs[store.path]? = some content) (hcomplete : Complete snapshot content) :
    store.load fs = .ok snapshot := by
  obtain ⟨bytes, hrun, -, hread⟩ := codec_round_trip h
  cases hrun.symm.trans hcomplete
  have hdecode : deserialize.run content = .ok (snapshot, []) := by simpa using hread []
  simp only [load, hfile, hdecode]

theorem load_congr (h : fs'[store.path]? = fs[store.path]?) : store.load fs' = store.load fs := by
  unfold load
  rw [h]

/-- At every moment of a `save` the state file is the old one, missing, or the complete new one. -/
theorem file_of_saveStates (htmp : tempPathFor store.path ≠ store.path)
    (hmem : fs' ∈ saveStates store io fs snapshot) :
    fs'[store.path]? = fs[store.path]? ∨ fs'[store.path]? = none ∨
      ∃ content, fs'[store.path]? = some content ∧ Complete snapshot content := by
  have hwriting : ∀ bs, (fs.insert (tempPathFor store.path) bs)[store.path]? = fs[store.path]? :=
    fun bs => by rw [KeyedTable.getElem?_insert, if_neg htmp]
  rcases mem_saveStates.mp hmem with rfl | ⟨-, hrest⟩
  · exact .inl rfl
  rcases hrest with ⟨bs, -, rfl⟩ | ⟨hflushed, hrest⟩
  · exact .inl (hwriting bs)
  rcases hrest with rfl | hrename
  · unfold removed removeFile
    split
    · exact .inr (.inl (by rw [KeyedTable.getElem?_erase, if_pos rfl]))
    · exact .inl (hwriting _)
  · obtain ⟨content, hsource, htarget⟩ := renameFile_eq_ok hrename
    have hwritten : some (writeStream io snapshot).1 = some content :=
      Std.ExtTreeMap.getElem?_insert_self.symm.trans (getElem?_of_removeFile hsource)
    exact .inr (.inr ⟨_, htarget.trans hwritten.symm, writeStream_ok hflushed.1⟩)

theorem file_of_failed_save {what : Str} (htmp : tempPathFor store.path ≠ store.path)
    (h : store.save io fs snapshot = (fs', .error what)) :
    fs'[store.path]? = fs[store.path]? ∨ fs'[store.path]? = none := by
  have hwriting : ∀ bs, (fs.insert (tempPathFor store.path) bs)[store.path]? = fs[store.path]? :=
    fun bs => by rw [KeyedTable.getElem?_insert, if_neg htmp]
  unfold save at h
  dsimp only at h
  split at h
  · exact .inl (congrArg (·[store.path]?) (Prod.mk.inj h).1.symm)
  split at h
  · exact .inl (congrArg (·[store.path]?) (Prod.mk.inj h).1.symm)
  split at h
  · rw [← (Prod.mk.inj h).1]
    exact .inl (hwriting _)
  split at h
  · rw [← (Prod.mk.inj h).1]
    exact .inl (hwriting _)
  split at h
  · rw [← (Prod.mk.inj h).1]
    unfold removeFile
    split
    · exact .inr (by rw [KeyedTable.getElem?_erase, if_pos rfl])
    · exact .inl (hwriting _)
  · cases (Prod.mk.inj h).2

end SnapshotStore

namespace Kernel

variable {k : Kernel} {store : SnapshotStore} {left : FileSystem} {n : ℕ}

theorem Sound.status (h : Sound n k) (status : Str) : Sound n { k with autoLoadStatus := status } where
  regular := ⟨h.regular.core, h.regular.counts⟩
  coherent := ⟨h.coherent.accounts, h.coherent.matched, h.coherent.numbered, h.coherent.lineage,
    h.coherent.registered, h.coherent.attended⟩
  native := h.native

theorem snapshotStore_start (k : Kernel) (fs : FileSystem) :
    (k.start fs).snapshotStore = k.snapshotStore := by
  have himport : ∀ (importer : Kernel) (s : KernelSnapshot),
      (importer.importSnapshot s).1.snapshotStore = importer.snapshotStore := by
    intro importer s
    unfold importSnapshot
    split
    · rfl
    · dsimp only
      split <;> rfl
  unfold start
  dsimp only
  split
  · split
    · rfl
    next s hload =>
      split
      next imported message hout => exact (congrArg (·.1.snapshotStore) hout).symm.trans (himport _ s)
      next imported message hout => exact (congrArg (·.1.snapshotStore) hout).symm.trans (himport _ s)
  · rfl

theorem start_valid {s : KernelSnapshot} (hload : store.load left = .ok s) (hvalid : ValidSnapshot s) :
    Kernel.start { snapshotStore := store } left =
      { Kernel.restored { snapshotStore := store } s with autoLoadStatus := str "success" } := by
  have hexists : store.fileExists left = true := by
    obtain ⟨bytes, hfile, -⟩ := load_bytes hload
    rw [fileExists, Std.ExtTreeMap.contains_eq_isSome_getElem?, hfile]
    rfl
  unfold start
  simp only [hexists, if_true, hload, importSnapshot_valid hvalid]
  rfl

theorem start_without_file (hnone : left[store.path]? = none) :
    (Kernel.start { snapshotStore := store } left).Clean := by
  refine clean_start _ left fun s hload => ?_
  obtain ⟨bytes, hfile, -⟩ := load_bytes hload
  cases hnone.symm.trans hfile

end Kernel

/-- What happens to the machine: an event of a run, or the end of the process and the start of a
new one on the files that are left. -/
inductive Incident where
  | event (event : Event)
  | restart (left : FileSystem)

namespace World

open Kernel

variable {w : World} {incident : Incident} {incidents : List Incident} {n m : ℕ}

def Saves (w : World) : Incident → Prop
  | .event event => event.Named (str "save") ∧ w.Succeeds event
  | .restart left => left[w.kernel.snapshotStore.path]? ≠ w.disk[w.kernel.snapshotStore.path]?

instance (w : World) (incident : Incident) : Decidable (w.Saves incident) :=
  match incident with
  | .event event => inferInstanceAs (Decidable (event.Named (str "save") ∧ w.Succeeds event))
  | .restart left =>
    inferInstanceAs (Decidable (left[w.kernel.snapshotStore.path]? ≠ w.disk[w.kernel.snapshotStore.path]?))

def happen (w : World) (incident : Incident) : World :=
  match incident with
  | .event event => w.step event
  | .restart left =>
    { kernel := Kernel.start { snapshotStore := w.kernel.snapshotStore } left
      disk := left
      saved := if w.Saves (.restart left) then w.kernel.exportSnapshot :: w.saved else w.saved }

/-- A process leaves its files as they are at some moment of a `save`, which may be the first.  The
state file is not lost between the removal of the old one and the renaming of the new one, and what
is saved can be read. -/
structure Safe (w : World) (incident : Incident) : Prop where
  moment : ∀ left, incident = .restart left →
    ∃ io, left ∈ saveStates w.kernel.snapshotStore io w.disk w.kernel.exportSnapshot
  kept : w.disk[w.kernel.snapshotStore.path]? ≠ none →
    (w.happen incident).disk[w.kernel.snapshotStore.path]? ≠ none
  readable : w.Saves incident → SnapshotWithin readable w.kernel.exportSnapshot

/-- The state file holds the last snapshot that was saved. -/
structure Durable (store : SnapshotStore) (w : World) : Prop where
  store_eq : w.kernel.snapshotStore = store
  empty : w.saved = [] → w.disk[store.path]? = none
  full : ∀ s rest, w.saved = s :: rest → store.load w.disk = .ok s

variable {store : SnapshotStore}

/-! ## The state file -/

theorem snapshotStore_step (w : World) (event : Event) :
    (w.step event).kernel.snapshotStore = w.kernel.snapshotStore := by
  by_cases hload : event.Named (str "load")
  · rcases load_cases (w := w) hload with ⟨-, heq | heq⟩ | ⟨-, s, -, -, heq⟩ <;> rw [heq]
    · rfl
    · rfl
  · refine step_keeps (P := fun k => k.snapshotStore = w.kernel.snapshotStore) hload
      (fun _ hc => ?_) (tick_keeps (P := fun k => k.snapshotStore = w.kernel.snapshotStore) rfl
        fun _ _ => rfl)
    cases hc <;> rfl

theorem saved_event (w : World) (event : Event) : (w.step event).saved =
    if w.Saves (.event event) then w.kernel.exportSnapshot :: w.saved else w.saved := by
  cases event with
  | request env request => rfl
  | tick =>
    rw [if_neg]
    · rfl
    · rintro ⟨⟨command, hcommand, -⟩, -⟩
      cases hcommand

theorem file_of_event {event : Event}
    (htmp : tempPathFor w.kernel.snapshotStore.path ≠ w.kernel.snapshotStore.path)
    (hsaves : ¬w.Saves (.event event)) :
    (w.step event).disk[w.kernel.snapshotStore.path]? = w.disk[w.kernel.snapshotStore.path]? ∨
      (w.step event).disk[w.kernel.snapshotStore.path]? = none := by
  cases event with
  | tick => exact .inl rfl
  | request env request =>
    show (w.kernel.executeRequest env w.disk request).2.1[_]? = _ ∨
      (w.kernel.executeRequest env w.disk request).2.1[_]? = none
    by_cases hname : (parse request.rawLine).name = str "save"
    · have hfail : (w.kernel.executeRequest env w.disk request).2.2.success ≠ true := fun hok =>
        hsaves ⟨⟨_, rfl, hname⟩, (succeeds_request w env request).mpr hok⟩
      have hpersist := isPersistenceCommand_save hname
      by_cases hargs : (parse request.rawLine).arguments = []
      · rw [executeRequest_persistence w.kernel env w.disk request hpersist] at hfail ⊢
        simp only [handlePersistenceCommand, hargs, hname, handleSave, ne_eq, not_true_eq_false,
          if_false, if_true] at hfail ⊢
        cases hsave : w.kernel.snapshotStore.save env.saveIo w.disk w.kernel.exportSnapshot with
        | mk fs result =>
          cases result with
          | error what =>
            exact file_of_failed_save htmp hsave
          | ok u =>
            rw [hsave] at hfail
            exact absurd rfl hfail
      · rw [executeRequest_usage w.kernel env w.disk request hpersist hargs]
        exact .inl rfl
    · rw [executeRequest_disk hname]
      exact .inl rfl

theorem Safe.file (h : w.Safe incident) (hsaves : ¬w.Saves incident)
    (htmp : tempPathFor w.kernel.snapshotStore.path ≠ w.kernel.snapshotStore.path) :
    (w.happen incident).disk[w.kernel.snapshotStore.path]? =
      w.disk[w.kernel.snapshotStore.path]? := by
  cases incident with
  | restart left => exact not_not.mp hsaves
  | event event =>
    rcases file_of_event htmp hsaves with hsame | hnone
    · exact hsame
    · by_cases hold : w.disk[w.kernel.snapshotStore.path]? = none
      · exact hnone.trans hold.symm
      · exact absurd hnone (h.kept hold)

theorem saved_happen (w : World) (incident : Incident) : (w.happen incident).saved =
    if w.Saves incident then w.kernel.exportSnapshot :: w.saved else w.saved := by
  cases incident with
  | restart left => rfl
  | event event => exact saved_event w event

/-- What is saved stands in the state file. -/
theorem Safe.load (h : w.Safe incident) (hsaves : w.Saves incident)
    (htmp : tempPathFor w.kernel.snapshotStore.path ≠ w.kernel.snapshotStore.path) :
    w.kernel.snapshotStore.load (w.happen incident).disk = .ok w.kernel.exportSnapshot := by
  cases incident with
  | event event =>
    obtain ⟨⟨io, hwritten⟩, -, -⟩ := step_save hsaves.1 hsaves.2
    exact load_of_save (h.readable hsaves) hwritten
  | restart left =>
    obtain ⟨io, hmoment⟩ := h.moment left rfl
    rcases file_of_saveStates htmp hmoment with hsame | hnone | ⟨content, hfile, hcomplete⟩
    · exact absurd hsame hsaves
    · have hold : w.disk[w.kernel.snapshotStore.path]? ≠ none := fun hold =>
        hsaves (hnone.trans hold.symm)
      exact absurd hnone (h.kept hold)
    · exact load_of_complete (h.readable hsaves) hfile hcomplete

theorem snapshotStore_happen (w : World) (incident : Incident) :
    (w.happen incident).kernel.snapshotStore = w.kernel.snapshotStore := by
  cases incident with
  | event event => exact snapshotStore_step w event
  | restart left => exact snapshotStore_start _ left

theorem durable_happen (h : Durable store w) (hok : w.Safe incident)
    (htmp : tempPathFor store.path ≠ store.path) : Durable store (w.happen incident) := by
  obtain ⟨rfl, hempty, hfull⟩ := h
  refine ⟨snapshotStore_happen w incident, fun hnil => ?_, fun s rest hcons => ?_⟩
  · rw [saved_happen] at hnil
    split at hnil
    next => cases hnil
    next hsaves => exact (hok.file hsaves htmp).trans (hempty hnil)
  · rw [saved_happen] at hcons
    split at hcons
    next hsaves =>
      cases hcons
      exact hok.load hsaves htmp
    next hsaves => exact (load_congr (hok.file hsaves htmp)).trans (hfull s rest hcons)

/-! ## The new kernel -/

def charged (cost : World → Event → ℕ) (w : World) : Incident → ℕ
  | .event event => cost w event
  | .restart _ => 0

theorem Durable.loadsSaved (h : Durable store w) (event : Event) : w.LoadsSaved event := by
  obtain ⟨rfl, hempty, hfull⟩ := h
  intro _ s hload
  cases hsaved : w.saved with
  | nil =>
    obtain ⟨bytes, hfile, -⟩ := load_bytes hload
    cases (hempty hsaved).symm.trans hfile
  | cons last rest =>
    cases (hfull last rest hsaved).symm.trans hload
    exact List.mem_cons_self

theorem mem_saved_happen {s : KernelSnapshot} (hmem : s ∈ (w.happen incident).saved) :
    s ∈ w.saved ∨ s = w.kernel.exportSnapshot := by
  rw [saved_happen] at hmem
  split at hmem
  · exact (List.mem_cons.mp hmem).symm
  · exact .inl hmem

/-- The new kernel is clean, or it is the one that was saved last. -/
theorem kernel_restart {left : FileSystem} (hdurable : Durable store (w.happen (.restart left)))
    (hvalid : ∀ s ∈ (w.happen (.restart left)).saved, ValidSnapshot s) :
    (w.happen (.restart left)).kernel.Clean ∨
      ∃ s ∈ (w.happen (.restart left)).saved, (w.happen (.restart left)).kernel =
        { Kernel.restored { snapshotStore := store } s with autoLoadStatus := str "success" } := by
  obtain ⟨hstore, hempty, hfull⟩ := hdurable
  have hkernel : (w.happen (.restart left)).kernel = Kernel.start { snapshotStore := store } left := by
    rw [← hstore, snapshotStore_happen]
    rfl
  rw [hkernel]
  cases hsaved : (w.happen (.restart left)).saved with
  | nil => exact .inl (start_without_file (hempty hsaved))
  | cons s rest =>
    have hmem : s ∈ (w.happen (.restart left)).saved := hsaved ▸ List.mem_cons_self
    exact .inr ⟨s, List.mem_cons_self, start_valid (hfull s rest hsaved) (hvalid s hmem)⟩

theorem restorable_happen (h : Restorable n w) (hdurable : Durable store w) (hok : w.Safe incident)
    (htmp : tempPathFor store.path ≠ store.path)
    (hroom : n + charged creations w incident < 2 ^ 32 - 1) :
    Restorable (n + charged creations w incident) (w.happen incident) := by
  cases incident with
  | event event => exact restorable_step h (hdurable.loadsSaved event) hroom
  | restart left =>
    have hsaved : ∀ s ∈ (w.happen (.restart left)).saved, ∃ k, Sound n k ∧ s = k.exportSnapshot := by
      intro s hmem
      rcases mem_saved_happen hmem with hold | rfl
      · exact h.saved s hold
      · exact ⟨w.kernel, h.sound, rfl⟩
    refine ⟨?_, hsaved⟩
    rcases kernel_restart (durable_happen hdurable hok htmp) (fun s hmem => by
      obtain ⟨k, hk, rfl⟩ := hsaved s hmem
      exact valid_export hk.coherent) with hclean | ⟨s, hmem, heq⟩
    · exact hclean.sound.mono (Nat.zero_le n)
    · obtain ⟨k, hk, rfl⟩ := hsaved s hmem
      rw [heq]
      exact (sound_restored hk _).status _

theorem filesInOrder_happen (h : FilesInOrder m w) (hdurable : Durable store w)
    (hvalid : ∀ s ∈ (w.happen incident).saved, ValidSnapshot s) (hok : w.Safe incident)
    (htmp : tempPathFor store.path ≠ store.path)
    (hroom : m + charged fileCreations w incident < 2 ^ 32 - 1) :
    FilesInOrder (m + charged fileCreations w incident) (w.happen incident) := by
  cases incident with
  | event event => exact filesInOrder_step h (hdurable.loadsSaved event) hroom
  | restart left =>
    have hsaved : ∀ s ∈ (w.happen (.restart left)).saved, ∃ vfs, Ordered m vfs ∧
        s.nextFileId = vfs.nextFileId ∧ s.virtualFiles = vfs.exportFiles := by
      intro s hmem
      rcases mem_saved_happen hmem with hold | rfl
      · exact h.saved s hold
      · exact ⟨w.kernel.vfs, h.files, rfl, rfl⟩
    refine ⟨?_, hsaved⟩
    rcases kernel_restart (durable_happen hdurable hok htmp) hvalid with hclean | ⟨s, hmem, heq⟩
    · rw [hclean.vfs]
      exact ordered_empty.mono (Nat.zero_le _)
    · obtain ⟨vfs, hvfs, hnext, hfiles⟩ := hsaved s hmem
      rw [heq]
      show Ordered m ((VirtualFileSystem.importNextFileId {} s.nextFileId).importFiles s.virtualFiles)
      rw [hnext, hfiles, hvfs.import_exportFiles]
      exact hvfs

/-! ## Runs with restarts -/

structure Ready (store : SnapshotStore) (w : World) (incident : Incident) : Prop where
  safe : w.Safe incident
  durable : Durable store w
  valid : ∀ s ∈ (w.happen incident).saved, ValidSnapshot s

structure Kept (store : SnapshotStore) (n m : ℕ) (w : World) : Prop where
  durable : Durable store w
  restorable : Restorable n w
  files : FilesInOrder m w

theorem kept_run (hclean : w.kernel.Clean) (hnew : w.saved = [])
    (hnone : w.disk[w.kernel.snapshotStore.path]? = none)
    (htmp : tempPathFor w.kernel.snapshotStore.path ≠ w.kernel.snapshotStore.path)
    (hsafe : Runs.Permitted happen Safe w incidents)
    (hprocesses : Runs.total happen (charged creations) w incidents < 2 ^ 32 - 1)
    (hfiles : Runs.total happen (charged fileCreations) w incidents < 2 ^ 32 - 1) :
    ∃ n m, Kept w.kernel.snapshotStore n m (Runs.run happen w incidents) := by
  generalize hstore : w.kernel.snapshotStore = store at hnone htmp
  have hinit : Durable store w := ⟨hstore, fun _ => hnone, fun s rest hcons => by
    rw [hnew] at hcons
    cases hcons⟩
  have hrestorable : Restorable 0 w := ⟨hclean.sound, by simp [hnew]⟩
  have hordered : FilesInOrder 0 w := ⟨by rw [hclean.vfs]; exact ordered_empty, by simp [hnew]⟩
  have hdurable : Runs.Permitted happen (fun s i => Safe s i ∧ Durable store s) w incidents :=
    Runs.permitted_of_invariant' (P := Durable store) (fun _ _ h hok => durable_happen h hok htmp)
      (fun _ _ h hok => ⟨hok, h⟩) hinit hsafe
  have hstep : ∀ n s i, Restorable n s → Safe s i ∧ Durable store s →
      n + charged creations s i < 2 ^ 32 - 1 → Restorable (n + charged creations s i) (s.happen i) :=
    fun _ _ _ h hok hroom => restorable_happen h hok.2 hok.1 htmp hroom
  have hready : Runs.Permitted happen (Ready store) w incidents := by
    refine Runs.permitted_of_counted (P := Restorable) hstep (fun n s i h hok hroom => ?_) hrestorable
      hdurable (by rwa [Nat.zero_add])
    refine ⟨hok.1, hok.2, fun snapshot hmem => ?_⟩
    obtain ⟨k, hk, rfl⟩ := (hstep n s i h hok hroom).saved snapshot hmem
    exact valid_export hk.coherent
  refine ⟨_, _, ?_, Runs.run_invariant hstep hrestorable hdurable (by rwa [Nat.zero_add]),
    Runs.run_invariant (P := FilesInOrder) (fun _ _ _ h hok hroom =>
      filesInOrder_happen h hok.durable hok.valid hok.safe htmp hroom) hordered hready
      (by rwa [Nat.zero_add])⟩
  exact Runs.run_invariant' (fun _ _ h hok => durable_happen h hok htmp) hinit hsafe

theorem saved_run (h : Runs.Permitted happen (fun s i => ¬s.Saves i) w incidents) :
    (Runs.run happen w incidents).saved = w.saved := by
  induction incidents generalizing w with
  | nil => rfl
  | cons incident incidents ih =>
    rw [Runs.run_cons, ih h.2, saved_happen, if_neg h.1]

/-- Whatever crashes and restarts there were, a new kernel starts with what the last completed `save`
has saved, and so a `load` restores it: the accounts, processes, queues, memory and files of that
moment, without a session and with the scheduler stopped. -/
theorem restart_of_run (hclean : w.kernel.Clean) (hnew : w.saved = [])
    (hnone : w.disk[w.kernel.snapshotStore.path]? = none)
    (htmp : tempPathFor w.kernel.snapshotStore.path ≠ w.kernel.snapshotStore.path)
    {before after : List Incident}
    (hsafe : Runs.Permitted happen Safe w (before ++ incident :: after))
    (hprocesses : Runs.total happen (charged creations) w (before ++ incident :: after) < 2 ^ 32 - 1)
    (hfiles : Runs.total happen (charged fileCreations) w (before ++ incident :: after) < 2 ^ 32 - 1)
    (hsaves : (Runs.run happen w before).Saves incident)
    (hlast : Runs.Permitted happen (fun s i => ¬s.Saves i)
      ((Runs.run happen w before).happen incident) after) :
    let k := (Runs.run happen w before).kernel
    let s := Runs.run happen w (before ++ incident :: after)
    (s.happen (.restart s.disk)).kernel =
        { Kernel.withStateOf { snapshotStore := w.kernel.snapshotStore } k with
          autoLoadStatus := str "success" } ∧
      ∀ event, event.Named (str "load") → ¬event.HasArguments →
        s.Succeeds event ∧ (s.step event).kernel = s.kernel.withStateOf k := by
  intro k s
  have hbefore := Runs.permitted_append.mp hsafe
  rw [Runs.total_append] at hprocesses hfiles
  obtain ⟨n, m, -, hrestorable, hordered⟩ := kept_run hclean hnew hnone htmp hbefore.1
    (by omega) (by omega)
  obtain ⟨-, -, hdurable, -, -⟩ := kept_run hclean hnew hnone htmp hsafe
    (by rwa [Runs.total_append]) (by rwa [Runs.total_append])
  have hsound : Sound n k := hrestorable.sound
  have hvfs : Ordered m k.vfs := hordered.files
  have hsaved : s.saved = k.exportSnapshot :: (Runs.run happen w before).saved := by
    show (Runs.run happen w (before ++ incident :: after)).saved = _
    rw [Runs.run_append, Runs.run_cons, saved_run hlast, saved_happen, if_pos hsaves]
  have hload : w.kernel.snapshotStore.load s.disk = .ok k.exportSnapshot := hdurable.full _ _ hsaved
  have hstore : s.kernel.snapshotStore = w.kernel.snapshotStore := hdurable.store_eq
  constructor
  · show Kernel.start { snapshotStore := s.kernel.snapshotStore } s.disk = _
    rw [hstore, start_valid hload (valid_export hsound.coherent), restored_export hsound hvfs]
  · intro event hnamed hargs
    obtain ⟨hok, hkernel⟩ := load_valid hnamed hargs (hstore ▸ hload) (valid_export hsound.coherent)
    exact ⟨hok, by rw [hkernel, restored_export hsound hvfs]; rfl⟩

/-- A file is saved and removed, and the process dies while it writes the next state file. -/
theorem restart_of_run_file :
    let w : World := { kernel := Kernel.start {} ∅ }
    let before := [console "register a pw", console "login a pw", console "write_file f x"].map
      Incident.event
    let removed := ((Runs.run happen w before).happen (.event (console "save"))).happen
      (.event (console "rm_file f"))
    let left := removed.disk.insert (str "data/os_state.tmp")
      ((writeStream {} removed.kernel.exportSnapshot).1.take 40)
    let s := Runs.run happen w (before ++ .event (console "save") ::
      [.event (console "rm_file f"), .restart left])
    (s.happen (.restart s.disk)).kernel =
        { Kernel.withStateOf { snapshotStore := w.kernel.snapshotStore }
            (Runs.run happen w before).kernel with autoLoadStatus := str "success" } ∧
      ∀ event, event.Named (str "load") → ¬event.HasArguments → s.Succeeds event ∧
        (s.step event).kernel = s.kernel.withStateOf (Runs.run happen w before).kernel := by
  intro w before removed left s
  have hevent : ∀ {v : World} {event : Event}, ¬v.Saves (.event event) →
      (v.disk[v.kernel.snapshotStore.path]? ≠ none →
        (v.step event).disk[v.kernel.snapshotStore.path]? ≠ none) → v.Safe (.event event) :=
    fun hsaves hkept => ⟨fun _ heq => Incident.noConfusion heq, hkept, fun h => absurd h hsaves⟩
  have hsave : (Runs.run happen w before).Safe (.event (console "save")) :=
    ⟨fun _ heq => Incident.noConfusion heq, by decide +kernel, fun _ =>
      ⟨by decide +kernel, by decide +kernel, by decide +kernel, by decide +kernel,
        by decide +kernel, by decide +kernel⟩⟩
  have hpath : tempPathFor removed.kernel.snapshotStore.path = str "data/os_state.tmp" := by
    decide +kernel
  have hcrash : removed.Safe (.restart left) := by
    refine Safe.mk (fun other heq => ?_) (by decide +kernel) (fun h => absurd h (by decide +kernel))
    rw [← Incident.restart.inj heq]
    refine ⟨{}, mem_saveStates.mpr (.inr ⟨⟨.inr rfl, rfl⟩, .inl ⟨_, List.take_prefix 40 _, ?_⟩⟩)⟩
    rw [hpath]
  have hsafe : Runs.Permitted happen Safe w (before ++ .event (console "save") ::
      [.event (console "rm_file f"), .restart left]) := by
    refine Runs.permitted_append.mpr ⟨⟨hevent (by decide +kernel) (by decide +kernel),
      hevent (by decide +kernel) (by decide +kernel),
      hevent (by decide +kernel) (by decide +kernel), trivial⟩, hsave, ?_, hcrash, trivial⟩
    exact hevent (by decide +kernel) (by decide +kernel)
  exact restart_of_run (clean_start {} ∅ fun _ h => by cases h) rfl (by decide +kernel)
    (by decide +kernel) hsafe (by decide +kernel) (by decide +kernel) (by decide +kernel)
    ⟨by decide +kernel, by decide +kernel, trivial⟩

end World

end OSCoreSim
