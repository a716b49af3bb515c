import OSCoreSim.Kernel.FailedLoad
import OSCoreSim.Kernel.QueueRestore
import OSCoreSim.Kernel.SnapshotIdentity
import OSCoreSim.Persistence.ReaderLimits
/-!
# The normal form of a state file

An accepted file may list its records in any order, name stale queue entries and children, and
split its free memory.  The import puts all of this right, and what is saved behind it is a normal
form: it is accepted, it is loaded as it stands, and saving it again writes the same bytes.
-/

namespace OSCoreSim

open MemoryManager ProcessManager UserManager CommandDispatcher VirtualFileSystem SnapshotStore
open Std (ExtTreeMap)

theorem MemoryManager.mergeLoop_within {P : MemoryBlock → Prop}
    (hsize : ∀ block size, P block → P { block with size := size }) {last : MemoryBlock}
    {rest : List MemoryBlock} (hlast : P last) (hrest : ∀ block ∈ rest, P block) :
    (mergeLoop last rest).length ≤ rest.length + 1 ∧ ∀ block ∈ mergeLoop last rest, P block := by
  induction rest generalizing last with
  | nil => exact ⟨Nat.le_refl _, fun block hmem => List.mem_singleton.mp hmem ▸ hlast⟩
  | cons block rest ih =>
    obtain ⟨hblock, hrest⟩ := List.forall_mem_cons.mp hrest
    unfold mergeLoop
    split
    · obtain ⟨hlength, hall⟩ := ih (hsize last _ hlast) hrest
      exact ⟨hlength.trans (Nat.le_succ _), hall⟩
    · obtain ⟨hlength, hall⟩ := ih hblock hrest
      exact ⟨Nat.succ_le_succ hlength, List.forall_mem_cons.mpr ⟨hlast, hall⟩⟩

namespace Kernel

variable {s : KernelSnapshot} {k : Kernel}

/-! ## The second import -/

theorem reimport_processes (h : ValidSnapshot s) (k : Kernel) :
    importProcesses (k.restored s).exportSnapshot =
      ((importProcesses s).1, str "Ready queue validation passed.") := by
  have hcoherent := coherent_restored h k
  have htable : (importPcbs (k.restored s).exportSnapshot.pcbs).pcbTable =
      (importProcesses s).1.pcbTable := hcoherent.matched.keyed.import_exportPcbs
  have hnext : max (importProcesses s).1.nextPid 1 = (importProcesses s).1.nextPid :=
    max_one_of_pos hcoherent.numbered.next_pos
  have himport : ((importPcbs (k.restored s).exportSnapshot.pcbs).importNextPid
      (k.restored s).exportSnapshot.nextPid).importReadyQueues
        (k.restored s).exportSnapshot.readyQueues = (importProcesses s).1 := by
    show ({ nextPid := max (importProcesses s).1.nextPid 1
            pcbTable := (importPcbs (k.restored s).exportSnapshot.pcbs).pcbTable
            readyQueues := (importProcesses s).1.readyQueues } : ProcessManager) = _
    rw [htable, hnext]
  -- the children are rebuilt in increasing order, and the queues are repaired
  have hsorted : ∀ (pid : UInt32) (pcb : PCB), (importProcesses s).1.pcbTable[pid]? = some pcb →
      pcb.children.Pairwise (· < ·) := by
    intro pid pcb hget
    obtain ⟨old, -, -, rfl⟩ := (imported_getElem? h).mp hget
    exact pairwise_childPids _ _ _
  have hqueues : (importProcesses s).1.ValidQueues := by
    rw [importProcesses, validateReadyQueues_eq]
    exact validQueues_repaired _
  rw [importProcesses, himport, rebuildParentChildRelations_eq hsorted
    fun pid pcb hget => mem_children_iff hcoherent hget]
  exact hqueues.validateReadyQueues

def filesSorted (k : Kernel) : Kernel :=
  { k with vfs := { k.vfs with files := sortById k.vfs.files } }

/-- The second import changes nothing but the order of the files. -/
theorem reimport (h : ValidSnapshot s) (k importer : Kernel) :
    importer.restored (k.restored s).exportSnapshot =
      importer.withStateOf (k.restored s).filesSorted := by
  have hcoherent := coherent_restored h k
  have hnext : max (max s.nextFileId 1) 1 = max s.nextFileId 1 := by
    refine max_one_of_pos (Nat.pos_of_ne_zero fun hzero => ?_)
    have hbelow : max s.nextFileId 1 < 1 :=
      UInt32.lt_iff_toNat_lt.mpr (by rw [hzero]; exact Nat.one_pos)
    exact absurd (max_lt_iff.mp hbelow).2 (by decide)
  have hvfs : (importer.vfs.importNextFileId (k.restored s).exportSnapshot.nextFileId).importFiles
      (k.restored s).exportSnapshot.virtualFiles = (k.restored s).filesSorted.vfs := by
    show ({ nextFileId := max (max s.nextFileId 1) 1
            files := sortById s.virtualFiles } : VirtualFileSystem) = _
    rw [hnext]
    rfl
  rw [restored, importUsers_export hcoherent, reimport_processes h, snapshotMemory_export hcoherent,
    hvfs]
  rfl

theorem pairwise_sortById {files : List VirtualFile} (h : (files.map (·.fileId)).Nodup) :
    (sortById files).Pairwise fun a b => a.fileId < b.fileId := by
  have : Std.Total fun a b : VirtualFile => a.fileId ≤ b.fileId :=
    ⟨fun a b => UInt32.le_total a.fileId b.fileId⟩
  have : IsTrans VirtualFile fun a b => a.fileId ≤ b.fileId :=
    ⟨fun _ _ _ hab hbc => UInt32.le_trans hab hbc⟩
  have hsorted : (sortById files).Pairwise fun a b => a.fileId ≤ b.fileId :=
    List.pairwise_insertionSort _ _
  have hperm : (sortById files).Perm files := List.perm_insertionSort _ _
  have hdistinct : (sortById files).Pairwise fun a b => a.fileId ≠ b.fileId :=
    List.pairwise_map.mp ((hperm.map _).nodup_iff.mpr h)
  exact (hsorted.and hdistinct).imp fun hboth => UInt32.lt_of_le_of_ne hboth.1 hboth.2

theorem sortById_sortById {files : List VirtualFile} (h : (files.map (·.fileId)).Nodup) :
    sortById (sortById files) = sortById files :=
  List.Pairwise.insertionSort_eq ((pairwise_sortById h).imp UInt32.le_of_lt)

theorem export_reimport (h : ValidSnapshot s) (hids : (s.virtualFiles.map (·.fileId)).Nodup)
    (k importer : Kernel) :
    (importer.restored (k.restored s).exportSnapshot).exportSnapshot =
      (k.restored s).exportSnapshot := by
  rw [reimport h]
  unfold exportSnapshot withStateOf filesSorted exportFiles
  dsimp only
  rw [show sortById (sortById (k.restored s).vfs.files) = sortById (k.restored s).vfs.files from
    sortById_sortById hids]
  rfl

/-! ## Limits -/

theorem within_users (h : ValidSnapshot s) (hwithin : SnapshotWithin readable s) (k : Kernel) :
    (k.restored s).userManager.exportUsers.length ≤ readable.list ∧
      ∀ account ∈ (k.restored s).userManager.exportUsers, UserWithin readable account := by
  have haccounts := (coherent_restored h k).accounts
  have hsub : (k.restored s).userManager.exportUsers ⊆ s.users := fun account hmem =>
    ((KeyedTable.getElem?_foldl_insert_empty h.usernames).mp (haccounts.mem_exportUsers.mp hmem)).1
  have hlength := (haccounts.nodup_exportUsers.of_map _).length_le_of_subset hsub
  exact ⟨hlength.trans hwithin.users.1, fun account hmem => hwithin.users.2 account (hsub hmem)⟩

theorem within_pcbs (h : ValidSnapshot s) (hwithin : SnapshotWithin readable s) :
    (importProcesses s).1.exportPcbs.length ≤ readable.list ∧
      ∀ pcb ∈ (importProcesses s).1.exportPcbs, PcbWithin readable pcb := by
  have hkeyed := (matched_import h).keyed
  have hlisted : ∀ {pcb' : PCB}, pcb' ∈ (importProcesses s).1.exportPcbs → ∃ pcb ∈ s.pcbs, ∃ pid,
      pcb' = { pcb with children := childPids (importPcbs s.pcbs).pcbTable pid pcb.owner } := by
    intro pcb' hmem
    obtain ⟨pcb, hpcb, -, heq⟩ := (imported_getElem? h).mp (hkeyed.mem_exportPcbs.mp hmem)
    exact ⟨pcb, hpcb, _, heq⟩
  have hpids : (importProcesses s).1.exportPcbs.map (·.pid) ⊆ s.pcbs.map (·.pid) := by
    intro pid hmem
    obtain ⟨pcb', hexported, rfl⟩ := List.mem_map.mp hmem
    obtain ⟨pcb, hpcb, -, rfl⟩ := hlisted hexported
    exact List.mem_map.mpr ⟨pcb, hpcb, rfl⟩
  have hlength := hkeyed.nodup_exportPcbs.length_le_of_subset hpids
  simp only [List.length_map] at hlength
  refine ⟨hlength.trans hwithin.pcbs.1, fun pcb' hmem => ?_⟩
  obtain ⟨pcb, hpcb, pid, rfl⟩ := hlisted hmem
  obtain ⟨hname, howner, -⟩ := hwithin.pcbs.2 pcb hpcb
  refine ⟨hname, howner, ?_⟩
  -- a child is another listed process
  have hnodup : (childPids (importPcbs s.pcbs).pcbTable pid pcb.owner).Nodup :=
    (pairwise_childPids _ _ _).imp UInt32.ne_of_lt
  have hchildren : childPids (importPcbs s.pcbs).pcbTable pid pcb.owner ⊆ s.pcbs.map (·.pid) := by
    intro c hmem
    obtain ⟨child, hchild, -⟩ := mem_childPids.mp hmem
    obtain ⟨hin, rfl⟩ := (importPcbs_getElem? h.pids).mp hchild
    exact List.mem_map_of_mem hin
  have hcount := hnodup.length_le_of_subset hchildren
  rw [List.length_map] at hcount
  exact hcount.trans hwithin.pcbs.1

theorem within_blocks (hwithin : SnapshotWithin readable s) :
    (snapshotMemory s).blocks.length ≤ readable.list ∧
      ∀ block ∈ (snapshotMemory s).blocks, MemoryBlockWithin readable block := by
  have hperm := (sortBlocks_perm (sortBlocks s.memoryBlocks)).trans (sortBlocks_perm s.memoryBlocks)
  have hall : ∀ block ∈ sortBlocks (sortBlocks s.memoryBlocks), MemoryBlockWithin readable block :=
    fun block hmem => hwithin.memoryBlocks.2 block (hperm.subset hmem)
  have hlength : (sortBlocks (sortBlocks s.memoryBlocks)).length ≤ readable.list :=
    hperm.length_eq ▸ hwithin.memoryBlocks.1
  show (mergeSorted (sortBlocks (sortBlocks s.memoryBlocks))).length ≤ _ ∧
    ∀ block ∈ mergeSorted (sortBlocks (sortBlocks s.memoryBlocks)), _
  cases hblocks : sortBlocks (sortBlocks s.memoryBlocks) with
  | nil => exact ⟨Nat.zero_le _, fun _ hmem => absurd hmem List.not_mem_nil⟩
  | cons block rest =>
    rw [hblocks] at hall hlength
    obtain ⟨hfirst, hrest⟩ := List.forall_mem_cons.mp hall
    obtain ⟨hmerged, hkept⟩ := mergeLoop_within (P := MemoryBlockWithin readable)
      (fun _ _ hblock => hblock) hfirst hrest
    exact ⟨hmerged.trans hlength, hkept⟩

theorem within_restored (h : ValidSnapshot s) (hwithin : SnapshotWithin readable s) (k : Kernel) :
    SnapshotWithin readable (k.restored s).exportSnapshot where
  users := within_users h hwithin k
  pcbs := within_pcbs h hwithin
  readyQueues q :=
    ((nodup_readyQueues_import s q).length_le_of_subset fun _ hmem =>
      ((mem_readyQueues_import h).mp hmem).1).trans (hwithin.readyQueues q)
  memoryBlocks := within_blocks hwithin
  schedulerOwner := Nat.zero_le _
  virtualFiles := by
    have hperm : (k.restored s).exportSnapshot.virtualFiles.Perm s.virtualFiles :=
      List.perm_insertionSort _ _
    exact ⟨hperm.length_eq ▸ hwithin.virtualFiles.1, fun file hmem =>
      hwithin.virtualFiles.2 file (hperm.subset hmem)⟩

end Kernel

namespace World

open Kernel

variable {w : World} {load save load' save' : Event}

/-- A state file that can be loaded is saved in a normal form: it is loaded as it stands, with the
files in the order of their ids, and saved again byte for byte.  The ids differ, since `std::sort`
leaves the order of equal ones open. -/
theorem normal_form_of_load (hload : load.Named (str "load")) (hok : w.Succeeds load)
    (hids : ((w.step load).kernel.vfs.files.map (·.fileId)).Nodup)
    (hsave : save.Named (str "save")) (hsaved : (w.step load).Succeeds save)
    (hload' : load'.Named (str "load")) (hargs : ¬load'.HasArguments)
    (hsave' : save'.Named (str "save"))
    (hsaved' : (((w.step load).step save).step load').Succeeds save') :
    let loaded := (w.step load).kernel
    let path := loaded.snapshotStore.path
    ((w.step load).step save).Succeeds load' ∧
      (((w.step load).step save).step load').kernel = loaded.filesSorted ∧
      loaded.filesSorted.vfs.files.Pairwise (fun a b => a.fileId < b.fileId) ∧
      ((((w.step load).step save).step load').step save').disk[path]? =
        ((w.step load).step save).disk[path]? := by
  intro loaded path
  rcases load_cases (w := w) hload with ⟨hfail, -⟩ | ⟨-, s, hread, hvalid, hloaded⟩
  · exact absurd hok hfail
  have hwithin : SnapshotWithin readable loaded.exportSnapshot := by
    show SnapshotWithin readable (w.step load).kernel.exportSnapshot
    rw [hloaded]
    exact within_restored hvalid (within_of_load hread) _
  obtain ⟨bytes, -, hfile, -⟩ := codec_round_trip hwithin
  -- the first round
  obtain ⟨⟨io, hwritten⟩, hsame, -⟩ := step_save hsave hsaved
  have hvalid' : ValidSnapshot loaded.exportSnapshot := by
    show ValidSnapshot (w.step load).kernel.exportSnapshot
    rw [hloaded]
    exact valid_export (coherent_restored hvalid _)
  have hread' : ((w.step load).step save).kernel.snapshotStore.load ((w.step load).step save).disk =
      .ok loaded.exportSnapshot := by
    rw [hsame]
    exact load_of_save hwithin hwritten
  obtain ⟨hok', hkernel⟩ := load_valid hload' hargs hread' hvalid'
  have hsorted : (((w.step load).step save).step load').kernel = loaded.filesSorted := by
    show _ = (w.step load).kernel.filesSorted
    rw [hkernel, hsame, show loaded = w.kernel.halted.restored s from hloaded, reimport hvalid, hloaded]
    rfl
  -- the second round
  obtain ⟨⟨io', hwritten'⟩, -, -⟩ := step_save hsave' hsaved'
  have hexport : (((w.step load).step save).step load').kernel.exportSnapshot =
      loaded.exportSnapshot := by
    rw [hkernel, hsame, show loaded = w.kernel.halted.restored s from hloaded]
    exact export_reimport hvalid (by rwa [hloaded] at hids) _ _
  refine ⟨hok', hsorted, pairwise_sortById hids, ?_⟩
  have hstore : (((w.step load).step save).step load').kernel.snapshotStore = loaded.snapshotStore := by
    rw [hsorted]
    rfl
  rw [hstore, hexport] at hwritten'
  exact (hfile _ _ _ _ hwritten').trans (hfile _ _ _ _ hwritten).symm

/-- Records in the wrong order and stale queue entries. -/
def jumbled : KernelSnapshot :=
  { familyOf 0 5 3 "a" with
    pcbs := (familyOf 0 5 3 "a").pcbs.reverse
    readyQueues := fun q => if q = 0 then [7, 1, 1] else [2]
    memoryBlocks := (familyOf 0 5 3 "a").memoryBlocks.reverse
    nextFileId := 3
    virtualFiles := [newFile 2 (str "a") (str "g") (str "y") 0, newFile 1 (str "a") (str "f") (str "x") 0] }

theorem normal_form_of_load_jumbled :
    let w : World :=
      { kernel := {}
        disk := (∅ : FileSystem).insert (str "data/os_state.bin") ((serialize jumbled).run.run []).2 }
    let loaded := (w.step (console "load")).kernel
    let path := loaded.snapshotStore.path
    ((w.step (console "load")).step (console "save")).Succeeds (console "load") ∧
      (((w.step (console "load")).step (console "save")).step (console "load")).kernel =
        loaded.filesSorted ∧
      loaded.filesSorted.vfs.files.Pairwise (fun a b => a.fileId < b.fileId) ∧
      ((((w.step (console "load")).step (console "save")).step (console "load")).step
        (console "save")).disk[path]? =
          ((w.step (console "load")).step (console "save")).disk[path]? := by
  intro w
  have hload : (console "load").Named (str "load") := by decide
  have hsave : (console "save").Named (str "save") := by decide
  have hok : w.Succeeds (console "load") := by decide +kernel
  exact normal_form_of_load hload hok (by decide +kernel) hsave (by decide +kernel) hload
    (not_hasArguments_of_load hload hok) hsave (by decide +kernel)

end World

end OSCoreSim
