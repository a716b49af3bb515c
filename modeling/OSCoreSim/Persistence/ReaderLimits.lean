import OSCoreSim.Persistence.SnapshotReader
/-!
# The limits of the snapshot reader

Whatever bytes a file consists of, what the reader accepts is within its limits, so that a snapshot
that has been loaded can be saved and loaded again.
-/

namespace OSCoreSim

open ByteStream

namespace SnapshotStore

/-! ## Fields -/

theorem within_string : Takes readString fun value _ => value.length ≤ readable.string := by
  refine Takes.bind canonical_uint32 fun length _ _ => .throw_if fun hle =>
    (takes_readBytes _ length.toNat).imp ?_
  rintro value _ ⟨rfl, hlength⟩
  have hmax : length.toNat ≤ 1048576 := Nat.not_lt.mp fun hlt => hle (UInt32.lt_iff_toNat_lt.mpr hlt)
  exact hlength.trans_le hmax

theorem within_list {α : Type} {read : BinaryReader α} {P : α → Prop} (tooMany : Str)
    (h : Takes read fun x _ => P x) :
    Takes (readList tooMany read) fun xs _ => xs.length ≤ readable.list ∧ ∀ x ∈ xs, P x := by
  refine Takes.bind canonical_uint32 fun count _ _ => .throw_if fun hle =>
    (h.readMany count.toNat).imp ?_
  rintro xs _ ⟨hlength, hxs⟩
  have hmax : count.toNat ≤ 1000000 := Nat.not_lt.mp fun hlt => hle (UInt32.lt_iff_toNat_lt.mpr hlt)
  exact ⟨hlength.trans_le hmax, hxs⟩

theorem within_pids (tooMany : Str) :
    Takes (readList tooMany readUint32) fun pids _ => pids.length ≤ readable.list :=
  (within_list (P := fun _ => True) tooMany (takes_uint32.imp fun _ _ _ => trivial)).imp
    fun _ _ h => h.1

/-! ## Records -/

theorem within_virtualFile : Takes readVirtualFile fun file _ => VirtualFileWithin readable file :=
  Takes.bind canonical_uint32 fun _ _ _ => Takes.bind within_string fun _ _ howner =>
  Takes.bind within_string fun _ _ hname => Takes.bind within_string fun _ _ hcontent =>
  Takes.bind canonical_uint64 fun _ _ _ => Takes.map canonical_uint64 fun _ _ _ =>
  ⟨howner, hname, hcontent⟩

theorem within_user : Takes readUser fun account _ => UserWithin readable account :=
  Takes.bind within_string fun _ _ husername => Takes.bind within_string fun _ _ hhash =>
  Takes.bind within_string fun _ _ hsalt => Takes.bind canonical_int32 fun _ _ _ =>
  Takes.map (canonical_enum _ (by decide)) fun _ _ _ => ⟨husername, hhash, hsalt⟩

theorem within_pcb : Takes readPcb fun pcb _ => PcbWithin readable pcb :=
  Takes.bind canonical_uint32 fun _ _ _ => Takes.bind canonical_uint32 fun _ _ _ =>
  Takes.bind within_string fun _ _ hname => Takes.bind within_string fun _ _ howner =>
  Takes.bind (canonical_enum _ (by decide)) fun _ _ _ =>
  Takes.bind canonical_int32 fun _ _ _ => Takes.bind canonical_int32 fun _ _ _ =>
  Takes.bind canonical_uint32 fun _ _ _ => Takes.bind canonical_uint32 fun _ _ _ =>
  Takes.bind canonical_uint32 fun _ _ _ => Takes.bind canonical_uint32 fun _ _ _ =>
  Takes.bind canonical_uint32 fun _ _ _ => Takes.bind canonical_uint32 fun _ _ _ =>
  Takes.bind canonical_bool fun _ _ _ => Takes.map (within_pids _) fun _ _ hchildren =>
  ⟨hname, howner, hchildren⟩

theorem within_memoryBlock : Takes readMemoryBlock fun block _ => MemoryBlockWithin readable block :=
  Takes.bind canonical_uint32 fun _ _ _ => Takes.bind canonical_uint32 fun _ _ _ =>
  Takes.bind (canonical_enum _ (by decide)) fun _ _ _ => Takes.bind canonical_uint32 fun _ _ _ =>
  Takes.bind within_string fun _ _ howner => Takes.map within_string fun _ _ htag => ⟨howner, htag⟩

/-! ## The whole file -/

theorem within_vfsSection (version : UInt32) : Takes (readVfsSection version) fun vfs _ =>
    vfs.2.length ≤ readable.list ∧ ∀ x ∈ vfs.2, VirtualFileWithin readable x := by
  unfold readVfsSection
  split
  · exact Takes.bind canonical_uint32 fun _ _ _ =>
      Takes.map (within_list _ within_virtualFile) fun _ _ hfiles => hfiles
  · exact .pure ⟨Nat.zero_le _, fun _ hmem => absurd hmem List.not_mem_nil⟩

theorem within_deserialize : Takes deserialize fun snapshot _ => SnapshotWithin readable snapshot :=
  Takes.bind (local_header.imp fun _ _ _ => trivial) fun (version : UInt32) _ (_ : True) =>
  Takes.bind (within_list _ within_user) fun _ _ husers =>
  Takes.bind canonical_uint32 fun _ _ _ =>
  Takes.bind (within_list _ within_pcb) fun _ _ hpcbs =>
  Takes.bind (within_pids _) fun _ _ h0 => Takes.bind (within_pids _) fun _ _ h1 =>
  Takes.bind (within_pids _) fun _ _ h2 => Takes.bind canonical_uint32 fun _ _ _ =>
  Takes.bind (canonical_enum _ (by decide)) fun _ _ _ =>
  Takes.bind (within_list _ within_memoryBlock) fun _ _ hblocks =>
  Takes.bind canonical_bool fun _ _ _ => Takes.bind within_string fun _ _ howner =>
  Takes.map (within_vfsSection version) fun _ _ hfiles =>
  ⟨husers, hpcbs, fun q => by fin_cases q <;> assumption, hblocks, howner, hfiles⟩

theorem within_of_load {store : SnapshotStore} {fs : FileSystem} {snapshot : KernelSnapshot}
    (h : store.load fs = .ok snapshot) : SnapshotWithin readable snapshot := by
  unfold load at h
  split at h
  · cases h
  next bytes _ =>
  split at h
  next loaded rest hread =>
    cases h
    obtain ⟨used, -, hwithin⟩ := within_deserialize bytes snapshot rest hread
    exact hwithin
  next => cases h

end SnapshotStore

end OSCoreSim
