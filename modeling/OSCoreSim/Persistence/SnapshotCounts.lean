import OSCoreSim.Auth.Accounts
import OSCoreSim.Persistence.SnapshotCodec
/-!
# Saving more than can be loaded

A successful save means that every string fits its length field.  The length of a list is
written modulo `2 ^ 32`, so that a longer list is read back in part, and what follows the
part is read as the next section.
-/

namespace OSCoreSim

open ByteStream
open UserManager (Printable)

namespace SnapshotStore

/-! ## Strings fit after a successful save -/

theorem writes_uint32 (value : UInt32) : Writes (writeUint32 value) True := writes_writeBytes _

theorem writes_uint64 (value : UInt64) : Writes (writeUint64 value) True := writes_writeBytes _

theorem writes_string (value : Str) :
    Writes (writeString value) (value.length ≤ writable.string) := by
  unfold writeString
  split
  · exact (writes_throw _).imp False.elim
  next hfits => exact ((writes_uint32 _).bind (writes_writeBytes _)).imp fun _ => Nat.not_lt.mp hfits

theorem writes_list {α : Type} {write : α → BinaryWriter} {fits : α → Prop} (xs : List α)
    (h : ∀ x ∈ xs, Writes (write x) (fits x)) : Writes (writeList write xs) (∀ x ∈ xs, fits x) :=
  ((writes_uint32 _).bind (Writes.forM xs h)).imp And.right

theorem writes_user (account : UserAccount) :
    Writes (writeUser account) (UserWithin writable account) := by
  refine ((writes_string _).bind <| (writes_string _).bind <| (writes_string _).bind <|
    (writes_uint32 _).bind (writes_uint32 _)).imp ?_
  rintro ⟨husername, hhash, hsalt, -⟩
  exact ⟨husername, hhash, hsalt⟩

theorem writes_pcb (pcb : PCB) : Writes (writePcb pcb)
    (pcb.name.length ≤ writable.string ∧ pcb.owner.length ≤ writable.string) := by
  refine ((writes_uint32 _).bind <| (writes_uint32 _).bind <| (writes_string _).bind <|
    (writes_string _).bind <| (writes_uint32 _).bind <| (writes_uint32 _).bind <|
    (writes_uint32 _).bind <| (writes_uint32 _).bind <| (writes_uint32 _).bind <|
    (writes_uint32 _).bind <| (writes_uint32 _).bind <| (writes_uint32 _).bind <|
    (writes_uint32 _).bind <| (writes_uint32 _).bind <|
    writes_list pcb.children fun child _ => writes_uint32 child).imp ?_
  rintro ⟨-, -, hname, howner, -⟩
  exact ⟨hname, howner⟩

theorem writes_memoryBlock (block : MemoryBlock) :
    Writes (writeMemoryBlock block) (MemoryBlockWithin writable block) := by
  refine ((writes_uint32 _).bind <| (writes_uint32 _).bind <| (writes_uint32 _).bind <|
    (writes_uint32 _).bind <| (writes_string _).bind (writes_string _)).imp ?_
  rintro ⟨-, -, -, -, howner, htag⟩
  exact ⟨howner, htag⟩

theorem writes_virtualFile (file : VirtualFile) :
    Writes (writeVirtualFile file) (VirtualFileWithin writable file) := by
  refine ((writes_uint32 _).bind <| (writes_string _).bind <| (writes_string _).bind <|
    (writes_string _).bind <| (writes_uint64 _).bind (writes_uint64 _)).imp ?_
  rintro ⟨-, howner, hname, hcontent, -⟩
  exact ⟨howner, hname, hcontent⟩

def serializeRest (snapshot : KernelSnapshot) : BinaryWriter := do
  writeUint32 snapshot.nextPid
  writeList writePcb snapshot.pcbs
  writeList writeUint32 (snapshot.readyQueues 0)
  writeList writeUint32 (snapshot.readyQueues 1)
  writeList writeUint32 (snapshot.readyQueues 2)
  writeUint32 snapshot.totalMemoryKB
  writeInt32 (codeIn allocAlgorithms snapshot.allocAlgorithm)
  writeList writeMemoryBlock snapshot.memoryBlocks
  writeBool snapshot.schedulerRunning
  writeString snapshot.schedulerOwner
  writeUint32 snapshot.nextFileId
  writeList writeVirtualFile snapshot.virtualFiles

structure StringsFit (snapshot : KernelSnapshot) : Prop where
  pcbs : ∀ pcb ∈ snapshot.pcbs,
    pcb.name.length ≤ writable.string ∧ pcb.owner.length ≤ writable.string
  memoryBlocks : ∀ block ∈ snapshot.memoryBlocks, MemoryBlockWithin writable block
  schedulerOwner : snapshot.schedulerOwner.length ≤ writable.string
  virtualFiles : ∀ file ∈ snapshot.virtualFiles, VirtualFileWithin writable file

theorem writes_rest (snapshot : KernelSnapshot) :
    Writes (serializeRest snapshot) (StringsFit snapshot) := by
  have hqueue : ∀ q, Writes (writeList writeUint32 (snapshot.readyQueues q)) _ := fun q =>
    writes_list (snapshot.readyQueues q) fun pid _ => writes_uint32 pid
  refine ((writes_uint32 _).bind <| (writes_list snapshot.pcbs fun pcb _ => writes_pcb pcb).bind <|
    (hqueue 0).bind <| (hqueue 1).bind <| (hqueue 2).bind <| (writes_uint32 _).bind <|
    (writes_uint32 _).bind <|
    (writes_list snapshot.memoryBlocks fun block _ => writes_memoryBlock block).bind <|
    (writes_uint32 _).bind <| (writes_string _).bind <| (writes_uint32 _).bind <|
    writes_list snapshot.virtualFiles fun file _ => writes_virtualFile file).imp ?_
  rintro ⟨-, hpcbs, -, -, -, -, -, hblocks, -, howner, -, hfiles⟩
  exact ⟨hpcbs, hblocks, howner, hfiles⟩

theorem serialize_eq (snapshot : KernelSnapshot) : serialize snapshot =
    (writeHeader >>= fun _ => writeList writeUser snapshot.users >>= fun _ =>
      serializeRest snapshot) := rfl

theorem writes_serialize (snapshot : KernelSnapshot) : Writes (serialize snapshot)
    ((∀ account ∈ snapshot.users, UserWithin writable account) ∧ StringsFit snapshot) := by
  have hheader : Writes writeHeader (True ∧ True ∧ True ∧ True) :=
    (writes_writeBytes kMagic).bind <| (writes_uint32 _).bind <| (writes_uint32 _).bind
      (writes_uint32 _)
  rw [serialize_eq]
  exact (hheader.bind <| (writes_list snapshot.users fun account _ => writes_user account).bind
    (writes_rest snapshot)).imp And.right

/-! ## Lists of which only a part is counted -/

/-- The part of a list that its 32-bit length field counts. -/
def counted {α : Type} (xs : List α) : List α := xs.take (xs.length % 2 ^ 32)

def uncounted {α : Type} (xs : List α) : List α := xs.drop (xs.length % 2 ^ 32)

theorem length_counted {α : Type} (xs : List α) : (counted xs).length = xs.length % 2 ^ 32 :=
  List.length_take_of_le (Nat.mod_le _ _)

theorem counted_of_lt {α : Type} {xs : List α} (h : xs.length < 2 ^ 32) : counted xs = xs := by
  rw [counted, Nat.mod_eq_of_lt h, List.take_length]

theorem writeList_counted {α : Type} (write : α → BinaryWriter) (xs : List α) :
    writeList write xs =
      (writeList write (counted xs) >>= fun _ => (uncounted xs).forM write) := by
  have hcount : UInt32.ofNat (counted xs).length = UInt32.ofNat xs.length := by
    rw [length_counted]
    exact UInt32.toNat_inj.mp (by simp)
  have hsplit : xs.forM write =
      ((counted xs).forM write >>= fun _ => (uncounted xs).forM write) := by
    conv_lhs => rw [← List.take_append_drop (xs.length % 2 ^ 32) xs]
    exact List.forM_append
  unfold writeList
  rw [hcount, hsplit]
  simp only [bind_assoc]

/-! ## Fewer than `2 ^ 32` accounts -/

def countedFiles (snapshot : KernelSnapshot) : KernelSnapshot :=
  { snapshot with virtualFiles := counted snapshot.virtualFiles }

theorem serialize_countedFiles (snapshot : KernelSnapshot) : serialize snapshot =
    (serialize (countedFiles snapshot) >>= fun _ =>
      (uncounted snapshot.virtualFiles).forM writeVirtualFile) := by
  rw [serialize_eq, serialize_eq]
  unfold serializeRest
  rw [writeList_counted writeVirtualFile snapshot.virtualFiles]
  simp only [bind_assoc]
  rfl

/-- The lists that cannot outgrow their length fields. -/
structure CountsFit (snapshot : KernelSnapshot) : Prop where
  pcbs : snapshot.pcbs.length < 2 ^ 32
  children : ∀ pcb ∈ snapshot.pcbs, pcb.children.length < 2 ^ 32
  readyQueues : ∀ q, (snapshot.readyQueues q).length < 2 ^ 32
  memoryBlocks : snapshot.memoryBlocks.length < 2 ^ 32

variable {snapshot : KernelSnapshot} {bytes : Bytes}

theorem writable_countedFiles (hrun : (serialize snapshot).run.run [] = (.ok (), bytes))
    (hcounts : CountsFit snapshot) (husers : snapshot.users.length < 2 ^ 32) :
    SnapshotWithin writable (countedFiles snapshot) := by
  obtain ⟨result, bs, hrun', hfits⟩ := writes_serialize snapshot []
  rw [hrun] at hrun'
  obtain ⟨rfl, -⟩ := Prod.mk.inj hrun'
  obtain ⟨haccounts, hstrings⟩ := hfits rfl
  have hlimit : ∀ {n : ℕ}, n < 2 ^ 32 → n ≤ writable.list := fun h => Nat.le_of_lt_succ h
  exact {
    users := ⟨hlimit husers, haccounts⟩
    pcbs := ⟨hlimit hcounts.pcbs, fun pcb hmem =>
      ⟨(hstrings.pcbs pcb hmem).1, (hstrings.pcbs pcb hmem).2, hlimit (hcounts.children pcb hmem)⟩⟩
    readyQueues := fun q => hlimit (hcounts.readyQueues q)
    memoryBlocks := ⟨hlimit hcounts.memoryBlocks, hstrings.memoryBlocks⟩
    schedulerOwner := hstrings.schedulerOwner
    virtualFiles := by
      refine ⟨hlimit ?_, fun file hmem => hstrings.virtualFiles file (List.mem_of_mem_take hmem)⟩
      show (counted snapshot.virtualFiles).length < 2 ^ 32
      rw [length_counted]
      exact Nat.mod_lt _ (by decide) }

theorem deserialize_counted (hrun : (serialize snapshot).run.run [] = (.ok (), bytes))
    (hcounts : CountsFit snapshot) (husers : snapshot.users.length < 2 ^ 32) :
    (SnapshotWithin readable (countedFiles snapshot) →
      ∃ rest, deserialize.run bytes = .ok (countedFiles snapshot, rest)) ∧
    (¬SnapshotWithin readable (countedFiles snapshot) →
      ∃ what, deserialize.run bytes = .error what) := by
  obtain ⟨front, hemit, hdec, hrej⟩ :=
    transcribes_snapshot (countedFiles snapshot) (writable_countedFiles hrun hcounts husers)
  rw [serialize_countedFiles] at hrun
  have hfiles : Writes ((uncounted snapshot.virtualFiles).forM writeVirtualFile) _ :=
    Writes.forM _ fun file _ => writes_virtualFile file
  obtain ⟨-, rest, rfl⟩ := hemit.bind_writes hfiles hrun
  refine ⟨fun hwithin => ⟨rest, hdec hwithin rest⟩, fun hbeyond => ?_⟩
  obtain ⟨what, hwhat⟩ := hrej hbeyond
  exact ⟨what, hwhat rest⟩

/-! ## More accounts than are counted -/

theorem lt_ofNat_leValue {limit : UInt32} {a b c d : UInt8}
    (h : limit.toNat < a.toNat + 256 * (b.toNat + 256 * (c.toNat + 256 * d.toNat))) :
    limit < UInt32.ofNat (leValue [a, b, c, d]) := by
  have ha := a.toNat_lt
  have hb := b.toNat_lt
  have hc := c.toNat_lt
  have hd := d.toNat_lt
  rw [UInt32.lt_iff_toNat_lt, UInt32.toNat_ofNat', Nat.mod_eq_of_lt]
  · simpa [leValue] using h
  · simp only [leValue]
    omega

theorem emits_string {value : Str} (h : value.length ≤ writable.string) :
    Emits (writeString value) () (leBytes 4 value.length ++ value) := by
  have hlt : value.length < 2 ^ 32 := Nat.lt_succ_of_le h
  have hcount : (UInt32.ofNat value.length).toNat = value.length := by
    rw [UInt32.toNat_ofNat', Nat.mod_eq_of_lt hlt]
  have hfront : Emits (writeUint32 (UInt32.ofNat value.length)) () (leBytes 4 value.length) := by
    rw [writeUint32, hcount]
    exact emits_writeBytes _
  have hfits : ¬4294967295 < value.length := Nat.not_lt.mpr h
  unfold writeString
  rw [if_neg hfits]
  exact hfront.bind (emits_writeBytes value)

theorem rejects_count {α : Type} (tooMany : Str) (read : BinaryReader α) {a b c d : UInt8}
    (h : kMaxVectorCount.toNat < a.toNat + 256 * (b.toNat + 256 * (c.toNat + 256 * d.toNat))) :
    Rejects (readList tooMany read) [a, b, c, d] := by
  have htail : Rejects (if kMaxVectorCount < UInt32.ofNat (leValue [a, b, c, d]) then throw tooMany
      else readMany read (UInt32.ofNat (leValue [a, b, c, d])).toNat) [] := by
    rw [if_pos (lt_ofNat_leValue h)]
    exact rejects_throw tooMany
  exact (decodes_uint32 [a, b, c, d] rfl).bind_rejects htail

theorem rejects_length {a b c d : UInt8}
    (h : kMaxStringLength.toNat < a.toNat + 256 * (b.toNat + 256 * (c.toNat + 256 * d.toNat))) :
    Rejects readString [a, b, c, d] := by
  have htail : Rejects (if kMaxStringLength < UInt32.ofNat (leValue [a, b, c, d]) then
      throw (str "string length is too large")
      else readRaw (UInt32.ofNat (leValue [a, b, c, d])).toNat) [] := by
    rw [if_pos (lt_ofNat_leValue h)]
    exact rejects_throw _
  exact (decodes_uint32 [a, b, c, d] rfl).bind_rejects htail

/-- A PCB is refused when the third word of its bytes is no length of a string. -/
theorem rejects_pcb {pid ppid : Bytes} (hpid : pid.length = 4) (hppid : ppid.length = 4)
    {a b c d : UInt8}
    (h : kMaxStringLength.toNat < a.toNat + 256 * (b.toNat + 256 * (c.toNat + 256 * d.toNat))) :
    Rejects readPcb (pid ++ (ppid ++ [a, b, c, d])) := by
  exact (decodes_uint32 pid hpid).bind_rejects <|
    (decodes_uint32 ppid hppid).bind_rejects (rejects_length h).bind

/-- A name of one letter and the length of the hash make a small number of PCBs, and the first
of them has no name that can be read. -/
theorem rejects_letter (tooMany : Str) (a b c d e f g h i j k l : UInt8) (more : Str)
    (hdigit : 48 ≤ l) : Rejects (readList tooMany readPcb)
      ([a] ++ ([16, 0, 0, 0] ++ (b :: c :: d :: e :: f :: g :: h :: i :: j :: k :: l :: more))) := by
  have hlimit : kMaxVectorCount.toNat = 1000000 := rfl
  have hmax : kMaxStringLength.toNat = 1048576 := rfl
  have hsixteen : (16 : UInt8).toNat = 16 := rfl
  have hzero : (0 : UInt8).toNat = 0 := rfl
  have hdigit' : 48 ≤ l.toNat := UInt8.le_iff_toNat_le.mp hdigit
  have ha := a.toNat_lt
  have hcount : (UInt32.ofNat (leValue [a, 16, 0, 0])).toNat = a.toNat + 4095 + 1 := by
    rw [UInt32.toNat_ofNat', Nat.mod_eq_of_lt]
    · simp only [leValue, hsixteen, hzero]
    · simp only [leValue, hsixteen, hzero]
      omega
  have hfew : ¬kMaxVectorCount < UInt32.ofNat (leValue [a, 16, 0, 0]) := by
    rw [UInt32.lt_iff_toNat_lt, hcount, hlimit]
    omega
  have hlong : kMaxStringLength.toNat <
      i.toNat + 256 * (j.toNat + 256 * (k.toNat + 256 * l.toNat)) := by omega
  have hpcb : Rejects readPcb ([0, b, c, d] ++ ([e, f, g, h] ++ [i, j, k, l])) :=
    rejects_pcb rfl rfl hlong
  have hlist : Rejects (readList tooMany readPcb)
      ([a, 16, 0, 0] ++ ([0, b, c, d] ++ ([e, f, g, h] ++ [i, j, k, l]))) := by
    refine (decodes_uint32 [a, 16, 0, 0] rfl).bind_rejects ?_
    rw [if_neg hfew, hcount]
    exact hpcb.bind
  exact hlist.append more

/-- Behind the accounts that are counted stands the name of the next account where the number of
PCBs is expected, and its hash where the first PCB is expected. -/
theorem rejects_credentials (tooMany : Str) {name hash : Str} (hname : name ≠ [])
    (hchars : ∀ ch ∈ name, 45 ≤ ch) (hlength : hash.length = 16) (hdigits : ∀ ch ∈ hash, 48 ≤ ch) :
    Rejects (readList tooMany readPcb) (name ++ (leBytes 4 hash.length ++ hash)) := by
  have hlimit : kMaxVectorCount.toNat = 1000000 := rfl
  have hfront : leBytes 4 hash.length = [16, 0, 0, 0] := by
    rw [hlength]
    decide
  have hsixteen : (16 : UInt8).toNat = 16 := rfl
  have hzero : (0 : UInt8).toNat = 0 := rfl
  have hchar : ∀ {ch : UInt8}, ch ∈ name → 45 ≤ ch.toNat := fun hmem =>
    UInt8.le_iff_toNat_le.mp (hchars _ hmem)
  rw [hfront]
  match name, hash, hname, hlength with
  | [a], b :: c :: d :: e :: f :: g :: h :: i :: j :: k :: l :: more, _, _ =>
    exact rejects_letter tooMany a b c d e f g h i j k l more (hdigits l (by simp))
  | [a, b], hash, _, _ =>
    have hcount : Rejects (readList tooMany readPcb) [a, b, 16, 0] :=
      rejects_count tooMany readPcb (by omega)
    have hall := hcount.append (0 :: 0 :: hash)
    simpa using hall
  | [a, b, c], hash, _, _ =>
    have hc : 45 ≤ c.toNat := hchar (by simp)
    have hcount : Rejects (readList tooMany readPcb) [a, b, c, 16] :=
      rejects_count tooMany readPcb (by omega)
    have hall := hcount.append (0 :: 0 :: 0 :: hash)
    simpa using hall
  | a :: b :: c :: d :: more, hash, _, _ =>
    have hc : 45 ≤ c.toNat := hchar (by simp)
    have hcount : Rejects (readList tooMany readPcb) [a, b, c, d] :=
      rejects_count tooMany readPcb (by omega)
    exact hcount.append (more ++ ([16, 0, 0, 0] ++ hash))

def serializeBehind (account : UserAccount) (others : List UserAccount)
    (snapshot : KernelSnapshot) : BinaryWriter := do
  writeString account.salt
  writeInt32 account.failedAttempts
  writeInt32 (codeIn accountStatuses account.status)
  others.forM writeUser
  serializeRest snapshot

theorem writes_behind (account : UserAccount) (others : List UserAccount)
    (snapshot : KernelSnapshot) : Writes (serializeBehind account others snapshot) True :=
  ((writes_string _).bind <| (writes_uint32 _).bind <| (writes_uint32 _).bind <|
    (Writes.forM others fun account _ => writes_user account).bind (writes_rest snapshot)).imp
    fun _ => trivial

theorem serialize_uncounted {account : UserAccount} {others : List UserAccount}
    (h : uncounted snapshot.users = account :: others) : serialize snapshot =
      ((writeHeader >>= fun _ => writeList writeUser (counted snapshot.users) >>= fun _ =>
        writeString account.username >>= fun _ => writeString account.passwordHash) >>= fun _ =>
      serializeBehind account others snapshot) := by
  have hcons : (account :: others).forM writeUser =
      (writeUser account >>= fun _ => others.forM writeUser) := rfl
  rw [serialize_eq, writeList_counted writeUser snapshot.users, h, hcons]
  simp only [writeUser, serializeBehind, bind_assoc]

theorem deserialize_uncounted (hrun : (serialize snapshot).run.run [] = (.ok (), bytes))
    (husers : 2 ^ 32 ≤ snapshot.users.length)
    (hprintable : ∀ account ∈ snapshot.users, Printable account) :
    ∃ what, deserialize.run bytes = .error what := by
  obtain ⟨result, bs, hrun', hfits⟩ := writes_serialize snapshot []
  rw [hrun] at hrun'
  obtain ⟨rfl, -⟩ := Prod.mk.inj hrun'
  obtain ⟨hfits, -⟩ := hfits rfl
  obtain ⟨account, others, huncounted⟩ : ∃ account others,
      uncounted snapshot.users = account :: others := by
    refine List.exists_cons_of_ne_nil fun hnil => ?_
    have hle := List.drop_eq_nil_iff.mp hnil
    have hlt := Nat.mod_lt snapshot.users.length (show 2 ^ 32 > 0 by decide)
    omega
  have hmem : account ∈ snapshot.users := by
    refine List.mem_of_mem_drop (i := snapshot.users.length % 2 ^ 32) ?_
    rw [← uncounted, huncounted]
    exact List.mem_cons_self
  obtain ⟨hname, hhash, -⟩ := hfits account hmem
  have haccount := hprintable account hmem
  obtain ⟨header, hheader, hreadHeader, -⟩ := transcribes_header trivial
  obtain ⟨front, hfront, hreadFront, hrejectFront⟩ :=
    transcribes_list (str "too many users") (counted snapshot.users)
      (fun account _ => transcribes_user account)
      ⟨Nat.le_of_lt_succ (length_counted snapshot.users ▸ Nat.mod_lt _ (by decide)),
        fun account hin => hfits account (List.mem_of_mem_take hin)⟩
  have hemit : Emits (writeHeader >>= fun _ => writeList writeUser (counted snapshot.users) >>=
      fun _ => writeString account.username >>= fun _ => writeString account.passwordHash) ()
      (header ++ (front ++ ((leBytes 4 account.username.length ++ account.username) ++
        (leBytes 4 account.passwordHash.length ++ account.passwordHash)))) :=
    hheader.bind <| hfront.bind <| (emits_string hname).bind (emits_string hhash)
  rw [serialize_uncounted huncounted] at hrun
  obtain ⟨-, rest, rfl⟩ := hemit.bind_writes (writes_behind account others snapshot) hrun
  have hreject : Rejects deserialize (header ++ (front ++
      ((leBytes 4 account.username.length ++ account.username) ++
        (leBytes 4 account.passwordHash.length ++ account.passwordHash)))) := by
    refine (hreadHeader trivial).bind_rejects ?_
    by_cases hwithin : (counted snapshot.users).length ≤ readable.list ∧
        ∀ account ∈ counted snapshot.users, UserWithin readable account
    · refine (hreadFront hwithin).bind_rejects ?_
      rw [List.append_assoc]
      exact (decodes_uint32 _ (length_leBytes 4 _)).bind_rejects
        (rejects_credentials _ haccount.username_ne haccount.username haccount.hash_length
          haccount.hash).bind
    · exact (hrejectFront hwithin).bind.append _
  obtain ⟨what, hwhat⟩ := hreject
  exact ⟨what, hwhat rest⟩

/-! ## What a load finds -/

/-- After a successful save the file can be loaded exactly when the counted part of the
snapshot is within the limits of the reader, and then that part is loaded. -/
theorem load_after_save {store : SnapshotStore} {io : SaveIo} {fs fs' : FileSystem}
    (hsave : store.save io fs snapshot = (fs', .ok ())) (hcounts : CountsFit snapshot)
    (hprintable : ∀ account ∈ snapshot.users, Printable account) :
    (SnapshotWithin readable (countedFiles snapshot) →
      store.load fs' = .ok (countedFiles snapshot)) ∧
    (¬SnapshotWithin readable (countedFiles snapshot) →
      ∃ message, store.load fs' = .error message) := by
  obtain ⟨bytes, hrun, hfile⟩ := save_ok hsave
  by_cases husers : snapshot.users.length < 2 ^ 32
  · obtain ⟨hok, herror⟩ := deserialize_counted hrun hcounts husers
    refine ⟨fun hwithin => ?_, fun hbeyond => ?_⟩
    · obtain ⟨rest, hread⟩ := hok hwithin
      simp only [load, hfile, hread]
    · obtain ⟨what, hread⟩ := herror hbeyond
      exact ⟨_, by simp only [load, hfile, hread]; rfl⟩
  · obtain ⟨what, hread⟩ := deserialize_uncounted hrun (Nat.not_lt.mp husers) hprintable
    refine ⟨fun hwithin => ?_, fun _ => ⟨_, by simp only [load, hfile, hread]; rfl⟩⟩
    have hmany : snapshot.users.length ≤ 1000000 := hwithin.users.1
    omega

theorem save_quiet {store : SnapshotStore} (hpath : tempPathFor store.path ≠ store.path)
    (h : SnapshotWithin writable snapshot) (fs : FileSystem) :
    ∃ fs', store.save {} fs snapshot = (fs', .ok ()) := by
  obtain ⟨bytes, hemit, -⟩ := transcribes_snapshot snapshot h
  have hrun : (serialize snapshot).run.run [] = (.ok (), bytes) := hemit []
  have hstream : writeStream {} snapshot = (bytes, .ok ()) := by
    simp only [writeStream, hrun]
  have htemp : (removeFile {} (fs.insert (tempPathFor store.path) bytes)
      store.path)[tempPathFor store.path]? = some bytes := by
    rw [removeFile, if_pos rfl, KeyedTable.getElem?_erase, if_neg (fun heq => hpath heq.symm),
      KeyedTable.getElem?_insert, if_pos rfl]
  unfold save
  simp only [hstream, ite_self, Bool.not_true, Bool.false_eq_true, if_false, renameFile, htemp]
  exact ⟨_, rfl⟩

end SnapshotStore

end OSCoreSim
