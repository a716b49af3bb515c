import Mathlib.Tactic.Common
import Mathlib.Data.List.Basic
import Mathlib.Algebra.Group.Nat.Defs
/-!
# Binary writers and readers

A `Writer` appends bytes to a stream and may throw after a part of them is
written; a `Reader` consumes bytes from the front of a stream.  `Transcribes`
relates a writer to the reader of the same value: it says which bytes are
written, for which values the reader returns the value and leaves exactly the
following bytes, and that it refuses all the others.  The relation composes
along `bind`, so a codec over records and nested lists is proved field by field.
-/

namespace ByteStream

abbrev Bytes := List UInt8

/-- An output stream with exceptions: what is written before a throw stays written. -/
abbrev Writer (ε : Type) := ExceptT ε (StateM Bytes)

abbrev Reader (ε : Type) := StateT Bytes (Except ε)

variable {ε α β : Type}

/-! ## Primitives -/

def writeBytes (bs : Bytes) : Writer ε Unit := modify (· ++ bs)

def readBytes (truncated : ε) (n : Nat) : Reader ε Bytes := fun s =>
  if s.length < n then .error truncated else .ok (s.take n, s.drop n)

/-- The `width` least significant bytes of `value`, lowest first. -/
def leBytes : Nat → Nat → Bytes
  | 0, _ => []
  | width + 1, value => UInt8.ofNat value :: leBytes width (value / 256)

def leValue : Bytes → Nat
  | [] => 0
  | b :: bs => b.toNat + 256 * leValue bs

def readMany (r : Reader ε α) : Nat → Reader ε (List α)
  | 0 => pure []
  | count + 1 => do
    let a ← r
    let as ← readMany r count
    pure (a :: as)

@[simp] theorem length_leBytes (width value : Nat) : (leBytes width value).length = width := by
  induction width generalizing value with
  | zero => rfl
  | succ width ih => simp [leBytes, ih]

theorem leValue_leBytes (width value : Nat) :
    leValue (leBytes width value) = value % 256 ^ width := by
  induction width generalizing value with
  | zero => simp [leBytes, leValue, Nat.mod_one]
  | succ width ih =>
    have hbyte : (UInt8.ofNat value).toNat = value % 256 := by simp
    rw [leBytes, leValue, ih, hbyte, Nat.pow_succ', Nat.mod_mul]

/-! ## What a writer writes and a reader reads -/

/-- The writer succeeds and appends exactly `bs`. -/
def Emits (w : Writer ε α) (a : α) (bs : Bytes) : Prop :=
  ∀ s, w.run.run s = (.ok a, s ++ bs)

/-- In front of any continuation the reader takes exactly `bs` and returns `a`. -/
def Decodes (r : Reader ε α) (bs : Bytes) (a : α) : Prop :=
  ∀ rest, r.run (bs ++ rest) = .ok (a, rest)

/-- The reader throws once it sees `bs`, whatever follows. -/
def Rejects (r : Reader ε α) (bs : Bytes) : Prop :=
  ∃ e, ∀ rest, r.run (bs ++ rest) = .error e

theorem Emits.bind {w : Writer ε α} {k : α → Writer ε β} {a : α} {b : β} {bs bs' : Bytes}
    (h : Emits w a bs) (h' : Emits (k a) b bs') : Emits (w >>= k) b (bs ++ bs') := by
  intro s
  have hw := h s
  have hk := h' (s ++ bs)
  rw [← List.append_assoc, ← hk, ExceptT.run_bind, StateT.run_bind, hw]
  rfl

theorem Emits.pure (a : α) : Emits (Pure.pure a : Writer ε α) a [] := by
  intro s
  simp only [List.append_nil]
  rfl

theorem emits_writeBytes (bs : Bytes) : Emits (writeBytes bs : Writer ε Unit) () bs := by
  intro s
  rfl

theorem Decodes.bind {r : Reader ε α} {k : α → Reader ε β} {a : α} {b : β} {bs bs' : Bytes}
    (h : Decodes r bs a) (h' : Decodes (k a) bs' b) : Decodes (r >>= k) (bs ++ bs') b := by
  intro rest
  rw [StateT.run_bind, List.append_assoc, h]
  exact h' rest

theorem Decodes.pure (a : α) : Decodes (Pure.pure a : Reader ε α) [] a := by
  intro rest
  rfl

theorem Decodes.map {r : Reader ε α} {bs : Bytes} {a : α} (f : α → β) (h : Decodes r bs a) :
    Decodes (r >>= fun x => Pure.pure (f x)) bs (f a) := by
  have hbind := h.bind (k := fun x => Pure.pure (f x)) (.pure (f a))
  rwa [List.append_nil] at hbind

theorem Rejects.append {r : Reader ε α} {bs : Bytes} (h : Rejects r bs) (bs' : Bytes) :
    Rejects r (bs ++ bs') := by
  obtain ⟨e, he⟩ := h
  exact ⟨e, fun rest => by rw [List.append_assoc, he]⟩

theorem Rejects.bind {r : Reader ε α} {k : α → Reader ε β} {bs : Bytes} (h : Rejects r bs) :
    Rejects (r >>= k) bs := by
  obtain ⟨e, he⟩ := h
  refine ⟨e, fun rest => ?_⟩
  rw [StateT.run_bind, he]
  rfl

theorem Decodes.bind_rejects {r : Reader ε α} {k : α → Reader ε β} {a : α} {bs bs' : Bytes}
    (h : Decodes r bs a) (h' : Rejects (k a) bs') : Rejects (r >>= k) (bs ++ bs') := by
  obtain ⟨e, he⟩ := h'
  refine ⟨e, fun rest => ?_⟩
  rw [StateT.run_bind, List.append_assoc, h]
  exact he rest

theorem rejects_throw (e : ε) : Rejects (throw e : Reader ε α) [] :=
  ⟨e, fun _ => rfl⟩

theorem decodes_readBytes (truncated : ε) (bs : Bytes) :
    Decodes (readBytes truncated bs.length) bs bs := by
  intro rest
  show readBytes truncated bs.length (bs ++ rest) = _
  simp [readBytes]

/-! ## Matching writers with readers -/

/-- The writer `w` of the value `a` against the reader `r`: whenever the value fits
the format, `w` emits some bytes, which `r` decodes to `a` if the value is within
the reader's limits and rejects otherwise. -/
def Transcribes (w : Writer ε Unit) (r : Reader ε α) (a : α) (fits within : Prop) : Prop :=
  fits → ∃ bs, Emits w () bs ∧ (within → Decodes r bs a) ∧ (¬within → Rejects r bs)

theorem Transcribes.pure (a : α) :
    Transcribes (Pure.pure () : Writer ε Unit) (Pure.pure a) a True True := fun _ =>
  ⟨[], .pure (), fun _ => .pure a, fun h => absurd trivial h⟩

theorem Transcribes.bind {w w' : Writer ε Unit} {r : Reader ε α} {k : α → Reader ε β}
    {a : α} {b : β} {fits within fits' within' : Prop}
    (h : Transcribes w r a fits within) (h' : Transcribes w' (k a) b fits' within') :
    Transcribes (w >>= fun _ => w') (r >>= k) b (fits ∧ fits') (within ∧ within') := by
  rintro ⟨hf, hf'⟩
  obtain ⟨bs, hemit, hdec, hrej⟩ := h hf
  obtain ⟨bs', hemit', hdec', hrej'⟩ := h' hf'
  refine ⟨bs ++ bs', hemit.bind hemit', fun hw => (hdec hw.1).bind (hdec' hw.2), fun hw => ?_⟩
  by_cases hwithin : within
  · exact (hdec hwithin).bind_rejects (hrej' fun hw' => hw ⟨hwithin, hw'⟩)
  · exact (hrej hwithin).bind.append bs'

/-- A field before the rest that always fits, such as a constant of the header. -/
theorem Transcribes.bind_const {w w' : Writer ε Unit} {r : Reader ε α} {k : α → Reader ε β}
    {a : α} {b : β} (h : Transcribes w r a True True)
    (h' : Transcribes w' (k a) b True True) :
    Transcribes (w >>= fun _ => w') (r >>= k) b True True := by
  intro _
  obtain ⟨bs, hemit, hdec, hrej⟩ := h.bind h' ⟨trivial, trivial⟩
  exact ⟨bs, hemit, fun _ => hdec ⟨trivial, trivial⟩, fun hw => absurd trivial hw⟩

/-- The last field of a record: nothing is written after it, and nothing more is read once
its value is seen. -/
theorem Transcribes.then_pure {w : Writer ε Unit} {r : Reader ε α} {k : α → Reader ε β} {a : α}
    {b : β} {fits within : Prop} (h : Transcribes w r a fits within) (hk : k a = Pure.pure b) :
    Transcribes w (r >>= k) b fits within := by
  intro hf
  obtain ⟨bs, hemit, hdec, hrej⟩ := h hf
  have hpure : Decodes (k a) [] b := by
    rw [hk]
    exact .pure b
  refine ⟨bs, hemit, fun hw => ?_, fun hw => ?_⟩
  · have hbind := (hdec hw).bind hpure
    rwa [List.append_nil] at hbind
  · exact (hrej hw).bind

theorem Transcribes.map {w : Writer ε Unit} {r : Reader ε α} {a : α} {fits within : Prop}
    (f : α → β) (h : Transcribes w r a fits within) :
    Transcribes w (r >>= fun x => Pure.pure (f x)) (f a) fits within :=
  h.then_pure rfl

theorem Transcribes.congr {w : Writer ε Unit} {r : Reader ε α} {a : α}
    {fits within fits' within' : Prop} (h : Transcribes w r a fits within)
    (hf : fits' ↔ fits) (hw : within' ↔ within) : Transcribes w r a fits' within' := by
  intro hfits
  obtain ⟨bs, hemit, hdec, hrej⟩ := h (hf.mp hfits)
  exact ⟨bs, hemit, fun h => hdec (hw.mp h), fun h => hrej fun h' => h (hw.mpr h')⟩

theorem Transcribes.forM {w : α → Writer ε Unit} {r : Reader ε α} {fits within : α → Prop}
    (xs : List α) (h : ∀ x ∈ xs, Transcribes (w x) r x (fits x) (within x)) :
    Transcribes (xs.forM w) (readMany r xs.length) xs
      (∀ x ∈ xs, fits x) (∀ x ∈ xs, within x) := by
  induction xs with
  | nil => exact (Transcribes.pure []).congr (by simp) (by simp)
  | cons x xs ih =>
    have htail := ih fun y hy => h y (List.mem_cons_of_mem x hy)
    have hcons := (h x List.mem_cons_self).bind
      (k := fun a => readMany r xs.length >>= fun as => Pure.pure (a :: as))
      (htail.map (x :: ·))
    exact hcons.congr (by simp) (by simp)

theorem transcribes_fixed (truncated : ε) (width value : Nat) (f : Bytes → α) :
    Transcribes (writeBytes (leBytes width value))
      (readBytes truncated width >>= fun bs => Pure.pure (f bs))
      (f (leBytes width value)) True True := by
  intro _
  have hread := decodes_readBytes truncated (leBytes width value)
  rw [length_leBytes] at hread
  exact ⟨leBytes width value, emits_writeBytes _, fun _ => hread.map f,
    fun h => absurd trivial h⟩

/-! ## Writers that may throw -/

/-- The writer only appends, and it succeeds only for values that fit. -/
def Writes (w : Writer ε Unit) (fits : Prop) : Prop :=
  ∀ s, ∃ result bs, w.run.run s = (result, s ++ bs) ∧ (result = .ok () → fits)

theorem Writes.bind {w w' : Writer ε Unit} {fits fits' : Prop} (h : Writes w fits)
    (h' : Writes w' fits') : Writes (w >>= fun _ => w') (fits ∧ fits') := by
  intro s
  obtain ⟨result, bs, hrun, hfits⟩ := h s
  cases result with
  | error e =>
    refine ⟨.error e, bs, ?_, fun hok => by cases hok⟩
    rw [ExceptT.run_bind, StateT.run_bind, hrun]
    rfl
  | ok a =>
    obtain ⟨result', bs', hrun', hfits'⟩ := h' (s ++ bs)
    refine ⟨result', bs ++ bs', ?_, fun hok => ⟨hfits rfl, hfits' hok⟩⟩
    rw [← List.append_assoc, ← hrun', ExceptT.run_bind, StateT.run_bind, hrun]
    rfl

theorem Writes.imp {w : Writer ε Unit} {fits fits' : Prop} (h : Writes w fits)
    (himp : fits → fits') : Writes w fits' := by
  intro s
  obtain ⟨result, bs, hrun, hfits⟩ := h s
  exact ⟨result, bs, hrun, fun hok => himp (hfits hok)⟩

theorem writes_writeBytes (bs : Bytes) : Writes (writeBytes bs : Writer ε Unit) True :=
  fun _ => ⟨.ok (), bs, rfl, fun _ => trivial⟩

theorem writes_throw (e : ε) : Writes (throw e : Writer ε Unit) False :=
  fun s => ⟨.error e, [], by rw [List.append_nil]; rfl, fun hok => by cases hok⟩

theorem Writes.forM {w : α → Writer ε Unit} {fits : α → Prop} (xs : List α)
    (h : ∀ x ∈ xs, Writes (w x) (fits x)) : Writes (xs.forM w) (∀ x ∈ xs, fits x) := by
  induction xs with
  | nil => exact fun s => ⟨.ok (), [], by rw [List.append_nil]; rfl, fun _ x hx => by cases hx⟩
  | cons x xs ih =>
    have htail := ih fun y hy => h y (List.mem_cons_of_mem x hy)
    exact ((h x List.mem_cons_self).bind htail).imp (List.forall_mem_cons.mpr ·)

/-- What stands before a writer that only appends stays in front. -/
theorem Emits.bind_writes {w w' : Writer ε Unit} {fits : Prop} {bs out : Bytes}
    (h : Emits w () bs) (h' : Writes w' fits)
    (hrun : (w >>= fun _ => w').run.run [] = (.ok (), out)) :
    fits ∧ ∃ rest, out = bs ++ rest := by
  obtain ⟨result, bs', hrun', hfits⟩ := h' bs
  rw [ExceptT.run_bind, StateT.run_bind, h []] at hrun
  have hsame : w'.run.run bs = (.ok (), out) := hrun
  rw [hsame] at hrun'
  obtain ⟨rfl, rfl⟩ := Prod.mk.inj hrun'
  exact ⟨hfits rfl, bs', rfl⟩

end ByteStream
