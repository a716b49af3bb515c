import OSCoreSim.Lib.ByteStream
/-!
# The bytes an accepting reader takes

`Takes r P` is a postcondition of a reader: whenever it accepts, it has taken a front part of
its input, and `P` holds of its result and of this part.  The rules below follow the reader
from its first field to its last.  Two postconditions are of interest: the reader would take
the same bytes in front of any other continuation, so that it never looks ahead; and it takes
only what the writer of its result emits, so that a value has one encoding.
-/

namespace ByteStream

variable {ε α β : Type}

/-! ## Little-endian digits -/

theorem leValue_lt (bs : Bytes) : leValue bs < 256 ^ bs.length := by
  induction bs with
  | nil => simp [leValue]
  | cons b bs ih =>
    have hb : b.toNat < 256 := b.toNat_lt
    rw [leValue, List.length_cons, Nat.pow_succ]
    omega

/-- A fixed-width field has one encoding of each value. -/
theorem leBytes_leValue (bs : Bytes) : leBytes bs.length (leValue bs) = bs := by
  induction bs with
  | nil => rfl
  | cons b bs ih =>
    have hb : b.toNat < 256 := b.toNat_lt
    have hlow : UInt8.ofNat (leValue (b :: bs)) = b := by
      apply UInt8.toNat_inj.mp
      rw [leValue, UInt8.toNat_ofNat']
      omega
    have hhigh : leValue (b :: bs) / 256 = leValue bs := by
      rw [leValue]
      omega
    rw [List.length_cons, leBytes, hlow, hhigh, ih]

/-! ## Postconditions of readers -/

/-- If the reader accepts, `P` holds of its result and of the bytes it has taken. -/
def Takes (r : Reader ε α) (P : α → Bytes → Prop) : Prop :=
  ∀ s a rest, r.run s = .ok (a, rest) → ∃ used, s = used ++ rest ∧ P a used

theorem Takes.imp {r : Reader ε α} {P Q : α → Bytes → Prop} (h : Takes r P)
    (himp : ∀ a used, P a used → Q a used) : Takes r Q := by
  intro s a rest hrun
  obtain ⟨used, hs, hP⟩ := h s a rest hrun
  exact ⟨used, hs, himp a used hP⟩

theorem Takes.and {r : Reader ε α} {P Q : α → Bytes → Prop} (h : Takes r P) (h' : Takes r Q) :
    Takes r fun a used => P a used ∧ Q a used := by
  intro s a rest hrun
  obtain ⟨used, hs, hP⟩ := h s a rest hrun
  obtain ⟨used', hs', hQ⟩ := h' s a rest hrun
  obtain rfl : used = used' := List.append_cancel_right (hs.symm.trans hs')
  exact ⟨used, hs, hP, hQ⟩

theorem Takes.pure {P : α → Bytes → Prop} {a : α} (h : P a []) :
    Takes (Pure.pure a : Reader ε α) P := by
  intro s b rest hrun
  cases hrun
  exact ⟨[], rfl, h⟩

theorem Takes.throw {P : α → Bytes → Prop} (e : ε) : Takes (throw e : Reader ε α) P := by
  intro s a rest hrun
  cases hrun

theorem Takes.bind {r : Reader ε α} {k : α → Reader ε β} {P : α → Bytes → Prop}
    {Q : β → Bytes → Prop} (h : Takes r P)
    (h' : ∀ a used, P a used → Takes (k a) fun b used' => Q b (used ++ used')) :
    Takes (r >>= k) Q := by
  intro s b rest hrun
  rw [StateT.run_bind] at hrun
  cases hr : r.run s with
  | error e =>
    rw [hr] at hrun
    cases hrun
  | ok out =>
    obtain ⟨a, middle⟩ := out
    rw [hr] at hrun
    obtain ⟨used, rfl, hP⟩ := h s a middle hr
    obtain ⟨used', rfl, hQ⟩ := h' a used hP middle b rest hrun
    exact ⟨used ++ used', (List.append_assoc ..).symm, hQ⟩

theorem Takes.map {r : Reader ε α} {f : α → β} {P : α → Bytes → Prop} {Q : β → Bytes → Prop}
    (h : Takes r P) (h' : ∀ a used, P a used → Q (f a) used) :
    Takes (r >>= fun a => Pure.pure (f a)) Q :=
  h.bind fun a used hP => .pure <| by
    rw [List.append_nil]
    exact h' a used hP

theorem Takes.throw_if {c : Prop} [Decidable c] {r : Reader ε α} {P : α → Bytes → Prop} {e : ε}
    (h : ¬c → Takes r P) : Takes (if c then MonadExcept.throw e else r) P := by
  split
  · exact .throw e
  next hc => exact h hc

theorem takes_readBytes (truncated : ε) (n : Nat) :
    Takes (readBytes truncated n) fun bs used => bs = used ∧ used.length = n := by
  intro s bs rest hrun
  have hrun' : readBytes truncated n s = .ok (bs, rest) := hrun
  unfold readBytes at hrun'
  split at hrun'
  · cases hrun'
  next hlong =>
    cases hrun'
    exact ⟨s.take n, (List.take_append_drop n s).symm, rfl,
      List.length_take_of_le (Nat.not_lt.mp hlong)⟩

theorem takes_digits (truncated : ε) (n : Nat) :
    Takes (readBytes truncated n) fun bs used =>
      leValue bs < 256 ^ n ∧ used = leBytes n (leValue bs) := by
  refine (takes_readBytes truncated n).imp ?_
  rintro bs _ ⟨rfl, rfl⟩
  exact ⟨leValue_lt bs, (leBytes_leValue bs).symm⟩

theorem Takes.readMany {r : Reader ε α} {P : α → Prop} (h : Takes r fun a _ => P a) (count : Nat) :
    Takes (readMany r count) fun as _ => as.length = count ∧ ∀ a ∈ as, P a := by
  induction count with
  | zero => exact .pure ⟨rfl, fun _ hmem => absurd hmem List.not_mem_nil⟩
  | succ count ih =>
    refine Takes.bind h fun a _ ha => ih.map ?_
    rintro as _ ⟨hlength, has⟩
    exact ⟨by rw [List.length_cons, hlength], List.forall_mem_cons.mpr ⟨ha, has⟩⟩

/-! ## Readers that do not look ahead -/

/-- What the reader takes does not depend on what follows it. -/
def Local (r : Reader ε α) : Prop := Takes r fun a used => Decodes r used a

theorem Local.pure (a : α) : Local (Pure.pure a : Reader ε α) := Takes.pure (.pure a)

theorem Local.throw (e : ε) : Local (throw e : Reader ε α) := Takes.throw e

theorem Local.bind {r : Reader ε α} {k : α → Reader ε β} (h : Local r)
    (h' : ∀ a, Local (k a)) : Local (r >>= k) :=
  Takes.bind h fun a _ hdec => (h' a).imp fun _ _ hdec' => hdec.bind hdec'

theorem Local.ite {c : Prop} [Decidable c] {r r' : Reader ε α} (h : Local r) (h' : Local r') :
    Local (if c then r else r') := by
  split
  · exact h
  · exact h'

theorem local_readBytes (truncated : ε) (n : Nat) : Local (readBytes truncated n) := by
  refine (takes_readBytes truncated n).imp ?_
  rintro bs _ ⟨rfl, rfl⟩
  exact decodes_readBytes truncated bs

theorem Local.readMany {r : Reader ε α} (h : Local r) (count : Nat) :
    Local (readMany r count) := by
  induction count with
  | zero => exact .pure []
  | succ count ih => exact h.bind fun a => ih.bind fun as => .pure (a :: as)

/-- No strict front part of an encoding is accepted, whatever it would be read as. -/
theorem Local.truncated {r : Reader ε α} {bs cut : Bytes} {a : α} (h : Local r)
    (hdec : Decodes r bs a) (hcut : cut <+: bs) (hne : cut ≠ bs) :
    ∃ e, r.run cut = .error e := by
  cases hrun : r.run cut with
  | error e => exact ⟨e, rfl⟩
  | ok out =>
    obtain ⟨b, rest⟩ := out
    obtain ⟨used, rfl, hused⟩ := h cut b rest hrun
    obtain ⟨missing, rfl⟩ := hcut
    -- the reader would take the same bytes of the whole encoding, and there it leaves nothing
    have hwhole := hdec []
    rw [List.append_nil, List.append_assoc, hused] at hwhole
    have hnil : rest ++ missing = [] := congrArg Prod.snd (Except.ok.inj hwhole)
    obtain ⟨rfl, rfl⟩ := List.append_eq_nil_iff.mp hnil
    exact absurd (List.append_nil _).symm hne

/-! ## Readers of one encoding only -/

/-- The reader takes nothing but what the writer of its result emits. -/
def Canonical (w : α → Writer ε Unit) (r : Reader ε α) : Prop :=
  Takes r fun a used => Emits (w a) () used

theorem Canonical.readMany {w : α → Writer ε Unit} {r : Reader ε α} (h : Canonical w r)
    (count : Nat) : Takes (readMany r count) fun as used =>
      as.length = count ∧ Emits (as.forM w) () used := by
  induction count with
  | zero => exact .pure ⟨rfl, .pure ()⟩
  | succ count ih =>
    refine Takes.bind h fun a used ha => ih.map ?_
    rintro as used' ⟨hlength, has⟩
    exact ⟨by rw [List.length_cons, hlength], ha.bind has⟩

theorem Emits.inj {w : Writer ε α} {a b : α} {bs bs' : Bytes} (h : Emits w a bs)
    (h' : Emits w b bs') : bs = bs' := by
  have hrun := (h []).symm.trans (h' [])
  exact congrArg Prod.snd hrun

end ByteStream
