import Mathlib.Data.PNat.Basic
import Mathlib.Tactic.Common
/-!
# Transfers in chunks

A reliable byte channel moves what it is given in order, but a single call may move less than it
was asked to.  A `Schedule` gives the size that each call is prepared to move, never nothing.
The loops that call again until everything is moved do not depend on it.
-/

namespace Chunked

variable {α : Type*}

/-- The size that each call of one party is prepared to move. -/
abbrev Schedule := ℕ → ℕ+

def steady (n : ℕ+) : Schedule := fun _ => n

def moved (want : ℕ) (size : ℕ+) : ℕ := min want size

theorem moved_le (want : ℕ) (size : ℕ+) : moved want size ≤ want := Nat.min_le_left _ _

theorem moved_pos {want : ℕ} (h : 0 < want) (size : ℕ+) : 0 < moved want size :=
  Nat.lt_min.mpr ⟨h, size.pos⟩

theorem moved_eq_iff {want : ℕ} {size : ℕ+} : moved want size = want ↔ want ≤ size :=
  min_eq_left_iff

/-- The write loop: every turn sends a part of what is left. -/
def writeLoop (sizes : Schedule) : ℕ → ℕ → List α → List α
  | 0, _, _ => []
  | fuel + 1, call, data =>
    if data = [] then []
    else
      let chunk := moved data.length (sizes call)
      data.take chunk ++ writeLoop sizes fuel (call + 1) (data.drop chunk)

def writeAll (sizes : Schedule) (call : ℕ) (data : List α) : List α :=
  writeLoop sizes data.length call data

/-- The read loop: every turn takes a part of what is missing from the front of `wire`, and
nothing to take is a failure. -/
def readLoop (sizes : Schedule) : ℕ → ℕ → ℕ → List α → Option (List α × List α)
  | 0, _, want, wire => if want = 0 then some ([], wire) else none
  | fuel + 1, call, want, wire =>
    if want = 0 then some ([], wire)
    else
      let chunk := min (moved want (sizes call)) wire.length
      if chunk = 0 then none
      else (readLoop sizes fuel (call + 1) (want - chunk) (wire.drop chunk)).map
        fun rest => (wire.take chunk ++ rest.1, rest.2)

def readAll (sizes : Schedule) (call want : ℕ) (wire : List α) : Option (List α × List α) :=
  readLoop sizes want call want wire

variable {sizes : Schedule} {fuel call want : ℕ} {data wire : List α}

theorem writeLoop_eq (h : data.length ≤ fuel) : writeLoop sizes fuel call data = data := by
  induction fuel generalizing call data with
  | zero => exact (List.length_eq_zero_iff.mp (Nat.le_zero.mp h)).symm
  | succ fuel ih =>
    rw [writeLoop]
    split
    next hnil => exact hnil.symm
    next hne =>
      have hpos := moved_pos (List.length_pos_iff.mpr hne) (sizes call)
      have hrest : (data.drop (moved data.length (sizes call))).length ≤ fuel := by
        rw [List.length_drop]
        omega
      simp only [ih hrest, List.take_append_drop]

theorem writeAll_eq (sizes : Schedule) (call : ℕ) (data : List α) :
    writeAll sizes call data = data :=
  writeLoop_eq (Nat.le_refl _)

theorem readLoop_eq (hfuel : want ≤ fuel) (h : want ≤ wire.length) :
    readLoop sizes fuel call want wire = some (wire.take want, wire.drop want) := by
  induction fuel generalizing call want wire with
  | zero =>
    obtain rfl : want = 0 := Nat.le_zero.mp hfuel
    rfl
  | succ fuel ih =>
    rw [readLoop]
    split
    next hzero =>
      rw [hzero]
      rfl
    next hwant =>
      have hpos := moved_pos (Nat.pos_of_ne_zero hwant) (sizes call)
      have hle := moved_le want (sizes call)
      have hchunk : min (moved want (sizes call)) wire.length = moved want (sizes call) :=
        Nat.min_eq_left (by omega)
      have hlength : want - moved want (sizes call) ≤
          (wire.drop (moved want (sizes call))).length := by
        rw [List.length_drop]
        omega
      simp only [hchunk, if_neg (Nat.ne_of_gt hpos), ih (by omega) hlength, Option.map_some]
      rw [List.drop_drop, ← List.take_add, Nat.add_sub_cancel' hle]

theorem readAll_eq (sizes : Schedule) (call : ℕ) (h : want ≤ wire.length) :
    readAll sizes call want wire = some (wire.take want, wire.drop want) :=
  readLoop_eq (Nat.le_refl _) h

end Chunked
