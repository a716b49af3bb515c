import Mathlib.Data.List.Nodup
import Mathlib.Logic.Function.Basic
import Mathlib.Tactic.Common
/-!
# Finite maps that remember the order of creation

An `OrderedMap` is a partial function with finitely many keys, which it lists in the order in
which they were created.  `Lists` relates it to the store that programs keep instead: a list of
records that is searched from the front.  To append a record, to overwrite one in its place and
to erase one are then the operations on the map.
-/

structure OrderedMap (κ ν : Type*) where
  keys : List κ
  value : κ → Option ν
  nodup : keys.Nodup
  mem_keys : ∀ k, k ∈ keys ↔ (value k).isSome

namespace OrderedMap

variable {κ ν ρ : Type*}

def empty : OrderedMap κ ν where
  keys := []
  value := fun _ => none
  nodup := List.nodup_nil
  mem_keys := by simp

theorem notMem_keys {m : OrderedMap κ ν} {k : κ} : k ∉ m.keys ↔ m.value k = none := by
  rw [m.mem_keys, Option.not_isSome_iff_eq_none]

def entries (m : OrderedMap κ ν) : List (κ × ν) :=
  m.keys.filterMap fun k => (m.value k).map (Prod.mk k)

variable [DecidableEq κ]

/-- The value of a key is set; a new key comes last. -/
def write (m : OrderedMap κ ν) (k : κ) (v : ν) : OrderedMap κ ν where
  keys := if k ∈ m.keys then m.keys else m.keys ++ [k]
  value := Function.update m.value k (some v)
  nodup := by
    split
    · exact m.nodup
    next hnew => exact List.nodup_append_comm.mp (List.nodup_cons.mpr ⟨hnew, m.nodup⟩)
  mem_keys := by
    intro a
    by_cases ha : a = k
    · subst ha
      by_cases hold : a ∈ m.keys <;> simp [hold]
    · rw [Function.update_of_ne ha, ← m.mem_keys]
      by_cases hold : k ∈ m.keys <;> simp [hold, ha]

def delete (m : OrderedMap κ ν) (k : κ) : OrderedMap κ ν where
  keys := m.keys.filter (· ≠ k)
  value := Function.update m.value k none
  nodup := m.nodup.filter _
  mem_keys := by
    intro a
    by_cases ha : a = k
    · simp [ha]
    · simp [← m.mem_keys, ha]

theorem keys_write_of_mem {m : OrderedMap κ ν} {k : κ} (h : k ∈ m.keys) (v : ν) :
    (m.write k v).keys = m.keys := if_pos h

theorem keys_write_of_notMem {m : OrderedMap κ ν} {k : κ} (h : k ∉ m.keys) (v : ν) :
    (m.write k v).keys = m.keys ++ [k] := if_neg h

@[simp] theorem keys_delete (m : OrderedMap κ ν) (k : κ) :
    (m.delete k).keys = m.keys.filter (· ≠ k) := rfl

@[simp] theorem value_write (m : OrderedMap κ ν) (k : κ) (v : ν) :
    (m.write k v).value = Function.update m.value k (some v) := rfl

@[simp] theorem value_delete (m : OrderedMap κ ν) (k : κ) :
    (m.delete k).value = Function.update m.value k none := rfl

theorem delete_of_none {m : OrderedMap κ ν} {k : κ} (h : m.value k = none) : m.delete k = m := by
  have hkeys : m.keys.filter (· ≠ k) = m.keys := by
    refine List.filter_eq_self.mpr fun a ha => decide_eq_true fun heq => ?_
    exact notMem_keys.mpr h (heq ▸ ha)
  have hvalue : Function.update m.value k none = m.value := by
    rw [← h]
    exact Function.update_eq_self k m.value
  cases m
  simp only [delete, mk.injEq]
  exact ⟨hkeys, hvalue⟩

/-! ## Lists of records -/

structure Lists (key : ρ → κ) (val : ρ → ν) (rs : List ρ) (m : OrderedMap κ ν) : Prop where
  keys_eq : rs.map key = m.keys
  value_eq : ∀ r ∈ rs, m.value (key r) = some (val r)

section Lists

variable {key : ρ → κ} {val : ρ → ν} {rs l s : List ρ} {r r' : ρ} {m : OrderedMap κ ν} {k : κ}

omit [DecidableEq κ] in
theorem lists_empty : Lists key val [] empty := ⟨rfl, fun _ hmem => by cases hmem⟩

theorem Lists.find? (h : Lists key val rs m) (k : κ) :
    (rs.find? (key · = k)).map val = m.value k := by
  cases hfind : rs.find? (key · = k) with
  | some r =>
    have hkey : key r = k := by simpa using List.find?_some hfind
    rw [Option.map_some, ← hkey, h.value_eq r (List.mem_of_find?_eq_some hfind)]
  | none =>
    have hnot : k ∉ m.keys := by
      rw [← h.keys_eq, List.mem_map]
      rintro ⟨r, hmem, hkey⟩
      exact absurd hkey (by simpa using List.find?_eq_none.mp hfind r hmem)
    exact (notMem_keys.mp hnot).symm

omit [DecidableEq κ] in
theorem Lists.entries_eq (h : Lists key val rs m) :
    rs.map (fun r => (key r, val r)) = m.entries := by
  rw [entries, ← h.keys_eq, List.filterMap_map]
  have hsome : ∀ r ∈ rs, ((fun k => (m.value k).map (Prod.mk k)) ∘ key) r =
      some (key r, val r) := fun r hmem => by
    rw [Function.comp_apply, h.value_eq r hmem, Option.map_some]
  rw [List.filterMap_congr hsome, List.filterMap_eq_map']

theorem Lists.append (h : Lists key val rs m) (hnew : m.value (key r) = none) :
    Lists key val (rs ++ [r]) (m.write (key r) (val r)) where
  keys_eq := by
    rw [keys_write_of_notMem (notMem_keys.mpr hnew), List.map_append, h.keys_eq]
    rfl
  value_eq a hmem := by
    rcases List.mem_append.mp hmem with hold | hlast
    · have hne : key a ≠ key r := fun heq => by
        have hvalue := h.value_eq a hold
        rw [heq, hnew] at hvalue
        cases hvalue
      rw [value_write, Function.update_of_ne hne, h.value_eq a hold]
    · rw [List.mem_singleton.mp hlast, value_write, Function.update_self]

omit [DecidableEq κ] in
theorem Lists.ne_key (h : Lists key val (l ++ r :: s) m) {a : ρ} (hmem : a ∈ l ++ s) :
    key a ≠ key r := by
  have hnodup := m.nodup
  rw [← h.keys_eq, List.map_append, List.map_cons, List.nodup_middle, List.nodup_cons] at hnodup
  intro heq
  rw [← List.map_append] at hnodup
  exact hnodup.1 (List.mem_map.mpr ⟨a, hmem, heq⟩)

theorem Lists.overwrite (h : Lists key val (l ++ r :: s) m) (hkey : key r' = key r) :
    Lists key val (l ++ r' :: s) (m.write (key r) (val r')) where
  keys_eq := by
    have hmem : key r ∈ m.keys := by
      rw [← h.keys_eq]
      simp
    rw [keys_write_of_mem hmem, ← h.keys_eq]
    simp [hkey]
  value_eq a hmem := by
    rw [value_write]
    rcases List.mem_append.mp hmem with hl | hr
    · rw [Function.update_of_ne (h.ne_key (List.mem_append_left s hl))]
      exact h.value_eq a (List.mem_append_left _ hl)
    rcases List.mem_cons.mp hr with rfl | hs
    · rw [hkey, Function.update_self]
    · rw [Function.update_of_ne (h.ne_key (List.mem_append_right l hs))]
      exact h.value_eq a (List.mem_append_right l (List.mem_cons_of_mem r hs))

theorem Lists.erase (h : Lists key val (l ++ r :: s) m) :
    Lists key val (l ++ s) (m.delete (key r)) where
  keys_eq := by
    have hkept : ∀ a ∈ (l ++ s).map key, decide (a ≠ key r) = true := by
      intro a hmem
      obtain ⟨b, hb, rfl⟩ := List.mem_map.mp hmem
      exact decide_eq_true (h.ne_key hb)
    rw [List.map_append, List.forall_mem_append] at hkept
    rw [keys_delete, ← h.keys_eq, List.map_append, List.map_append, List.map_cons, List.filter_append,
      List.filter_cons_of_neg (by simp), List.filter_eq_self.mpr hkept.1,
      List.filter_eq_self.mpr hkept.2]
  value_eq a hmem := by
    rw [value_delete, Function.update_of_ne (h.ne_key hmem)]
    refine h.value_eq a ?_
    rcases List.mem_append.mp hmem with hl | hs
    · exact List.mem_append_left _ hl
    · exact List.mem_append_right l (List.mem_cons_of_mem r hs)

end Lists

end OrderedMap
