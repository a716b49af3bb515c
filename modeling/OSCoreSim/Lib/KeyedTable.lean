import Std.Data.ExtTreeMap
import Mathlib.Data.List.Nodup
import Mathlib.Algebra.GroupWithZero.Nat
import Mathlib.Algebra.Order.BigOperators.Group.Finset
/-!
# Tables by key

Lookups in an extensional tree map after the usual updates, with equality of keys in place
of the comparison, and the loops that erase, insert or modify a list of keys.  `Keyed` tables
hold every record under its own key, so that the list of their records, in any order, rebuilds
the table.
-/

namespace KeyedTable

open Std (ExtTreeMap)

variable {κ ν : Type*} [Ord κ] [Std.TransOrd κ] [Std.LawfulEqOrd κ] [DecidableEq κ]
  (table : ExtTreeMap κ ν) (k a : κ) (v : ν) (f : ν → ν)

theorem getElem?_insert : (table.insert k v)[a]? = if k = a then some v else table[a]? := by
  simp [ExtTreeMap.getElem?_insert]

theorem getElem?_insertIfNew (h : table[k]? = none) :
    (table.insertIfNew k v)[a]? = if k = a then some v else table[a]? := by
  have hk : k ∉ table := by simpa using h
  rw [ExtTreeMap.getElem?_insertIfNew]
  simp [hk]

theorem getElem?_erase : (table.erase k)[a]? = if k = a then none else table[a]? := by
  simp [ExtTreeMap.getElem?_erase]

theorem getElem?_modify :
    (table.modify k f)[a]? = if k = a then table[a]?.map f else table[a]? := by
  by_cases h : k = a
  · subst h
    simp
  · simp [ExtTreeMap.getElem?_modify, h]

theorem getElem?_foldl_erase (ks : List κ) :
    (ks.foldl (fun t k => t.erase k) table)[a]? = if a ∈ ks then none else table[a]? := by
  induction ks generalizing table with
  | nil => simp
  | cons b ks ih =>
    rw [List.foldl_cons, ih, getElem?_erase]
    by_cases hmem : a ∈ ks
    · simp [hmem]
    · by_cases hba : b = a
      · simp [hba]
      · have hab : a ≠ b := fun h => hba h.symm
        simp [hmem, hba, hab]

/-- The loop that inserts records under their own keys, no key twice. -/
theorem getElem?_foldl_insert (key : ν → κ) (records : List ν)
    (hnodup : (records.map key).Nodup) :
    (records.foldl (fun t r => t.insert (key r) r) table)[a]? =
      match records.find? (key · = a) with
      | some r => some r
      | none => table[a]? := by
  induction records generalizing table with
  | nil => rfl
  | cons r records ih =>
    obtain ⟨hr, hrest⟩ := List.nodup_cons.mp hnodup
    rw [List.foldl_cons, ih _ hrest, List.find?_cons]
    by_cases ha : key r = a
    · have hnone : records.find? (key · = a) = none := by
        rw [List.find?_eq_none]
        intro x hx hkey
        refine hr (List.mem_map.mpr ⟨x, hx, ?_⟩)
        rw [ha]
        simpa using hkey
      simp [hnone, ha]
    · simp [ha, getElem?_insert]

/-! ## Records under their own keys -/

def Keyed (key : ν → κ) (table : ExtTreeMap κ ν) : Prop :=
  ∀ k v, table[k]? = some v → key v = k

def records (table : ExtTreeMap κ ν) : List ν := table.toList.map Prod.snd

variable {table} {k a v} {key : ν → κ} {rs : List ν}

omit [DecidableEq κ] in
theorem mem_records (h : Keyed key table) : v ∈ records table ↔ table[key v]? = some v := by
  unfold records
  rw [List.mem_map]
  constructor
  · rintro ⟨⟨k, v'⟩, hmem, rfl⟩
    have hget : table[k]? = some v' := ExtTreeMap.mem_toList_iff_getElem?_eq_some.mp hmem
    rw [h k v' hget]
    exact hget
  · exact fun hget => ⟨(key v, v), ExtTreeMap.mem_toList_iff_getElem?_eq_some.mpr hget, rfl⟩

omit [DecidableEq κ] in
theorem nodup_records (h : Keyed key table) : ((records table).map key).Nodup := by
  have hkeys : (records table).map key = table.keys := by
    rw [records, List.map_map, ← ExtTreeMap.map_fst_toList_eq_keys]
    refine List.map_congr_left fun pair hmem => ?_
    exact h pair.1 pair.2 (ExtTreeMap.mem_toList_iff_getElem?_eq_some.mp hmem)
  rw [hkeys]
  exact ExtTreeMap.nodup_keys

theorem find?_records (h : Keyed key table) (hperm : rs.Perm (records table)) (a : κ) :
    rs.find? (key · = a) = table[a]? := by
  cases hfind : rs.find? (key · = a) with
  | some r =>
    have hmem := (mem_records h).mp (hperm.subset (List.mem_of_find?_eq_some hfind))
    have hkey : key r = a := by simpa using List.find?_some hfind
    rw [← hkey, hmem]
  | none =>
    cases hget : table[a]? with
    | none => rfl
    | some v =>
      have hkey : key v = a := h a v hget
      have hmem : v ∈ rs := hperm.mem_iff.mpr ((mem_records h).mpr (by rw [hkey, hget]))
      exact absurd hkey (by simpa using List.find?_eq_none.mp hfind v hmem)

theorem foldl_insert_records (h : Keyed key table) (hperm : rs.Perm (records table)) :
    rs.foldl (fun t r => t.insert (key r) r) ∅ = table := by
  have hnodup : (rs.map key).Nodup := (hperm.map key).nodup_iff.mpr (nodup_records h)
  refine ExtTreeMap.ext_getElem? fun a => ?_
  rw [getElem?_foldl_insert ∅ a key rs hnodup, find?_records h hperm]
  cases table[a]? with
  | none => exact ExtTreeMap.getElem?_empty
  | some v => rfl

theorem getElem?_foldl_insert_empty (hnodup : (rs.map key).Nodup) :
    (rs.foldl (fun t r => t.insert (key r) r) (∅ : ExtTreeMap κ ν))[k]? = some v ↔ v ∈ rs ∧ key v = k := by
  rw [getElem?_foldl_insert ∅ k key rs hnodup]
  cases hfind : rs.find? (key · = k) with
  | some r =>
    have hmem := List.mem_of_find?_eq_some hfind
    have hkey : key r = k := by simpa using List.find?_some hfind
    simp only [Option.some.injEq]
    constructor
    · rintro rfl
      exact ⟨hmem, hkey⟩
    · rintro ⟨hv, hvk⟩
      exact List.inj_on_of_nodup_map hnodup hmem hv (hkey.trans hvk.symm)
  | none =>
    have hno : ¬(v ∈ rs ∧ key v = k) := fun ⟨hv, hvk⟩ =>
      absurd hvk (by simpa using List.find?_eq_none.mp hfind v hv)
    simp [hno]

/-! ## Weights -/

def weight (f : ν → ℕ) (table : ExtTreeMap κ ν) : ℕ := ((records table).map f).sum

theorem weight_eq_sum (f : ν → ℕ) {keys : Finset κ} (h : ∀ k ∈ table, k ∈ keys) :
    weight f table = ∑ k ∈ keys, (table[k]?).elim 0 f := by
  have hlist : (records table).map f = table.keys.map fun k => (table[k]?).elim 0 f := by
    rw [records, ← ExtTreeMap.map_fst_toList_eq_keys, List.map_map, List.map_map]
    refine List.map_congr_left fun entry hmem => ?_
    simp [ExtTreeMap.mem_toList_iff_getElem?_eq_some.mp hmem]
  rw [weight, hlist, ← List.sum_toFinset _ ExtTreeMap.nodup_keys]
  refine Finset.sum_subset (fun k hk => h k (by simpa using hk)) fun k _ hk => ?_
  have hnone : table[k]? = none := by simpa using hk
  simp [hnone]

theorem weight_lt (f : ν → ℕ) {table' : ExtTreeMap κ ν}
    (hle : ∀ k : κ, (table'[k]?).elim 0 f ≤ (table[k]?).elim 0 f) (k : κ)
    (hlt : (table'[k]?).elim 0 f < (table[k]?).elim 0 f) : weight f table' < weight f table := by
  have hk : k ∈ table := by
    by_contra hnot
    have hnone : table[k]? = none := by simpa using hnot
    rw [hnone] at hlt
    exact Nat.not_lt_zero _ hlt
  let keys := (table.keys ++ table'.keys).toFinset
  have hcover : ∀ a ∈ table, a ∈ keys := fun a ha => by simp [keys, ha]
  have hcover' : ∀ a ∈ table', a ∈ keys := fun a ha => by simp [keys, ha]
  rw [weight_eq_sum f hcover, weight_eq_sum f hcover']
  exact Finset.sum_lt_sum (fun a _ => hle a) ⟨k, hcover k hk, hlt⟩

end KeyedTable
