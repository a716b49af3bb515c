import OSCoreSim.Process.OwnView
import OSCoreSim.View.OverviewRenderer
/-!
# The warnings of the overview

The renderer is given the ready queues of all users and the PCBs of one.  It finds nothing
under the PID of another user's process, and warns as if the entry were stale.
-/

namespace OSCoreSim

open ProcessManager

/-! ## The copies of one user -/

namespace ProcessManager

variable {pm : ProcessManager} {owner : Str} {pid : UInt32} {pcb : PCB}

theorem mem_processCopies :
    pcb ∈ pm.getProcessCopiesForUser owner ↔ ∃ pid, pm.ownedPcb owner pid = some pcb := by
  rw [getProcessCopiesForUser, processCopiesIn, List.mem_insertionSort, List.mem_filter,
    List.mem_map]
  constructor
  · rintro ⟨⟨⟨pid, found⟩, hentry, rfl⟩, howner⟩
    exact ⟨pid, (mem_owned_iff (List.Perm.refl _)).mp (List.mem_filter.mpr ⟨hentry, howner⟩)⟩
  · rintro ⟨pid, hget⟩
    obtain ⟨hentry, howner⟩ := List.mem_filter.mp ((mem_owned_iff (List.Perm.refl _)).mpr hget)
    exact ⟨⟨(pid, pcb), hentry, rfl⟩, howner⟩

theorem nodup_processCopies (h : pm.Keyed) :
    ((pm.getProcessCopiesForUser owner).map (·.pid)).Nodup := by
  have hall : (pm.pcbTable.toList.map fun entry => entry.2.pid).Nodup := by
    have hkeys := KeyedTable.nodup_records h
    rwa [KeyedTable.records, List.map_map] at hkeys
  have hperm := ((List.perm_insertionSort (fun left right : PCB => left.pid ≤ right.pid)
    ((pm.pcbTable.toList.map Prod.snd).filter (·.owner = owner))).map (·.pid)).nodup_iff
  rw [getProcessCopiesForUser, processCopiesIn, hperm]
  refine List.Nodup.sublist (List.filter_sublist.map _) ?_
  rwa [List.map_map]

end ProcessManager

namespace OverviewRenderer

variable {floats : FloatFormat} {queues : ReadyQueues} {userProcesses : List PCB}
  {pm : ProcessManager} {owner : Str} {pid : UInt32} {q : Fin 3}

theorem pcbMap_processCopies (h : pm.Keyed) (owner : Str) (pid : UInt32) :
    (pcbMap (pm.getProcessCopiesForUser owner))[pid]? = pm.ownedPcb owner pid := by
  apply Option.ext
  intro pcb
  rw [pcbMap, KeyedTable.getElem?_foldl_insert_empty (nodup_processCopies h), mem_processCopies]
  constructor
  · rintro ⟨⟨k, hown⟩, rfl⟩
    rwa [h.own k pcb hown]
  · exact fun hown => ⟨⟨pid, hown⟩, h.own pid pcb hown⟩

/-! ## The section on the queues -/

def queueSection (floats : FloatFormat) (readyQueues : ReadyQueues) (userProcesses : List PCB) :
    Str :=
  popNewline (str "[5] 多级反馈队列 / MLFQ\n" ++ (List.finRange 3).flatMap fun q =>
    queueText floats (pcbMap userProcesses) q (readyQueues q))

/-- Nothing stands behind the queues: the section has no part `[Warnings]`. -/
def WarnsNothing (floats : FloatFormat) (readyQueues : ReadyQueues) (userProcesses : List PCB) :
    Prop :=
  renderMLFQ floats readyQueues userProcesses = queueSection floats readyQueues userProcesses

theorem length_popNewline (s : Str) : (popNewline s).length ≤ s.length := by
  unfold popNewline
  split
  · rw [List.length_dropLast]
    omega
  · exact Nat.le_refl _

theorem length_le_popNewline (s : Str) : s.length ≤ (popNewline s).length + 1 := by
  unfold popNewline
  split
  · rw [List.length_dropLast]
    omega
  · omega

theorem warnsNothing_iff : WarnsNothing floats queues userProcesses ↔
    ∀ q, ∀ pid ∈ queues q, entryWarnings (pcbMap userProcesses) q pid = [] := by
  have hnil : ((List.finRange 3).flatMap fun q =>
      (queues q).flatMap (entryWarnings (pcbMap userProcesses) q)) = [] ↔
      ∀ q, ∀ pid ∈ queues q, entryWarnings (pcbMap userProcesses) q pid = [] := by
    simp [List.flatMap_eq_nil_iff]
  rw [← hnil, WarnsNothing, renderMLFQ, queueSection]
  constructor
  · intro hsame
    by_contra hwarns
    rw [if_neg hwarns] at hsame
    -- the heading alone is longer than the newline that may be removed
    have hlength := congrArg List.length hsame
    have hlong := length_le_popNewline (str "[5] 多级反馈队列 / MLFQ\n" ++
      ((List.finRange 3).flatMap fun q => queueText floats (pcbMap userProcesses) q (queues q)) ++
      (str "\n[Warnings]\n" ++ ((List.finRange 3).flatMap fun q =>
        (queues q).flatMap (entryWarnings (pcbMap userProcesses) q)).flatMap
          fun warning => str "- " ++ warning ++ str "\n"))
    have hshort := length_popNewline (str "[5] 多级反馈队列 / MLFQ\n" ++
      ((List.finRange 3).flatMap fun q => queueText floats (pcbMap userProcesses) q (queues q)))
    have hheading : (str "\n[Warnings]\n").length = 12 := by decide
    simp only [List.length_append] at hlong hshort
    omega
  · intro hquiet
    rw [if_pos hquiet, List.append_nil]

/-- An entry that is stale, in another state than READY, at the wrong level or swapped out. -/
def Abnormal (pm : ProcessManager) (q : Fin 3) (pid : UInt32) : Prop :=
  ∀ pcb, pm.pcbTable[pid]? = some pcb →
    pcb.state ≠ .ready ∨ pcb.queueLevel ≠ levelOfQueue q ∨ pcb.swappedOut = true

def OwnEntriesOnly (owner : Str) (pm : ProcessManager) : Prop :=
  ∀ q, ∀ pid ∈ pm.readyQueues q, ∀ pcb, pm.pcbTable[pid]? = some pcb → pcb.owner = owner

theorem entryWarnings_eq_nil (h : pm.Keyed) :
    entryWarnings (pcbMap (pm.getProcessCopiesForUser owner)) q pid = [] ↔
      pm.hasProcess owner pid = true ∧ ¬Abnormal pm q pid := by
  rw [entryWarnings, pcbMap_processCopies h, hasProcess]
  cases hown : pm.ownedPcb owner pid with
  | none => simp
  | some pcb =>
    have hget := (ownedPcb_eq_some.mp hown).1
    simp [Abnormal, hget]

/-- The warnings of any state: an entry has none if it is the user's own and in order. -/
theorem warnsNothing_processCopies (h : pm.Keyed) :
    WarnsNothing floats pm.readyQueues (pm.getProcessCopiesForUser owner) ↔
      ∀ q, ∀ pid ∈ pm.readyQueues q, pm.hasProcess owner pid = true ∧ ¬Abnormal pm q pid := by
  rw [warnsNothing_iff]
  exact forall_congr' fun q => forall₂_congr fun pid _ => entryWarnings_eq_nil h

/-- Where every entry is in order, the warnings are about the entries of other users. -/
theorem warnsNothing_iff_own (h : pm.Keyed)
    (hnormal : ∀ q, ∀ pid ∈ pm.readyQueues q, ¬Abnormal pm q pid) :
    WarnsNothing floats pm.readyQueues (pm.getProcessCopiesForUser owner) ↔
      OwnEntriesOnly owner pm := by
  rw [warnsNothing_processCopies h]
  refine forall_congr' fun q => forall₂_congr fun pid hmem => ?_
  constructor
  · rintro ⟨hhas, -⟩ pcb hget
    obtain ⟨own, hown⟩ := Option.isSome_iff_exists.mp hhas
    obtain ⟨hsame, howner⟩ := ownedPcb_eq_some.mp hown
    rw [hget] at hsame
    cases hsame
    exact howner
  · intro hforeign
    refine ⟨?_, hnormal q pid hmem⟩
    cases hget : pm.pcbTable[pid]? with
    | none =>
      have hstale : Abnormal pm q pid := fun pcb hsome => by
        rw [hget] at hsome
        cases hsome
      exact absurd hstale (hnormal q pid hmem)
    | some pcb =>
      exact Option.isSome_iff_exists.mpr ⟨pcb, ownedPcb_eq_some.mpr ⟨hget, hforeign pcb hget⟩⟩

end OverviewRenderer

end OSCoreSim
