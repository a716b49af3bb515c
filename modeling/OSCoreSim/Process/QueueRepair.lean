import OSCoreSim.Lib.FirstOccurrence
import OSCoreSim.Process.ReadyIndex
/-!
# The repair of the ready queues

`validateReadyQueues` erases while it goes through the three queues, with one set of seen
PIDs for all of them.  A PID enters the set only where it has its place, and it has its place
in one queue only, so the set never tells one queue about another: each queue keeps the first
occurrence of every PID that belongs there.
-/

namespace OSCoreSim

open FirstOccurrence

namespace ProcessManager

variable {pm : ProcessManager} {k : UInt32} {q q' : Fin 3}

def HasPlace (pm : ProcessManager) (q : Fin 3) (pid : UInt32) : Prop :=
  ∃ pcb, pm.pcbTable[pid]? = some pcb ∧ pcb.state = .ready ∧ pcb.swappedOut = false ∧
    pcb.queueLevel = levelOfQueue q

theorem isIndexedAt_iff : pm.isIndexedAt q k ↔ pm.HasPlace q k := by
  unfold isIndexedAt HasPlace
  cases pm.pcbTable[k]? <;> simp

instance (pm : ProcessManager) (q : Fin 3) (pid : UInt32) : Decidable (pm.HasPlace q pid) :=
  decidable_of_iff _ isIndexedAt_iff

theorem levelOfQueue_inj (h : levelOfQueue q = levelOfQueue q') : q = q' := by
  revert h
  fin_cases q <;> fin_cases q' <;> decide

theorem HasPlace.unique (h : pm.HasPlace q k) (h' : pm.HasPlace q' k) : q = q' := by
  obtain ⟨pcb, hget, -, -, hlevel⟩ := h
  obtain ⟨pcb', hget', -, -, hlevel'⟩ := h'
  rw [hget] at hget'
  cases hget'
  exact levelOfQueue_inj (hlevel.symm.trans hlevel')

/-! ## The loops -/

def placed (pm : ProcessManager) (q : Fin 3) (queue : List UInt32) : List UInt32 :=
  (queue.filter fun pid => pm.HasPlace q pid).eraseDups

def dropped (pm : ProcessManager) (q : Fin 3) (queue : List UInt32) : ℕ :=
  queue.length - (pm.placed q queue).length

theorem mem_placed {queue : List UInt32} : k ∈ pm.placed q queue ↔ k ∈ queue ∧ pm.HasPlace q k := by
  simp [placed, List.mem_eraseDups]

/-- PIDs that were seen elsewhere do not count. -/
theorem firstNew_eq_placed {seen : List UInt32} (hseen : ∀ k ∈ seen, ¬pm.HasPlace q k)
    (queue : List UInt32) : firstNew (pm.isIndexedAt q) seen queue = pm.placed q queue := by
  have hforeign : ∀ k ∈ seen, ¬pm.isIndexedAt q k = true := fun k hk => by
    rw [isIndexedAt_iff]
    exact hseen k hk
  rw [firstNew_of_forall hforeign, placed]
  congr 2
  funext pid
  exact Bool.eq_iff_iff.mpr (isIndexedAt_iff.trans decide_eq_true_iff.symm)

theorem placed_eq_firstNew (pm : ProcessManager) (q : Fin 3) (queue : List UInt32) :
    pm.placed q queue = firstNew (pm.isIndexedAt q) [] queue :=
  (firstNew_eq_placed (by simp) queue).symm

theorem repairQueue_eq (pm : ProcessManager) (q : Fin 3) (queue seen : List UInt32) :
    pm.repairQueue q queue seen =
      (firstNew (pm.isIndexedAt q) seen queue,
        (firstNew (pm.isIndexedAt q) seen queue).reverse ++ seen,
        queue.length - (firstNew (pm.isIndexedAt q) seen queue).length) := by
  induction queue generalizing seen with
  | nil => rfl
  | cons pid rest ih =>
    unfold repairQueue
    by_cases h : pm.isIndexedAt q pid = true ∧ pid ∉ seen
    · have hvalid : ¬((!pm.isIndexedAt q pid) = true ∨ pid ∈ seen) := by simp [h]
      rw [if_neg hvalid, ih, firstNew_cons_of_pos h.1 h.2]
      simp
    · have hinvalid : (!pm.isIndexedAt q pid) = true ∨ pid ∈ seen := by
        by_cases hplace : pm.isIndexedAt q pid = true
        · exact .inr (not_not.mp fun hnew => h ⟨hplace, hnew⟩)
        · exact .inl (by simpa using hplace)
      have hle : (firstNew (pm.isIndexedAt q) seen rest).length ≤ rest.length :=
        firstNew_sublist.length_le
      rw [if_pos hinvalid, ih, firstNew_cons_of_neg h]
      simp only [List.length_cons, Nat.succ_sub hle]

/-- Over several levels: nothing that was seen at one level has its place at another. -/
theorem repairQueues_eq {levels : List (Fin 3)} {queues : ReadyQueues} {seen : List UInt32}
    (hlevels : levels.Nodup) (hseen : ∀ q ∈ levels, ∀ k ∈ seen, ¬pm.HasPlace q k)
    (removed : ℕ) :
    pm.repairQueues levels queues seen removed =
      (fun q => if q ∈ levels then pm.placed q (queues q) else queues q,
        removed + (levels.map fun q => pm.dropped q (queues q)).sum) := by
  induction levels generalizing queues seen removed with
  | nil => simp [repairQueues]
  | cons level rest ih =>
    obtain ⟨hlevel, hrest⟩ := List.nodup_cons.mp hlevels
    have hkept := firstNew_eq_placed (hseen level List.mem_cons_self) (queues level)
    have hseen' : ∀ q ∈ rest, ∀ k ∈ (pm.placed level (queues level)).reverse ++ seen,
        ¬pm.HasPlace q k := by
      intro q hq k hk hplace
      rcases List.mem_append.mp hk with hk | hk
      · have hsame := hplace.unique (mem_placed.mp (List.mem_reverse.mp hk)).2
        exact hlevel (hsame ▸ hq)
      · exact hseen q (List.mem_cons_of_mem level hq) k hk hplace
    -- the queues of the later levels are still as they were
    have hlater : ∀ (kept : List UInt32), ∀ q ∈ rest,
        Function.update queues level kept q = queues q := by
      intro kept q hq
      have hne : q ≠ level := fun heq => hlevel (heq ▸ hq)
      exact Function.update_of_ne hne kept queues
    unfold repairQueues
    simp only [repairQueue_eq, hkept]
    rw [ih hrest hseen']
    refine Prod.ext (funext fun q => ?_) ?_
    · by_cases hq : q ∈ rest
      · simp only [hq, if_true, hlater _ q hq, List.mem_cons, or_true]
      · by_cases heq : q = level
        · subst heq
          simp only [hq, if_false, Function.update_self, List.mem_cons_self, if_true]
        · simp only [hq, if_false, Function.update_of_ne heq, List.mem_cons, heq, or_self]
    · have hsame : (rest.map fun q => pm.dropped q
          (Function.update queues level (pm.placed level (queues level)) q)) =
          rest.map fun q => pm.dropped q (queues q) :=
        List.map_congr_left fun q hq => by rw [hlater _ q hq]
      simp only [hsame, List.map_cons, List.sum_cons, Nat.add_assoc]
      rfl

/-! ## The validation -/

def repairReport (removed : ℕ) : Str :=
  if removed = 0 then str "Ready queue validation passed."
  else str "Ready queue validation repaired " ++ decimal removed ++ str " invalid entries."

def entryCount (queues : ReadyQueues) : ℕ := ((List.finRange 3).map fun q => (queues q).length).sum

def repaired (pm : ProcessManager) : ProcessManager :=
  { pm with readyQueues := fun q => pm.placed q (pm.readyQueues q) }

theorem length_placed_add_dropped (pm : ProcessManager) (q : Fin 3) (queue : List UInt32) :
    (pm.placed q queue).length + pm.dropped q queue = queue.length := by
  have hle : (pm.placed q queue).length ≤ queue.length := by
    rw [placed_eq_firstNew]
    exact firstNew_sublist.length_le
  exact Nat.add_sub_cancel' hle

theorem entryCount_repaired (pm : ProcessManager) : entryCount pm.repaired.readyQueues +
    ((List.finRange 3).map fun q => pm.dropped q (pm.readyQueues q)).sum =
      entryCount pm.readyQueues := by
  unfold entryCount
  rw [← List.sum_map_add]
  exact congrArg List.sum (List.map_congr_left fun q _ => pm.length_placed_add_dropped q _)

theorem validateReadyQueues_eq (pm : ProcessManager) : pm.validateReadyQueues =
    (pm.repaired,
      repairReport (entryCount pm.readyQueues - entryCount pm.repaired.readyQueues)) := by
  have hcount := pm.entryCount_repaired
  unfold validateReadyQueues
  rw [repairQueues_eq (List.nodup_finRange 3) (by simp)]
  simp only [List.mem_finRange, if_true, Nat.zero_add, ← hcount, Nat.add_sub_cancel_left]
  rfl

/-- The queues hold PIDs that have their place there, none of them twice. -/
def ValidQueues (pm : ProcessManager) : Prop :=
  ∀ q, (pm.readyQueues q).Nodup ∧ ∀ k ∈ pm.readyQueues q, pm.HasPlace q k

theorem placed_eq_self_iff {queue : List UInt32} :
    pm.placed q queue = queue ↔ queue.Nodup ∧ ∀ k ∈ queue, pm.HasPlace q k := by
  rw [placed_eq_firstNew, firstNew_eq_self_iff]
  simp [isIndexedAt_iff]

theorem repaired_eq_self_iff : pm.repaired = pm ↔ pm.ValidQueues := by
  constructor
  · intro h q
    exact placed_eq_self_iff.mp (congrFun (congrArg readyQueues h) q)
  · intro h
    have hqueues : (fun q => pm.placed q (pm.readyQueues q)) = pm.readyQueues :=
      funext fun q => placed_eq_self_iff.mpr (h q)
    unfold repaired
    rw [hqueues]

theorem nodup_placed (pm : ProcessManager) (q : Fin 3) (queue : List UInt32) :
    (pm.placed q queue).Nodup := by
  rw [placed_eq_firstNew]
  exact nodup_firstNew

theorem validQueues_repaired (pm : ProcessManager) : pm.repaired.ValidQueues := fun q =>
  ⟨pm.nodup_placed q _, fun _ hk => (mem_placed.mp hk).2⟩

theorem ValidQueues.validateReadyQueues (h : pm.ValidQueues) :
    pm.validateReadyQueues = (pm, repairReport 0) := by
  rw [validateReadyQueues_eq, repaired_eq_self_iff.mpr h, Nat.sub_self]

theorem Indexed.validateReadyQueues (h : Indexed pm) :
    pm.validateReadyQueues = (pm, str "Ready queue validation passed.") := by
  refine ValidQueues.validateReadyQueues fun q => ⟨h.nodup q, fun k hk => ?_⟩
  obtain ⟨pcb, hget, hlevel⟩ := (h.mem_iff q k).mp hk
  obtain ⟨hready, hindex⟩ := readyLevel_eq_some.mp hlevel
  exact ⟨pcb, hget, hready, h.swappedOut_of_ready hget hready, queueIndex_eq_some.mp hindex⟩

/-- What a repair of the queues of `pm` ends with. -/
structure Repairs (pm pm' : ProcessManager) (message : Str) : Prop where
  frame : pm' = { pm with readyQueues := pm'.readyQueues }
  kept : ∀ q, pm'.readyQueues q =
    ((pm.readyQueues q).filter fun pid => pm.HasPlace q pid).eraseDups
  counted : ∃ dropped, entryCount pm'.readyQueues + dropped = entryCount pm.readyQueues ∧
    message = repairReport dropped
  again : pm'.validateReadyQueues = (pm', repairReport 0)
  unchanged : pm.ValidQueues → pm' = pm ∧ message = repairReport 0
  misplaced : ∀ (q q' : Fin 3) (pid : UInt32), q' ≠ q → pid ∈ pm.readyQueues q' →
    pid ∈ pm.readyQueues q → pm.HasPlace q pid →
      pid ∈ pm'.readyQueues q ∧ pid ∉ pm'.readyQueues q'

/-- For every table and all queues the validation keeps the first occurrences of the PIDs that
have their place in the queue, in the old order, and reports how many entries it has dropped. -/
theorem repairs_of_validate (pm : ProcessManager) :
    pm.Repairs pm.validateReadyQueues.1 pm.validateReadyQueues.2 := by
  rw [validateReadyQueues_eq]
  have hcount := pm.entryCount_repaired
  exact {
    frame := rfl
    kept := fun q => rfl
    counted := ⟨_, Nat.add_sub_cancel' (Nat.le.intro hcount), rfl⟩
    again := pm.validQueues_repaired.validateReadyQueues
    unchanged := fun h => by
      rw [repaired_eq_self_iff.mpr h, Nat.sub_self]
      exact ⟨rfl, rfl⟩
    misplaced := fun q q' pid hne _ hmem hplace =>
      ⟨mem_placed.mpr ⟨hmem, hplace⟩, fun hmem' =>
        hne ((mem_placed.mp hmem').2.unique hplace)⟩ }

end ProcessManager

end OSCoreSim
