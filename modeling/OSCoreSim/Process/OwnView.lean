import OSCoreSim.Lib.DepthFirst
import OSCoreSim.Process.ProcessView
import OSCoreSim.Process.Transitions
/-!
# What the listings of one owner depend on

Two process managers with the same PCBs of an owner, and with ready queues that list these in the
same order, show the owner the same, whatever else they hold and in whatever order the hash
tables are met.
-/

namespace OSCoreSim

open Std (ExtTreeMap)

namespace ProcessManager

variable {pm pm' : ProcessManager} {owner : Str} {entries entries' : List (UInt32 × PCB)}
  {nodes : List UInt32}

/-- All that `owner` owns, and its places in the ready queues. -/
structure SameProcesses (owner : Str) (pm pm' : ProcessManager) : Prop where
  owned : ∀ pid, pm.ownedPcb owner pid = pm'.ownedPcb owner pid
  ready : ∀ q, (pm.readyQueues q).filter (pm.hasProcess owner ·) =
    (pm'.readyQueues q).filter (pm'.hasProcess owner ·)

def OwnKeyed (owner : Str) (pm : ProcessManager) : Prop :=
  ∀ (pid : UInt32) (pcb : PCB), pm.ownedPcb owner pid = some pcb → pcb.pid = pid

theorem Keyed.own (h : pm.Keyed) : pm.OwnKeyed owner := fun pid pcb hown =>
  h pid pcb (ownedPcb_eq_some.mp hown).1

theorem SameProcesses.has (h : SameProcesses owner pm pm') (pid : UInt32) :
    pm.hasProcess owner pid = pm'.hasProcess owner pid := by
  rw [hasProcess, hasProcess, h.owned]

/-! ## Sorting forgets the order of the hash table -/

/-- Lists with the same entries are sorted into the same list if no two entries tie. -/
theorem insertionSort_eq_of_perm {α : Type} {r : α → α → Prop} [DecidableRel r]
    (htotal : ∀ a b, r a b ∨ r b a) (htrans : ∀ a b c, r a b → r b c → r a c) {xs ys : List α}
    (hties : ∀ a b, a ∈ xs → b ∈ xs → r a b → r b a → a = b) (h : xs.Perm ys) :
    xs.insertionSort r = ys.insertionSort r := by
  have : Std.Total r := ⟨htotal⟩
  have : IsTrans α r := ⟨htrans⟩
  have hleft := List.perm_insertionSort r xs
  have hright := List.perm_insertionSort r ys
  apply List.Perm.eq_of_pairwise _ (List.pairwise_insertionSort r xs)
    (List.pairwise_insertionSort r ys) (hleft.trans (h.trans hright.symm))
  intro a b ha hb
  exact hties a b (hleft.mem_iff.mp ha) (h.mem_iff.mpr (hright.mem_iff.mp hb))

theorem sortedIds_eq_of_perm {ids ids' : List UInt32} (h : ids.Perm ids') :
    sortedIds ids = sortedIds ids' :=
  insertionSort_eq_of_perm UInt32.le_total (fun _ _ _ => UInt32.le_trans)
    (fun _ _ _ _ => UInt32.le_antisymm) h

theorem mem_owned_iff (horder : entries.Perm pm.pcbTable.toList) {pid : UInt32} {pcb : PCB} :
    (pid, pcb) ∈ entries.filter (·.2.owner = owner) ↔ pm.ownedPcb owner pid = some pcb := by
  rw [List.mem_filter, horder.mem_iff, ExtTreeMap.mem_toList_iff_getElem?_eq_some,
    ownedPcb_eq_some, decide_eq_true_eq]

theorem ownedPcb_eq_of_filter (h : pm.pcbTable.toList.filter (·.2.owner = owner) =
    pm'.pcbTable.toList.filter (·.2.owner = owner)) (pid : UInt32) :
    pm.ownedPcb owner pid = pm'.ownedPcb owner pid := by
  apply Option.ext
  intro pcb
  rw [← mem_owned_iff (List.Perm.refl _), ← mem_owned_iff (List.Perm.refl _), h]

theorem nodup_entries (horder : entries.Perm pm.pcbTable.toList) :
    (entries.map Prod.fst).Nodup := by
  rw [(horder.map Prod.fst).nodup_iff, ExtTreeMap.map_fst_toList_eq_keys]
  exact ExtTreeMap.nodup_keys

theorem owned_perm (h : SameProcesses owner pm pm') (horder : entries.Perm pm.pcbTable.toList)
    (horder' : entries'.Perm pm'.pcbTable.toList) :
    (entries.filter (·.2.owner = owner)).Perm (entries'.filter (·.2.owner = owner)) := by
  apply (List.perm_ext_iff_of_nodup ((nodup_entries horder).of_map.filter _)
    ((nodup_entries horder').of_map.filter _)).mpr
  rintro ⟨pid, pcb⟩
  rw [mem_owned_iff horder, mem_owned_iff horder', h.owned]

theorem processCopiesIn_eq (h : SameProcesses owner pm pm') (hkeyed : pm.OwnKeyed owner)
    (horder : entries.Perm pm.pcbTable.toList) (horder' : entries'.Perm pm'.pcbTable.toList) :
    processCopiesIn entries owner = processCopiesIn entries' owner := by
  have hcopies : ∀ entries : List (UInt32 × PCB), (entries.map Prod.snd).filter (·.owner = owner) =
      (entries.filter (·.2.owner = owner)).map Prod.snd := fun entries => by
    rw [List.filter_map]
    rfl
  rw [processCopiesIn, processCopiesIn, hcopies, hcopies]
  apply insertionSort_eq_of_perm
  · exact fun a b => UInt32.le_total a.pid b.pid
  · exact fun _ _ _ => UInt32.le_trans
  · -- two copies with one PID are copies of one entry
    intro a b ha hb hab hba
    obtain ⟨⟨pid, pcb⟩, hentry, rfl⟩ := List.mem_map.mp ha
    obtain ⟨⟨pid', pcb'⟩, hentry', rfl⟩ := List.mem_map.mp hb
    have hget := (mem_owned_iff horder).mp hentry
    have hget' := (mem_owned_iff horder).mp hentry'
    have hpid : pid = pid' := calc
      pid = pcb.pid := (hkeyed pid pcb hget).symm
      _ = pcb'.pid := UInt32.le_antisymm hab hba
      _ = pid' := hkeyed pid' pcb' hget'
    rw [← hpid, hget] at hget'
    exact Option.some.inj hget'
  · exact (owned_perm h horder horder').map Prod.snd

theorem treeRootsIn_eq (h : SameProcesses owner pm pm')
    (horder : entries.Perm pm.pcbTable.toList) (horder' : entries'.Perm pm'.pcbTable.toList) :
    pm.treeRootsIn entries owner = pm'.treeRootsIn entries' owner := by
  unfold treeRootsIn
  simp only [h.has]
  exact sortedIds_eq_of_perm (((owned_perm h horder horder').filter _).map _)

/-! ## The depth bound of the tree -/

def ownPids (pm : ProcessManager) (owner : Str) : List UInt32 :=
  (pm.pcbTable.toList.filter (·.2.owner = owner)).map Prod.fst

theorem mem_ownPids {pid : UInt32} (h : pm.hasProcess owner pid = true) :
    pid ∈ pm.ownPids owner := by
  obtain ⟨pcb, hown⟩ := Option.isSome_iff_exists.mp h
  exact List.mem_map.mpr ⟨(pid, pcb), (mem_owned_iff (List.Perm.refl _)).mpr hown, rfl⟩

theorem length_ownPids_le (pm : ProcessManager) (owner : Str) :
    (pm.ownPids owner).length ≤ pm.pcbTable.size := by
  rw [ownPids, List.length_map, ← ExtTreeMap.length_toList]
  exact List.length_filter_le _ _

theorem unvisited_cons_lt {pid : UInt32} {visited : List UInt32} (hmem : pid ∈ nodes)
    (hnot : pid ∉ visited) :
    DepthFirst.unvisited nodes (pid :: visited) < DepthFirst.unvisited nodes visited := by
  have hsub : visited ++ [pid] ⊆ pid :: visited := by
    intro x hx
    simpa [or_comm] using hx
  exact Nat.lt_of_le_of_lt (DepthFirst.unvisited_le hsub)
    (DepthFirst.unvisited_append_lt hmem hnot)

def treeLoop (visit : UInt32 → Bool → List UInt32 → List UInt32 × Str) (children : List UInt32)
    (start : List UInt32 × Str) : List UInt32 × Str :=
  children.zipIdx.foldl (fun (visited, output) (child, i) =>
    let (visited, text) := visit child (i + 1 = children.length) visited
    (visited, output ++ str "\n" ++ text)) start

/-- Loops whose visits agree as long as the visited PIDs satisfy `P`, which visits keep. -/
theorem treeLoop_spec {visit visit' : UInt32 → Bool → List UInt32 → List UInt32 × Str}
    {P : List UInt32 → Prop} (hsame : ∀ child isLast visited, P visited →
      visit child isLast visited = visit' child isLast visited)
    (hkeep : ∀ child isLast visited, P visited → P (visit child isLast visited).1)
    (children : List UInt32) {start : List UInt32 × Str} (hstart : P start.1) :
    treeLoop visit children start = treeLoop visit' children start ∧
      P (treeLoop visit children start).1 := by
  unfold treeLoop
  generalize children.length = length
  induction children.zipIdx generalizing start with
  | nil => exact ⟨rfl, hstart⟩
  | cons child rest ih =>
    have hnext := hkeep child.1 (child.2 + 1 = length) start.1 hstart
    simp only [List.foldl_cons, ← hsame child.1 (child.2 + 1 = length) start.1 hstart]
    exact ih hnext

theorem appendTreeNode_succ {pid : UInt32} {pcb : PCB} {visited : List UInt32}
    (hown : pm.ownedPcb owner pid = some pcb) (hnot : pid ∉ visited) (linePrefix : Str)
    (isLast isRoot : Bool) : ∃ childPrefix node children, ∀ depth,
      appendTreeNode pm owner (depth + 1) pid linePrefix isLast isRoot visited =
        treeLoop (fun child isLast => appendTreeNode pm owner depth child childPrefix isLast false)
          children (pid :: visited, node) := by
  simp only [appendTreeNode, hown, hnot, if_false, treeLoop]
  exact ⟨_, _, _, fun _ => rfl⟩

theorem appendTreeNode_skip {pid : UInt32} {visited : List UInt32}
    (hskip : pm.ownedPcb owner pid = none ∨ pid ∈ visited) (linePrefix : Str)
    (isLast isRoot : Bool) : ∃ text, ∀ depth,
      appendTreeNode pm owner (depth + 1) pid linePrefix isLast isRoot visited = (visited, text) := by
  cases hown : pm.ownedPcb owner pid with
  | none => exact ⟨[], fun depth => by simp only [appendTreeNode, hown]⟩
  | some pcb =>
    have hvisited : pid ∈ visited := hskip.resolve_left (by simp [hown])
    simp only [appendTreeNode, hown, hvisited, if_true]
    exact ⟨_, fun _ => rfl⟩

theorem subset_appendTreeNode (depth : ℕ) (pid : UInt32) (linePrefix : Str) (isLast isRoot : Bool)
    (visited : List UInt32) :
    visited ⊆ (appendTreeNode pm owner depth pid linePrefix isLast isRoot visited).1 := by
  induction depth generalizing pid linePrefix isLast isRoot visited with
  | zero => exact List.Subset.refl _
  | succ depth ih =>
    by_cases hskip : pm.ownedPcb owner pid = none ∨ pid ∈ visited
    · obtain ⟨text, htext⟩ := appendTreeNode_skip hskip linePrefix isLast isRoot
      rw [htext]
      exact List.Subset.refl _
    · obtain ⟨hsome, hnot⟩ := not_or.mp hskip
      obtain ⟨pcb, hown⟩ := Option.ne_none_iff_exists'.mp hsome
      obtain ⟨childPrefix, node, children, hloop⟩ :=
        appendTreeNode_succ hown hnot linePrefix isLast isRoot
      rw [hloop]
      refine (treeLoop_spec (P := (visited ⊆ ·)) (fun _ _ _ _ => rfl)
        (fun child last _ hsub => ?_) children (List.subset_cons_self pid visited)).2
      exact List.Subset.trans hsub (ih child childPrefix last false _)

/-- Depth bounds beyond the PIDs that are still to be visited make no difference. -/
theorem appendTreeNode_depth (hnodes : ∀ pid, pm.hasProcess owner pid = true → pid ∈ nodes)
    {n m : ℕ} {visited : List UInt32} (hn : DepthFirst.unvisited nodes visited < n)
    (hm : DepthFirst.unvisited nodes visited < m) (pid : UInt32) (linePrefix : Str)
    (isLast isRoot : Bool) :
    appendTreeNode pm owner n pid linePrefix isLast isRoot visited =
      appendTreeNode pm owner m pid linePrefix isLast isRoot visited := by
  induction n generalizing m pid linePrefix isLast isRoot visited with
  | zero => exact absurd hn (Nat.not_lt_zero _)
  | succ n ih =>
    cases m with
    | zero => exact absurd hm (Nat.not_lt_zero _)
    | succ m =>
      by_cases hskip : pm.ownedPcb owner pid = none ∨ pid ∈ visited
      · obtain ⟨text, htext⟩ := appendTreeNode_skip hskip linePrefix isLast isRoot
        rw [htext, htext]
      · obtain ⟨hsome, hnot⟩ := not_or.mp hskip
        obtain ⟨pcb, hown⟩ := Option.ne_none_iff_exists'.mp hsome
        have hlt : DepthFirst.unvisited nodes (pid :: visited) <
            DepthFirst.unvisited nodes visited :=
          unvisited_cons_lt (hnodes pid (by rw [hasProcess, hown]; rfl)) hnot
        obtain ⟨childPrefix, node, children, hloop⟩ :=
          appendTreeNode_succ hown hnot linePrefix isLast isRoot
        rw [hloop, hloop]
        -- visits only ever lower the number of PIDs to be visited
        let Fewer (visited' : List UInt32) : Prop :=
          DepthFirst.unvisited nodes visited' < DepthFirst.unvisited nodes visited
        refine (treeLoop_spec (P := Fewer) (fun child last visited' hfewer => ?_)
          (fun child last visited' hfewer => ?_) children hlt).1
        · exact ih (by omega) (by omega) child childPrefix last false
        · have hsub : visited' ⊆
              (appendTreeNode pm owner n child childPrefix last false visited').1 :=
            subset_appendTreeNode n child childPrefix last false visited'
          exact Nat.lt_of_le_of_lt (DepthFirst.unvisited_le hsub) hfewer

theorem appendTreeNode_congr (h : SameProcesses owner pm pm') (depth : ℕ) :
    appendTreeNode pm owner depth = appendTreeNode pm' owner depth := by
  induction depth with
  | zero => rfl
  | succ depth ih =>
    funext pid linePrefix isLast isRoot visited
    simp only [appendTreeNode, h.owned, h.has, ih]

theorem appendTreeNode_eq (h : SameProcesses owner pm pm') :
    appendTreeNode pm owner (pm.pcbTable.size + 1) =
      appendTreeNode pm' owner (pm'.pcbTable.size + 1) := by
  rw [appendTreeNode_congr h]
  funext pid linePrefix isLast isRoot visited
  have hlength : (pm'.ownPids owner).length = (pm.ownPids owner).length := by
    simp only [ownPids, List.length_map]
    exact (owned_perm h (List.Perm.refl _) (List.Perm.refl _)).length_eq.symm
  have hcount : DepthFirst.unvisited (pm'.ownPids owner) visited ≤ (pm'.ownPids owner).length :=
    List.countP_le_length
  have hsize := length_ownPids_le pm owner
  have hsize' := length_ownPids_le pm' owner
  exact appendTreeNode_depth (fun _ => mem_ownPids) (by omega) (by omega) pid linePrefix isLast
    isRoot

/-! ## The listings -/

theorem listProcessesIn_eq (h : SameProcesses owner pm pm') (hkeyed : pm.OwnKeyed owner)
    (horder : entries.Perm pm.pcbTable.toList) (horder' : entries'.Perm pm'.pcbTable.toList) :
    listProcessesIn entries owner = listProcessesIn entries' owner := by
  unfold listProcessesIn
  rw [processCopiesIn_eq h hkeyed horder horder']

theorem processTreeIn_eq (h : SameProcesses owner pm pm')
    (horder : entries.Perm pm.pcbTable.toList) (horder' : entries'.Perm pm'.pcbTable.toList) :
    pm.processTreeIn entries owner = pm'.processTreeIn entries' owner := by
  unfold processTreeIn
  rw [treeRootsIn_eq h horder horder', appendTreeNode_eq h]

theorem visibleReady_eq (h : SameProcesses owner pm pm') (q : Fin 3) :
    pm.visibleReady owner q = pm'.visibleReady owner q := by
  have hown : ∀ pm : ProcessManager, pm.visibleReady owner q =
      ((pm.readyQueues q).filter (pm.hasProcess owner ·)).filter fun pid =>
        (pm.ownedPcb owner pid).any (·.state = .ready) := by
    intro pm
    rw [List.filter_filter]
    apply List.filter_congr
    intro pid _
    rw [hasProcess]
    cases pm.ownedPcb owner pid with
    | none => rfl
    | some pcb => simp
  rw [hown, hown, h.ready]
  simp only [h.owned]

theorem readyQueueSnapshot_eq (h : SameProcesses owner pm pm') :
    pm.readyQueueSnapshot owner = pm'.readyQueueSnapshot owner := by
  simp only [readyQueueSnapshot, visibleReady_eq h]

theorem showProcess_eq (h : SameProcesses owner pm pm') (pid : UInt32) :
    pm.showProcess owner pid = pm'.showProcess owner pid := by
  rw [showProcess, showProcess, h.owned]

/-- The PID of another user is answered like a PID that nobody has. -/
theorem showProcess_hidden {pid : UInt32} (h : pm.hasProcess owner pid = false) :
    pm.showProcess owner pid = str "Process not found or access denied." := by
  have hnone : pm.ownedPcb owner pid = none := by simpa [hasProcess] using h
  rw [showProcess, hnone]

end ProcessManager

end OSCoreSim
