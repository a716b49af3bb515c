import OSCoreSim.Kernel.FailedLoad
import OSCoreSim.Kernel.Forest
import OSCoreSim.Kernel.Kinship
import OSCoreSim.Kernel.SnapshotRestore
import OSCoreSim.View.ProcessTrees
/-!
# The process trees in a run

`validateSnapshot` asks of the parents of the listed processes that they exist, which leaves room
for circles.  After every other import, and as long as the creations take PIDs without a past,
`ptree` and the overview show every process once.
-/

namespace OSCoreSim

open ProcessManager CommandDispatcher OverviewRenderer
open Std (ExtTreeMap)

namespace Kernel

variable {pm pm' : ProcessManager} {mm mm' : MemoryManager} {owner : Str} {cause : Cause}
  {s : KernelSnapshot} {k k' : Kernel} {command : Command} {success : Bool}

/-! ## Imports -/

/-- Among the listed PCBs `p` is the parent of `c` and has the same owner. -/
def ParentIn (pcbs : List PCB) (p c : UInt32) : Prop :=
  ∃ pcb ∈ pcbs, ∃ parent ∈ pcbs, pcb.pid = c ∧ pcb.ppid = p ∧ parent.pid = p ∧
    parent.owner = pcb.owner

/-- No listed process is its own ancestor within its owner's processes. -/
def NoParentCircle (pcbs : List PCB) : Prop :=
  ∀ pid, ¬Relation.TransGen (ParentIn pcbs) pid pid

/-- Parents with smaller PIDs, such as those of every process that was created here. -/
theorem noParentCircle_of_older {pcbs : List PCB} (h : ∀ pcb ∈ pcbs, pcb.ppid < pcb.pid) :
    NoParentCircle pcbs := by
  have hlt : ∀ p c, Relation.TransGen (ParentIn pcbs) p c → p < c := by
    intro p c hpath
    have hlink : ∀ p c, ParentIn pcbs p c → p < c := by
      rintro p c ⟨pcb, hmem, -, -, rfl, rfl, -, -⟩
      exact h pcb hmem
    induction hpath with
    | single hlast => exact hlink _ _ hlast
    | tail _ hlast ih => exact UInt32.lt_trans ih (hlink _ _ hlast)
  exact fun pid hcircle => UInt32.lt_irrefl pid (hlt pid pid hcircle)

theorem kindred_import (h : ValidSnapshot s) (hcircle : NoParentCircle s.pcbs) :
    Kindred (importProcesses s).1 where
  keyed := (matched_import h).keyed
  live pid pcb' hget c hc := by
    obtain ⟨pcb, -, -, rfl⟩ := (imported_getElem? h).mp hget
    obtain ⟨child, hchild, -⟩ := mem_childPids.mp hc
    obtain ⟨hmem, hpid⟩ := (importPcbs_getElem? h.pids).mp hchild
    exact Option.isSome_of_eq_some ((imported_getElem? h).mpr ⟨child, hmem, hpid, rfl⟩)
  nodup pid pcb' hget := by
    obtain ⟨pcb, -, -, rfl⟩ := (imported_getElem? h).mp hget
    exact ((pairwise_childPids _ pid pcb.owner).imp UInt32.ne_of_lt).filter _
  family pid pcb' hget c child' hchild hsame := by
    obtain ⟨pcb, -, -, rfl⟩ := (imported_getElem? h).mp hget
    obtain ⟨child, hmem, hpid, rfl⟩ := (imported_getElem? h).mp hchild
    have hlisted := (importPcbs_getElem? h.pids).mpr ⟨hmem, hpid⟩
    show c ∈ childPids _ pid pcb.owner ↔ _
    rw [mem_childPids]
    constructor
    · rintro ⟨found, hfound, hne, hp, -⟩
      rw [hlisted] at hfound
      cases hfound
      exact ⟨hne, hp⟩
    · rintro ⟨hne, hp⟩
      exact ⟨child, hlisted, hne, hp, hsame⟩
  acyclic owner pid hcycle := by
    refine hcircle pid (Relation.TransGen.mono (fun p c hchild => ?_) pid pid hcycle)
    obtain ⟨child', hown, -, hhas, rfl⟩ := ownParent_eq_some.mp hchild
    obtain ⟨hget, howner⟩ := ownedPcb_eq_some.mp hown
    obtain ⟨child, hmem, hpid, rfl⟩ := (imported_getElem? h).mp hget
    obtain ⟨parent', hparent, howner'⟩ := hasProcess_iff.mp hhas
    obtain ⟨parent, hmem', hpid', rfl⟩ := (imported_getElem? h).mp hparent
    exact ⟨child, hmem, parent, hmem', hpid, rfl, hpid', howner'.trans howner.symm⟩

theorem kindred_empty : Kindred {} :=
  ⟨fun k pcb hget => by simp at hget, fun k pcb hget => by simp at hget,
    fun k pcb hget => by simp at hget, fun k pcb hget => by simp at hget, fun owner k hcycle => by
      obtain ⟨p, -, hlast⟩ := Relation.TransGen.tail'_iff.mp hcycle
      obtain ⟨pcb, hget, -⟩ := hasProcess_iff.mp (OwnChild.owned hlast).2
      simp at hget⟩

/-! ## Commands -/

theorem kindred_outcome (h : Kindred pm) (ho : Scheduler.Outcome owner pm mm pm' mm') :
    Kindred pm' := by
  have hcleaned : Kindred pm.cleaned := ⟨h.keyed, h.live, h.nodup, h.family, h.acyclic⟩
  cases ho with
  | idle => exact hcleaned
  | requeue pid pcb _ hget =>
    have hkin : SameKin pcb (afterSlice pcb) := ⟨rfl, rfl, rfl⟩
    exact kindred_store hcleaned (ownedPcb_eq_some.mp hget).1 (by rfl) hkin rfl
  | finish => exact kindred_pruned hcleaned _

theorem kindred_action (h : Kindred pm) (ha : Action cause owner pm mm pm' mm') : Kindred pm' := by
  cases ha with
  | alloc | free | setAlgorithm => exact h
  | compact =>
    refine kindred_of_sameKin h (fun k pcb' hget => ?_) fun k => ?_
    · rw [updateStarts_getElem?] at hget
      obtain ⟨pcb, hold, rfl⟩ := Option.map_eq_some_iff.mp hget
      exact h.keyed k pcb hold
    · rw [updateStarts_getElem?, Option.map_map]
      rfl
  | swapOut pid hmem hmark =>
    obtain ⟨pcb, hget, -, rfl⟩ := markSwappedOut_spec hmark
    have hkin : SameKin pcb (swappedPcb pcb) := ⟨rfl, rfl, rfl⟩
    exact kindred_store h (ownedPcb_eq_some.mp hget).1 (by rfl) hkin rfl
  | kill pid hcause hkill =>
    obtain ⟨-, -, rfl⟩ := killProcess_spec hkill
    exact kindred_pruned h _
  | rewrite pid hr =>
    obtain ⟨pcb, pcb', hget, ht, hs⟩ := hr
    have hkin : SameKin pcb pcb' := by cases ht <;> exact ⟨rfl, rfl, rfl⟩
    exact kindred_store h (ownedPcb_eq_some.mp hget).1 ht.pid_eq hkin hs.pcbTable_eq
  | step => exact kindred_outcome h (Scheduler.step_outcome owner mm h.keyed)

def CreatesInPlace (command : Command) (k : Kernel) : Prop :=
  command.name = str "create_pcb" → ∀ owner ∈ k.userManager.currentUser,
    ∀ args ∈ parseCreateArguments command.arguments, k.creates owner args = true →
      TakesPlace k.processManager owner (args.ppid.getD 0)

instance : Decidable (CreatesInPlace command k) :=
  inferInstanceAs (Decidable (_ → ∀ owner ∈ k.userManager.currentUser, ∀ args ∈ _, _ → _))

theorem kindred_change (h : Kindred k.processManager) (hplace : CreatesInPlace command k)
    (hc : Change command k k' success) : Kindred k'.processManager := by
  cases hc with
  | create owner args hname hlogin hargs halloc hcreate =>
    have hcreates := creates_of_ok halloc hcreate
    exact kindred_created h (hplace hname owner hlogin args hargs hcreates) hcreate
  | act owner hlogin ha => exact kindred_action h ha
  | restart => exact ⟨h.keyed, h.live, h.nodup, h.family, h.acyclic⟩
  | _ => exact h

end Kernel

namespace World

open Kernel

variable {w : World} {event : Event} {events : List Event}

/-! ## Runs -/

/-- A `load` that finds an acceptable snapshot finds one without circles. -/
def LoadsForest (w : World) (event : Event) : Prop :=
  event.Named (str "load") → ¬event.HasArguments →
    ∀ s, w.kernel.snapshotStore.load w.disk = .ok s → Accepts s → NoParentCircle s.pcbs

def AddsLeaves (w : World) : Event → Prop
  | .request _ request => CreatesInPlace (parse request.rawLine) w.kernel
  | .tick => True

instance (w : World) (event : Event) : Decidable (w.AddsLeaves event) :=
  match event with
  | .request _ request => inferInstanceAs (Decidable (CreatesInPlace (parse request.rawLine) w.kernel))
  | .tick => isTrue trivial

theorem loadsForest_of_noLoad (h : NoLoad events) (w : World) :
    Runs.Permitted step LoadsForest w events :=
  (h.permitted w).imp fun _ _ hnot hload => absurd hload hnot

theorem kindred_step (h : Kindred w.kernel.processManager) (hloads : w.LoadsForest event)
    (hleaves : w.AddsLeaves event) : Kindred (w.step event).kernel.processManager := by
  by_cases hload : event.Named (str "load")
  · rcases load_cases (w := w) hload with ⟨-, heq | heq⟩ | ⟨hok, s, hread, hvalid, heq⟩
    · rw [heq]
      exact h
    · rw [heq]
      exact h
    · rw [heq]
      exact kindred_import hvalid
        (hloads hload (not_hasArguments_of_load hload hok) s hread (validateSnapshot_ok.mpr hvalid))
  · apply step_keeps (P := fun k => Kindred k.processManager) hload
    · intro command kernel success hcommand hc
      obtain ⟨env, request, rfl, rfl⟩ := Event.exists_request hcommand
      exact kindred_change h hleaves hc
    · exact tick_keeps (P := fun k => Kindred k.processManager) h fun _ ha => kindred_action h ha

/-- As long as the PIDs have not run out, every creation takes its place. -/
theorem addsLeaves_of_coherent (h : Coherent w.kernel) (event : Event) : w.AddsLeaves event := by
  cases event with
  | tick => trivial
  | request env request =>
    intro _ owner _ args _ _
    have hfresh := h.numbered.fresh
    constructor
    · intro _
      rw [hasProcess, ownedPcb, hfresh]
      rfl
    · intro _ _ pcb hmem _
      exact h.lineage.unnamed h.numbered (h.matched.keyed.mem_exportPcbs.mp hmem)

theorem addsLeaves_of_clean (hclean : w.kernel.Clean) (hload : NoLoad events)
    (hbudget : Runs.total step creations w events < 2 ^ 32 - 1) :
    Runs.Permitted step AddsLeaves w events := by
  have hstart : Rooted 0 w.kernel :=
    ⟨hclean.sound, fun k pcb hget => by simp [hclean.processes] at hget⟩
  exact Runs.permitted_of_invariant (P := fun n (w : World) => Rooted n w.kernel)
    (fun _ _ event h (hok : ¬event.Named (str "load")) hlt => rooted_step h hok hlt)
    (fun _ _ event h _ => addsLeaves_of_coherent h.sound.coherent event) hstart (hload.permitted w)
    (by rwa [Nat.zero_add])

/-- A clean start, or the import of an acceptable snapshot without circles. -/
def StartsForest (w : World) : Prop :=
  w.kernel.Clean ∨ ∃ (k : Kernel) (s : KernelSnapshot), Accepts s ∧ NoParentCircle s.pcbs ∧
    w.kernel.processManager = (k.importSnapshot s).1.processManager

/-- In every state of a run in which imports bring no circle of parents and creations take their
place, `ptree` and the overview show every user the forest of the user's processes. -/
theorem trees_of_run (hstart : w.StartsForest) (hloads : Runs.Permitted step LoadsForest w events)
    (hleaves : Runs.Permitted step AddsLeaves w events) (owner : Str) :
    TreesShowProcesses (Runs.run step w events).kernel.processManager owner := by
  have hinit : Kindred w.kernel.processManager := by
    rcases hstart with hclean | ⟨k, s, haccepts, hcircle, hsame⟩
    · rw [hclean.processes]
      exact kindred_empty
    · have hvalid := validateSnapshot_ok.mp haccepts
      rw [hsame, importSnapshot_valid hvalid]
      exact kindred_import hvalid hcircle
  have hrun := Runs.run_invariant' (P := fun w : World => Kindred w.kernel.processManager)
    (fun _ _ h hok => kindred_step h hok.1 hok.2) hinit (hloads.and hleaves)
  exact treesShowProcesses_of_kindred hrun owner

/-- A process and its child, both of `a`: a grandchild, steps and a removal. -/
theorem trees_of_run_family :
    let w : World := { kernel := (Kernel.importSnapshot {} (familyOf 0 5 3 "a")).1 }
    let events := [console "login a pw", console "create_pcb r 4 1 5 2", console "create_pcb s 4 1 5",
      console "step", console "kill_pcb 3", .tick]
    TreesShowProcesses (Runs.run step w events).kernel.processManager (str "a") := by
  intro w events
  have haccepts : Accepts (familyOf 0 5 3 "a") := by decide +kernel
  have hcircle : NoParentCircle (familyOf 0 5 3 "a").pcbs := noParentCircle_of_older (by decide)
  exact trees_of_run (.inr ⟨{}, _, haccepts, hcircle, rfl⟩)
    (loadsForest_of_noLoad (by decide) w) (by decide +kernel) (str "a")

def circle : KernelSnapshot :=
  { familyOf 0 5 3 "a" with pcbs := (familyOf 0 5 3 "a").pcbs.map fun pcb =>
      { pcb with ppid := if pcb.pid = 1 then 2 else 1 } }

def treesShown (k : Kernel) (owner : String) : Str × Str :=
  (k.processManager.processTree (str owner),
    renderProcessTree (k.processManager.getProcessCopiesForUser (str owner)))

/-- The processes of an accepted circle are not shown.  After the PID 4294967295 the live process 1
becomes the child of its own child, and where process 1 has left a child of `b` behind, this is no
longer shown once `b` gets the PID 1. -/
theorem circle_hidden :
    let k := (Kernel.importSnapshot {} circle).1
    let after (owner : String) (events : List Event) : Kernel := (Runs.run step
      { kernel := (Kernel.importSnapshot {} (familyOf 0 5 4294967295 owner)).1 } events).kernel
    (Accepts circle ∧ k.processManager.ownPids (str "a") = [1, 2] ∧
      ¬TreesShowProcesses k.processManager (str "a") ∧
      treesShown k "a" = (str "Process Tree for user: a\nNo process found for current user.",
        str "[3] 进程树 / Process Tree")) ∧
    (Accepts (familyOf 0 5 4294967295 "a") ∧
      (treesShown (after "a" [console "login a pw", console "create_pcb r 4 1 5",
        console "create_pcb s 4 1 5", console "create_pcb t 4 1 5 2"]) "a").1 =
        joinLines [str "Process Tree for user: a", str "s(0) [READY, prio=1, q=Q0, mem=4KB]",
          str "p(1) [READY, prio=0, q=Q0, mem=4KB]", str "`- q(2) [BLOCKED, prio=0, q=Q0, mem=4KB]",
          str "   `- PID=1 (cycle detected)", str "r(4294967295) [READY, prio=1, q=Q0, mem=4KB]"]) ∧
    Accepts (familyOf 0 5 4294967295 "b") ∧
      let k' := after "b" [console "login a pw", console "kill_pcb 1", console "logout",
        console "login b pw", console "create_pcb r 4 1 5", console "create_pcb s 4 1 5",
        console "create_pcb t 4 1 5"]
      k'.processManager.ownPids (str "b") = [0, 1, 2, 4294967295] ∧
      (treesShown k' "b").1 =
        joinLines [str "Process Tree for user: b", str "s(0) [READY, prio=1, q=Q0, mem=4KB]",
          str "t(1) [READY, prio=1, q=Q0, mem=4KB]", str "r(4294967295) [READY, prio=1, q=Q0, mem=4KB]"] := by
  intro k after
  have hparents : (k.processManager.ownPids (str "a")).all
      fun pid => (k.processManager.ownParent (str "a") pid).isSome := by
    decide +kernel
  refine ⟨⟨by decide +kernel, by decide +kernel, ?_, by decide +kernel⟩,
    ⟨by decide +kernel, by decide +kernel⟩, by decide +kernel, by decide +kernel, by decide +kernel⟩
  -- a forest of these processes would have a root
  rintro ⟨forest, hforest, -⟩
  have hone := hforest.once 1
  cases forest with
  | nil => exact absurd hone (by decide +kernel)
  | node root below rest =>
    obtain ⟨hhas, hnone⟩ := (hforest.mem_top root).mp List.mem_cons_self
    have hparent := List.all_eq_true.mp hparents root (mem_ownPids hhas)
    rw [hnone] at hparent
    cases hparent

end World

end OSCoreSim
