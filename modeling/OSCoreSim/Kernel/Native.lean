import OSCoreSim.Kernel.Coherence
/-!
# States that commands alone lead to

As long as no foreign state file is loaded, a parent has the owner of its children, the time
that has run and the time that is left add up to the total time, and children are listed in
the order of their PIDs.  Then no removal and no time slice can harm the coherence.
-/

namespace OSCoreSim

open MemoryManager ProcessManager CommandDispatcher
open Std (ExtTreeMap)

namespace Kernel

variable {owner : Str} {pm pm' : ProcessManager} {mm mm' : MemoryManager} {pid k : UInt32}
  {pcb pcb' : PCB} {cause : Cause}

def Balanced (pcb : PCB) : Prop :=
  pcb.executedTime.toNat + pcb.remainingTime.toNat = pcb.totalTime.toNat

structure Native (pm : ProcessManager) : Prop where
  parent : ∀ (k : UInt32) (pcb : PCB), pm.pcbTable[k]? = some pcb → pcb.ppid ≠ 0 →
    pm.hasProcess pcb.owner pcb.ppid
  balanced : ∀ (k : UInt32) (pcb : PCB), pm.pcbTable[k]? = some pcb → Balanced pcb
  sorted : ∀ (k : UInt32) (pcb : PCB), pm.pcbTable[k]? = some pcb →
    pcb.children.Pairwise (· < ·)

theorem native_empty : Native {} :=
  ⟨fun _ _ hget => by simp at hget, fun _ _ hget => by simp at hget,
    fun _ _ hget => by simp at hget⟩

/-! ## Commands keep it -/

theorem Rewritten.balanced (h : Rewritten cause owner pm pid pcb pcb') (hold : Balanced pcb) :
    Balanced pcb' := by
  unfold Balanced at hold ⊢
  cases h with
  | transition ht => cases ht <;> exact hold
  | swapOut => exact hold
  | slice _ _ _ _ hleft =>
    have hlt := UInt32.lt_iff_toNat_lt.mp hleft
    have htotal := pcb.totalTime.toNat_lt
    have hsub := UInt32.toNat_sub_of_le pcb.remainingTime _ (UInt32.le_of_lt hleft)
    have hadd : (pcb.executedTime + timeSliceForQueue pcb.queueLevel).toNat =
        pcb.executedTime.toNat + (timeSliceForQueue pcb.queueLevel).toNat := by
      rw [UInt32.toNat_add]
      exact Nat.mod_eq_of_lt (by omega)
    simp only [ProcessManager.afterSlice, hsub, hadd]
    omega

theorem Touches.balanced {table : ExtTreeMap UInt32 PCB} (ht : Touches cause owner pm mm table)
    (h : ∀ (k : UInt32) (pcb : PCB), pm.pcbTable[k]? = some pcb → Balanced pcb)
    (hget : table[k]? = some pcb') : Balanced pcb' := by
  cases ht with
  | keep => exact h k pcb' hget
  | @store pid pcb stored hold hrewritten =>
    rw [KeyedTable.getElem?_insert] at hget
    split at hget
    · cases hget
      exact hrewritten.balanced (h pid pcb (ownedPcb_eq_some.mp hold).1)
    · exact h k pcb' hget
  | prune =>
    obtain ⟨-, old, hold, rfl⟩ := pruned_eq_some.mp hget
    exact h k old hold
  | move =>
    rw [compactedProcesses, updateStarts_getElem?] at hget
    obtain ⟨old, hold, rfl⟩ := Option.map_eq_some_iff.mp hget
    exact h k old hold

theorem native_effect (h : Native pm) (hlineage : Lineage pm'.pcbTable)
    (he : Effect cause owner pm mm pm' mm') : Native pm' where
  parent k pcb' hget hne := by
    obtain ⟨pcb, hold, hppid, howner, -⟩ := he.touches.origin hget
    obtain ⟨parent', hparent'⟩ := hlineage.parent k pcb' hget hne
    obtain ⟨parent, hparent, -, hsame, -⟩ := he.touches.origin hparent'
    obtain ⟨found, hfound, heq⟩ := hasProcess_iff.mp (h.parent k pcb hold (hppid ▸ hne))
    rw [← hppid, hparent] at hfound
    cases hfound
    exact hasProcess_iff.mpr ⟨parent', hparent', by rw [hsame, heq, howner]⟩
  balanced k pcb' hget := he.touches.balanced h.balanced hget
  sorted k pcb' hget := by
    obtain ⟨pcb, hold, -, -, hsub⟩ := he.touches.origin hget
    exact (h.sorted k pcb hold).sublist hsub

theorem native_created {args : CreateArguments} {start : UInt32} (hnumbered : Numbered pm)
    (hlineage : Lineage pm.pcbTable) (h : Native pm)
    (hc : Created owner args start pm mm pm' mm') : Native pm' := by
  have hfresh := hnumbered.fresh
  have hne := ppid_ne_nextPid hfresh hc.parent
  rw [hc.processes]
  set new := newPcb pm.nextPid (args.ppid.getD 0) owner args.name args.memKB start args.priority
    args.totalTime
  have hnew : new.ppid ≠ 0 → new.ppid ≠ pm.nextPid := hne
  -- live processes stay live with their owners
  have hlive : ∀ {owner : Str} {k : UInt32}, pm.hasProcess owner k →
      (pm.spawned new).hasProcess owner k := by
    intro owner k hhas
    obtain ⟨old, hold, howner⟩ := hasProcess_iff.mp hhas
    obtain ⟨children, hkept⟩ := spawned_kept hfresh hnew hold
    exact hasProcess_iff.mpr ⟨_, hkept, howner⟩
  refine ⟨fun k found hget hppid => ?_, fun k found hget => ?_, fun k found hget => ?_⟩
  · rcases spawned_cases hnew hget with ⟨-, rfl⟩ | ⟨-, old, children, hold, rfl⟩
    · exact hlive (hc.parent hppid)
    · exact hlive (h.parent k old hold hppid)
  · rcases spawned_cases hnew hget with ⟨-, rfl⟩ | ⟨-, old, children, hold, rfl⟩
    · exact Nat.zero_add _
    · exact h.balanced k old hold
  · rw [spawned_getElem? hnew] at hget
    split at hget
    · cases hget
      exact .nil
    · obtain ⟨old, hold, rfl⟩ := Option.map_eq_some_iff.mp hget
      unfold withChild
      split
      · -- every child so far is live, so its PID is below the next one
        refine List.pairwise_append.mpr ⟨h.sorted k old hold, List.pairwise_singleton _ _, ?_⟩
        intro c hc' last hlast
        obtain ⟨child, hchild, -⟩ := (hlineage.family k old hold c).mp hc'
        rw [List.mem_singleton.mp hlast]
        exact UInt32.lt_iff_toNat_lt.mpr (hnumbered.bound c child hchild).2
      · exact h.sorted k old hold

/-! ## Nobody is orphaned -/

theorem Native.not_orphans (h : Native pm) (hnumbered : Numbered pm) (hkeyed : pm.Keyed) :
    ¬Orphans pm owner pid := by
  rintro ⟨pcb, hmem, hother, hin⟩
  obtain ⟨parent, hparent, howner⟩ := hasProcess_iff.mp (hasProcess_of_mem_subtree hin)
  have hne : pcb.ppid ≠ 0 := by
    intro hzero
    have hpos := (hnumbered.bound _ parent hparent).1
    rw [hzero] at hpos
    exact absurd hpos (by decide)
  obtain ⟨parent', hparent', hsame⟩ :=
    hasProcess_iff.mp (h.parent _ pcb (hkeyed.mem_exportPcbs.mp hmem) hne)
  rw [hparent] at hparent'
  cases hparent'
  exact hother (hsame.symm.trans howner)

theorem Native.turnKeeps (h : Native pm) (hnumbered : Numbered pm) (hkeyed : pm.Keyed) :
    TurnKeeps pm owner := by
  intro pid _ pcb hget
  split
  · exact h.not_orphans hnumbered hkeyed
  next hleft =>
    have hlt := UInt32.lt_iff_toNat_lt.mp (UInt32.not_le.mp hleft)
    have hbalanced : Balanced pcb := h.balanced pid pcb hget
    have htotal := pcb.totalTime.toNat_lt
    unfold Balanced at hbalanced
    rw [UInt32.le_iff_toNat_le, toNat_add_of_lt (by omega)]
    omega

/-! ## The invariant of runs without foreign state files -/

/-- What a run that loads no foreign state file keeps after `n` creations. -/
structure Sound (n : ℕ) (k : Kernel) : Prop where
  regular : Regular n k
  coherent : Coherent k
  native : Native k.processManager

variable {kernel kernel' : Kernel} {command : Command} {success : Bool} {n m : ℕ}

theorem Sound.mono (h : Sound n kernel) (hle : n ≤ m) : Sound m kernel :=
  ⟨⟨h.regular.core, h.regular.counts.mono hle⟩, h.coherent, h.native⟩

theorem Clean.coherent (h : kernel.Clean) : Coherent kernel where
  accounts := by
    refine ⟨fun _ _ hget => ?_, fun _ hmem => ?_, fun _ howner => ?_⟩
    · simp [h.users] at hget
    · simp [h.users] at hmem
    · rw [h.session] at howner
      cases howner
  matched := h.regular.core.matched
  numbered := h.regular.counts.numbered
  lineage := by
    rw [h.processes]
    exact ⟨fun _ _ hget => by simp at hget, fun _ _ hget => by simp at hget,
      fun _ _ hget => by simp at hget⟩
  registered := by
    refine ⟨fun _ _ hget => by simp [h.processes] at hget, fun block hmem => ?_⟩
    rw [h.memory] at hmem
    cases hmem
  attended hrunning := by
    rw [h.running] at hrunning
    cases hrunning

theorem Clean.sound (h : kernel.Clean) : Sound 0 kernel :=
  ⟨h.regular, h.coherent, by rw [h.processes]; exact native_empty⟩

theorem Sound.sparesOthers (h : Sound n kernel) : SparesOthers command kernel := fun _ _ =>
  ⟨fun _ _ _ => h.native.not_orphans h.coherent.numbered h.coherent.matched.keyed,
    fun _ => h.native.turnKeeps h.coherent.numbered h.coherent.matched.keyed⟩

theorem Sound.keepsLastPid (h : Sound n kernel)
    (hroom : n + creationOf command true < 2 ^ 32 - 1) : KeepsLastPid command kernel := by
  intro hname _ _ _ _ _ heq
  have hone : creationOf command true = 1 := if_pos ⟨hname, rfl⟩
  have hle := h.regular.counts.next_le
  have hlast : (4294967295 : UInt32).toNat = 2 ^ 32 - 1 := rfl
  rw [heq, hlast] at hle
  omega

theorem native_change (h : Sound n kernel) (hcoherent : Coherent kernel')
    (hc : Change command kernel kernel' success) : Native kernel'.processManager := by
  cases hc with
  | same | register | login | logout | exit | rollback | swapHalf | files | start | stop =>
    exact h.native
  | create owner args hname hlogin hargs halloc hcreate =>
    have hnumbered := h.coherent.numbered
    exact native_created hnumbered h.coherent.lineage h.native
      (created_of_ok h.coherent.matched.partition hnumbered.fresh halloc hcreate)
  | act owner hlogin ha =>
    exact native_effect h.native hcoherent.lineage (effect_of_action h.coherent.matched ha)
  | restart => exact ⟨h.native.parent, h.native.balanced, h.native.sorted⟩

theorem Sound.change (h : Sound n kernel) (hc : Change command kernel kernel' success)
    (hroom : n + creationOf command success < 2 ^ 32 - 1) :
    Sound (n + creationOf command success) kernel' := by
  have hcoherent : Coherent kernel' :=
    coherent_change h.coherent (fun hok => h.keepsLastPid (by rwa [hok] at hroom))
      h.sparesOthers hc
  exact ⟨h.regular.change hc hroom, hcoherent, native_change h hcoherent hc⟩

theorem Sound.tick (h : Sound n kernel) : Sound n kernel.schedulerTick.1 := by
  have hcoherent : Coherent kernel.schedulerTick.1 := coherent_tick h.coherent fun _ =>
    h.native.turnKeeps h.coherent.numbered h.coherent.matched.keyed
  refine ⟨h.regular.tick, hcoherent, ?_⟩
  have hkeeps : Coherent kernel.schedulerTick.1 → Native kernel.schedulerTick.1.processManager :=
    tick_keeps (P := fun k => Coherent k → Native k.processManager) (fun _ => h.native)
      fun _ ha hcoherent =>
        native_effect h.native hcoherent.lineage (effect_of_action h.coherent.matched ha)
  exact hkeeps hcoherent

end Kernel

namespace World

open Kernel

variable {w : World} {event : Event} {events : List Event} {n : ℕ}

theorem sound_step (h : Sound n w.kernel) (hload : ¬event.Named (str "load"))
    (hroom : n + w.creations event < 2 ^ 32 - 1) :
    Sound (n + w.creations event) (w.step event).kernel :=
  counted_step (P := Sound) hload hroom h.change h.tick

theorem sound_run (hclean : w.kernel.Clean) (hload : NoLoad events)
    (hbudget : Runs.total step creations w events < 2 ^ 32 - 1) :
    Sound (0 + Runs.total step creations w events) (Runs.run step w events).kernel :=
  Runs.run_invariant (P := fun n (w : World) => Sound n w.kernel)
    (fun _ _ event h (hok : ¬event.Named (str "load")) hlt => sound_step h hok hlt) hclean.sound
    (hload.permitted w) (by rwa [Nat.zero_add])

end World

end OSCoreSim
