import OSCoreSim.Kernel.SnapshotRestore
/-!
# The PIDs that a run gives out

A run is watched together with the PIDs that were live at its start or have been given out
since.  Until the counter wraps round to 0, every successful `create_pcb` answers with a new
and larger PID; the first creation that goes wrong is the one that finds the counter at 0.
-/

namespace OSCoreSim

open MemoryManager ProcessManager CommandDispatcher Kernel

namespace World

def issuedPid (w : World) (event : Event) : Option UInt32 :=
  if event.Named (str "create_pcb") ∧ w.Succeeds event then some w.kernel.processManager.nextPid
  else none

end World

structure Watched where
  world : World
  issued : List UInt32

namespace Watched

def start (w : World) : Watched :=
  { world := w, issued := w.kernel.processManager.exportPcbs.map (·.pid) }

def step (s : Watched) (event : Event) : Watched :=
  { world := s.world.step event, issued := (s.world.issuedPid event).toList ++ s.issued }

/-- `event` answers with the new PID `pid`, larger than all before, and stores under it exactly
the new PCB with a memory block of its own. -/
structure Issues (s : Watched) (event : Event) (pid : UInt32) : Prop where
  ne_zero : pid ≠ 0
  unused : s.world.kernel.processManager.pcbTable[pid]? = none
  above : ∀ p ∈ s.issued, p < pid
  stored : ∃ owner args start rest, s.world.kernel.userManager.currentUser = some owner ∧
    (event.command.bind fun command => parseCreateArguments command.arguments) = some args ∧
    (s.world.respond event).map (·.message) =
      some (str "[OK] Process created.\nPID=" ++ decimal pid.toNat ++ rest) ∧
    (s.world.step event).kernel.processManager.pcbTable[pid]? = some (newPcb pid
      (args.ppid.getD 0) owner args.name args.memKB start args.priority args.totalTime) ∧
    held (s.world.step event).kernel.memoryManager.blocks pid = [⟨owner, start, args.memKB⟩]

def IssuesWell (s : Watched) (event : Event) : Prop :=
  ∀ pid ∈ s.world.issuedPid event, s.Issues event pid

def NoZeroPid (s : Watched) (event : Event) : Prop := s.world.issuedPid event ≠ some 0

instance (s : Watched) (event : Event) : Decidable (s.NoZeroPid event) :=
  inferInstanceAs (Decidable (_ ≠ _))

/-- The tables agree, 0 is no PID, and unless the counter is at 0 it is above all PIDs. -/
structure Issuing (s : Watched) : Prop where
  matched : Matched s.world.kernel.processManager s.world.kernel.memoryManager
  zero : s.world.kernel.processManager.pcbTable[(0 : UInt32)]? = none
  live : s.world.kernel.processManager.nextPid ≠ 0 → ∀ (k : UInt32) (pcb : PCB),
    s.world.kernel.processManager.pcbTable[k]? = some pcb →
      k < s.world.kernel.processManager.nextPid
  above : s.world.kernel.processManager.nextPid ≠ 0 → ∀ p ∈ s.issued,
    p < s.world.kernel.processManager.nextPid

variable {s : Watched} {event : Event}

theorem Issuing.fresh (h : Issuing s) : s.world.kernel.processManager.pcbTable[
    s.world.kernel.processManager.nextPid]? = none := by
  by_cases hzero : s.world.kernel.processManager.nextPid = 0
  · rw [hzero]
    exact h.zero
  · cases hget : s.world.kernel.processManager.pcbTable[s.world.kernel.processManager.nextPid]? with
    | none => rfl
    | some pcb => exact absurd (h.live hzero _ pcb hget) (UInt32.lt_irrefl _)

/-! ## One event -/

theorem created_of_issuedPid (h : Issuing s) {pid : UInt32}
    (hpid : s.world.issuedPid event = some pid) :
    pid = s.world.kernel.processManager.nextPid ∧
      ∃ owner args start pm mm rest, s.world.kernel.userManager.currentUser = some owner ∧
        (event.command.bind fun command => parseCreateArguments command.arguments) = some args ∧
        (s.world.respond event).map (·.message) =
          some (str "[OK] Process created.\nPID=" ++ decimal pid.toNat ++ rest) ∧
        (s.world.step event).kernel.processManager = pm ∧
        (s.world.step event).kernel.memoryManager = mm ∧
        Created owner args start s.world.kernel.processManager s.world.kernel.memoryManager pm mm := by
  unfold World.issuedPid at hpid
  split at hpid
  next hcreates =>
    obtain ⟨⟨command, hcommand, hname⟩, hsuccess⟩ := hcreates
    obtain ⟨env, request, rfl, rfl⟩ := Event.exists_request hcommand
    have hrequest := executeRequest_create s.world.kernel env s.world.disk request hname
    rw [World.succeeds_request, hrequest] at hsuccess
    obtain ⟨owner, args, mm, start, text, pm, pid', message, hlogin, hargs, halloc, hcreate,
      hout⟩ := createCommand_success hsuccess
    have hcreated := created_of_ok h.matched.partition h.fresh halloc hcreate
    obtain ⟨-, hissued, -, rest, hrest⟩ := createProcessWithMemory_eq_ok hcreate
    rw [hissued] at hrest
    have hkernel : (s.world.step (.request env request)).kernel =
        s.world.kernel.withManagers { s.world.kernel.managers with processes := pm, memory := mm } := by
      change (s.world.kernel.executeRequest env s.world.disk request).1 = _
      rw [hrequest, hout]
    refine ⟨(Option.some.inj hpid).symm, owner, args, start, pm, mm, rest, hlogin, hargs, ?_, ?_, ?_,
      hcreated⟩
    · change some (s.world.kernel.executeRequest env s.world.disk request).2.2.message = _
      rw [hrequest, hout, ← Option.some.inj hpid]
      exact congrArg some hrest
    · rw [hkernel]
      rfl
    · rw [hkernel]
      rfl
  next => cases hpid

theorem issuesWell_of_ne_zero (h : Issuing s) (hok : s.NoZeroPid event) : s.IssuesWell event := by
  intro pid hpid
  obtain ⟨hnext, owner, args, start, pm, mm, rest, hlogin, hargs, hmessage, hpm, hmm, hcreated⟩ :=
    created_of_issuedPid h hpid
  have hzero : pid ≠ 0 := fun hzero => hok (by rw [← hzero]; exact hpid)
  have hne := ppid_ne_nextPid h.fresh hcreated.parent
  have hstored : pm.pcbTable[pid]? = some (newPcb pid (args.ppid.getD 0) owner args.name
      args.memKB start args.priority args.totalTime) := by
    rw [hcreated.processes, spawned_getElem? hne, if_pos hnext, hnext]
  have hheld : held mm.blocks pid = owed pm pid := (h.matched.created h.fresh hcreated).agree pid
  exact {
    ne_zero := hzero
    unused := by rw [hnext]; exact h.fresh
    above := by
      rw [hnext] at hzero ⊢
      exact h.above hzero
    stored := by
      refine ⟨owner, args, start, rest, hlogin, hargs, hmessage, ?_, ?_⟩
      · rw [hpm, hstored]
      · rw [hmm, hheld, owed_eq hstored]
        rfl }

structure Quiet (pm : ProcessManager) (pm' : ProcessManager) (mm' : MemoryManager) : Prop where
  matched : Matched pm' mm'
  nextPid : pm'.nextPid = pm.nextPid
  keys : ∀ k : UInt32, pm'.pcbTable[k]?.isSome → pm.pcbTable[k]?.isSome

theorem Quiet.effect {cause : Cause} {owner : Str} {pm pm' : ProcessManager}
    {mm mm' : MemoryManager}
    (h : Matched pm mm) (he : Effect cause owner pm mm pm' mm') : Quiet pm pm' mm' :=
  ⟨h.effect he, he.nextPid_eq, fun _ hk => he.touches.isSome hk⟩

theorem quiet_change {command : Command} {kernel kernel' : Kernel} {success : Bool}
    (h : Matched kernel.processManager kernel.memoryManager)
    (hfresh : kernel.processManager.pcbTable[kernel.processManager.nextPid]? = none)
    (hc : Change command kernel kernel' success)
    (hnone : ¬(command.name = str "create_pcb" ∧ success = true)) :
    Quiet kernel.processManager kernel'.processManager kernel'.memoryManager := by
  cases hc with
  | same | register | login | logout | exit | files | start | stop => exact ⟨h, rfl, fun _ hk => hk⟩
  | create owner args hname => exact absurd ⟨hname, rfl⟩ hnone
  | rollback owner args hname hlogin hargs halloc =>
    exact ⟨(h.rolledBack hfresh halloc).1, rfl, fun _ hk => hk⟩
  | swapHalf owner pid hlogin hmem hmark hhas => exact (h.not_swapHalf hmem hmark hhas).elim
  | act owner hlogin ha => exact .effect h (effect_of_action h ha)
  | restart => exact ⟨h.cleaned, rfl, fun _ hk => hk⟩

theorem quiet_of_none (h : Issuing s) (hload : ¬event.Named (str "load"))
    (hnone : s.world.issuedPid event = none) : Quiet s.world.kernel.processManager
      (s.world.step event).kernel.processManager (s.world.step event).kernel.memoryManager := by
  cases event with
  | request env request =>
    have hload' : (parse request.rawLine).name ≠ str "load" := fun hname => hload ⟨_, rfl, hname⟩
    refine quiet_change h.matched h.fresh
      (executeRequest_change s.world.kernel env s.world.disk request hload') fun hcreates => ?_
    have hnamed : (Event.request env request).Named (str "create_pcb") := ⟨_, rfl, hcreates.1⟩
    have hsuccess := (World.succeeds_request s.world env request).mpr hcreates.2
    rw [World.issuedPid, if_pos ⟨hnamed, hsuccess⟩] at hnone
    cases hnone
  | tick =>
    show Quiet _ s.world.kernel.schedulerTick.1.processManager
      s.world.kernel.schedulerTick.1.memoryManager
    apply tick_keeps (P := fun k => Quiet _ k.processManager k.memoryManager)
    · exact ⟨h.matched, rfl, fun _ hk => hk⟩
    · exact fun _ ha => .effect h.matched (effect_of_action h.matched ha)

/-- The counter moves past a PID that it gives out, unless that is the last one. -/
theorem lt_add_one_of_ne_zero {n : UInt32} (h : n + 1 ≠ 0) : n < n + 1 := by
  have hn := toNat_pos h
  have hsum : (n + 1).toNat = (n.toNat + 1) % 2 ^ 32 := UInt32.toNat_add n 1
  have hlt := n.toNat_lt
  rw [UInt32.lt_iff_toNat_lt]
  omega

theorem Issuing.grown {s' : Watched} (h : Issuing s)
    (hmatched : Matched s'.world.kernel.processManager s'.world.kernel.memoryManager)
    (hnext : s'.world.kernel.processManager.nextPid ≠ 0 →
      s.world.kernel.processManager.nextPid ≠ 0 ∧
        s.world.kernel.processManager.nextPid ≤ s'.world.kernel.processManager.nextPid)
    (hkeys : ∀ k : UInt32, s'.world.kernel.processManager.pcbTable[k]?.isSome →
      s.world.kernel.processManager.pcbTable[k]?.isSome ∨ k ≠ 0 ∧
        (s'.world.kernel.processManager.nextPid ≠ 0 →
          k < s'.world.kernel.processManager.nextPid))
    (hissued : ∀ p ∈ s'.issued, p ∈ s.issued ∨ (s'.world.kernel.processManager.nextPid ≠ 0 →
      p < s'.world.kernel.processManager.nextPid)) : Issuing s' where
  matched := hmatched
  zero := by
    by_contra hsome
    rcases hkeys 0 (Option.isSome_iff_ne_none.mpr hsome) with hold | ⟨hzero, -⟩
    · rw [h.zero] at hold
      cases hold
    · exact hzero rfl
  live := by
    intro hzero k pcb hget
    rcases hkeys k (Option.isSome_of_eq_some hget) with hold | ⟨-, hlt⟩
    · obtain ⟨old, hold⟩ := Option.isSome_iff_exists.mp hold
      exact UInt32.lt_of_lt_of_le (h.live (hnext hzero).1 k old hold) (hnext hzero).2
    · exact hlt hzero
  above := by
    intro hzero p hp
    rcases hissued p hp with hold | hlt
    · exact UInt32.lt_of_lt_of_le (h.above (hnext hzero).1 p hold) (hnext hzero).2
    · exact hlt hzero

theorem Issuing.step (h : Issuing s) (hload : ¬event.Named (str "load"))
    (hok : s.NoZeroPid event) : Issuing (s.step event) := by
  cases hpid : s.world.issuedPid event with
  | none =>
    have hquiet := quiet_of_none h hload hpid
    have hnext : (s.step event).world.kernel.processManager.nextPid =
        s.world.kernel.processManager.nextPid := hquiet.nextPid
    refine h.grown hquiet.matched ?_ (fun k hk => .inl (hquiet.keys k hk)) ?_
    · rw [hnext]
      exact fun hzero => ⟨hzero, UInt32.le_refl _⟩
    · intro p hp
      exact .inl (by simpa [Watched.step, hpid] using hp)
  | some pid =>
    obtain ⟨rfl, owner, args, start, pm, mm, rest, -, -, -, hpm, hmm, hcreated⟩ :=
      created_of_issuedPid h hpid
    have hzero : s.world.kernel.processManager.nextPid ≠ 0 := fun hzero =>
      hok (by rw [hpid, hzero])
    have hne := ppid_ne_nextPid h.fresh hcreated.parent
    have hnext : (s.step event).world.kernel.processManager.nextPid =
        s.world.kernel.processManager.nextPid + 1 := by
      show (s.world.step event).kernel.processManager.nextPid = _
      rw [hpm, hcreated.processes]
      rfl
    refine h.grown ?_ ?_ ?_ ?_
    · show Matched (s.world.step event).kernel.processManager
        (s.world.step event).kernel.memoryManager
      rw [hpm, hmm]
      exact h.matched.created h.fresh hcreated
    · rw [hnext]
      exact fun hwrap => ⟨hzero, UInt32.le_of_lt (lt_add_one_of_ne_zero hwrap)⟩
    · rw [hnext]
      intro k hk
      change (s.world.step event).kernel.processManager.pcbTable[k]?.isSome at hk
      rw [hpm, hcreated.processes, spawned_getElem? hne] at hk
      split at hk
      next heq =>
        rw [heq]
        exact .inr ⟨hzero, lt_add_one_of_ne_zero⟩
      next => exact .inl (by simpa using hk)
    · rw [hnext]
      intro p hp
      simp only [Watched.step, hpid, Option.toList_some, List.mem_append, List.mem_singleton] at hp
      rcases hp with heq | hp
      · rw [heq]
        exact .inr lt_add_one_of_ne_zero
      · exact .inl hp

/-! ## Runs -/

theorem issuing_start {w : World} (hmatched : Matched w.kernel.processManager w.kernel.memoryManager)
    (hnumbered : Numbered w.kernel.processManager) : Issuing (start w) := by
  have hlt : ∀ (k : UInt32) (pcb : PCB), w.kernel.processManager.pcbTable[k]? = some pcb →
      k < w.kernel.processManager.nextPid := fun k pcb hget =>
    UInt32.lt_iff_toNat_lt.mpr (hnumbered.bound k pcb hget).2
  refine ⟨hmatched, ?_, fun _ => hlt, fun _ p hp => ?_⟩
  · cases hget : w.kernel.processManager.pcbTable[(0 : UInt32)]? with
    | none => exact hget
    | some pcb => exact absurd (hnumbered.bound 0 pcb hget).1 (Nat.lt_irrefl 0)
  · obtain ⟨pcb, hmem, rfl⟩ := List.mem_map.mp hp
    exact hlt pcb.pid pcb (hmatched.keyed.mem_exportPcbs.mp hmem)

theorem issuing_clean {w : World} (h : w.kernel.Clean) : Issuing (start w) := by
  refine issuing_start ?_ ?_
  · rw [h.processes, h.memory]
    exact core_clean.matched
  · rw [h.processes]
    exact numbered_empty

theorem issuing_import {w : World} {k : Kernel} {snapshot : KernelSnapshot}
    (haccepts : Accepts snapshot) (himport : w.kernel = (k.importSnapshot snapshot).1) :
    Issuing (start w) := by
  have hvalid := validateSnapshot_ok.mp haccepts
  rw [importSnapshot_valid hvalid] at himport
  refine issuing_start ?_ ?_
  · rw [himport]
    exact matched_import hvalid
  · rw [himport]
    exact numbered_import hvalid

/-- After a clean boot or an accepted import, the PIDs of a run are well given out exactly
when no creation succeeds with the counter at 0. -/
theorem issued_once_iff {w : World} {events : List Event}
    (hboot : w.kernel.Clean ∨ ∃ k snapshot, Accepts snapshot ∧
      w.kernel = (Kernel.importSnapshot k snapshot).1)
    (hload : World.NoLoad events) :
    Runs.Permitted step IssuesWell (start w) events ↔
      Runs.Permitted step NoZeroPid (start w) events := by
  have hstart : Issuing (start w) := by
    rcases hboot with hclean | ⟨k, snapshot, haccepts, himport⟩
    · exact issuing_clean hclean
    · exact issuing_import haccepts himport
  constructor
  · refine Runs.Permitted.imp fun s event hwell hzero => ?_
    exact (hwell 0 hzero).ne_zero rfl
  · intro hok
    have hnoload : Runs.Permitted step (fun _ event => ¬event.Named (str "load")) (start w) events :=
      Runs.permitted_of_forall fun event hmem _ => hload event hmem
    exact Runs.permitted_of_invariant' (P := Issuing) (fun _ _ h hok => h.step hok.1 hok.2)
      (fun _ _ h hok => issuesWell_of_ne_zero h hok.2) hstart (hnoload.and hok)

/-- The import of two processes, followed by two creations. -/
theorem issued_once_iff_family :
    let w : World := { kernel := (Kernel.importSnapshot {} (World.familyOf 0 5 3 "a")).1 }
    let events := [World.console "login a pw", World.console "create_pcb r 4 1 5 2",
      World.console "create_pcb t 8 2 5"]
    Runs.Permitted step NoZeroPid (start w) events ∧
      Runs.Permitted step IssuesWell (start w) events := by
  intro w events
  have haccepts : Accepts (World.familyOf 0 5 3 "a") := by decide +kernel
  have hload : World.NoLoad events := by decide
  have hok : Runs.Permitted step NoZeroPid (start w) events := by decide +kernel
  exact ⟨hok, (issued_once_iff (.inr ⟨{}, _, haccepts, rfl⟩) hload).mpr hok⟩

/-- After the PID 4294967295 an accepted snapshot leads to a process with PID 0. -/
theorem zero_pid_issued :
    let snapshot := World.familyOf 0 5 4294967295 "a"
    let w : World := { kernel := (Kernel.importSnapshot {} snapshot).1 }
    let events := [World.console "login a pw", World.console "create_pcb r 4 1 5",
      World.console "create_pcb t 8 2 5"]
    Accepts snapshot ∧ World.NoLoad events ∧
      ¬Runs.Permitted step IssuesWell (start w) events := by
  intro snapshot w events
  refine ⟨by decide +kernel, by decide, fun hwell => ?_⟩
  have hzero : (Runs.run step (start w) (events.take 2)).world.issuedPid
      (World.console "create_pcb t 8 2 5") = some 0 := by
    decide +kernel
  exact (hwell.2.2.1 0 hzero).ne_zero rfl

end Watched

end OSCoreSim
