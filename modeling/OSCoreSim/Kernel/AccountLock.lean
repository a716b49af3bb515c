import OSCoreSim.Kernel.FailedLoad
/-!
# Locked accounts

No command but `load` ever unlocks an account.  A successful `load` puts the accounts of the
state file in the place of the registered ones, so that a lock survives it exactly when the
file has it too.  Neither `save` nor `load` needs a session.
-/

namespace OSCoreSim

open CommandDispatcher UserManager

def KernelSnapshot.Locks (s : KernelSnapshot) (name : Str) : Prop :=
  ∃ account ∈ s.users, account.username = name ∧ account.status = .locked

instance (s : KernelSnapshot) (name : Str) : Decidable (s.Locks name) :=
  inferInstanceAs (Decidable (∃ account ∈ s.users, _))

namespace Kernel

variable {command : Command} {k k' : Kernel} {success : Bool} {name : Str}

theorem Change.locked (h : Change command k k' success) (hlocked : k.userManager.Locked name) :
    k'.userManager.Locked name := by
  cases h with
  | register now username password hok => exact hlocked.registerUser hok
  | login username password => exact hlocked.login username password
  | logout hok => exact hlocked.congr (congrArg (·[name]?) (logout_users hok))
  | same | exit | create | rollback | swapHalf | act | files | start | stop | restart =>
    exact hlocked

theorem login_refused (k : Kernel) (env : Environment) (fs : FileSystem)
    {request : CommandRequest} (hname : (parse request.rawLine).name = str "login")
    (huser : (parse request.rawLine).arguments.head? = some name)
    (hlocked : k.userManager.Locked name) :
    (k.executeRequest env fs request).2.2.success = false := by
  rw [executeRequest_login k env fs request hname]
  generalize (parse request.rawLine).arguments = arguments at huser
  unfold loginCommand
  split
  next username password =>
    have heq : username = name := Option.some.inj huser
    rw [heq]
    exact (hlocked.login_eq password).2
  next => rfl

end Kernel

namespace Event

def LogsIn (name : Str) (event : Event) : Prop :=
  ∃ command, event.command = some command ∧ command.name = str "login" ∧
    command.arguments.head? = some name

end Event

namespace World

open Kernel

variable {w : World} {event : Event} {name : Str}

theorem locked_step (hload : ¬event.Named (str "load"))
    (hlocked : w.kernel.userManager.Locked name) :
    (w.step event).kernel.userManager.Locked name := by
  apply step_keeps (P := fun k => k.userManager.Locked name) hload
  · exact fun _ hc => hc.locked hlocked
  · exact tick_keeps (P := fun k => k.userManager.Locked name) hlocked fun _ _ => hlocked

/-- A successful `load` finds a state file that has the lock. -/
def LoadsLocked (name : Str) (w : World) (event : Event) : Prop :=
  event.Named (str "load") → w.Succeeds event →
    ∀ s, w.kernel.snapshotStore.load w.disk = .ok s → s.Locks name

instance (name : Str) (w : World) (event : Event) : Decidable (w.LoadsLocked name event) :=
  match h : w.kernel.snapshotStore.load w.disk with
  | .ok s => decidable_of_iff (event.Named (str "load") → w.Succeeds event → s.Locks name)
      (by simp [LoadsLocked, h])
  | .error _ => isTrue (by simp [LoadsLocked, h])

/-- The account is locked after the event, and the event is no successful `login` for it. -/
def StaysLocked (name : Str) (w : World) (event : Event) : Prop :=
  (w.step event).kernel.userManager.Locked name ∧ (event.LogsIn name → ¬w.Succeeds event)

/-- Step lemma: of all events only a `load` from a file without the lock ends it. -/
theorem staysLocked_iff (hlocked : w.kernel.userManager.Locked name) :
    w.StaysLocked name event ↔ w.LoadsLocked name event := by
  have hlogin : event.LogsIn name → ¬w.Succeeds event := by
    rintro ⟨command, hcommand, hname, huser⟩
    obtain ⟨env, request, rfl, rfl⟩ := Event.exists_request hcommand
    rw [succeeds_request, login_refused w.kernel env w.disk hname huser hlocked]
    exact Bool.false_ne_true
  by_cases hload : event.Named (str "load")
  · rcases load_cases (w := w) hload with ⟨hfail, hkept⟩ | ⟨hok, s, hread, hvalid, hkernel⟩
    · have hstays : (w.step event).kernel.userManager.Locked name := by
        rcases hkept with hkernel | hkernel <;> (rw [hkernel]; exact hlocked)
      exact ⟨fun _ _ hok => absurd hok hfail, fun _ => ⟨hstays, hlogin⟩⟩
    · have hiff : (w.step event).kernel.userManager.Locked name ↔ s.Locks name := by
        rw [hkernel]
        exact locked_importUsers hvalid.usernames
      constructor
      · intro hstays _ _ found hfound
        rw [hread] at hfound
        rw [← Except.ok.inj hfound]
        exact hiff.mp hstays.1
      · exact fun hfile => ⟨hiff.mpr (hfile hload hok s hread), hlogin⟩
  · exact ⟨fun _ hname => absurd hname hload, fun _ => ⟨locked_step hload hlocked, hlogin⟩⟩

/-- A locked account stays locked, and every `login` for it fails, over exactly the runs whose
successful loads all read a state file with the lock. -/
theorem staysLocked_of_run (hlocked : w.kernel.userManager.Locked name) (events : List Event) :
    Runs.Permitted step (StaysLocked name) w events ↔
      Runs.Permitted step (LoadsLocked name) w events := by
  induction events generalizing w with
  | nil => exact Iff.rfl
  | cons event events ih =>
    constructor
    · rintro ⟨hstays, hrest⟩
      exact ⟨(staysLocked_iff hlocked).mp hstays, (ih hstays.1).mp hrest⟩
    · rintro ⟨hfile, hrest⟩
      have hstays := (staysLocked_iff hlocked).mpr hfile
      exact ⟨hstays, (ih hstays.1).mpr hrest⟩

/-- The account of `a`, locked by three wrong passwords after the events `before`. -/
def lockedAfter (before : List Event) : World :=
  Runs.run step { kernel := Kernel.start {} ∅ }
    (console "register a pw" :: before ++ List.replicate 3 (console "login a x"))

/-- Saved after the third wrong password, the lock outlives the `load`. -/
theorem staysLocked_of_run_saved :
    Runs.Permitted step (StaysLocked (str "a")) (lockedAfter [])
      [console "login a pw", console "save", console "register a pw", console "load",
        console "login a pw"] := by
  apply (staysLocked_of_run (by decide +kernel) _).mpr
  decide +kernel

/-- Saved before the first wrong password, the account is open again after the `load`: nobody
has a session before the login with the correct password succeeds. -/
theorem load_unlocks :
    let locked := lockedAfter [console "save"]
    locked.kernel.userManager.Locked (str "a") ∧ ¬locked.Succeeds (console "login a pw") ∧
      locked.kernel.userManager.currentUser = none ∧ locked.Succeeds (console "load") ∧
      (locked.step (console "load")).Succeeds (console "login a pw") := by
  decide +kernel

end World

end OSCoreSim
