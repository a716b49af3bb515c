import OSCoreSim.Auth.Accounts
import OSCoreSim.Lib.Runs
/-!
# Logins and their history

`UserManager` keeps a counter, a status flag and one session.  Here the same decisions are read
off the calls made so far and their results: a session is the last login without a logout, and an
account is locked when its attempts hold three wrong passwords in a row.
-/

namespace OSCoreSim

def UserAccount.accepts (account : UserAccount) (password : Str) : Bool :=
  account.passwordHash = UserManager.hashPassword account.salt password

namespace UserManager

/-! ## Calls and their results -/

inductive UserCall where
  | register (now : Int64) (username password : Str)
  | login (username password : Str)
  | logout

structure Answered where
  call : UserCall
  result : Bool

def answer (um : UserManager) : UserCall → UserManager × Bool
  | .register now username password =>
    match um.registerUser now username password with
    | .ok (um', _) => (um', true)
    | .error _ => (um, false)
  | .login username password =>
    ((um.login username password).1, (um.login username password).2.1)
  | .logout =>
    match um.logout with
    | .ok (um', _) => (um', true)
    | .error _ => (um, false)

/-- One call, added to the history, whose newest entry comes first. -/
def record (s : UserManager × List Answered) (call : UserCall) : UserManager × List Answered :=
  ((answer s.1 call).1, ⟨call, (answer s.1 call).2⟩ :: s.2)

def UserCall.about : UserCall → Option Str
  | .register _ username _ => some username
  | .login username _ => some username
  | .logout => none

/-! ## What a history says -/

/-- The user of the last login, if no logout came after it. -/
def session : List Answered → Option Str
  | [] => none
  | ⟨.login username _, true⟩ :: _ => some username
  | ⟨.logout, true⟩ :: _ => none
  | _ :: past => session past

def Registered (u : Str) (past : List Answered) : Prop :=
  ∃ now password, ⟨.register now u password, true⟩ ∈ past

inductive Attempt where
  | wrong
  | success
  deriving DecidableEq

/-- The attempts to log in as `u` since its registration, newest first, where `accepts` tests a
password.  A call while a session is open is no attempt. -/
def attempts (u : Str) (accepts : Str → Bool) : List Answered → List Attempt
  | [] => []
  | ⟨.register _ username _, result⟩ :: past =>
    if username = u ∧ result then [] else attempts u accepts past
  | ⟨.login username password, result⟩ :: past =>
    if username = u ∧ session past = none then
      if result then .success :: attempts u accepts past
      else if accepts password then attempts u accepts past
      else .wrong :: attempts u accepts past
    else attempts u accepts past
  | ⟨.logout, _⟩ :: past => attempts u accepts past

/-- Somewhere three wrong passwords follow each other. -/
def ThreeWrong (tries : List Attempt) : Prop := [.wrong, .wrong, .wrong] <:+: tries

/-! ## The counter and the flag of one account -/

/-- The number of wrong passwords since the last success. -/
def streak : List Attempt → ℕ
  | .wrong :: tries => streak tries + 1
  | _ => 0

variable {tries : List Attempt} {account : UserAccount}

theorem threeWrong_wrong : ThreeWrong (.wrong :: tries) ↔ 2 ≤ streak tries ∨ ThreeWrong tries := by
  unfold ThreeWrong
  rw [List.infix_cons_iff]
  rcases tries with _ | ⟨_ | _, _ | ⟨_ | _, rest⟩⟩ <;> simp [streak]

theorem threeWrong_success : ThreeWrong (.success :: tries) ↔ ThreeWrong tries := by
  unfold ThreeWrong
  rw [List.infix_cons_iff]
  simp

structure Reflects (account : UserAccount) (tries : List Attempt) : Prop where
  locked : account.status = .locked ↔ ThreeWrong tries
  failed : account.status = .normal →
    account.failedAttempts = Int32.ofNat (streak tries) ∧ streak tries < 3

theorem reflects_newAccount (um : UserManager) (now : Int64) (username password : Str) :
    Reflects (um.newAccount now username password) [] where
  locked := by simp [newAccount, ThreeWrong]
  failed _ := ⟨rfl, by decide⟩

theorem Reflects.refused (h : Reflects account tries) (hlocked : account.status = .locked) :
    Reflects account (.wrong :: tries) where
  locked := by
    rw [threeWrong_wrong, h.locked]
    exact (or_iff_right_of_imp fun _ => h.locked.mp hlocked).symm
  failed hnormal := by
    rw [hlocked] at hnormal
    cases hnormal

/-- The counter of an account that is not locked does not wrap. -/
theorem counter_next : ∀ n < 3, Int32.ofNat n + 1 = Int32.ofNat (n + 1) := by decide

theorem counter_third : ∀ n < 3, 3 ≤ Int32.ofNat n + 1 ↔ 2 ≤ n := by decide

theorem Reflects.punish (h : Reflects account tries) (hopen : account.status ≠ .locked) :
    Reflects (punish account) (.wrong :: tries) := by
  have hnormal : account.status = .normal := by
    cases hstatus : account.status with
    | normal => rfl
    | locked => exact absurd hstatus hopen
  have hnot : ¬ThreeWrong tries := fun hthree => hopen (h.locked.mpr hthree)
  obtain ⟨hfailed, hlt⟩ := h.failed hnormal
  have hthird : 3 ≤ account.failedAttempts + 1 ↔ 2 ≤ streak tries := by
    rw [hfailed]
    exact counter_third _ hlt
  unfold UserManager.punish
  by_cases hlast : 2 ≤ streak tries
  · rw [if_pos (hthird.mpr hlast)]
    refine ⟨?_, fun hcontra => by cases hcontra⟩
    rw [threeWrong_wrong]
    exact iff_of_true rfl (.inl hlast)
  · rw [if_neg fun hcontra => hlast (hthird.mp hcontra)]
    refine ⟨?_, fun _ => ⟨?_, by simp only [streak]; omega⟩⟩
    · rw [threeWrong_wrong]
      exact iff_of_false hopen (not_or.mpr ⟨hlast, hnot⟩)
    · show account.failedAttempts + 1 = _
      rw [hfailed]
      exact counter_next _ hlt

theorem Reflects.accepted (h : Reflects account tries) :
    Reflects { account with failedAttempts := 0 } (.success :: tries) where
  locked := by
    rw [threeWrong_success]
    exact h.locked
  failed _ := ⟨rfl, Nat.succ_pos 2⟩

/-! ## The whole history -/

structure Recorded (um : UserManager) (past : List Answered) : Prop where
  session : um.currentUser = session past
  registered : ∀ u, u ∈ um.users ↔ Registered u past
  accounts : ∀ u account, um.users[u]? = some account →
    Reflects account (attempts u account.accepts past)

variable {um : UserManager} {past : List Answered} {u username password : Str} {now : Int64}

theorem recorded_empty : Recorded {} [] where
  session := rfl
  registered u := by simp [Registered]
  accounts u account hget := by simp at hget

theorem registered_cons {answered : Answered} : Registered u (answered :: past) ↔
    (∃ now password, answered = ⟨.register now u password, true⟩) ∨ Registered u past := by
  simp only [Registered, List.mem_cons]
  constructor
  · rintro ⟨now, password, heq | hmem⟩
    · exact .inl ⟨now, password, heq.symm⟩
    · exact .inr ⟨now, password, hmem⟩
  · rintro (⟨now, password, heq⟩ | ⟨now, password, hmem⟩)
    · exact ⟨now, password, .inl heq.symm⟩
    · exact ⟨now, password, .inr hmem⟩

theorem registered_skip {answered : Answered}
    (h : ∀ now username password, answered ≠ ⟨.register now username password, true⟩) :
    Registered u (answered :: past) ↔ Registered u past := by
  rw [registered_cons]
  exact or_iff_right fun ⟨now, password, heq⟩ => h now u password heq

theorem Recorded.register (h : Recorded um past) (now : Int64) (username password : Str) :
    Recorded (answer um (.register now username password)).1
      (⟨.register now username password, (answer um (.register now username password)).2⟩ :: past) := by
  cases hcall : um.registerUser now username password with
  | error message =>
    have hanswer : answer um (.register now username password) = (um, false) := by
      simp only [answer, hcall]
    rw [hanswer]
    refine ⟨h.session, fun u => ?_, fun u account hget => ?_⟩
    · rw [h.registered, registered_skip (by simp)]
    · simpa [attempts] using h.accounts u account hget
  | ok result =>
    obtain ⟨-, hnew⟩ := registerUser_spec hcall
    have hfresh : username ∉ um.users := registerUser_fresh hcall
    have hanswer : answer um (.register now username password) = (result.1, true) := by
      simp only [answer, hcall]
    rw [hanswer, hnew]
    refine ⟨h.session, fun u => ?_, fun u account hget => ?_⟩
    · rw [Std.ExtTreeMap.mem_insert, registered_cons, h.registered, Std.compare_eq_iff_eq]
      simp
    · rw [KeyedTable.getElem?_insert] at hget
      by_cases hu : username = u
      · rw [if_pos hu] at hget
        cases hget
        simpa [attempts, hu] using reflects_newAccount um now username password
      · rw [if_neg hu] at hget
        simpa [attempts, hu] using h.accounts u account hget

theorem Recorded.logout (h : Recorded um past) :
    Recorded (answer um .logout).1 (⟨.logout, (answer um .logout).2⟩ :: past) := by
  cases hcall : um.logout with
  | error message =>
    have hanswer : answer um .logout = (um, false) := by simp only [answer, hcall]
    rw [hanswer]
    exact ⟨h.session, fun u => (h.registered u).trans (registered_skip (by simp)).symm, h.accounts⟩
  | ok result =>
    have hanswer : answer um .logout = (result.1, true) := by simp only [answer, hcall]
    have hclosed : result.1 = { um with currentUser := none } := logout_spec hcall
    rw [hanswer, hclosed]
    exact ⟨rfl, fun u => (h.registered u).trans (registered_skip (by simp)).symm, h.accounts⟩

inductive LoginCase (um : UserManager) (username password : Str) : UserManager → Bool → Prop
  | occupied (current : Str) (hsession : um.currentUser = some current) :
      LoginCase um username password um false
  | unknown (hsession : um.currentUser = none) (hget : um.users[username]? = none) :
      LoginCase um username password um false
  | locked (hsession : um.currentUser = none) (account : UserAccount)
      (hget : um.users[username]? = some account) (hlocked : account.status = .locked) :
      LoginCase um username password um false
  | wrong (hsession : um.currentUser = none) (account : UserAccount)
      (hget : um.users[username]? = some account) (hopen : account.status ≠ .locked)
      (hwrong : account.accepts password = false) : LoginCase um username password
        { um with users := um.users.insert username (punish account) } false
  | success (hsession : um.currentUser = none) (account : UserAccount)
      (hget : um.users[username]? = some account) (hopen : account.status ≠ .locked)
      (hright : account.accepts password = true) : LoginCase um username password
        { um with
          users := um.users.insert username { account with failedAttempts := 0 }
          currentUser := some username } true

theorem login_case (um : UserManager) (username password : Str) :
    LoginCase um username password (um.login username password).1 (um.login username password).2.1 := by
  unfold UserManager.login
  cases hsession : um.currentUser with
  | some current => exact .occupied current hsession
  | none =>
    cases hget : um.users[username]? with
    | none => exact .unknown hsession hget
    | some account =>
      by_cases hlocked : account.status = .locked
      · simp only [if_pos hlocked]
        exact .locked hsession account hget hlocked
      · by_cases hright : account.passwordHash = hashPassword account.salt password
        · have haccepts : account.accepts password = true := by
            simpa [UserAccount.accepts] using hright
          simp only [if_neg hlocked, if_neg (not_not.mpr hright)]
          exact .success hsession account hget hlocked haccepts
        · have hrefuses : account.accepts password = false := by
            simpa [UserAccount.accepts] using hright
          simp only [if_neg hlocked, if_pos hright]
          simpa only [hsession] using LoginCase.wrong hsession account hget hlocked hrefuses

theorem attempts_login {accepts : Str → Bool} {result : Bool} (hsession : session past = none) :
    attempts u accepts (⟨.login username password, result⟩ :: past) =
      if username = u then
        if result then .success :: attempts u accepts past
        else if accepts password then attempts u accepts past
        else .wrong :: attempts u accepts past
      else attempts u accepts past := by
  simp only [attempts, hsession, and_true]

theorem accepts_punish (account : UserAccount) : (punish account).accepts = account.accepts := by
  unfold punish
  dsimp only
  split <;> rfl

theorem Recorded.stored (h : Recorded um past) {account account' : UserAccount} (result : Bool)
    (hsession : um.currentUser = none) (hget : um.users[username]? = some account)
    (haccepts : account'.accepts = account.accepts)
    (hreflects : Reflects account' (if result then .success :: attempts username account.accepts past
      else if account.accepts password then attempts username account.accepts past
      else .wrong :: attempts username account.accepts past)) :
    Recorded { um with
        users := um.users.insert username account'
        currentUser := if result then some username else um.currentUser }
      (⟨.login username password, result⟩ :: past) where
  session := by
    cases result with
    | true => rfl
    | false => exact h.session
  registered u := by
    have hmem : username ∈ um.users := mem_users_of_get hget
    rw [registered_skip (by simp), ← h.registered, Std.ExtTreeMap.mem_insert, Std.compare_eq_iff_eq]
    exact or_iff_right_of_imp fun heq => heq ▸ hmem
  accounts u found hfound := by
    rw [attempts_login (h.session ▸ hsession)]
    rw [KeyedTable.getElem?_insert] at hfound
    by_cases hu : username = u
    · subst hu
      rw [if_pos rfl] at hfound
      cases hfound
      rw [if_pos rfl, haccepts]
      exact hreflects
    · rw [if_neg hu] at hfound
      rw [if_neg hu]
      exact h.accounts u found hfound

theorem Recorded.login (h : Recorded um past) (username password : Str) :
    Recorded (um.login username password).1
      (⟨.login username password, (um.login username password).2.1⟩ :: past) := by
  have hcase := login_case um username password
  generalize (um.login username password).1 = um', (um.login username password).2.1 = result at hcase
  have hskip : ∀ u, u ∈ um.users ↔ Registered u (⟨.login username password, false⟩ :: past) :=
    fun u => (h.registered u).trans (registered_skip (by simp)).symm
  cases hcase with
  | occupied current hsession =>
    refine ⟨h.session, hskip, fun u account hget => ?_⟩
    have hbusy : ¬(username = u ∧ UserManager.session past = none) := by
      rw [← h.session, hsession]
      simp
    simpa only [attempts, if_neg hbusy] using h.accounts u account hget
  | unknown hsession hnone =>
    refine ⟨h.session, hskip, fun u account hget => ?_⟩
    have hu : username ≠ u := by
      rintro rfl
      rw [hnone] at hget
      cases hget
    rw [attempts_login (h.session ▸ hsession), if_neg hu]
    exact h.accounts u account hget
  | locked hsession account hget hlocked =>
    refine ⟨h.session, hskip, fun u found hfound => ?_⟩
    have hreflects := h.accounts u found hfound
    rw [attempts_login (h.session ▸ hsession)]
    split
    next hu =>
      subst hu
      cases hget.symm.trans hfound
      simp only [Bool.false_eq_true, if_false]
      split
      · exact hreflects
      · exact hreflects.refused hlocked
    next => exact hreflects
  | wrong hsession account hget hopen hwrong =>
    refine h.stored false hsession hget (accepts_punish account) ?_
    simpa [hwrong] using (h.accounts username account hget).punish hopen
  | success hsession account hget hopen hright =>
    refine h.stored true hsession hget rfl ?_
    simpa using (h.accounts username account hget).accepted

theorem recorded_record {s : UserManager × List Answered} (h : Recorded s.1 s.2) (call : UserCall) :
    Recorded (record s call).1 (record s call).2 := by
  cases call with
  | register now username password => exact h.register now username password
  | login username password => exact h.login username password
  | logout => exact h.logout

theorem answer_frame (um : UserManager) (call : UserCall) (h : call.about ≠ some u) :
    (answer um call).1.users[u]? = um.users[u]? := by
  cases call with
  | register now username password =>
    have hne : username ≠ u := fun heq => h (congrArg some heq)
    cases hcall : um.registerUser now username password with
    | error message => simp only [answer, hcall]
    | ok result =>
      obtain ⟨-, hnew⟩ := registerUser_spec hcall
      simp only [answer, hcall, hnew, KeyedTable.getElem?_insert, if_neg hne]
  | login username password =>
    have hne : username ≠ u := fun heq => h (congrArg some heq)
    show (um.login username password).1.users[u]? = _
    rcases login_spec um username password with heq | ⟨account, account', -, -, -, husers, -⟩
    · rw [heq]
    · rw [husers, KeyedTable.getElem?_insert, if_neg hne]
  | logout =>
    cases hcall : um.logout with
    | error message => simp only [answer, hcall]
    | ok result => simp only [answer, hcall, logout_users hcall]

/-- After any calls on an empty manager, a login succeeds exactly when the history allows it: no
session is open, the user has registered, the password has the stored hash, and no three wrong
passwords followed each other.  It opens the session of that user, and no call about somebody
else changes the account. -/
theorem login_succeeds_iff (calls : List UserCall) (username password : Str) :
    let um := (Runs.run record ({}, []) calls).1
    let past := (Runs.run record ({}, []) calls).2
    ((um.login username password).2.1 = true ↔ session past = none ∧ Registered username past ∧
      ∃ account, um.users[username]? = some account ∧ account.accepts password = true ∧
        ¬ThreeWrong (attempts username account.accepts past)) ∧
    ((um.login username password).2.1 = true →
      (um.login username password).1.currentUser = some username) ∧
    ∀ call : UserCall, call.about ≠ some username →
      (answer um call).1.users[username]? = um.users[username]? := by
  intro um past
  have hok : Runs.Permitted record (fun _ _ => True) ({}, []) calls :=
    Runs.permitted_of_forall fun _ _ _ => trivial
  have h : Recorded um past :=
    Runs.run_invariant' (P := fun s : UserManager × List Answered => Recorded s.1 s.2)
      (fun _ call h _ => recorded_record h call) recorded_empty hok
  refine ⟨⟨fun htrue => ?_, fun hhistory => ?_⟩, fun htrue => ?_, fun call hcall => ?_⟩
  · have hcase := login_case um username password
    rw [htrue] at hcase
    generalize (um.login username password).1 = um' at hcase
    cases hcase with
    | success hsession account hget hopen hright =>
      exact ⟨h.session ▸ hsession, (h.registered username).mp (mem_users_of_get hget), account,
        hget, hright, fun hthree => hopen ((h.accounts username account hget).locked.mpr hthree)⟩
  · obtain ⟨hsession, -, account, hget, hright, hnot⟩ := hhistory
    have hopen : account.status ≠ .locked := fun hlocked =>
      hnot ((h.accounts username account hget).locked.mp hlocked)
    have hcase := login_case um username password
    rw [← h.session] at hsession
    generalize (um.login username password).1 = um', (um.login username password).2.1 = result at hcase
    cases hcase with
    | occupied current hcurrent =>
      rw [hsession] at hcurrent
      cases hcurrent
    | unknown _ hnone =>
      rw [hget] at hnone
      cases hnone
    | locked _ found hfound hlocked =>
      cases hget.symm.trans hfound
      exact absurd hlocked hopen
    | wrong _ found hfound _ hwrong =>
      cases hget.symm.trans hfound
      rw [hright] at hwrong
      cases hwrong
    | success => rfl
  · have hcase := login_case um username password
    rw [htrue] at hcase
    generalize (um.login username password).1 = um' at hcase ⊢
    cases hcase with
    | success => rfl
  · exact answer_frame um call hcall

end UserManager

end OSCoreSim
