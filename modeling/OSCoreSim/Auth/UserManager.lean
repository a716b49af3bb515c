import OSCoreSim.Util.Str
import Mathlib.Data.List.Sort
import Std.Data.ExtTreeMap
/-!
# Accounts and the login session

`UserManager` keeps one account record per user name and at most one session.
-/

namespace OSCoreSim

open Std (ExtTreeMap)

inductive AccountStatus where
  | normal
  | locked
  deriving DecidableEq, Repr

structure UserAccount where
  username : Str := []
  passwordHash : Str := []
  salt : Str := []
  failedAttempts : Int32 := 0
  status : AccountStatus := .normal
  deriving DecidableEq, Repr

structure UserManager where
  users : ExtTreeMap Str UserAccount := ∅
  currentUser : Option Str := none
  nextSaltId : UInt64 := 1

namespace UserManager

/-! ## Credentials -/

/-- `validateUsername`; the message on refusal. -/
def validateUsername (username : Str) : Except Str Unit :=
  if username = [] then .error (str "Register failed: username cannot be empty.")
  else if 32 < username.length then
    .error (str "Register failed: username length must be 1 to 32 characters.")
  else if !username.all (fun ch => isAlnum ch || ch == 95 || ch == 45) then
    .error
      (str "Register failed: username may only contain letters, digits, underscore, or hyphen.")
  else .ok ()

def validatePassword (password : Str) : Except Str Unit :=
  if password = [] then .error (str "Register failed: password cannot be empty.")
  else if 64 < password.length then
    .error (str "Register failed: password length must be 1 to 64 characters.")
  else .ok ()

/-- `makeSalt`: the salt made from the clock reading `now` and the salt counter. -/
def makeSalt (um : UserManager) (now : Int64) : Str :=
  str "salt_" ++ str (toString now.toInt) ++ str "_" ++ decimal um.nextSaltId.toNat

/-- The FNV-1a loop of `hashPassword`. -/
def fnv1a (input : Str) : UInt64 :=
  input.foldl (fun hash ch => (hash ^^^ ch.toUInt64) * 1099511628211) 14695981039346656037

/-- `output << std::hex << std::setw(16) << std::setfill('0') << hash`. -/
def hex16 (hash : UInt64) : Str :=
  let digits := (Nat.toDigits 16 hash.toNat).map fun c => c.toNat.toUInt8
  List.replicate (16 - digits.length) 48 ++ digits

def hashPassword (salt password : Str) : Str := hex16 (fnv1a (salt ++ password))

/-! ## Sessions -/

def newAccount (um : UserManager) (now : Int64) (username password : Str) : UserAccount :=
  { username := username, passwordHash := hashPassword (um.makeSalt now) password
    salt := um.makeSalt now, failedAttempts := 0, status := .normal }

def registerUser (um : UserManager) (now : Int64) (username password : Str) :
    Except Str (UserManager × Str) :=
  match validateUsername username, validatePassword password with
  | .error message, _ => .error message
  | .ok (), .error message => .error message
  | .ok (), .ok () =>
    if um.users.contains username then
      .error (str "Register failed: username already exists.")
    else
      .ok ({ um with
          users := um.users.insert username (um.newAccount now username password)
          nextSaltId := um.nextSaltId + 1 },
        str "Register success: user '" ++ username ++ str "' created.")

def punish (account : UserAccount) : UserAccount :=
  let failed := { account with failedAttempts := account.failedAttempts + 1 }
  if 3 ≤ failed.failedAttempts then { failed with status := .locked } else failed

/-- `login`: the new state, the result flag and the message.  A wrong password
changes the account although the login fails. -/
def login (um : UserManager) (username password : Str) : UserManager × Bool × Str :=
  match um.currentUser with
  | some current =>
    (um, false, str "Login failed: user '" ++ current ++ str "' is already logged in.")
  | none =>
    match um.users[username]? with
    | none => (um, false, str "Login failed: user does not exist.")
    | some account =>
      if account.status = .locked then (um, false, str "Login failed: account is locked.")
      else if account.passwordHash ≠ hashPassword account.salt password then
        let failed := punish account
        ({ um with users := um.users.insert username failed }, false,
          if 3 ≤ failed.failedAttempts then
            str "Login failed: password is wrong. Account is locked after 3 failed attempts."
          else str "Login failed: password is wrong. Failed attempts: " ++
            decimalInt failed.failedAttempts ++ str "/3.")
      else
        ({ um with
            users := um.users.insert username { account with failedAttempts := 0 }
            currentUser := some username }, true,
          str "Login success: current user is '" ++ username ++ str "'.")

def logout (um : UserManager) : Except Str (UserManager × Str) :=
  match um.currentUser with
  | none => .error (str "Logout skipped: no user is logged in.")
  | some current =>
    .ok ({ um with currentUser := none },
      str "Logout success: user '" ++ current ++ str "' logged out.")

def isLoggedIn (um : UserManager) : Bool := um.currentUser.isSome

/-- `currentUser`, which is the empty string without a session. -/
def currentUserName (um : UserManager) : Str := um.currentUser.getD []

def whoami (um : UserManager) : Str := um.currentUser.getD (str "not logged in")

def clearCurrentSession (um : UserManager) : UserManager := { um with currentUser := none }

/-! ## Persistence interface -/

/-- `std::string::operator<` is the lexicographic order of the bytes. -/
def exportUsers (um : UserManager) : List UserAccount :=
  (um.users.toList.map Prod.snd).insertionSort fun left right =>
    (compare left.username right.username).isLE

def importUsers (um : UserManager) (users : List UserAccount) : UserManager :=
  { um with
    users := users.foldl (fun table account => table.insert account.username account) ∅
    currentUser := none }

end UserManager

end OSCoreSim
