import OSCoreSim.Auth.UserManager
import OSCoreSim.Lib.KeyedTable
/-!
# Accounts under their names

Every account stands under its own name, which is never empty, and a session belongs to a
registered user.  Accounts are added and rewritten, never removed.
-/

namespace OSCoreSim

open Std (ExtTreeMap)

namespace UserManager

structure Accounts (um : UserManager) : Prop where
  keyed : KeyedTable.Keyed (fun account : UserAccount => account.username) um.users
  nonempty : ∀ name ∈ um.users, name ≠ []
  session : ∀ owner, um.currentUser = some owner → owner ∈ um.users

variable {um um' : UserManager} {now : Int64} {username password message : Str}

theorem mem_users_of_get {account : UserAccount} (h : um.users[username]? = some account) :
    username ∈ um.users :=
  ExtTreeMap.mem_iff_isSome_getElem?.mpr (Option.isSome_of_eq_some h)

theorem validateUsername_spec (h : validateUsername username = .ok ()) :
    username ≠ [] ∧ ∀ ch ∈ username, 45 ≤ ch := by
  unfold validateUsername at h
  split at h
  · cases h
  next hne =>
  split at h
  · cases h
  split at h
  · cases h
  next hall =>
  refine ⟨hne, fun ch hmem => ?_⟩
  have hch : (isAlnum ch || ch == 95 || ch == 45) = true := by
    simp only [Bool.not_eq_true', Bool.not_eq_false, List.all_eq_true] at hall
    exact hall ch hmem
  have hrange : 48 ≤ ch ∨ 65 ≤ ch ∨ 97 ≤ ch ∨ ch = 95 ∨ ch = 45 := by
    simp only [isAlnum, isDigit, isUpper, isLower, Bool.or_eq_true, Bool.and_eq_true,
      decide_eq_true_eq, beq_iff_eq] at hch
    tauto
  have hle : ∀ {low : UInt8}, 45 ≤ low → low ≤ ch → 45 ≤ ch := fun h h' => UInt8.le_trans h h'
  rcases hrange with h | h | h | rfl | rfl
  · exact hle (by decide) h
  · exact hle (by decide) h
  · exact hle (by decide) h
  · decide
  · decide

theorem registerUser_spec (h : um.registerUser now username password = .ok (um', message)) :
    validateUsername username = .ok () ∧ um' = { um with
      users := um.users.insert username (um.newAccount now username password)
      nextSaltId := um.nextSaltId + 1 } := by
  unfold registerUser at h
  split at h
  · cases h
  · cases h
  next hname hword =>
    split at h
    · cases h
    · obtain ⟨rfl, -⟩ := Prod.mk.inj (Except.ok.inj h)
      exact ⟨hname, rfl⟩

/-- A login rewrites at most the account it names and may open a session for it. -/
theorem login_spec (um : UserManager) (username password : Str) :
    (um.login username password).1 = um ∨
      ∃ account account', um.users[username]? = some account ∧
        account'.username = account.username ∧ account'.passwordHash = account.passwordHash ∧
        (um.login username password).1.users = um.users.insert username account' ∧
        ((um.login username password).1.currentUser = um.currentUser ∨
          (um.login username password).1.currentUser = some username) := by
  unfold login
  split
  · exact .inl rfl
  next hnone =>
  split
  · exact .inl rfl
  next account hget =>
  split
  · exact .inl rfl
  split
  · have hsame : (punish account).username = account.username ∧
        (punish account).passwordHash = account.passwordHash := by
      unfold punish
      dsimp only
      split <;> exact ⟨rfl, rfl⟩
    exact .inr ⟨account, punish account, hget, hsame.1, hsame.2, rfl, .inl rfl⟩
  · exact .inr ⟨account, { account with failedAttempts := 0 }, hget, rfl, rfl, rfl, .inr rfl⟩

/-! ## Accounts are kept -/

theorem Accounts.insert (h : Accounts um) {account : UserAccount}
    (hname : account.username = username) (hne : username ≠ [])
    (husers : um'.users = um.users.insert username account)
    (hsession : um'.currentUser = um.currentUser ∨ um'.currentUser = some username) :
    Accounts um' where
  keyed name found hget := by
    rw [husers, KeyedTable.getElem?_insert] at hget
    split at hget
    next heq =>
      cases hget
      exact hname.trans heq
    next => exact h.keyed name found hget
  nonempty name hmem := by
    rw [husers, ExtTreeMap.mem_insert] at hmem
    rcases hmem with heq | hmem
    · exact (Std.compare_eq_iff_eq.mp heq) ▸ hne
    · exact h.nonempty name hmem
  session owner howner := by
    rw [husers]
    rcases hsession with hsame | hnew
    · exact ExtTreeMap.mem_insert.mpr (.inr (h.session owner (hsame ▸ howner)))
    · rw [hnew] at howner
      cases howner
      exact ExtTreeMap.mem_insert_self

theorem Accounts.registerUser (h : Accounts um)
    (hok : um.registerUser now username password = .ok (um', message)) : Accounts um' := by
  obtain ⟨hvalid, rfl⟩ := registerUser_spec hok
  have hname : (um.newAccount now username password).username = username := rfl
  exact h.insert hname (validateUsername_spec hvalid).1 rfl (.inl rfl)

theorem Accounts.login (h : Accounts um) (username password : Str) :
    Accounts (um.login username password).1 := by
  rcases login_spec um username password with
    heq | ⟨account, account', hget, hname, -, husers, hsession⟩
  · rw [heq]
    exact h
  · exact h.insert (hname.trans (h.keyed username account hget))
      (h.nonempty username (mem_users_of_get hget)) husers hsession

theorem logout_spec (hok : um.logout = .ok (um', message)) :
    um' = { um with currentUser := none } := by
  unfold UserManager.logout at hok
  split at hok
  · cases hok
  · exact (Prod.mk.inj (Except.ok.inj hok)).1.symm

theorem Accounts.logout (h : Accounts um) (hok : um.logout = .ok (um', message)) :
    Accounts um' := by
  rw [logout_spec hok]
  exact ⟨h.keyed, h.nonempty, fun owner howner => by cases howner⟩

theorem mem_users_registerUser (hok : um.registerUser now username password = .ok (um', message))
    {name : Str} (hmem : name ∈ um.users) : name ∈ um'.users := by
  obtain ⟨-, rfl⟩ := registerUser_spec hok
  exact ExtTreeMap.mem_insert.mpr (.inr hmem)

theorem mem_users_login (username password : Str) {name : Str} (hmem : name ∈ um.users) :
    name ∈ (um.login username password).1.users := by
  rcases login_spec um username password with heq | ⟨account, account', -, -, -, husers, -⟩
  · rwa [heq]
  · rw [husers]
    exact ExtTreeMap.mem_insert.mpr (.inr hmem)

theorem logout_users (hok : um.logout = .ok (um', message)) : um'.users = um.users := by
  rw [logout_spec hok]

/-! ## Locked accounts -/

def Locked (um : UserManager) (name : Str) : Prop :=
  um.users[name]?.map (·.status) = some .locked

instance (um : UserManager) (name : Str) : Decidable (um.Locked name) :=
  inferInstanceAs (Decidable (_ = _))

theorem locked_iff {name : Str} :
    um.Locked name ↔ ∃ account, um.users[name]? = some account ∧ account.status = .locked :=
  Option.map_eq_some_iff

/-- Whatever the password, nobody logs in to a locked account. -/
theorem Locked.login_eq (h : um.Locked username) (password : Str) :
    (um.login username password).1 = um ∧ (um.login username password).2.1 = false := by
  obtain ⟨account, hget, hstatus⟩ := locked_iff.mp h
  unfold login
  cases um.currentUser with
  | some current => exact ⟨rfl, rfl⟩
  | none => simp only [hget, hstatus, if_true, and_self]

theorem Locked.congr {name : Str} (h : um.Locked name)
    (hsame : um'.users[name]? = um.users[name]?) : um'.Locked name := by
  unfold Locked
  rw [hsame]
  exact h

theorem Locked.login {name : Str} (h : um.Locked name) (username password : Str) :
    (um.login username password).1.Locked name := by
  by_cases heq : username = name
  · rw [heq, (h.login_eq password).1]
    exact h
  · rcases login_spec um username password with hsame | ⟨account, account', -, -, -, husers, -⟩
    · rwa [hsame]
    · apply h.congr
      rw [husers, KeyedTable.getElem?_insert, if_neg heq]

theorem registerUser_fresh (hok : um.registerUser now username password = .ok (um', message)) :
    username ∉ um.users := by
  unfold registerUser at hok
  split at hok
  · cases hok
  · cases hok
  · split at hok
    · cases hok
    next hfresh => simpa using hfresh

theorem Locked.registerUser {name : Str} (h : um.Locked name)
    (hok : um.registerUser now username password = .ok (um', message)) : um'.Locked name := by
  have hne : username ≠ name := by
    intro heq
    obtain ⟨account, hget, -⟩ := locked_iff.mp h
    exact registerUser_fresh hok (heq ▸ mem_users_of_get hget)
  obtain ⟨-, rfl⟩ := registerUser_spec hok
  apply h.congr
  rw [KeyedTable.getElem?_insert, if_neg hne]

/-! ## Export and import -/

theorem exportUsers_perm (um : UserManager) :
    um.exportUsers.Perm (KeyedTable.records um.users) := List.perm_insertionSort _ _

theorem Accounts.mem_exportUsers (h : Accounts um) {account : UserAccount} :
    account ∈ um.exportUsers ↔ um.users[account.username]? = some account :=
  um.exportUsers_perm.mem_iff.trans (KeyedTable.mem_records h.keyed)

theorem Accounts.nodup_exportUsers (h : Accounts um) :
    (um.exportUsers.map (·.username)).Nodup :=
  (um.exportUsers_perm.map _).nodup_iff.mpr (KeyedTable.nodup_records h.keyed)

theorem Accounts.mem_exportUsers_map (h : Accounts um) {name : Str} :
    name ∈ um.exportUsers.map (·.username) ↔ name ∈ um.users := by
  rw [List.mem_map, ExtTreeMap.mem_iff_isSome_getElem?, Option.isSome_iff_exists]
  constructor
  · rintro ⟨account, hmem, rfl⟩
    exact ⟨account, h.mem_exportUsers.mp hmem⟩
  · rintro ⟨account, hget⟩
    have hname : account.username = name := h.keyed name account hget
    exact ⟨account, h.mem_exportUsers.mpr (by rw [hname, hget]), hname⟩

theorem Accounts.import_exportUsers (h : Accounts um) (um' : UserManager) :
    (um'.importUsers um.exportUsers).users = um.users :=
  KeyedTable.foldl_insert_records h.keyed um.exportUsers_perm

theorem accounts_importUsers {users : List UserAccount} (hnodup : (users.map (·.username)).Nodup)
    (hne : ∀ account ∈ users, account.username ≠ []) : Accounts (um.importUsers users) where
  keyed _ _ hget := ((KeyedTable.getElem?_foldl_insert_empty hnodup).mp hget).2
  nonempty name hmem := by
    obtain ⟨account, hget⟩ := Option.isSome_iff_exists.mp
      (ExtTreeMap.mem_iff_isSome_getElem?.mp hmem)
    obtain ⟨hin, rfl⟩ := (KeyedTable.getElem?_foldl_insert_empty hnodup).mp hget
    exact hne account hin
  session owner howner := by cases howner

theorem mem_importUsers {users : List UserAccount} (hnodup : (users.map (·.username)).Nodup)
    {name : Str} : name ∈ (um.importUsers users).users ↔ name ∈ users.map (·.username) := by
  rw [ExtTreeMap.mem_iff_isSome_getElem?, Option.isSome_iff_exists, List.mem_map]
  constructor
  · rintro ⟨account, hget⟩
    exact ⟨account, (KeyedTable.getElem?_foldl_insert_empty hnodup).mp hget⟩
  · rintro ⟨account, hmem, rfl⟩
    exact ⟨account, (KeyedTable.getElem?_foldl_insert_empty hnodup).mpr ⟨hmem, rfl⟩⟩

theorem locked_importUsers {users : List UserAccount} (hnodup : (users.map (·.username)).Nodup)
    {name : Str} : (um.importUsers users).Locked name ↔
      ∃ account ∈ users, account.username = name ∧ account.status = .locked := by
  have hget : ∀ account : UserAccount, (um.importUsers users).users[name]? = some account ↔
      account ∈ users ∧ account.username = name := fun account =>
    KeyedTable.getElem?_foldl_insert_empty hnodup
  simp only [locked_iff, hget, and_assoc]

/-! ## Credentials -/

/-- Credentials as `registerUser` makes them: a name of printable characters, and a hash of 16
hexadecimal digits. -/
structure Printable (account : UserAccount) : Prop where
  username_ne : account.username ≠ []
  username : ∀ ch ∈ account.username, 45 ≤ ch
  hash_length : account.passwordHash.length = 16
  hash : ∀ ch ∈ account.passwordHash, 48 ≤ ch

theorem digitChar_ge : ∀ digit < 16, 48 ≤ (Nat.digitChar digit).toNat.toUInt8 := by decide

theorem mem_toDigits_ge (n : ℕ) : ∀ c ∈ Nat.toDigits 16 n, 48 ≤ c.toNat.toUInt8 := by
  induction n using Nat.strong_induction_on with
  | _ n ih =>
    rw [Nat.toDigits_eq_if (by decide)]
    split
    next hlt => exact fun c hmem => List.mem_singleton.mp hmem ▸ digitChar_ge n hlt
    next hge =>
      intro c hmem
      rcases List.mem_append.mp hmem with hmem | hmem
      · exact ih (n / 16) (Nat.div_lt_self (by omega) (by decide)) c hmem
      · exact List.mem_singleton.mp hmem ▸ digitChar_ge (n % 16) (Nat.mod_lt n (by decide))

theorem hex16_spec (hash : UInt64) : (hex16 hash).length = 16 ∧ ∀ ch ∈ hex16 hash, 48 ≤ ch := by
  have hlength : (Nat.toDigits 16 hash.toNat).length ≤ 16 :=
    (Nat.length_toDigits_le_iff (by decide) (by decide)).mpr hash.toNat_lt
  unfold hex16
  refine ⟨?_, fun ch hmem => ?_⟩
  · simp only [List.length_append, List.length_replicate, List.length_map]
    omega
  · rcases List.mem_append.mp hmem with hmem | hmem
    · rw [List.eq_of_mem_replicate hmem]
      decide
    · obtain ⟨c, hc, rfl⟩ := List.mem_map.mp hmem
      exact mem_toDigits_ge _ c hc

def Credentials (um : UserManager) : Prop :=
  ∀ (name : Str) (account : UserAccount), um.users[name]? = some account → Printable account

theorem Credentials.insert (h : Credentials um) {account : UserAccount}
    (hprintable : Printable account) (husers : um'.users = um.users.insert username account) :
    Credentials um' := by
  intro name found hget
  rw [husers, KeyedTable.getElem?_insert] at hget
  split at hget
  · cases hget
    exact hprintable
  · exact h name found hget

theorem credentials_registerUser (h : Credentials um)
    (hok : um.registerUser now username password = .ok (um', message)) : Credentials um' := by
  obtain ⟨hvalid, rfl⟩ := registerUser_spec hok
  obtain ⟨hne, hchars⟩ := validateUsername_spec hvalid
  obtain ⟨hlength, hdigits⟩ := hex16_spec (fnv1a (um.makeSalt now ++ password))
  have hnew : Printable (um.newAccount now username password) := ⟨hne, hchars, hlength, hdigits⟩
  exact h.insert hnew rfl

theorem credentials_login (h : Credentials um) (username password : Str) :
    Credentials (um.login username password).1 := by
  rcases login_spec um username password with
    heq | ⟨account, account', hget, hname, hhash, husers, -⟩
  · rwa [heq]
  · obtain ⟨hne, hchars, hlength, hdigits⟩ := h username account hget
    exact h.insert ⟨hname ▸ hne, hname ▸ hchars, hhash ▸ hlength, hhash ▸ hdigits⟩ husers

end UserManager

end OSCoreSim
