/-
  The users and sessions tables hold the accounts and sessions in the clear: a user row for each
  account, with a hash of its password, and a session row for each session, with a digest of its
  token and the id of its user.
-/
import MiniVault.Auth.Accounts
import MiniVault.Plain.Accounts

namespace MiniVault

open Kit Imp

variable {T B J : Type} {P : Prims T B J}

/-! ## Representation -/

/-- The row of an account keeps a hash of its password. -/
structure HoldsAccount (P : Prims T B J) (row : User T) (a : PlainAccount T) : Prop where
  email : row.email = a.email
  password : ∃ salt, row.passwordHash = P.hashPassword salt a.password
  strikes : row.failedLoginAttempts = a.strikes
  lockedUntil : row.lockedUntil = a.lockedUntil

/-- The row of a session keeps a digest of its token, and the id of its user. -/
structure Database.HoldsSession (P : Prims T B J) (db : Database T) (row : Session T)
    (s : PlainSession T) : Prop where
  token : row.tokenHash = tokenDigest P s.token
  user : db.HasUser row.userId s.email
  expiresAt : row.expiresAt = s.expiresAt
  revoked : row.revokedAt.isSome = s.revoked

structure Database.HoldsAccounts (P : Prims T B J) (db : Database T) (as : PlainAccounts T) :
    Prop where
  tables : db.Accounts
  accounts : List.Forall₂ (HoldsAccount P) db.users as.accounts
  sessions : List.Forall₂ (db.HoldsSession P) db.sessions as.sessions

theorem holdsAccounts_initial : (World.initial : World T B).db.HoldsAccounts P .empty where
  tables := accounts_initial
  accounts := .nil
  sessions := .nil

/-- A password is told by its hash, and a token by its digest. -/
structure AccountLaws (P : Prims T B J) : Prop where
  digest : Function.Injective (tokenDigest P)
  verify : ∀ salt password candidate,
    P.verifyPassword (P.hashPassword salt password) candidate = true ↔ candidate = password

/-! ## Lookups -/

section Lookup

variable [DecidableEq T] {db db' : Database T} {as : PlainAccounts T} {row : User T}
  {a : PlainAccount T}

omit [DecidableEq T] in
theorem Database.HoldsSession.mono {row : Session T} {s : PlainSession T}
    (h : db.HoldsSession P row s)
    (hmono : ∀ id email, db.HasUser id email → db'.HasUser id email) :
    db'.HoldsSession P row s :=
  { h with user := hmono _ _ h.user }

omit [DecidableEq T] in
theorem Database.HoldsAccounts.frame (hold : db.HoldsAccounts P as) (hu : db'.users = db.users)
    (hs : db'.sessions = db.sessions) : db'.HoldsAccounts P as where
  tables := hold.tables.frame hu hs
  accounts := by
    rw [hu]
    exact hold.accounts
  sessions := by
    rw [hs]
    refine hold.sessions.imp fun row s h => h.mono fun id email hid => ?_
    rw [hasUser_iff] at hid ⊢
    rwa [hu]

/-- Users and accounts are found alike. -/
theorem Database.HoldsAccounts.lookup (hold : db.HoldsAccounts P as) (email : T) :
    (db.findUser email = none ∧ as.lookup email = none) ∨
      ∃ row a, db.findUser email = some row ∧ as.lookup email = some a ∧ HoldsAccount P row a :=
  Table.forall₂_find? hold.accounts fun row a h => by rw [h.email]

/-- Sessions are found alike. -/
theorem Database.HoldsAccounts.session (hlaws : AccountLaws P) (hold : db.HoldsAccounts P as)
    (token : T) :
    (db.findSession (tokenDigest P token) = none ∧ as.session token = none) ∨
      ∃ row s, db.findSession (tokenDigest P token) = some row ∧ as.session token = some s ∧
        db.HoldsSession P row s := by
  refine Table.forall₂_find? hold.sessions fun row s h => ?_
  rw [h.token]
  exact decide_eq_decide.2 hlaws.digest.eq_iff

omit [DecidableEq T] in
theorem HoldsAccount.locked_iff (h : HoldsAccount P row a) (now : Time) :
    row.lockedAt now ↔ a.locked now = true := by
  unfold User.lockedAt PlainAccount.locked
  rw [h.lockedUntil]
  rcases a.lockedUntil with _ | t <;> simp

omit [DecidableEq T] in
theorem HoldsAccount.verify (hlaws : AccountLaws P) (h : HoldsAccount P row a) (candidate : T) :
    P.verifyPassword row.passwordHash candidate = true ↔ candidate = a.password := by
  obtain ⟨salt, hhash⟩ := h.password
  rw [hhash]
  exact hlaws.verify salt a.password candidate

omit [DecidableEq T] in
theorem HoldsAccount.strike (h : HoldsAccount P row a) (now : Time) :
    HoldsAccount P (row.withLockout (row.missed now).1 (row.missed now).2) (a.strike now) := by
  have hcounted : row.unlocked.failedLoginAttempts = a.counted := by
    unfold User.unlocked PlainAccount.counted
    rw [← h.lockedUntil, ← h.strikes]
    rcases row.lockedUntil with _ | t <;> rfl
  refine ⟨h.email, h.password, ?_, ?_⟩
  · exact congrArg (· + 1) hcounted
  · change (row.missed now).2 = _
    rw [User.missed, hcounted]
    rfl

omit [DecidableEq T] in
theorem HoldsAccount.cleared (h : HoldsAccount P row a) :
    HoldsAccount P (row.withLockout 0 none) a.cleared :=
  ⟨h.email, h.password, rfl, rfl⟩

/-- A request is let in with the same session, or turned away with the same error. -/
theorem Database.HoldsAccounts.principal (hlaws : AccountLaws P) (hold : db.HoldsAccounts P as)
    (now : Time) (credentials : Option T) :
    (∃ x, db.principal P now credentials = .error x ∧ as.principal P now credentials = .error x) ∨
      ∃ p s, db.principal P now credentials = .ok p ∧ as.principal P now credentials = .ok s ∧
        p.user.email = s.email ∧ p.session ∈ db.sessions ∧ db.HoldsSession P p.session s := by
  unfold Database.principal PlainAccounts.principal
  rcases credentials.filter P.truthy with _ | token
  · exact .inl ⟨_, rfl, rfl⟩
  dsimp only
  rcases hold.session hlaws token with ⟨hnone, hnone'⟩ | ⟨row, s, hrow, hs, hholds⟩
  · rw [hnone, hnone']
    exact .inl ⟨_, rfl, rfl⟩
  obtain ⟨u, hu, hid, hemail⟩ := hholds.user
  have huser : db.users.find? (·.id = row.userId) = some u := by
    rw [← hid]
    exact Table.find?_key hold.tables.ids hu
  rw [hrow, hs]
  dsimp only
  rw [hholds.revoked, hholds.expiresAt, huser]
  by_cases hr : s.revoked = true
  · rw [if_pos hr, if_pos hr]
    exact .inl ⟨_, rfl, rfl⟩
  rw [if_neg hr, if_neg hr]
  by_cases hx : s.expiresAt ≤ now
  · rw [if_pos hx, if_pos hx]
    exact .inl ⟨_, rfl, rfl⟩
  rw [if_neg hx, if_neg hx]
  exact .inr ⟨_, s, rfl, rfl, hemail, (findSession_eq_some hrow).1, hholds⟩

end Lookup

/-! ## Updates -/

section Updates

variable [DecidableEq T] {db : Database T} {as : PlainAccounts T} {e : Env P}

theorem Database.HoldsAccounts.registered (hold : db.HoldsAccounts P as) (e : Env P)
    {email : T} (password : T) (hf : db.findUser (P.normalizeEmail email) = none)
    (hnone : as.lookup (P.normalizeEmail email) = none) :
    (db.registerUser P e email password).HoldsAccounts P
      (as.addAccount ⟨P.normalizeEmail email, password, 0, none⟩) := by
  have habsent : P.normalizeEmail email ∉ as.accounts.map (·.email) := by
    intro hmem
    obtain ⟨a, ha, hemail⟩ := List.mem_map.1 hmem
    exact List.find?_eq_none.1 hnone a ha (decide_eq_true hemail)
  unfold PlainAccounts.addAccount
  rw [dif_neg habsent]
  refine ⟨hold.tables.registerUser e password hf, ?_, ?_⟩
  · exact List.rel_append hold.accounts (.cons ⟨rfl, ⟨_, rfl⟩, rfl, rfl⟩ .nil)
  · refine hold.sessions.imp fun row s h => h.mono ?_
    rintro id email ⟨u, hu, hcols⟩
    exact ⟨u, List.mem_append_left _ hu, hcols⟩

/-- The lockout columns of a user and the strikes of the account change together. -/
theorem Database.HoldsAccounts.lockout (hold : db.HoldsAccounts P as) {user : User T}
    (huser : user ∈ db.users) {n : Nat} {l : Option Time} {f : PlainAccount T → PlainAccount T}
    (hf : ∀ a, (f a).email = a.email)
    (hrow : ∀ a, HoldsAccount P user a → HoldsAccount P (user.withLockout n l) (f a)) :
    (db.setLockout user.id n l).HoldsAccounts P (as.change user.email f hf) := by
  refine ⟨hold.tables.setLockout _ _ _, ?_, ?_⟩
  · rw [setLockout_users]
    refine Table.forall₂_map hold.accounts fun row hmem a h => ?_
    unfold Table.updated
    by_cases hid : row.id = user.id
    · obtain rfl := Table.eq_of_key hold.tables.ids hmem huser hid
      rw [if_pos rfl, if_pos h.email.symm]
      exact hrow a h
    · have hne : a.email ≠ user.email := fun heq =>
        hid (congrArg (·.id) (Table.eq_of_key hold.tables.emails hmem huser (h.email.trans heq)))
      rw [if_neg hid, if_neg hne]
      exact h
  · refine hold.sessions.imp fun row s h => h.mono fun id email hid => ?_
    rw [hasUser_iff] at hid ⊢
    rwa [setLockout_map _ _ _ fun _ => rfl]

theorem Database.HoldsAccounts.opened (hold : db.HoldsAccounts P as)
    (settings : Settings) {user : User T} (huser : user ∈ db.users)
    (hc : db.findSession (tokenDigest P e.token) = none) (hnone : as.session e.token = none) :
    (db.openSession P settings e user.id).HoldsAccounts P
      ((as.change user.email .cleared fun _ => rfl).addSession
        ⟨e.token, user.email, e.now + settings.sessionTtl, false⟩) := by
  have habsent : e.token ∉
      (as.change user.email .cleared fun _ => rfl).sessions.map (·.token) := by
    intro hmem
    obtain ⟨s, hs, htoken⟩ := List.mem_map.1 hmem
    exact List.find?_eq_none.1 hnone s hs (decide_eq_true htoken)
  have hcleared := hold.lockout huser (f := .cleared) (fun _ => rfl) fun a h => h.cleared
  unfold PlainAccounts.addSession
  rw [dif_neg habsent]
  refine ⟨hold.tables.openSession settings e huser hc, hcleared.accounts, ?_⟩
  refine List.rel_append (hcleared.sessions.imp fun row s h => h.mono fun _ _ => id)
    (.cons ⟨rfl, ?_, rfl, rfl⟩ .nil)
  have huser' : (user.id, user.email) ∈ db.users.map fun u => (u.id, u.email) :=
    List.mem_map_of_mem huser
  rw [hasUser_iff]
  change _ ∈ (db.setLockout user.id 0 none).users.map _
  rwa [setLockout_map _ _ _ fun _ => rfl]

theorem Database.HoldsAccounts.loggedOut (hlaws : AccountLaws P) (hold : db.HoldsAccounts P as)
    {session : Session T} {s : PlainSession T} (hmem : session ∈ db.sessions)
    (hs : db.HoldsSession P session s) (now : Time) :
    (db.revokeSession session.id now).HoldsAccounts P (as.logout s.token) := by
  refine ⟨hold.tables.revokeSession _ _, hold.accounts, ?_⟩
  rw [revokeSession_sessions]
  refine Table.forall₂_map hold.sessions fun row hrow s' h => ?_
  unfold Table.updated
  by_cases hid : row.id = session.id
  · obtain rfl := Table.eq_of_key hold.tables.sessionIds hrow hmem hid
    rw [if_pos rfl, if_pos (hlaws.digest (h.token.symm.trans hs.token))]
    exact ⟨h.token, h.user, h.expiresAt, rfl⟩
  · have hne : s'.token ≠ s.token := fun heq =>
      hid (congrArg (·.id) (Table.eq_of_key hold.tables.tokens hrow hmem
        (h.token.trans (heq ▸ hs.token.symm))))
    rw [if_neg hid, if_neg hne]
    exact h.mono fun _ _ => id

end Updates

end MiniVault
