/-
  Specifications of `app/auth/service.py` and of `current_principal`: each either raises and
  leaves the committed tables as they were, or its result is written out.
-/
import MiniVault.Kit.Table
import MiniVault.Model.Auth

namespace MiniVault

open Kit Imp

variable {T B J : Type} {P : Prims T B J}

/-! ## current_principal -/

section Principals

variable [DecidableEq T]

/-- What `current_principal` returns or raises. -/
def Database.principal (P : Prims T B J) (db : Database T) (now : Time) (credentials : Option T) :
    Except Exc (Principal T) :=
  match credentials.filter P.truthy with
  | none => .error (appError .unauthenticated "Authentication required" 401)
  | some token =>
    match db.findSession (tokenDigest P token) with
    | none => .error (appError .unauthenticated "Invalid session" 401)
    | some session =>
      if session.revokedAt.isSome then .error (appError .unauthenticated "Invalid session" 401)
      else if session.expiresAt ≤ now then .error (appError .tokenExpired "Session expired" 401)
      else
        match db.users.find? (·.id = session.userId) with
        | none => .error (appError .unauthenticated "Invalid session" 401)
        | some user => .ok { user := user, session := session }

theorem currentPrincipal_apply (credentials : Option T) (e : Env P) (s : Proc T B) :
    currentPrincipal credentials e s = (s.db.principal P e.now credentials, s) := by
  unfold currentPrincipal Database.principal
  rcases credentials.filter P.truthy with _ | token
  · rfl
  simp only [bind_apply, query_apply]
  rcases s.db.findSession (tokenDigest P token) with _ | session
  · rfl
  by_cases hr : session.revokedAt.isSome
  · simp [hr]
  by_cases hx : session.expiresAt ≤ e.now
  · simp [hr, hx]
  rcases hu : s.db.users.find? (fun u => decide (u.id = session.userId)) with _ | user
  · simp [hr, hx, hu]
  · simp [hr, hx, hu]

/-- A principal has a session that is neither revoked nor expired, and its user. -/
theorem principal_eq_ok {db : Database T} {now : Time} {credentials : Option T}
    {p : Principal T} :
    db.principal P now credentials = .ok p ↔
      ∃ token, credentials = some token ∧ P.truthy token = true ∧
        db.findSession (tokenDigest P token) = some p.session ∧ p.session.revokedAt = none ∧
        now < p.session.expiresAt ∧ db.users.find? (·.id = p.session.userId) = some p.user := by
  constructor
  · intro h
    unfold Database.principal at h
    split at h
    · cases h
    rename_i token htoken
    obtain ⟨hcred, htruthy⟩ := Option.filter_eq_some_iff.1 htoken
    split at h
    · cases h
    rename_i session hsession
    split_ifs at h with hr hx
    split at h
    · cases h
    rename_i user huser
    cases h
    exact ⟨token, hcred, htruthy, hsession, by simpa using hr, Int.not_le.1 hx, huser⟩
  · rintro ⟨token, rfl, htruthy, hsession, hr, hx, huser⟩
    have hfilter : (some token).filter P.truthy = some token := by simp [htruthy]
    unfold Database.principal
    rw [hfilter]
    dsimp only
    rw [hsession]
    dsimp only
    rw [hr, if_neg (by simp), if_neg (Int.not_le.2 hx), huser]

end Principals

/-! ## register -/

/-- The row `register` writes. -/
def newUser (P : Prims T B J) (e : Env P) (id : Nat) (email password : T) : User T where
  id := id
  email := P.normalizeEmail email
  passwordHash := P.hashPassword e.passwordSalt password
  failedLoginAttempts := 0
  lockedUntil := none

/-- The tables after a user is registered. -/
def Database.registerUser (P : Prims T B J) (e : Env P) (email password : T) (db : Database T) :
    Database T :=
  db.addUser (newUser P e (e.rowid (db.users.map (·.id))) email password)

theorem register_cases [DecidableEq T] (email password confirmation : T) (e : Env P)
    (s : Proc T B) :
    (∃ x, AuthService.register email password confirmation e s = (.error x, s)) ∨
      (password = confirmation ∧ s.db.findUser (P.normalizeEmail email) = none ∧
        AuthService.register email password confirmation e s =
          (.ok (P.normalizeEmail email),
            { s with
              db := s.db.registerUser P e email password
              committed := s.db.registerUser P e email password })) := by
  unfold AuthService.register
  by_cases hp : password = confirmation
  swap
  · left; simp [hp]
  subst hp
  rcases hv : P.validatePassphrase password with x | _
  · left; simp
  rcases hf : s.db.findUser (P.normalizeEmail email) with _ | user
  · right
    exact ⟨rfl, rfl, by simp [hf, Database.registerUser, newUser]⟩
  · left; simp [hf]

/-! ## login -/

/-- Is the user locked out? -/
def User.lockedAt (user : User T) (now : Time) : Prop := ∃ t, user.lockedUntil = some t ∧ now < t

instance (user : User T) (now : Time) : Decidable (user.lockedAt now) :=
  match h : user.lockedUntil with
  | none => isFalse (by rintro ⟨t, ht, -⟩; rw [h] at ht; cases ht)
  | some t =>
    if hlt : now < t then isTrue ⟨t, h, hlt⟩
    else isFalse (by rintro ⟨t', ht, hlt'⟩; rw [h] at ht; cases ht; exact hlt hlt')

/-- The user with an expired lock taken off. -/
def User.unlocked (user : User T) : User T :=
  match user.lockedUntil with
  | none => user
  | some _ => { user with failedLoginAttempts := 0, lockedUntil := none }

theorem unlocked_lockedUntil (user : User T) : user.unlocked.lockedUntil = none := by
  unfold User.unlocked
  split
  · assumption
  · rfl

theorem unlocked_id (user : User T) : user.unlocked.id = user.id := by
  unfold User.unlocked
  split <;> rfl

theorem unlocked_passwordHash (user : User T) :
    user.unlocked.passwordHash = user.passwordHash := by
  unfold User.unlocked
  split <;> rfl

/-- The lockout columns after one more wrong password. -/
def User.missed (user : User T) (now : Time) : Nat × Option Time :=
  (user.unlocked.failedLoginAttempts + 1,
    if 5 ≤ user.unlocked.failedLoginAttempts + 1 then some (now + minutes 5) else none)

theorem setLockout_setLockout (db : Database T) (id n m : Nat) (l k : Option Time) :
    (db.setLockout id n l).setLockout id m k = db.setLockout id m k := by
  unfold Database.setLockout
  dsimp only
  rw [List.map_map]
  congr 1
  refine List.map_congr_left fun u _ => ?_
  by_cases hu : u.id = id
  · simp [hu]
  · simp [hu]

/-- The session row a login writes. -/
def newSession (P : Prims T B J) (settings : Settings) (e : Env P) (id userId : Nat) :
    Session T where
  id := id
  userId := userId
  tokenHash := tokenDigest P e.token
  expiresAt := e.now + settings.sessionTtl
  revokedAt := none

/-- The tables after a login. -/
def Database.openSession (P : Prims T B J) (settings : Settings) (e : Env P) (userId : Nat)
    (db : Database T) : Database T :=
  (db.setLockout userId 0 none).addSession
    (newSession P settings e (e.rowid (db.sessions.map (·.id))) userId)

/-- `raise AppError("ACCOUNT_LOCKED", ...)` -/
def accountLocked : Exc := appError .accountLocked "Account is temporarily locked" 423

/-- `raise AppError("INVALID_CREDENTIALS", ...)` -/
def invalidCredentials : Exc := appError .invalidCredentials "Invalid credentials" 401

section Login

variable [DecidableEq T] {settings : Settings} {email password : T} {e : Env P} {s : Proc T B}
  {user : User T}

theorem login_unknown (hf : s.db.findUser (P.normalizeEmail email) = none) :
    AuthService.login settings email password e s = (.error invalidCredentials, s) := by
  simp [AuthService.login, AuthService.checkLock, hf, invalidCredentials]

theorem login_locked (hf : s.db.findUser (P.normalizeEmail email) = some user)
    (hl : user.lockedAt e.now) :
    AuthService.login settings email password e s = (.error accountLocked, s) := by
  obtain ⟨t, ht, hlt⟩ := hl
  simp [AuthService.login, AuthService.checkLock, hf, ht, hlt, accountLocked]

omit [DecidableEq T] in
/-- What `checkLock` leaves of a user who is not locked out. -/
theorem checkLock_unlocked (hl : ¬ user.lockedAt e.now) :
    ∃ db, AuthService.checkLock (some user) e.now e s = (.ok (some user.unlocked),
        { s with db := db }) ∧ db.sessions = s.db.sessions ∧
      ∀ n l, db.setLockout user.id n l = s.db.setLockout user.id n l := by
  rcases hu : user.lockedUntil with _ | t
  · exact ⟨s.db, by simp [AuthService.checkLock, User.unlocked, hu], rfl, fun _ _ => rfl⟩
  · have hlt : ¬ e.now < t := fun hlt => hl ⟨t, hu, hlt⟩
    exact ⟨s.db.setLockout user.id 0 none,
      by simp [AuthService.checkLock, User.unlocked, hu, hlt], rfl,
      fun n l => setLockout_setLockout s.db user.id 0 n none l⟩

theorem login_wrong (hf : s.db.findUser (P.normalizeEmail email) = some user)
    (hl : ¬ user.lockedAt e.now) (hp : P.verifyPassword user.passwordHash password = false) :
    AuthService.login settings email password e s =
      (.error invalidCredentials,
        { s with
          db := s.db.setLockout user.id (user.missed e.now).1 (user.missed e.now).2
          committed := s.db.setLockout user.id (user.missed e.now).1 (user.missed e.now).2 }) := by
  obtain ⟨db, hcheck, -, hdb⟩ := checkLock_unlocked (s := s) hl
  unfold AuthService.login
  simp [hf, hcheck, unlocked_passwordHash, hp, unlocked_id, hdb, User.missed,
    unlocked_lockedUntil, invalidCredentials]

theorem login_clash (hf : s.db.findUser (P.normalizeEmail email) = some user)
    (hl : ¬ user.lockedAt e.now) (hp : P.verifyPassword user.passwordHash password = true)
    (hc : s.db.findSession (tokenDigest P e.token) ≠ none) :
    ∃ db, AuthService.login settings email password e s =
      (.error .integrityError, { s with db := db }) := by
  obtain ⟨db, hcheck, hsessions, -⟩ := checkLock_unlocked (s := s) hl
  have hclash : ((db.setLockout user.id 0 none).findSession (tokenDigest P e.token)).isSome =
      true := by
    show (db.sessions.find? _).isSome = true
    rw [hsessions]
    exact Option.isSome_iff_ne_none.2 hc
  refine ⟨db.setLockout user.id 0 none, ?_⟩
  unfold AuthService.login
  simp [hf, hcheck, unlocked_passwordHash, hp, unlocked_id, hclash]

theorem login_right (hf : s.db.findUser (P.normalizeEmail email) = some user)
    (hl : ¬ user.lockedAt e.now) (hp : P.verifyPassword user.passwordHash password = true)
    (hc : s.db.findSession (tokenDigest P e.token) = none) :
    AuthService.login settings email password e s =
      (.ok ⟨e.token, P.lit "Bearer", settings.sessionTtlSeconds⟩,
        { s with
          db := s.db.openSession P settings e user.id
          committed := s.db.openSession P settings e user.id }) := by
  obtain ⟨db, hcheck, hsessions, hdb⟩ := checkLock_unlocked (s := s) hl
  have hclash : (s.db.setLockout user.id 0 none).findSession (tokenDigest P e.token) = none := hc
  have hids : (s.db.setLockout user.id 0 none).sessions = s.db.sessions := rfl
  unfold AuthService.login
  simp [hf, hcheck, unlocked_passwordHash, hp, unlocked_id, hdb, hclash, hids,
    Database.openSession, newSession]

end Login

end MiniVault
