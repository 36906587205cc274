/-
  `app/auth/service.py` and `app/dependencies.py`.
-/
import MiniVault.Model.Vault

namespace MiniVault

open Kit Imp

variable {T B J : Type} {P : Prims T B J} [DecidableEq T]

/-- `app.config.Settings`, the part the services read. -/
structure Settings where
  sessionTtlSeconds : Int := 1800
  maxRequestBytes : Int := 1048576

/-- `timedelta(seconds=n)` -/
def seconds (n : Nat) : Time := n * 1000000

/-- `timedelta(minutes=n)` -/
def minutes (n : Nat) : Time := seconds (60 * n)

/-- `timedelta(seconds=settings.session_ttl_seconds)`, in microseconds; nothing keeps the setting
    positive. -/
def Settings.sessionTtl (settings : Settings) : Int := settings.sessionTtlSeconds * 1000000

/-- The result of `AuthService.login`. -/
structure Login (T : Type) where
  accessToken : T
  tokenType : T
  expiresIn : Int
  deriving DecidableEq

/-- `token_digest` -/
def tokenDigest (P : Prims T B J) (token : T) : T := P.hex (P.sha256 (P.encode token))

def Database.findUser (db : Database T) (email : T) : Option (User T) :=
  db.users.find? (·.email = email)

def Database.findSession (db : Database T) (tokenHash : T) : Option (Session T) :=
  db.sessions.find? (·.tokenHash = tokenHash)

/-- Set the lockout columns of a user row. -/
def Database.setLockout (db : Database T) (id attempts : Nat) (lockedUntil : Option Time) :
    Database T :=
  { db with
    users := db.users.map fun u =>
      if u.id = id then { u with failedLoginAttempts := attempts, lockedUntil := lockedUntil }
      else u }

def Database.addUser (db : Database T) (u : User T) : Database T :=
  { db with users := db.users ++ [u] }

def Database.addSession (db : Database T) (s : Session T) : Database T :=
  { db with sessions := db.sessions ++ [s] }

/-- Set `revoked_at` of a session row. -/
def Database.revokeSession (db : Database T) (id : Nat) (now : Time) : Database T :=
  { db with
    sessions := db.sessions.map fun s => if s.id = id then { s with revokedAt := some now } else s }

namespace AuthService

/-- `AuthService.register` -/
def register (email password confirmation : T) : Py P T := do
  let email := P.normalizeEmail email
  if password ≠ confirmation then
    raise (appError .validationError "Passphrases do not match" 400)
  ofExcept (P.validatePassphrase password)
  let user? ← query (·.findUser email)
  if user?.isSome then
    raise (appError .emailAlreadyExists "Email already exists" 409)
  let e ← environ
  let id ← query fun db => e.rowid (db.users.map (·.id))
  update (·.addUser
    { id := id, email := email, passwordHash := P.hashPassword e.passwordSalt password
      failedLoginAttempts := 0, lockedUntil := none })
  commit
  return email

/-- The lock check of `login`: an expired lock starts the count again. -/
def checkLock (user? : Option (User T)) (now : Time) : Py P (Option (User T)) := do
  match user? with
  | none => return none
  | some user =>
    match user.lockedUntil with
    | none => return some user
    | some lockedUntil =>
      if now < lockedUntil then
        raise (appError .accountLocked "Account is temporarily locked" 423)
      update (·.setLockout user.id 0 none)
      return some { user with failedLoginAttempts := 0, lockedUntil := none }

/-- `AuthService.login` -/
def login (settings : Settings) (email password : T) : Py P (Login T) := do
  let found ← query (·.findUser (P.normalizeEmail email))
  let now ← utcnow
  match ← checkLock found now with
  | none => raise (appError .invalidCredentials "Invalid credentials" 401)
  | some user =>
    if !P.verifyPassword user.passwordHash password then
      let attempts := user.failedLoginAttempts + 1
      let lockedUntil :=
        if 5 ≤ attempts then some (now + minutes 5) else user.lockedUntil
      update (·.setLockout user.id attempts lockedUntil)
      commit
      raise (appError .invalidCredentials "Invalid credentials" 401)
    update (·.setLockout user.id 0 none)
    let e ← environ
    let digest := tokenDigest P e.token
    -- the unique index on sessions.token_hash
    let clash ← query (·.findSession digest)
    if clash.isSome then raise .integrityError
    let id ← query fun db => e.rowid (db.sessions.map (·.id))
    update (·.addSession
      { id := id, userId := user.id, tokenHash := digest
        expiresAt := now + settings.sessionTtl, revokedAt := none })
    commit
    return { accessToken := e.token, tokenType := P.lit "Bearer"
             expiresIn := settings.sessionTtlSeconds }

/-- `AuthService.logout` -/
def logout (session : Session T) : Py P Unit := do
  let now ← utcnow
  update (·.revokeSession session.id now)
  commit

end AuthService

/-- `dependencies.Principal` -/
structure Principal (T : Type) where
  user : User T
  session : Session T

/-- `current_principal`; `credentials` is the token of a `Bearer` header. -/
def currentPrincipal (credentials : Option T) : Py P (Principal T) := do
  match credentials.filter P.truthy with
  | none => raise (appError .unauthenticated "Authentication required" 401)
  | some token =>
    match ← query (·.findSession (tokenDigest P token)) with
    | none => raise (appError .unauthenticated "Invalid session" 401)
    | some session =>
      if session.revokedAt.isSome then
        raise (appError .unauthenticated "Invalid session" 401)
      let now ← utcnow
      if session.expiresAt ≤ now then
        raise (appError .tokenExpired "Session expired" 401)
      match ← query fun db => db.users.find? (·.id = session.userId) with
      | none => raise (appError .unauthenticated "Invalid session" 401)
      | some user => return { user := user, session := session }

end MiniVault
