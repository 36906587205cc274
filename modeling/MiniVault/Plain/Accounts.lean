/-
  Accounts and sessions in the clear: passwords and tokens as they are, with no hashes and no ids.
-/
import MiniVault.Kit.Table
import MiniVault.Service.Accounts

namespace MiniVault

open Kit Imp

variable {T B J : Type}

/-! ## Accounts -/

/-- An account: its password as it is, and the wrong passwords that count against it. -/
structure PlainAccount (T : Type) where
  email : T
  password : T
  strikes : Nat
  lockedUntil : Option Time

namespace PlainAccount

def locked (now : Time) (a : PlainAccount T) : Bool := a.lockedUntil.any (now < ·)

/-- The strikes that count: a lock that is over takes them off. -/
def counted (a : PlainAccount T) : Nat := if a.lockedUntil.isSome then 0 else a.strikes

/-- The account after a wrong password. -/
def strike (now : Time) (a : PlainAccount T) : PlainAccount T :=
  { a with
    strikes := a.counted + 1
    lockedUntil := if 5 ≤ a.counted + 1 then some (now + minutes 5) else none }

def cleared (a : PlainAccount T) : PlainAccount T := { a with strikes := 0, lockedUntil := none }

end PlainAccount

/-- A session: its token as it is, and the account it is for. -/
structure PlainSession (T : Type) where
  token : T
  email : T
  expiresAt : Int
  revoked : Bool

def PlainSession.revoke (s : PlainSession T) : PlainSession T := { s with revoked := true }

/-- Accounts told apart by their emails, and sessions told apart by their tokens. -/
structure PlainAccounts (T : Type) where
  accounts : List (PlainAccount T)
  sessions : List (PlainSession T)
  emails : (accounts.map (·.email)).Nodup
  tokens : (sessions.map (·.token)).Nodup

namespace PlainAccounts

def empty : PlainAccounts T := ⟨[], [], List.nodup_nil, List.nodup_nil⟩

variable [DecidableEq T]

/-- Add an account, if there is none with its email. -/
def addAccount (as : PlainAccounts T) (a : PlainAccount T) : PlainAccounts T :=
  if h : a.email ∈ as.accounts.map (·.email) then as
  else { as with
    accounts := as.accounts ++ [a]
    emails := Table.nodup_concat as.emails h }

/-- Add a session, if there is none with its token. -/
def addSession (as : PlainAccounts T) (s : PlainSession T) : PlainAccounts T :=
  if h : s.token ∈ as.sessions.map (·.token) then as
  else { as with
    sessions := as.sessions ++ [s]
    tokens := Table.nodup_concat as.tokens h }

/-- Change the account with an email. -/
def change (as : PlainAccounts T) (email : T) (f : PlainAccount T → PlainAccount T)
    (hf : ∀ a, (f a).email = a.email) : PlainAccounts T :=
  { as with
    accounts := as.accounts.map (Table.updated (·.email) email f)
    emails := by
      rw [Table.map_updated hf]
      exact as.emails }

/-- End the session with a token. -/
def logout (as : PlainAccounts T) (token : T) : PlainAccounts T :=
  { as with
    sessions := as.sessions.map (Table.updated (·.token) token .revoke)
    tokens := by
      have htoken : ∀ s : PlainSession T, s.revoke.token = s.token := fun _ => rfl
      rw [Table.map_updated htoken]
      exact as.tokens }

/-- The account with an email. -/
def lookup (as : PlainAccounts T) (email : T) : Option (PlainAccount T) :=
  as.accounts.find? (·.email = email)

/-- The session with a token. -/
def session (as : PlainAccounts T) (token : T) : Option (PlainSession T) :=
  as.sessions.find? (·.token = token)

/-- The session that the credentials of a request are for. -/
def principal (P : Prims T B J) (as : PlainAccounts T) (now : Time) (credentials : Option T) :
    Except Exc (PlainSession T) :=
  match credentials.filter P.truthy with
  | none => .error (appError .unauthenticated "Authentication required" 401)
  | some token =>
    match as.session token with
    | none => .error (appError .unauthenticated "Invalid session" 401)
    | some s =>
      if s.revoked then .error (appError .unauthenticated "Invalid session" 401)
      else if s.expiresAt ≤ now then .error (appError .tokenExpired "Session expired" 401)
      else .ok s

variable {P : Prims T B J}

/-- What a registration returns or raises, and what it leaves. -/
def register (P : Prims T B J) (as : PlainAccounts T) (email password confirmation : T) :
    Except Exc T × PlainAccounts T :=
  if password ≠ confirmation then
    (.error (appError .validationError "Passphrases do not match" 400), as)
  else
    match P.validatePassphrase password with
    | .error x => (.error x, as)
    | .ok _ =>
      if (as.lookup (P.normalizeEmail email)).isSome then
        (.error (appError .emailAlreadyExists "Email already exists" 409), as)
      else
        (.ok (P.normalizeEmail email), as.addAccount ⟨P.normalizeEmail email, password, 0, none⟩)

/-- What a login returns or raises, and what it leaves. -/
def login (settings : Settings) (as : PlainAccounts T) (e : Env P) (email password : T) :
    Except Exc (Login T) × PlainAccounts T :=
  match as.lookup (P.normalizeEmail email) with
  | none => (.error invalidCredentials, as)
  | some a =>
    if a.locked e.now then (.error accountLocked, as)
    else if password ≠ a.password then
      (.error invalidCredentials, as.change a.email (.strike e.now) fun _ => rfl)
    else if (as.session e.token).isSome then (.error .integrityError, as)
    else
      (.ok ⟨e.token, P.lit "Bearer", settings.sessionTtlSeconds⟩,
        (as.change a.email .cleared fun _ => rfl).addSession
          ⟨e.token, a.email, e.now + settings.sessionTtl, false⟩)

end PlainAccounts

end MiniVault
