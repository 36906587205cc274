/-
  The server in the clear: the vault, the accounts and the sessions as they are, behind the routes
  of `app/router.py`.
-/
import MiniVault.Http.Request
import MiniVault.Plain.Accounts
import MiniVault.Plain.Vault

namespace MiniVault

open Kit Imp

variable {T B J : Type}

/-! ## The server -/

/-- The vault and the accounts, in the clear. -/
structure PlainServer (T B J : Type) where
  vault : PlainVault T B J
  accounts : PlainAccounts T

namespace PlainServer

def empty : PlainServer T B J := ⟨.empty, .empty⟩

variable [DecidableEq T] {P : Prims T B J} (canon : J → J) (settings : Settings)
  (s : PlainServer T B J)

/-- A call of the vault behind a request. -/
def call (i : Env P × Call T J) (statusCode : Nat) : Response T J × PlainServer T B J :=
  (answer P (s.vault.call canon i).1 statusCode, { s with vault := (s.vault.call canon i).2 })

/-- The requests of a user that are about the session, and the check of the log, whose chain no
    request breaks. -/
def own (session : PlainSession T) : UserRequest T J → Response T J × PlainServer T B J
  | .logout => (.ok .loggedOut 200, { s with accounts := s.accounts.logout session.token })
  | .me => (.ok (.me session.email) 200, s)
  | _ => (.ok (.audit .valid) 200, s)

/-- One request: the response, and the server after it. -/
def serve (s : PlainServer T B J) : Env P × Request T J → Response T J × PlainServer T B J
  | (e, .vaultInit p c) => s.call canon (e, .vaultInit p c) 201
  | (e, .vaultUnlock p) => s.call canon (e, .vaultUnlock p) 200
  | (e, .vaultLock) => s.call canon (e, .vaultLock) 200
  | (e, .vaultStatus) => s.call canon (e, .vaultStatus) 200
  | (e, .restart) => s.call canon (e, .restart) 200
  | (_, .register email p c) =>
    (answer P ((s.accounts.register P email p c).1.map .registered) 201,
      { s with accounts := (s.accounts.register P email p c).2 })
  | (e, .login email p) =>
    (answer P ((s.accounts.login settings e email p).1.map .login) 200,
      { s with accounts := (s.accounts.login settings e email p).2 })
  | (e, .user credentials r) =>
    match s.accounts.principal P e.now credentials with
    | .error x => (.ofExc x, s)
    | .ok session =>
      if r.valid then
        (r.call session.email).elim (s.own session r) fun c => s.call canon (e, c) r.status
      else (.ofExc invalidRequest, s)

end PlainServer

end MiniVault
