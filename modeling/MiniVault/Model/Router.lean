/-
  `app/router.py`, `app/exceptions.py` and the lifespan of `app/main.py`: requests, handlers and
  one step of the running service.
-/
import MiniVault.Model.Auth
import MiniVault.Model.Kv
import MiniVault.Model.Transit
import MiniVault.Model.Audit

namespace MiniVault

open Kit Imp

/-! ## Requests and responses -/

/-- A request of an authenticated user. -/
inductive UserRequest (T J : Type) where
  | logout
  | me
  | kvList
  | kvWrite (path : T) (data : J)
  | kvVersions (path : T)
  | kvRead (path : T) (version : Option Int)
  | kvDelete (path : T)
  | keyCreate (keyName : T)
  | signingKeyCreate (keyName : T)
  | keyList
  | keyGet (name : T)
  | keyRotate (name : T)
  | keyRevoke (name : T)
  | transitEncrypt (keyName plaintextB64 : T)
  | transitDecrypt (ciphertext : T)
  | transitSign (keyName messageB64 : T) (messageType : MessageType)
  | transitVerify (keyName messageB64 : T) (messageType : MessageType) (signatureB64 : T)
      (signingAlgorithm : Option T)
  | auditVerify

/-- A request, or a restart of the process. -/
inductive Request (T J : Type) where
  | vaultInit (masterPassphrase confirmMasterPassphrase : T)
  | vaultUnlock (masterPassphrase : T)
  | vaultLock
  | vaultStatus
  | register (email passphrase confirmPassphrase : T)
  | login (email passphrase : T)
  | user (credentials : Option T) (request : UserRequest T J)
  | restart

/-- The `data` of a successful response. -/
inductive Data (T J : Type) where
  | vaultStatus (initialized unlocked : Bool)
  | registered (email : T)
  | login (l : Login T)
  | loggedOut
  | me (email : T)
  | kvListed (items : List (KVListed T))
  | kvWritten (w : KVWritten T)
  | kvVersions (vs : List (KVVersion T))
  | kvValue (v : KVValue T J)
  | deleted
  | key (m : KeyMetadata T)
  | keys (ms : List (KeyMetadata T))
  | revoked
  | ciphertext (c : T)
  | plaintext (p : T)
  | signed (s : Signed T)
  | verified (v : Verified T)
  | audit (v : AuditVerdict)
  | restarted

/-- A response: `ok(data, status_code)`, or the error body of an exception handler. -/
inductive Response (T J : Type) where
  | ok (data : Data T J) (statusCode : Nat)
  | error (err : AppError)

/-- The exception handlers of `install_handlers`. -/
def Response.ofExc {T J : Type} : Exc → Response T J
  | .app err => .error err
  | _ => .error ⟨.internalError, "Internal error", 500⟩

variable {T B J : Type} {P : Prims T B J} [DecidableEq T]

/-! ## Handlers -/

/-- The constraints on the query parameters of a route: `version: int | None = Query(None, ge=1)`
    of `kv_read`. -/
def UserRequest.valid : UserRequest T J → Bool
  | .kvRead _ version => version.all (1 ≤ ·)
  | _ => true

/-- The error that `install_handlers` answers a `RequestValidationError` with. -/
def invalidRequest : Exc := appError .validationError "Invalid request" 422

/-- `exceptions.ok`; rendering raises on a value that JSON cannot carry. -/
def ok (data : Data T J) (statusCode : Nat := 200) : Py P (Response T J) :=
  match data with
  | .kvValue v => if P.renders v.value then return .ok data statusCode else raise .valueError
  | _ => return .ok data statusCode

/-- `denied_audit` -/
def deniedAudit (p : Principal T) (action resourceType : String) (identifier : T) (exc : Exc) :
    Py P Unit := do
  match exc with
  | .app err =>
    if err.code = .permissionDenied then
      let e ← environ
      audit p.user.email (P.lit action) (P.lit resourceType) identifier (P.lit "DENIED")
        e.clientIp
  | _ => return ()

/-- `except AppError as exc: denied_audit(...); raise`, the pattern of the KV handlers and of
    `transit_call`. -/
def audited (p : Principal T) (action resourceType : String) (identifier : T)
    (m : Py P (Response T J)) : Py P (Response T J) :=
  handle m fun exc => do
    if exc.isAppError then deniedAudit p action resourceType identifier exc
    raise exc

def transitCall (p : Principal T) (action : String) (identifier : T)
    (fn : Py P (Response T J)) : Py P (Response T J) :=
  audited p action "TRANSIT_KEY" identifier fn

/-- The handlers behind `current_principal`. -/
def userHandler (p : Principal T) : UserRequest T J → Py P (Response T J)
  | .logout => do AuthService.logout p.session; ok .loggedOut
  | .me => ok (.me p.user.email)
  | .kvList => do ok (.kvListed (← KVService.list p.user.email))
  | .kvWrite path data =>
    audited p "WRITE" "KV_SECRET" path do
      ok (.kvWritten (← KVService.write path p.user.email data))
  | .kvVersions path =>
    audited p "LIST_VERSIONS" "KV_SECRET" path do
      ok (.kvVersions (← KVService.versions path p.user.email))
  | .kvRead path version =>
    audited p "READ" "KV_SECRET" path do
      ok (.kvValue (← KVService.read path p.user.email version))
  | .kvDelete path =>
    audited p "DELETE" "KV_SECRET" path do
      KVService.delete path p.user.email
      ok .deleted
  | .keyCreate keyName => do ok (.key (← TransitService.createAes p.user.email keyName)) 201
  | .signingKeyCreate keyName => do
    ok (.key (← TransitService.createSigning p.user.email keyName)) 201
  | .keyList => do ok (.keys (← TransitService.list p.user.email))
  | .keyGet name =>
    transitCall p "GET" name do ok (.key (← TransitService.get p.user.email name))
  | .keyRotate name =>
    transitCall p "ROTATE" name do ok (.key (← TransitService.rotate p.user.email name))
  | .keyRevoke name =>
    transitCall p "REVOKE" name do
      TransitService.revoke p.user.email name
      ok .revoked
  | .transitEncrypt keyName plaintextB64 =>
    transitCall p "ENCRYPT" keyName do
      ok (.ciphertext (← TransitService.encrypt p.user.email keyName plaintextB64))
  | .transitDecrypt ciphertext =>
    transitCall p "DECRYPT" (P.envelopeName ciphertext) do
      ok (.plaintext (← TransitService.decrypt p.user.email ciphertext))
  | .transitSign keyName messageB64 messageType =>
    transitCall p "SIGN" keyName do
      ok (.signed (← TransitService.sign p.user.email keyName messageB64 messageType))
  | .transitVerify keyName messageB64 messageType signatureB64 signingAlgorithm =>
    transitCall p "VERIFY" keyName do
      ok (.verified (← TransitService.verify p.user.email keyName messageB64 messageType
        signatureB64 signingAlgorithm))
  | .auditVerify => do
    let table ← query (·.auditLogs)
    ok (.audit (MiniVault.auditVerify P table))

/-- Startup of `lifespan`: migrate the audit table, lock the vault. -/
def startup : Py P Unit := do
  update fun db => { db with auditLogs := ensureSchema P db.auditLogs }
  commit
  lockState

/-- The handler of a request. -/
def handler (settings : Settings) : Request T J → Py P (Response T J)
  | .vaultInit p c => do VaultService.init p c; ok (.vaultStatus true false) 201
  | .vaultUnlock p => do
    VaultService.unlock p
    ok (.vaultStatus true true)
  | .vaultLock => do lockState; ok (.vaultStatus true false)
  | .vaultStatus => do
    let (initialized, unlocked) ← VaultService.status
    ok (.vaultStatus initialized unlocked)
  | .register email p c => do ok (.registered (← AuthService.register email p c)) 201
  | .login email p => do ok (.login (← AuthService.login settings email p))
  | .user credentials request => do
    let p ← currentPrincipal credentials
    -- the parameters are checked once the dependencies are solved
    if request.valid then userHandler p request else raise invalidRequest
  | .restart => do startup; ok .restarted

/-! ## Runs -/

/-- One request: the response and the world after it. -/
def World.request (w : World T B) (settings : Settings) (e : Env P) (r : Request T J) :
    Response T J × World T B :=
  match w.run e (handler settings r) with
  | (.ok resp, w') => (resp, w')
  | (.error exc, w') => (Response.ofExc exc, w')

end MiniVault
