/-
  `app/kv/service.py`.
-/
import MiniVault.Model.Vault

namespace MiniVault

open Kit Imp

variable {T B J : Type} {P : Prims T B J} [DecidableEq T]

/-- The result of `KVService.write`. -/
structure KVWritten (T : Type) where
  path : T
  version : Nat
  createdAt : T
  updatedAt : T
  deriving DecidableEq

/-- The result of `KVService.read`. -/
structure KVValue (T J : Type) where
  path : T
  version : Nat
  value : J

/-- An element of `KVService.versions`. -/
structure KVVersion (T : Type) where
  version : Nat
  createdAt : T
  deriving DecidableEq

/-- An element of `KVService.list`. -/
structure KVListed (T : Type) where
  path : T
  currentVersion : Nat
  createdAt : T
  updatedAt : T
  deriving DecidableEq

/-! ## Queries -/

/-- The version rows of a secret. -/
def Database.versionsOf (db : Database T) (id : Nat) : List (KVSecretVersion T) :=
  db.kvSecretVersions.filter (·.kvSecretId = id)

/-- `_current_version`: the version row of a secret with the largest version. -/
def Database.currentKvVersion (db : Database T) (id : Nat) : Option (KVSecretVersion T) :=
  (db.versionsOf id).argmax (·.version)

/-- The secret at `path`, whoever owns it. -/
def Database.findPath (db : Database T) (path : T) : Option (KVSecret T) :=
  db.kvSecrets.find? (·.path = path)

/-- The secret at `path` that `email` owns. -/
def Database.findOwned (db : Database T) (path email : T) : Option (KVSecret T) :=
  db.kvSecrets.find? fun r => r.path = path ∧ r.ownerEmail = email

/-! ## Updates -/

/-- Write new ciphertext into a row of `kv_secrets`. -/
def Database.setKvCiphertext (db : Database T) (id : Nat) (nonce ciphertext : T) (now : Time) :
    Database T :=
  { db with
    kvSecrets := db.kvSecrets.map fun r =>
      if r.id = id then
        { r with nonceB64 := nonce, ciphertextB64 := ciphertext, updatedAt := now }
      else r }

def Database.addKvSecret (db : Database T) (r : KVSecret T) : Database T :=
  { db with kvSecrets := db.kvSecrets ++ [r] }

def Database.addKvVersion (db : Database T) (v : KVSecretVersion T) : Database T :=
  { db with kvSecretVersions := db.kvSecretVersions ++ [v] }

/-- Delete a secret and its version rows. -/
def Database.deleteKvSecret (db : Database T) (id : Nat) : Database T :=
  { db with
    kvSecretVersions := db.kvSecretVersions.filter (·.kvSecretId ≠ id)
    kvSecrets := db.kvSecrets.filter (·.id ≠ id) }

/-! ## Service -/

namespace KVService

/-- `KVService.write` -/
def write (path email : T) (data : J) : Py P (KVWritten T) := do
  ofExcept (P.validatePath path email)
  let dek ← requireDek
  let raw ← ofExcept (P.dumps data)
  if 1048576 < P.len raw then
    raise (appError .validationError "Secret is too large" 413)
  let (nonce, ciphertext) ← encrypt dek raw (P.encode path)
  let item? ← query (·.findPath path)
  let now ← utcnow
  match item? with
  | some item =>
    let latest ← query (·.currentKvVersion item.id)
    let nextVersion := (latest.map (·.version)).getD 1 + 1
    update (·.setKvCiphertext item.id (P.b64encode nonce) (P.b64encode ciphertext) now)
    ofExcept (bindInteger nextVersion)
    update (·.addKvVersion
      { kvSecretId := item.id, version := nextVersion, nonceB64 := P.b64encode nonce
        ciphertextB64 := P.b64encode ciphertext, createdAt := now })
    commit
    return { path := item.path, version := nextVersion
             createdAt := P.isoformat false item.createdAt
             updatedAt := P.isoformat true now }
  | none =>
    let e ← environ
    let id ← query fun db => e.rowid (db.kvSecrets.map (·.id))
    update (·.addKvSecret
      { id := id, path := path, ownerEmail := email, nonceB64 := P.b64encode nonce
        ciphertextB64 := P.b64encode ciphertext, createdAt := now, updatedAt := now })
    update (·.addKvVersion
      { kvSecretId := id, version := 1, nonceB64 := P.b64encode nonce
        ciphertextB64 := P.b64encode ciphertext, createdAt := now })
    commit
    return { path := path, version := 1, createdAt := P.isoformat true now
             updatedAt := P.isoformat true now }

/-- The `try` block of `KVService.read`. -/
def openSecret (P : Prims T B J) (dek : B) (nonceB64 ciphertextB64 path : T) : Except Exc J := do
  let nonce ← b64d P nonceB64
  let ciphertext ← b64d P ciphertextB64
  let raw ← decrypt P dek nonce ciphertext (P.encode path)
  P.loads raw

/-- `KVService.read` -/
def read (path email : T) (version : Option Int) : Py P (KVValue T J) := do
  ofExcept (P.validatePath path email)
  let dek ← requireDek
  match ← query (·.findOwned path email) with
  | none => raise (appError .notFound "Secret not found" 404)
  | some item =>
    let record ← match version with
      | some k => do
        if k < 1 then raise (appError .validationError "Invalid version" 422)
        ofExcept (bindInteger k.toNat)
        let found ← query fun db => db.kvSecretVersions.find? fun v =>
          v.kvSecretId = item.id ∧ v.version = k.toNat
        match found with
        | none => raise (appError .notFound "Secret version not found" 404)
        | some v => pure (some v)
      | none => query (·.currentKvVersion item.id)
    let nonceB64 := (record.map (·.nonceB64)).getD item.nonceB64
    let ciphertextB64 := (record.map (·.ciphertextB64)).getD item.ciphertextB64
    let currentVersion := (record.map (·.version)).getD 1
    let value ← handle (ofExcept (openSecret P dek nonceB64 ciphertextB64 path)) fun x =>
      if x = .invalidTag ∨ x.isValueError then
        raise (appError .decryptionFailed "Secret could not be decrypted" 400)
      else raise x
    return { path := path, version := currentVersion, value := value }

/-- `KVService.versions` -/
def versions (path email : T) : Py P (List (KVVersion T)) := do
  ofExcept (P.validatePath path email)
  let _ ← requireDek
  match ← query (·.findOwned path email) with
  | none => raise (appError .notFound "Secret not found" 404)
  | some item =>
    let rows ← query fun db => (db.versionsOf item.id).insertionSort fun a b =>
      a.version ≤ b.version
    if rows.isEmpty then
      return [{ version := 1, createdAt := P.isoformat false item.createdAt }]
    return rows.map fun v => { version := v.version, createdAt := P.isoformat false v.createdAt }

/-- `KVService.delete` -/
def delete (path email : T) : Py P Unit := do
  ofExcept (P.validatePath path email)
  let _ ← requireDek
  match ← query (·.findOwned path email) with
  | none => raise (appError .notFound "Secret not found" 404)
  | some item =>
    update (·.deleteKvSecret item.id)
    commit

/-- `KVService.list` -/
def list (email : T) : Py P (List (KVListed T)) := do
  let _ ← requireDek
  query fun db =>
    ((db.kvSecrets.filter (·.ownerEmail = email)).insertionSort fun a b => P.le a.path b.path).map
      fun r => { path := r.path
                 currentVersion := ((db.currentKvVersion r.id).map (·.version)).getD 1
                 createdAt := P.isoformat false r.createdAt
                 updatedAt := P.isoformat false r.updatedAt }

end KVService

end MiniVault
