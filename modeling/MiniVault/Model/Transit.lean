/-
  `app/transit/service.py`.
-/
import MiniVault.Model.Vault

namespace MiniVault

open Kit Imp

variable {T B J : Type} {P : Prims T B J} [DecidableEq T]

/-- The result of `TransitService.metadata`. -/
structure KeyMetadata (T : Type) where
  keyName : T
  keyUsage : KeyUsage
  algorithm : T
  currentVersion : Nat
  createdAt : T
  revoked : Bool
  deriving DecidableEq

/-- The `message_type` of a sign or verify request. -/
inductive MessageType where
  | raw
  | digest
  deriving DecidableEq, Repr

/-- The result of `TransitService.sign`. -/
structure Signed (T : Type) where
  keyName : T
  signatureB64 : T
  signingAlgorithm : T
  deriving DecidableEq

/-- The result of `TransitService.verify`. -/
structure Verified (T : Type) where
  keyName : T
  signatureValid : Bool
  signingAlgorithm : T
  deriving DecidableEq

/-! ## Queries -/

/-- The key that `email` owns under `name`, revoked or not. -/
def Database.findKey (db : Database T) (email name : T) : Option (TransitKey T) :=
  db.transitKeys.find? fun k => k.ownerEmail = email ∧ k.keyName = name

/-- The version row of a key with the given number. -/
def Database.keyVersion (db : Database T) (id version : Nat) : Option (TransitKeyVersion T) :=
  db.transitKeyVersions.find? fun v => v.transitKeyId = id ∧ v.version = version

/-- `_current_version`: the version row of a key with the largest version. -/
def Database.currentKeyVersion (db : Database T) (id : Nat) : Option (TransitKeyVersion T) :=
  (db.transitKeyVersions.filter (·.transitKeyId = id)).argmax (·.version)

/-- `version.version if version else 1` for the current version row. -/
def Database.currentKeyNumber (db : Database T) (id : Nat) : Nat :=
  ((db.currentKeyVersion id).map (·.version)).getD 1

/-! ## Updates -/

def Database.addKey (db : Database T) (k : TransitKey T) : Database T :=
  { db with transitKeys := db.transitKeys ++ [k] }

def Database.addKeyVersion (db : Database T) (v : TransitKeyVersion T) : Database T :=
  { db with transitKeyVersions := db.transitKeyVersions ++ [v] }

/-- Change the key row with the given id. -/
def Database.updateKey (db : Database T) (id : Nat) (f : TransitKey T → TransitKey T) :
    Database T :=
  { db with transitKeys := db.transitKeys.map fun k => if k.id = id then f k else k }

/-! ## Associated data -/

/-- The associated data key material is wrapped under: version 1 has no suffix. -/
def keyAad (P : Prims T B J) (email name : T) (version : Nat) : T :=
  if version = 1 then P.fstr [P.lit "key:", email, P.lit ":", name]
  else P.fstr [P.lit "key:", email, P.lit ":", name, P.lit ":v", P.str version]

/-- The associated data of an envelope. -/
def transitAad (P : Prims T B J) (email name : T) (version : Nat) : T :=
  P.fstr [P.lit "transit:", email, P.lit ":", name, P.lit ":v", P.str version]

/-- `f"vault:v{key_version}:{name}:{b64e(blob)}"` -/
def envelope (P : Prims T B J) (version : Nat) (name : T) (blob : B) : T :=
  P.fstr [P.lit "vault:v", P.str version, P.lit ":", name, P.lit ":", P.b64encode blob]

namespace TransitService

/-- `_find` -/
def find (email name : T) (usage : Option KeyUsage := none) : Py P (TransitKey T) := do
  let _ ← requireDek
  match ← query (·.findKey email name) with
  | none => raise (appError .permissionDenied "Permission denied" 403)
  | some key =>
    if key.revokedAt.isSome then
      raise (appError .keyNotFound "Key not found" 404)
    if usage.any (· ≠ key.keyUsage) then
      raise (appError .invalidKeyUsage "Key cannot be used for this operation" 400)
    return key

/-- `metadata`; `aware` tells whether the row was built in this session. -/
def metadata (P : Prims T B J) (aware : Bool) (key : TransitKey T) (currentVersion : Nat) :
    KeyMetadata T where
  keyName := key.keyName
  keyUsage := key.keyUsage
  algorithm := key.algorithm
  currentVersion := currentVersion
  createdAt := P.isoformat aware key.createdAt
  revoked := key.revokedAt.isSome

/-- `create_aes` -/
def createAes (email name : T) : Py P (KeyMetadata T) := do
  ofExcept (P.validateKeyName name)
  let dek ← requireDek
  let existing ← query (·.findKey email name)
  if existing.isSome then
    raise (appError .keyAlreadyExists "Key already exists" 409)
  let e ← environ
  let (nonce, wrapped) ← encrypt dek e.key (P.encode (keyAad P email name 1))
  let id ← query fun db => e.rowid (db.transitKeys.map (·.id))
  let key : TransitKey T :=
    { id := id, keyName := name, ownerEmail := email, keyUsage := .encryptDecrypt
      algorithm := P.lit "AES-256-GCM", encryptedKeyMaterialB64 := P.b64encode wrapped
      keyNonceB64 := P.b64encode nonce, publicKeyB64 := none, revokedAt := none
      createdAt := e.now }
  update (·.addKey key)
  update (·.addKeyVersion
    { transitKeyId := id, version := 1
      encryptedKeyMaterialB64 := key.encryptedKeyMaterialB64, keyNonceB64 := key.keyNonceB64 })
  commit
  return metadata P true key 1

/-- `create_signing`; `e.key` is what `Ed25519PrivateKey.generate()` drew. -/
def createSigning (email name : T) : Py P (KeyMetadata T) := do
  ofExcept (P.validateKeyName name)
  let dek ← requireDek
  let existing ← query (·.findKey email name)
  if existing.isSome then
    raise (appError .keyAlreadyExists "Key already exists" 409)
  let e ← environ
  let (nonce, wrapped) ← encrypt dek e.key (P.encode (keyAad P email name 1))
  let id ← query fun db => e.rowid (db.transitKeys.map (·.id))
  let key : TransitKey T :=
    { id := id, keyName := name, ownerEmail := email, keyUsage := .signVerify
      algorithm := P.lit "ED25519", encryptedKeyMaterialB64 := P.b64encode wrapped
      keyNonceB64 := P.b64encode nonce
      publicKeyB64 := some (P.b64encode (P.publicKey e.key)), revokedAt := none
      createdAt := e.now }
  update (·.addKey key)
  commit
  return metadata P true key 1

/-- `list` -/
def list (email : T) : Py P (List (KeyMetadata T)) := do
  let _ ← requireDek
  query fun db =>
    (db.transitKeys.filter fun k => k.ownerEmail = email ∧ k.revokedAt = none).map fun k =>
      metadata P false k (db.currentKeyNumber k.id)

/-- `get` -/
def get (email name : T) : Py P (KeyMetadata T) := do
  let key ← find email name
  query fun db => metadata P false key (db.currentKeyNumber key.id)

/-- `revoke` -/
def revoke (email name : T) : Py P Unit := do
  let key ← find email name
  let now ← utcnow
  update (·.updateKey key.id fun k => { k with revokedAt := some now })
  commit

/-- `rotate` -/
def rotate (email name : T) : Py P (KeyMetadata T) := do
  let key ← find email name (some .encryptDecrypt)
  let dek ← requireDek
  let current ← query (·.currentKeyNumber key.id)
  let nextVersion := current + 1
  let e ← environ
  let (nonce, wrapped) ← encrypt dek e.key (P.encode (keyAad P email name nextVersion))
  update (·.updateKey key.id fun k =>
    { k with encryptedKeyMaterialB64 := P.b64encode wrapped, keyNonceB64 := P.b64encode nonce })
  ofExcept (bindInteger nextVersion)
  update (·.addKeyVersion
    { transitKeyId := key.id, version := nextVersion
      encryptedKeyMaterialB64 := P.b64encode wrapped, keyNonceB64 := P.b64encode nonce })
  commit
  query fun db => metadata P false key (db.currentKeyNumber key.id)

/-- The `try` block of `_material`. -/
def openMaterial (P : Prims T B J) (dek : B) (nonceB64 materialB64 aad : T) : Except Exc B := do
  let nonce ← b64d P nonceB64
  let wrapped ← b64d P materialB64
  decrypt P dek nonce wrapped (P.encode aad)

/-- `_material` -/
def material (key : TransitKey T) (version : Option Nat) : Py P B := do
  let (record, version) ← match version with
    | some k => do
      ofExcept (bindInteger k)
      let record ← query (·.keyVersion key.id k)
      if record.isNone ∧ k ≠ 1 then
        raise (appError .keyVersionNotFound "Key version not found" 404)
      pure (record, k)
    | none =>
      match key.keyUsage with
      | .encryptDecrypt => do
        let record ← query (·.currentKeyVersion key.id)
        pure (record, (record.map (·.version)).getD 1)
      | .signVerify => pure (none, 1)
  let aad := keyAad P key.ownerEmail key.keyName version
  let nonceB64 := (record.map (·.keyNonceB64)).getD key.keyNonceB64
  let materialB64 := (record.map (·.encryptedKeyMaterialB64)).getD key.encryptedKeyMaterialB64
  let dek ← requireDek
  handle (ofExcept (openMaterial P dek nonceB64 materialB64 aad)) fun x =>
    if x = .invalidTag then
      raise (appError .decryptionFailed "Key material could not be decrypted" 400)
    else raise x

/-- `encrypt` -/
def encrypt (email name plaintextB64 : T) : Py P T := do
  let key ← find email name (some .encryptDecrypt)
  let raw ← ofExcept (b64d P plaintextB64)
  if 1048576 < P.len raw then
    raise (appError .validationError "Plaintext is too large" 413)
  let keyVersion ← query (·.currentKeyNumber key.id)
  let m ← material key (some keyVersion)
  let (nonce, ciphertext) ←
    MiniVault.encrypt m raw (P.encode (transitAad P email name keyVersion))
  return envelope P keyVersion name (P.append nonce ciphertext)

/-- `decrypt` -/
def decrypt (email ciphertext : T) : Py P T := do
  let (keyVersion, name, blobB64) ← ofExcept (P.readEnvelope ciphertext)
  let blob ← ofExcept (b64d P blobB64 .invalidCiphertext)
  if P.len blob < 28 then
    raise (appError .invalidCiphertext "Invalid ciphertext" 400)
  let key ← find email name (some .encryptDecrypt)
  let raw ← handle
    (do
      let m ← material key (some keyVersion)
      ofExcept (MiniVault.decrypt P m (P.take 12 blob) (P.drop 12 blob)
        (P.encode (transitAad P email name keyVersion))))
    fun x =>
      if x = .invalidTag then
        raise (appError .decryptionFailed "Ciphertext could not be decrypted" 400)
      else raise x
  return P.b64encode raw

/-- `sign` -/
def sign (email name messageB64 : T) (messageType : MessageType) : Py P (Signed T) := do
  let key ← find email name (some .signVerify)
  let message ← ofExcept (b64d P messageB64)
  if messageType = .digest ∧ P.len message ≠ 32 then
    raise (appError .invalidDigestLength "Digest must be 32 bytes" 400)
  let m ← material key none
  -- Ed25519PrivateKey.from_private_bytes
  if P.len m ≠ 32 then raise .valueError
  return { keyName := name, signatureB64 := P.b64encode (P.sign m message)
           signingAlgorithm := P.lit "ED25519" }

/-- The `try` block of `verify`: any failure to read or check the signature is `False`. -/
def checkSignature (P : Prims T B J) (publicKeyB64 signatureB64 : T) (message : B) : Bool :=
  match P.b64decode signatureB64, P.b64decode publicKeyB64 with
  | some signature, some publicKey =>
    -- Ed25519PublicKey.from_public_bytes
    P.len publicKey == 32 && P.verify publicKey signature message
  | _, _ => false

/-- `verify` -/
def verify (email name messageB64 : T) (messageType : MessageType) (signatureB64 : T)
    (signingAlgorithm : Option T) : Py P (Verified T) := do
  let key ← find email name (some .signVerify)
  let message ← ofExcept (b64d P messageB64)
  if signingAlgorithm.any fun a => P.truthy a ∧ a ≠ key.algorithm then
    raise (appError .invalidSigningAlgorithm "Signing algorithm does not match the key" 400)
  if messageType = .digest ∧ P.len message ≠ 32 then
    raise (appError .invalidDigestLength "Digest must be 32 bytes" 400)
  let valid := checkSignature P (key.publicKeyB64.getD (P.lit "")) signatureB64 message
  return { keyName := name, signatureValid := valid, signingAlgorithm := P.lit "ED25519" }

end TransitService

end MiniVault
