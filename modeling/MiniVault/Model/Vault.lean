/-
  `app/core`: AES-GCM with a fresh nonce, the process-local DEK holder and the vault service.
-/
import MiniVault.Model.Database

namespace MiniVault

open Kit Imp

variable {T B J : Type} {P : Prims T B J}

/-! ## crypto_service -/

/-- `AESGCM(key)` accepts keys of 128, 192 and 256 bits. -/
def aesKeyOk (P : Prims T B J) (key : B) : Bool :=
  P.len key == 16 || P.len key == 24 || P.len key == 32

/-- `crypto_service.encrypt`, on the nonce that `os.urandom(12)` returned. -/
def gcmSeal (P : Prims T B J) (nonce key plaintext aad : B) : Except Exc (B × B) :=
  if aesKeyOk P key then .ok (nonce, P.aesgcm.encrypt key nonce plaintext aad)
  else .error .valueError

/-- `crypto_service.encrypt` -/
def encrypt (key plaintext aad : B) : Py P (B × B) := do
  let e ← environ
  let sealed ← ofExcept (gcmSeal P e.nonce key plaintext aad)
  modify fun s => { s with sealings := s.sealings ++ [⟨key, e.nonce, plaintext, aad⟩] }
  return sealed

theorem encrypt_of_key {key : B} (h : aesKeyOk P key = true) (plaintext aad : B) (e : Env P)
    (s : Proc T B) :
    encrypt key plaintext aad e s =
      (.ok (e.nonce, P.aesgcm.encrypt key e.nonce plaintext aad),
        { s with sealings := s.sealings ++ [⟨key, e.nonce, plaintext, aad⟩] }) := by
  simp [encrypt, gcmSeal, h]

theorem encrypt_of_not_key {key : B} (h : aesKeyOk P key = false) (plaintext aad : B)
    (e : Env P) (s : Proc T B) : encrypt key plaintext aad e s = (.error .valueError, s) := by
  simp [encrypt, gcmSeal, h]

/-- `crypto_service.decrypt` -/
def decrypt (P : Prims T B J) (key nonce ciphertext aad : B) : Except Exc B :=
  if aesKeyOk P key then
    if P.len nonce < 8 ∨ 128 < P.len nonce then .error .valueError
    else match P.aesgcm.decrypt key nonce ciphertext aad with
      | some plaintext => .ok plaintext
      | none => .error .invalidTag
  else .error .valueError

/-! ## base64_utils -/

/-- `b64d(value, code)` -/
def b64d (P : Prims T B J) (value : T) (code : ErrorCode := .validationError) : Except Exc B :=
  match P.b64decode value with
  | some b => .ok b
  | none => .error (appError code "Invalid Base64 data" 400)

/-! ## VaultState -/

/-- `VaultState.require_dek` -/
def requireDek : Py P B := do
  match ← gets (·.dek) with
  | some dek => return dek
  | none => raise (appError .vaultLocked "Vault is locked" 423)

theorem requireDek_of_some {s : Proc T B} {dek : B} (h : s.dek = some dek) (e : Env P) :
    requireDek e s = (.ok dek, s) := by
  simp [requireDek, h]

theorem requireDek_of_none {s : Proc T B} (h : s.dek = none) (e : Env P) :
    (requireDek : Py P B) e s = (.error (appError .vaultLocked "Vault is locked" 423), s) := by
  simp [requireDek, h]

/-- `VaultState.unlock` -/
def unlockState (dek : B) : Py P Unit := modify fun s => { s with dek := some dek }

/-- `VaultState.lock` -/
def lockState : Py P Unit := modify fun s => { s with dek := none }

/-! ## VaultService -/

/-- The associated data the DEK is wrapped under. -/
def dekAad (P : Prims T B J) : B := P.encode (P.lit "mini-vault-dek-v1")

namespace VaultService

variable [DecidableEq T]

/-- `VaultService.init` -/
def init (passphrase confirmation : T) : Py P Unit := do
  let config ← query (·.vaultConfig.head?)
  if config.isSome then
    raise (appError .vaultAlreadyInitialized "Vault is already initialized" 409)
  if passphrase ≠ confirmation then
    raise (appError .validationError "Passphrases do not match" 400)
  ofExcept (P.validatePassphrase passphrase)
  let e ← environ
  let derived := P.deriveKey passphrase e.salt P.defaultParams
  let (nonce, wrapped) ← encrypt derived e.dek (dekAad P)
  update fun db =>
    { db with
      vaultConfig := db.vaultConfig ++
        [{ kdfSaltB64 := P.b64encode e.salt
           kdfParametersJson := P.defaultParams
           encryptedDekB64 := P.b64encode wrapped
           dekNonceB64 := P.b64encode nonce }] }
  commit
  lockState

/-- The `try` block of `VaultService.unlock`: the DEK under the key derived from `passphrase`. -/
def unwrapDek (P : Prims T B J) (config : VaultConfig T) (passphrase : T) : Except Exc B := do
  let salt ← b64d P config.kdfSaltB64
  let derived := P.deriveKey passphrase salt config.kdfParametersJson
  let nonce ← b64d P config.dekNonceB64
  let wrapped ← b64d P config.encryptedDekB64
  decrypt P derived nonce wrapped (dekAad P)

/-- `VaultService.unlock` -/
def unlock (passphrase : T) : Py P Unit := do
  match ← query (·.vaultConfig.head?) with
  | none => raise (appError .vaultNotInitialized "Vault is not initialized" 400)
  | some config =>
    let dek ← handle (ofExcept (unwrapDek P config passphrase)) fun x =>
      if x = .invalidTag ∨ x.isValueError then
        raise (appError .invalidMasterPassphrase "Invalid master passphrase" 401)
      else raise x
    unlockState dek

/-- `VaultService.status`: is the vault initialized, and is it unlocked? -/
def status : Py P (Bool × Bool) := do
  let config ← query (·.vaultConfig.head?)
  let dek ← gets (·.dek)
  return (config.isSome, dek.isSome)

end VaultService

end MiniVault
