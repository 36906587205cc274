/-
  What the services are written over: Python text `T`, bytes `B` and JSON values `J`, with the
  built-in and library operations the source calls on them. The services of this directory use
  texts and bytes through these operations only. `Model.Concrete` instantiates them with code
  points, octets and JSON trees; `Security.Symbolic` instantiates them with symbolic terms.
-/
import MiniVault.Kit.Aead
import MiniVault.Model.Basic

namespace MiniVault

/-- The built-in and library operations the services use. -/
structure Prims (T B J : Type) where
  /-- a string literal of the source -/
  lit : String → T
  /-- an f-string, from its parts -/
  fstr : List T → T
  /-- `str(n)` -/
  str : Int → T
  /-- truth value of a string: is it non-empty? -/
  truthy : T → Bool
  /-- the order of `ORDER BY` on a text column -/
  le : T → T → Bool
  /-- `s.encode()` -/
  encode : T → B
  len : B → Nat
  /-- `a + b` on bytes -/
  append : B → B → B
  /-- `b[:n]` -/
  take : Nat → B → B
  /-- `b[n:]` -/
  drop : Nat → B → B
  /-- `base64.b64encode(b).decode("ascii")` -/
  b64encode : B → T
  /-- `base64.b64decode(s, validate=True)`, `none` where it raises -/
  b64decode : T → Option B
  /-- `hashlib.sha256(b).digest()` -/
  sha256 : B → B
  /-- `b.hex()` -/
  hex : B → T
  /-- `t.isoformat()`; SQLite hands a stored time back without its zone -/
  isoformat : (aware : Bool) → Time → T
  /-- `email.strip().lower()` -/
  normalizeEmail : T → T
  /-- `app.utils.validation` -/
  validatePassphrase : T → Except Exc Unit
  validateKeyName : T → Except Exc Unit
  validatePath : (path email : T) → Except Exc Unit
  /-- the head of `TransitService.decrypt`: version, key name and Base64 part of an envelope -/
  readEnvelope : T → Except Exc (Nat × T × T)
  /-- the key name `router.transit_decrypt` reads from an envelope for the audit log -/
  envelopeName : T → T
  /-- `json.dumps(data, ensure_ascii=False, separators=(",", ":"), sort_keys=True).encode()` -/
  dumps : J → Except Exc B
  /-- `json.loads(raw)` -/
  loads : B → Except Exc J
  /-- does `JSONResponse` render the value (`allow_nan=False`)? -/
  renders : J → Bool
  /-- `AESGCM(key).encrypt(nonce, data, aad)` and `.decrypt`, `none` for `InvalidTag` -/
  aesgcm : Kit.Aead B
  /-- `json.dumps(DEFAULT_PARAMS)` -/
  defaultParams : T
  /-- `derive_key(passphrase, salt, json.loads(params))` -/
  deriveKey : (passphrase : T) → (salt : B) → (params : T) → B
  /-- raw public key of a raw Ed25519 private key -/
  publicKey : B → B
  sign : (privateKey message : B) → B
  verify : (publicKey signature message : B) → Bool
  /-- `PasswordHasher.hash`, with the salt it draws -/
  hashPassword : (salt : B) → (password : T) → T
  verifyPassword : (hash password : T) → Bool

/-- What one request draws from outside: the clock, `os.urandom`, `secrets.token_urlsafe`, the
    ids the database gives to the rows it inserts, and the peer's address. -/
structure Env {T B J : Type} (P : Prims T B J) where
  now : Time
  nonce : B
  nonce_len : P.len nonce = 12
  salt : B
  salt_len : P.len salt = 16
  dek : B
  dek_len : P.len dek = 32
  key : B
  key_len : P.len key = 32
  passwordSalt : B
  token : T
  /-- id of a new row, given the ids of its table -/
  rowid : List Nat → Nat
  rowid_fresh : ∀ ids, rowid ids ∉ ids
  /-- id of a new audit row, larger than those of the table -/
  auditId : List Int → Int
  auditId_gt : ∀ ids, ∀ i ∈ ids, i < auditId ids
  clientIp : Option T

end MiniVault
