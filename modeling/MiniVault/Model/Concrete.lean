/-
  The service over Python texts, bytes and JSON values. What no file of the repository and no
  built-in of Python defines is a `Lib`: AES-GCM, SHA-256, Argon2, Ed25519, lower-casing and
  the conversion of finite floats.
-/
import MiniVault.Kit.Base64
import MiniVault.Model.Text
import MiniVault.Model.Router
import Mathlib.Data.Char

namespace MiniVault

open Kit

/-- The libraries behind the service, over a type `F` of finite floats. -/
structure Lib (F : Type) where
  aesgcm : Aead Bytes
  /-- `hashlib.sha256(b).digest()` -/
  sha256 : Bytes → Bytes
  /-- `hash_secret_raw(secret, salt, type=Type.ID, version=19, **json.loads(params))` -/
  argon2 : (secret salt : Bytes) → (params : Text) → Bytes
  /-- raw public key of a raw Ed25519 private key -/
  publicKey : Bytes → Bytes
  sign : (privateKey message : Bytes) → Bytes
  verify : (publicKey signature message : Bytes) → Bool
  /-- `PasswordHasher.hash`, with the salt it draws -/
  hashPassword : (salt : Bytes) → (password : Text) → Text
  verifyPassword : (hash password : Text) → Bool
  /-- `str.lower` -/
  lower : Text → Text
  floats : Json.FloatFormat F

variable {F : Type}

/-- `str(n)` -/
def str (n : Int) : Text := Json.intRepr n

def hexDigits (b : UInt8) : Text := [Json.hexDigit (b.toNat / 16), Json.hexDigit (b.toNat % 16)]

/-- `json.dumps(data, ...).encode()` -/
def dumps (L : Lib F) (data : Json.Value F) : Except Exc Bytes :=
  match Json.dumps L.floats data with
  | none => .error .valueError
  | some s =>
    match Json.encodeStr s with
    | none => .error .unicodeEncodeError
    | some raw => .ok raw

/-- `json.loads(raw)` -/
def loads (L : Lib F) (raw : Bytes) : Except Exc (Json.Value F) :=
  match Json.loads L.floats raw with
  | some v => .ok v
  | none => .error .valueError

mutual

/-- Does `json.dumps(v, allow_nan=False).encode()` succeed? -/
def renders : Json.Value F → Bool
  | .int n => (Json.Value.int n : Json.Value F).writable
  | .float (.fin _) => true
  | .float _ => false
  | .str s => (Json.encodeStr s).isSome
  | .arr xs => rendersElems xs
  | .obj ms => rendersMembers ms
  | _ => true

def rendersElems : List (Json.Value F) → Bool
  | [] => true
  | x :: xs => renders x && rendersElems xs

def rendersMembers : List (Json.Str × Json.Value F) → Bool
  | [] => true
  | (k, v) :: ms => (Json.encodeStr k).isSome && renders v && rendersMembers ms

end

/-- The operations of the services over texts, bytes and JSON values. -/
def concrete (L : Lib F) : Prims Text Bytes (Json.Value F) where
  lit := String.toList
  fstr := List.flatten
  str := str
  truthy s := !s.isEmpty
  le s t := decide (s ≤ t)
  encode := Utf8.encode
  len := List.length
  append := List.append
  take := List.take
  drop := List.drop
  b64encode := Base64.encode
  b64decode := Base64.decode
  sha256 := L.sha256
  hex b := b.flatMap hexDigits
  isoformat := Text.isoformat
  normalizeEmail email := L.lower (Text.strip email)
  validatePassphrase := validatePassphrase
  validateKeyName := validateKeyName
  validatePath := validatePath
  readEnvelope := readEnvelope
  envelopeName := envelopeName
  dumps := dumps L
  loads := loads L
  renders := renders
  aesgcm := L.aesgcm
  defaultParams :=
    "\x7b\"time_cost\": 3, \"memory_cost\": 65536, \"parallelism\": 2, \"hash_len\": 32\x7d".toList
  deriveKey passphrase := L.argon2 (Utf8.encode passphrase)
  publicKey := L.publicKey
  sign := L.sign
  verify := L.verify
  hashPassword := L.hashPassword
  verifyPassword := L.verifyPassword

end MiniVault
