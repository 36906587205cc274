/-
  The service in the clear: what it would be if it kept the master passphrase, the secrets and the
  keys in memory as they are, with no tables, no encryption and no data key. It says what the
  service is for.
-/
import MiniVault.Kit.Table
import MiniVault.Model.Service

namespace MiniVault

open Kit

variable {T B J : Type}

/-- What a locked service refuses. -/
def requireUnlocked (unlocked : Bool) : Except Exc Unit :=
  if unlocked then .ok () else .error (appError .vaultLocked "Vault is locked" 423)

@[simp] theorem requireUnlocked_bind {α : Type} (f : Unit → Except Exc α) :
    (requireUnlocked true >>= f) = f () := rfl

/-! ## Secrets -/

/-- A secret and all that was written to it, the first version first. -/
structure PlainSecret (T J : Type) where
  path : T
  owner : T
  createdAt : Time
  updatedAt : Time
  written : List (J × Time)
  written_ne : written ≠ []

namespace PlainSecret

/-- A new secret, with its first version. -/
def fresh (path owner : T) (x : J) (now : Time) : PlainSecret T J :=
  ⟨path, owner, now, now, [(x, now)], List.cons_ne_nil _ _⟩

/-- The secret with one more version. -/
def write (x : J) (now : Time) (s : PlainSecret T J) : PlainSecret T J :=
  { s with
    updatedAt := now
    written := s.written ++ [(x, now)]
    written_ne := List.concat_ne_nil _ _ }

/-- The newest value. -/
def newest (s : PlainSecret T J) : J := (s.written.getLast s.written_ne).1

variable {B : Type} (P : Prims T B J)

def versions (s : PlainSecret T J) : List (KVVersion T) :=
  s.written.mapIdx fun i x => { version := i + 1, createdAt := P.isoformat false x.2 }

def listed (s : PlainSecret T J) : KVListed T where
  path := s.path
  currentVersion := s.written.length
  createdAt := P.isoformat false s.createdAt
  updatedAt := P.isoformat false s.updatedAt

end PlainSecret

/-- The secrets in the order of their creation, told apart by their paths. -/
structure PlainSecrets (T J : Type) where
  secrets : List (PlainSecret T J)
  distinct : (secrets.map (·.path)).Nodup

namespace PlainSecrets

def empty : PlainSecrets T J := ⟨[], List.nodup_nil⟩

variable [DecidableEq T]

/-- Add a secret, if there is none at its path. -/
def add (ss : PlainSecrets T J) (s : PlainSecret T J) : PlainSecrets T J :=
  if h : s.path ∈ ss.secrets.map (·.path) then ss
  else ⟨ss.secrets ++ [s], Table.nodup_concat ss.distinct h⟩

/-- One more version of the secret at a path. -/
def append (ss : PlainSecrets T J) (path : T) (x : J) (now : Time) : PlainSecrets T J where
  secrets := ss.secrets.map (Table.updated (·.path) path (.write x now))
  distinct := by
    have hpath : ∀ s : PlainSecret T J, (s.write x now).path = s.path := fun _ => rfl
    rw [Table.map_updated hpath]
    exact ss.distinct

def remove (ss : PlainSecrets T J) (path : T) : PlainSecrets T J where
  secrets := ss.secrets.filter (·.path ≠ path)
  distinct := ss.distinct.sublist (List.filter_sublist.map _)

/-- The secret at a path. -/
def lookup (ss : PlainSecrets T J) (path : T) : Option (PlainSecret T J) :=
  ss.secrets.find? (·.path = path)

/-- What a successful call does to the secrets; `canon` is what storing does to a value. -/
def hear {P : Prims T B J} (canon : J → J) (ss : PlainSecrets T J) :
    (Env P × Call T J) × Except Exc (Data T J) → PlainSecrets T J
  | ((e, .kvWrite path email data), .ok _) =>
    match ss.lookup path with
    | none => ss.add (.fresh path email (canon data) e.now)
    | some _ => ss.append path (canon data) e.now
  | ((_, .kvDelete path _), .ok _) => ss.remove path
  | _ => ss

variable (P : Prims T B J) (ss : PlainSecrets T J) (unlocked : Bool) (path email : T)

/-- The secret of a user at a path. -/
def find : Except Exc (PlainSecret T J) := do
  P.validatePath path email
  requireUnlocked unlocked
  match ss.lookup path with
  | none => throw (appError .notFound "Secret not found" 404)
  | some s =>
    if s.owner = email then return s else throw (appError .notFound "Secret not found" 404)

def write {P : Prims T B J} (e : Env P) (data : J) : Except Exc (KVWritten T) := do
  P.validatePath path email
  requireUnlocked unlocked
  let raw ← P.dumps data
  if 1048576 < P.len raw then throw (appError .validationError "Secret is too large" 413)
  match ss.lookup path with
  | none => return ⟨path, 1, P.isoformat true e.now, P.isoformat true e.now⟩
  | some s =>
    if 2 ^ 63 ≤ s.written.length + 1 then throw .overflowError
    return ⟨path, s.written.length + 1, P.isoformat false s.createdAt, P.isoformat true e.now⟩

def read (version : Option Int) : Except Exc (KVValue T J) := do
  let s ← ss.find P unlocked path email
  match version with
  | none => return ⟨path, s.written.length, s.newest⟩
  | some k =>
    if k < 1 then throw (appError .validationError "Invalid version" 422)
    if 2 ^ 63 ≤ k.toNat then throw .overflowError
    match s.written[k.toNat - 1]? with
    | none => throw (appError .notFound "Secret version not found" 404)
    | some x => return ⟨path, k.toNat, x.1⟩

def list : Except Exc (List (KVListed T)) := do
  requireUnlocked unlocked
  return ((ss.secrets.filter (·.owner = email)).insertionSort
    fun s t => P.le s.path t.path).map (·.listed P)

end PlainSecrets

/-! ## Keys -/

/-- A named key and what was drawn for its versions, the first version first. -/
structure PlainKey (T B : Type) where
  owner : T
  name : T
  usage : KeyUsage
  createdAt : Time
  drawn : List B
  drawn_ne : drawn ≠ []
  revoked : Bool

namespace PlainKey

variable (P : Prims T B J)

def label (k : PlainKey T B) : T × T := (k.owner, k.name)

/-- A new key, with its first version. -/
def fresh {P : Prims T B J} (e : Env P) (owner name : T) (usage : KeyUsage) : PlainKey T B :=
  ⟨owner, name, usage, e.now, [e.key], List.cons_ne_nil _ _, false⟩

/-- The key with one more version. -/
def rotate (m : B) (k : PlainKey T B) : PlainKey T B :=
  { k with drawn := k.drawn ++ [m], drawn_ne := List.concat_ne_nil _ _ }

def revoke (k : PlainKey T B) : PlainKey T B := { k with revoked := true }

/-- The newest version. -/
def newest (k : PlainKey T B) : B := k.drawn.getLast k.drawn_ne

/-- The version with a number, counted from one. -/
def version (k : PlainKey T B) : Nat → Option B
  | 0 => none
  | n + 1 => k.drawn[n]?

def algorithm : KeyUsage → T
  | .encryptDecrypt => P.lit "AES-256-GCM"
  | .signVerify => P.lit "ED25519"

def metadata (aware : Bool) (k : PlainKey T B) : KeyMetadata T where
  keyName := k.name
  keyUsage := k.usage
  algorithm := algorithm P k.usage
  currentVersion := k.drawn.length
  createdAt := P.isoformat aware k.createdAt
  revoked := k.revoked

end PlainKey

/-! ## The ring -/

/-- The keys in the order of their creation, told apart by owner and name. -/
structure PlainKeys (T B : Type) where
  keys : List (PlainKey T B)
  distinct : (keys.map (·.label)).Nodup

namespace PlainKeys

def empty : PlainKeys T B := ⟨[], List.nodup_nil⟩

variable [DecidableEq T]

/-- Add a key, if its owner has none of that name. -/
def add (ks : PlainKeys T B) (k : PlainKey T B) : PlainKeys T B :=
  if h : k.label ∈ ks.keys.map (·.label) then ks
  else ⟨ks.keys ++ [k], Table.nodup_concat ks.distinct h⟩

/-- Change the key with a name. -/
def change (ks : PlainKeys T B) (owner name : T) (f : PlainKey T B → PlainKey T B)
    (hf : ∀ k, (f k).label = k.label) : PlainKeys T B where
  keys := ks.keys.map (Table.updated (·.label) (owner, name) f)
  distinct := by
    rw [Table.map_updated hf]
    exact ks.distinct

/-- The key of an owner with a name. -/
def lookup (ks : PlainKeys T B) (owner name : T) : Option (PlainKey T B) :=
  ks.keys.find? (·.label = (owner, name))

/-- What a successful call does to the ring. -/
def hear {P : Prims T B J} (ks : PlainKeys T B) :
    (Env P × Call T J) × Except Exc (Data T J) → PlainKeys T B
  | ((e, .createAes email name), .ok _) => ks.add (.fresh e email name .encryptDecrypt)
  | ((e, .createSigning email name), .ok _) => ks.add (.fresh e email name .signVerify)
  | ((e, .rotate email name), .ok _) => ks.change email name (.rotate e.key) fun _ => rfl
  | ((_, .revoke email name), .ok _) => ks.change email name .revoke fun _ => rfl
  | _ => ks

/-! ## Answers -/

variable (P : Prims T B J) (ks : PlainKeys T B) (unlocked : Bool) (email name : T)

/-- The key for an operation. -/
def find (usage : Option KeyUsage) : Except Exc (PlainKey T B) := do
  requireUnlocked unlocked
  match ks.lookup email name with
  | none => throw (appError .permissionDenied "Permission denied" 403)
  | some k =>
    if k.revoked then throw (appError .keyNotFound "Key not found" 404)
    if usage.any (· ≠ k.usage) then
      throw (appError .invalidKeyUsage "Key cannot be used for this operation" 400)
    return k

def create {P : Prims T B J} (e : Env P) (usage : KeyUsage) : Except Exc (KeyMetadata T) := do
  P.validateKeyName name
  requireUnlocked unlocked
  if (ks.lookup email name).isSome then throw (appError .keyAlreadyExists "Key already exists" 409)
  return (PlainKey.fresh e email name usage).metadata P true

def list : Except Exc (List (KeyMetadata T)) := do
  requireUnlocked unlocked
  return (ks.keys.filter fun k => k.owner = email ∧ k.revoked = false).map (·.metadata P false)

def rotate {P : Prims T B J} (e : Env P) : Except Exc (KeyMetadata T) := do
  let k ← ks.find unlocked email name (some .encryptDecrypt)
  if 2 ^ 63 ≤ k.drawn.length + 1 then throw .overflowError
  return (k.rotate e.key).metadata P false

/-- The newest version encrypts. -/
def encrypt {P : Prims T B J} (e : Env P) (plaintextB64 : T) : Except Exc T := do
  let k ← ks.find unlocked email name (some .encryptDecrypt)
  let raw ← b64d P plaintextB64
  if 1048576 < P.len raw then throw (appError .validationError "Plaintext is too large" 413)
  return envelope P k.drawn.length name (P.append e.nonce
    (P.aesgcm.encrypt k.newest e.nonce raw (P.encode (transitAad P email name k.drawn.length))))

/-- The version that the envelope names decrypts. -/
def decrypt (ciphertext : T) : Except Exc T := do
  let (n, name, blobB64) ← P.readEnvelope ciphertext
  let blob ← b64d P blobB64 .invalidCiphertext
  if P.len blob < 28 then throw (appError .invalidCiphertext "Invalid ciphertext" 400)
  let k ← ks.find unlocked email name (some .encryptDecrypt)
  if 2 ^ 63 ≤ n then throw .overflowError
  match k.version n with
  | none => throw (appError .keyVersionNotFound "Key version not found" 404)
  | some m =>
    match P.aesgcm.decrypt m (P.take 12 blob) (P.drop 12 blob)
      (P.encode (transitAad P email name n)) with
    | none => throw (appError .decryptionFailed "Ciphertext could not be decrypted" 400)
    | some raw => return P.b64encode raw

def sign (messageB64 : T) (messageType : MessageType) : Except Exc (Signed T) := do
  let k ← ks.find unlocked email name (some .signVerify)
  let message ← b64d P messageB64
  if messageType = .digest ∧ P.len message ≠ 32 then
    throw (appError .invalidDigestLength "Digest must be 32 bytes" 400)
  return ⟨name, P.b64encode (P.sign k.newest message), P.lit "ED25519"⟩

def verify (messageB64 : T) (messageType : MessageType) (signatureB64 : T)
    (signingAlgorithm : Option T) : Except Exc (Verified T) := do
  let k ← ks.find unlocked email name (some .signVerify)
  let message ← b64d P messageB64
  if signingAlgorithm.any fun a => P.truthy a ∧ a ≠ P.lit "ED25519" then
    throw (appError .invalidSigningAlgorithm "Signing algorithm does not match the key" 400)
  if messageType = .digest ∧ P.len message ≠ 32 then
    throw (appError .invalidDigestLength "Digest must be 32 bytes" 400)
  let valid := (P.b64decode signatureB64).any fun signature =>
    P.verify (P.publicKey k.newest) signature message
  return ⟨name, valid, P.lit "ED25519"⟩

end PlainKeys

/-! ## The vault -/

/-- The service in the clear. -/
structure PlainVault (T B J : Type) where
  master : Option T
  unlocked : Bool
  secrets : PlainSecrets T J
  keys : PlainKeys T B

namespace PlainVault

def empty : PlainVault T B J := ⟨none, false, .empty, .empty⟩

variable [DecidableEq T] {P : Prims T B J}

/-- What a successful call does to the vault. -/
def hear (canon : J → J) (v : PlainVault T B J) (x : (Env P × Call T J) × Except Exc (Data T J)) :
    PlainVault T B J :=
  match x with
  | ((_, .vaultInit passphrase _), .ok _) =>
    { v with master := some passphrase, unlocked := false }
  | ((_, .vaultUnlock _), .ok _) => { v with unlocked := true }
  | ((_, .vaultLock), .ok _) => { v with unlocked := false }
  | ((_, .restart), .ok _) => { v with unlocked := false }
  | x => { v with secrets := v.secrets.hear canon x, keys := v.keys.hear x }

variable (v : PlainVault T B J)

def init (P : Prims T B J) (passphrase confirmation : T) : Except Exc Unit := do
  if v.master.isSome then
    throw (appError .vaultAlreadyInitialized "Vault is already initialized" 409)
  if passphrase ≠ confirmation then
    throw (appError .validationError "Passphrases do not match" 400)
  P.validatePassphrase passphrase

def unlock (passphrase : T) : Except Exc Unit :=
  match v.master with
  | none => .error (appError .vaultNotInitialized "Vault is not initialized" 400)
  | some master =>
    if passphrase = master then .ok ()
    else .error (appError .invalidMasterPassphrase "Invalid master passphrase" 401)

/-- What is answered to a call. -/
def answer (e : Env P) : Call T J → Except Exc (Data T J)
  | .vaultInit p q => (v.init P p q).map fun _ => .vaultStatus true false
  | .vaultUnlock p => (v.unlock p).map fun _ => .vaultStatus true true
  | .vaultLock => .ok (.vaultStatus true false)
  | .vaultStatus => .ok (.vaultStatus v.master.isSome v.unlocked)
  | .restart => .ok .restarted
  | .kvWrite path email data => (v.secrets.write v.unlocked path email e data).map .kvWritten
  | .kvRead path email version => (v.secrets.read P v.unlocked path email version).map .kvValue
  | .kvVersions path email =>
    (v.secrets.find P v.unlocked path email).map fun s => .kvVersions (s.versions P)
  | .kvDelete path email => (v.secrets.find P v.unlocked path email).map fun _ => .deleted
  | .kvList email => (v.secrets.list P v.unlocked email).map .kvListed
  | .createAes email name => (v.keys.create v.unlocked email name e .encryptDecrypt).map .key
  | .createSigning email name => (v.keys.create v.unlocked email name e .signVerify).map .key
  | .keyList email => (v.keys.list P v.unlocked email).map .keys
  | .keyGet email name =>
    (v.keys.find v.unlocked email name none).map fun k => .key (k.metadata P false)
  | .revoke email name => (v.keys.find v.unlocked email name none).map fun _ => .revoked
  | .rotate email name => (v.keys.rotate v.unlocked email name e).map .key
  | .encrypt email name plaintextB64 =>
    (v.keys.encrypt v.unlocked email name e plaintextB64).map .ciphertext
  | .decrypt email ciphertext => (v.keys.decrypt P v.unlocked email ciphertext).map .plaintext
  | .sign email name messageB64 messageType =>
    (v.keys.sign P v.unlocked email name messageB64 messageType).map .signed
  | .verify email name messageB64 messageType signatureB64 signingAlgorithm =>
    (v.keys.verify P v.unlocked email name messageB64 messageType signatureB64
      signingAlgorithm).map .verified

/-- One call: what is answered, and the vault after it. -/
def call (canon : J → J) (v : PlainVault T B J) (i : Env P × Call T J) :
    Except Exc (Data T J) × PlainVault T B J :=
  (v.answer i.1 i.2, v.hear canon (i, v.answer i.1 i.2))

end PlainVault

end MiniVault
