/-
  One specification for each operation that changes state: either it raises and leaves the
  session as it was, or its preconditions hold and the result is written out.
-/
import MiniVault.Model.Service

namespace MiniVault

open Kit Imp

variable {T B J : Type} {P : Prims T B J}

/-! ## What the operations write -/

/-- A sealing recorded. -/
def Proc.sealing (s : Proc T B) (x : Sealing B) : Proc T B :=
  { s with sealings := s.sealings ++ [x] }

/-- The database changed and committed. -/
def Proc.commitTo (s : Proc T B) (db : Database T) : Proc T B :=
  { s with db := db, committed := db }

/-- The row `init` writes. -/
def newConfig (P : Prims T B J) (e : Env P) (passphrase : T) : VaultConfig T where
  kdfSaltB64 := P.b64encode e.salt
  kdfParametersJson := P.defaultParams
  encryptedDekB64 := P.b64encode
    (P.aesgcm.encrypt (P.deriveKey passphrase e.salt P.defaultParams) e.nonce e.dek (dekAad P))
  dekNonceB64 := P.b64encode e.nonce

/-- The encryption of a secret. -/
def kvSealing (P : Prims T B J) (e : Env P) (path : T) (dek raw : B) : Sealing B :=
  ⟨dek, e.nonce, raw, P.encode path⟩

/-- The ciphertext text that an encryption leaves. -/
def cipherText (P : Prims T B J) (x : Sealing B) : T :=
  P.b64encode (P.aesgcm.encrypt x.key x.nonce x.data x.aad)

def newSecret (P : Prims T B J) (e : Env P) (id : Nat) (path email : T) (dek raw : B) :
    KVSecret T where
  id := id
  path := path
  ownerEmail := email
  nonceB64 := P.b64encode e.nonce
  ciphertextB64 := cipherText P (kvSealing P e path dek raw)
  createdAt := e.now
  updatedAt := e.now

def newSecretVersion (P : Prims T B J) (e : Env P) (id version : Nat) (path : T) (dek raw : B) :
    KVSecretVersion T where
  kvSecretId := id
  version := version
  nonceB64 := P.b64encode e.nonce
  ciphertextB64 := cipherText P (kvSealing P e path dek raw)
  createdAt := e.now

/-- The tables after the first write to a path. -/
def Database.kvCreate (P : Prims T B J) (e : Env P) (path email : T) (dek raw : B)
    (db : Database T) : Database T :=
  let id := e.rowid (db.kvSecrets.map (·.id))
  (db.addKvSecret (newSecret P e id path email dek raw)).addKvVersion
    (newSecretVersion P e id 1 path dek raw)

/-- The version number of the next write to an item. -/
def Database.nextKvVersion (db : Database T) (id : Nat) : Nat :=
  ((db.currentKvVersion id).map (·.version)).getD 1 + 1

/-- The tables after a further write to an item. -/
def Database.kvUpdate (P : Prims T B J) (e : Env P) (item : KVSecret T) (path : T) (dek raw : B)
    (db : Database T) : Database T :=
  (db.setKvCiphertext item.id (P.b64encode e.nonce)
      (cipherText P (kvSealing P e path dek raw)) e.now).addKvVersion
    (newSecretVersion P e item.id (db.nextKvVersion item.id) path dek raw)

/-- The encryption of the key material of a version. -/
def keySealing (P : Prims T B J) (e : Env P) (email name : T) (version : Nat) (dek : B) :
    Sealing B :=
  ⟨dek, e.nonce, e.key, P.encode (keyAad P email name version)⟩

def newKey (P : Prims T B J) (e : Env P) (id : Nat) (email name : T) (usage : KeyUsage) (dek : B) :
    TransitKey T where
  id := id
  keyName := name
  ownerEmail := email
  keyUsage := usage
  algorithm := match usage with
    | .encryptDecrypt => P.lit "AES-256-GCM"
    | .signVerify => P.lit "ED25519"
  encryptedKeyMaterialB64 := cipherText P (keySealing P e email name 1 dek)
  keyNonceB64 := P.b64encode e.nonce
  publicKeyB64 := match usage with
    | .encryptDecrypt => none
    | .signVerify => some (P.b64encode (P.publicKey e.key))
  revokedAt := none
  createdAt := e.now

def newKeyVersion (P : Prims T B J) (e : Env P) (id version : Nat) (email name : T) (dek : B) :
    TransitKeyVersion T where
  transitKeyId := id
  version := version
  encryptedKeyMaterialB64 := cipherText P (keySealing P e email name version dek)
  keyNonceB64 := P.b64encode e.nonce

/-- The tables after a key is created. -/
def Database.keyCreate (P : Prims T B J) (e : Env P) (email name : T) (usage : KeyUsage) (dek : B)
    (db : Database T) : Database T :=
  let id := e.rowid (db.transitKeys.map (·.id))
  let db := db.addKey (newKey P e id email name usage dek)
  match usage with
  | .encryptDecrypt => db.addKeyVersion (newKeyVersion P e id 1 email name dek)
  | .signVerify => db

/-- The tables after a key is rotated to a version. -/
def Database.keyRotate (P : Prims T B J) (e : Env P) (key : TransitKey T) (email name : T)
    (dek : B) (db : Database T) : Database T :=
  let version := db.currentKeyNumber key.id + 1
  (db.updateKey key.id fun k =>
    { k with
      encryptedKeyMaterialB64 := cipherText P (keySealing P e email name version dek)
      keyNonceB64 := P.b64encode e.nonce }).addKeyVersion
    (newKeyVersion P e key.id version email name dek)

def Database.keyRevoke (id : Nat) (now : Time) (db : Database T) : Database T :=
  db.updateKey id fun k => { k with revokedAt := some now }

/-! ## Vault -/

theorem unlock_cases (p : T) (e : Env P) (s : Proc T B) :
    (∃ x, VaultService.unlock p e s = (.error x, s)) ∨
      ∃ config dek, s.db.vaultConfig.head? = some config ∧
        VaultService.unwrapDek P config p = .ok dek ∧
        VaultService.unlock p e s = (.ok (), { s with dek := some dek }) := by
  unfold VaultService.unlock
  rcases hc : s.db.vaultConfig.head? with _ | config
  · left; simp [hc]
  rcases hu : VaultService.unwrapDek P config p with x | dek
  · left
    by_cases hx : x = .invalidTag ∨ x.isValueError = true
    · simp [hc, hu, hx]
    · simp [hc, hu, hx]
  · right
    exact ⟨config, dek, rfl, hu, by simp [hc, hu, unlockState]⟩

variable [DecidableEq T]

theorem init_cases (p c : T) (e : Env P) (s : Proc T B) :
    (∃ x, VaultService.init p c e s = (.error x, s)) ∨
      (s.db.vaultConfig = [] ∧ p = c ∧
        aesKeyOk P (P.deriveKey p e.salt P.defaultParams) = true ∧
        VaultService.init p c e s = (.ok (),
          { (s.commitTo { s.db with vaultConfig := [newConfig P e p] }).sealing
              ⟨P.deriveKey p e.salt P.defaultParams, e.nonce, e.dek, dekAad P⟩ with
            dek := none })) := by
  unfold VaultService.init
  rcases hc : s.db.vaultConfig with _ | ⟨config, configs⟩
  swap
  · left; simp [hc]
  by_cases hp : p = c
  swap
  · left; simp [hc, hp]
  subst hp
  rcases hv : P.validatePassphrase p with x | _
  · left; simp [hc]
  rcases hk : aesKeyOk P (P.deriveKey p e.salt P.defaultParams) with _ | _
  · left; simp [hc, encrypt_of_not_key hk]
  · right
    refine ⟨rfl, rfl, rfl, ?_⟩
    simp [hc, encrypt_of_key hk, lockState, Proc.commitTo, Proc.sealing, newConfig]

/-! ## KV -/

/-- What `write` checks before it touches the tables. -/
structure WriteReady (P : Prims T B J) (s : Proc T B) (path email : T) (data : J) (dek raw : B) :
    Prop where
  valid : P.validatePath path email = .ok ()
  unlocked : s.dek = some dek
  dumped : P.dumps data = .ok raw
  size : P.len raw ≤ 1048576
  keyOk : aesKeyOk P dek = true

section Write

variable {path email : T} {data : J} {dek raw : B} {s : Proc T B}

theorem write_create (h : WriteReady P s path email data dek raw) (e : Env P)
    (hf : s.db.findPath path = none) :
    KVService.write path email data e s =
      (.ok ⟨path, 1, P.isoformat true e.now, P.isoformat true e.now⟩,
        (s.commitTo (s.db.kvCreate P e path email dek raw)).sealing
          (kvSealing P e path dek raw)) := by
  have hsize : ¬ 1048576 < P.len raw := Nat.not_lt.2 h.size
  simp [KVService.write, h.valid, requireDek_of_some h.unlocked, h.dumped, hsize,
    encrypt_of_key h.keyOk, hf, Proc.commitTo, Proc.sealing, Database.kvCreate, newSecret,
    newSecretVersion, cipherText, kvSealing]

theorem write_update (h : WriteReady P s path email data dek raw) (e : Env P) {item : KVSecret T}
    (hf : s.db.findPath path = some item) (hv : s.db.nextKvVersion item.id < 2 ^ 63) :
    KVService.write path email data e s =
      (.ok ⟨item.path, s.db.nextKvVersion item.id, P.isoformat false item.createdAt,
          P.isoformat true e.now⟩,
        (s.commitTo (s.db.kvUpdate P e item path dek raw)).sealing
          (kvSealing P e path dek raw)) := by
  have hsize : ¬ 1048576 < P.len raw := Nat.not_lt.2 h.size
  have hb : bindInteger (s.db.nextKvVersion item.id) = .ok () := if_neg (Nat.not_le.2 hv)
  simp only [Database.nextKvVersion] at hb
  simp [KVService.write, h.valid, requireDek_of_some h.unlocked, h.dumped, hsize,
    encrypt_of_key h.keyOk, hf, hb, Proc.commitTo, Proc.sealing, Database.kvUpdate,
    Database.nextKvVersion, newSecretVersion, cipherText, kvSealing]

theorem write_overflow (h : WriteReady P s path email data dek raw) (e : Env P) {item : KVSecret T}
    (hf : s.db.findPath path = some item) (hv : ¬ s.db.nextKvVersion item.id < 2 ^ 63) :
    ∃ db, KVService.write path email data e s =
      (.error .overflowError, { s.sealing (kvSealing P e path dek raw) with db := db }) := by
  have hsize : ¬ 1048576 < P.len raw := Nat.not_lt.2 h.size
  have hb : bindInteger (s.db.nextKvVersion item.id) = .error .overflowError :=
    if_pos (Nat.not_lt.1 hv)
  simp only [Database.nextKvVersion] at hb
  exact ⟨_, by simp [KVService.write, h.valid, requireDek_of_some h.unlocked, h.dumped, hsize,
    encrypt_of_key h.keyOk, hf, hb, Proc.sealing, kvSealing]; rfl⟩

end Write

theorem write_cases (path email : T) (data : J) (e : Env P) (s : Proc T B) :
    (∃ x, KVService.write path email data e s = (.error x, s)) ∨
      ∃ dek raw, WriteReady P s path email data dek raw := by
  rcases hp : P.validatePath path email with x | _
  · left; simp [KVService.write, hp]
  rcases hd : s.dek with _ | dek
  · left; simp [KVService.write, hp, requireDek_of_none hd]
  rcases hj : P.dumps data with x | raw
  · left; simp [KVService.write, hp, requireDek_of_some hd, hj]
  by_cases hs : 1048576 < P.len raw
  · left; simp [KVService.write, hp, requireDek_of_some hd, hj, hs]
  rcases hk : aesKeyOk P dek with _ | _
  · left; simp [KVService.write, hp, requireDek_of_some hd, hj, hs, encrypt_of_not_key hk]
  · exact .inr ⟨dek, raw, hp, hd, hj, Nat.not_lt.1 hs, hk⟩

theorem delete_cases (path email : T) (e : Env P) (s : Proc T B) :
    (∃ x, KVService.delete path email e s = (.error x, s)) ∨
      ∃ dek item, P.validatePath path email = .ok () ∧ s.dek = some dek ∧
        s.db.findOwned path email = some item ∧
        KVService.delete path email e s = (.ok (), s.commitTo (s.db.deleteKvSecret item.id)) := by
  unfold KVService.delete
  rcases hp : P.validatePath path email with x | _
  · left; simp
  rcases hd : s.dek with _ | dek
  · left; simp [requireDek_of_none hd]
  rcases hf : s.db.findOwned path email with _ | item
  · left; simp [requireDek_of_some hd, hf]
  · right
    exact ⟨dek, item, rfl, rfl, rfl, by simp [requireDek_of_some hd, hf, Proc.commitTo]⟩

/-! ## Transit -/

/-- What `_find` checks. -/
structure FindReady (s : Proc T B) (email name : T) (usage : Option KeyUsage)
    (key : TransitKey T) : Prop where
  unlocked : ∃ dek, s.dek = some dek
  found : s.db.findKey email name = some key
  live : key.revokedAt = none
  usageOk : ∀ u, usage = some u → key.keyUsage = u

section Find

variable {email name : T} {usage : Option KeyUsage} {s : Proc T B} {key : TransitKey T}

theorem find_of_ready (h : FindReady s email name usage key) (e : Env P) :
    TransitService.find email name usage e s = (.ok key, s) := by
  obtain ⟨dek, hd⟩ := h.unlocked
  have hu : usage.any (· ≠ key.keyUsage) = false := by
    rcases usage with _ | u
    · rfl
    · simp [h.usageOk u rfl]
  unfold TransitService.find
  simp only [bind_apply, requireDek_of_some hd, query_apply, h.found, h.live, Option.isSome_none,
    hu]
  rfl

end Find

theorem find_cases (email name : T) (usage : Option KeyUsage) (e : Env P) (s : Proc T B) :
    (∃ x, TransitService.find email name usage e s = (.error x, s)) ∨
      ∃ key, FindReady s email name usage key := by
  unfold TransitService.find
  rcases hd : s.dek with _ | dek
  · left; simp [requireDek_of_none hd]
  rcases hf : s.db.findKey email name with _ | key
  · left; simp [requireDek_of_some hd, hf]
  rcases hr : key.revokedAt with _ | t
  swap
  · left; simp [requireDek_of_some hd, hf, hr]
  rcases usage with _ | u
  · exact .inr ⟨key, ⟨dek, hd⟩, hf, hr, by simp⟩
  by_cases hu : key.keyUsage = u
  · exact .inr ⟨key, ⟨dek, hd⟩, hf, hr, by rintro _ ⟨⟩; exact hu⟩
  · left
    simp [requireDek_of_some hd, hf, hr, Ne.symm hu]

/-- What the two ways of creating a key check. -/
structure CreateReady (P : Prims T B J) (s : Proc T B) (email name : T) (dek : B) : Prop where
  valid : P.validateKeyName name = .ok ()
  unlocked : s.dek = some dek
  absent : s.db.findKey email name = none
  keyOk : aesKeyOk P dek = true

section Create

variable {email name : T} {s : Proc T B} {dek : B}

theorem createAes_of_ready (h : CreateReady P s email name dek) (e : Env P) :
    TransitService.createAes email name e s =
      (.ok (TransitService.metadata P true
          (newKey P e (e.rowid (s.db.transitKeys.map (·.id))) email name .encryptDecrypt dek) 1),
        (s.commitTo (s.db.keyCreate P e email name .encryptDecrypt dek)).sealing
          (keySealing P e email name 1 dek)) := by
  simp [TransitService.createAes, h.valid, requireDek_of_some h.unlocked, h.absent,
    encrypt_of_key h.keyOk, Proc.commitTo, Proc.sealing, Database.keyCreate, newKey,
    newKeyVersion, cipherText, keySealing]

theorem createSigning_of_ready (h : CreateReady P s email name dek) (e : Env P) :
    TransitService.createSigning email name e s =
      (.ok (TransitService.metadata P true
          (newKey P e (e.rowid (s.db.transitKeys.map (·.id))) email name .signVerify dek) 1),
        (s.commitTo (s.db.keyCreate P e email name .signVerify dek)).sealing
          (keySealing P e email name 1 dek)) := by
  simp [TransitService.createSigning, h.valid, requireDek_of_some h.unlocked, h.absent,
    encrypt_of_key h.keyOk, Proc.commitTo, Proc.sealing, Database.keyCreate, newKey,
    cipherText, keySealing]

end Create

theorem create_cases (email name : T) (e : Env P) (s : Proc T B) :
    ((∃ x, TransitService.createAes email name e s = (.error x, s)) ∧
        ∃ x, TransitService.createSigning email name e s = (.error x, s)) ∨
      ∃ dek, CreateReady P s email name dek := by
  unfold TransitService.createAes TransitService.createSigning
  rcases hn : P.validateKeyName name with x | _
  · left; simp
  rcases hd : s.dek with _ | dek
  · left; simp [requireDek_of_none hd]
  rcases hf : s.db.findKey email name with _ | key
  swap
  · left; simp [requireDek_of_some hd, hf]
  rcases hk : aesKeyOk P dek with _ | _
  · left; simp [requireDek_of_some hd, hf, encrypt_of_not_key hk]
  · exact .inr ⟨dek, hn, hd, hf, hk⟩

theorem revoke_cases (email name : T) (e : Env P) (s : Proc T B) :
    (∃ x, TransitService.revoke email name e s = (.error x, s)) ∨
      ∃ key, FindReady s email name none key ∧
        TransitService.revoke email name e s =
          (.ok (), s.commitTo (s.db.keyRevoke key.id e.now)) := by
  unfold TransitService.revoke
  rcases find_cases email name none e s with ⟨x, hx⟩ | ⟨key, h⟩
  · left; simp [hx]
  · right
    exact ⟨key, h, by simp [find_of_ready h e, Proc.commitTo, Database.keyRevoke]⟩

section Rotate

variable {email name : T} {s : Proc T B} {key : TransitKey T} {dek : B}

theorem rotate_of_ready (h : FindReady s email name (some .encryptDecrypt) key)
    (hd : s.dek = some dek) (hk : aesKeyOk P dek = true) (e : Env P)
    (hv : s.db.currentKeyNumber key.id + 1 < 2 ^ 63) :
    TransitService.rotate email name e s =
      (.ok (TransitService.metadata P false key
          ((s.db.keyRotate P e key email name dek).currentKeyNumber key.id)),
        (s.commitTo (s.db.keyRotate P e key email name dek)).sealing
          (keySealing P e email name (s.db.currentKeyNumber key.id + 1) dek)) := by
  have hb : bindInteger (s.db.currentKeyNumber key.id + 1) = .ok () := if_neg (Nat.not_le.2 hv)
  simp [TransitService.rotate, find_of_ready h e, requireDek_of_some hd, encrypt_of_key hk, hb,
    Proc.commitTo, Proc.sealing, Database.keyRotate, newKeyVersion, cipherText, keySealing]

theorem rotate_overflow (h : FindReady s email name (some .encryptDecrypt) key)
    (hd : s.dek = some dek) (hk : aesKeyOk P dek = true) (e : Env P)
    (hv : ¬ s.db.currentKeyNumber key.id + 1 < 2 ^ 63) :
    ∃ db, TransitService.rotate email name e s =
      (.error .overflowError,
        { s.sealing (keySealing P e email name (s.db.currentKeyNumber key.id + 1) dek) with
          db := db }) := by
  have hb : bindInteger (s.db.currentKeyNumber key.id + 1) = .error .overflowError :=
    if_pos (Nat.not_lt.1 hv)
  exact ⟨_, by simp [TransitService.rotate, find_of_ready h e, requireDek_of_some hd,
    encrypt_of_key hk, hb, Proc.sealing, keySealing]; rfl⟩

end Rotate

theorem rotate_cases (email name : T) (e : Env P) (s : Proc T B) :
    (∃ x, TransitService.rotate email name e s = (.error x, s)) ∨
      ∃ key dek, FindReady s email name (some .encryptDecrypt) key ∧ s.dek = some dek ∧
        aesKeyOk P dek = true := by
  unfold TransitService.rotate
  rcases find_cases email name (some .encryptDecrypt) e s with ⟨x, hx⟩ | ⟨key, h⟩
  · left; simp [hx]
  obtain ⟨dek, hd⟩ := h.unlocked
  rcases hk : aesKeyOk P dek with _ | _
  · left; simp [find_of_ready h e, requireDek_of_some hd, encrypt_of_not_key hk]
  · exact .inr ⟨key, dek, h, hd, hk⟩

end MiniVault
