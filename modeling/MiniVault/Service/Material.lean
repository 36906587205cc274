/-
  Specifications of `_material` and of the operations that encrypt and decrypt under it.
-/
import MiniVault.Service.Spec

namespace MiniVault

open Kit Imp

variable {T B J : Type} {P : Prims T B J}

/-! ## Key material -/

/-- The decryption of a version row, or of the key row where there is none. -/
def openRecord (P : Prims T B J) (dek : B) (key : TransitKey T)
    (record : Option (TransitKeyVersion T)) (version : Nat) : Except Exc B :=
  TransitService.openMaterial P dek ((record.map (·.keyNonceB64)).getD key.keyNonceB64)
    ((record.map (·.encryptedKeyMaterialB64)).getD key.encryptedKeyMaterialB64)
    (keyAad P key.ownerEmail key.keyName version)

/-- `except InvalidTag` of `_material`. -/
def hideTag : Except Exc B → Except Exc B
  | .error .invalidTag =>
    .error (appError .decryptionFailed "Key material could not be decrypted" 400)
  | r => r

theorem hideTag_eq_ok {r : Except Exc B} {m : B} : hideTag r = .ok m ↔ r = .ok m := by
  unfold hideTag
  split <;> simp

/-- The `try` block of `_material` and its handler. -/
theorem handle_openRecord (dek : B) (key : TransitKey T) (record : Option (TransitKeyVersion T))
    (version : Nat) (e : Env P) (s : Proc T B) :
    handle (ofExcept (openRecord P dek key record version)) (fun x =>
      if x = .invalidTag then
        raise (appError .decryptionFailed "Key material could not be decrypted" 400)
      else raise x) e s = (hideTag (openRecord P dek key record version), s) := by
  rcases openRecord P dek key record version with x | m
  · cases x <;> simp [hideTag]
  · simp [hideTag]

/-- The version row `_material` reads, if there is one. -/
def Database.recordAsked (db : Database T) (key : TransitKey T) :
    Option Nat → Option (TransitKeyVersion T)
  | some k => db.keyVersion key.id k
  | none =>
    match key.keyUsage with
    | .encryptDecrypt => db.currentKeyVersion key.id
    | .signVerify => none

/-- The version whose associated data `_material` uses. -/
def Database.versionAsked (db : Database T) (key : TransitKey T) : Option Nat → Nat
  | some k => k
  | none =>
    match key.keyUsage with
    | .encryptDecrypt => db.currentKeyNumber key.id
    | .signVerify => 1

/-- What `_material` returns or raises, for an unlocked vault. -/
def Database.material (P : Prims T B J) (db : Database T) (dek : B) (key : TransitKey T)
    (version : Option Nat) : Except Exc B :=
  let m := hideTag (openRecord P dek key (db.recordAsked key version) (db.versionAsked key version))
  match version with
  | some k =>
    if 2 ^ 63 ≤ k then .error .overflowError
    else if db.keyVersion key.id k = none ∧ k ≠ 1 then
      .error (appError .keyVersionNotFound "Key version not found" 404)
    else m
  | none => m

theorem material_apply {s : Proc T B} {dek : B} (hd : s.dek = some dek) (key : TransitKey T)
    (version : Option Nat) (e : Env P) :
    TransitService.material key version e s = (s.db.material P dek key version, s) := by
  have hm := fun record n => handle_openRecord dek key record n e s
  unfold openRecord at hm
  unfold TransitService.material Database.material
  rcases version with _ | k
  · rcases hu : key.keyUsage with _ | _
    · simp only [bind_apply, query_apply, pure_apply, requireDek_of_some hd, hm,
        Database.recordAsked, Database.versionAsked, hu, openRecord, Database.currentKeyNumber]
    · simp only [bind_apply, pure_apply, requireDek_of_some hd, hm, Database.recordAsked,
        Database.versionAsked, hu, openRecord]
  · by_cases hk : 2 ^ 63 ≤ k
    · have hb : bindInteger k = .error .overflowError := if_pos hk
      simp only [bind_apply, ofExcept_apply, hb, if_pos hk]
    · have hb : bindInteger k = .ok () := if_neg hk
      by_cases hn : s.db.keyVersion key.id k = none ∧ k ≠ 1
      · have hn' : (s.db.keyVersion key.id k).isNone = true ∧ k ≠ 1 := ⟨by rw [hn.1]; rfl, hn.2⟩
        simp only [bind_apply, ofExcept_apply, hb, if_neg hk, query_apply, ite_run, if_pos hn,
          if_pos hn', raise_apply]
      · have hn' : ¬ ((s.db.keyVersion key.id k).isNone = true ∧ k ≠ 1) := by
          rwa [Option.isNone_iff_eq_none]
        simp only [bind_apply, ofExcept_apply, hb, if_neg hk, query_apply, ite_run, if_neg hn,
          if_neg hn', pure_apply, requireDek_of_some hd, hm, Database.recordAsked,
          Database.versionAsked, openRecord]

theorem material_eq_ok {db : Database T} {dek m : B} {key : TransitKey T} {version : Option Nat} :
    db.material P dek key version = .ok m ↔
      (∀ k, version = some k → k < 2 ^ 63 ∧ (db.keyVersion key.id k = none → k = 1)) ∧
        openRecord P dek key (db.recordAsked key version) (db.versionAsked key version) =
          .ok m := by
  unfold Database.material
  rcases version with _ | k
  · simp [hideTag_eq_ok]
  · by_cases hk : 2 ^ 63 ≤ k
    · simp only [if_pos hk, reduceCtorEq, false_iff]
      exact fun h => Nat.not_lt.2 hk (h.1 k rfl).1
    · by_cases hn : db.keyVersion key.id k = none ∧ k ≠ 1
      · simp only [if_neg hk, if_pos hn, reduceCtorEq, false_iff]
        exact fun h => hn.2 ((h.1 k rfl).2 hn.1)
      · simp only [if_neg hk, if_neg hn, hideTag_eq_ok]
        constructor
        · intro h
          refine ⟨?_, h⟩
          rintro _ ⟨⟩
          exact ⟨Nat.not_le.1 hk, fun hnone => by_contra fun hne => hn ⟨hnone, hne⟩⟩
        · exact fun h => h.2

variable [DecidableEq T]

/-! ## encrypt -/

/-- An `encrypt` call that goes through, with the values it computes on the way. -/
structure EncryptReady (P : Prims T B J) (s : Proc T B) (email name plaintextB64 : T) where
  key : TransitKey T
  raw : B
  dek : B
  material : B
  ready : FindReady s email name (some .encryptDecrypt) key
  decoded : P.b64decode plaintextB64 = some raw
  size : P.len raw ≤ 1048576
  unlocked : s.dek = some dek
  opened : s.db.material P dek key (some (s.db.currentKeyNumber key.id)) = .ok material
  keyOk : aesKeyOk P material = true

/-- The encryption under the current version. -/
def EncryptReady.sealing {s : Proc T B} {email name plaintextB64 : T}
    (h : EncryptReady P s email name plaintextB64) (e : Env P) : Sealing B :=
  ⟨h.material, e.nonce, h.raw, P.encode (transitAad P email name (s.db.currentKeyNumber h.key.id))⟩

theorem transitEncrypt_of_ready {s : Proc T B} {email name plaintextB64 : T}
    (h : EncryptReady P s email name plaintextB64) (e : Env P) :
    TransitService.encrypt email name plaintextB64 e s =
      (.ok (envelope P (s.db.currentKeyNumber h.key.id) name
          (P.append e.nonce
            (P.aesgcm.encrypt h.material e.nonce h.raw (h.sealing e).aad))),
        s.sealing (h.sealing e)) := by
  have hraw : b64d P plaintextB64 = .ok h.raw := by rw [b64d, h.decoded]
  have hsize : ¬ 1048576 < P.len h.raw := Nat.not_lt.2 h.size
  simp [TransitService.encrypt, find_of_ready h.ready e, hraw, hsize, material_apply h.unlocked,
    h.opened, encrypt_of_key h.keyOk, Proc.sealing, EncryptReady.sealing]

theorem transitEncrypt_cases (email name plaintextB64 : T) (e : Env P) (s : Proc T B) :
    (∃ x, TransitService.encrypt email name plaintextB64 e s = (.error x, s)) ∨
      Nonempty (EncryptReady P s email name plaintextB64) := by
  unfold TransitService.encrypt
  rcases find_cases email name (some .encryptDecrypt) e s with ⟨x, hx⟩ | ⟨key, h⟩
  · left; simp [hx]
  rcases hd : P.b64decode plaintextB64 with _ | raw
  · left; simp [find_of_ready h e, b64d, hd]
  by_cases hs : 1048576 < P.len raw
  · left; simp [find_of_ready h e, b64d, hd, hs]
  obtain ⟨dek, hdek⟩ := h.unlocked
  rcases hm : s.db.material P dek key (some (s.db.currentKeyNumber key.id)) with x | m
  · left; simp [find_of_ready h e, b64d, hd, hs, material_apply hdek, hm]
  rcases hk : aesKeyOk P m with _ | _
  · left
    simp [find_of_ready h e, b64d, hd, hs, material_apply hdek, hm, encrypt_of_not_key hk]
  · exact .inr ⟨⟨key, raw, dek, m, h, hd, Nat.not_lt.1 hs, hdek, hm, hk⟩⟩

/-! ## decrypt -/

/-- A `decrypt` call that goes through, with the values it computes on the way. -/
structure DecryptReady (P : Prims T B J) (s : Proc T B) (email ciphertext : T) where
  version : Nat
  name : T
  blobB64 : T
  blob : B
  key : TransitKey T
  dek : B
  material : B
  raw : B
  parsed : P.readEnvelope ciphertext = .ok (version, name, blobB64)
  decoded : P.b64decode blobB64 = some blob
  size : 28 ≤ P.len blob
  ready : FindReady s email name (some .encryptDecrypt) key
  unlocked : s.dek = some dek
  opened : s.db.material P dek key (some version) = .ok material
  plain : decrypt P material (P.take 12 blob) (P.drop 12 blob)
    (P.encode (transitAad P email name version)) = .ok raw

theorem transitDecrypt_of_ready {s : Proc T B} {email ciphertext : T}
    (h : DecryptReady P s email ciphertext) (e : Env P) :
    TransitService.decrypt email ciphertext e s = (.ok (P.b64encode h.raw), s) := by
  have hblob : b64d P h.blobB64 .invalidCiphertext = .ok h.blob := by rw [b64d, h.decoded]
  have hsize : ¬ P.len h.blob < 28 := Nat.not_lt.2 h.size
  simp [TransitService.decrypt, h.parsed, hblob, hsize, find_of_ready h.ready e,
    material_apply h.unlocked, h.opened, h.plain]

theorem transitDecrypt_cases (email ciphertext : T) (e : Env P) (s : Proc T B) :
    (∃ x, TransitService.decrypt email ciphertext e s = (.error x, s)) ∨
      Nonempty (DecryptReady P s email ciphertext) := by
  unfold TransitService.decrypt
  rcases hp : P.readEnvelope ciphertext with x | ⟨version, name, blobB64⟩
  · left; simp
  rcases hb : P.b64decode blobB64 with _ | blob
  · left; simp [b64d, hb]
  by_cases hs : P.len blob < 28
  · left; simp [b64d, hb, hs]
  rcases find_cases email name (some .encryptDecrypt) e s with ⟨x, hx⟩ | ⟨key, h⟩
  · left; simp [b64d, hb, hs, hx]
  obtain ⟨dek, hdek⟩ := h.unlocked
  rcases hm : s.db.material P dek key (some version) with x | m
  · left
    by_cases hx : x = .invalidTag <;>
      simp [b64d, hb, hs, find_of_ready h e, material_apply hdek, hm, hx]
  rcases hr : decrypt P m (P.take 12 blob) (P.drop 12 blob)
      (P.encode (transitAad P email name version)) with x | raw
  · left
    by_cases hx : x = .invalidTag <;>
      simp [b64d, hb, hs, find_of_ready h e, material_apply hdek, hm, hr, hx]
  · exact .inr ⟨⟨version, name, blobB64, blob, key, dek, m, raw, hp, hb, Nat.not_lt.1 hs, h, hdek,
      hm, hr⟩⟩

end MiniVault
