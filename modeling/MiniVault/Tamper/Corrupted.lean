/-
  Corrupted ciphertext columns. `read` and `verify` catch whatever the library raises on a stored
  text; `_material` catches the wrong tag alone, so that a nonce of a length that AES-GCM does not
  take ends `encrypt`, `decrypt` and `sign` with a `ValueError`.
-/
import MiniVault.Service.Exceptions
import MiniVault.Tamper.Kv
import MiniVault.Transit.Envelope

namespace MiniVault

open Kit Imp

variable {T B J : Type} {P : Prims T B J}

/-! ## The corruption -/

/-- `db'` is `db` with other texts in the columns that hold ciphertexts, nonces and public keys. -/
structure Database.Corrupted (db db' : Database T) : Prop where
  secrets : List.Forall₂ (fun r r' => ∃ n c, r' = { r with nonceB64 := n, ciphertextB64 := c })
    db.kvSecrets db'.kvSecrets
  secretVersions : List.Forall₂
    (fun v v' => ∃ n c, v' = { v with nonceB64 := n, ciphertextB64 := c })
    db.kvSecretVersions db'.kvSecretVersions
  keys : List.Forall₂
    (fun k k' => ∃ m n p, k' =
      { k with encryptedKeyMaterialB64 := m, keyNonceB64 := n, publicKeyB64 := p })
    db.transitKeys db'.transitKeys
  keyVersions : List.Forall₂
    (fun v v' => ∃ m n, v' = { v with encryptedKeyMaterialB64 := m, keyNonceB64 := n })
    db.transitKeyVersions db'.transitKeyVersions
  rest : db' = { db with
    kvSecrets := db'.kvSecrets, kvSecretVersions := db'.kvSecretVersions
    transitKeys := db'.transitKeys, transitKeyVersions := db'.transitKeyVersions }

theorem corrupted_overwriteKeys (db : Database T) (f : TransitKey T → T × T)
    (g : TransitKeyVersion T → T × T) : db.Corrupted (db.overwriteKeys f g) where
  secrets := List.forall₂_same.2 fun r _ => ⟨r.nonceB64, r.ciphertextB64, rfl⟩
  secretVersions := List.forall₂_same.2 fun v _ => ⟨v.nonceB64, v.ciphertextB64, rfl⟩
  keys := List.forall₂_map_right_iff.2 (List.forall₂_same.2 fun k _ =>
    ⟨_, _, k.publicKeyB64, rfl⟩)
  keyVersions := List.forall₂_map_right_iff.2 (List.forall₂_same.2 fun _ _ => ⟨_, _, rfl⟩)
  rest := rfl

/-- Corruption leaves the numbers of the key versions alone. -/
theorem Database.Corrupted.version_lt {db db' : Database T} (h : db.Corrupted db')
    (hv : ∀ v ∈ db.transitKeyVersions, v.version < 2 ^ 63) :
    ∀ v ∈ db'.transitKeyVersions, v.version < 2 ^ 63 := by
  intro v hmem
  obtain ⟨v₀, hv₀, m, n, rfl⟩ := Table.exists_of_forall₂ h.keyVersions hmem
  exact hv v₀ hv₀

/-! ## Key material -/

/-- A nonce text and a ciphertext text that both decode, to a nonce that AES-GCM does not take or
    to what opens to no key. -/
def Unusable (P : Prims T B J) (d : B) (isKey : B → Bool) (texts : T × T) (aad : T) : Prop :=
  ∃ nonce ciphertext, P.b64decode texts.1 = some nonce ∧ P.b64decode texts.2 = some ciphertext ∧
    ((P.len nonce < 8 ∨ 128 < P.len nonce) ∨
      (8 ≤ P.len nonce ∧ P.len nonce ≤ 128) ∧
        ∃ m, P.aesgcm.decrypt d nonce ciphertext (P.encode aad) = some m ∧ isKey m = false)

/-- What `_material` reads for the version is unusable. -/
def Database.UnusableKey (P : Prims T B J) (db : Database T) (d : B) (isKey : B → Bool)
    (key : TransitKey T) (version : Option Nat) : Prop :=
  Unusable P d isKey (db.wrapped key version)
    (keyAad P key.ownerEmail key.keyName (db.versionAsked key version))

section Material

variable {d : B} {isKey : B → Bool} {db : Database T} {key : TransitKey T} {version : Option Nat}

theorem unusable_iff (hd : aesKeyOk P d = true) {texts : T × T} {aad : T} :
    Unusable P d isKey texts aad ↔ BadNonce P texts ∨
      ∃ m, TransitService.openMaterial P d texts.1 texts.2 aad = .ok m ∧ isKey m = false := by
  unfold Unusable BadNonce TransitService.openMaterial
  simp only [except_bind_eq_ok, b64d_eq_ok, decrypt_eq_ok, hd, true_and]
  constructor
  · rintro ⟨n, c, hn, hc, hbad | ⟨hlen, m, hm, hkey⟩⟩
    · exact .inl ⟨n, c, hn, hc, hbad⟩
    · exact .inr ⟨m, ⟨n, hn, c, hc, hlen, hm⟩, hkey⟩
  · rintro (⟨n, c, hn, hc, hbad⟩ | ⟨m, ⟨n, hn, c, hc, hlen, hm⟩, hkey⟩)
    · exact ⟨n, c, hn, hc, .inl hbad⟩
    · exact ⟨n, c, hn, hc, .inr ⟨hlen, m, hm, hkey⟩⟩

/-- Of `_material` and the use of what it returns, the version and the stored texts escape. -/
theorem material_unusable (hd : aesKeyOk P d = true) :
    ((∃ x, db.material P d key version = .error x ∧ x.Escapes) ∨
        ∃ m, db.material P d key version = .ok m ∧ isKey m = false) ↔
      (∃ k, version = some k ∧ 2 ^ 63 ≤ k) ∨
        (∀ k, version = some k → k < 2 ^ 63 ∧ (db.keyVersion key.id k = none → k = 1)) ∧
          db.UnusableKey P d isKey key version := by
  unfold Database.UnusableKey
  rw [material_escapes hd, unusable_iff hd]
  simp only [material_eq_ok]
  constructor
  · rintro ((h | ⟨h, hbad⟩) | ⟨m, ⟨h, hm⟩, hkey⟩)
    · exact .inl h
    · exact .inr ⟨h, .inl hbad⟩
    · exact .inr ⟨h, .inr ⟨m, hm, hkey⟩⟩
  · rintro (h | ⟨h, hbad | ⟨m, hm, hkey⟩⟩)
    · exact .inl (.inl h)
    · exact .inl (.inr ⟨h, hbad⟩)
    · exact .inr ⟨m, ⟨h, hm⟩, hkey⟩

end Material

/-! ## The calls -/

/-- The calls that open what is stored. -/
inductive OpensStored : Call T J → Prop where
  | read {path email version} : OpensStored (.kvRead path email version)
  | encrypt {email name plaintextB64} : OpensStored (.encrypt email name plaintextB64)
  | decrypt {email ciphertext} : OpensStored (.decrypt email ciphertext)
  | sign {email name messageB64 messageType} : OpensStored (.sign email name messageB64 messageType)
  | verify {email name messageB64 messageType signatureB64 signingAlgorithm} :
    OpensStored (.verify email name messageB64 messageType signatureB64 signingAlgorithm)

section Calls

variable {F : Type} {L : Lib F} {db : Database Text} {d : Bytes} {w : World Text Bytes}
  {e : Env (concrete L)} {email name : Text}

/-- The call gets as far as key material that is unusable, or to a version that does not fit in
    64 signed bits. -/
def World.Crashes (L : Lib F) (w : World Text Bytes) (d : Bytes) :
    Call Text (Json.Value F) → Prop
  | .kvRead path email version =>
    validatePath path email = .ok () ∧ (∃ item, w.db.findOwned path email = some item) ∧
      ∃ k : Int, version = some k ∧ 2 ^ 63 ≤ k
  | .encrypt email name plaintextB64 =>
    ∃ key raw, FindReady w.session email name (some .encryptDecrypt) key ∧
      Base64.decode plaintextB64 = some raw ∧ raw.length ≤ 1048576 ∧
      w.db.UnusableKey (concrete L) d (aesKeyOk (concrete L)) key
        (some (w.db.currentKeyNumber key.id))
  | .decrypt email ciphertext =>
    ∃ n name blob key, EnvelopeForm ciphertext n name blob ∧
      FindReady w.session email name (some .encryptDecrypt) key ∧
      (2 ^ 63 ≤ n ∨ (n < 2 ^ 63 ∧ (w.db.keyVersion key.id n = none → n = 1)) ∧
        w.db.UnusableKey (concrete L) d (aesKeyOk (concrete L)) key (some n))
  | .sign email name messageB64 messageType =>
    ∃ key message, FindReady w.session email name (some .signVerify) key ∧
      Base64.decode messageB64 = some message ∧ (messageType = .digest → message.length = 32) ∧
      w.db.UnusableKey (concrete L) d (fun m => decide (m.length = 32)) key none
  | _ => False

theorem encrypt_crashes {plaintextB64 : Text} (hd : w.dek = some d)
    (hkey : aesKeyOk (concrete L) d = true)
    (hv : ∀ v ∈ w.db.transitKeyVersions, v.version < 2 ^ 63) :
    Imp.Raises Exc.Escapes (TransitService.encrypt email name plaintextB64) e w.session ↔
      w.Crashes L d (.encrypt email name plaintextB64) := by
  rw [transitEncrypt_escapes hd]
  refine exists₂_congr fun key raw => and_congr_right fun _ => and_congr_right fun _ =>
    and_congr_right fun _ => ?_
  rw [material_unusable hkey]
  have hlt : w.db.currentKeyNumber key.id < 2 ^ 63 := currentKeyNumber_lt hv key.id
  constructor
  · rintro (⟨_, ⟨⟩, hle⟩ | ⟨-, h⟩)
    · exact absurd hle (Nat.not_le.2 hlt)
    · exact h
  · intro h
    refine .inr ⟨?_, h⟩
    rintro _ ⟨⟩
    exact ⟨hlt, currentKeyNumber_of_none⟩

theorem decrypt_crashes {ciphertext : Text} (hd : w.dek = some d)
    (hkey : aesKeyOk (concrete L) d = true) :
    Imp.Raises Exc.Escapes (TransitService.decrypt email ciphertext) e w.session ↔
      w.Crashes L d (.decrypt email ciphertext) := by
  have hopen : ∀ n name blob key, 28 ≤ blob.length →
      ((∃ x, hideOpenTag (w.db.openBlob (concrete L) d key email name n blob) = .error x ∧
        x.Escapes) ↔
      (2 ^ 63 ≤ n ∨ (n < 2 ^ 63 ∧ (w.db.keyVersion key.id n = none → n = 1)) ∧
        w.db.UnusableKey (concrete L) d (aesKeyOk (concrete L)) key (some n))) := by
    intro n name blob key hlen
    have htake : (concrete L).len ((concrete L).take 12 blob) = 12 :=
      List.length_take_of_le ((by decide : 12 ≤ 28).trans hlen)
    rw [openBlob_escapes htake, material_unusable hkey]
    simp
  rw [raises_decrypt]
  constructor
  · rintro (⟨x, hx, hesc⟩ | ⟨n, name, blobB64, hread, ⟨-, hesc⟩ | ⟨blob, hblob, ⟨-, hesc⟩ |
      ⟨hlen, hfind | ⟨key, d', hready, hd', h⟩⟩⟩⟩)
    · rw [readEnvelope_error hx] at hesc
      exact absurd hesc (escapes_appError _ _ _)
    · exact absurd hesc (escapes_appError _ _ _)
    · exact absurd hesc (escapes_appError _ _ _)
    · exact absurd hfind find_not_escapes
    · obtain rfl : d' = d := Option.some.inj (hd'.symm.trans hd)
      exact ⟨n, name, blob, key, envelopeForm_iff.2 ⟨blobB64, hread, hblob, hlen⟩, hready,
        (hopen n name blob key hlen).1 h⟩
  · rintro ⟨n, name, blob, key, hform, hready, h⟩
    obtain ⟨blobB64, hread, hblob, hlen⟩ := envelopeForm_iff.1 hform
    exact .inr ⟨n, name, blobB64, hread, .inr ⟨blob, hblob, .inr ⟨hlen, .inr ⟨key, d, hready, hd,
      (hopen n name blob key hlen).2 h⟩⟩⟩⟩

theorem sign_crashes {messageB64 : Text} {messageType : MessageType} (hd : w.dek = some d)
    (hkey : aesKeyOk (concrete L) d = true) :
    Imp.Raises Exc.Escapes (TransitService.sign email name messageB64 messageType) e w.session ↔
      w.Crashes L d (.sign email name messageB64 messageType) := by
  rw [sign_escapes hd]
  refine exists₂_congr fun key message => and_congr_right fun _ => and_congr_right fun _ =>
    and_congr_right fun _ => ?_
  have hmaterial : ((∃ x, w.db.material (concrete L) d key none = .error x ∧ x.Escapes) ∨
      ∃ m, w.db.material (concrete L) d key none = .ok m ∧
        (fun m => decide (m.length = 32)) m = false) ↔ _ := material_unusable hkey
  simp only [reduceCtorEq, false_and, exists_false, false_or, IsEmpty.forall_iff, implies_true,
    true_and, decide_eq_false_iff_not] at hmaterial
  exact hmaterial

end Calls

/-- In every reachable state with an unlocked vault, and however the texts of the ciphertext
    columns are replaced: a call that opens them returns or raises an `AppError` exactly if it gets
    to no unusable key material and to no version beyond 64 signed bits. -/
theorem corrupted_handled_iff {F : Type} (L : Lib F) (hcorrect : L.aesgcm.Correct)
    (hkey : L.aesgcm.KeyBound) (is : List (Env (concrete L) × Call Text (Json.Value F)))
    (d : Bytes) (hd : (World.initial.after is).dek = some d) (db : Database Text)
    (hdb : (World.initial.after is).db.Corrupted db) (e : Env (concrete L))
    (c : Call Text (Json.Value F)) (hc : OpensStored c) :
    { World.initial.after is with db := db }.Handles (e, c) ↔
      ¬ { World.initial.after is with db := db }.Crashes L d c := by
  have hP := concrete_lawful hcorrect hkey
  have hdek : aesKeyOk (concrete L) d = true := (keyed_of_unlocked hP.unlocks hd).keyOk
  have hring := Database.KeyRing.after (P := concrete L) keyRing_initial is
  have hv := hdb.version_lt fun v hv => (hring.versions v hv).2
  cases hc with
  | @read path email version =>
    rw [handles_iff (c := Call.kvRead path email version) (f := Data.kvValue) rfl, not_iff_not,
      read_escapes (concrete_checked L) (concrete_jsonRaises L)]
    refine and_congr_right fun _ => ⟨fun h => h.2, fun h => ⟨?_, h⟩⟩
    exact Option.ne_none_iff_exists'.2 ⟨d, hd⟩
  | @encrypt email name plaintextB64 =>
    rw [handles_iff (c := Call.encrypt email name plaintextB64) (f := Data.ciphertext) rfl,
      not_iff_not]
    exact encrypt_crashes hd hdek hv
  | @decrypt email ciphertext =>
    rw [handles_iff (c := Call.decrypt email ciphertext) (f := Data.plaintext) rfl, not_iff_not]
    exact decrypt_crashes hd hdek
  | @sign email name messageB64 messageType =>
    rw [handles_iff (c := Call.sign email name messageB64 messageType) (f := Data.signed) rfl,
      not_iff_not]
    exact sign_crashes hd hdek
  | @verify email name messageB64 messageType signatureB64 signingAlgorithm =>
    rw [handles_iff (c := Call.verify email name messageB64 messageType signatureB64
      signingAlgorithm) (f := Data.verified) rfl]
    exact iff_of_true verify_not_escapes id

namespace Sample

/-- The vault with one key, with another nonce text in the version rows. -/
def withNonce (nonceB64 : Text) : Database Text :=
  (World.initial.after oneKeyCalls).db.overwriteKeys
    (fun k => (k.encryptedKeyMaterialB64, k.keyNonceB64))
    fun v => (v.encryptedKeyMaterialB64, nonceB64)

/-- Twelve null octets. -/
def otherNonce : Text := Base64.encode (List.replicate 12 0)

/-- The key row of that vault. -/
def onlyKey : TransitKey Text :=
  newKey (concrete lib) (env 3) 1 alice keyName .encryptDecrypt dataKey

end Sample

open Sample in
/-- An empty nonce in a version row ends `encrypt` with a `ValueError`. -/
theorem encrypt_empty_nonce :
    (World.initial.after oneKeyCalls).db.Corrupted (withNonce []) ∧
      (World.initial.after oneKeyCalls).dek = some dataKey ∧
      ({ World.initial.after oneKeyCalls with db := withNonce [] }.call
        (env 4, .encrypt alice keyName "aGVsbG8=".toList)).1 = .error .valueError ∧
      ¬ { World.initial.after oneKeyCalls with db := withNonce [] }.Handles
        (env 4, .encrypt alice keyName "aGVsbG8=".toList) := by
  have hcall : ({ World.initial.after oneKeyCalls with db := withNonce [] }.call
      (env 4, .encrypt alice keyName "aGVsbG8=".toList)).1 = .error .valueError :=
    raised_eq_some (by decide +kernel)
  refine ⟨corrupted_overwriteKeys _ _ _, by decide +kernel, hcall, ?_⟩
  unfold World.Handles
  rw [hcall]
  rintro (⟨_, ⟨⟩⟩ | ⟨_, ⟨⟩⟩)

open Sample in
theorem corrupted_handled_iff_sample :
    { World.initial.after oneKeyCalls with db := withNonce otherNonce }.Handles
      (env 4, .encrypt alice keyName "aGVsbG8=".toList) := by
  refine (corrupted_handled_iff lib aesgcm_correct aesgcm_keyBound oneKeyCalls dataKey
    (by decide +kernel) (withNonce otherNonce) (corrupted_overwriteKeys _ _ _) (env 4) _
    .encrypt).2 ?_
  rintro ⟨key, raw, hready, -, -, hunusable⟩
  have hkey : key = onlyKey := Option.some.inj (hready.found.symm.trans (by decide +kernel))
  subst hkey
  have hcurrent : (withNonce otherNonce).currentKeyNumber onlyKey.id = 1 := by decide +kernel
  replace hunusable : (withNonce otherNonce).UnusableKey (concrete lib) dataKey
      (aesKeyOk (concrete lib)) onlyKey
      (some ((withNonce otherNonce).currentKeyNumber onlyKey.id)) := hunusable
  rw [hcurrent] at hunusable
  have hmaterial : (withNonce otherNonce).material (concrete lib) dataKey onlyKey (some 1) =
      .error (appError .decryptionFailed "Key material could not be decrypted" 400) :=
    raised_eq_some (by decide +kernel)
  have hasked : ∀ k, some 1 = some k → k < 2 ^ 63 ∧
      ((withNonce otherNonce).keyVersion onlyKey.id k = none → k = 1) := by
    rintro _ ⟨⟩
    exact ⟨by decide, fun _ => rfl⟩
  rcases (material_unusable (by decide +kernel)).2 (.inr ⟨hasked, hunusable⟩) with
    ⟨x, hx, hesc⟩ | ⟨m, hm, -⟩
  · cases hmaterial.symm.trans hx
    exact escapes_appError _ _ _ hesc
  · cases hmaterial.symm.trans hm

end MiniVault
