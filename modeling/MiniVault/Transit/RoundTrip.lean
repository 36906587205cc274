/-
  An envelope opens for as long as its key is not revoked. The version row it was encrypted
  under is still the one that `_material` finds, whatever was created, rotated or revoked in
  between, and unlocks under the same data key.
-/
import MiniVault.Model.Sample
import MiniVault.Transit.Envelope
import MiniVault.Transit.KeyRing

namespace MiniVault

open Kit

variable {T B J : Type} {P : Prims T B J} [DecidableEq T]

/-! ## A version row in place -/

/-- `v` answers for version `n` of the live encryption key `name` of `email`. -/
structure Database.Holds (db : Database T) (email name : T) (n : Nat) (v : TransitKeyVersion T)
    (key : TransitKey T) : Prop where
  found : db.findKey email name = some key
  usage : key.keyUsage = .encryptDecrypt
  live : key.revokedAt = none
  row : db.keyVersion key.id n = some v

section Holds

variable {db : Database T} {email name : T} {n : Nat} {v : TransitKeyVersion T}
  {key : TransitKey T}

theorem Database.Holds.keyCreate (h : db.Holds email name n v key) (e : Env P) (email' name' : T)
    (usage : KeyUsage) (dek : B) :
    (db.keyCreate P e email' name' usage dek).Holds email name n v key := by
  have hfound : (db.keyCreate P e email' name' usage dek).findKey email name = some key := by
    unfold Database.findKey
    rw [keyCreate_keys]
    exact Table.find?_concat h.found _
  refine ⟨hfound, h.usage, h.live, ?_⟩
  unfold Database.keyVersion
  rw [keyCreate_versions]
  cases usage with
  | encryptDecrypt => exact Table.find?_concat h.row _
  | signVerify => exact h.row

theorem Database.Holds.keyRotate (h : db.Holds email name n v key) (e : Env P) (k : TransitKey T)
    (email' name' : T) (dek : B) :
    ∃ key', key'.id = key.id ∧ (db.keyRotate P e k email' name' dek).Holds email name n v key' := by
  obtain ⟨hid, husage, hlive⟩ := updated_rewrapped k.id e
    (keySealing P e email' name' (db.currentKeyNumber k.id + 1) dek) key
  refine ⟨_, hid, ?_, husage.trans h.usage, hlive.trans h.live, ?_⟩
  · rw [findKey_keyRotate, h.found, Option.map_some]
  · rw [hid]
    exact Table.find?_concat h.row _

end Holds

/-- A step that is not the revocation of the key keeps the version row in place. -/
theorem Database.Holds.step {e : Env P} {w w' : World T B} {c : Call T J}
    {r : Except Exc (Data T J)} {email name : T} {n : Nat} {v : TransitKeyVersion T}
    {key : TransitKey T} (h : w.db.Holds email name n v key) (hring : w.db.KeyRing P)
    (hs : Step e w c r w') (hrev : c = .revoke email name → ∃ x, r = .error x) :
    ∃ key', key'.id = key.id ∧ w'.db.Holds email name n v key' := by
  cases hs with
  | createAes hc =>
    rw [wrote_db]
    exact ⟨key, rfl, h.keyCreate e _ _ _ _⟩
  | createSigning hc =>
    rw [wrote_db]
    exact ⟨key, rfl, h.keyCreate e _ _ _ _⟩
  | @revoke email' name' key' hf =>
    have hne : key.id ≠ key'.id := by
      intro hid
      obtain ⟨hmem, howner, hname⟩ := findKey_eq_some h.found
      obtain ⟨hmem', howner', hname'⟩ := findKey_eq_some hf.found
      have heq := Table.eq_of_key hring.ids hmem hmem' hid
      subst heq
      obtain ⟨x, hx⟩ := hrev (by rw [← howner, ← hname, howner', hname'])
      cases hx
    refine ⟨key, rfl, ?_, h.usage, h.live, h.row⟩
    rw [findKey_keyRevoke, h.found, Option.map_some, Table.updated, if_neg hne]
  | rotate =>
    rw [wrote_db]
    exact h.keyRotate e _ _ _ _
  | _ => exact ⟨key, rfl, h.found, h.usage, h.live, h.row⟩

/-- The calls of a run do not revoke the key. -/
def Unrevoked (email name : T) (tr : History P) : Prop :=
  ∀ i r, (i, r) ∈ tr → i.2 = .revoke email name → ∃ x, r = .error x

theorem Database.Holds.after {w : World T B} {email name : T} {n : Nat} {v : TransitKeyVersion T}
    {key : TransitKey T} (h : w.db.Holds email name n v key) (hring : w.db.KeyRing P)
    (js : List (Env P × Call T J)) (hrev : Unrevoked email name (w.trace js)) :
    ∃ key', key'.id = key.id ∧ (w.after js).db.Holds email name n v key' := by
  induction js generalizing w key with
  | nil => exact ⟨key, rfl, h⟩
  | cons i js ih =>
    have hs := step_of_call i.1 w i.2
    obtain ⟨key₁, hid₁, h₁⟩ :=
      h.step hring hs fun hc => hrev i _ List.mem_cons_self hc
    obtain ⟨key₂, hid₂, h₂⟩ :=
      ih h₁ (hring.step hs) fun i' r hi => hrev i' r (List.mem_cons_of_mem _ hi)
    exact ⟨key₂, hid₂.trans hid₁, h₂⟩

/-! ## The round trip -/

/-- What `encrypt` found when it went through: a version row that opens to the material. -/
theorem EncryptReady.holds {s : Proc T B} {email name plaintextB64 : T}
    (h : EncryptReady P s email name plaintextB64) (hring : s.db.KeyRing P) :
    ∃ v, s.db.Holds email name (s.db.currentKeyNumber h.key.id) v h.key ∧
      TransitService.openMaterial P h.dek v.keyNonceB64 v.encryptedKeyMaterialB64
        (keyAad P email name (s.db.currentKeyNumber h.key.id)) = .ok h.material := by
  obtain ⟨hmem, howner, hname⟩ := findKey_eq_some h.ready.found
  have husage := h.ready.usageOk _ rfl
  obtain ⟨v₁, hv₁, hid₁, -⟩ := hring.first h.key hmem husage
  obtain ⟨v, hv⟩ := keyVersion_current hv₁ hid₁
  have hopen := (material_eq_ok.1 h.opened).2
  simp only [openRecord, Database.recordAsked, Database.versionAsked, hv, howner, hname] at hopen
  exact ⟨v, ⟨h.ready.found, husage, h.ready.live, hv⟩, hopen⟩

section Printed

variable {F : Type} {L : Lib F} {db : Database Text} {email name : Text} {n : Nat}
  {v : TransitKeyVersion Text} {key : TransitKey Text}

/-- What `encrypt` prints of such a version is read back. -/
theorem Database.Holds.readEnvelope (h : db.Holds email name n v key)
    (hring : db.KeyRing (concrete L)) (blob : Bytes) :
    MiniVault.readEnvelope (envelope (concrete L) n name blob) =
      .ok (n, name, Base64.encode blob) := by
  obtain ⟨hmem, -, hname⟩ := findKey_eq_some h.found
  obtain ⟨hv, -, hnum⟩ := keyVersion_eq_some h.row
  have hrange := hring.versions v hv
  rw [hnum] at hrange
  have hvalid : validateKeyName name = .ok () := hname ▸ hring.named key hmem
  exact readEnvelope_envelope L hrange.1 hrange.2 hvalid blob

theorem Database.Holds.envelopeForm (h : db.Holds email name n v key)
    (hring : db.KeyRing (concrete L)) {blob : Bytes} (hlen : 28 ≤ blob.length) :
    EnvelopeForm (envelope (concrete L) n name blob) n name blob :=
  envelopeForm_iff.2 ⟨_, h.readEnvelope hring blob, Base64.decode_encode blob, hlen⟩

/-- It is the envelope of nothing else. -/
theorem Database.Holds.eq_of_envelopeForm (h : db.Holds email name n v key)
    (hring : db.KeyRing (concrete L)) {n' : Nat} {name' : Text} {blob blob' : Bytes}
    (hform : EnvelopeForm (envelope (concrete L) n name blob) n' name' blob') :
    n' = n ∧ name' = name ∧ blob' = blob := by
  obtain ⟨blobB64, hread, hblob, hlen⟩ := envelopeForm_iff.1 hform
  cases (h.readEnvelope hring blob).symm.trans hread
  exact ⟨rfl, rfl, Option.some.inj (hblob.symm.trans (Base64.decode_encode blob))⟩

end Printed

/-- While the version row is in place and the data key is loaded, whatever spells the envelope
    opens. -/
theorem decrypt_of_holds {F : Type} {L : Lib F} (hcorrect : L.aesgcm.Correct)
    {s : Proc Text Bytes} {email name envelope : Text} {n : Nat} {v : TransitKeyVersion Text}
    {key : TransitKey Text} {dek m c : Bytes} (e e' : Env (concrete L)) (raw : Bytes)
    (hform : EnvelopeForm envelope n name (e.nonce ++ c))
    (h : s.db.Holds email name n v key) (hring : s.db.KeyRing (concrete L))
    (hdek : s.dek = some dek)
    (hopen : TransitService.openMaterial (concrete L) dek v.keyNonceB64 v.encryptedKeyMaterialB64
      (keyAad (concrete L) email name n) = .ok m)
    (hm : aesKeyOk (concrete L) m = true)
    (hc : c = L.aesgcm.encrypt m e.nonce raw
      ((concrete L).encode (transitAad (concrete L) email name n))) :
    TransitService.decrypt email envelope e' s = (.ok (Base64.encode raw), s) := by
  obtain ⟨blobB64, hread, hblob, hlen⟩ := envelopeForm_iff.1 hform
  obtain ⟨-, howner, hname⟩ := findKey_eq_some h.found
  obtain ⟨hv, -, hnum⟩ := keyVersion_eq_some h.row
  have hrange := hring.versions v hv
  rw [hnum] at hrange
  have hnonce : e.nonce.length = 12 := e.nonce_len
  refine transitDecrypt_of_ready (h := {
    version := n, name := name, blobB64 := blobB64, blob := e.nonce ++ c
    key := key, dek := dek, material := m, raw := raw
    parsed := hread
    decoded := hblob
    size := hlen
    ready := ⟨⟨dek, hdek⟩, h.found, h.live, by rintro _ ⟨⟩; exact h.usage⟩
    unlocked := hdek
    opened := ?_
    plain := ?_ }) e'
  · refine material_eq_ok.2 ⟨?_, ?_⟩
    · rintro _ ⟨⟩
      exact ⟨hrange.2, fun hnone => absurd (h.row.symm.trans hnone) (by simp)⟩
    · simp only [openRecord, Database.recordAsked, Database.versionAsked, h.row, howner, hname]
      exact hopen
  · have htake : (concrete L).take 12 (e.nonce ++ c) = e.nonce := List.take_left' hnonce
    have hdrop : (concrete L).drop 12 (e.nonce ++ c) = c := List.drop_left' hnonce
    rw [htake, hdrop, hc]
    exact decrypt_encrypt (P := concrete L) hcorrect hm e raw _

/-- An `encrypt` call that returned an envelope. -/
theorem encrypt_call_eq_ok {w w' : World T B} {e : Env P} {email name plaintextB64 c : T}
    (h : w.call (e, (.encrypt email name plaintextB64 : Call T J)) = (.ok (.ciphertext c), w')) :
    ∃ hr : EncryptReady P w.session email name plaintextB64,
      c = envelope P (w.db.currentKeyNumber hr.key.id) name
        (P.append e.nonce (P.aesgcm.encrypt hr.material e.nonce hr.raw (hr.sealing e).aad)) ∧
      w' = w.sealing (hr.sealing e) := by
  have hs := step_of_call e w (.encrypt email name plaintextB64)
  rw [h] at hs
  cases hs with
  | view _ hc => cases hc
  | encrypt hr => exact ⟨hr, rfl, rfl⟩

/-- After an `encrypt` that went through, whatever spells its envelope opens as long as the key is
    not revoked and the vault is unlocked. -/
theorem decrypt_after_encrypt {F : Type} {L : Lib F} (hL : (concrete L).Unlocks)
    {is : List (Env (concrete L) × Call Text (Json.Value F))} {email name plaintextB64 : Text}
    (h : EncryptReady (concrete L) (World.initial.after is).session email name plaintextB64)
    (e e' : Env (concrete L)) (js : List (Env (concrete L) × Call Text (Json.Value F)))
    {envelope : Text} (hform : EnvelopeForm envelope
      ((World.initial.after is).db.currentKeyNumber h.key.id) name
      (e.nonce ++ L.aesgcm.encrypt h.material e.nonce h.raw (h.sealing e).aad))
    (hrev : Unrevoked email name (((World.initial.after is).sealing (h.sealing e)).trace js))
    (hunlocked : (((World.initial.after is).sealing (h.sealing e)).after js).dek ≠ none) :
    ((((World.initial.after is).sealing (h.sealing e)).after js).call
        (e', .decrypt email envelope)).1 = .ok (.plaintext (Base64.encode h.raw)) := by
  have hring := Database.KeyRing.after (P := concrete L) keyRing_initial is
  obtain ⟨v, hv, hopen⟩ := h.holds hring
  have hkeyed : ((World.initial.after is).sealing (h.sealing e)).Keyed (concrete L) h.dek := by
    have hk := keyed_of_unlocked hL h.unlocked
    exact ⟨hk.wrapped, hk.loaded⟩
  obtain ⟨d, hd⟩ := Option.ne_none_iff_exists'.1 hunlocked
  have hdek := (hkeyed.after hL js).loaded d hd
  subst hdek
  obtain ⟨key, -, hlater⟩ :=
    Database.Holds.after (w := (World.initial.after is).sealing (h.sealing e)) hv hring js hrev
  have hrun := decrypt_of_holds
    (s := (((World.initial.after is).sealing (h.sealing e)).after js).session) hL.correct e e' h.raw
    hform hlater (Database.KeyRing.after
      (w := (World.initial.after is).sealing (h.sealing e)) hring js) hd hopen h.keyOk rfl
  exact congrArg Prod.fst (call_eq (c := Call.decrypt email _) rfl hrun)

/-- However many calls come between, an envelope that `encrypt` returned opens to the bytes that
    were encrypted, as long as the key is not revoked and the vault is unlocked. -/
theorem decrypt_of_encrypt {F : Type} (L : Lib F) (hcorrect : L.aesgcm.Correct)
    (hkey : L.aesgcm.KeyBound)
    (htag : ∀ k n p a, p.length + 16 ≤ (L.aesgcm.encrypt k n p a).length)
    (is js : List (Env (concrete L) × Call Text (Json.Value F))) (e e' : Env (concrete L))
    (email name plaintextB64 ciphertext : Text) (w : World Text Bytes)
    (henc : (World.initial.after is).call (e, .encrypt email name plaintextB64) =
      (.ok (.ciphertext ciphertext), w))
    (hrev : Unrevoked email name (w.trace js)) (hunlocked : (w.after js).dek ≠ none) :
    ∃ raw, Base64.decode plaintextB64 = some raw ∧
      ((w.after js).call (e', .decrypt email ciphertext)).1 =
        .ok (.plaintext (Base64.encode raw)) := by
  have hring := Database.KeyRing.after (P := concrete L) keyRing_initial is
  obtain ⟨h, rfl, rfl⟩ := encrypt_call_eq_ok henc
  obtain ⟨v, hv, -⟩ := h.holds hring
  have hlen : 28 ≤
      (e.nonce ++ L.aesgcm.encrypt h.material e.nonce h.raw (h.sealing e).aad).length := by
    have hnonce : e.nonce.length = 12 := e.nonce_len
    have htag' := htag h.material e.nonce h.raw (h.sealing e).aad
    rw [List.length_append]
    omega
  exact ⟨h.raw, h.decoded, decrypt_after_encrypt (concrete_lawful hcorrect hkey).unlocks h e e' js
    (hv.envelopeForm hring hlen) hrev hunlocked⟩

namespace Sample

/-- A key is made, and used once. -/
def encrypted : Except Exc (Data Text (Json.Value Unit)) × World Text Bytes :=
  (World.initial.after (opening ++ [(env 3, .createAes alice keyName)])).call
    (env 4, .encrypt alice keyName "aGVsbG8=".toList)

/-- The envelope of a response. -/
def envelopeOf : Except Exc (Data Text (Json.Value Unit)) → Option Text
  | .ok (.ciphertext c) => some c
  | _ => none

/-- Two rotations and a restart. -/
def later : List SampleCall :=
  [(env 5, .rotate alice keyName), (env 6, .restart), (env 7, .vaultUnlock passphrase),
    (env 8, .rotate alice keyName)]

theorem envelopeOf_eq_some {r : Except Exc (Data Text (Json.Value Unit))} {c : Text}
    (h : envelopeOf r = some c) : r = .ok (.ciphertext c) := by
  unfold envelopeOf at h
  split at h
  · rw [Option.some.inj h]
  · cases h

theorem aesgcm_tag (k n p a : Bytes) : p.length + 16 ≤ (aesgcm.encrypt k n p a).length := by
  simp only [aesgcm, header, List.length_append, List.length_replicate]
  omega

end Sample

open Sample in
theorem decrypt_of_encrypt_sample :
    ∃ raw, Base64.decode "aGVsbG8=".toList = some raw ∧
      ((encrypted.2.after later).call
          (env 9, .decrypt alice ((envelopeOf encrypted.1).getD []))).1 =
        .ok (.plaintext (Base64.encode raw)) := by
  obtain ⟨c, hc⟩ := Option.isSome_iff_exists.1
    (show (envelopeOf encrypted.1).isSome = true by decide +kernel)
  have henc : encrypted = (.ok (.ciphertext c), encrypted.2) := by
    rw [← envelopeOf_eq_some hc]
  rw [hc, Option.getD_some]
  refine decrypt_of_encrypt lib aesgcm_correct aesgcm_keyBound aesgcm_tag _ later (env 4) (env 9)
    alice keyName _ c _ henc ?_ (by decide +kernel)
  intro i r hi hrev
  have hmem := Run.mem_of_mem_trace hi
  simp only [later, List.mem_cons, List.not_mem_nil, or_false] at hmem
  rcases hmem with rfl | rfl | rfl | rfl <;> cases hrev

end MiniVault
