/-
  Which exceptions the services raise. Most of what can go wrong is answered with an `AppError`;
  what is not comes from three places: the driver, which binds no integer of more than 64 bits,
  the nonce and the key that AES-GCM and Ed25519 are given, and the writer of JSON.
-/
import MiniVault.Kit.Raises
import MiniVault.Service.Dek
import Mathlib.Algebra.Group.Int.Defs

namespace MiniVault

open Kit Imp

variable {T B J : Type} {P : Prims T B J}

/-- The exception is no `AppError`. -/
def Exc.Escapes (x : Exc) : Prop := x.isAppError = false

@[simp] theorem escapes_app (err : AppError) : ¬ (Exc.app err).Escapes := by
  rintro ⟨⟩

@[simp] theorem escapes_appError (code : ErrorCode) (message : String) (n : Nat) :
    ¬ (appError code message n).Escapes := escapes_app _

@[simp] theorem escapes_valueError : Exc.valueError.Escapes := rfl

@[simp] theorem escapes_overflowError : Exc.overflowError.Escapes := rfl

theorem not_escapes_of_isAppError {x : Exc} (h : x.isAppError = true) : ¬ x.Escapes := by
  rw [Exc.Escapes, h]
  decide

theorem not_escapes {x : Exc} : ¬ x.Escapes ↔ ∃ err, x = .app err := by
  unfold Exc.Escapes
  cases x <;> simp [Exc.isAppError]

/-! ## Checks -/

/-- The checks on arguments raise nothing but `AppError`. -/
structure Prims.Checked (P : Prims T B J) : Prop where
  validatePath : ∀ path email x, P.validatePath path email = .error x → x.isAppError = true
  validateKeyName : ∀ name x, P.validateKeyName name = .error x → x.isAppError = true
  readEnvelope : ∀ envelope x, P.readEnvelope envelope = .error x → x.isAppError = true

theorem validateKeyName_error {name : Text} {x : Exc} (h : validateKeyName name = .error x) :
    x = appError .validationError "Invalid key name" 422 := by
  unfold validateKeyName at h
  split_ifs at h
  exact (Except.error.inj h).symm

theorem readEnvelope_error {c : Text} {x : Exc} (h : readEnvelope c = .error x) :
    x = appError .invalidCiphertext "Invalid ciphertext" 400 := by
  unfold readEnvelope at h
  dsimp only at h
  split at h
  · split_ifs at h
    · exact (Except.error.inj h).symm
    · split at h
      · exact (Except.error.inj h).symm
      · split_ifs at h
        exact (Except.error.inj h).symm
  · exact (Except.error.inj h).symm

theorem concrete_checked {F : Type} (L : Lib F) : (concrete L).Checked where
  validatePath path email x h := by
    have h' : MiniVault.validatePath path email = .error x := h
    unfold MiniVault.validatePath at h'
    split_ifs at h' <;> cases h' <;> rfl
  validateKeyName _ _ h := by
    rw [validateKeyName_error h]
    rfl
  readEnvelope _ _ h := by
    rw [readEnvelope_error h]
    rfl

/-- The reader and the writer of JSON raise no `AppError`. -/
structure Prims.JsonRaises (P : Prims T B J) : Prop where
  dumps : ∀ data x, P.dumps data = .error x → x.Escapes
  loads : ∀ raw x, P.loads raw = .error x → x.isValueError = true

theorem concrete_jsonRaises {F : Type} (L : Lib F) : (concrete L).JsonRaises where
  dumps data x h := by
    have hdumps : dumps L data = .error x := h
    unfold dumps at hdumps
    split at hdumps
    · exact Except.error.inj hdumps ▸ rfl
    · split at hdumps
      · exact Except.error.inj hdumps ▸ rfl
      · cases hdumps
  loads raw x h := by
    have hloads : loads L raw = .error x := h
    unfold loads at hloads
    split at hloads
    · cases hloads
    · exact Except.error.inj hloads ▸ rfl

/-! ## Rules -/

section Rules

variable {α β : Type} {E : Exc → Prop} {e : Env P} {s : Proc T B}

@[simp] theorem raises_query_bind {f : Database T → α} {g : α → Py P β} :
    Raises E (query f >>= g) e s ↔ Raises E (g (f s.db)) e s := Iff.rfl

@[simp] theorem raises_utcnow_bind {g : Time → Py P β} :
    Raises E (utcnow >>= g) e s ↔ Raises E (g e.now) e s := Iff.rfl

@[simp] theorem raises_update_bind {f : Database T → Database T} {g : Unit → Py P β} :
    Raises E (update f >>= g) e s ↔ Raises E (g ()) e { s with db := f s.db } := Iff.rfl

@[simp] theorem raises_commit : Raises E (commit : Py P Unit) e s ↔ False := raises_modify

theorem raises_requireDek_bind {g : B → Py P β} : Raises E (requireDek >>= g) e s ↔
    (s.dek = none ∧ E (appError .vaultLocked "Vault is locked" 423)) ∨
      ∃ d, s.dek = some d ∧ Raises E (g d) e s := by
  rcases hd : s.dek with _ | d
  · simp [Raises, requireDek_of_none hd]
  · simp [Raises, requireDek_of_some hd]

theorem b64d_error_iff {value : T} {code : ErrorCode} {x : Exc} :
    b64d P value code = .error x ↔
      P.b64decode value = none ∧ x = appError code "Invalid Base64 data" 400 := by
  unfold b64d
  rcases P.b64decode value with _ | b
  · simp [eq_comm]
  · simp

theorem raises_b64d_bind {value : T} {code : ErrorCode} {g : B → Py P β} :
    Raises E (ofExcept (b64d P value code) >>= g) e s ↔
      (P.b64decode value = none ∧ E (appError code "Invalid Base64 data" 400)) ∨
        ∃ b, P.b64decode value = some b ∧ Raises E (g b) e s := by
  simp only [raises_ofExcept_bind, b64d_error_iff, b64d_eq_ok]
  refine or_congr_left ⟨?_, ?_⟩
  · rintro ⟨_, ⟨hn, rfl⟩, hE⟩
    exact ⟨hn, hE⟩
  · rintro ⟨hn, hE⟩
    exact ⟨_, ⟨hn, rfl⟩, hE⟩

end Rules

/-! ## Key material -/

/-- The nonce and the ciphertext that `_material` opens. -/
def Database.wrapped (db : Database T) (key : TransitKey T) (version : Option Nat) : T × T :=
  let record := db.recordAsked key version
  ((record.map (·.keyNonceB64)).getD key.keyNonceB64,
    (record.map (·.encryptedKeyMaterialB64)).getD key.encryptedKeyMaterialB64)

/-- A stored pair of texts decodes to a nonce of a length that AES-GCM does not take. -/
def BadNonce (P : Prims T B J) (texts : T × T) : Prop :=
  ∃ nonce ciphertext, P.b64decode texts.1 = some nonce ∧ P.b64decode texts.2 = some ciphertext ∧
    (P.len nonce < 8 ∨ 128 < P.len nonce)

section Material

variable {E : Exc → Prop} {d : B} {db : Database T} {key : TransitKey T} {version : Option Nat}

theorem decrypt_error_iff {key nonce ciphertext aad : B} {x : Exc} (hk : aesKeyOk P key = true) :
    decrypt P key nonce ciphertext aad = .error x ↔
      (P.len nonce < 8 ∨ 128 < P.len nonce) ∧ x = .valueError ∨
        (8 ≤ P.len nonce ∧ P.len nonce ≤ 128) ∧
          P.aesgcm.decrypt key nonce ciphertext aad = none ∧ x = .invalidTag := by
  unfold decrypt
  rw [if_pos hk]
  by_cases hn : P.len nonce < 8 ∨ 128 < P.len nonce
  · have hlen : ¬ (8 ≤ P.len nonce ∧ P.len nonce ≤ 128) := by omega
    simp [hn, hlen, eq_comm]
  · have hlen : 8 ≤ P.len nonce ∧ P.len nonce ≤ 128 := by omega
    rcases P.aesgcm.decrypt key nonce ciphertext aad with _ | p
    · simp [hn, hlen, eq_comm]
    · simp [hn]

/-- The `try` block of `_material` lets nothing but a bad nonce escape. -/
theorem hideTag_escapes (hd : aesKeyOk P d = true) (texts : T × T) (aad : T) :
    (∃ x, hideTag (TransitService.openMaterial P d texts.1 texts.2 aad) = .error x ∧
      x.Escapes) ↔ BadNonce P texts := by
  have happ : ∀ {code message n},
      ¬ ∃ x, (.error (appError code message n) : Except Exc B) = .error x ∧ x.Escapes := by
    rintro code message n ⟨_, ⟨⟩, h⟩
    exact escapes_appError _ _ _ h
  unfold TransitService.openMaterial BadNonce
  rcases hn : P.b64decode texts.1 with _ | nonce
  · rw [b64d_error_iff.2 ⟨hn, rfl⟩]
    exact ⟨fun h => absurd h happ, by rintro ⟨_, _, ⟨⟩, -⟩⟩
  rcases hc : P.b64decode texts.2 with _ | ciphertext
  · rw [b64d_eq_ok.2 hn, b64d_error_iff.2 ⟨hc, rfl⟩]
    exact ⟨fun h => absurd h happ, by rintro ⟨_, _, -, ⟨⟩, -⟩⟩
  rw [b64d_eq_ok.2 hn, b64d_eq_ok.2 hc]
  show (∃ x, hideTag (decrypt P d nonce ciphertext (P.encode aad)) = .error x ∧ x.Escapes) ↔ _
  rcases hr : decrypt P d nonce ciphertext (P.encode aad) with x | m
  · rcases (decrypt_error_iff hd).1 hr with ⟨hlen, rfl⟩ | ⟨hlen, -, rfl⟩
    · exact ⟨fun _ => ⟨nonce, ciphertext, rfl, rfl, hlen⟩, fun _ => ⟨_, rfl, rfl⟩⟩
    · refine ⟨fun h => absurd h happ, ?_⟩
      rintro ⟨_, _, ⟨⟩, -, hbad⟩
      omega
  · obtain ⟨-, hlen, -⟩ := decrypt_eq_ok.1 hr
    refine ⟨by rintro ⟨_, ⟨⟩, -⟩, ?_⟩
    rintro ⟨_, _, ⟨⟩, -, hbad⟩
    omega

/-- Of `_material`, the driver and the nonce escape. -/
theorem material_escapes (hd : aesKeyOk P d = true) :
    (∃ x, db.material P d key version = .error x ∧ x.Escapes) ↔
      (∃ k, version = some k ∧ 2 ^ 63 ≤ k) ∨
        (∀ k, version = some k → k < 2 ^ 63 ∧ (db.keyVersion key.id k = none → k = 1)) ∧
          BadNonce P (db.wrapped key version) := by
  have hopen : (∃ x, hideTag (openRecord P d key (db.recordAsked key version)
      (db.versionAsked key version)) = .error x ∧ x.Escapes) ↔
        BadNonce P (db.wrapped key version) := hideTag_escapes hd (db.wrapped key version) _
  unfold Database.material
  rcases version with _ | k
  · simpa using hopen
  by_cases hk : 2 ^ 63 ≤ k
  · simp only [if_pos hk]
    exact ⟨fun _ => .inl ⟨k, rfl, hk⟩, fun _ => ⟨_, rfl, rfl⟩⟩
  by_cases hn : db.keyVersion key.id k = none ∧ k ≠ 1
  · simp only [if_neg hk, if_pos hn]
    constructor
    · rintro ⟨_, ⟨⟩, h⟩
      exact absurd h (escapes_appError _ _ _)
    · rintro (⟨_, ⟨⟩, h⟩ | ⟨h, -⟩)
      · exact absurd h hk
      · exact absurd ((h k rfl).2 hn.1) hn.2
  · simp only [if_neg hk, if_neg hn, hopen]
    constructor
    · intro h
      refine .inr ⟨?_, h⟩
      rintro _ ⟨⟩
      exact ⟨Nat.not_le.1 hk, fun hnone => by_contra fun hne => hn ⟨hnone, hne⟩⟩
    · rintro (⟨_, ⟨⟩, h⟩ | ⟨-, h⟩)
      · exact absurd h hk
      · exact h

end Material

/-! ## Transit -/

section Transit

variable [DecidableEq T] {α : Type} {E : Exc → Prop} {e : Env P} {s : Proc T B} {d : B}
  {email name : T} {usage : Option KeyUsage}

/-- What `_find` raises. -/
def findErrors : List Exc :=
  [appError .vaultLocked "Vault is locked" 423, appError .permissionDenied "Permission denied" 403,
    appError .keyNotFound "Key not found" 404,
    appError .invalidKeyUsage "Key cannot be used for this operation" 400]

theorem find_error {x : Exc} (h : (TransitService.find email name usage e s).1 = .error x) :
    x ∈ findErrors := by
  unfold TransitService.find at h
  rcases hd : s.dek with _ | dek
  · simp only [bind_apply, requireDek_of_none hd, Except.error.injEq] at h
    simp [← h, findErrors]
  rcases hf : s.db.findKey email name with _ | key
  · simp only [bind_apply, requireDek_of_some hd, query_apply, hf, raise_apply,
      Except.error.injEq] at h
    simp [← h, findErrors]
  by_cases hr : key.revokedAt.isSome
  · simp only [bind_apply, requireDek_of_some hd, query_apply, hf, if_pos hr, raise_apply,
      Except.error.injEq] at h
    simp [← h, findErrors]
  by_cases hu : usage.any (· ≠ key.keyUsage)
  · simp only [bind_apply, requireDek_of_some hd, query_apply, hf, if_neg hr, ite_run, if_pos hu,
      raise_apply, Except.error.injEq] at h
    simp [← h, findErrors]
  · simp only [bind_apply, requireDek_of_some hd, query_apply, hf, if_neg hr, ite_run, if_neg hu,
      pure_apply, reduceCtorEq] at h

theorem not_raises_find (hE : ∀ x ∈ findErrors, ¬ E x) :
    ¬ Raises E (TransitService.find email name usage) e s := by
  rintro ⟨x, hx, h⟩
  exact hE x (find_error hx) h

theorem find_not_escapes : ¬ Raises Exc.Escapes (TransitService.find email name usage) e s :=
  not_raises_find (by simp [findErrors])

theorem raises_find_bind {f : TransitKey T → Py P α} :
    Raises E (TransitService.find email name usage >>= f) e s ↔
      Raises E (TransitService.find email name usage) e s ∨
        ∃ key, FindReady s email name usage key ∧ Raises E (f key) e s := by
  rw [raises_bind]
  refine or_congr_right ⟨?_, ?_⟩
  · rintro ⟨a, s', heq, h⟩
    rcases find_cases email name usage e s with ⟨x, hx⟩ | ⟨key, hkey⟩
    · rw [hx] at heq
      cases heq
    · rw [find_of_ready hkey] at heq
      cases heq
      exact ⟨_, hkey, h⟩
  · rintro ⟨key, hkey, h⟩
    exact ⟨key, s, find_of_ready hkey e, h⟩

omit [DecidableEq T] in
theorem raises_material_bind (hd : s.dek = some d) {key : TransitKey T} {version : Option Nat}
    {f : B → Py P α} : Raises E (TransitService.material key version >>= f) e s ↔
      (∃ x, s.db.material P d key version = .error x ∧ E x) ∨
        ∃ m, s.db.material P d key version = .ok m ∧ Raises E (f m) e s := by
  rw [raises_bind, Raises, material_apply hd]
  refine or_congr_right ⟨?_, ?_⟩
  · rintro ⟨m, s', heq, h⟩
    cases hm : s.db.material P d key version with
    | error x => rw [hm] at heq; cases heq
    | ok a => rw [hm] at heq; cases heq; exact ⟨_, rfl, h⟩
  · rintro ⟨m, hm, h⟩
    exact ⟨m, s, by rw [hm], h⟩

omit [DecidableEq T] in
theorem encrypt_raises {key plaintext aad : B} :
    Raises E (encrypt key plaintext aad) e s ↔ aesKeyOk P key = false ∧ E .valueError := by
  unfold Raises
  rcases hk : aesKeyOk P key with _ | _
  · simp [encrypt_of_not_key hk]
  · simp [encrypt_of_key hk]

theorem transitEncrypt_escapes {plaintextB64 : T} (hd : s.dek = some d) :
    Raises Exc.Escapes (TransitService.encrypt email name plaintextB64) e s ↔
      ∃ key raw, FindReady s email name (some .encryptDecrypt) key ∧
        P.b64decode plaintextB64 = some raw ∧ P.len raw ≤ 1048576 ∧
        ((∃ x, s.db.material P d key (some (s.db.currentKeyNumber key.id)) = .error x ∧
            x.Escapes) ∨
          ∃ m, s.db.material P d key (some (s.db.currentKeyNumber key.id)) = .ok m ∧
            aesKeyOk P m = false) := by
  unfold TransitService.encrypt
  simp only [raises_find_bind, find_not_escapes, false_or, raises_b64d_bind, raises_ite,
    raises_raise_bind, raises_query_bind, raises_material_bind hd, escapes_appError, and_false,
    raises_map, encrypt_raises, escapes_valueError, and_true, Nat.not_lt]
  constructor
  · rintro ⟨key, hkey, raw, hraw, hsize, h⟩
    exact ⟨key, raw, hkey, hraw, hsize, h⟩
  · rintro ⟨key, raw, hkey, hraw, hsize, h⟩
    exact ⟨key, hkey, raw, hraw, hsize, h⟩

/-- `except InvalidTag` of `decrypt`. -/
def hideOpenTag (r : Except Exc B) : Except Exc B :=
  match r with
  | .error .invalidTag =>
    .error (appError .decryptionFailed "Ciphertext could not be decrypted" 400)
  | r => r

/-- What the `try` block of `decrypt` returns or raises. -/
def Database.openBlob (P : Prims T B J) (db : Database T) (d : B) (key : TransitKey T)
    (email name : T) (version : Nat) (blob : B) : Except Exc B := do
  let m ← db.material P d key (some version)
  MiniVault.decrypt P m (P.take 12 blob) (P.drop 12 blob)
    (P.encode (transitAad P email name version))

omit [DecidableEq T] in
/-- The `try` block of `decrypt` and its handler. -/
theorem handle_openBlob (hd : s.dek = some d) (key : TransitKey T) (version : Nat) (blob : B) :
    handle
      (do
        let m ← TransitService.material key (some version)
        ofExcept (MiniVault.decrypt P m (P.take 12 blob) (P.drop 12 blob)
          (P.encode (transitAad P email name version))))
      (fun x =>
        if x = .invalidTag then
          raise (appError .decryptionFailed "Ciphertext could not be decrypted" 400)
        else raise x) e s = (hideOpenTag (s.db.openBlob P d key email name version blob), s) := by
  unfold Database.openBlob
  simp only [handle_apply, bind_apply, material_apply hd, ofExcept_apply]
  rcases s.db.material P d key (some version) with x | m
  · cases x <;> rfl
  · dsimp only [Bind.bind, Except.bind]
    rcases decrypt P m (P.take 12 blob) (P.drop 12 blob)
      (P.encode (transitAad P email name version)) with x | raw
    · cases x <;> rfl
    · rfl

/-- Where `decrypt` raises, and what. -/
theorem raises_decrypt {ciphertext : T} :
    Raises E (TransitService.decrypt email ciphertext) e s ↔
      (∃ x, P.readEnvelope ciphertext = .error x ∧ E x) ∨
        ∃ version name blobB64, P.readEnvelope ciphertext = .ok (version, name, blobB64) ∧
          ((P.b64decode blobB64 = none ∧
              E (appError .invalidCiphertext "Invalid Base64 data" 400)) ∨
            ∃ blob, P.b64decode blobB64 = some blob ∧
              ((P.len blob < 28 ∧ E (appError .invalidCiphertext "Invalid ciphertext" 400)) ∨
                28 ≤ P.len blob ∧
                  (Raises E (TransitService.find email name (some .encryptDecrypt)) e s ∨
                    ∃ key d, FindReady s email name (some .encryptDecrypt) key ∧ s.dek = some d ∧
                      ∃ x, hideOpenTag (s.db.openBlob P d key email name version blob) = .error x ∧
                        E x))) := by
  unfold TransitService.decrypt
  rw [raises_ofExcept_bind]
  refine or_congr_right ?_
  simp only [Prod.exists, raises_b64d_bind, raises_ite, raises_raise_bind, raises_find_bind,
    raises_map, Nat.not_lt]
  have hopen : ∀ version name blob key,
      FindReady s email name (some .encryptDecrypt) key ∧ Raises E (handle
          (do
            let m ← TransitService.material key (some version)
            ofExcept (MiniVault.decrypt P m (P.take 12 blob) (P.drop 12 blob)
              (P.encode (transitAad P email name version))))
          fun x =>
            if x = .invalidTag then
              raise (appError .decryptionFailed "Ciphertext could not be decrypted" 400)
            else raise x) e s ↔
        ∃ d, FindReady s email name (some .encryptDecrypt) key ∧ s.dek = some d ∧
          ∃ x, hideOpenTag (s.db.openBlob P d key email name version blob) = .error x ∧ E x := by
    intro version name blob key
    constructor
    · rintro ⟨h, hr⟩
      obtain ⟨d, hd⟩ := h.unlocked
      rw [Raises, handle_openBlob hd] at hr
      exact ⟨d, h, hd, hr⟩
    · rintro ⟨d, h, hd, hr⟩
      refine ⟨h, ?_⟩
      rw [Raises, handle_openBlob hd]
      exact hr
  simp only [hopen]

theorem hideOpenTag_eq_error {r : Except Exc B} {x : Exc} (hx : x.Escapes) :
    hideOpenTag r = .error x ↔ r = .error x ∧ x ≠ .invalidTag := by
  unfold hideOpenTag
  split
  · constructor
    · intro h
      exact absurd (Except.error.inj h ▸ hx) (escapes_appError _ _ _)
    · rintro ⟨h, hne⟩
      exact absurd (Except.error.inj h).symm hne
  · rename_i hne
    exact ⟨fun h => ⟨h, fun htag => hne (htag ▸ h)⟩, fun h => h.1⟩

omit [DecidableEq T] in
theorem decrypt_escapes {key nonce ciphertext aad : B}
    (hlen : 8 ≤ P.len nonce ∧ P.len nonce ≤ 128) :
    (∃ x, decrypt P key nonce ciphertext aad = .error x ∧ x.Escapes ∧ x ≠ .invalidTag) ↔
      aesKeyOk P key = false := by
  have hbad : ¬ (P.len nonce < 8 ∨ 128 < P.len nonce) := by omega
  unfold decrypt
  rcases aesKeyOk P key with _ | _
  · simp
  · rcases P.aesgcm.decrypt key nonce ciphertext aad with _ | p
    · simp [hbad]
    · simp [hbad]

omit [DecidableEq T] in
theorem material_ne_invalidTag {db : Database T} {key : TransitKey T} {version : Option Nat} :
    db.material P d key version ≠ .error .invalidTag := by
  have hhide : ∀ r : Except Exc B, hideTag r ≠ .error .invalidTag := by
    intro r
    unfold hideTag
    split
    · rintro ⟨⟩
    · assumption
  unfold Database.material
  dsimp only
  split
  · split_ifs
    · rintro ⟨⟩
    · rintro ⟨⟩
    · exact hhide _
  · exact hhide _

omit [DecidableEq T] in
/-- Of `decrypt`, what escapes from `_material` does, and a key that is no AES key. -/
theorem openBlob_escapes {db : Database T} {key : TransitKey T} {version : Nat} {blob : B}
    (hlen : P.len (P.take 12 blob) = 12) :
    (∃ x, hideOpenTag (db.openBlob P d key email name version blob) = .error x ∧ x.Escapes) ↔
      (∃ x, db.material P d key (some version) = .error x ∧ x.Escapes) ∨
        ∃ m, db.material P d key (some version) = .ok m ∧ aesKeyOk P m = false := by
  have hrange : 8 ≤ P.len (P.take 12 blob) ∧ P.len (P.take 12 blob) ≤ 128 := by omega
  have htag : db.material P d key (some version) ≠ .error .invalidTag := material_ne_invalidTag
  unfold Database.openBlob
  rcases hm : db.material P d key (some version) with x | m
  · simp only [Except.error.injEq, reduceCtorEq, false_and, exists_false, or_false]
    constructor
    · rintro ⟨y, hy, hesc⟩
      exact ⟨y, Except.error.inj ((hideOpenTag_eq_error hesc).1 hy).1, hesc⟩
    · rintro ⟨y, rfl, hesc⟩
      refine ⟨x, (hideOpenTag_eq_error hesc).2 ⟨rfl, ?_⟩, hesc⟩
      rintro rfl
      exact htag hm
  · simp only [reduceCtorEq, false_and, exists_false, false_or, Except.ok.injEq, exists_eq_left']
    show (∃ x, hideOpenTag (decrypt P m _ _ _) = .error x ∧ x.Escapes) ↔ _
    rw [← decrypt_escapes hrange]
    constructor
    · rintro ⟨x, hx, hesc⟩
      obtain ⟨h, hne⟩ := (hideOpenTag_eq_error hesc).1 hx
      exact ⟨x, h, hesc, hne⟩
    · rintro ⟨x, h, hesc, hne⟩
      exact ⟨x, (hideOpenTag_eq_error hesc).2 ⟨h, hne⟩, hesc⟩

/-- `verify` lets no exception escape. -/
theorem verify_not_escapes {messageB64 signatureB64 : T} {messageType : MessageType}
    {signingAlgorithm : Option T} :
    ¬ Raises Exc.Escapes (TransitService.verify email name messageB64 messageType signatureB64
      signingAlgorithm) e s := by
  unfold TransitService.verify
  simp only [raises_find_bind, find_not_escapes, raises_b64d_bind, raises_ite, raises_raise_bind,
    raises_pure, escapes_appError, and_false, exists_false, or_false, not_false_eq_true]

theorem sign_escapes {messageB64 : T} {messageType : MessageType} (hd : s.dek = some d) :
    Raises Exc.Escapes (TransitService.sign email name messageB64 messageType) e s ↔
      ∃ key message, FindReady s email name (some .signVerify) key ∧
        P.b64decode messageB64 = some message ∧
        (messageType = .digest → P.len message = 32) ∧
        ((∃ x, s.db.material P d key none = .error x ∧ x.Escapes) ∨
          ∃ m, s.db.material P d key none = .ok m ∧ P.len m ≠ 32) := by
  unfold TransitService.sign
  simp only [raises_find_bind, find_not_escapes, false_or, raises_b64d_bind, raises_ite,
    raises_raise_bind, raises_material_bind hd, raises_pure, escapes_appError, and_false,
    escapes_valueError, and_true, or_false, not_and, ne_eq, not_not]
  constructor
  · rintro ⟨key, hkey, message, hmessage, hlen, h⟩
    exact ⟨key, message, hkey, hmessage, hlen, h⟩
  · rintro ⟨key, message, hkey, hmessage, hlen, h⟩
    exact ⟨key, hkey, message, hmessage, hlen, h⟩

end Transit

/-! ## KV -/

section Kv

variable {E : Exc → Prop} {e : Env P} {s : Proc T B} {d : B} {path email : T}

/-- What the `try` block of `read` raises is caught, or an `AppError`. -/
theorem openSecret_caught (hJ : P.JsonRaises) {nonceB64 textB64 : T} {x : Exc}
    (h : KVService.openSecret P d nonceB64 textB64 path = .error x) :
    (x = .invalidTag ∨ x.isValueError = true) ∨ ¬ x.Escapes := by
  have happ : ∀ {value : T}, b64d P value = .error x → ¬ x.Escapes := fun h => by
    rw [(b64d_error_iff.1 h).2]
    exact escapes_appError _ _ _
  rcases except_bind_eq_error.1 h with h | ⟨n, -, h⟩
  · exact .inr (happ h)
  rcases except_bind_eq_error.1 h with h | ⟨c, -, h⟩
  · exact .inr (happ h)
  rcases except_bind_eq_error.1 h with h | ⟨raw, -, h⟩
  · refine .inl ?_
    unfold decrypt at h
    split_ifs at h
    · exact .inr (Except.error.inj h ▸ rfl)
    · split at h
      · cases h
      · exact .inl (Except.error.inj h).symm
    · exact .inr (Except.error.inj h ▸ rfl)
  · exact .inl (.inr (hJ.loads raw x h))

theorem hideUnreadable_not_escapes (hJ : P.JsonRaises) {nonceB64 textB64 : T} {x : Exc}
    (h : hideUnreadable (KVService.openSecret P d nonceB64 textB64 path) = .error x) :
    ¬ x.Escapes := by
  unfold hideUnreadable at h
  split at h
  · rename_i y hy
    split_ifs at h with hcaught
    · exact Except.error.inj h ▸ escapes_appError _ _ _
    · exact Except.error.inj h ▸ (openSecret_caught hJ hy).resolve_left hcaught
  · cases h

/-- Of the version asked for, only one that the driver does not bind escapes. -/
theorem kvAsked_escapes {db : Database T} {item : KVSecret T} {version : Option Int} :
    (∃ x, db.kvAsked item version = .error x ∧ x.Escapes) ↔
      ∃ k : Int, version = some k ∧ 2 ^ 63 ≤ k := by
  have happ : ∀ {code message n}, ¬ ∃ x,
      (.error (appError code message n) : Except Exc (Option (KVSecretVersion T))) = .error x ∧
        x.Escapes := by
    rintro code message n ⟨_, ⟨⟩, h⟩
    exact escapes_appError _ _ _ h
  rcases version with _ | k
  · exact ⟨by rintro ⟨_, ⟨⟩, -⟩, by rintro ⟨_, ⟨⟩, -⟩⟩
  unfold Database.kvAsked
  dsimp only
  by_cases h1 : k < 1
  · rw [if_pos h1]
    refine ⟨fun h => absurd h happ, ?_⟩
    rintro ⟨_, ⟨⟩, hk⟩
    omega
  by_cases h63 : 2 ^ 63 ≤ k.toNat
  · rw [if_neg h1, if_pos h63]
    exact ⟨fun _ => ⟨k, rfl, by omega⟩, fun _ => ⟨_, rfl, rfl⟩⟩
  · rw [if_neg h1, if_neg h63]
    have hk : ¬ ∃ k' : Int, some k = some k' ∧ 2 ^ 63 ≤ k' := by
      rintro ⟨_, ⟨⟩, hk⟩
      omega
    refine ⟨fun h => ?_, fun h => absurd h hk⟩
    split at h
    · exact absurd h happ
    · obtain ⟨_, ⟨⟩, -⟩ := h

variable [DecidableEq T]

theorem read_escapes (hP : P.Checked) (hJ : P.JsonRaises) {version : Option Int} :
    Raises Exc.Escapes (KVService.read path email version) e s ↔
      P.validatePath path email = .ok () ∧ s.dek ≠ none ∧
        (∃ item, s.db.findOwned path email = some item) ∧
          ∃ k : Int, version = some k ∧ 2 ^ 63 ≤ k := by
  rcases hp : P.validatePath path email with x | u
  · rw [Raises, read_of_invalid hp]
    refine ⟨?_, fun h => by cases h.1⟩
    rintro ⟨_, ⟨⟩, h⟩
    exact absurd h (not_escapes_of_isAppError (hP.validatePath _ _ _ hp))
  rcases hd : s.dek with _ | d
  · unfold KVService.read
    simp [raises_ofExcept_bind, raises_requireDek_bind, hp, hd]
  rw [Raises, read_apply hp hd]
  unfold Database.kvRead
  rcases hf : s.db.findOwned path email with _ | item
  · refine ⟨?_, by rintro ⟨-, -, ⟨_, ⟨⟩⟩, -⟩⟩
    rintro ⟨_, ⟨⟩, h⟩
    exact absurd h (escapes_appError _ _ _)
  have hasked : (∃ x, s.db.kvAsked item version = .error x ∧ x.Escapes) ↔ _ := kvAsked_escapes
  simp only [ne_eq, reduceCtorEq, not_false_eq_true, Option.some.injEq, exists_eq', true_and,
    ← hasked]
  rcases hr : s.db.kvAsked item version with x | record
  · simp
  · rcases ho : hideUnreadable (openItem P d item record path) with x | v
    · have hx := hideUnreadable_not_escapes hJ ho
      simp [ho, hx]
    · simp [ho]

theorem versions_not_escapes (hP : P.Checked) :
    ¬ Raises Exc.Escapes (KVService.versions path email) e s := by
  rcases hp : P.validatePath path email with x | u
  · have hx := not_escapes_of_isAppError (hP.validatePath _ _ _ hp)
    simp [KVService.versions, raises_ofExcept_bind, hp, hx]
  rcases hd : s.dek with _ | d
  · simp [KVService.versions, raises_ofExcept_bind, raises_requireDek_bind, hp, hd]
  rw [Raises, versions_apply hp hd]
  unfold Database.kvVersions
  rcases s.db.findOwned path email with _ | item
  · rintro ⟨_, ⟨⟩, h⟩
    exact escapes_appError _ _ _ h
  · dsimp only
    split_ifs
    · rintro ⟨_, ⟨⟩, -⟩
    · rintro ⟨_, ⟨⟩, -⟩

theorem delete_not_escapes (hP : P.Checked) :
    ¬ Raises Exc.Escapes (KVService.delete path email : Py P Unit) e s := by
  rcases hp : P.validatePath path email with x | u
  · have hx := not_escapes_of_isAppError (hP.validatePath _ _ _ hp)
    simp [KVService.delete, raises_ofExcept_bind, hp, hx]
  · unfold KVService.delete
    simp only [raises_ofExcept_bind, raises_requireDek_bind, hp, raises_query_bind]
    rcases s.db.findOwned path email with _ | item
    · simp
    · simp

theorem list_not_escapes : ¬ Raises Exc.Escapes (KVService.list email : Py P _) e s := by
  rcases hd : s.dek with _ | d
  · simp [KVService.list, raises_requireDek_bind, hd]
  · rw [Raises, list_apply hd]
    rintro ⟨_, ⟨⟩, -⟩

/-- Of `write`, a value that cannot be written escapes, a data key that is no AES key, and a
    version number that the driver does not bind. -/
theorem write_escapes (hP : P.Checked) (hJ : P.JsonRaises) {data : J} :
    Raises Exc.Escapes (KVService.write path email data) e s ↔
      P.validatePath path email = .ok () ∧ ∃ d, s.dek = some d ∧
        ((∃ x, P.dumps data = .error x) ∨ ∃ raw, P.dumps data = .ok raw ∧ P.len raw ≤ 1048576 ∧
          (aesKeyOk P d = false ∨ ∃ item, s.db.findPath path = some item ∧
            2 ^ 63 ≤ s.db.nextKvVersion item.id)) := by
  rcases hp : P.validatePath path email with x | u
  · have hx := not_escapes_of_isAppError (hP.validatePath _ _ _ hp)
    simp [KVService.write, raises_ofExcept_bind, hp, hx]
  rcases hd : s.dek with _ | d
  · simp [KVService.write, raises_ofExcept_bind, raises_requireDek_bind, hp, hd]
  rcases hj : P.dumps data with x | raw
  · have hx := hJ.dumps _ _ hj
    simp [KVService.write, raises_ofExcept_bind, raises_requireDek_bind, hp, hd, hj, hx]
  by_cases hs : 1048576 < P.len raw
  · simp [KVService.write, raises_ofExcept_bind, raises_requireDek_bind, hp, hd, hj, hs]
  rcases hk : aesKeyOk P d with _ | _
  · have hwrite : KVService.write path email data e s = (.error .valueError, s) := by
      simp [KVService.write, hp, requireDek_of_some hd, hj, hs, encrypt_of_not_key hk]
    rw [Raises, hwrite]
    exact ⟨fun _ => ⟨rfl, d, rfl, .inr ⟨raw, rfl, Nat.not_lt.1 hs, .inl hk⟩⟩,
      fun _ => ⟨_, rfl, rfl⟩⟩
  have hready : WriteReady P s path email data d raw := ⟨hp, hd, hj, Nat.not_lt.1 hs, hk⟩
  rcases hf : s.db.findPath path with _ | item
  · rw [Raises, write_create hready e hf]
    simp [hk]
  by_cases hv : s.db.nextKvVersion item.id < 2 ^ 63
  · rw [Raises, write_update hready e hf hv]
    refine ⟨by rintro ⟨_, ⟨⟩, -⟩, ?_⟩
    rintro ⟨-, _, ⟨⟩, ⟨x, ⟨⟩⟩ | ⟨_, ⟨⟩, -, hbad | ⟨_, ⟨⟩, hle⟩⟩⟩
    · exact absurd (hk.symm.trans hbad) (by decide)
    · exact absurd hle (Nat.not_le.2 hv)
  · obtain ⟨db, hdb⟩ := write_overflow hready e hf hv
    rw [Raises, hdb]
    exact ⟨fun _ => ⟨rfl, d, rfl, .inr ⟨raw, rfl, Nat.not_lt.1 hs, .inr ⟨item, rfl,
      Nat.not_lt.1 hv⟩⟩⟩, fun _ => ⟨_, rfl, rfl⟩⟩

end Kv

/-! ## Calls -/

section Calls

variable [DecidableEq T] {α : Type} {E : Exc → Prop} {e : Env P} {w : World T B} {c : Call T J}
  {m : Py P α} {f : α → Data T J}

/-- The call returns its result or raises an `AppError`. -/
def World.Handles (w : World T B) (i : Env P × Call T J) : Prop :=
  (∃ d, (w.call i).1 = .ok d) ∨ ∃ err, (w.call i).1 = .error (.app err)

theorem call_fst (hrun : c.run = m >>= fun a => pure (f a)) :
    (w.call (e, c)).1 = (m e w.session).1.map f :=
  congrArg Prod.fst (call_eq hrun rfl)

theorem not_raises_call (hrun : c.run = m >>= fun a => pure (f a)) :
    ¬ Raises E m e w.session ↔
      (∃ a, (w.call (e, c)).1 = .ok (f a)) ∨ ∃ x, (w.call (e, c)).1 = .error x ∧ ¬ E x := by
  rw [not_raises, call_fst hrun]
  rcases (m e w.session).1 with x | a
  · simp [Except.map]
  · simp only [Except.ok.injEq, exists_eq', reduceCtorEq, false_and, exists_false, or_false,
      true_iff]
    exact .inl ⟨a, rfl⟩

theorem handles_iff (hrun : c.run = m >>= fun a => pure (f a)) :
    w.Handles (e, c) ↔ ¬ Raises Exc.Escapes m e w.session := by
  unfold World.Handles
  rw [not_raises_call hrun, call_fst hrun]
  rcases (m e w.session).1 with x | a
  · simp [Except.map, not_escapes]
  · simp [Except.map]

end Calls

end MiniVault
