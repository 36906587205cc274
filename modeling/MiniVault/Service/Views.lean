/-
  Specifications of the operations that only read: what they answer, and that the session is
  left as it was.
-/
import MiniVault.Service.Material

namespace MiniVault

open Kit Imp

variable {T B J : Type} {P : Prims T B J}

/-! ## KV -/

/-- The version row `read` takes the ciphertext from; the item's own row where there is none. -/
def Database.kvAsked (db : Database T) (item : KVSecret T) :
    Option Int → Except Exc (Option (KVSecretVersion T))
  | some k =>
    if k < 1 then .error (appError .validationError "Invalid version" 422)
    else if 2 ^ 63 ≤ k.toNat then .error .overflowError
    else
      match db.kvSecretVersions.find? fun v => v.kvSecretId = item.id ∧ v.version = k.toNat with
      | none => .error (appError .notFound "Secret version not found" 404)
      | some v => .ok (some v)
  | none => .ok (db.currentKvVersion item.id)

/-- The decryption of a version row, or of the item's row where there is none. -/
def openItem (P : Prims T B J) (dek : B) (item : KVSecret T) (record : Option (KVSecretVersion T))
    (path : T) : Except Exc J :=
  KVService.openSecret P dek ((record.map (·.nonceB64)).getD item.nonceB64)
    ((record.map (·.ciphertextB64)).getD item.ciphertextB64) path

/-- `except (InvalidTag, ValueError, json.JSONDecodeError)` of `read`. -/
def hideUnreadable (r : Except Exc J) : Except Exc J :=
  match r with
  | .error x =>
    if x = .invalidTag ∨ x.isValueError then
      .error (appError .decryptionFailed "Secret could not be decrypted" 400)
    else .error x
  | .ok v => .ok v

theorem hideUnreadable_eq_ok {r : Except Exc J} {v : J} : hideUnreadable r = .ok v ↔ r = .ok v := by
  unfold hideUnreadable
  rcases r with x | u
  · by_cases hx : x = .invalidTag ∨ x.isValueError = true
    · simp [hx]
    · simp [hx]
  · rfl

/-- The `try` block of `read` and its handler. -/
theorem handle_openItem (dek : B) (item : KVSecret T) (record : Option (KVSecretVersion T))
    (path : T) (e : Env P) (s : Proc T B) :
    handle (ofExcept (openItem P dek item record path)) (fun x =>
      if x = .invalidTag ∨ x.isValueError then
        raise (appError .decryptionFailed "Secret could not be decrypted" 400)
      else raise x) e s = (hideUnreadable (openItem P dek item record path), s) := by
  rcases openItem P dek item record path with x | v
  · by_cases hx : x = .invalidTag ∨ x.isValueError = true
    · simp [hideUnreadable, hx]
    · simp [hideUnreadable, hx]
  · simp [hideUnreadable]

variable [DecidableEq T]

/-- What `read` returns or raises, for a valid path and an unlocked vault. -/
def Database.kvRead (P : Prims T B J) (db : Database T) (dek : B) (path email : T)
    (version : Option Int) : Except Exc (KVValue T J) :=
  match db.findOwned path email with
  | none => .error (appError .notFound "Secret not found" 404)
  | some item =>
    match db.kvAsked item version with
    | .error x => .error x
    | .ok record =>
      match hideUnreadable (openItem P dek item record path) with
      | .error x => .error x
      | .ok value => .ok ⟨path, (record.map (·.version)).getD 1, value⟩

/-- A read that goes through found an item and a version, and opened it. -/
theorem kvRead_eq_ok {db : Database T} {dek : B} {path email : T} {version : Option Int}
    {v : KVValue T J} (h : db.kvRead P dek path email version = .ok v) :
    ∃ item record, db.findOwned path email = some item ∧ db.kvAsked item version = .ok record ∧
      v.path = path ∧ v.version = (record.map (·.version)).getD 1 ∧
      openItem P dek item record path = .ok v.value := by
  unfold Database.kvRead at h
  rcases hf : db.findOwned path email with _ | item
  · simp only [hf] at h
    cases h
  rcases hr : db.kvAsked item version with x | record
  · simp only [hf, hr] at h
    cases h
  rcases ho : hideUnreadable (openItem P dek item record path) with x | value
  · simp only [hf, hr, ho] at h
    cases h
  · simp only [hf, hr, ho, Except.ok.injEq] at h
    subst h
    exact ⟨item, record, rfl, hr, rfl, rfl, hideUnreadable_eq_ok.1 ho⟩

/-- What `versions` returns or raises, for a valid path and an unlocked vault. -/
def Database.kvVersions (P : Prims T B J) (db : Database T) (path email : T) :
    Except Exc (List (KVVersion T)) :=
  match db.findOwned path email with
  | none => .error (appError .notFound "Secret not found" 404)
  | some item =>
    let rows := (db.versionsOf item.id).insertionSort fun a b => a.version ≤ b.version
    if rows.isEmpty then
      .ok [{ version := 1, createdAt := P.isoformat false item.createdAt }]
    else
      .ok (rows.map fun v =>
        { version := v.version, createdAt := P.isoformat false v.createdAt })

/-- What `list` returns, for an unlocked vault. -/
def Database.kvList (P : Prims T B J) (db : Database T) (email : T) : List (KVListed T) :=
  ((db.kvSecrets.filter (·.ownerEmail = email)).insertionSort fun a b => P.le a.path b.path).map
    fun r => { path := r.path
               currentVersion := ((db.currentKvVersion r.id).map (·.version)).getD 1
               createdAt := P.isoformat false r.createdAt
               updatedAt := P.isoformat false r.updatedAt }

section Kv

variable {path email : T} {s : Proc T B} {dek : B}

theorem read_apply (hp : P.validatePath path email = .ok ()) (hd : s.dek = some dek)
    (version : Option Int) (e : Env P) :
    KVService.read path email version e s = (s.db.kvRead P dek path email version, s) := by
  have hm := fun item record => handle_openItem dek item record path e s
  unfold openItem at hm
  unfold KVService.read Database.kvRead
  simp only [bind_apply, ofExcept_apply, hp, requireDek_of_some hd, query_apply]
  rcases s.db.findOwned path email with _ | item
  · simp
  rcases version with _ | k
  · simp only [bind_apply, query_apply, hm, Database.kvAsked, openItem]
    rcases hideUnreadable _ with x | v
    · rfl
    · rfl
  · unfold Database.kvAsked
    by_cases hk : k < 1
    · simp [hk]
    by_cases hb : 2 ^ 63 ≤ k.toNat
    · have hb' : bindInteger k.toNat = .error .overflowError := if_pos hb
      simp only [hk, if_pos hb, hb', ite_run, if_false, bind_apply, ofExcept_apply]
    · have hb' : bindInteger k.toNat = .ok () := if_neg hb
      simp only [hk, hb, hb', ite_run, if_false, bind_apply, ofExcept_apply, query_apply]
      rcases s.db.kvSecretVersions.find? _ with _ | v
      · simp
      · simp only [bind_apply, pure_apply, hm, openItem]
        rcases hideUnreadable _ with x | v
        · rfl
        · rfl

theorem versions_apply (hp : P.validatePath path email = .ok ()) (hd : s.dek = some dek)
    (e : Env P) : KVService.versions path email e s = (s.db.kvVersions P path email, s) := by
  unfold KVService.versions Database.kvVersions
  simp only [bind_apply, ofExcept_apply, hp, requireDek_of_some hd, query_apply]
  rcases s.db.findOwned path email with _ | item
  · simp
  · simp only [bind_apply, query_apply, ite_run, pure_apply]
    split <;> rfl

theorem list_apply (hd : s.dek = some dek) (e : Env P) :
    KVService.list email e s = (.ok (s.db.kvList P email), s) := by
  simp [KVService.list, requireDek_of_some hd, Database.kvList]

end Kv

/-- `read` and `versions` check the path and the lock before all else. -/
theorem kvView_cases (path email : T) (e : Env P) (s : Proc T B) :
    ((∀ version, ∃ x, KVService.read path email version e s = (.error x, s)) ∧
        ∃ x, KVService.versions path email e s = (.error x, s)) ∨
      ∃ dek, P.validatePath path email = .ok () ∧ s.dek = some dek := by
  unfold KVService.read KVService.versions
  rcases hp : P.validatePath path email with x | _
  · left; simp
  rcases hd : s.dek with _ | dek
  · left; simp [requireDek_of_none hd]
  · exact .inr ⟨dek, rfl, rfl⟩

theorem read_of_invalid {path email : T} {x : Exc} (hp : P.validatePath path email = .error x)
    (version : Option Int) (e : Env P) (s : Proc T B) :
    KVService.read path email version e s = (.error x, s) := by
  simp [KVService.read, hp]

theorem read_state (path email : T) (version : Option Int) (e : Env P) (s : Proc T B) :
    (KVService.read path email version e s).2 = s := by
  rcases kvView_cases path email e s with ⟨h, -⟩ | ⟨dek, hp, hd⟩
  · obtain ⟨x, hx⟩ := h version
    rw [hx]
  · rw [read_apply hp hd]

theorem versions_state (path email : T) (e : Env P) (s : Proc T B) :
    (KVService.versions path email e s).2 = s := by
  rcases kvView_cases path email e s with ⟨-, x, hx⟩ | ⟨dek, hp, hd⟩
  · rw [hx]
  · rw [versions_apply hp hd]

theorem list_state (email : T) (e : Env P) (s : Proc T B) : (KVService.list email e s).2 = s := by
  rcases hd : s.dek with _ | dek
  · simp [KVService.list, requireDek_of_none hd]
  · rw [list_apply hd]

/-! ## Transit -/

/-- What `list` returns, for an unlocked vault. -/
def Database.keyList (P : Prims T B J) (db : Database T) (email : T) : List (KeyMetadata T) :=
  (db.transitKeys.filter fun k => k.ownerEmail = email ∧ k.revokedAt = none).map fun k =>
    TransitService.metadata P false k (db.currentKeyNumber k.id)

theorem keyList_apply {s : Proc T B} {dek : B} (hd : s.dek = some dek) (email : T) (e : Env P) :
    TransitService.list email e s = (.ok (s.db.keyList P email), s) := by
  simp [TransitService.list, requireDek_of_some hd, Database.keyList]

theorem keyList_state (email : T) (e : Env P) (s : Proc T B) :
    (TransitService.list email e s).2 = s := by
  rcases hd : s.dek with _ | dek
  · simp [TransitService.list, requireDek_of_none hd]
  · rw [keyList_apply hd]

theorem keyGet_of_ready {s : Proc T B} {email name : T} {key : TransitKey T}
    (h : FindReady s email name none key) (e : Env P) :
    TransitService.get email name e s =
      (.ok (TransitService.metadata P false key (s.db.currentKeyNumber key.id)), s) := by
  simp [TransitService.get, find_of_ready h]

theorem keyGet_state (email name : T) (e : Env P) (s : Proc T B) :
    (TransitService.get email name e s).2 = s := by
  rcases find_cases email name none e s with ⟨x, hx⟩ | ⟨key, h⟩
  · simp [TransitService.get, hx]
  · rw [keyGet_of_ready h]

theorem transitDecrypt_state (email ciphertext : T) (e : Env P) (s : Proc T B) :
    (TransitService.decrypt email ciphertext e s).2 = s := by
  rcases transitDecrypt_cases email ciphertext e s with ⟨x, hx⟩ | ⟨⟨h⟩⟩
  · rw [hx]
  · rw [transitDecrypt_of_ready h]

/-- A `sign` call that goes through, with the values it computes on the way. -/
structure SignReady (P : Prims T B J) (s : Proc T B) (email name messageB64 : T)
    (messageType : MessageType) where
  key : TransitKey T
  message : B
  dek : B
  material : B
  ready : FindReady s email name (some .signVerify) key
  decoded : P.b64decode messageB64 = some message
  length : messageType = .digest → P.len message = 32
  unlocked : s.dek = some dek
  opened : s.db.material P dek key none = .ok material
  size : P.len material = 32

theorem sign_of_ready {s : Proc T B} {email name messageB64 : T} {messageType : MessageType}
    (h : SignReady P s email name messageB64 messageType) (e : Env P) :
    TransitService.sign email name messageB64 messageType e s =
      (.ok ⟨name, P.b64encode (P.sign h.material h.message), P.lit "ED25519"⟩, s) := by
  have hraw : b64d P messageB64 = .ok h.message := by rw [b64d, h.decoded]
  have hlen : ¬ (messageType = .digest ∧ P.len h.message ≠ 32) := fun hd => hd.2 (h.length hd.1)
  simp [TransitService.sign, find_of_ready h.ready e, hraw, hlen, material_apply h.unlocked,
    h.opened, h.size]

theorem sign_cases (email name messageB64 : T) (messageType : MessageType) (e : Env P)
    (s : Proc T B) :
    (∃ x, TransitService.sign email name messageB64 messageType e s = (.error x, s)) ∨
      Nonempty (SignReady P s email name messageB64 messageType) := by
  unfold TransitService.sign
  rcases find_cases email name (some .signVerify) e s with ⟨x, hx⟩ | ⟨key, h⟩
  · left; simp [hx]
  rcases hb : P.b64decode messageB64 with _ | message
  · left; simp [find_of_ready h, b64d, hb]
  by_cases hl : messageType = .digest ∧ P.len message ≠ 32
  · left; simp [find_of_ready h, b64d, hb, hl]
  obtain ⟨dek, hdek⟩ := h.unlocked
  rcases hm : s.db.material P dek key none with x | m
  · left; simp [find_of_ready h, b64d, hb, hl, material_apply hdek, hm]
  by_cases h32 : P.len m = 32
  · exact .inr ⟨⟨key, message, dek, m, h, hb, fun hd => by_contra fun hne => hl ⟨hd, hne⟩, hdek, hm,
      h32⟩⟩
  · left; simp [find_of_ready h, b64d, hb, hl, material_apply hdek, hm, h32]

theorem sign_state (email name messageB64 : T) (messageType : MessageType) (e : Env P)
    (s : Proc T B) : (TransitService.sign email name messageB64 messageType e s).2 = s := by
  rcases sign_cases email name messageB64 messageType e s with ⟨x, hx⟩ | ⟨⟨h⟩⟩
  · rw [hx]
  · rw [sign_of_ready h]

/-- A `verify` call that comes to the signature. -/
structure VerifyReady (P : Prims T B J) (s : Proc T B) (email name messageB64 : T)
    (messageType : MessageType) (signingAlgorithm : Option T) where
  key : TransitKey T
  message : B
  ready : FindReady s email name (some .signVerify) key
  decoded : P.b64decode messageB64 = some message
  algorithm : ∀ a, signingAlgorithm = some a → P.truthy a = true → a = key.algorithm
  length : messageType = .digest → P.len message = 32

theorem verify_of_ready {s : Proc T B} {email name messageB64 : T} {messageType : MessageType}
    {signingAlgorithm : Option T}
    (h : VerifyReady P s email name messageB64 messageType signingAlgorithm) (signatureB64 : T)
    (e : Env P) :
    TransitService.verify email name messageB64 messageType signatureB64 signingAlgorithm e s =
      (.ok ⟨name, TransitService.checkSignature P (h.key.publicKeyB64.getD (P.lit "")) signatureB64
        h.message, P.lit "ED25519"⟩, s) := by
  have hraw : b64d P messageB64 = .ok h.message := by rw [b64d, h.decoded]
  have hlen : ¬ (messageType = .digest ∧ P.len h.message ≠ 32) := fun hd => hd.2 (h.length hd.1)
  have halgorithm : ¬ (signingAlgorithm.any fun a => P.truthy a ∧ a ≠ h.key.algorithm) = true := by
    rcases signingAlgorithm with _ | a
    · simp
    · intro hany
      simp only [Option.any_some, decide_eq_true_eq] at hany
      exact hany.2 (h.algorithm a rfl hany.1)
  simp only [TransitService.verify, bind_apply, find_of_ready h.ready e, ofExcept_apply, hraw,
    ite_run, if_neg halgorithm, if_neg hlen, pure_apply]

theorem verify_cases (email name messageB64 : T) (messageType : MessageType) (signatureB64 : T)
    (signingAlgorithm : Option T) (e : Env P) (s : Proc T B) :
    (∃ x, TransitService.verify email name messageB64 messageType signatureB64 signingAlgorithm
        e s = (.error x, s)) ∨
      Nonempty (VerifyReady P s email name messageB64 messageType signingAlgorithm) := by
  unfold TransitService.verify
  rcases find_cases email name (some .signVerify) e s with ⟨x, hx⟩ | ⟨key, h⟩
  · left; simp [hx]
  rcases hb : P.b64decode messageB64 with _ | message
  · left; simp [find_of_ready h, b64d, hb]
  by_cases ha : signingAlgorithm.any fun a => P.truthy a ∧ a ≠ key.algorithm
  · left
    simp only [bind_apply, find_of_ready h, ofExcept_apply, b64d, hb, if_pos ha, raise_apply]
    exact ⟨_, rfl⟩
  by_cases hl : messageType = .digest ∧ P.len message ≠ 32
  · left
    simp only [bind_apply, find_of_ready h, ofExcept_apply, b64d, hb, ite_run, if_neg ha,
      if_pos hl, raise_apply]
    exact ⟨_, rfl⟩
  · refine .inr ⟨⟨key, message, h, hb, ?_, fun hd => by_contra fun hne => hl ⟨hd, hne⟩⟩⟩
    rintro a rfl htruthy
    by_contra hne
    exact ha (by simp [htruthy, hne])

theorem verify_state (email name messageB64 : T) (messageType : MessageType) (signatureB64 : T)
    (signingAlgorithm : Option T) (e : Env P) (s : Proc T B) :
    (TransitService.verify email name messageB64 messageType signatureB64 signingAlgorithm e s).2 =
      s := by
  rcases verify_cases email name messageB64 messageType signatureB64 signingAlgorithm e s with
    ⟨x, hx⟩ | ⟨⟨h⟩⟩
  · rw [hx]
  · rw [verify_of_ready h]

end MiniVault
