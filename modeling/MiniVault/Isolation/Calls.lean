/-
  Calls on two databases that the observer cannot tell apart. A call on what the observer sees
  returns or raises the same on both and leaves databases that are again alike. A call on what is
  hidden leaves its database as the observer sees it.
-/
import MiniVault.Isolation.Answers

namespace MiniVault

open Kit Imp

variable {T B J : Type} {P : Prims T B J}

/-! ## What a call is about -/

/-- The transit key a call names: its owner and its name. -/
def Call.key? (P : Prims T B J) : Call T J → Option (T × T)
  | .createAes email name => some (email, name)
  | .createSigning email name => some (email, name)
  | .keyGet email name => some (email, name)
  | .revoke email name => some (email, name)
  | .rotate email name => some (email, name)
  | .encrypt email name _ => some (email, name)
  | .decrypt email ciphertext =>
    match P.readEnvelope ciphertext with
    | .ok (_, name, _) => some (email, name)
    | .error _ => none
  | .sign email name _ _ => some (email, name)
  | .verify email name _ _ _ _ => some (email, name)
  | _ => none

theorem Call.key?_decrypt (email ciphertext : T) :
    (Call.decrypt email ciphertext : Call T J).key? P =
      match P.readEnvelope ciphertext with
      | .ok (_, name, _) => some (email, name)
      | .error _ => none := rfl

/-- The user whose KV items a call works on. -/
def Call.kvOwner? : Call T J → Option T
  | .kvWrite _ email _ => some email
  | .kvRead _ email _ => some email
  | .kvVersions _ email => some email
  | .kvDelete _ email => some email
  | .kvList email => some email
  | _ => none

/-- A call that names a key is made for its owner and works on no KV item. -/
theorem Call.of_key {c : Call T J} {email name : T} (h : c.key? P = some (email, name)) :
    c.email? = some email ∧ c.kvOwner? = none := by
  cases c with
  | decrypt email' ciphertext =>
    rw [Call.key?_decrypt] at h
    rcases hread : P.readEnvelope ciphertext with x | ⟨version, name', blobB64⟩
    · rw [hread] at h
      cases h
    · rw [hread] at h
      cases h
      exact ⟨rfl, rfl⟩
  | _ => cases h <;> exact ⟨rfl, rfl⟩

/-- A call on what the observer may see. -/
structure Call.Visible (P : Prims T B J) (S : Scope T) (c : Call T J) : Prop where
  users : ∀ email, c.kvOwner? = some email → S.users email = true
  keys : ∀ email name, c.key? P = some (email, name) → S.keys email name = true

/-- A call for some user that works on hidden items and keys only. -/
structure Call.Hidden (P : Prims T B J) (S : Scope T) (c : Call T J) : Prop where
  user : ∃ email, c.email? = some email
  users : ∀ email, c.kvOwner? = some email → S.users email = false
  keys : ∀ email name, c.key? P = some (email, name) → S.keys email name = false

theorem Call.hidden_of_key {S : Scope T} {c : Call T J} {email name : T}
    (h : c.key? P = some (email, name)) (hhidden : S.keys email name = false) :
    c.Hidden P S := by
  obtain ⟨hemail, howner⟩ := Call.of_key h
  refine ⟨⟨email, hemail⟩, fun owner ho => ?_, fun owner name' hk => ?_⟩
  · rw [howner] at ho
    cases ho
  · rw [h] at hk
    cases hk
    exact hhidden

/-- A listing of keys without the hidden ones; any other answer as it is. -/
def Call.hide (S : Scope T) : Call T J → Except Exc (Data T J) → Except Exc (Data T J)
  | .keyList email, .ok (.keys ms) => .ok (.keys (ms.filter fun m => S.keys email m.keyName))
  | _, r => r

/-- Good users who may name the same path are seen together. -/
def Scope.Closed (P : Prims T B J) (good : T → Prop) (S : Scope T) : Prop :=
  ∀ ⦃path e₁ e₂⦄, good e₁ → good e₂ → P.validatePath path e₁ = .ok () →
    P.validatePath path e₂ = .ok () → S.users e₁ = S.users e₂

theorem Prims.OneOwner.closed {good : T → Prop} (h : P.OneOwner good) (S : Scope T) :
    S.Closed P good := fun _ _ _ h₁ h₂ hp₁ hp₂ => by rw [h h₁ h₂ hp₁ hp₂]

/-- Two worlds that the observer cannot tell apart. -/
structure World.Twins (S : Scope T) (w w' : World T B) : Prop where
  dek : w'.dek = w.dek
  alike : w.db.Alike S w'.db

theorem World.Twins.refl {S : Scope T} (w : World T B) : w.Twins S w :=
  ⟨rfl, Database.Alike.refl w.db⟩

theorem World.Twins.symm {S : Scope T} {w w' : World T B} (h : w.Twins S w') : w'.Twins S w :=
  ⟨h.dek.symm, h.alike.symm⟩

theorem World.Twins.trans {S : Scope T} {w w' w'' : World T B} (h : w.Twins S w')
    (h' : w'.Twins S w'') : w.Twins S w'' :=
  ⟨h'.dek.trans h.dek, h.alike.trans h'.alike⟩

variable [DecidableEq T]

/-! ## Hidden calls -/

section Hidden

variable {S : Scope T} {good : T → Prop} {e : Env P} {w w' : World T B} {c : Call T J}
  {r : Except Exc (Data T J)}

/-- **A hidden call leaves what is seen.** -/
theorem Step.hidden (hs : Step e w c r w') (hc : c.Hidden P S) (hshaped : w.db.Shaped P good)
    (hclosed : S.Closed P good) (hgood : ∀ email, c.email? = some email → good email) :
    w.Twins S w' := by
  cases hs with
  | fail => exact .refl w
  | view => exact .refl w
  | vaultInit => exact nomatch hc.user
  | vaultUnlock => exact nomatch hc.user
  | vaultLock => exact nomatch hc.user
  | restart => exact nomatch hc.user
  | kvOverflow => exact ⟨rfl, alike_of_tables rfl rfl rfl rfl rfl⟩
  | kvCreate h hf =>
    refine ⟨rfl, rfl, ?_, rfl⟩
    rw [wrote_db, kvView_kvCreate hshaped.kv, hc.users _ rfl]
    exact List.append_nil _
  | kvUpdate h hf hv =>
    obtain ⟨hitem, hpath⟩ := findPath_eq_some hf
    obtain ⟨hgood', hvalid⟩ := hshaped.kv.owned _ hitem
    rw [hpath] at hvalid
    refine ⟨rfl, rfl, kvView_hidden_update hshaped.kv hitem hpath ?_, rfl⟩
    rw [hclosed hgood' (hgood _ rfl) hvalid h.valid]
    exact hc.users _ rfl
  | kvDelete hp hd hf =>
    obtain ⟨hitem, -, howner⟩ := findOwned_eq_some hf
    refine ⟨rfl, rfl, kvView_hidden_delete hshaped.kv hitem ?_, rfl⟩
    rw [howner]
    exact hc.users _ rfl
  | createAes h =>
    refine ⟨rfl, rfl, rfl, ?_⟩
    rw [wrote_db, keyView_keyCreate hshaped, hc.keys _ _ rfl]
    exact List.append_nil _
  | createSigning h =>
    refine ⟨rfl, rfl, rfl, ?_⟩
    rw [wrote_db, keyView_keyCreate hshaped, hc.keys _ _ rfl]
    exact List.append_nil _
  | revoke h =>
    obtain ⟨hmem, howner, hname⟩ := findKey_eq_some h.found
    refine ⟨rfl, rfl, rfl, ?_⟩
    rw [keyView_keyRevoke hshaped hmem howner hname]
    exact Table.map_eq_self fun x hx => if_neg (key_ne_of_hidden (hc.keys _ _ rfl) x hx)
  | rotateOverflow => exact ⟨rfl, alike_of_tables rfl rfl rfl rfl rfl⟩
  | rotate h =>
    obtain ⟨hmem, howner, hname⟩ := findKey_eq_some h.found
    refine ⟨rfl, rfl, rfl, ?_⟩
    rw [wrote_db, keyView_keyRotate hshaped hmem howner hname]
    exact Table.map_eq_self fun x hx => if_neg (key_ne_of_hidden (hc.keys _ _ rfl) x hx)
  | encrypt => exact ⟨rfl, alike_of_tables rfl rfl rfl rfl rfl⟩

end Hidden

/-! ## Visible operations -/

/-- Two sessions that the observer cannot tell apart. -/
structure Proc.Twins (S : Scope T) (s t : Proc T B) : Prop where
  dek : t.dek = s.dek
  alike : s.db.Alike S t.db

/-- The operation raises the same exception in both sessions and changes neither. -/
def Refuses {α : Type} (m : Py P α) (e : Env P) (s t : Proc T B) : Prop :=
  ∃ x, m e s = (.error x, s) ∧ m e t = (.error x, t)

section Pairs

variable {S : Scope T} {s t : Proc T B} {email name path : T} {e : Env P}

variable (h : s.Twins S t)

include h

omit [DecidableEq T] in
theorem Proc.Twins.locked : (s.dek = none ∧ t.dek = none) ∨
    ∃ dek, s.dek = some dek ∧ t.dek = some dek := by
  rcases hd : s.dek with _ | dek
  · exact .inl ⟨rfl, h.dek.trans hd⟩
  · exact .inr ⟨dek, rfl, h.dek.trans hd⟩

theorem find_pair (hvis : S.keys email name = true) (usage : Option KeyUsage) :
    Refuses (TransitService.find email name usage) e s t ∨
      ∃ k k', FindReady s email name usage k ∧ FindReady t email name usage k' ∧
        s.db.keyEntry k = t.db.keyEntry k' := by
  unfold Refuses TransitService.find
  obtain ⟨hs, ht⟩ | ⟨dek, hs, ht⟩ := h.locked
  · left; simp [requireDek_of_none hs, requireDek_of_none ht]
  obtain ⟨hl, hr⟩ | ⟨k, k', hl, hr, hentry⟩ := h.alike.findKey hvis
  · left; simp [requireDek_of_some hs, requireDek_of_some ht, hl, hr]
  have hrevoked : k'.revokedAt = k.revokedAt := congrArg (·.revokedAt) (keyEntry_key hentry).symm
  have husage : k'.keyUsage = k.keyUsage := congrArg (·.keyUsage) (keyEntry_key hentry).symm
  rcases hk : k.revokedAt with _ | time
  swap
  · left; simp [requireDek_of_some hs, requireDek_of_some ht, hl, hr, hrevoked, hk]
  by_cases hu : usage.any (· ≠ k.keyUsage) = true
  · left
    simp only [bind_apply, requireDek_of_some hs, requireDek_of_some ht, query_apply, hl, hr,
      hrevoked, husage, hk, Option.isSome_none, hu]
    exact ⟨_, rfl, rfl⟩
  · right
    have hany : ∀ u, usage = some u → k.keyUsage = u := by
      rintro u rfl
      by_contra hne
      exact hu (decide_eq_true (Ne.symm hne))
    exact ⟨k, k', ⟨⟨dek, hs⟩, hl, hk, hany⟩, ⟨⟨dek, ht⟩, hr, hrevoked.trans hk, fun u hu' =>
      husage.trans (hany u hu')⟩, hentry⟩

theorem create_pair (hvis : S.keys email name = true) :
    (Refuses (TransitService.createAes email name) e s t ∧
        Refuses (TransitService.createSigning email name) e s t) ∨
      ∃ dek, CreateReady P s email name dek ∧ CreateReady P t email name dek := by
  unfold Refuses TransitService.createAes TransitService.createSigning
  rcases hn : P.validateKeyName name with x | _
  · left; simp
  obtain ⟨hs, ht⟩ | ⟨dek, hs, ht⟩ := h.locked
  · left; simp [requireDek_of_none hs, requireDek_of_none ht]
  obtain ⟨hl, hr⟩ | ⟨k, k', hl, hr, -⟩ := h.alike.findKey hvis
  swap
  · left; simp [requireDek_of_some hs, requireDek_of_some ht, hl, hr]
  rcases hk : aesKeyOk P dek with _ | _
  · left; simp [requireDek_of_some hs, requireDek_of_some ht, hl, hr, encrypt_of_not_key hk]
  · exact .inr ⟨dek, ⟨hn, hs, hl, hk⟩, ⟨hn, ht, hr, hk⟩⟩

theorem rotate_pair (hvis : S.keys email name = true) :
    Refuses (TransitService.rotate email name) e s t ∨
      ∃ k k' dek, FindReady s email name (some .encryptDecrypt) k ∧
        FindReady t email name (some .encryptDecrypt) k' ∧ s.db.keyEntry k = t.db.keyEntry k' ∧
        s.dek = some dek ∧ t.dek = some dek ∧ aesKeyOk P dek = true := by
  unfold Refuses TransitService.rotate
  rcases find_pair h (e := e) hvis (some .encryptDecrypt) with
    ⟨x, hs, ht⟩ | ⟨k, k', hk, hk', hentry⟩
  · left; simp [hs, ht]
  obtain ⟨dek, hd⟩ := hk.unlocked
  have hd' : t.dek = some dek := h.dek.trans hd
  rcases hok : aesKeyOk P dek with _ | _
  · left
    simp [find_of_ready hk, find_of_ready hk', requireDek_of_some hd, requireDek_of_some hd',
      encrypt_of_not_key hok]
  · exact .inr ⟨k, k', dek, hk, hk', hentry, hd, hd', hok⟩

theorem write_pair (data : J) :
    Refuses (KVService.write path email data) e s t ∨
      ∃ dek raw, WriteReady P s path email data dek raw ∧
        WriteReady P t path email data dek raw := by
  unfold Refuses KVService.write
  rcases hp : P.validatePath path email with x | _
  · left; simp
  obtain ⟨hs, ht⟩ | ⟨dek, hs, ht⟩ := h.locked
  · left; simp [requireDek_of_none hs, requireDek_of_none ht]
  rcases hj : P.dumps data with x | raw
  · left; simp [requireDek_of_some hs, requireDek_of_some ht]
  by_cases hl : 1048576 < P.len raw
  · left; simp [requireDek_of_some hs, requireDek_of_some ht, hl]
  rcases hk : aesKeyOk P dek with _ | _
  · left
    simp [requireDek_of_some hs, requireDek_of_some ht, hl, encrypt_of_not_key hk]
  · exact .inr ⟨dek, raw, ⟨hp, hs, hj, Nat.not_lt.1 hl, hk⟩, ⟨hp, ht, hj, Nat.not_lt.1 hl, hk⟩⟩

theorem delete_pair (path : T) (hvis : S.users email = true) :
    Refuses (KVService.delete path email : Py P Unit) e s t ∨
      ∃ item item', s.db.findOwned path email = some item ∧
        t.db.findOwned path email = some item' ∧ s.db.kvEntry item = t.db.kvEntry item' ∧
        KVService.delete path email e s = (.ok (), s.commitTo (s.db.deleteKvSecret item.id)) ∧
        KVService.delete path email e t = (.ok (), t.commitTo (t.db.deleteKvSecret item'.id)) := by
  unfold Refuses KVService.delete
  rcases hp : P.validatePath path email with x | _
  · left; simp
  obtain ⟨hs, ht⟩ | ⟨dek, hs, ht⟩ := h.locked
  · left; simp [requireDek_of_none hs, requireDek_of_none ht]
  obtain ⟨hl, hr⟩ | ⟨item, item', hl, hr, hentry⟩ := h.alike.findOwned path hvis
  · left; simp [requireDek_of_some hs, requireDek_of_some ht, hl, hr]
  · right
    refine ⟨item, item', hl, hr, hentry, ?_, ?_⟩
    · simp [requireDek_of_some hs, hl, Proc.commitTo]
    · simp [requireDek_of_some ht, hr, Proc.commitTo]

theorem init_pair (p c : T) :
    Refuses (VaultService.init p c) e s t ∨
      ∃ x, VaultService.init p c e s = (.ok (),
          { (s.commitTo { s.db with vaultConfig := [newConfig P e p] }).sealing x with
            dek := none }) ∧
        VaultService.init p c e t = (.ok (),
          { (t.commitTo { t.db with vaultConfig := [newConfig P e p] }).sealing x with
            dek := none }) := by
  have hconfig := h.alike.config
  unfold Refuses VaultService.init
  rcases hc : s.db.vaultConfig with _ | ⟨config, configs⟩
  swap
  · rw [hc] at hconfig
    left; simp [hc, hconfig]
  rw [hc] at hconfig
  by_cases hp : p = c
  swap
  · left; simp [hc, hconfig, hp]
  subst hp
  rcases hv : P.validatePassphrase p with x | _
  · left; simp [hc, hconfig]
  rcases hk : aesKeyOk P (P.deriveKey p e.salt P.defaultParams) with _ | _
  · left; simp [hc, hconfig, encrypt_of_not_key hk]
  · right
    refine ⟨⟨P.deriveKey p e.salt P.defaultParams, e.nonce, e.dek, dekAad P⟩, ?_, ?_⟩
    · simp [hc, encrypt_of_key hk, lockState, Proc.commitTo, Proc.sealing, newConfig]
    · simp [hconfig, encrypt_of_key hk, lockState, Proc.commitTo, Proc.sealing, newConfig]

omit [DecidableEq T] in
theorem unlock_pair (p : T) :
    Refuses (VaultService.unlock p) e s t ∨
      ∃ dek, VaultService.unlock p e s = (.ok (), { s with dek := some dek }) ∧
        VaultService.unlock p e t = (.ok (), { t with dek := some dek }) := by
  have hconfig := h.alike.config
  unfold Refuses VaultService.unlock
  rcases hc : s.db.vaultConfig.head? with _ | config
  · left; simp [hconfig, hc]
  rcases hu : VaultService.unwrapDek P config p with x | dek
  · left
    by_cases hx : x = .invalidTag ∨ x.isValueError = true
    · simp [hconfig, hc, hu, hx]
    · simp [hconfig, hc, hu, hx]
  · right
    exact ⟨dek, by simp [hc, hu, unlockState], by simp [hconfig, hc, hu, unlockState]⟩

/-! ## Visible operations that only read -/

theorem keyGet_pair (hvis : S.keys email name = true) :
    (TransitService.get (P := P) email name e s).1 = (TransitService.get email name e t).1 := by
  rcases find_pair h (e := e) hvis none with ⟨x, hs, ht⟩ | ⟨k, k', hk, hk', hentry⟩
  · simp [TransitService.get, hs, ht]
  · rw [keyGet_of_ready hk, keyGet_of_ready hk', currentKeyNumber_pair hentry,
      metadata_pair hentry]

theorem read_pair (hvis : S.users email = true) (version : Option Int) :
    (KVService.read path email version e s : Except Exc (KVValue T J) × _).1 =
      (KVService.read path email version e t).1 := by
  rcases hp : P.validatePath path email with x | _
  · rw [read_of_invalid hp, read_of_invalid hp]
  obtain ⟨hs, ht⟩ | ⟨dek, hs, ht⟩ := h.locked
  · simp [KVService.read, hp, requireDek_of_none hs, requireDek_of_none ht]
  · rw [read_apply hp hs, read_apply hp ht, kvRead_pair h.alike hvis]

theorem versions_pair (hvis : S.users email = true) :
    (KVService.versions path email e s).1 = (KVService.versions path email e t).1 := by
  rcases hp : P.validatePath path email with x | _
  · simp [KVService.versions, hp]
  obtain ⟨hs, ht⟩ | ⟨dek, hs, ht⟩ := h.locked
  · simp [KVService.versions, hp, requireDek_of_none hs, requireDek_of_none ht]
  · rw [versions_apply hp hs, versions_apply hp ht, kvVersions_pair h.alike hvis]

theorem list_pair (hvis : S.users email = true) :
    (KVService.list email e s).1 = (KVService.list email e t).1 := by
  obtain ⟨hs, ht⟩ | ⟨dek, hs, ht⟩ := h.locked
  · simp [KVService.list, requireDek_of_none hs, requireDek_of_none ht]
  · rw [list_apply hs, list_apply ht, kvList_pair h.alike hvis]

omit [DecidableEq T] in
theorem status_pair : (VaultService.status e s).1 = (VaultService.status e t).1 := by
  simp [VaultService.status, h.dek, h.alike.config]

theorem decrypt_pair {ciphertext : T}
    (hvis : ∀ version name blobB64, P.readEnvelope ciphertext = .ok (version, name, blobB64) →
      S.keys email name = true) :
    (TransitService.decrypt email ciphertext e s).1 =
      (TransitService.decrypt email ciphertext e t).1 := by
  unfold TransitService.decrypt
  rcases hp : P.readEnvelope ciphertext with x | ⟨version, name, blobB64⟩
  · simp
  rcases hb : P.b64decode blobB64 with _ | blob
  · simp [b64d, hb]
  by_cases hl : P.len blob < 28
  · simp [b64d, hb, hl]
  rcases find_pair h (e := e) (hvis version name blobB64 hp) (some .encryptDecrypt) with
    ⟨x, hs, ht⟩ | ⟨k, k', hk, hk', hentry⟩
  · simp [b64d, hb, hl, hs, ht]
  obtain ⟨dek, hd⟩ := hk.unlocked
  have hd' : t.dek = some dek := h.dek.trans hd
  have hm := material_pair (P := P) hentry dek (some version)
  simp only [bind_apply, ofExcept_apply, b64d, hb, hl, ite_run, if_false, pure_apply,
    find_of_ready hk, find_of_ready hk', handle_apply, material_apply hd, material_apply hd', hm]
  rcases t.db.material P dek k' (some version) with x | m
  · simp only
    by_cases hx : x = .invalidTag
    · simp [hx]
    · simp [hx]
  · simp only
    rcases decrypt P m _ _ _ with x | raw
    · by_cases hx : x = .invalidTag
      · simp [hx]
      · simp [hx]
    · rfl

theorem sign_pair (hvis : S.keys email name = true) (messageB64 : T) (messageType : MessageType) :
    (TransitService.sign email name messageB64 messageType e s).1 =
      (TransitService.sign email name messageB64 messageType e t).1 := by
  unfold TransitService.sign
  rcases find_pair h (e := e) hvis (some .signVerify) with ⟨x, hs, ht⟩ | ⟨k, k', hk, hk', hentry⟩
  · simp [hs, ht]
  obtain ⟨dek, hd⟩ := hk.unlocked
  have hd' : t.dek = some dek := h.dek.trans hd
  have hm := material_pair (P := P) hentry dek none
  rcases hb : b64d P messageB64 with x | message
  · simp [find_of_ready hk, find_of_ready hk']
  by_cases hl : messageType = .digest ∧ P.len message ≠ 32
  · simp [find_of_ready hk, find_of_ready hk', hl]
  simp only [bind_apply, find_of_ready hk, find_of_ready hk', ofExcept_apply, ite_run, if_neg hl,
    pure_apply, material_apply hd, material_apply hd', hm]
  rcases t.db.material P dek k' none with x | m
  · rfl
  · by_cases h32 : P.len m = 32
    · simp [h32]
    · simp [h32]

theorem verify_pair (hvis : S.keys email name = true) (messageB64 : T) (messageType : MessageType)
    (signatureB64 : T) (signingAlgorithm : Option T) :
    (TransitService.verify email name messageB64 messageType signatureB64 signingAlgorithm e s).1 =
      (TransitService.verify email name messageB64 messageType signatureB64 signingAlgorithm
        e t).1 := by
  unfold TransitService.verify
  rcases find_pair h (e := e) hvis (some .signVerify) with ⟨x, hs, ht⟩ | ⟨k, k', hk, hk', hentry⟩
  · simp [hs, ht]
  have halgorithm : k.algorithm = k'.algorithm := congrArg (·.algorithm) (keyEntry_key hentry)
  have hpublic : k.publicKeyB64 = k'.publicKeyB64 :=
    congrArg (·.publicKeyB64) (keyEntry_key hentry)
  simp only [bind_apply, find_of_ready hk, find_of_ready hk', ofExcept_apply, halgorithm, hpublic]
  rcases hb : b64d P messageB64 with x | message
  · rfl
  simp only [ite_run]
  split
  · rfl
  · split
    · rfl
    · rfl

/-- Encryption records a sealing, which nothing reads, and changes nothing else. -/
theorem encrypt_pair (hvis : S.keys email name = true) (plaintextB64 : T) :
    Refuses (TransitService.encrypt email name plaintextB64) e s t ∨
      ∃ ciphertext x, TransitService.encrypt email name plaintextB64 e s =
          (.ok ciphertext, s.sealing x) ∧
        TransitService.encrypt email name plaintextB64 e t = (.ok ciphertext, t.sealing x) := by
  unfold Refuses TransitService.encrypt
  rcases find_pair h (e := e) hvis (some .encryptDecrypt) with
    ⟨x, hs, ht⟩ | ⟨k, k', hk, hk', hentry⟩
  · left; simp [hs, ht]
  obtain ⟨dek, hd⟩ := hk.unlocked
  have hd' : t.dek = some dek := h.dek.trans hd
  have hn := currentKeyNumber_pair hentry
  rcases hb : P.b64decode plaintextB64 with _ | raw
  · left; simp [find_of_ready hk, find_of_ready hk', b64d, hb]
  by_cases hl : 1048576 < P.len raw
  · left; simp [find_of_ready hk, find_of_ready hk', b64d, hb, hl]
  have hm := material_pair (P := P) hentry dek (some (t.db.currentKeyNumber k'.id))
  rcases hr : t.db.material P dek k' (some (t.db.currentKeyNumber k'.id)) with x | m
  · left
    simp [find_of_ready hk, find_of_ready hk', b64d, hb, hl, material_apply hd, material_apply hd',
      hn, hm, hr]
  rcases hok : aesKeyOk P m with _ | _
  · left
    simp [find_of_ready hk, find_of_ready hk', b64d, hb, hl, material_apply hd, material_apply hd',
      hn, hm, hr, encrypt_of_not_key hok]
  · right
    simp [find_of_ready hk, find_of_ready hk', b64d, hb, hl, material_apply hd, material_apply hd',
      hn, hm, hr, encrypt_of_key hok, Proc.sealing]

end Pairs

/-! ## Visible calls -/

/-- The outcomes of a call that the observer cannot tell apart. -/
def Call.SameSeen (S : Scope T) (c : Call T J) (o o' : Except Exc (Data T J) × World T B) : Prop :=
  c.hide S o.1 = c.hide S o'.1 ∧ o.2.Twins S o'.2

section Visible

variable {S : Scope T} {good : T → Prop} {w w' : World T B} {e : Env P} {c : Call T J}
  {email name path : T}

omit [DecidableEq T] in
theorem World.Twins.session (h : w.Twins S w') : w.session.Twins S w'.session :=
  ⟨h.dek, h.alike⟩

variable (h : w.Twins S w')

include h

theorem sameSeen_of_refuses {α : Type} {m : Py P α} {f : α → Data T J}
    (hrun : c.run = m >>= fun a => pure (f a)) (hm : Refuses m e w.session w'.session) :
    c.SameSeen S (w.call (e, c)) (w'.call (e, c)) := by
  obtain ⟨x, hs, ht⟩ := hm
  rw [call_eq hrun hs, call_eq hrun ht]
  exact ⟨rfl, h⟩

/-- An operation that reads the same on both sides. -/
theorem sameSeen_of_view {α : Type} {m : Py P α} {f : α → Data T J}
    (hrun : c.run = m >>= fun a => pure (f a)) (hm : (m e w.session).1 = (m e w'.session).1)
    (hs : (m e w.session).2 = w.session) (ht : (m e w'.session).2 = w'.session) :
    c.SameSeen S (w.call (e, c)) (w'.call (e, c)) := by
  have hleft : m e w.session = ((m e w'.session).1, w.session) := Prod.ext hm hs
  have hright : m e w'.session = ((m e w'.session).1, w'.session) := Prod.ext rfl ht
  rw [call_eq hrun hleft, call_eq hrun hright]
  exact ⟨rfl, h⟩

theorem keyList_sameSeen (email : T) :
    (Call.keyList email : Call T J).SameSeen S (w.call (e, .keyList email))
      (w'.call (e, .keyList email)) := by
  obtain ⟨hs, ht⟩ | ⟨dek, hs, ht⟩ := h.session.locked
  · refine sameSeen_of_refuses h (m := TransitService.list email) rfl
      ⟨appError .vaultLocked "Vault is locked" 423, ?_, ?_⟩
    · simp [TransitService.list, requireDek_of_none hs]
    · simp [TransitService.list, requireDek_of_none ht]
  · rw [call_eq (c := Call.keyList email) rfl (keyList_apply hs email e),
      call_eq (c := Call.keyList email) rfl (keyList_apply ht email e)]
    exact ⟨congrArg (fun ms => Except.ok (Data.keys ms)) (keyList_pair h.alike email), h⟩

variable (hw : w.db.Shaped P good) (hw' : w'.db.Shaped P good)

include hw hw'

theorem kvWrite_sameSeen (hclosed : S.Closed P good) (hgood : good email)
    (hvis : S.users email = true) (data : J) :
    (Call.kvWrite path email data).SameSeen S (w.call (e, .kvWrite path email data))
      (w'.call (e, .kvWrite path email data)) := by
  rcases write_pair h.session (e := e) data with hm | ⟨dek, raw, hs, ht⟩
  · exact sameSeen_of_refuses h rfl hm
  have hseen : ∀ {db : Database T}, db.Shaped P good → ∀ r ∈ db.kvSecrets, r.path = path →
      S.users r.ownerEmail = true := by
    rintro db hdb r hr rfl
    obtain ⟨howner, hvalid⟩ := hdb.kv.owned r hr
    rw [hclosed howner hgood hvalid hs.valid]
    exact hvis
  obtain ⟨hl, hr⟩ | ⟨item, item', hl, hr, hentry⟩ := h.alike.findPath (hseen hw) (hseen hw')
  · rw [call_eq (c := Call.kvWrite path email data) rfl (write_create hs e hl),
      call_eq (c := Call.kvWrite path email data) rfl (write_create ht e hr)]
    refine ⟨rfl, h.dek, h.alike.config, ?_, h.alike.keys⟩
    show (w'.db.kvCreate P e path email dek raw).kvView S =
      (w.db.kvCreate P e path email dek raw).kvView S
    rw [kvView_kvCreate hw.kv, kvView_kvCreate hw'.kv, h.alike.kv]
  obtain ⟨hitem, hpath⟩ := findPath_eq_some hl
  obtain ⟨hitem', hpath'⟩ := findPath_eq_some hr
  have hnext : w'.db.nextKvVersion item'.id = w.db.nextKvVersion item.id := by
    rw [nextKvVersion_entry, nextKvVersion_entry, hentry]
  have hcreated : item'.createdAt = item.createdAt :=
    (congrArg (·.createdAt) (kvEntry_item hentry)).symm
  by_cases hv : w.db.nextKvVersion item.id < 2 ^ 63
  · rw [call_eq (c := Call.kvWrite path email data) rfl (write_update hs e hl hv),
      call_eq (c := Call.kvWrite path email data) rfl (write_update ht e hr (hnext ▸ hv))]
    refine ⟨?_, h.dek, h.alike.config, ?_, h.alike.keys⟩
    · show Call.hide S _ (.ok (.kvWritten _)) = Call.hide S _ (.ok (.kvWritten _))
      rw [show w'.session.db.nextKvVersion item'.id = w.session.db.nextKvVersion item.id from hnext,
        hpath, hpath', hcreated]
    · show (w'.db.kvUpdate P e item' path dek raw).kvView S =
        (w.db.kvUpdate P e item path dek raw).kvView S
      rw [kvView_kvUpdate hw.kv hitem hpath, kvView_kvUpdate hw'.kv hitem' hpath', h.alike.kv]
  · obtain ⟨db, hdb⟩ := write_overflow hs e hl hv
    obtain ⟨db', hdb'⟩ := write_overflow ht e hr (hnext ▸ hv)
    rw [call_eq (c := Call.kvWrite path email data) rfl hdb,
      call_eq (c := Call.kvWrite path email data) rfl hdb']
    exact ⟨rfl, h.dek, h.alike⟩

theorem kvDelete_sameSeen (hvis : S.users email = true) :
    (Call.kvDelete path email : Call T J).SameSeen S (w.call (e, .kvDelete path email))
      (w'.call (e, .kvDelete path email)) := by
  rcases delete_pair h.session (e := e) path hvis with
    hm | ⟨item, item', hl, hr, hentry, hs, ht⟩
  · exact sameSeen_of_refuses h rfl hm
  obtain ⟨hitem, hpath, -⟩ := findOwned_eq_some hl
  obtain ⟨hitem', hpath', -⟩ := findOwned_eq_some hr
  rw [call_eq (c := Call.kvDelete path email) rfl hs,
    call_eq (c := Call.kvDelete path email) rfl ht]
  refine ⟨rfl, h.dek, h.alike.config, ?_, h.alike.keys⟩
  show (w'.db.deleteKvSecret item'.id).kvView S = (w.db.deleteKvSecret item.id).kvView S
  rw [kvView_deleteKvSecret hw.kv hitem, kvView_deleteKvSecret hw'.kv hitem', h.alike.kv, hpath,
    hpath']

theorem create_sameSeen (hvis : S.keys email name = true) :
    (Call.createAes email name : Call T J).SameSeen S (w.call (e, .createAes email name))
        (w'.call (e, .createAes email name)) ∧
      (Call.createSigning email name : Call T J).SameSeen S (w.call (e, .createSigning email name))
        (w'.call (e, .createSigning email name)) := by
  rcases create_pair h.session (e := e) hvis with ⟨hm, hm'⟩ | ⟨dek, hs, ht⟩
  · exact ⟨sameSeen_of_refuses h rfl hm, sameSeen_of_refuses h rfl hm'⟩
  have hview : ∀ usage, (w'.db.keyCreate P e email name usage dek).keyView S =
      (w.db.keyCreate P e email name usage dek).keyView S := by
    intro usage
    rw [keyView_keyCreate hw, keyView_keyCreate hw', h.alike.keys]
  constructor
  · rw [call_eq (c := Call.createAes email name) rfl (createAes_of_ready hs e),
      call_eq (c := Call.createAes email name) rfl (createAes_of_ready ht e)]
    exact ⟨rfl, h.dek, h.alike.config, h.alike.kv, hview .encryptDecrypt⟩
  · rw [call_eq (c := Call.createSigning email name) rfl (createSigning_of_ready hs e),
      call_eq (c := Call.createSigning email name) rfl (createSigning_of_ready ht e)]
    exact ⟨rfl, h.dek, h.alike.config, h.alike.kv, hview .signVerify⟩

theorem revoke_sameSeen (hvis : S.keys email name = true) :
    (Call.revoke email name : Call T J).SameSeen S (w.call (e, .revoke email name))
      (w'.call (e, .revoke email name)) := by
  have hrun : ∀ {s : Proc T B} {k : TransitKey T}, FindReady s email name none k →
      TransitService.revoke email name e s =
        (.ok (), s.commitTo (s.db.keyRevoke k.id e.now)) := by
    intro s k hk
    simp [TransitService.revoke, find_of_ready hk, Proc.commitTo, Database.keyRevoke]
  rcases find_pair h.session (e := e) hvis none with ⟨x, hs, ht⟩ | ⟨k, k', hk, hk', -⟩
  · refine sameSeen_of_refuses h (m := TransitService.revoke email name) rfl ⟨x, ?_, ?_⟩
    · simp [TransitService.revoke, hs]
    · simp [TransitService.revoke, ht]
  obtain ⟨hmem, howner, hname⟩ := findKey_eq_some hk.found
  obtain ⟨hmem', howner', hname'⟩ := findKey_eq_some hk'.found
  rw [call_eq (c := Call.revoke email name) rfl (hrun hk),
    call_eq (c := Call.revoke email name) rfl (hrun hk')]
  refine ⟨rfl, h.dek, h.alike.config, h.alike.kv, ?_⟩
  show (w'.db.keyRevoke k'.id e.now).keyView S = (w.db.keyRevoke k.id e.now).keyView S
  rw [keyView_keyRevoke hw hmem howner hname, keyView_keyRevoke hw' hmem' howner' hname',
    h.alike.keys]

theorem rotate_sameSeen (hvis : S.keys email name = true) :
    (Call.rotate email name : Call T J).SameSeen S (w.call (e, .rotate email name))
      (w'.call (e, .rotate email name)) := by
  rcases rotate_pair h.session (e := e) hvis with
    hm | ⟨k, k', dek, hk, hk', hentry, hd, hd', hok⟩
  · exact sameSeen_of_refuses h rfl hm
  obtain ⟨hmem, howner, hname⟩ := findKey_eq_some hk.found
  obtain ⟨hmem', howner', hname'⟩ := findKey_eq_some hk'.found
  have hn : w.db.currentKeyNumber k.id = w'.db.currentKeyNumber k'.id :=
    currentKeyNumber_pair hentry
  by_cases hv : w.db.currentKeyNumber k.id + 1 < 2 ^ 63
  · rw [call_eq (c := Call.rotate email name) rfl (rotate_of_ready hk hd hok e hv),
      call_eq (c := Call.rotate email name) rfl (rotate_of_ready hk' hd' hok e (hn ▸ hv))]
    refine ⟨?_, h.dek, h.alike.config, h.alike.kv, ?_⟩
    · show Call.hide S _ (.ok (.key _)) = Call.hide S _ (.ok (.key _))
      have hrotated : ∀ {db : Database T} {k : TransitKey T},
          (db.keyRotate P e k email name dek).currentKeyNumber k.id =
            db.currentKeyNumber k.id + 1 :=
        fun {db k} => currentKeyNumber_keyRotate db e k email name dek
      rw [metadata_pair hentry, hrotated, hrotated,
        show w.session.db.currentKeyNumber k.id = w'.session.db.currentKeyNumber k'.id from hn]
    · show (w'.db.keyRotate P e k' email name dek).keyView S =
        (w.db.keyRotate P e k email name dek).keyView S
      rw [keyView_keyRotate hw hmem howner hname, keyView_keyRotate hw' hmem' howner' hname',
        h.alike.keys]
  · obtain ⟨db, hdb⟩ := rotate_overflow hk hd hok e hv
    obtain ⟨db', hdb'⟩ := rotate_overflow hk' hd' hok e (hn ▸ hv)
    rw [call_eq (c := Call.rotate email name) rfl hdb,
      call_eq (c := Call.rotate email name) rfl hdb']
    exact ⟨rfl, h.dek, h.alike⟩

omit hw hw'

theorem vaultInit_sameSeen (p c : T) :
    (Call.vaultInit p c : Call T J).SameSeen S (w.call (e, .vaultInit p c))
      (w'.call (e, .vaultInit p c)) := by
  rcases init_pair h.session (e := e) p c with hm | ⟨x, hs, ht⟩
  · exact sameSeen_of_refuses h rfl hm
  rw [call_eq (c := Call.vaultInit p c) rfl hs, call_eq (c := Call.vaultInit p c) rfl ht]
  exact ⟨rfl, rfl, rfl, h.alike.kv, h.alike.keys⟩

theorem vaultUnlock_sameSeen (p : T) :
    (Call.vaultUnlock p : Call T J).SameSeen S (w.call (e, .vaultUnlock p))
      (w'.call (e, .vaultUnlock p)) := by
  rcases unlock_pair h.session (e := e) p with hm | ⟨dek, hs, ht⟩
  · exact sameSeen_of_refuses h rfl hm
  rw [call_eq (c := Call.vaultUnlock p) rfl hs, call_eq (c := Call.vaultUnlock p) rfl ht]
  exact ⟨rfl, rfl, h.alike⟩

theorem encrypt_sameSeen (hvis : S.keys email name = true) (plaintextB64 : T) :
    (Call.encrypt email name plaintextB64 : Call T J).SameSeen S
      (w.call (e, .encrypt email name plaintextB64))
      (w'.call (e, .encrypt email name plaintextB64)) := by
  rcases encrypt_pair h.session (e := e) hvis plaintextB64 with hm | ⟨ciphertext, x, hs, ht⟩
  · exact sameSeen_of_refuses h rfl hm
  rw [call_eq (c := Call.encrypt email name plaintextB64) rfl hs,
    call_eq (c := Call.encrypt email name plaintextB64) rfl ht]
  exact ⟨rfl, h.dek, h.alike⟩

end Visible

/-- **A visible call cannot tell twins apart**, and leaves twins. -/
theorem call_sameSeen {S : Scope T} {good : T → Prop} {w w' : World T B} (h : w.Twins S w')
    (hw : w.db.Shaped P good) (hw' : w'.db.Shaped P good) (hclosed : S.Closed P good) (e : Env P)
    (c : Call T J) (hc : c.Visible P S) (hgood : ∀ email, c.email? = some email → good email) :
    c.SameSeen S (w.call (e, c)) (w'.call (e, c)) := by
  have hs := h.session
  cases c with
  | vaultInit p c => exact vaultInit_sameSeen h p c
  | vaultUnlock p => exact vaultUnlock_sameSeen h p
  | vaultLock => exact ⟨rfl, rfl, h.alike⟩
  | vaultStatus =>
    exact sameSeen_of_view h (f := fun x => .vaultStatus x.1 x.2) rfl (status_pair hs) rfl rfl
  | restart => exact ⟨rfl, rfl, h.alike.config, h.alike.kv, h.alike.keys⟩
  | kvWrite path email data =>
    exact kvWrite_sameSeen h hw hw' hclosed (hgood email rfl) (hc.users email rfl) data
  | kvRead path email version =>
    exact sameSeen_of_view h rfl (read_pair hs (hc.users email rfl) version)
      (read_state path email version e _) (read_state path email version e _)
  | kvVersions path email =>
    exact sameSeen_of_view h rfl (versions_pair hs (hc.users email rfl))
      (versions_state path email e _) (versions_state path email e _)
  | kvDelete path email => exact kvDelete_sameSeen h hw hw' (hc.users email rfl)
  | kvList email =>
    exact sameSeen_of_view h rfl (list_pair hs (hc.users email rfl)) (list_state email e _)
      (list_state email e _)
  | createAes email name => exact (create_sameSeen h hw hw' (hc.keys email name rfl)).1
  | createSigning email name => exact (create_sameSeen h hw hw' (hc.keys email name rfl)).2
  | keyList email => exact keyList_sameSeen h email
  | keyGet email name =>
    exact sameSeen_of_view h rfl (keyGet_pair hs (hc.keys email name rfl))
      (keyGet_state email name e _) (keyGet_state email name e _)
  | revoke email name => exact revoke_sameSeen h hw hw' (hc.keys email name rfl)
  | rotate email name => exact rotate_sameSeen h hw hw' (hc.keys email name rfl)
  | encrypt email name plaintextB64 =>
    exact encrypt_sameSeen h (hc.keys email name rfl) plaintextB64
  | decrypt email ciphertext =>
    have hvis : ∀ version name blobB64, P.readEnvelope ciphertext = .ok (version, name, blobB64) →
        S.keys email name = true := by
      intro version name blobB64 hread
      refine hc.keys email name ?_
      rw [Call.key?_decrypt, hread]
    exact sameSeen_of_view h rfl (decrypt_pair hs hvis)
      (transitDecrypt_state email ciphertext e _) (transitDecrypt_state email ciphertext e _)
  | sign email name messageB64 messageType =>
    exact sameSeen_of_view h rfl (sign_pair hs (hc.keys email name rfl) messageB64 messageType)
      (sign_state email name messageB64 messageType e _)
      (sign_state email name messageB64 messageType e _)
  | verify email name messageB64 messageType signatureB64 signingAlgorithm =>
    exact sameSeen_of_view h rfl (verify_pair hs (hc.keys email name rfl) messageB64 messageType
        signatureB64 signingAlgorithm)
      (verify_state email name messageB64 messageType signatureB64 signingAlgorithm e _)
      (verify_state email name messageB64 messageType signatureB64 signingAlgorithm e _)

/-! ## Runs -/

/-- What every run keeps of the tables. -/
structure World.Sound (P : Prims T B J) (good : T → Prop) (w : World T B) : Prop where
  kv : w.db.KvTables P good
  keys : ∃ h : History P, KeysRecorded h w

section Sound

variable {good : T → Prop} {w : World T B}

theorem World.Sound.shaped (h : w.Sound P good) : w.db.Shaped P good := by
  obtain ⟨tr, htr⟩ := h.keys
  exact ⟨h.kv, htr.ring.ids, htr.names, htr.belongs⟩

theorem sound_initial : (World.initial : World T B).Sound P good :=
  ⟨kvTables_initial, [], keysRecorded_initial⟩

theorem World.Sound.call (h : w.Sound P good) (i : Env P × Call T J)
    (hgood : ∀ email, i.2.email? = some email → good email) : (w.call i).2.Sound P good := by
  obtain ⟨tr, htr⟩ := h.keys
  have hs := step_of_call i.1 w i.2
  exact ⟨h.kv.step hgood hs, _, htr.step hs⟩

theorem World.Sound.after (h : w.Sound P good) (is : List (Env P × Call T J))
    (hgood : ∀ i ∈ is, ∀ email, i.2.email? = some email → good email) :
    (w.after is).Sound P good := by
  induction is generalizing w with
  | nil => exact h
  | cons i is ih =>
    exact ih (h.call i (hgood i List.mem_cons_self))
      fun j hj => hgood j (List.mem_cons_of_mem _ hj)

end Sound

end MiniVault
