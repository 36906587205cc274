/-
  Internal errors. `install_handlers` answers an exception that no `AppError` is with a bare 500.
  A request ends so if the call behind it raises such an exception, if what it read cannot be
  rendered, or if a login draws the token of another session; and then it has changed nothing.
  Requests carry texts: what a lone surrogate in a name does is shown in `Transit/Surrogates`.
-/
import MiniVault.Auth.Provenance
import MiniVault.Http.KvMap
import MiniVault.Http.Locked
import MiniVault.Kv.PutGet
import MiniVault.Transit.Signatures
import MiniVault.Transit.Total

namespace MiniVault

open Kit Imp

variable {T B J : Type} {P : Prims T B J} [DecidableEq T]

/-- The handler of the request raises an exception that is no `AppError`. -/
def World.Breaks (settings : Settings) (w : World T B) (i : Env P × Request T J) : Prop :=
  Imp.Raises Exc.Escapes (handler settings i.2) i.1 w.session

/-- The call raises an exception that is no `AppError`, or returns what cannot be rendered. -/
def World.Fumbles (w : World T B) (x : Env P × Call T J) : Prop :=
  ¬ w.Handles x ∨ ∃ v, (w.call x).1 = .ok (.kvValue v) ∧ P.renders v.value = false

/-! ## Handlers -/

section Handlers

variable {settings : Settings} {e : Env P} {w w' : World T B} {s : Proc T B} {c : Call T J}

omit [DecidableEq T] in
theorem raises_ok {data : Data T J} {n : Nat} :
    Imp.Raises Exc.Escapes (ok data n : Py P _) e s ↔
      ∃ v, data = .kvValue v ∧ P.renders v.value = false := by
  unfold Imp.Raises
  rw [ok_apply]
  unfold rendering
  cases data with
  | kvValue v =>
    rcases hr : P.renders v.value with _ | _
    · exact iff_of_true ⟨.valueError, by simp [hr], rfl⟩ ⟨v, rfl, hr⟩
    · refine iff_of_false ?_ ?_
      · rintro ⟨x, hx, -⟩
        simp [hr] at hx
      · rintro ⟨_, ⟨⟩, hr'⟩
        rw [hr] at hr'
        cases hr'
  | _ =>
    refine iff_of_false ?_ ?_
    · rintro ⟨_, ⟨⟩, -⟩
    · rintro ⟨_, ⟨⟩, -⟩

/-- What the handler of a call raises. -/
theorem raises_respond {n : Nat} :
    Imp.Raises Exc.Escapes (c.run >>= fun data => ok data n : Py P _) e w.session ↔
      w.Fumbles (e, c) := by
  rw [raises_bind]
  unfold World.Fumbles World.Handles World.call World.run
  dsimp only
  rcases hrun : c.run e w.session with ⟨x | data, s⟩
  · have hx : x.Escapes ↔ ¬ ∃ err, x = .app err := by rw [← not_escapes, not_not]
    simpa [Imp.Raises, hrun] using hx
  · have hok : Imp.Raises Exc.Escapes (ok data n : Py P _) e s ↔ _ := raises_ok
    simpa [Imp.Raises, hrun] using hok

omit [DecidableEq T] in
/-- The audit wrapper lets through what is no `AppError`, and raises an `AppError` again. -/
theorem raises_auditedAs {p : Principal T} {row : Option (String × String × T)}
    {m : Py P (Response T J)} :
    Imp.Raises Exc.Escapes (auditedAs p row m) e s ↔ Imp.Raises Exc.Escapes m e s := by
  rcases row with _ | ⟨action, resourceType, identifier⟩
  · exact Iff.rfl
  unfold auditedAs Imp.Raises
  dsimp only
  rcases hm : m e s with ⟨x | resp, s'⟩
  · cases x with
    | app err =>
      have haudited : (audited p action resourceType identifier m e s).1 = .error (.app err) := by
        by_cases herr : err.code = .permissionDenied
        · simp [audited, hm, Exc.isAppError, deniedAudit, herr, audit]
        · simp [audited, hm, Exc.isAppError, deniedAudit, herr]
      rw [haudited]
    | _ => rw [audited_of_exc hm rfl]
  · rw [audited_of_ok hm]

variable {credentials : Option T} {p : Principal T} {r : UserRequest T J}

theorem breaks_user (hp : w.db.principal P e.now credentials = .ok p) (hv : r.valid = true) :
    w.Breaks settings (e, .user credentials r) ↔
      Imp.Raises Exc.Escapes (userHandler p r : Py P _) e w.session := by
  have hprincipal : currentPrincipal credentials e w.session = (.ok p, w.session) := by
    rw [currentPrincipal_apply]
    exact congrArg (·, w.session) hp
  unfold World.Breaks
  rw [handler, raises_bind]
  simp [Imp.Raises, hprincipal, hv]

/-- Refused parameters are answered, not broken on. -/
theorem not_breaks_invalid (hp : w.db.principal P e.now credentials = .ok p)
    (hv : r.valid = false) : ¬ w.Breaks settings (e, .user credentials r) := by
  have hprincipal : currentPrincipal credentials e w.session = (.ok p, w.session) := by
    rw [currentPrincipal_apply]
    exact congrArg (·, w.session) hp
  unfold World.Breaks
  rw [handler, raises_bind]
  simp [Imp.Raises, hprincipal, hv, invalidRequest]

/-- A request with a call behind it. -/
theorem breaks_behind {i : Env P × Request T J} {x : Env P × Call T J}
    (h : w.behind i = some x) : w.Breaks settings i ↔ w.Fumbles x := by
  obtain ⟨e, r⟩ := i
  rcases behind_cases h with ⟨c, hc, rfl⟩ | ⟨credentials, u, p, c, rfl, hp, hc, rfl⟩
  · have hhandler : handler settings r = (c.run >>= fun data => ok data r.status : Py P _) := by
      cases r <;> cases hc <;> simp only [Call.run, bind_pure_bind] <;> rfl
    rw [World.Breaks, hhandler, raises_respond]
  · obtain ⟨hv, hservice⟩ := UserRequest.call_eq_some.1 hc
    rw [breaks_user hp hv, userHandler_eq hservice, raises_auditedAs, raises_respond]

/-- What `login` raises that is no `AppError` comes from the unique index on the tokens. -/
theorem breaks_login {email password : T} :
    w.Breaks settings (e, .login email password) ↔
      ∃ user, w.db.findUser (P.normalizeEmail email) = some user ∧ ¬ user.lockedAt e.now ∧
        P.verifyPassword user.passwordHash password = true ∧
        w.db.findSession (tokenDigest P e.token) ≠ none := by
  have hr : handler settings (.login email password : Request T J) =
      AuthService.login settings email password >>=
        fun a => ok (P := P) (.login a : Data T J) 200 := rfl
  have hok : ∀ (a : Login T) s,
      ¬ Imp.Raises Exc.Escapes (ok (.login a : Data T J) 200 : Py P _) e s :=
    fun a s => by simp [raises_ok]
  unfold World.Breaks
  rw [hr, raises_bind]
  simp only [hok, and_false, exists_false, or_false]
  unfold Imp.Raises
  rcases hf : w.db.findUser (P.normalizeEmail email) with _ | user
  · rw [login_unknown (s := w.session) hf]
    simp [invalidCredentials]
  by_cases hl : user.lockedAt e.now
  · rw [login_locked (s := w.session) hf hl]
    simp [accountLocked, hl]
  rcases hp : P.verifyPassword user.passwordHash password with _ | _
  · rw [login_wrong (s := w.session) hf hl hp]
    simp [invalidCredentials, hp]
  by_cases hc : w.db.findSession (tokenDigest P e.token) = none
  · rw [login_right (s := w.session) hf hl hp hc]
    simp [hc]
  · obtain ⟨db, hdb⟩ : ∃ db, AuthService.login settings email password e w.session =
        (.error .integrityError, { w.session with db := db }) := login_clash hf hl hp hc
    rw [hdb]
    exact iff_of_true ⟨_, rfl, rfl⟩ ⟨user, rfl, hl, hp, hc⟩

/-- A request that makes no call breaks only if it is a login. -/
theorem not_breaks {r : Request T J}
    (hpass : ∀ p x, P.validatePassphrase p = .error x → x.isAppError = true)
    (h : w.behind (e, r) = none) (hr : r.isLogin = false) : ¬ w.Breaks settings (e, r) := by
  cases r with
  | user credentials u =>
    rcases hp : w.db.principal P e.now credentials with x | p
    · obtain ⟨err, rfl, -⟩ := principal_eq_error hp
      have hprincipal : currentPrincipal credentials e w.session =
          (.error (.app err), w.session) := by
        rw [currentPrincipal_apply]
        exact congrArg (·, w.session) hp
      unfold World.Breaks
      rw [handler, raises_bind]
      simp [Imp.Raises, hprincipal]
    · rcases hvalid : u.valid with _ | _
      · exact not_breaks_invalid hp hvalid
      rw [breaks_user hp hvalid]
      rw [behind_user hp, Option.map_eq_none_iff, UserRequest.call_eq_none hvalid] at h
      have hok : ∀ (data : Data T J) n s, (∀ v, data ≠ .kvValue v) →
          ¬ Imp.Raises Exc.Escapes (ok data n : Py P _) e s := by
        intro data n s hdata hraises
        obtain ⟨v, hv, -⟩ := raises_ok.1 hraises
        exact hdata v hv
      cases u with
      | me => exact hok (.me p.user.email) 200 _ (by rintro v ⟨⟩)
      | logout => exact hok .loggedOut 200 _ (by rintro v ⟨⟩)
      | auditVerify =>
        exact hok (.audit (MiniVault.auditVerify P w.db.auditLogs)) 200 _ (by rintro v ⟨⟩)
      | _ => cases h
  | register email password confirmation =>
    have hr : handler settings (.register email password confirmation : Request T J) =
        AuthService.register email password confirmation >>=
          fun a => ok (P := P) (.registered a : Data T J) 201 := rfl
    have hregister : ¬ Imp.Raises Exc.Escapes
        (AuthService.register email password confirmation : Py P T) e w.session := by
      unfold AuthService.register
      simp only [raises_ite, raises_raise_bind, raises_ofExcept_bind, raises_query_bind,
        raises_environ_bind, raises_update_bind, escapes_appError, and_false, false_or, not_and,
        not_or, not_exists]
      refine fun _ => ⟨fun x hx => not_escapes_of_isAppError (hpass _ x hx), fun _ _ _ => ?_⟩
      rintro ⟨_, ⟨⟩, -⟩
    unfold World.Breaks
    rw [hr, raises_bind]
    rintro (h | ⟨a, s, -, h⟩)
    · exact hregister h
    · obtain ⟨v, ⟨⟩, -⟩ := raises_ok.1 h
  | login => cases hr
  | _ => cases h

end Handlers

/-! ## Calls -/

section Calls

variable {e : Env P} {w : World T B} {c : Call T J}

/-- A call whose result is no value that was read. -/
theorem fumbles_iff {α : Type} {m : Py P α} {f : α → Data T J}
    (hrun : c.run = m >>= fun a => pure (f a)) (hf : ∀ a v, f a ≠ .kvValue v) :
    w.Fumbles (e, c) ↔ Imp.Raises Exc.Escapes m e w.session := by
  unfold World.Fumbles
  rw [handles_iff hrun, not_not, call_fst hrun]
  refine or_iff_left ?_
  rintro ⟨v, hv, -⟩
  rcases hm : (m e w.session).1 with x | a
  · rw [hm] at hv
    cases hv
  · rw [hm] at hv
    exact hf a v (Except.ok.inj hv)

/-- Worlds that hold the same fumble alike. -/
theorem fumbles_held {w' : World T B} (h : w.held = w'.held) (x : Env P × Call T J) :
    w.Fumbles x ↔ w'.Fumbles x := by
  unfold World.Fumbles World.Handles
  rw [(call_held h x).1]

theorem not_fumbles_lock : ¬ w.Fumbles (e, (.vaultLock : Call T J)) := by
  rw [fumbles_iff (m := lockState) (f := fun _ => Data.vaultStatus true false) rfl
    (by rintro _ _ ⟨⟩)]
  exact raises_modify.1

theorem not_fumbles_status : ¬ w.Fumbles (e, (.vaultStatus : Call T J)) := by
  rw [fumbles_iff (m := VaultService.status) (f := fun a => Data.vaultStatus a.1 a.2) rfl
    (by rintro _ _ ⟨⟩)]
  rintro ⟨_, ⟨⟩, -⟩

theorem not_fumbles_restart : ¬ w.Fumbles (e, (.restart : Call T J)) := by
  rw [fumbles_iff (m := startup) (f := fun _ => Data.restarted) rfl (by rintro _ _ ⟨⟩)]
  rintro ⟨_, ⟨⟩, -⟩

omit [DecidableEq T] in
/-- Under a key of the cipher, encryption raises nothing. -/
theorem raises_encrypt_bind {α : Type} {E : Exc → Prop} {key plaintext aad : B} {f : B × B → Py P α}
    {s : Proc T B} (hk : aesKeyOk P key = true) :
    Imp.Raises E (encrypt key plaintext aad >>= f) e s ↔
      Imp.Raises E (f (e.nonce, P.aesgcm.encrypt key e.nonce plaintext aad)) e
        (s.sealing ⟨key, e.nonce, plaintext, aad⟩) := by
  unfold Imp.Raises
  rw [bind_apply, encrypt_of_key hk]
  rfl

/-- `init` wraps under a key that Argon2 made for AES-GCM. -/
theorem not_fumbles_init (hpass : ∀ p x, P.validatePassphrase p = .error x → x.isAppError = true)
    (hderive : ∀ p salt, aesKeyOk P (P.deriveKey p salt P.defaultParams) = true) (p q : T) :
    ¬ w.Fumbles (e, (.vaultInit p q : Call T J)) := by
  rw [fumbles_iff (m := VaultService.init p q) (f := fun _ => Data.vaultStatus true false) rfl
    (by rintro _ _ ⟨⟩)]
  unfold VaultService.init
  simp only [raises_ite, raises_raise_bind, raises_ofExcept_bind, raises_query_bind,
    raises_environ_bind, escapes_appError, and_false, false_or, not_and, not_or, not_exists]
  refine fun _ _ => ⟨fun x hx => not_escapes_of_isAppError (hpass _ x hx), fun _ _ => ?_⟩
  rw [raises_encrypt_bind (hderive _ _)]
  rintro ⟨_, ⟨⟩, -⟩

omit [DecidableEq T] in
theorem unwrapDek_caught {config : VaultConfig T} {p : T} {x : Exc}
    (h : VaultService.unwrapDek P config p = .error x) :
    (x = .invalidTag ∨ x.isValueError = true) ∨ ¬ x.Escapes := by
  have happ : ∀ {value : T}, b64d P value = .error x → ¬ x.Escapes := fun h => by
    rw [(b64d_error_iff.1 h).2]
    exact escapes_appError _ _ _
  rcases except_bind_eq_error.1 h with h | ⟨salt, -, h⟩
  · exact .inr (happ h)
  rcases except_bind_eq_error.1 h with h | ⟨n, -, h⟩
  · exact .inr (happ h)
  rcases except_bind_eq_error.1 h with h | ⟨c, -, h⟩
  · exact .inr (happ h)
  refine .inl ?_
  unfold decrypt at h
  split_ifs at h
  · exact .inr (Except.error.inj h ▸ rfl)
  · split at h
    · cases h
    · exact .inl (Except.error.inj h).symm
  · exact .inr (Except.error.inj h ▸ rfl)

/-- Every way in which a configuration does not open is the wrong passphrase. -/
theorem not_fumbles_unlock (p : T) : ¬ w.Fumbles (e, (.vaultUnlock p : Call T J)) := by
  rw [fumbles_iff (m := VaultService.unlock p) (f := fun _ => Data.vaultStatus true true) rfl
    (by rintro _ _ ⟨⟩)]
  unfold VaultService.unlock
  rw [raises_query_bind]
  rcases w.session.db.vaultConfig.head? with _ | config
  · exact fun h => escapes_appError _ _ _ (raises_raise.1 h)
  rintro ⟨x, hx, hesc⟩
  rcases hu : VaultService.unwrapDek P config p with y | dek
  · by_cases hcaught : y = .invalidTag ∨ y.isValueError = true
    · simp [hu, hcaught] at hx
      rw [← hx] at hesc
      exact escapes_appError _ _ _ hesc
    · simp [hu, hcaught] at hx
      rw [← hx] at hesc
      exact (unwrapDek_caught hu).resolve_left hcaught hesc
  · simp [hu, unlockState] at hx

/-! ## Key calls -/

section Keys

variable {email name : T} {d : B}

theorem not_fumbles_createAes (hchecked : P.Checked)
    (hdek : ∀ d, w.dek = some d → aesKeyOk P d = true) :
    ¬ w.Fumbles (e, (.createAes email name : Call T J)) := by
  rw [fumbles_iff (m := TransitService.createAes email name) (f := Data.key) rfl
    (by rintro _ _ ⟨⟩)]
  unfold TransitService.createAes
  simp only [raises_ite, raises_raise_bind, raises_ofExcept_bind, raises_query_bind,
    raises_environ_bind, raises_requireDek_bind, escapes_appError, and_false, false_or, not_or,
    not_exists, not_and]
  refine ⟨fun x hx => not_escapes_of_isAppError (hchecked.validateKeyName _ x hx),
    fun _ _ d hd _ => ?_⟩
  rw [raises_encrypt_bind (hdek d hd)]
  rintro ⟨_, ⟨⟩, -⟩

theorem not_fumbles_createSigning (hchecked : P.Checked)
    (hdek : ∀ d, w.dek = some d → aesKeyOk P d = true) :
    ¬ w.Fumbles (e, (.createSigning email name : Call T J)) := by
  rw [fumbles_iff (m := TransitService.createSigning email name) (f := Data.key) rfl
    (by rintro _ _ ⟨⟩)]
  unfold TransitService.createSigning
  simp only [raises_ite, raises_raise_bind, raises_ofExcept_bind, raises_query_bind,
    raises_environ_bind, raises_requireDek_bind, escapes_appError, and_false, false_or, not_or,
    not_exists, not_and]
  refine ⟨fun x hx => not_escapes_of_isAppError (hchecked.validateKeyName _ x hx),
    fun _ _ d hd _ => ?_⟩
  rw [raises_encrypt_bind (hdek d hd)]
  rintro ⟨_, ⟨⟩, -⟩

theorem not_fumbles_keyList : ¬ w.Fumbles (e, (.keyList email : Call T J)) := by
  rw [fumbles_iff (m := TransitService.list email) (f := Data.keys) rfl (by rintro _ _ ⟨⟩)]
  unfold TransitService.list
  rw [raises_requireDek_bind]
  rintro (⟨-, hesc⟩ | ⟨_, -, _, ⟨⟩, -⟩)
  exact escapes_appError _ _ _ hesc

theorem not_fumbles_versions (hchecked : P.Checked) {path : T} :
    ¬ w.Fumbles (e, (.kvVersions path email : Call T J)) := by
  rw [fumbles_iff (m := KVService.versions path email) (f := Data.kvVersions) rfl
    (by rintro _ _ ⟨⟩)]
  exact versions_not_escapes hchecked

theorem not_fumbles_delete (hchecked : P.Checked) {path : T} :
    ¬ w.Fumbles (e, (.kvDelete path email : Call T J)) := by
  rw [fumbles_iff (m := KVService.delete path email) (f := fun _ => Data.deleted) rfl
    (by rintro _ _ ⟨⟩)]
  exact delete_not_escapes hchecked

theorem not_fumbles_kvList : ¬ w.Fumbles (e, (.kvList email : Call T J)) := by
  rw [fumbles_iff (m := KVService.list email) (f := Data.kvListed) rfl (by rintro _ _ ⟨⟩)]
  exact list_not_escapes

theorem not_fumbles_keyGet : ¬ w.Fumbles (e, (.keyGet email name : Call T J)) := by
  rw [fumbles_iff (m := TransitService.get email name) (f := Data.key) rfl (by rintro _ _ ⟨⟩)]
  unfold TransitService.get
  rw [raises_find_bind]
  rintro (h | ⟨_, -, _, ⟨⟩, -⟩)
  exact find_not_escapes h

theorem not_fumbles_revoke : ¬ w.Fumbles (e, (.revoke email name : Call T J)) := by
  rw [fumbles_iff (m := TransitService.revoke email name) (f := fun _ => Data.revoked) rfl
    (by rintro _ _ ⟨⟩)]
  unfold TransitService.revoke
  rw [raises_find_bind]
  rintro (h | ⟨_, -, _, ⟨⟩, -⟩)
  exact find_not_escapes h

/-- A rotation overflows where the versions of the key do. -/
theorem fumbles_rotate (hdek : ∀ d, w.dek = some d → aesKeyOk P d = true) :
    w.Fumbles (e, (.rotate email name : Call T J)) ↔
      ∃ key, FindReady w.session email name (some .encryptDecrypt) key ∧
        2 ^ 63 ≤ w.db.currentKeyNumber key.id + 1 := by
  rw [fumbles_iff (m := TransitService.rotate email name) (f := Data.key) rfl (by rintro _ _ ⟨⟩)]
  constructor
  · intro h
    have hfind := h
    rw [TransitService.rotate, raises_find_bind] at hfind
    rcases hfind with hfind | ⟨key, hready, -⟩
    · exact absurd hfind find_not_escapes
    obtain ⟨dek, hd⟩ := hready.unlocked
    refine ⟨key, hready, Nat.not_lt.1 fun hv => ?_⟩
    rw [Imp.Raises, rotate_of_ready hready hd (hdek dek hd) e hv] at h
    obtain ⟨_, ⟨⟩, -⟩ := h
  · rintro ⟨key, hready, hv⟩
    obtain ⟨dek, hd⟩ := hready.unlocked
    obtain ⟨db, hdb⟩ := rotate_overflow hready hd (hdek dek hd) e (Nat.not_lt.2 hv)
    rw [Imp.Raises, hdb]
    exact ⟨_, rfl, rfl⟩

theorem not_fumbles_verify {messageB64 signatureB64 : T} {messageType : MessageType}
    {signingAlgorithm : Option T} :
    ¬ w.Fumbles (e, (.verify email name messageB64 messageType signatureB64 signingAlgorithm :
      Call T J)) := by
  rw [fumbles_iff (m := TransitService.verify email name messageB64 messageType signatureB64
    signingAlgorithm) (f := Data.verified) rfl (by rintro _ _ ⟨⟩)]
  exact verify_not_escapes

end Keys

/-! ## Calls of a run -/

section Run

variable {is : List (Env P × Call T J)} {email name : T}

/-- The current version of an encryption key opens to an AES key, or has no row. -/
theorem not_fumbles_encrypt (hP : P.Lawful) {plaintextB64 : T} :
    ¬ (World.initial.after is : World T B).Fumbles
      (e, (.encrypt email name plaintextB64 : Call T J)) := by
  rw [fumbles_iff (m := TransitService.encrypt email name plaintextB64) (f := Data.ciphertext) rfl
    (by rintro _ _ ⟨⟩)]
  intro h
  have hfind := h
  rw [TransitService.encrypt, raises_find_bind] at hfind
  rcases hfind with hfind | ⟨key, hready, -⟩
  · exact find_not_escapes hfind
  obtain ⟨d, hd⟩ := hready.unlocked
  obtain ⟨key, raw, hready, -, -, hm⟩ := (transitEncrypt_escapes hd).1 h
  have hrec : KeysRecorded ((World.initial : World T B).trace is) _ := keysRecorded_run is
  have hlt : ((World.initial : World T B).after is).db.currentKeyNumber key.id < 2 ^ 63 :=
    currentKeyNumber_lt (fun v hv => (hrec.ring.versions v hv).2) key.id
  rcases material_cases hP hd (findKey_eq_some hready.found).1 (hready.usageOk _ rfl)
    (((World.initial : World T B).after is).db.currentKeyNumber key.id) with
    ⟨hn, -⟩ | ⟨-, hmat⟩ | ⟨i, -, -, hmat⟩
  · exact absurd hlt (Nat.not_lt.2 hn)
  · rcases hm with ⟨x, hx, hesc⟩ | ⟨m, hx, -⟩
    · cases hmat.symm.trans hx
      exact escapes_appError _ _ _ hesc
    · cases hmat.symm.trans hx
  · rcases hm with ⟨x, hx, -⟩ | ⟨m, hx, hbad⟩
    · cases hmat.symm.trans hx
    · cases hmat.symm.trans hx
      simp [aesKeyOk, i.1.key_len] at hbad

/-- A signing key opens to what its creation drew. -/
theorem not_fumbles_sign (hP : P.Lawful) {messageB64 : T} {messageType : MessageType} :
    ¬ (World.initial.after is : World T B).Fumbles
      (e, (.sign email name messageB64 messageType : Call T J)) := by
  rw [fumbles_iff (m := TransitService.sign email name messageB64 messageType) (f := Data.signed)
    rfl (by rintro _ _ ⟨⟩)]
  intro h
  have hfind := h
  rw [TransitService.sign, raises_find_bind] at hfind
  rcases hfind with hfind | ⟨key, hready, -⟩
  · exact find_not_escapes hfind
  obtain ⟨d, hd⟩ := hready.unlocked
  obtain ⟨key, message, hready, -, -, hm⟩ := (sign_escapes hd).1 h
  obtain ⟨hk, e', r, id, t, -, hrow⟩ := hready.created hP hd
  have hmat : ((World.initial : World T B).after is).db.material P d key none = .ok e'.key := by
    refine material_eq_ok.2 ⟨by rintro _ ⟨⟩, ?_⟩
    rw [hrow]
    exact open_keySealing hP hk e' email name 1
  rcases hm with ⟨x, hx, -⟩ | ⟨m, hx, hlen⟩
  · cases hmat.symm.trans hx
  · cases hmat.symm.trans hx
    exact hlen e'.key_len

end Run

/-! ## Calls on secrets -/

section Kv

variable {good : T → Prop} {canon : J → J} {m : VersionedMap T J} {path email : T} {d : B}

theorem not_fumbles_of_app {x : Env P × Call T J} {exc : Exc} (h : (w.call x).1 = .error exc)
    (happ : ¬ exc.Escapes) : ¬ w.Fumbles x := by
  obtain ⟨err, rfl⟩ := not_escapes.1 happ
  rintro (hno | ⟨v, hv, -⟩)
  · exact hno (.inr ⟨err, h⟩)
  · cases h.symm.trans hv

theorem fumbles_of_value {x : Env P × Call T J} {v : KVValue T J}
    (h : (w.call x).1 = .ok (.kvValue v)) : w.Fumbles x ↔ P.renders v.value = false := by
  constructor
  · rintro (hno | ⟨v', hv, hr⟩)
    · exact absurd (.inl ⟨_, h⟩) hno
    · cases h.symm.trans hv
      exact hr
  · exact fun hr => .inr ⟨v, h, hr⟩

/-- A write fumbles on a value that cannot be written and on a history that is full. -/
theorem World.Stores.fumbles_write (h : w.Stores P m) (ht : w.db.KvTables P good)
    (hone : P.OneOwner good) (hgood : good email) (hchecked : P.Checked) (hjson : P.JsonRaises)
    (hk : w.Keyed P d) (hd : w.dek = some d) {data : J} :
    w.Fumbles (e, .kvWrite path email data) ↔
      P.validatePath path email = .ok () ∧ ((∃ x, P.dumps data = .error x) ∨
        ∃ raw, P.dumps data = .ok raw ∧ P.len raw ≤ 1048576 ∧
          2 ^ 63 ≤ (m.history path).length + 1) := by
  rw [fumbles_iff (m := KVService.write path email data) (f := Data.kvWritten) rfl
    (by rintro _ _ ⟨⟩), write_escapes hchecked hjson]
  refine and_congr_right fun hp => ?_
  have hd' : w.session.dek = some d := hd
  have hfull : (∃ item, w.db.findPath path = some item ∧ 2 ^ 63 ≤ w.db.nextKvVersion item.id) ↔
      2 ^ 63 ≤ (m.history path).length + 1 := by
    have hlookup := h.lookup ht hone hgood hp
    rw [findOwned_eq ht hone hgood hp] at hlookup
    rcases hlookup with ⟨hnil, hf⟩ | ⟨item, hf, -, hholds⟩
    · simp [hf, hnil]
    · simp [hf, hholds.next]
  constructor
  · rintro ⟨d', hdd, hx⟩
    cases hd'.symm.trans hdd
    refine hx.imp id ?_
    rintro ⟨raw, hraw, hsize, hbad | hitem⟩
    · cases hk.keyOk.symm.trans hbad
    · exact ⟨raw, hraw, hsize, hfull.1 hitem⟩
  · intro hx
    refine ⟨d, hd', hx.imp id ?_⟩
    rintro ⟨raw, hraw, hsize, hlen⟩
    exact ⟨raw, hraw, hsize, .inr (hfull.2 hlen)⟩

/-- A read of a version that the driver binds is answered from the map. -/
theorem World.KvAnswers.read (h : w.KvAnswers P good m) (hgood : good email)
    (hp : P.validatePath path email = .ok ()) {version : Option Int}
    (hsmall : ∀ k, version = some k → k < 2 ^ 63) (e : Env P) :
    (∃ x n, m.read path version = some x ∧
      (w.call (e, .kvRead path email version)).1 = .ok (.kvValue ⟨path, n, x⟩)) ∨
      m.read path version = none ∧
        ∃ err, (w.call (e, .kvRead path email version)).1 = .error (.app err) := by
  by_cases hnil : m.history path = []
  · exact .inr ⟨VersionedMap.read_of_absent hnil _, _, (h.absent e path email hgood hp hnil).1 _⟩
  rcases version with _ | k
  · have hlast : (m.history path).getLast? = some _ := List.getLast?_eq_some_getLast hnil
    exact .inl ⟨_, _, hlast, h.readLast e path email _ hgood hp hlast⟩
  by_cases hk : k < 1
  · exact .inr ⟨if_neg (by omega), _, h.readBelow e path email k hgood hp hnil hk⟩
  obtain ⟨n, rfl⟩ : ∃ n : Nat, k = n + 1 := ⟨(k - 1).toNat, by omega⟩
  have hread : m.read path (some (n + 1 : Int)) = (m.history path)[n]? := if_pos (by omega)
  rw [hread]
  rcases hx : (m.history path)[n]? with _ | x
  · have hlen := List.getElem?_eq_none_iff.1 hx
    exact .inr ⟨rfl, _, h.readAbove e path email _ hgood hp hnil (by omega) (hsmall _ rfl)⟩
  · exact .inl ⟨x, _, rfl, h.readAt e path email n x hgood hp hx⟩

/-- A read fumbles on a version that the driver does not bind and on a value that does not
    render. -/
theorem World.Stores.fumbles_read (h : w.Stores P m) (ht : w.db.KvTables P good)
    (hlaws : KvLaws P good canon) (hgood : good email) (hchecked : P.Checked)
    (hjson : P.JsonRaises) (hd : w.dek = some d) {version : Option Int} :
    w.Fumbles (e, .kvRead path email version) ↔
      P.validatePath path email = .ok () ∧
        ((m.history path ≠ [] ∧ ∃ k : Int, version = some k ∧ 2 ^ 63 ≤ k) ∨
          ∃ x, m.read path version = some x ∧ P.renders x = false) := by
  rcases hp : P.validatePath path email with x | u
  · have hx := not_escapes_of_isAppError (hchecked.validatePath _ _ _ hp)
    exact iff_of_false (not_fumbles_of_app (kvRead_of_invalid hp e version) hx)
      (by rintro ⟨⟨⟩, -⟩)
  rw [and_iff_right (show (.ok u : Except Exc Unit) = .ok () from rfl)]
  have hanswers := h.answers ht hlaws hd
  by_cases hnil : m.history path = []
  · have hcall := (hanswers.absent e path email hgood hp hnil).1 version
    refine iff_of_false (not_fumbles_of_app hcall (escapes_appError _ _ _)) ?_
    simp [hnil]
  by_cases hbig : ∃ k : Int, version = some k ∧ 2 ^ 63 ≤ k
  · obtain ⟨item, hf, -⟩ := h.found ht hlaws.oneOwner hgood hp hnil
    refine iff_of_true (.inl ?_) (.inl ⟨hnil, hbig⟩)
    rw [handles_iff (m := KVService.read path email version) (f := Data.kvValue) rfl, not_not,
      read_escapes hchecked hjson]
    exact ⟨hp, Option.ne_none_iff_exists'.2 ⟨d, hd⟩, ⟨item, hf⟩, hbig⟩
  · have hsmall : ∀ k, version = some k → k < 2 ^ 63 :=
      fun k hk => Int.not_le.1 fun hle => hbig ⟨k, hk, hle⟩
    rcases hanswers.read hgood hp hsmall e with ⟨x, n, hread, hcall⟩ | ⟨hread, err, hcall⟩
    · rw [fumbles_of_value hcall, hread]
      constructor
      · exact fun hr => .inr ⟨x, rfl, hr⟩
      · rintro (⟨-, h⟩ | ⟨_, ⟨⟩, hr⟩)
        · exact absurd h hbig
        · exact hr
    · refine iff_of_false (not_fumbles_of_app hcall (escapes_app err)) ?_
      rintro (⟨-, h⟩ | ⟨x, hx, -⟩)
      · exact hbig h
      · cases hread.symm.trans hx

end Kv

theorem not_fumbles_locked (hchecked : P.Checked) {email : T} (hc : c.email? = some email)
    (hd : w.dek = none) : ¬ w.Fumbles (e, c) :=
  not_fumbles_of_app (congrArg Prod.fst (call_locked hc e hd))
    (not_escapes_of_isAppError (refusal_isAppError hchecked c))

end Calls

/-! ## What the handlers do not foresee -/

section Unforeseen

variable {F : Type} {L : Lib F} {w w' : World Text Bytes} {m : VersionedMap Text (Json.Value F)}
  {c : Call Text (Json.Value F)}

/-- The calls that end in an internal error: writes of a value that cannot be encoded, or to a
    history that is full; reads of a version that the driver does not bind, or of a value that does
    not render; rotations of a key that is full, and decryptions under a version that the driver
    does not bind. -/
inductive World.Unforeseen (L : Lib F) (w : World Text Bytes)
    (m : VersionedMap Text (Json.Value F)) : Call Text (Json.Value F) → Prop
  | notEncoded {path email data x} (hp : validatePath path email = .ok ()) (hd : w.dek ≠ none)
      (hj : dumps L data = .error x) : Unforeseen L w m (.kvWrite path email data)
  | historyFull {path email data raw} (hp : validatePath path email = .ok ()) (hd : w.dek ≠ none)
      (hj : dumps L data = .ok raw) (hs : raw.length ≤ 1048576)
      (hm : 2 ^ 63 ≤ (m.history path).length + 1) : Unforeseen L w m (.kvWrite path email data)
  | versionTooLarge {path email} {k : Int} (hp : validatePath path email = .ok ())
      (hd : w.dek ≠ none) (hm : m.history path ≠ []) (hk : 2 ^ 63 ≤ k) :
      Unforeseen L w m (.kvRead path email (some k))
  | notRendered {path email version x} (hp : validatePath path email = .ok ()) (hd : w.dek ≠ none)
      (hm : m.read path version = some x) (hr : renders x = false) :
      Unforeseen L w m (.kvRead path email version)
  | keyFull {email name key} (hk : FindReady w.session email name (some .encryptDecrypt) key)
      (hv : 2 ^ 63 ≤ w.db.currentKeyNumber key.id + 1) : Unforeseen L w m (.rotate email name)
  | envelopeTooLarge {email envelope} (h : w.Overflows email envelope) :
      Unforeseen L w m (.decrypt email envelope)

theorem FindReady.held (h : w.held = w'.held) {email name : Text} {usage : Option KeyUsage}
    {key : TransitKey Text} (hk : FindReady w.session email name usage key) :
    FindReady w'.session email name usage key := by
  have hdek : w.session.dek = w'.session.dek := congrArg (fun x => x.2) h
  have hfind : w.session.db.findKey email name = w'.session.db.findKey email name :=
    congrArg (fun x => x.1.findKey email name) h
  exact ⟨hdek ▸ hk.unlocked, hfind ▸ hk.found, hk.live, hk.usageOk⟩

/-- Of the world, only what the services see counts. -/
theorem World.Unforeseen.held (h : w.held = w'.held) (hu : w.Unforeseen L m c) :
    w'.Unforeseen L m c := by
  have hdek : w.dek = w'.dek := congrArg (·.2) h
  cases hu with
  | notEncoded hp hd hj => exact .notEncoded hp (hdek ▸ hd) hj
  | historyFull hp hd hj hs hm => exact .historyFull hp (hdek ▸ hd) hj hs hm
  | versionTooLarge hp hd hm hk => exact .versionTooLarge hp (hdek ▸ hd) hm hk
  | notRendered hp hd hm hr => exact .notRendered hp (hdek ▸ hd) hm hr
  | @keyFull email name key hk hv =>
    have hnumber : w.db.currentKeyNumber key.id = w'.db.currentKeyNumber key.id :=
      congrArg (fun x => x.1.currentKeyNumber key.id) h
    exact .keyFull (hk.held h) (hnumber ▸ hv)
  | envelopeTooLarge hover =>
    obtain ⟨n, name, blob, key, hform, hn, hk⟩ := hover
    exact .envelopeTooLarge ⟨n, name, blob, key, hform, hn, hk.held h⟩

theorem validatePassphrase_error (p : Text) (x : Exc)
    (h : (concrete L).validatePassphrase p = .error x) : x.isAppError = true := by
  have h' : validatePassphrase p = .error x := h
  unfold validatePassphrase at h'
  split_ifs at h'
  exact Except.error.inj h' ▸ rfl

/-! ## Call by call -/

section Calls

variable {email path : Text} {e : Env (concrete L)}
  {is : List (Env (concrete L) × Call Text (Json.Value F))}

theorem fumbles_init_iff
    (hargon : ∀ secret salt, (L.argon2 secret salt (concrete L).defaultParams).length = 32)
    (p q : Text) :
    w.Fumbles (e, .vaultInit p q) ↔ w.Unforeseen L m (.vaultInit p q) := by
  refine iff_of_false (not_fumbles_init validatePassphrase_error (fun p salt => ?_) p q)
    (by rintro ⟨⟩)
  have hlen : (concrete L).len ((concrete L).deriveKey p salt (concrete L).defaultParams) = 32 :=
    hargon (Utf8.encode p) salt
  simp [aesKeyOk, hlen]

theorem fumbles_write_iff (hlaws : KvLaws (concrete L) EmailOk Json.Value.canon)
    (ht : w.db.KvTables (concrete L) EmailOk) (hstores : w.Stores (concrete L) m)
    (hkeyed : ∀ d, w.dek = some d → w.Keyed (concrete L) d) (hgood : EmailOk email)
    (data : Json.Value F) :
    w.Fumbles (e, .kvWrite path email data) ↔ w.Unforeseen L m (.kvWrite path email data) := by
  rcases hd : w.dek with _ | d
  · refine iff_of_false (not_fumbles_locked (concrete_checked L) rfl hd) ?_
    intro hu
    cases hu with
    | notEncoded _ hd' => exact hd' hd
    | historyFull _ hd' => exact hd' hd
  have hunlocked : w.dek ≠ none := Option.ne_none_iff_exists'.2 ⟨d, hd⟩
  rw [hstores.fumbles_write ht hlaws.oneOwner hgood (concrete_checked L) (concrete_jsonRaises L)
    (hkeyed d hd) hd]
  constructor
  · rintro ⟨hp, ⟨x, hj⟩ | ⟨raw, hj, hs, hm⟩⟩
    · exact .notEncoded hp hunlocked hj
    · exact .historyFull hp hunlocked hj hs hm
  · intro hu
    cases hu with
    | notEncoded hp _ hj => exact ⟨hp, .inl ⟨_, hj⟩⟩
    | historyFull hp _ hj hs hm => exact ⟨hp, .inr ⟨_, hj, hs, hm⟩⟩

theorem fumbles_read_iff (hlaws : KvLaws (concrete L) EmailOk Json.Value.canon)
    (ht : w.db.KvTables (concrete L) EmailOk) (hstores : w.Stores (concrete L) m)
    (hgood : EmailOk email) (version : Option Int) :
    w.Fumbles (e, .kvRead path email version) ↔ w.Unforeseen L m (.kvRead path email version) := by
  rcases hd : w.dek with _ | d
  · refine iff_of_false (not_fumbles_locked (concrete_checked L) rfl hd) ?_
    intro hu
    cases hu with
    | versionTooLarge _ hd' => exact hd' hd
    | notRendered _ hd' => exact hd' hd
  have hunlocked : w.dek ≠ none := Option.ne_none_iff_exists'.2 ⟨d, hd⟩
  rw [hstores.fumbles_read ht hlaws hgood (concrete_checked L) (concrete_jsonRaises L) hd]
  constructor
  · rintro ⟨hp, ⟨hne, k, rfl, hk⟩ | ⟨x, hm, hr⟩⟩
    · exact .versionTooLarge hp hunlocked hne hk
    · exact .notRendered hp hunlocked hm hr
  · intro hu
    cases hu with
    | versionTooLarge hp _ hne hk => exact ⟨hp, .inl ⟨hne, _, rfl, hk⟩⟩
    | notRendered hp _ hm hr => exact ⟨hp, .inr ⟨_, hm, hr⟩⟩

theorem fumbles_rotate_iff (hkeyed : ∀ d, w.dek = some d → w.Keyed (concrete L) d)
    (name : Text) :
    w.Fumbles (e, .rotate email name) ↔ w.Unforeseen L m (.rotate email name) := by
  rw [fumbles_rotate fun d hd => (hkeyed d hd).keyOk]
  constructor
  · rintro ⟨key, hready, hv⟩
    exact .keyFull hready hv
  · intro hu
    cases hu with
    | keyFull hready hv => exact ⟨_, hready, hv⟩

theorem fumbles_decrypt_iff (hP : (concrete L).Lawful) (envelope : Text) :
    (World.initial.after is).Fumbles (e, .decrypt email envelope) ↔
      (World.initial.after is).Unforeseen L m (.decrypt email envelope) := by
  rw [fumbles_iff (m := TransitService.decrypt email envelope) (f := Data.plaintext) rfl
    (by rintro _ _ ⟨⟩), raises_unexpected hP (fun x hx => hx.not_escapes) escapes_overflowError]
  constructor
  · exact fun hover => .envelopeTooLarge hover
  · intro hu
    cases hu with
    | envelopeTooLarge hover => exact hover

/-- In every reachable state, a call fumbles exactly in one of these ways. -/
theorem fumbles_iff_unforeseen (hcorrect : L.aesgcm.Correct) (hkey : L.aesgcm.KeyBound)
    (hff : L.floats.Lawful)
    (hargon : ∀ secret salt, (L.argon2 secret salt (concrete L).defaultParams).length = 32)
    (hgood : ∀ i ∈ is, ∀ email, i.2.email? = some email → EmailOk email)
    (hc : ∀ email, c.email? = some email → EmailOk email) :
    (World.initial.after is).Fumbles (e, c) ↔
      (World.initial.after is).Unforeseen L (kvMap Json.Value.canon (World.initial.trace is))
        c := by
  have hlaws := concrete_kvLaws hcorrect hkey hff
  have hP := hlaws.lawful
  have hchecked := concrete_checked L
  obtain ⟨ht, hstores⟩ := stores_run hP hlaws.loads is hgood
  have hkeyed : ∀ d, (World.initial.after is : World Text Bytes).dek = some d →
      (World.initial.after is : World Text Bytes).Keyed (concrete L) d :=
    fun d hd => keyed_of_unlocked hP.unlocks hd
  cases c with
  | vaultInit p q => exact fumbles_init_iff hargon p q
  | vaultUnlock p => exact iff_of_false (not_fumbles_unlock p) (by rintro ⟨⟩)
  | vaultLock => exact iff_of_false not_fumbles_lock (by rintro ⟨⟩)
  | vaultStatus => exact iff_of_false not_fumbles_status (by rintro ⟨⟩)
  | restart => exact iff_of_false not_fumbles_restart (by rintro ⟨⟩)
  | kvWrite path email data => exact fumbles_write_iff hlaws ht hstores hkeyed (hc email rfl) data
  | kvRead path email version => exact fumbles_read_iff hlaws ht hstores (hc email rfl) version
  | kvVersions path email => exact iff_of_false (not_fumbles_versions hchecked) (by rintro ⟨⟩)
  | kvDelete path email => exact iff_of_false (not_fumbles_delete hchecked) (by rintro ⟨⟩)
  | kvList email => exact iff_of_false not_fumbles_kvList (by rintro ⟨⟩)
  | createAes email name =>
    exact iff_of_false (not_fumbles_createAes hchecked fun d hd => (hkeyed d hd).keyOk)
      (by rintro ⟨⟩)
  | createSigning email name =>
    exact iff_of_false (not_fumbles_createSigning hchecked fun d hd => (hkeyed d hd).keyOk)
      (by rintro ⟨⟩)
  | keyList email => exact iff_of_false not_fumbles_keyList (by rintro ⟨⟩)
  | keyGet email name => exact iff_of_false not_fumbles_keyGet (by rintro ⟨⟩)
  | revoke email name => exact iff_of_false not_fumbles_revoke (by rintro ⟨⟩)
  | rotate email name => exact fumbles_rotate_iff hkeyed name
  | encrypt email name plaintextB64 => exact iff_of_false (not_fumbles_encrypt hP) (by rintro ⟨⟩)
  | decrypt email envelope => exact fumbles_decrypt_iff hP envelope
  | sign email name messageB64 messageType =>
    exact iff_of_false (not_fumbles_sign hP) (by rintro ⟨⟩)
  | verify email name messageB64 messageType signatureB64 signingAlgorithm =>
    exact iff_of_false not_fumbles_verify (by rintro ⟨⟩)

end Calls

end Unforeseen

/-! ## Internal errors -/

/-- The body of the handler for `Exception`. -/
def internalError : AppError := ⟨.internalError, "Internal error", 500⟩

section Internal

variable {settings : Settings} {e : Env P} {w w' : World T B} {r : Request T J}
  {resp : Response T J}

omit [DecidableEq T] in
theorem audited_internal {email : T} {row : Option (String × String × T)}
    {res : Except Exc (Data T J)} {n : Nat} (h : answer P res n = .error internalError) :
    w.audited P e email row res = w := by
  unfold World.audited
  split
  · rename_i err
    have herr : err = internalError := Response.error.inj h
    rw [herr, if_neg (by decide)]
  · rfl

/-- A request that ends in an internal error changes nothing. -/
theorem Served.internal (hs : Served settings e w r resp w') (h : resp = .error internalError) :
    w'.db = w.db ∧ w'.dek = w.dek := by
  cases hs with
  | raised => exact ⟨rfl, rfl⟩
  | tokenClash => exact ⟨rfl, rfl⟩
  | vault hc hs => exact hs.failed (by rw [h]; rfl)
  | service hp hc hs =>
    rw [audited_internal h]
    exact hs.failed (by rw [h]; rfl)
  | _ => cases h

theorem Breaks.response {i : Env P × Request T J} (h : w.Breaks settings i) :
    (w.serve settings i).1 = .error internalError := by
  obtain ⟨x, hx, hesc⟩ := h
  unfold World.serve World.request World.run
  rw [hx]
  cases x with
  | app err => exact absurd hesc (escapes_app err)
  | _ => rfl

end Internal

/-- **What ends in an internal error.** After any run of requests from an empty database in which
    whoever registered had an address that `EmailStr` lets through, the handler of a request raises
    an exception that is no `AppError` exactly if the request is a login that draws the token of
    another session, or makes one of the calls that are not foreseen; the request is then answered
    with the bare 500 and changes nothing. -/
theorem internal_errors {F : Type} (L : Lib F) (hcorrect : L.aesgcm.Correct)
    (hkey : L.aesgcm.KeyBound) (hff : L.floats.Lawful)
    (hargon : ∀ secret salt, (L.argon2 secret salt (concrete L).defaultParams).length = 32)
    (settings : Settings) (is : List (Env (concrete L) × Request Text (Json.Value F)))
    (hreg : ∀ i ∈ is, i.2.Registers (concrete L) EmailOk) (e : Env (concrete L))
    (r : Request Text (Json.Value F)) :
    ((World.initial.served settings is).Breaks settings (e, r) ↔
      (∃ email password user, r = .login email password ∧
        (World.initial.served settings is).db.findUser ((concrete L).normalizeEmail email) =
          some user ∧ ¬ user.lockedAt e.now ∧ L.verifyPassword user.passwordHash password = true ∧
        (World.initial.served settings is).db.findSession (tokenDigest (concrete L) e.token) ≠
          none) ∨
      ∃ c, (World.initial.served settings is).behind (e, r) = some (e, c) ∧
        (World.initial.served settings is).Unforeseen L
          (kvHeard Json.Value.canon (World.initial.exchanges settings is)) c) ∧
    ((World.initial.served settings is).Breaks settings (e, r) →
      ((World.initial.served settings is).serve settings (e, r)).1 = .error internalError ∧
        ((World.initial.served settings is).serve settings (e, r)).2.db =
          (World.initial.served settings is).db ∧
        ((World.initial.served settings is).serve settings (e, r)).2.dek =
          (World.initial.served settings is).dek) := by
  have hheld := served_held settings (World.initial : World Text Bytes) is
  refine ⟨?_, fun h => ⟨Breaks.response h,
    (served_of_request settings e _ r).internal (Breaks.response h)⟩⟩
  rcases hb : (World.initial.served settings is : World Text Bytes).behind (e, r) with _ | x
  · refine Iff.trans ?_ (or_iff_left (by rintro ⟨_, ⟨⟩, -⟩)).symm
    cases hr : r.isLogin with
    | false =>
      refine iff_of_false (not_breaks validatePassphrase_error hb hr) ?_
      rintro ⟨email, password, user, rfl, -⟩
      cases hr
    | true =>
      obtain ⟨email, password, rfl⟩ : ∃ email password, r = .login email password := by
        cases r <;> cases hr
        exact ⟨_, _, rfl⟩
      rw [breaks_login]
      constructor
      · rintro ⟨user, hrest⟩
        exact ⟨email, password, user, rfl, hrest⟩
      · rintro ⟨_, _, user, ⟨⟩, hrest⟩
        exact ⟨user, hrest⟩
  obtain ⟨c, rfl, hlogin, hgood⟩ : ∃ c, x = (e, c) ∧ r.isLogin = false ∧
      ∀ email, c.email? = some email → EmailOk email := by
    rcases behind_cases hb with ⟨c, hc, rfl⟩ | ⟨credentials, u, p, c, rfl, hp, hc, rfl⟩
    · refine ⟨c, rfl, ?_, fun email hemail => ?_⟩
      · cases r <;> cases hc <;> rfl
      · cases r <;> cases hc <;> cases hemail
    · refine ⟨c, rfl, rfl, fun email hemail => ?_⟩
      cases (UserRequest.call_email hc).symm.trans hemail
      exact (serving_run settings is hreg).principal hp
  refine Iff.trans ?_ (or_iff_right ?_).symm
  · rw [breaks_behind hb, fumbles_held hheld, fumbles_iff_unforeseen hcorrect hkey hff hargon
      (calls_good settings is hreg) hgood, kvHeard_eq]
    constructor
    · exact fun h => ⟨c, rfl, h.held hheld.symm⟩
    · rintro ⟨_, ⟨⟩, h⟩
      exact h.held hheld
  · rintro ⟨email, password, user, rfl, -⟩
    cases hlogin

namespace Sample

/-- A NaN is written over HTTP. -/
def nanRequests : List SampleRequest :=
  signedIn ++ [(env 5, .user (some token) (.kvWrite path notANumber))]

end Sample

open Sample in
theorem internal_errors_sample :
    (World.initial.served {} nanRequests).Breaks {}
        (env 6, .user (some token) (.kvRead path none)) ∧
      ((World.initial.served {} nanRequests).serve {}
        (env 6, .user (some token) (.kvRead path none))).1 = .error internalError := by
  obtain ⟨hdek, hemail, hread⟩ :
      (World.initial.served {} nanRequests).dek = some dataKey ∧
        ((World.initial.served {} nanRequests).db.principal (concrete lib) (env 6).now
          (some token)).toOption.map (·.user.email) = some alice ∧
        ((kvHeard Json.Value.canon (World.initial.exchanges {} nanRequests)).read path none).map
          renders = some false := by
    decide +kernel
  have hbehind : (World.initial.served {} nanRequests).behind
      (env 6, .user (some token) (.kvRead path none)) =
        some (env 6, .kvRead path alice none) := by
    rcases hp : (World.initial.served {} nanRequests).db.principal (concrete lib) (env 6).now
      (some token) with x | p
    · rw [hp] at hemail
      cases hemail
    · rw [hp] at hemail
      rw [behind_user hp, show p.user.email = alice from Option.some.inj hemail]
      rfl
  obtain ⟨x, hx, hr⟩ := Option.map_eq_some_iff.1 hread
  have hbreaks := internal_errors lib aesgcm_correct aesgcm_keyBound floats_lawful
    (fun secret salt => List.length_take_of_le (by simp)) {} nanRequests
    (registers_of_registering (by decide)) (env 6) (.user (some token) (.kvRead path none))
  have h := hbreaks.1.2 (.inr ⟨_, hbehind, .notRendered (by decide) (by rw [hdek]; rintro ⟨⟩)
    hx hr⟩)
  exact ⟨h, (hbreaks.2 h).1⟩

end MiniVault
