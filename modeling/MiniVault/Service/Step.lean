/-
  What one call can do to the world. Every invariant of the services is derived from the cases
  of `Step`; no later proof unfolds a service.
-/
import MiniVault.Service.Views

namespace MiniVault

open Kit Imp

variable {T B J : Type} {P : Prims T B J}

/-- Does the call leave the world alone? -/
def Call.isView : Call T J → Bool
  | .vaultStatus | .kvRead .. | .kvVersions .. | .kvList .. | .keyList .. | .keyGet .. => true
  | .decrypt .. | .sign .. | .verify .. => true
  | _ => false

/-- The world after a call that encrypted once and committed new tables. -/
def World.wrote (w : World T B) (db : Database T) (x : Sealing B) : World T B :=
  { w with db := db, sealings := w.sealings ++ [x] }

/-- The world after a call that encrypted once and changed nothing else. -/
def World.sealing (w : World T B) (x : Sealing B) : World T B := w.wrote w.db x

section Wrote

variable (w : World T B) (db : Database T) (x : Sealing B)

@[simp] theorem wrote_db : (w.wrote db x).db = db := rfl

@[simp] theorem wrote_dek : (w.wrote db x).dek = w.dek := rfl

@[simp] theorem wrote_sealings : (w.wrote db x).sealings = w.sealings ++ [x] := rfl

end Wrote

variable [DecidableEq T]

/-- The cases of one call: what it was, its outcome, and the world it leaves. -/
inductive Step (e : Env P) (w : World T B) :
    Call T J → Except Exc (Data T J) → World T B → Prop
  | fail (c x) : Step e w c (.error x) w
  | view {c} (d) (hc : c.isView = true) : Step e w c (.ok d) w
  | vaultInit (p) (hempty : w.db.vaultConfig = [])
      (hk : aesKeyOk P (P.deriveKey p e.salt P.defaultParams) = true) :
      Step e w (.vaultInit p p) (.ok (.vaultStatus true false))
        { w.wrote { w.db with vaultConfig := [newConfig P e p] }
            ⟨P.deriveKey p e.salt P.defaultParams, e.nonce, e.dek, dekAad P⟩ with
          dek := none }
  | vaultUnlock (p) {config dek} (hc : w.db.vaultConfig.head? = some config)
      (hu : VaultService.unwrapDek P config p = .ok dek) :
      Step e w (.vaultUnlock p) (.ok (.vaultStatus true true)) { w with dek := some dek }
  | vaultLock : Step e w .vaultLock (.ok (.vaultStatus true false)) { w with dek := none }
  | restart :
      Step e w .restart (.ok .restarted)
        { w with db := { w.db with auditLogs := ensureSchema P w.db.auditLogs }, dek := none }
  | kvOverflow {path email data dek raw item} (h : WriteReady P w.session path email data dek raw)
      (hf : w.db.findPath path = some item) (hv : ¬ w.db.nextKvVersion item.id < 2 ^ 63) :
      Step e w (.kvWrite path email data) (.error .overflowError)
        (w.sealing (kvSealing P e path dek raw))
  | kvCreate {path email data dek raw} (h : WriteReady P w.session path email data dek raw)
      (hf : w.db.findPath path = none) :
      Step e w (.kvWrite path email data)
        (.ok (.kvWritten ⟨path, 1, P.isoformat true e.now, P.isoformat true e.now⟩))
        (w.wrote (w.db.kvCreate P e path email dek raw) (kvSealing P e path dek raw))
  | kvUpdate {path email data dek raw item} (h : WriteReady P w.session path email data dek raw)
      (hf : w.db.findPath path = some item) (hv : w.db.nextKvVersion item.id < 2 ^ 63) :
      Step e w (.kvWrite path email data)
        (.ok (.kvWritten ⟨item.path, w.db.nextKvVersion item.id,
          P.isoformat false item.createdAt, P.isoformat true e.now⟩))
        (w.wrote (w.db.kvUpdate P e item path dek raw) (kvSealing P e path dek raw))
  | kvDelete {path email dek item} (hp : P.validatePath path email = .ok ())
      (hd : w.dek = some dek) (hf : w.db.findOwned path email = some item) :
      Step e w (.kvDelete path email) (.ok .deleted)
        { w with db := w.db.deleteKvSecret item.id }
  | createAes {email name dek} (h : CreateReady P w.session email name dek) (m) :
      Step e w (.createAes email name) (.ok (.key m))
        (w.wrote (w.db.keyCreate P e email name .encryptDecrypt dek)
          (keySealing P e email name 1 dek))
  | createSigning {email name dek} (h : CreateReady P w.session email name dek) (m) :
      Step e w (.createSigning email name) (.ok (.key m))
        (w.wrote (w.db.keyCreate P e email name .signVerify dek) (keySealing P e email name 1 dek))
  | revoke {email name key} (h : FindReady w.session email name none key) :
      Step e w (.revoke email name) (.ok .revoked) { w with db := w.db.keyRevoke key.id e.now }
  | rotateOverflow {email name key dek}
      (h : FindReady w.session email name (some .encryptDecrypt) key) (hd : w.dek = some dek)
      (hv : ¬ w.db.currentKeyNumber key.id + 1 < 2 ^ 63) :
      Step e w (.rotate email name) (.error .overflowError)
        (w.sealing (keySealing P e email name (w.db.currentKeyNumber key.id + 1) dek))
  | rotate {email name key dek}
      (h : FindReady w.session email name (some .encryptDecrypt) key) (hd : w.dek = some dek)
      (hv : w.db.currentKeyNumber key.id + 1 < 2 ^ 63) :
      Step e w (.rotate email name)
        (.ok (.key (TransitService.metadata P false key
          ((w.db.keyRotate P e key email name dek).currentKeyNumber key.id))))
        (w.wrote (w.db.keyRotate P e key email name dek)
          (keySealing P e email name (w.db.currentKeyNumber key.id + 1) dek))
  | encrypt {email name plaintextB64} (h : EncryptReady P w.session email name plaintextB64) :
      Step e w (.encrypt email name plaintextB64)
        (.ok (.ciphertext (envelope P (w.db.currentKeyNumber h.key.id) name
          (P.append e.nonce (P.aesgcm.encrypt h.material e.nonce h.raw (h.sealing e).aad)))))
        (w.sealing (h.sealing e))

/-! ## Every call is a step -/

section Runs

variable {e : Env P} {w : World T B} {c : Call T J} {r : Except Exc (Data T J)} {s : Proc T B}

/-- A call is one operation, whose result it wraps. -/
theorem call_eq {α : Type} {m : Py P α} {f : α → Data T J} {r : Except Exc α}
    (hrun : c.run = m >>= fun a => pure (f a)) (h : m e w.session = (r, s)) :
    w.call (e, c) = (r.map f, s.close) := by
  unfold World.call World.run
  rw [hrun, bind_apply, h]
  rcases r with x | a
  · rfl
  · rfl

theorem call_of_error {α : Type} {m : Py P α} {f : α → Data T J} {x : Exc}
    (hrun : c.run = m >>= fun a => pure (f a)) (h : m e w.session = (.error x, w.session)) :
    Step e w c (w.call (e, c)).1 (w.call (e, c)).2 := by
  rw [call_eq hrun h]
  exact .fail c x

theorem call_of_view {α : Type} {m : Py P α} {f : α → Data T J}
    (hrun : c.run = m >>= fun a => pure (f a)) (hc : c.isView = true)
    (h : (m e w.session).2 = w.session) :
    Step e w c (w.call (e, c)).1 (w.call (e, c)).2 := by
  rcases hr : m e w.session with ⟨x | a, s⟩
  · rw [hr] at h
    subst h
    exact call_of_error hrun hr
  · rw [hr] at h
    subst h
    rw [call_eq hrun hr]
    exact .view (f a) hc

end Runs

theorem vaultInit_step (e : Env P) (w : World T B) (p c : T) :
    Step e w (.vaultInit p c) (w.call (e, .vaultInit p c)).1 (w.call (e, .vaultInit p c)).2 := by
  rcases init_cases p c e w.session with ⟨x, hx⟩ | ⟨hempty, rfl, hk, h⟩
  · exact call_of_error rfl hx
  · rw [call_eq (c := Call.vaultInit p p) rfl h]
    exact .vaultInit p hempty hk

theorem vaultUnlock_step (e : Env P) (w : World T B) (p : T) :
    Step e w (.vaultUnlock p) (w.call (e, .vaultUnlock p)).1 (w.call (e, .vaultUnlock p)).2 := by
  rcases unlock_cases p e w.session with ⟨x, hx⟩ | ⟨config, dek, hc, hu, h⟩
  · exact call_of_error rfl hx
  · rw [call_eq (c := Call.vaultUnlock p) rfl h]
    exact .vaultUnlock p hc hu

theorem kvWrite_step (e : Env P) (w : World T B) (path email : T) (data : J) :
    Step e w (.kvWrite path email data) (w.call (e, .kvWrite path email data)).1
      (w.call (e, .kvWrite path email data)).2 := by
  rcases write_cases path email data e w.session with ⟨x, hx⟩ | ⟨dek, raw, h⟩
  · exact call_of_error rfl hx
  rcases hf : w.db.findPath path with _ | item
  · rw [call_eq (c := Call.kvWrite path email data) rfl (write_create h e hf)]
    exact .kvCreate h hf
  by_cases hv : w.db.nextKvVersion item.id < 2 ^ 63
  · rw [call_eq (c := Call.kvWrite path email data) rfl (write_update h e hf hv)]
    exact .kvUpdate h hf hv
  · obtain ⟨db, hdb⟩ := write_overflow h e hf hv
    rw [call_eq (c := Call.kvWrite path email data) rfl hdb]
    exact .kvOverflow h hf hv

theorem kvDelete_step (e : Env P) (w : World T B) (path email : T) :
    Step e w (.kvDelete path email) (w.call (e, .kvDelete path email)).1
      (w.call (e, .kvDelete path email)).2 := by
  rcases delete_cases path email e w.session with ⟨x, hx⟩ | ⟨dek, item, hp, hd, hf, h⟩
  · exact call_of_error rfl hx
  · rw [call_eq (c := Call.kvDelete path email) rfl h]
    exact .kvDelete hp hd hf

theorem createAes_step (e : Env P) (w : World T B) (email name : T) :
    Step e w (.createAes email name) (w.call (e, .createAes email name)).1
      (w.call (e, .createAes email name)).2 := by
  rcases create_cases email name e w.session with ⟨⟨x, hx⟩, -⟩ | ⟨dek, h⟩
  · exact call_of_error rfl hx
  · rw [call_eq (c := Call.createAes email name) rfl (createAes_of_ready h e)]
    exact .createAes h _

theorem createSigning_step (e : Env P) (w : World T B) (email name : T) :
    Step e w (.createSigning email name) (w.call (e, .createSigning email name)).1
      (w.call (e, .createSigning email name)).2 := by
  rcases create_cases email name e w.session with ⟨-, x, hx⟩ | ⟨dek, h⟩
  · exact call_of_error rfl hx
  · rw [call_eq (c := Call.createSigning email name) rfl (createSigning_of_ready h e)]
    exact .createSigning h _

theorem revoke_step (e : Env P) (w : World T B) (email name : T) :
    Step e w (.revoke email name) (w.call (e, .revoke email name)).1
      (w.call (e, .revoke email name)).2 := by
  rcases revoke_cases email name e w.session with ⟨x, hx⟩ | ⟨key, hkey, h⟩
  · exact call_of_error rfl hx
  · rw [call_eq (c := Call.revoke email name) rfl h]
    exact .revoke hkey

theorem rotate_step (e : Env P) (w : World T B) (email name : T) :
    Step e w (.rotate email name) (w.call (e, .rotate email name)).1
      (w.call (e, .rotate email name)).2 := by
  rcases rotate_cases email name e w.session with ⟨x, hx⟩ | ⟨key, dek, h, hd, hk⟩
  · exact call_of_error rfl hx
  by_cases hv : w.db.currentKeyNumber key.id + 1 < 2 ^ 63
  · rw [call_eq (c := Call.rotate email name) rfl (rotate_of_ready h hd hk e hv)]
    exact .rotate h hd hv
  · obtain ⟨db, hdb⟩ := rotate_overflow h hd hk e hv
    rw [call_eq (c := Call.rotate email name) rfl hdb]
    exact .rotateOverflow h hd hv

theorem encrypt_step (e : Env P) (w : World T B) (email name plaintextB64 : T) :
    Step e w (.encrypt email name plaintextB64) (w.call (e, .encrypt email name plaintextB64)).1
      (w.call (e, .encrypt email name plaintextB64)).2 := by
  rcases transitEncrypt_cases email name plaintextB64 e w.session with ⟨x, hx⟩ | ⟨⟨h⟩⟩
  · exact call_of_error rfl hx
  · rw [call_eq (c := Call.encrypt email name plaintextB64) rfl (transitEncrypt_of_ready h e)]
    exact .encrypt h

/-- Every call is one of the steps. -/
theorem step_of_call (e : Env P) (w : World T B) (c : Call T J) :
    Step e w c (w.call (e, c)).1 (w.call (e, c)).2 := by
  cases c with
  | vaultInit p c => exact vaultInit_step e w p c
  | vaultUnlock p => exact vaultUnlock_step e w p
  | vaultLock => exact .vaultLock
  | vaultStatus => exact .view _ rfl
  | restart => exact .restart
  | kvWrite path email data => exact kvWrite_step e w path email data
  | kvRead path email version => exact call_of_view rfl rfl (read_state path email version e _)
  | kvVersions path email => exact call_of_view rfl rfl (versions_state path email e _)
  | kvDelete path email => exact kvDelete_step e w path email
  | kvList email => exact call_of_view rfl rfl (list_state email e _)
  | createAes email name => exact createAes_step e w email name
  | createSigning email name => exact createSigning_step e w email name
  | keyList email => exact call_of_view rfl rfl (keyList_state email e _)
  | keyGet email name => exact call_of_view rfl rfl (keyGet_state email name e _)
  | revoke email name => exact revoke_step e w email name
  | rotate email name => exact rotate_step e w email name
  | encrypt email name plaintextB64 => exact encrypt_step e w email name plaintextB64
  | decrypt email ciphertext =>
    exact call_of_view rfl rfl (transitDecrypt_state email ciphertext e _)
  | sign email name message kind =>
    exact call_of_view rfl rfl (sign_state email name message kind e _)
  | verify email name message kind signature algorithm =>
    exact call_of_view rfl rfl (verify_state email name message kind signature algorithm e _)

end MiniVault
