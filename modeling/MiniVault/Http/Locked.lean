/-
  A locked vault: every operation on secrets and keys is refused with an error that only its
  arguments determine, so that nothing about the tables shows.
-/
import MiniVault.Http.Step
import MiniVault.Service.Exceptions
import MiniVault.Model.Sample

namespace MiniVault

open Kit Imp

variable {T B J : Type} {P : Prims T B J}

/-! ## What a locked vault answers -/

/-- `raise AppError("VAULT_LOCKED", "Vault is locked", 423)` -/
def vaultLocked : Exc := appError .vaultLocked "Vault is locked" 423

/-- What a check raises, and if it passes, what the lock check after it raises. -/
def refusedAfter {α : Type} : Except Exc α → Exc
  | .error x => x
  | .ok _ => vaultLocked

/-- The head of `TransitService.decrypt`, all it checks before it looks for the key: version,
    key name and blob of a ciphertext. -/
def readCiphertext (P : Prims T B J) (ciphertext : T) : Except Exc (Nat × T × B) :=
  match P.readEnvelope ciphertext with
  | .error x => .error x
  | .ok (version, name, blobB64) =>
    match b64d P blobB64 .invalidCiphertext with
    | .error x => .error x
    | .ok blob =>
      if P.len blob < 28 then .error (appError .invalidCiphertext "Invalid ciphertext" 400)
      else .ok (version, name, blob)

/-- What a locked vault answers to a call. -/
def Call.refusal (P : Prims T B J) : Call T J → Exc
  | .kvWrite path email _ => refusedAfter (P.validatePath path email)
  | .kvRead path email _ => refusedAfter (P.validatePath path email)
  | .kvVersions path email => refusedAfter (P.validatePath path email)
  | .kvDelete path email => refusedAfter (P.validatePath path email)
  | .createAes _ name => refusedAfter (P.validateKeyName name)
  | .createSigning _ name => refusedAfter (P.validateKeyName name)
  | .decrypt _ ciphertext => refusedAfter (readCiphertext P ciphertext)
  | _ => vaultLocked

theorem refusedAfter_isAppError {α : Type} {check : Except Exc α}
    (h : ∀ x, check = .error x → x.isAppError = true) :
    (refusedAfter check).isAppError = true := by
  rcases check with x | a
  · exact h x rfl
  · rfl

theorem readCiphertext_isAppError (hP : P.Checked) {ciphertext : T} {x : Exc}
    (h : readCiphertext P ciphertext = .error x) : x.isAppError = true := by
  unfold readCiphertext at h
  split at h
  · rename_i x' hx
    cases h
    exact hP.readEnvelope _ _ hx
  · split at h
    · rename_i x' hx
      cases h
      unfold b64d at hx
      split at hx
      · cases hx
      · cases hx
        rfl
    · split_ifs at h
      cases h
      rfl

theorem refusal_isAppError (hP : P.Checked) (c : Call T J) :
    (c.refusal P).isAppError = true := by
  cases c with
  | kvWrite path email data => exact refusedAfter_isAppError (hP.validatePath path email)
  | kvRead path email version => exact refusedAfter_isAppError (hP.validatePath path email)
  | kvVersions path email => exact refusedAfter_isAppError (hP.validatePath path email)
  | kvDelete path email => exact refusedAfter_isAppError (hP.validatePath path email)
  | createAes email name => exact refusedAfter_isAppError (hP.validateKeyName name)
  | createSigning email name => exact refusedAfter_isAppError (hP.validateKeyName name)
  | decrypt email ciphertext =>
    exact refusedAfter_isAppError fun x h => readCiphertext_isAppError hP h
  | _ => rfl

variable [DecidableEq T]

section Operations

variable {e : Env P} {s : Proc T B}

theorem find_locked (hd : s.dek = none) (email name : T) (usage : Option KeyUsage) :
    TransitService.find email name usage e s = (.error vaultLocked, s) := by
  simp [TransitService.find, requireDek_of_none hd, vaultLocked]

theorem decrypt_of_unreadable {ciphertext : T} {x : Exc}
    (h : readCiphertext P ciphertext = .error x) (email : T) :
    TransitService.decrypt email ciphertext e s = (.error x, s) := by
  unfold readCiphertext at h
  rcases hp : P.readEnvelope ciphertext with y | ⟨version, name, blobB64⟩
  · rw [hp] at h
    cases h
    simp [TransitService.decrypt, hp]
  rcases hb : b64d P blobB64 .invalidCiphertext with y | blob
  · simp only [hp, hb] at h
    cases h
    simp [TransitService.decrypt, hp, hb]
  by_cases hl : P.len blob < 28
  · simp only [hp, hb, if_pos hl] at h
    cases h
    simp [TransitService.decrypt, hp, hb, hl]
  · simp only [hp, hb, if_neg hl] at h
    cases h

/-- Past its head, `decrypt` goes to `_find`. -/
theorem decrypt_of_find_error {ciphertext name : T} {version : Nat} {blob : B} {x : Exc}
    (h : readCiphertext P ciphertext = .ok (version, name, blob)) {email : T}
    (hf : TransitService.find email name (some .encryptDecrypt) e s = (.error x, s)) :
    TransitService.decrypt email ciphertext e s = (.error x, s) := by
  unfold readCiphertext at h
  rcases hp : P.readEnvelope ciphertext with y | ⟨version', name', blobB64⟩
  · rw [hp] at h
    cases h
  rcases hb : b64d P blobB64 .invalidCiphertext with y | blob'
  · simp only [hp, hb] at h
    cases h
  by_cases hl : P.len blob' < 28
  · simp only [hp, hb, if_pos hl] at h
    cases h
  · simp only [hp, hb, if_neg hl] at h
    cases h
    simp [TransitService.decrypt, hp, hb, hl, hf]

theorem decrypt_locked (hd : s.dek = none) (email ciphertext : T) :
    TransitService.decrypt email ciphertext e s =
      (.error (refusedAfter (readCiphertext P ciphertext)), s) := by
  rcases h : readCiphertext P ciphertext with x | ⟨version, name, blob⟩
  · exact decrypt_of_unreadable h email
  · exact decrypt_of_find_error h (find_locked hd email name _)

/-- A locked vault refuses every call of a user, and leaves the session as it was. -/
theorem run_locked {c : Call T J} {email : T} (hc : c.email? = some email) (hd : s.dek = none) :
    c.run e s = (.error (c.refusal P), s) := by
  have hwrap : ∀ {α β : Type} {m : Py P α} {f : α → β} {x : Exc}, m e s = (.error x, s) →
      (m >>= fun a => pure (f a)) e s = (.error x, s) := by
    intro α β m f x h
    rw [bind_apply, h]
  have hlocked : (requireDek : Py P B) e s = (.error vaultLocked, s) := requireDek_of_none hd e
  cases c with
  | kvWrite path email data =>
    refine hwrap ?_
    rcases hp : P.validatePath path email with x | _ <;>
      simp [KVService.write, hp, hlocked, Call.refusal, refusedAfter]
  | kvRead path email version =>
    refine hwrap ?_
    rcases hp : P.validatePath path email with x | _ <;>
      simp [KVService.read, hp, hlocked, Call.refusal, refusedAfter]
  | kvVersions path email =>
    refine hwrap ?_
    rcases hp : P.validatePath path email with x | _ <;>
      simp [KVService.versions, hp, hlocked, Call.refusal, refusedAfter]
  | kvDelete path email =>
    rcases hp : P.validatePath path email with x | _ <;>
      simp [Call.run, KVService.delete, hp, hlocked, Call.refusal, refusedAfter]
  | kvList email =>
    refine hwrap ?_
    simp [KVService.list, hlocked, Call.refusal]
  | createAes email name =>
    refine hwrap ?_
    rcases hn : P.validateKeyName name with x | _ <;>
      simp [TransitService.createAes, hn, hlocked, Call.refusal, refusedAfter]
  | createSigning email name =>
    refine hwrap ?_
    rcases hn : P.validateKeyName name with x | _ <;>
      simp [TransitService.createSigning, hn, hlocked, Call.refusal, refusedAfter]
  | keyList email =>
    refine hwrap ?_
    simp [TransitService.list, hlocked, Call.refusal]
  | keyGet email name =>
    refine hwrap ?_
    simp [TransitService.get, find_locked hd, Call.refusal]
  | revoke email name => simp [Call.run, TransitService.revoke, find_locked hd, Call.refusal]
  | rotate email name =>
    refine hwrap ?_
    simp [TransitService.rotate, find_locked hd, Call.refusal]
  | encrypt email name plaintextB64 =>
    refine hwrap ?_
    simp [TransitService.encrypt, find_locked hd, Call.refusal]
  | decrypt email ciphertext =>
    refine hwrap ?_
    rw [decrypt_locked hd, Call.refusal]
  | sign email name message kind =>
    refine hwrap ?_
    simp [TransitService.sign, find_locked hd, Call.refusal]
  | verify email name message kind signature algorithm =>
    refine hwrap ?_
    simp [TransitService.verify, find_locked hd, Call.refusal]
  | _ => cases hc

end Operations

/-! ## Calls and requests -/

theorem call_locked {c : Call T J} {email : T} (hc : c.email? = some email) (e : Env P)
    {w : World T B} (hd : w.dek = none) : w.call (e, c) = (.error (c.refusal P), w) := by
  unfold World.call World.run
  rw [run_locked hc (s := w.session) hd]
  rfl

/-- The four tables of secrets and keys. -/
def Database.stored (db : Database T) :
    List (KVSecret T) × List (KVSecretVersion T) × List (TransitKey T) ×
      List (TransitKeyVersion T) :=
  (db.kvSecrets, db.kvSecretVersions, db.transitKeys, db.transitKeyVersions)

/-- **A locked vault does nothing and reveals nothing.** Each operation on secrets or keys has
    one `AppError` that it ends in whenever the vault is locked, whatever the tables hold, as a
    service call and as a request of an authenticated user; the tables of secrets and keys stay. -/
theorem locked_vault {F : Type} (L : Lib F) {c : Call Text (Json.Value F)} {email : Text}
    (hc : c.email? = some email) :
    ∃ err : AppError,
      (∀ (e : Env (concrete L)) (w : World Text Bytes), w.dek = none →
        w.call (e, c) = (.error (.app err), w)) ∧
      ∀ (settings : Settings) (e : Env (concrete L)) (w : World Text Bytes)
        (credentials : Option Text) (p : Principal Text) (r : UserRequest Text (Json.Value F)),
        w.dek = none → w.db.principal (concrete L) e.now credentials = .ok p →
        r.call p.user.email = some c →
          (w.request settings e (.user credentials r)).1 = .error err ∧
            (w.request settings e (.user credentials r)).2.db.stored = w.db.stored ∧
            (w.request settings e (.user credentials r)).2.dek = none := by
  obtain ⟨err, herr⟩ : ∃ err, c.refusal (concrete L) = .app err := by
    have happ := refusal_isAppError (concrete_checked L) c
    rcases hx : c.refusal (concrete L) with err | _ | _ | _ | _ | _ <;> rw [hx] at happ
    · exact ⟨err, rfl⟩
    all_goals cases happ
  refine ⟨err, fun e w hd => ?_, fun settings e w credentials p r hd hp hr => ?_⟩
  · rw [call_locked hc e hd, herr]
  · have hcall : w.call (e, c) = (.error (.app err), w) := by rw [call_locked hc e hd, herr]
    rw [request_user hp hr, hcall]
    obtain ⟨logs, hlogs⟩ := audited_db w e p.user.email (r.audits (concrete L))
      (.error (.app err) : Except Exc (Data Text (Json.Value F)))
    refine ⟨rfl, ?_, ?_⟩
    · rw [hlogs]
      rfl
    · rw [audited_dek]
      exact hd

namespace Sample

/-- A secret is stored, and the vault is locked. -/
def lockedWorld : World Text Bytes := World.initial.after (kvCalls ++ [(env 5, .vaultLock)])

end Sample

open Sample in
theorem locked_vault_sample :
    lockedWorld.db.kvSecretVersions.length = 2 ∧
      ∃ err : AppError, lockedWorld.call (env 6, .kvRead path alice none) =
        (.error (.app err), lockedWorld) := by
  refine ⟨by decide +kernel, ?_⟩
  obtain ⟨err, hcall, -⟩ := locked_vault lib (c := .kvRead path alice none) rfl
  exact ⟨err, hcall (env 6) lockedWorld (by decide +kernel)⟩

end MiniVault
