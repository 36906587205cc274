/-
  Secrecy of keys. Requests come from clients who know all that was ever committed or answered;
  nothing that they can make of it is a data key, a named key, or the key derived from the
  master passphrase.
-/
import MiniVault.Model.Sample
import MiniVault.Security.Transit

namespace MiniVault

open Kit DolevYao Imp

variable {X : Reading Atom}

/-! ## Accounts -/

section Terms

variable {T : Type}

def Login.terms (l : Login T) : List T := [l.accessToken, l.tokenType]

end Terms

theorem secures_register {email password confirmation : Term Atom} (hemail : Public email)
    (hpassword : Public password) :
    Secures (AuthService.register email password confirmation : Py (symbolic X) _) Public := by
  have hnormal : Public ((symbolic X).normalizeEmail email) :=
    hemail.derives (X.normalizeEmail_derives email)
  unfold AuthService.register
  dsimp only
  refine .ite (fun _ => ensures_raise_bind _ _) fun _ => (secures_ofExcept _).bind fun _ _ => ?_
  refine (secures_query (Q := fun _ => True) fun _ _ => trivial).bind fun _ _ => ?_
  refine .ite (fun _ => ensures_raise_bind _ _) fun _ => ensures_environ.bind fun e he => ?_
  refine (secures_query (Q := fun _ => True) fun _ _ => trivial).bind fun id _ => ?_
  refine (secures_update fun db hdb => hdb.addUser ?_).bind fun _ _ =>
    secures_commit.bind fun _ _ => ensures_pure hnormal
  obtain ⟨n, hn⟩ := he.passwordSalt
  have hsalt : Public e.passwordSalt := by
    rw [hn]
    exact fun h => h
  simp only [User.Guarded, AllPublic, User.cells, List.forall_mem_cons]
  exact ⟨hnormal, ⟨hsalt, hpassword⟩, by rintro _ ⟨⟩⟩

theorem secures_checkLock (user? : Option (User (Term Atom))) (now : Time) :
    Secures (AuthService.checkLock user? now : Py (symbolic X) _) fun _ => True := by
  unfold AuthService.checkLock
  rcases user? with _ | user
  · exact ensures_pure trivial
  dsimp only
  rcases user.lockedUntil with _ | t
  · exact ensures_pure trivial
  · exact .ite (fun _ => ensures_raise_bind _ _) fun _ =>
      (secures_update fun db hdb => hdb.setLockout _ _ _).bind fun _ _ => ensures_pure trivial

theorem public_tokenDigest (token : Term Atom) : Public (tokenDigest (symbolic X) token) := trivial

theorem secures_login (settings : Settings) (email password : Term Atom) :
    Secures (AuthService.login settings email password : Py (symbolic X) _) fun l =>
      AllPublic l.terms := by
  unfold AuthService.login
  refine (secures_query (Q := fun _ => True) fun _ _ => trivial).bind fun found _ =>
    secures_utcnow.bind fun now _ => (secures_checkLock found now).bind fun user? _ => ?_
  rcases user? with _ | user
  · exact ensures_raise _
  dsimp only
  refine .ite (fun _ => ?_) fun _ => ?_
  · exact (secures_update fun db hdb => hdb.setLockout _ _ _).bind fun _ _ =>
      secures_commit.bind fun _ _ => ensures_raise_bind _ _
  refine (secures_update fun db hdb => hdb.setLockout _ _ _).bind fun _ _ =>
    ensures_environ.bind fun e he => ?_
  refine (secures_query (Q := fun _ => True) fun _ _ => trivial).bind fun clash _ =>
    .ite (fun _ => ensures_raise_bind _ _) fun _ => ?_
  refine (secures_query (Q := fun _ => True) fun _ _ => trivial).bind fun id _ => ?_
  refine (secures_update fun db hdb => hdb.addSession ?_).bind fun _ _ =>
    secures_commit.bind fun _ _ => ensures_pure ?_
  · exact List.forall_mem_singleton.2 (public_tokenDigest e.token)
  · obtain ⟨n, hn⟩ := he.token
    simp only [AllPublic, Login.terms, List.forall_mem_cons, hn]
    exact ⟨fun h => h, public_const _, by rintro _ ⟨⟩⟩

theorem secures_logout (session : Session (Term Atom)) :
    Secures (AuthService.logout session : Py (symbolic X) Unit) fun _ => True := by
  unfold AuthService.logout
  exact secures_utcnow.bind fun _ _ =>
    (secures_update fun db hdb => hdb.revokeSession _ _).bind fun _ _ => secures_commit

/-- A user row has a public address. -/
theorem secures_currentPrincipal (credentials : Option (Term Atom)) :
    Secures (currentPrincipal credentials : Py (symbolic X) _) fun p => Public p.user.email := by
  unfold currentPrincipal
  rcases credentials.filter (symbolic X).truthy with _ | token
  · exact ensures_raise _
  refine (secures_query (Q := fun _ => True) fun _ _ => trivial).bind fun session? _ => ?_
  rcases session? with _ | session
  · exact ensures_raise _
  dsimp only
  refine .ite (fun _ => ensures_raise_bind _ _) fun _ => secures_utcnow.bind fun now _ => ?_
  refine .ite (fun _ => ensures_raise_bind _ _) fun _ => ?_
  refine (secures_query (Q := fun u => ∀ user, u = some user → user.Guarded)
    fun db hdb user huser => hdb.users user (List.mem_of_find?_eq_some huser)).bind
    fun user? huser => ?_
  rcases user? with _ | user
  · exact ensures_raise _
  · exact ensures_pure (huser user rfl user.email List.mem_cons_self)

/-! ## Requests -/

section Terms

variable {T : Type}

/-- The terms of a response. -/
def Data.terms : Data T T → List T
  | .vaultStatus _ _ => []
  | .registered email => [email]
  | .login l => l.terms
  | .loggedOut => []
  | .me email => [email]
  | .kvListed items => items.flatMap (·.terms)
  | .kvWritten w => w.terms
  | .kvVersions vs => vs.flatMap (·.terms)
  | .kvValue v => v.terms
  | .deleted => []
  | .key m => m.terms
  | .keys ms => ms.flatMap (·.terms)
  | .revoked => []
  | .ciphertext c => [c]
  | .plaintext p => [p]
  | .signed s => s.terms
  | .verified v => v.terms
  | .audit _ => []
  | .restarted => []

/-- The terms of a response; the body of an error is public text. -/
def Response.terms : Response T T → List T
  | .ok data _ => data.terms
  | .error _ => []

/-- What a user sends, their credentials apart. -/
def UserRequest.terms : UserRequest T T → List T
  | .kvWrite path data => [path, data]
  | .kvVersions path => [path]
  | .kvRead path _ => [path]
  | .kvDelete path => [path]
  | .keyCreate keyName => [keyName]
  | .signingKeyCreate keyName => [keyName]
  | .keyGet name => [name]
  | .keyRotate name => [name]
  | .keyRevoke name => [name]
  | .transitEncrypt keyName plaintextB64 => [keyName, plaintextB64]
  | .transitDecrypt ciphertext => [ciphertext]
  | .transitSign keyName messageB64 _ => [keyName, messageB64]
  | .transitVerify keyName messageB64 _ signatureB64 signingAlgorithm =>
    [keyName, messageB64, signatureB64] ++ signingAlgorithm.toList
  | .logout | .me | .kvList | .keyList | .auditVerify => []

end Terms

/-- What clients send, the master passphrase apart. -/
def Request.inputs : Request (Term Atom) (Term Atom) → List (Term Atom)
  | .vaultInit p c => [p, c].filter (· ≠ .atom .master)
  | .vaultUnlock p => [p].filter (· ≠ .atom .master)
  | .register email passphrase confirmPassphrase => [email, passphrase, confirmPassphrase]
  | .login email passphrase => [email, passphrase]
  | .user credentials request => credentials.toList ++ request.terms
  | .vaultLock | .vaultStatus | .restart => []

theorem secures_ok (data : Data (Term Atom) (Term Atom)) (h : AllPublic data.terms)
    (statusCode : Nat) :
    Secures (ok data statusCode : Py (symbolic X) _) fun r => AllPublic r.terms := by
  unfold ok
  split
  · exact .ite (fun _ => ensures_pure h) fun _ => ensures_raise _
  · exact ensures_pure h

/-- A service operation whose result is sent. -/
theorem secures_respond {α : Type} {m : Py (symbolic X) α} {Q : α → Prop}
    (f : α → Data (Term Atom) (Term Atom)) (hm : Secures m Q)
    (hf : ∀ a, Q a → AllPublic (f a).terms) (statusCode : Nat) :
    Secures (m >>= fun a => ok (f a) statusCode) fun r => AllPublic r.terms :=
  hm.bind fun a ha => secures_ok (f a) (hf a ha) statusCode

theorem secures_audited {p : Principal (Term Atom)} (hp : Public p.user.email)
    {identifier : Term Atom} (hid : Public identifier) (action resourceType : String)
    {m : Py (symbolic X) (Response (Term Atom) (Term Atom))}
    (hm : Secures m fun r => AllPublic r.terms) :
    Secures (audited p action resourceType identifier m) fun r => AllPublic r.terms := by
  refine hm.handle fun x => ?_
  dsimp only
  refine .ite (fun _ => Ensures.bind (Q := fun _ => True) ?_ fun _ _ => ensures_raise _) fun _ =>
    ensures_raise _
  unfold deniedAudit
  split
  · refine .ite (fun _ => ensures_environ.bind fun e he => ?_) fun _ => ensures_pure trivial
    unfold audit
    refine ensures_environ.bind fun e' _ => ?_
    refine (secures_update fun db hdb => hdb.withAudit
      (append_guarded hdb.auditLogs _ _ ?_ ?_)).bind fun _ _ => secures_commit
    · simp only [AllPublic, List.forall_mem_cons]
      exact ⟨hp, public_const _, public_const _, hid, public_const _, by rintro _ ⟨⟩⟩
    · intro t ht
      obtain ⟨c, rfl⟩ := he.clientIp t (Option.mem_toList.1 ht)
      exact public_const c
  · exact ensures_pure trivial

theorem secures_userHandler {p : Principal (Term Atom)} (hp : Public p.user.email)
    {request : UserRequest (Term Atom) (Term Atom)} (hr : AllPublic request.terms) :
    Secures (userHandler p request : Py (symbolic X) _) fun r => AllPublic r.terms := by
  cases request with
  | logout =>
    exact secures_respond (fun _ => .loggedOut) (secures_logout _) (fun _ _ => by rintro _ ⟨⟩) _
  | me => exact secures_ok (.me _) (List.forall_mem_singleton.2 hp) _
  | kvList => exact secures_respond .kvListed secures_list (fun _ => allPublic_flatMap) _
  | kvWrite path data =>
    have hpath : Public path := hr _ (.head _)
    have hdata : Public data := hr _ (.tail _ (.head _))
    exact secures_audited hp hpath _ _
      (secures_respond .kvWritten (secures_write hpath hp hdata) (fun _ h => h) _)
  | kvVersions path =>
    exact secures_audited hp (hr _ (.head _)) _ _
      (secures_respond .kvVersions secures_versions (fun _ => allPublic_flatMap) _)
  | kvRead path version =>
    have hpath : Public path := hr _ (.head _)
    exact secures_audited hp hpath _ _
      (secures_respond .kvValue (secures_read hpath version) (fun _ h => h) _)
  | kvDelete path =>
    exact secures_audited hp (hr _ (.head _)) _ _
      (secures_respond (fun _ => .deleted) secures_delete (fun _ _ => by rintro _ ⟨⟩) _)
  | keyCreate name =>
    exact secures_respond .key (secures_createAes hp (hr _ (.head _))) (fun _ h => h) _
  | signingKeyCreate name =>
    exact secures_respond .key (secures_createSigning hp (hr _ (.head _))) (fun _ h => h) _
  | keyList => exact secures_respond .keys secures_keyList (fun _ => allPublic_flatMap) _
  | keyGet name =>
    exact secures_audited hp (hr _ (.head _)) _ _
      (secures_respond .key secures_keyGet (fun _ h => h) _)
  | keyRotate name =>
    exact secures_audited hp (hr _ (.head _)) _ _
      (secures_respond .key secures_rotate (fun _ h => h) _)
  | keyRevoke name =>
    exact secures_audited hp (hr _ (.head _)) _ _
      (secures_respond (fun _ => .revoked) secures_revoke (fun _ _ => by rintro _ ⟨⟩) _)
  | transitEncrypt name plaintextB64 =>
    have hname : Public name := hr _ (.head _)
    exact secures_audited hp hname _ _
      (secures_respond .ciphertext (secures_transitEncrypt hname (hr _ (.tail _ (.head _))))
        (fun _ h => List.forall_mem_singleton.2 h) _)
  | transitDecrypt ciphertext =>
    have hciphertext : Public ciphertext := hr _ (.head _)
    exact secures_audited hp (hciphertext.derives (X.envelopeName_derives _)) _ _
      (secures_respond .plaintext (secures_transitDecrypt hciphertext)
        (fun _ h => List.forall_mem_singleton.2 h) _)
  | transitSign name messageB64 messageType =>
    have hname : Public name := hr _ (.head _)
    exact secures_audited hp hname _ _
      (secures_respond .signed (secures_sign hname (hr _ (.tail _ (.head _))) messageType)
        (fun _ h => h) _)
  | transitVerify name messageB64 messageType signatureB64 signingAlgorithm =>
    have hname : Public name := hr _ (.head _)
    exact secures_audited hp hname _ _
      (secures_respond .verified (secures_verify hname messageType) (fun _ h => h) _)
  | auditVerify =>
    exact secures_respond (fun t => .audit (auditVerify (symbolic X) t))
      (secures_query (Q := fun _ => True) fun _ _ => trivial) (fun _ _ => by rintro _ ⟨⟩) _

/-- Only the master passphrase makes a vault. -/
def Request.MakesVault (r : Request (Term Atom) (Term Atom)) : Prop :=
  ∀ p, r = .vaultInit p p → p = .atom .master

theorem secures_handler (settings : Settings) {r : Request (Term Atom) (Term Atom)}
    (hr : AllPublic r.inputs) (hinit : r.MakesVault) :
    Secures (handler settings r : Py (symbolic X) _) fun r => AllPublic r.terms := by
  have hnil : AllPublic [] := by rintro _ ⟨⟩
  cases r with
  | vaultInit p c =>
    refine (secures_init fun hpc => ?_).bind fun _ _ => secures_ok (.vaultStatus _ _) hnil _
    subst hpc
    exact hinit p rfl
  | vaultUnlock p => exact (secures_unlock p).bind fun _ _ => secures_ok (.vaultStatus _ _) hnil _
  | vaultLock => exact secures_lockState.bind fun _ _ => secures_ok (.vaultStatus _ _) hnil _
  | vaultStatus => exact secures_status.bind fun _ _ => secures_ok (.vaultStatus _ _) hnil _
  | register email passphrase confirmPassphrase =>
    exact secures_respond .registered
      (secures_register (hr _ (.head _)) (hr _ (.tail _ (.head _))))
      (fun _ h => List.forall_mem_singleton.2 h) _
  | login email passphrase =>
    exact secures_respond .login (secures_login settings _ _) (fun _ h => h) _
  | user credentials request =>
    exact (secures_currentPrincipal credentials).bind fun p hp =>
      .ite (fun _ => secures_userHandler hp fun t ht => hr t (List.mem_append_right _ ht))
        fun _ => ensures_raise _
  | restart =>
    refine Ensures.bind (Q := fun _ => True) ?_ fun _ _ => secures_ok .restarted hnil _
    unfold startup
    exact (secures_update fun db hdb =>
      hdb.withAudit (ensureSchema_guarded hdb.auditLogs)).bind fun _ _ =>
        secures_commit.bind fun _ _ => secures_lockState

/-! ## Runs -/

/-- Guarded tables, and no key loaded but a data key. -/
structure World.Guarded (w : World (Term Atom) (Term Atom)) : Prop where
  db : w.db.Guarded
  dek : ∀ d, w.dek = some d → IsDek d

/-- One request shows nothing secret. -/
theorem World.Guarded.request {w : World (Term Atom) (Term Atom)} (h : w.Guarded)
    (settings : Settings) {e : Env (symbolic X)} (he : Drawn e)
    {r : Request (Term Atom) (Term Atom)} (hr : AllPublic r.inputs) (hinit : r.MakesVault) :
    (w.request settings e r).2.Guarded ∧ AllPublic (w.request settings e r).1.terms := by
  obtain ⟨hs, hresponse⟩ :=
    secures_handler settings hr hinit e w.session he ⟨h.db, h.db, h.dek⟩
  have hw : (w.run e (handler settings r)).2.Guarded := ⟨hs.committed, hs.dek⟩
  unfold World.request
  rcases hrun : w.run e (handler settings r) with ⟨x | response, w'⟩
  · rw [hrun] at hw
    refine ⟨hw, ?_⟩
    cases x <;> rintro _ ⟨⟩
  · rw [hrun] at hw
    exact ⟨hw, hresponse response (congrArg Prod.fst hrun)⟩

/-- The runs of the service and what everyone can see of them: `K` holds the data of the clients,
    every row ever committed, every response, and every input but the master passphrase. Clients
    send what they can make of what was seen before. -/
inductive Observed (X : Reading Atom) (settings : Settings) :
    List (Env (symbolic X) × Request (Term Atom) (Term Atom)) →
      World (Term Atom) (Term Atom) → Set (Term Atom) → Prop
  | start : Observed X settings [] World.initial {t | ∃ n, t = .atom (.client n)}
  | step {is w K e r} (h : Observed X settings is w K) (he : Drawn e)
      (hr : ∀ t ∈ r.inputs, Derives K t) (hinit : r.MakesVault) :
      Observed X settings (is ++ [(e, r)]) (w.request settings e r).2
        (K ∪ {t | t ∈ r.inputs ∨ t ∈ (w.request settings e r).1.terms ∨
          t ∈ (w.request settings e r).2.db.cells})

/-- Everything seen may be seen. -/
theorem Observed.guarded {settings : Settings}
    {is : List (Env (symbolic X) × Request (Term Atom) (Term Atom))}
    {w : World (Term Atom) (Term Atom)} {K : Set (Term Atom)} (h : Observed X settings is w K) :
    w.Guarded ∧ (∀ t ∈ K, Public t) ∧ ∀ i ∈ is, Drawn i.1 := by
  induction h with
  | start =>
    refine ⟨⟨guarded_empty, by rintro _ ⟨⟩⟩, ?_, by rintro _ ⟨⟩⟩
    rintro _ ⟨n, rfl⟩
    exact fun h => h
  | @step is w K e r h he hr hinit ih =>
    obtain ⟨hw, hK, his⟩ := ih
    have hinputs : AllPublic r.inputs := fun t ht => (hr t ht).exposable hK
    obtain ⟨hw', hresponse⟩ := hw.request settings he hinputs hinit
    refine ⟨hw', ?_, ?_⟩
    · rintro t (ht | ht | ht | ht)
      · exact hK t ht
      · exact hinputs t ht
      · exact hresponse t ht
      · exact hw'.db.cells t ht
    · intro i hi
      rcases List.mem_append.1 hi with hi | hi
      · exact his i hi
      · rw [List.mem_singleton.1 hi]
        exact he

/-- **Secrecy of keys.** From all that a run shows, no one can make the master passphrase, a key
    derived from it, any data key or named key (AES or Ed25519) that was drawn, the data key in
    the vault state or under the configuration, or the material of a stored key. -/
theorem keys_secret (X : Reading Atom) (settings : Settings)
    (is : List (Env (symbolic X) × Request (Term Atom) (Term Atom)))
    (w : World (Term Atom) (Term Atom)) (K : Set (Term Atom)) (h : Observed X settings is w K) :
    ¬ Derives K (.atom .master) ∧
      (∀ salt params, ¬ Derives K ((symbolic X).deriveKey (.atom .master) salt params)) ∧
      (∀ i ∈ is, ¬ Derives K i.1.dek ∧ ¬ Derives K i.1.key) ∧
      (∀ d, w.dek = some d → ¬ Derives K d) ∧
      (∀ c ∈ w.db.vaultConfig, ∀ p d, VaultService.unwrapDek (symbolic X) c p = .ok d →
        ¬ Derives K d) ∧
      ∀ key ∈ w.db.transitKeys, ∀ version (e : Env (symbolic X)) m, Drawn e →
        (TransitService.material key version e w.session).1 = .ok m → ¬ Derives K m := by
  obtain ⟨hw, hK, his⟩ := h.guarded
  have hdek : ∀ d, IsDek d → ¬ Derives K d := by
    rintro _ ⟨n, rfl⟩
    exact not_derives_atom hK trivial
  have hkey : ∀ m, IsKey m → ¬ Derives K m := by
    rintro _ ⟨n, rfl⟩
    exact not_derives_atom hK trivial
  refine ⟨not_derives_atom hK trivial, not_derives_kdf hK trivial, fun i hi => ?_, fun d hd => ?_,
    fun c hc p d hd => ?_, fun key hmem version e m he hm => ?_⟩
  · exact ⟨hdek _ (his i hi).dek, hkey _ (his i hi).key⟩
  · exact hdek d (hw.dek d hd)
  · exact hdek d (unwrapDek_isDek (hw.db.vaultConfig c hc) hd)
  · have hguarded := hw.db.transitKeys key hmem
    exact hkey m ((secures_material hguarded version e w.session he ⟨hw.db, hw.db, hw.dek⟩).2 m hm)

namespace Sample

/-! ## A run -/

/-- How long the texts of the sample are. -/
def length : Term Atom → Nat
  | .atom (.nonce _) => 12
  | .atom (.salt _) => 16
  | .atom (.dek _) => 32
  | .atom (.key _) => 32
  | .kdf _ _ _ => 32
  | .cat s t => length s + length t
  | .code _ t => length t
  | .aead _ _ p _ => length p + 16
  | _ => 0

/-- The parts of an envelope. -/
def parts : Term Atom → Option (Int × Term Atom × Term Atom)
  | .cat (.const _) (.cat (.num n) (.cat (.const _) (.cat name (.cat (.const _)
      (.cat blob (.const _)))))) => some (n, name, blob)
  | _ => none

theorem parts_derives {t : Term Atom} {n : Int} {name blob : Term Atom}
    (h : parts t = some (n, name, blob)) : Derives {t} name ∧ Derives {t} blob := by
  have hall : Derives {t} t := .known rfl
  unfold parts at h
  split at h
  · cases h
    exact ⟨hall.right.right.right.left, hall.right.right.right.right.right.left⟩
  · cases h

def reading : Reading Atom where
  truthy _ := true
  le _ _ := true
  len := length
  validatePassphrase _ := .ok ()
  validateKeyName _ := .ok ()
  validatePath _ _ := .ok ()
  renders _ := true
  normalizeEmail t := t
  normalizeEmail_derives _ := .known rfl
  envelopeName t := t
  envelopeName_derives _ := .known rfl
  readEnvelope t :=
    match parts t with
    | some (n, name, blob) => .ok (n.toNat, name, blob)
    | none => .error (appError .invalidCiphertext "Invalid ciphertext" 400)
  readEnvelope_derives h := by
    split at h
    · rename_i hparts
      cases h
      exact parts_derives hparts
    · cases h
  dumps t := .ok t
  dumps_derives h := by
    cases h
    exact .known rfl
  loads t := .ok t
  loads_derives h := by
    cases h
    exact .known rfl

/-- The draws of one request: fresh atoms of its number. -/
def draws (n : Nat) : Env (symbolic reading) where
  now := n
  nonce := .atom (.nonce n)
  nonce_len := rfl
  salt := .atom (.salt n)
  salt_len := rfl
  dek := .atom (.dek n)
  dek_len := rfl
  key := .atom (.key n)
  key_len := rfl
  passwordSalt := .atom (.passwordSalt n)
  token := .atom (.token n)
  rowid ids := ids.foldr max 0 + 1
  rowid_fresh := rowid_fresh
  auditId ids := ids.foldr max 0 + 1
  auditId_gt := auditId_gt
  clientIp := none

theorem draws_drawn (n : Nat) : Drawn (draws n) :=
  ⟨⟨n, rfl⟩, ⟨n, rfl⟩, ⟨n, rfl⟩, ⟨n, rfl⟩, ⟨n, rfl⟩, ⟨n, rfl⟩, by rintro _ ⟨⟩⟩

/-- A user registers, logs in, makes a key and encrypts under it. -/
def requests : List (Env (symbolic reading) × Request (Term Atom) (Term Atom)) :=
  [(draws 1, .vaultInit (.atom .master) (.atom .master)),
    (draws 2, .vaultUnlock (.atom .master)),
    (draws 3, .register (.atom (.client 0)) (.atom (.client 1)) (.atom (.client 1))),
    (draws 4, .login (.atom (.client 0)) (.atom (.client 1))),
    (draws 5, .user (some (.atom (.token 4))) (.keyCreate (.atom (.client 2)))),
    (draws 6, .user (some (.atom (.token 4)))
      (.transitEncrypt (.atom (.client 2)) (.code "base64" (.atom (.client 3)))))]

theorem client_derives {settings : Settings}
    {is : List (Env (symbolic reading) × Request (Term Atom) (Term Atom))}
    {w : World (Term Atom) (Term Atom)} {K : Set (Term Atom)}
    (h : Observed reading settings is w K) (n : Nat) : Derives K (.atom (.client n)) := by
  induction h with
  | start => exact .known ⟨n, rfl⟩
  | step _ _ _ _ ih => exact ih.mono Set.subset_union_left

/-- The world after the first requests. -/
def after (k : Nat) : World (Term Atom) (Term Atom) :=
  (requests.take k).foldl (fun w i => (w.request {} i.1 i.2).2) World.initial

theorem requests_observed : ∃ K, Observed reading {} requests (after 6) K := by
  have h₀ : Observed reading {} [] World.initial _ := .start
  have h₂ := Observed.step (r := .vaultUnlock (.atom .master))
    (Observed.step (r := .vaultInit (.atom .master) (.atom .master)) h₀ (draws_drawn 1)
      (by rintro _ ⟨⟩) (by rintro p ⟨⟩; rfl))
    (draws_drawn 2) (by rintro _ ⟨⟩) (by rintro p ⟨⟩)
  have h₃ := h₂.step (r := .register (.atom (.client 0)) (.atom (.client 1)) (.atom (.client 1)))
    (draws_drawn 3)
    (by
      simp only [Request.inputs, List.forall_mem_cons]
      exact ⟨client_derives h₂ 0, client_derives h₂ 1, client_derives h₂ 1, by rintro _ ⟨⟩⟩)
    (by rintro p ⟨⟩)
  have h₄ := h₃.step (r := .login (.atom (.client 0)) (.atom (.client 1))) (draws_drawn 4)
    (by
      simp only [Request.inputs, List.forall_mem_cons]
      exact ⟨client_derives h₃ 0, client_derives h₃ 1, by rintro _ ⟨⟩⟩)
    (by rintro p ⟨⟩)
  -- the token is in the answer to the login
  have htoken : Term.atom (.token 4) ∈ ((after 3).request {} (draws 4)
      (.login (.atom (.client 0)) (.atom (.client 1)))).1.terms := by decide +kernel
  have h₅ := h₄.step (r := .user (some (.atom (.token 4))) (.keyCreate (.atom (.client 2))))
    (draws_drawn 5)
    (by
      simp only [Request.inputs, UserRequest.terms, Option.toList_some, List.cons_append,
        List.nil_append, List.forall_mem_cons]
      exact ⟨.known (.inr (.inr (.inl htoken))), client_derives h₄ 2, by rintro _ ⟨⟩⟩)
    (by rintro p ⟨⟩)
  have h₆ := h₅.step (r := .user (some (.atom (.token 4)))
      (.transitEncrypt (.atom (.client 2)) (.code "base64" (.atom (.client 3)))))
    (draws_drawn 6)
    (by
      simp only [Request.inputs, UserRequest.terms, Option.toList_some, List.cons_append,
        List.nil_append, List.forall_mem_cons]
      exact ⟨.known (.inl (.inr (.inr (.inl htoken)))), client_derives h₅ 2,
        .code _ (client_derives h₅ 3), by rintro _ ⟨⟩⟩)
    (by rintro p ⟨⟩)
  exact ⟨_, h₆⟩

end Sample

open Sample in
/-- In the sample run the vault is open and a key is stored, and none of its keys can be made. -/
theorem keys_secret_sample :
    (after 6).dek = some (.atom (.dek 1)) ∧ (after 6).db.transitKeys.length = 1 ∧
      ∃ K, Observed reading {} requests (after 6) K ∧ ¬ Derives K (.atom .master) ∧
        (∀ i ∈ requests, ¬ Derives K i.1.dek ∧ ¬ Derives K i.1.key) ∧
        ¬ Derives K (.atom (.dek 1)) := by
  have hdek : (after 6).dek = some (.atom (.dek 1)) := by decide +kernel
  obtain ⟨K, hK⟩ := requests_observed
  obtain ⟨hmaster, -, hdrawn, hloaded, -⟩ := keys_secret reading {} requests (after 6) K hK
  exact ⟨hdek, by decide +kernel, K, hK, hmaster, hdrawn, hloaded _ hdek⟩

end MiniVault
