/-
  One HTTP request: which service call it makes, on whose behalf, and what its handler adds to
  that call. A denied request leaves one row in the audit log; nothing else of a request that
  fails reaches the tables.
-/
import MiniVault.Service.Accounts
import MiniVault.Service.Step

namespace MiniVault

open Kit Imp

variable {T B J : Type} {P : Prims T B J}

/-! ## Which call -/

/-- The service call that the handler of a request makes for the user `email`. -/
def UserRequest.serviceCall (email : T) : UserRequest T J → Option (Call T J)
  | .logout => none
  | .me => none
  | .kvList => some (.kvList email)
  | .kvWrite path data => some (.kvWrite path email data)
  | .kvVersions path => some (.kvVersions path email)
  | .kvRead path version => some (.kvRead path email version)
  | .kvDelete path => some (.kvDelete path email)
  | .keyCreate keyName => some (.createAes email keyName)
  | .signingKeyCreate keyName => some (.createSigning email keyName)
  | .keyList => some (.keyList email)
  | .keyGet name => some (.keyGet email name)
  | .keyRotate name => some (.rotate email name)
  | .keyRevoke name => some (.revoke email name)
  | .transitEncrypt keyName plaintextB64 => some (.encrypt email keyName plaintextB64)
  | .transitDecrypt ciphertext => some (.decrypt email ciphertext)
  | .transitSign keyName messageB64 messageType => some (.sign email keyName messageB64 messageType)
  | .transitVerify keyName messageB64 messageType signatureB64 signingAlgorithm =>
    some (.verify email keyName messageB64 messageType signatureB64 signingAlgorithm)
  | .auditVerify => none

/-- The service call of a request of the user `email`, if its parameters pass. -/
def UserRequest.call (email : T) (r : UserRequest T J) : Option (Call T J) :=
  if r.valid then r.serviceCall email else none

theorem UserRequest.call_eq_some {email : T} {r : UserRequest T J} {c : Call T J} :
    r.call email = some c ↔ r.valid = true ∧ r.serviceCall email = some c := by
  unfold UserRequest.call
  split <;> simp_all

theorem UserRequest.call_eq_none {email : T} {r : UserRequest T J} (hv : r.valid = true) :
    r.call email = none ↔ r.serviceCall email = none := by
  rw [UserRequest.call, if_pos hv]

theorem UserRequest.call_email {email : T} {r : UserRequest T J} {c : Call T J}
    (h : r.call email = some c) : c.email? = some email := by
  obtain ⟨-, h⟩ := UserRequest.call_eq_some.1 h
  cases r <;> cases h <;> rfl

/-- The vault call of a request that needs no user. -/
def Request.vaultCall : Request T J → Option (Call T J)
  | .vaultInit p c => some (.vaultInit p c)
  | .vaultUnlock p => some (.vaultUnlock p)
  | .vaultLock => some .vaultLock
  | .vaultStatus => some .vaultStatus
  | .restart => some .restart
  | _ => none

def UserRequest.status : UserRequest T J → Nat
  | .keyCreate _ => 201
  | .signingKeyCreate _ => 201
  | _ => 200

def Request.status : Request T J → Nat
  | .vaultInit .. => 201
  | .register .. => 201
  | .user _ r => r.status
  | _ => 200

/-- Action, resource type and identifier that the handler of a request gives to `denied_audit`,
    where it has the wrapper. -/
def UserRequest.audits (P : Prims T B J) : UserRequest T J → Option (String × String × T)
  | .kvWrite path _ => some ("WRITE", "KV_SECRET", path)
  | .kvVersions path => some ("LIST_VERSIONS", "KV_SECRET", path)
  | .kvRead path _ => some ("READ", "KV_SECRET", path)
  | .kvDelete path => some ("DELETE", "KV_SECRET", path)
  | .keyGet name => some ("GET", "TRANSIT_KEY", name)
  | .keyRotate name => some ("ROTATE", "TRANSIT_KEY", name)
  | .keyRevoke name => some ("REVOKE", "TRANSIT_KEY", name)
  | .transitEncrypt keyName _ => some ("ENCRYPT", "TRANSIT_KEY", keyName)
  | .transitDecrypt ciphertext => some ("DECRYPT", "TRANSIT_KEY", P.envelopeName ciphertext)
  | .transitSign keyName _ _ => some ("SIGN", "TRANSIT_KEY", keyName)
  | .transitVerify keyName _ _ _ _ => some ("VERIFY", "TRANSIT_KEY", keyName)
  | _ => none

/-! ## What is answered -/

def Response.isOk : Response T J → Bool
  | .ok _ _ => true
  | .error _ => false

/-- What a handler returned or raised, as a response. -/
def Response.ofOutcome : Except Exc (Response T J) → Response T J
  | .ok resp => resp
  | .error x => .ofExc x

/-- `ok` renders every result but a value that JSON cannot carry. -/
def rendering (P : Prims T B J) (data : Data T J) (statusCode : Nat) : Except Exc (Response T J) :=
  match data with
  | .kvValue v => if P.renders v.value then .ok (.ok data statusCode) else .error .valueError
  | _ => .ok (.ok data statusCode)

/-- The response to a call. -/
def answer (P : Prims T B J) (outcome : Except Exc (Data T J)) (statusCode : Nat) :
    Response T J :=
  match outcome with
  | .ok data => .ofOutcome (rendering P data statusCode)
  | .error x => .ofExc x

theorem ok_apply (data : Data T J) (statusCode : Nat) (e : Env P) (s : Proc T B) :
    ok data statusCode e s = (rendering P data statusCode, s) := by
  cases data with
  | kvValue v =>
    unfold ok rendering
    dsimp only
    rw [ite_run]
    split <;> rfl
  | _ => rfl

/-- Rendering works, or raises a `ValueError`. -/
theorem rendering_cases (P : Prims T B J) (data : Data T J) (statusCode : Nat) :
    rendering P data statusCode = .ok (.ok data statusCode) ∨
      rendering P data statusCode = .error .valueError := by
  unfold rendering
  split
  · split
    · exact .inl rfl
    · exact .inr rfl
  · exact .inl rfl

variable [DecidableEq T]

/-- `handle_request`: the response and the world, from the handler's run. -/
theorem request_eq (w : World T B) (settings : Settings) (e : Env P) (r : Request T J) :
    w.request settings e r =
      (.ofOutcome (handler settings r e w.session).1,
        (handler settings r e w.session).2.close) := by
  unfold World.request World.run
  rcases handler settings r e w.session with ⟨x | resp, s⟩
  · rfl
  · rfl

/-! ## The audit row of a denial -/

/-- The world with one more row in the audit log. -/
def World.denied (P : Prims T B J) (w : World T B) (e : Env P) (email : T)
    (row : String × String × T) : World T B :=
  { w with
    db := { w.db with
      auditLogs := w.db.auditLogs.append P (e.auditId (w.db.auditLogs.rows.map (·.id))) e.now
        email (P.lit row.1) (P.lit row.2.1) row.2.2 (P.lit "DENIED") e.clientIp } }

/-- The world after the handler of a request has seen the outcome of its call. -/
def World.audited (P : Prims T B J) (w : World T B) (e : Env P) (email : T) :
    Option (String × String × T) → Except Exc (Data T J) → World T B
  | some row, .error (.app err) =>
    if err.code = .permissionDenied then w.denied P e email row else w
  | _, _ => w

/-- A handler with the audit wrapper, or without. -/
def auditedAs (p : Principal T) (row : Option (String × String × T)) (m : Py P (Response T J)) :
    Py P (Response T J) :=
  match row with
  | some (action, resourceType, identifier) => audited p action resourceType identifier m
  | none => m

/-- The handler of a request with a service call makes that call and renders its result. -/
theorem userHandler_eq {p : Principal T} {r : UserRequest T J} {c : Call T J}
    (hc : r.serviceCall p.user.email = some c) :
    (userHandler p r : Py P (Response T J)) =
      auditedAs p (r.audits P) (c.run >>= fun data => ok data r.status) := by
  cases r <;> cases hc <;> simp only [Call.run, bind_pure_bind] <;> rfl

/-! ## A call that fails -/

section Fails

variable {e : Env P} {s s' : Proc T B}

/-- What an operation does when it raises an `AppError`: nothing. -/
def FailsClean {α : Type} (m : Py P α) (e : Env P) (s : Proc T B) : Prop :=
  ∀ err s', m e s = (.error (.app err), s') → s' = s

omit [DecidableEq T] in
theorem failsClean_of_state {α : Type} {m : Py P α} (h : (m e s).2 = s) : FailsClean m e s := by
  intro err s' hm
  rw [hm] at h
  exact h

omit [DecidableEq T] in
theorem failsClean_of_error {α : Type} {m : Py P α} {x : Exc} (h : m e s = (.error x, s)) :
    FailsClean m e s :=
  failsClean_of_state (by rw [h])

omit [DecidableEq T] in
theorem failsClean_of_ok {α : Type} {m : Py P α} {a : α} (h : m e s = (.ok a, s')) :
    FailsClean m e s := by
  intro err s'' hm
  rw [h] at hm
  cases hm

omit [DecidableEq T] in
theorem failsClean_of_exc {α : Type} {m : Py P α} {x : Exc} (h : m e s = (.error x, s'))
    (hx : x.isAppError = false) : FailsClean m e s := by
  intro err s'' hm
  rw [h] at hm
  cases hm
  cases hx

omit [DecidableEq T] in
theorem FailsClean.wrapped {α β : Type} {m : Py P α} (h : FailsClean m e s) (f : α → β) :
    FailsClean (m >>= fun a => pure (f a)) e s := by
  intro err s' hm
  rw [bind_apply] at hm
  rcases hr : m e s with ⟨x | a, s₁⟩
  · rw [hr] at hm
    cases hm
    exact h err s' hr
  · rw [hr] at hm
    cases hm

theorem write_failsClean (path email : T) (data : J) (e : Env P) (s : Proc T B) :
    FailsClean (KVService.write path email data) e s := by
  rcases write_cases path email data e s with ⟨x, hx⟩ | ⟨dek, raw, h⟩
  · exact failsClean_of_error hx
  rcases hf : s.db.findPath path with _ | item
  · exact failsClean_of_ok (write_create h e hf)
  by_cases hv : s.db.nextKvVersion item.id < 2 ^ 63
  · exact failsClean_of_ok (write_update h e hf hv)
  · obtain ⟨db, hdb⟩ := write_overflow h e hf hv
    exact failsClean_of_exc hdb rfl

theorem delete_failsClean (path email : T) (e : Env P) (s : Proc T B) :
    FailsClean (KVService.delete path email) e s := by
  rcases delete_cases path email e s with ⟨x, hx⟩ | ⟨dek, item, -, -, -, h⟩
  · exact failsClean_of_error hx
  · exact failsClean_of_ok h

theorem createAes_failsClean (email name : T) (e : Env P) (s : Proc T B) :
    FailsClean (TransitService.createAes email name) e s := by
  rcases create_cases email name e s with ⟨⟨x, hx⟩, -⟩ | ⟨dek, h⟩
  · exact failsClean_of_error hx
  · exact failsClean_of_ok (createAes_of_ready h e)

theorem createSigning_failsClean (email name : T) (e : Env P) (s : Proc T B) :
    FailsClean (TransitService.createSigning email name) e s := by
  rcases create_cases email name e s with ⟨-, x, hx⟩ | ⟨dek, h⟩
  · exact failsClean_of_error hx
  · exact failsClean_of_ok (createSigning_of_ready h e)

theorem revoke_failsClean (email name : T) (e : Env P) (s : Proc T B) :
    FailsClean (TransitService.revoke email name) e s := by
  rcases revoke_cases email name e s with ⟨x, hx⟩ | ⟨key, -, h⟩
  · exact failsClean_of_error hx
  · exact failsClean_of_ok h

theorem rotate_failsClean (email name : T) (e : Env P) (s : Proc T B) :
    FailsClean (TransitService.rotate email name) e s := by
  rcases rotate_cases email name e s with ⟨x, hx⟩ | ⟨key, dek, h, hd, hk⟩
  · exact failsClean_of_error hx
  by_cases hv : s.db.currentKeyNumber key.id + 1 < 2 ^ 63
  · exact failsClean_of_ok (rotate_of_ready h hd hk e hv)
  · obtain ⟨db, hdb⟩ := rotate_overflow h hd hk e hv
    exact failsClean_of_exc hdb rfl

theorem transitEncrypt_failsClean (email name plaintextB64 : T) (e : Env P) (s : Proc T B) :
    FailsClean (TransitService.encrypt email name plaintextB64) e s := by
  rcases transitEncrypt_cases email name plaintextB64 e s with ⟨x, hx⟩ | ⟨⟨h⟩⟩
  · exact failsClean_of_error hx
  · exact failsClean_of_ok (transitEncrypt_of_ready h e)

/-- A call of a user that raises an `AppError` leaves the session as it was. -/
theorem run_failsClean {c : Call T J} {email : T} (hc : c.email? = some email) (e : Env P)
    (s : Proc T B) : FailsClean c.run e s := by
  cases c with
  | kvWrite path email data => exact (write_failsClean path email data e s).wrapped _
  | kvRead path email version =>
    exact (failsClean_of_state (read_state path email version e s)).wrapped _
  | kvVersions path email => exact (failsClean_of_state (versions_state path email e s)).wrapped _
  | kvDelete path email => exact (delete_failsClean path email e s).wrapped _
  | kvList email => exact (failsClean_of_state (list_state email e s)).wrapped _
  | createAes email name => exact (createAes_failsClean email name e s).wrapped _
  | createSigning email name => exact (createSigning_failsClean email name e s).wrapped _
  | keyList email => exact (failsClean_of_state (keyList_state email e s)).wrapped _
  | keyGet email name => exact (failsClean_of_state (keyGet_state email name e s)).wrapped _
  | revoke email name => exact (revoke_failsClean email name e s).wrapped _
  | rotate email name => exact (rotate_failsClean email name e s).wrapped _
  | encrypt email name plaintextB64 =>
    exact (transitEncrypt_failsClean email name plaintextB64 e s).wrapped _
  | decrypt email ciphertext =>
    exact (failsClean_of_state (transitDecrypt_state email ciphertext e s)).wrapped _
  | sign email name message kind =>
    exact (failsClean_of_state (sign_state email name message kind e s)).wrapped _
  | verify email name message kind signature algorithm =>
    exact (failsClean_of_state
      (verify_state email name message kind signature algorithm e s)).wrapped _
  | _ => cases hc

end Fails

/-! ## What a request does -/

section Requests

variable {w : World T B} {settings : Settings} {e : Env P}

section Wrapper

variable {p : Principal T} {action resourceType : String} {identifier : T}
  {m : Py P (Response T J)} {s s' : Proc T B}

omit [DecidableEq T] in
theorem audited_of_ok {resp : Response T J} (h : m e s = (.ok resp, s')) :
    audited p action resourceType identifier m e s = (.ok resp, s') := by
  rw [MiniVault.audited, handle_apply, h]

omit [DecidableEq T] in
theorem audited_of_exc {x : Exc} (h : m e s = (.error x, s')) (hx : x.isAppError = false) :
    audited p action resourceType identifier m e s = (.error x, s') := by
  rw [MiniVault.audited, handle_apply, h]
  dsimp only
  rw [hx]
  rfl

omit [DecidableEq T] in
/-- An `AppError` is raised again; if it is a denial, a row about it is committed first. -/
theorem audited_of_appError {err : AppError} (h : m e w.session = (.error (.app err), w.session)) :
    (audited p action resourceType identifier m e w.session).1 = .error (.app err) ∧
      (audited p action resourceType identifier m e w.session).2.close =
        w.audited P e p.user.email (some (action, resourceType, identifier))
          (.error (.app err) : Except Exc (Data T J)) := by
  rw [MiniVault.audited, handle_apply, h]
  by_cases herr : err.code = .permissionDenied
  · rw [World.audited, if_pos herr]
    simp [Exc.isAppError, deniedAudit, herr, MiniVault.audit, World.denied, Proc.close,
      World.session]
  · rw [World.audited, if_neg herr]
    simp [Exc.isAppError, deniedAudit, herr, Proc.close, World.session]

end Wrapper

/-- The audit wrapper, around a call that leaves the session alone when it raises an
    `AppError`. -/
theorem auditedAs_apply {p : Principal T} {row : Option (String × String × T)} {c : Call T J}
    (hclean : FailsClean c.run e w.session) (statusCode : Nat) :
    Response.ofOutcome
        (auditedAs p row (c.run >>= fun data => ok data statusCode) e w.session).1 =
      answer P (w.call (e, c)).1 statusCode ∧
    (auditedAs p row (c.run >>= fun data => ok data statusCode) e w.session).2.close =
      (w.call (e, c)).2.audited P e p.user.email row (w.call (e, c)).1 := by
  unfold World.call World.run
  dsimp only
  rcases hrun : c.run e w.session with ⟨x | data, s⟩
  · have hbind : (c.run >>= fun data => ok data statusCode) e w.session = (.error x, s) := by
      rw [bind_apply, hrun]
    rcases row with _ | ⟨action, resourceType, identifier⟩
    · rw [auditedAs, hbind]
      exact ⟨rfl, rfl⟩
    · cases x with
      | app err =>
        have hs := hclean err s hrun
        subst hs
        obtain ⟨hraise, hclose⟩ := audited_of_appError hbind
        exact ⟨congrArg Response.ofOutcome hraise, hclose⟩
      | _ =>
        rw [auditedAs, audited_of_exc hbind rfl]
        exact ⟨rfl, rfl⟩
  · have hbind : (c.run >>= fun data => ok data statusCode) e w.session =
        (rendering P data statusCode, s) := by
      rw [bind_apply, hrun]
      exact ok_apply data statusCode e s
    rcases row with _ | ⟨action, resourceType, identifier⟩
    · rw [auditedAs, hbind]
      exact ⟨rfl, rfl⟩
    · rcases rendering_cases P data statusCode with hr | hr
      · rw [hr] at hbind
        rw [auditedAs, audited_of_ok hbind, answer, hr]
        exact ⟨rfl, rfl⟩
      · rw [hr] at hbind
        rw [auditedAs, audited_of_exc hbind rfl, answer, hr]
        exact ⟨rfl, rfl⟩

/-- A request with accepted credentials, in terms of its handler. -/
theorem request_of_principal {credentials : Option T} {p : Principal T} {r : UserRequest T J}
    (hp : w.db.principal P e.now credentials = .ok p) (hv : r.valid = true) :
    w.request settings e (.user credentials r) =
      (.ofOutcome (userHandler p r e w.session).1, (userHandler p r e w.session).2.close) := by
  have hprincipal : currentPrincipal credentials e w.session = (.ok p, w.session) := by
    rw [currentPrincipal_apply]
    exact congrArg (·, w.session) hp
  rw [request_eq, handler, bind_apply, hprincipal]
  dsimp only
  rw [if_pos hv]

/-- A request with accepted credentials whose parameters are refused. -/
theorem request_invalid {credentials : Option T} {p : Principal T} {r : UserRequest T J}
    (hp : w.db.principal P e.now credentials = .ok p) (hv : r.valid = false) :
    w.request settings e (.user credentials r) = (.ofExc invalidRequest, w) := by
  have hprincipal : currentPrincipal credentials e w.session = (.ok p, w.session) := by
    rw [currentPrincipal_apply]
    exact congrArg (·, w.session) hp
  rw [request_eq, handler, bind_apply, hprincipal]
  dsimp only
  rw [if_neg (by simp [hv])]
  rfl

/-- A request of a user, in terms of the service call it makes. -/
theorem request_user {credentials : Option T} {p : Principal T} {r : UserRequest T J}
    {c : Call T J} (hp : w.db.principal P e.now credentials = .ok p)
    (hc : r.call p.user.email = some c) :
    w.request settings e (.user credentials r) =
      (answer P (w.call (e, c)).1 r.status,
        (w.call (e, c)).2.audited P e p.user.email (r.audits P) (w.call (e, c)).1) := by
  obtain ⟨hresp, hworld⟩ := auditedAs_apply (w := w) (p := p)
    (run_failsClean (UserRequest.call_email hc) e w.session) r.status
  obtain ⟨hv, hservice⟩ := UserRequest.call_eq_some.1 hc
  rw [request_of_principal hp hv, userHandler_eq hservice]
  exact Prod.ext hresp hworld

/-- A request whose credentials are not accepted. -/
theorem request_unauthenticated {credentials : Option T} {x : Exc}
    (hp : w.db.principal P e.now credentials = .error x) (r : UserRequest T J) :
    w.request settings e (.user credentials r) = (.ofExc x, w) := by
  have hprincipal : currentPrincipal credentials e w.session = (.error x, w.session) := by
    rw [currentPrincipal_apply]
    exact congrArg (·, w.session) hp
  rw [request_eq, handler, bind_apply, hprincipal]
  rfl

/-- A request that needs no user, in terms of the vault call it makes. -/
theorem request_vault {r : Request T J} {c : Call T J} (hc : r.vaultCall = some c) :
    w.request settings e r = (answer P (w.call (e, c)).1 r.status, (w.call (e, c)).2) := by
  have hhandler : handler settings r = (c.run >>= fun data => ok data r.status : Py P _) := by
    cases r <;> cases hc <;> simp only [Call.run, bind_pure_bind] <;> rfl
  rw [request_eq, hhandler]
  unfold World.call World.run
  rw [bind_apply]
  dsimp only
  rcases c.run e w.session with ⟨x | data, s⟩
  · rfl
  · dsimp only
    rw [ok_apply]
    rfl

end Requests

end MiniVault
