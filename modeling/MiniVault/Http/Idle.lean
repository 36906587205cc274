/-
  Requests that might as well not have been made: those that only look, and those that fail. The
  accounts and sessions, the vault, KV and key tables and the loaded key are all that a request is
  answered from, and such a request leaves them; only the audit log may tell that it was made.
-/
import MiniVault.Http.Trail
import MiniVault.Kit.Unwinding

namespace MiniVault

open Kit Imp

variable {T B J : Type} {P : Prims T B J}

/-! ## All but the audit log -/

/-- The tables but the audit log. -/
def Database.unlogged (db : Database T) : Database T := { db with auditLogs := ⟨true, true, []⟩ }

def Proc.unlogged (s : Proc T B) : Database T × Database T × Option B :=
  (s.db.unlogged, s.committed.unlogged, s.dek)

def World.unlogged (w : World T B) : Database T × Option B := (w.db.unlogged, w.dek)

/-- A computation that does not depend on the audit log. -/
abbrev Unlogged {α : Type} (m : Py P α) : Prop := Through Proc.unlogged m

section Operations

variable {α : Type}

theorem unlogged_query {f : Database T → α} (hf : ∀ db, f db = f db.unlogged) :
    Unlogged (query f : Py P α) :=
  through_gets fun s s' h => by
    have hdb : s.db.unlogged = s'.db.unlogged := congrArg (·.1) h
    rw [hf s.db, hf s'.db, hdb]

theorem unlogged_update {f : Database T → Database T}
    (hf : ∀ db, (f db).unlogged = (f db.unlogged).unlogged) : Unlogged (update f : Py P Unit) :=
  through_modify fun s s' h => by
    have hdb : s.db.unlogged = s'.db.unlogged := congrArg (·.1) h
    refine Prod.ext ?_ (congrArg (·.2) h)
    show (f s.db).unlogged = (f s'.db).unlogged
    rw [hf s.db, hf s'.db, hdb]

theorem unlogged_commit : Unlogged (commit : Py P Unit) :=
  through_modify fun _ _ h =>
    Prod.ext (congrArg (·.1) h) (Prod.ext (congrArg (·.1) h) (congrArg (·.2.2) h))

end Operations

variable [DecidableEq T]

theorem unlogged_register (email password confirmation : T) :
    Unlogged (AuthService.register email password confirmation : Py P T) := by
  unfold AuthService.register
  dsimp only
  refine .ite (through_raise_bind _ _) ((through_ofExcept _).bind fun _ =>
    (unlogged_query fun _ => rfl).bind fun user? => ?_)
  refine .ite (through_raise_bind _ _) (through_environ.bind fun e =>
    (unlogged_query fun _ => rfl).bind fun id => ?_)
  exact (unlogged_update fun _ => rfl).bind fun _ => unlogged_commit.bind fun _ => through_pure _

theorem unlogged_login (settings : Settings) (email password : T) :
    Unlogged (AuthService.login settings email password : Py P (Login T)) := by
  have hcheck : ∀ (user? : Option (User T)) (now : Time),
      Unlogged (AuthService.checkLock user? now : Py P _) := by
    intro user? now
    unfold AuthService.checkLock
    rcases user? with _ | user
    · exact through_pure _
    dsimp only
    rcases user.lockedUntil with _ | t
    · exact through_pure _
    · exact .ite (through_raise_bind _ _)
        ((unlogged_update fun _ => rfl).bind fun _ => through_pure _)
  unfold AuthService.login
  refine (unlogged_query fun _ => rfl).bind fun found =>
    (through_environ.bind fun _ => through_pure _).bind fun now =>
      (hcheck found now).bind fun user? => ?_
  rcases user? with _ | user
  · exact through_raise _
  dsimp only
  refine .ite ((unlogged_update fun _ => rfl).bind fun _ => unlogged_commit.bind fun _ =>
    through_raise_bind _ _) ((unlogged_update fun _ => rfl).bind fun _ =>
      through_environ.bind fun e => (unlogged_query fun _ => rfl).bind fun clash => ?_)
  exact .ite (through_raise_bind _ _) ((unlogged_query fun _ => rfl).bind fun id =>
    (unlogged_update fun _ => rfl).bind fun _ => unlogged_commit.bind fun _ => through_pure _)

omit [DecidableEq T] in
theorem unlogged_logout (session : Session T) :
    Unlogged (AuthService.logout session : Py P Unit) :=
  (through_environ.bind fun _ => through_pure _).bind fun _ =>
    (unlogged_update fun _ => rfl).bind fun _ => unlogged_commit

omit [DecidableEq T] in
theorem unlogged_ok (data : Data T J) (n : Nat) : Unlogged (ok data n : Py P _) := by
  intro e s s' h
  rw [ok_apply, ok_apply]
  exact ⟨rfl, h⟩

/-! ## Requests -/

section Requests

variable {settings : Settings} {e : Env P} {w w' : World T B} {r : Request T J}
  {resp : Response T J}

omit [DecidableEq T] in
theorem session_unlogged (h : w.unlogged = w'.unlogged) :
    w.session.unlogged = w'.session.unlogged := by
  have hdb : w.db.unlogged = w'.db.unlogged := congrArg (·.1) h
  exact Prod.ext hdb (Prod.ext hdb (congrArg (·.2) h))

omit [DecidableEq T] in
theorem close_unlogged {s s' : Proc T B} (h : s.unlogged = s'.unlogged) :
    s.close.unlogged = s'.close.unlogged :=
  Prod.ext (congrArg (·.2.1) h) (congrArg (·.2.2) h)

omit [DecidableEq T] in
theorem held_of_unlogged (h : w.unlogged = w'.unlogged) : w.held = w'.held := by
  have hdb : w.db.unlogged = w'.db.unlogged := congrArg (·.1) h
  refine Prod.ext ?_ (congrArg (·.2) h)
  show w.db.unlogged.held = w'.db.unlogged.held
  rw [hdb]

omit [DecidableEq T] in
/-- Accounts, sessions and what the services hold are all there is besides the log. -/
theorem unlogged_of_held (h : w.held = w'.held) (husers : w.db.users = w'.db.users)
    (hsessions : w.db.sessions = w'.db.sessions) : w.unlogged = w'.unlogged := by
  have hdb : w.db.held = w'.db.held := congrArg (·.1) h
  refine Prod.ext ?_ (congrArg (·.2) h)
  show ({ w.db.held with users := w.db.users, sessions := w.db.sessions } : Database T) =
    { w'.db.held with users := w'.db.users, sessions := w'.db.sessions }
  rw [hdb, husers, hsessions]

theorem principal_unlogged (h : w.unlogged = w'.unlogged) (now : Time) (credentials : Option T) :
    w.db.principal P now credentials = w'.db.principal P now credentials := by
  have hdb : w.db.unlogged = w'.db.unlogged := congrArg (·.1) h
  show w.db.unlogged.principal P now credentials = w'.db.unlogged.principal P now credentials
  rw [hdb]

/-- Two worlds that differ in the log, after the same request. -/
structure SameOutcome (o o' : Response T J × World T B) : Prop where
  answer : o'.1 = o.1
  unlogged : o.2.unlogged = o'.2.unlogged

theorem request_alike (hr : Unlogged (handler settings r : Py P _))
    (h : w.unlogged = w'.unlogged) :
    SameOutcome (w.request settings e r) (w'.request settings e r) := by
  obtain ⟨hres, hleft⟩ := hr e _ _ (session_unlogged h)
  rw [request_eq, request_eq]
  exact ⟨congrArg Response.ofOutcome hres.symm, close_unlogged hleft⟩

theorem userHandler_alike {credentials : Option T} {p : Principal T} {u : UserRequest T J}
    (hp : w.db.principal P e.now credentials = .ok p) (hv : u.valid = true)
    (hr : Unlogged (userHandler p u : Py P _)) (h : w.unlogged = w'.unlogged) :
    SameOutcome (w.request settings e (.user credentials u))
      (w'.request settings e (.user credentials u)) := by
  obtain ⟨hres, hleft⟩ := hr e _ _ (session_unlogged h)
  rw [request_of_principal hp hv,
    request_of_principal ((principal_unlogged h _ _).symm.trans hp) hv]
  exact ⟨congrArg Response.ofOutcome hres.symm, close_unlogged hleft⟩

/-- A call leaves the users and sessions, and works through the rest. -/
theorem call_unlogged (h : w.unlogged = w'.unlogged) (i : Env P × Call T J) :
    (w.call i).1 = (w'.call i).1 ∧ (w.call i).2.unlogged = (w'.call i).2.unlogged := by
  obtain ⟨hres, hheld⟩ := call_held (held_of_unlogged h) i
  obtain ⟨husers, hsessions⟩ := (step_of_call i.1 w i.2).accounts
  obtain ⟨husers', hsessions'⟩ := (step_of_call i.1 w' i.2).accounts
  have hdb : w.db.unlogged = w'.db.unlogged := congrArg (·.1) h
  refine ⟨hres, unlogged_of_held hheld ?_ ?_⟩
  · exact husers.trans ((congrArg (·.users) hdb).trans husers'.symm)
  · exact hsessions.trans ((congrArg (·.sessions) hdb).trans hsessions'.symm)

omit [DecidableEq T] in
theorem audited_unlogged (w : World T B) (e : Env P) (email : T)
    (row : Option (String × String × T)) (res : Except Exc (Data T J)) :
    (w.audited P e email row res).unlogged = w.unlogged := by
  obtain ⟨logs, hlogs⟩ := audited_db w e email row res
  rw [World.unlogged, World.unlogged, hlogs, audited_dek]
  rfl

/-- Two worlds that differ in a valid log answer every request alike. -/
theorem serve_alike (h : w.unlogged = w'.unlogged) (hv : Chained P w.db.auditLogs)
    (hv' : Chained P w'.db.auditLogs) (e : Env P) (r : Request T J) :
    SameOutcome (w.request settings e r) (w'.request settings e r) := by
  have hvault : ∀ c, r.vaultCall = some c →
      SameOutcome (w.request settings e r) (w'.request settings e r) := by
    intro c hc
    obtain ⟨hres, hleft⟩ := call_unlogged h (e, c)
    rw [request_vault hc, request_vault hc, hres]
    exact ⟨rfl, hleft⟩
  cases r with
  | register email password confirmation =>
    exact request_alike ((unlogged_register _ _ _).bind fun _ => unlogged_ok _ _) h
  | login email password =>
    exact request_alike ((unlogged_login _ _ _).bind fun _ => unlogged_ok _ _) h
  | user credentials u =>
    rcases hp : w.db.principal P e.now credentials with x | p
    · rw [request_unauthenticated hp,
        request_unauthenticated ((principal_unlogged h _ _).symm.trans hp)]
      exact ⟨rfl, h⟩
    have hp' := (principal_unlogged h e.now credentials).symm.trans hp
    rcases hvalid : u.valid with _ | _
    · rw [request_invalid hp hvalid, request_invalid hp' hvalid]
      exact ⟨rfl, h⟩
    rcases hc : u.call p.user.email with _ | c
    · rw [UserRequest.call_eq_none hvalid] at hc
      cases u with
      | logout =>
        exact userHandler_alike hp hvalid ((unlogged_logout _).bind fun _ => unlogged_ok _ _) h
      | me => exact userHandler_alike hp hvalid (unlogged_ok _ _) h
      | auditVerify =>
        rw [request_of_principal hp hvalid, request_of_principal hp' hvalid]
        refine ⟨?_, h⟩
        show Response.ok (.audit (auditVerify P w'.db.auditLogs)) 200 =
          .ok (.audit (auditVerify P w.db.auditLogs)) 200
        rw [auditVerify_eq_valid.2 hv.valid, auditVerify_eq_valid.2 hv'.valid]
      | _ => cases hc
    · obtain ⟨hres, hleft⟩ := call_unlogged h (e, c)
      rw [request_user hp hc, request_user hp' hc, hres]
      refine ⟨rfl, ?_⟩
      rw [audited_unlogged, audited_unlogged]
      exact hleft
  | _ => exact hvault _ rfl

end Requests

/-! ## Idle requests -/

def UserRequest.looks : UserRequest T J → Bool
  | .me | .kvList | .kvVersions _ | .kvRead .. | .keyList | .keyGet _ | .auditVerify => true
  | .transitEncrypt .. | .transitDecrypt _ | .transitSign .. | .transitVerify .. => true
  | _ => false

/-- Requests that write nothing, whatever the answer. -/
def Request.looks : Request T J → Bool
  | .vaultStatus => true
  | .user _ u => u.looks
  | _ => false

/-- An exchange that nothing depends on: the request only looked, or it failed and was no login.
    A failed login may count against the account. -/
def idle (x : (Env P × Request T J) × Response T J) : Bool :=
  x.1.2.looks || (!x.2.isOk && !x.1.2.isLogin)

section Idle

variable {settings : Settings} {e : Env P} {w w' : World T B} {r : Request T J}
  {resp : Response T J}

theorem Step.looks {c : Call T J} {res : Except Exc (Data T J)} (hs : Step e w c res w')
    (hc : c.isView = true ∨ ∃ email name plaintextB64, c = .encrypt email name plaintextB64) :
    w'.db = w.db ∧ w'.dek = w.dek := by
  rcases hc with hc | ⟨email, name, plaintextB64, rfl⟩
  · cases hs with
    | fail => exact ⟨rfl, rfl⟩
    | view => exact ⟨rfl, rfl⟩
    | _ => cases hc
  · cases hs with
    | fail => exact ⟨rfl, rfl⟩
    | view => exact ⟨rfl, rfl⟩
    | encrypt => exact ⟨rfl, rfl⟩

omit [DecidableEq T] in
theorem UserRequest.call_looks {u : UserRequest T J} {email : T} {c : Call T J}
    (hu : u.looks = true) (hc : u.call email = some c) :
    c.isView = true ∨ ∃ email name plaintextB64, c = .encrypt email name plaintextB64 := by
  obtain ⟨-, hc⟩ := UserRequest.call_eq_some.1 hc
  cases u with
  | transitEncrypt keyName plaintextB64 =>
    cases hc
    exact .inr ⟨email, keyName, plaintextB64, rfl⟩
  | kvWrite => cases hu
  | kvDelete => cases hu
  | keyCreate => cases hu
  | signingKeyCreate => cases hu
  | keyRotate => cases hu
  | keyRevoke => cases hu
  | _ => cases hc <;> exact .inl rfl

omit [DecidableEq T] in
theorem unlogged_of_eq (h : w'.db = w.db ∧ w'.dek = w.dek) : w'.unlogged = w.unlogged := by
  rw [World.unlogged, World.unlogged, h.1, h.2]

/-- An idle exchange leaves all but the audit log. -/
theorem Served.idle (hs : Served settings e w r resp w')
    (h : MiniVault.idle ((e, r), resp) = true) : w'.unlogged = w.unlogged := by
  have hcases : r.looks = true ∨ resp.isOk = false ∧ r.isLogin = false := by
    simpa [MiniVault.idle] using h
  cases hs with
  | @vault r c res w' hc hs =>
    refine unlogged_of_eq ?_
    rcases hcases with hlooks | ⟨hfail, -⟩
    · cases r with
      | vaultStatus =>
        cases hc
        exact hs.looks (.inl rfl)
      | vaultInit => cases hlooks
      | vaultUnlock => cases hlooks
      | vaultLock => cases hlooks
      | restart => cases hlooks
      | _ => cases hc
    · exact hs.failed hfail
  | @service credentials p u c res w' hp hc hs =>
    rw [audited_unlogged]
    refine unlogged_of_eq ?_
    rcases hcases with hlooks | ⟨hfail, -⟩
    · exact hs.looks (UserRequest.call_looks hlooks hc)
    · exact hs.failed hfail
  | registered =>
    rcases hcases with hlooks | ⟨hfail, -⟩
    · cases hlooks
    · cases hfail
  | wrongPassword =>
    rcases hcases with hlooks | ⟨-, hlogin⟩
    · cases hlooks
    · cases hlogin
  | loggedIn =>
    rcases hcases with hlooks | ⟨-, hlogin⟩
    · cases hlooks
    · cases hlogin
  | loggedOut =>
    rcases hcases with hlooks | ⟨hfail, -⟩
    · cases hlooks
    · cases hfail
  | _ => exact rfl

/-- Two worlds that differ in a valid log. -/
structure World.AlikeButLog (P : Prims T B J) (w w' : World T B) : Prop where
  unlogged : w.unlogged = w'.unlogged
  left : Chained P w.db.auditLogs
  right : Chained P w'.db.auditLogs

theorem idling (settings : Settings) :
    Run.Idling (World.serve settings) (MiniVault.idle (P := P)) (World.AlikeButLog P) where
  absorb i s _ h hi :=
    ⟨((served_of_request settings i.1 s i.2).idle hi).trans h.unlogged,
      (served_of_request settings i.1 s i.2).chained h.left, h.right⟩
  agree i _ _ h := (serve_alike h.unlogged h.left h.right i.1 i.2).answer
  keep i s t h :=
    ⟨(serve_alike h.unlogged h.left h.right i.1 i.2).unlogged,
      (served_of_request settings i.1 s i.2).chained h.left,
      (served_of_request settings i.1 t i.2).chained h.right⟩

end Idle

/-- **Idle requests can be struck out of a run.** Take the exchanges of any run on a valid audit
    log and strike out any of those that only looked or failed, other than logins: what is left is
    exactly what the run of the requests that are left would have exchanged, and it ends with the
    same accounts, sessions, tables and loaded key. -/
theorem idle_requests (settings : Settings) (w : World T B) (hlogs : Chained P w.db.auditLogs)
    (is : List (Env P × Request T J)) (tr : Exchanges P)
    (htr : Run.Pruned idle (w.exchanges settings is) tr) :
    w.exchanges settings (tr.map (·.1)) = tr ∧
      (w.served settings is).unlogged = (w.served settings (tr.map (·.1))).unlogged := by
  obtain ⟨htrace, hfinal⟩ := (idling settings).trace_of_pruned ⟨rfl, hlogs, hlogs⟩ htr
  exact ⟨htrace, hfinal.unlogged⟩

namespace Sample

/-- A path is written, read, and asked for by a name that is not the user's. -/
def idleRequests : List SampleRequest :=
  signedIn ++ [(env 5, .user (some token) (.kvWrite path (secret 1)))] ++ denials ++
    [(env 8, .vaultStatus), (env 9, .user (some token) (.kvWrite path (secret 2)))]

end Sample

open Sample in
theorem idle_requests_sample :
    (((World.initial.exchanges {} idleRequests).filter fun x => !idle x).map (·.1)).length = 6 ∧
      World.initial.exchanges {} (((World.initial.exchanges {} idleRequests).filter
        fun x => !idle x).map (·.1)) =
          (World.initial.exchanges {} idleRequests).filter fun x => !idle x :=
  ⟨by decide +kernel, (idle_requests {} World.initial ⟨⟨rfl, rfl⟩, List.nodup_nil, trivial⟩
    idleRequests _ (Run.Pruned.filter idle _)).1⟩

end MiniVault
