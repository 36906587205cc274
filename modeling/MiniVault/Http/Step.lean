/-
  What one request can do to the world, and runs of requests. Every invariant over requests is
  derived from the cases of `Served`.
-/
import MiniVault.Http.Request
import MiniVault.Kit.Run

namespace MiniVault

open Kit Imp

variable {T B J : Type} {P : Prims T B J} [DecidableEq T]

def Request.isLogin : Request T J → Bool
  | .login _ _ => true
  | _ => false

/-- The cases of one request: what it was, the response, and the world it leaves. -/
inductive Served (settings : Settings) (e : Env P) (w : World T B) :
    Request T J → Response T J → World T B → Prop
  | raised (r x) (hr : r.isLogin = false) : Served settings e w r (.ofExc x) w
  | vault {r c res w'} (hc : r.vaultCall = some c) (hs : Step e w c res w') :
      Served settings e w r (answer P res r.status) w'
  | service {credentials p r c res w'} (hp : w.db.principal P e.now credentials = .ok p)
      (hc : r.call p.user.email = some c) (hs : Step e w c res w') :
      Served settings e w (.user credentials r) (answer P res r.status)
        (w'.audited P e p.user.email (r.audits P) res)
  | me {credentials p} (hp : w.db.principal P e.now credentials = .ok p) :
      Served settings e w (.user credentials .me) (.ok (.me p.user.email) 200) w
  | auditVerify {credentials p} (hp : w.db.principal P e.now credentials = .ok p) :
      Served settings e w (.user credentials .auditVerify)
        (.ok (.audit (MiniVault.auditVerify P w.db.auditLogs)) 200) w
  | registered {email password} (hf : w.db.findUser (P.normalizeEmail email) = none) :
      Served settings e w (.register email password password)
        (.ok (.registered (P.normalizeEmail email)) 201)
        { w with db := w.db.registerUser P e email password }
  | unknownUser {email password} (hf : w.db.findUser (P.normalizeEmail email) = none) :
      Served settings e w (.login email password) (.ofExc invalidCredentials) w
  | lockedOut {email password user} (hf : w.db.findUser (P.normalizeEmail email) = some user)
      (hl : user.lockedAt e.now) :
      Served settings e w (.login email password) (.ofExc accountLocked) w
  | tokenClash {email password user}
      (hf : w.db.findUser (P.normalizeEmail email) = some user) (hl : ¬ user.lockedAt e.now)
      (hp : P.verifyPassword user.passwordHash password = true)
      (hc : w.db.findSession (tokenDigest P e.token) ≠ none) :
      Served settings e w (.login email password) (.ofExc .integrityError) w
  | wrongPassword {email password user}
      (hf : w.db.findUser (P.normalizeEmail email) = some user) (hl : ¬ user.lockedAt e.now)
      (hp : P.verifyPassword user.passwordHash password = false) :
      Served settings e w (.login email password) (.ofExc invalidCredentials)
        { w with db := w.db.setLockout user.id (user.missed e.now).1 (user.missed e.now).2 }
  | loggedIn {email password user}
      (hf : w.db.findUser (P.normalizeEmail email) = some user) (hl : ¬ user.lockedAt e.now)
      (hp : P.verifyPassword user.passwordHash password = true)
      (hc : w.db.findSession (tokenDigest P e.token) = none) :
      Served settings e w (.login email password)
        (.ok (.login ⟨e.token, P.lit "Bearer", settings.sessionTtlSeconds⟩) 200)
        { w with db := w.db.openSession P settings e user.id }
  | loggedOut {credentials p} (hp : w.db.principal P e.now credentials = .ok p) :
      Served settings e w (.user credentials .logout) (.ok .loggedOut 200)
        { w with db := w.db.revokeSession p.session.id e.now }

section Cases

variable {settings : Settings} {e : Env P} {w : World T B}

/-- A request whose handler is one operation and a rendering of its result. -/
theorem request_of_run {α : Type} {m : Py P α} {f : α → Data T J} {n : Nat} {r : Request T J}
    (hr : handler settings r = m >>= fun a => ok (f a) n) {res : Except Exc α} {s : Proc T B}
    (h : m e w.session = (res, s)) :
    w.request settings e r = (answer P (res.map f) n, s.close) := by
  rw [request_eq, hr, bind_apply, h]
  rcases res with x | a
  · rfl
  · dsimp only
    rw [ok_apply]
    rfl

theorem register_served (email password confirmation : T) :
    Served settings e w (.register email password confirmation : Request T J)
      (w.request settings e (.register email password confirmation)).1
      (w.request settings e (.register email password confirmation)).2 := by
  have hr : handler settings (.register email password confirmation) =
      AuthService.register email password confirmation >>=
        fun a => ok (P := P) (.registered a : Data T J) 201 := rfl
  rcases register_cases email password confirmation e w.session with ⟨x, hx⟩ | ⟨rfl, hf, h⟩
  · rw [request_of_run hr hx]
    exact .raised (.register email password confirmation) x rfl
  · rw [request_of_run hr h]
    exact .registered hf

theorem login_served (email password : T) :
    Served settings e w (.login email password : Request T J)
      (w.request settings e (.login email password)).1
      (w.request settings e (.login email password)).2 := by
  have hr : handler settings (.login email password) =
      AuthService.login settings email password >>=
        fun a => ok (P := P) (.login a : Data T J) 200 := rfl
  rcases hf : w.db.findUser (P.normalizeEmail email) with _ | user
  · rw [request_of_run hr (login_unknown (s := w.session) hf)]
    exact .unknownUser hf
  by_cases hl : user.lockedAt e.now
  · rw [request_of_run hr (login_locked (s := w.session) hf hl)]
    exact .lockedOut hf hl
  rcases hp : P.verifyPassword user.passwordHash password with _ | _
  · rw [request_of_run hr (login_wrong (s := w.session) hf hl hp)]
    exact .wrongPassword hf hl hp
  by_cases hc : w.db.findSession (tokenDigest P e.token) = none
  · rw [request_of_run hr (login_right (s := w.session) hf hl hp hc)]
    exact .loggedIn hf hl hp hc
  · obtain ⟨db, hdb⟩ : ∃ db, AuthService.login settings email password e w.session =
        (.error .integrityError, { w.session with db := db }) := login_clash hf hl hp hc
    rw [request_of_run hr hdb]
    exact .tokenClash hf hl hp hc

theorem user_served (credentials : Option T) (r : UserRequest T J) :
    Served settings e w (.user credentials r) (w.request settings e (.user credentials r)).1
      (w.request settings e (.user credentials r)).2 := by
  rcases hp : w.db.principal P e.now credentials with x | p
  · rw [request_unauthenticated hp]
    exact .raised (.user credentials r) x rfl
  rcases hv : r.valid with _ | _
  · rw [request_invalid hp hv]
    exact .raised (.user credentials r) invalidRequest rfl
  rcases hc : r.call p.user.email with _ | c
  · rw [request_of_principal hp hv]
    rw [UserRequest.call_eq_none hv] at hc
    cases r with
    | logout => exact .loggedOut hp
    | me => exact .me hp
    | auditVerify => exact .auditVerify hp
    | _ => cases hc
  · rw [request_user hp hc]
    exact .service hp hc (step_of_call e w c)

/-- Every request is one of the cases. -/
theorem served_of_request (settings : Settings) (e : Env P) (w : World T B) (r : Request T J) :
    Served settings e w r (w.request settings e r).1 (w.request settings e r).2 := by
  have hvault : ∀ c, r.vaultCall = some c →
      Served settings e w r (w.request settings e r).1 (w.request settings e r).2 := by
    intro c hc
    rw [request_vault hc]
    exact .vault hc (step_of_call e w c)
  cases r with
  | vaultInit p c => exact hvault _ rfl
  | vaultUnlock p => exact hvault _ rfl
  | vaultLock => exact hvault _ rfl
  | vaultStatus => exact hvault _ rfl
  | register email password confirmation => exact register_served email password confirmation
  | login email password => exact login_served email password
  | user credentials r => exact user_served credentials r
  | restart => exact hvault _ rfl

end Cases

/-! ## Calls behind requests -/

section Calls

variable {e : Env P} {w w' : World T B} {c : Call T J} {res : Except Exc (Data T J)}

/-- A call that fails, or whose result cannot be rendered, changes nothing but the ghost log. -/
theorem Step.failed {n : Nat} (hs : Step e w c res w') (h : (answer P res n).isOk = false) :
    w'.db = w.db ∧ w'.dek = w.dek := by
  cases hs with
  | fail => exact ⟨rfl, rfl⟩
  | view => exact ⟨rfl, rfl⟩
  | kvOverflow => exact ⟨rfl, rfl⟩
  | rotateOverflow => exact ⟨rfl, rfl⟩
  | encrypt => cases h
  | _ => cases h

/-- A call of a user does not touch the vault configuration and the loaded key. -/
theorem Step.vault {email : T} (hs : Step e w c res w') (hc : c.email? = some email) :
    w'.db.vaultConfig = w.db.vaultConfig ∧ w'.dek = w.dek := by
  cases hs with
  | vaultInit => cases hc
  | vaultUnlock => cases hc
  | vaultLock => cases hc
  | restart => cases hc
  | createAes => exact ⟨rfl, rfl⟩
  | _ => exact ⟨rfl, rfl⟩

/-- No call touches users and sessions. -/
theorem Step.accounts (hs : Step e w c res w') :
    w'.db.users = w.db.users ∧ w'.db.sessions = w.db.sessions := by
  cases hs with
  | createAes => exact ⟨rfl, rfl⟩
  | _ => exact ⟨rfl, rfl⟩

end Calls

omit [DecidableEq T] in
/-- The handler of a request adds nothing to a table but the audit log. -/
theorem audited_db (w : World T B) (e : Env P) (email : T) (row : Option (String × String × T))
    (res : Except Exc (Data T J)) :
    ∃ logs, (w.audited P e email row res).db = { w.db with auditLogs := logs } := by
  unfold World.audited
  split
  · split
    · exact ⟨_, rfl⟩
    · exact ⟨_, rfl⟩
  · exact ⟨_, rfl⟩

omit [DecidableEq T] in
theorem audited_dek (w : World T B) (e : Env P) (email : T) (row : Option (String × String × T))
    (res : Except Exc (Data T J)) : (w.audited P e email row res).dek = w.dek := by
  unfold World.audited
  split
  · split <;> rfl
  · rfl

/-! ## Runs of requests -/

/-- One request of a run. -/
def World.serve (settings : Settings) (w : World T B) (i : Env P × Request T J) :
    Response T J × World T B :=
  w.request settings i.1 i.2

/-- The world after a run of requests. -/
def World.served (settings : Settings) (w : World T B) (is : List (Env P × Request T J)) :
    World T B :=
  Run.final (World.serve settings) w is

/-- The requests of a run with their responses. -/
abbrev Exchanges (P : Prims T B J) : Type := List ((Env P × Request T J) × Response T J)

def World.exchanges (settings : Settings) (w : World T B) (is : List (Env P × Request T J)) :
    Exchanges P :=
  Run.trace (World.serve settings) w is

/-- Induction over runs of requests. -/
theorem serve_induction (settings : Settings) (w₀ : World T B)
    {I : Exchanges P → World T B → Prop} (h : I [] w₀)
    (hstep : ∀ tr w w' e r resp, I tr w → Served settings e w r resp w' →
      I (tr ++ [((e, r), resp)]) w')
    (is : List (Env P × Request T J)) : I (w₀.exchanges settings is) (w₀.served settings is) :=
  @Run.run_induction _ _ _ (World.serve settings) I w₀ h
    (fun tr w i hI => hstep tr w _ i.1 i.2 _ hI (served_of_request settings i.1 w i.2)) is

end MiniVault
