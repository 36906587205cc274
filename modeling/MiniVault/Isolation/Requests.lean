/-
  One request beside another user. A request made on behalf of somebody else leaves what a user
  sees: their items and keys, their row and their sessions. A request of the user, or of nobody,
  is answered alike in two worlds that the user cannot tell apart and leaves two such worlds.
-/
import MiniVault.Http.Sound
import MiniVault.Isolation.Accounts

namespace MiniVault

open Kit Imp

variable {T B J : Type} {P : Prims T B J} [DecidableEq T]

/-! ## On whose behalf -/

/-- The address a request is made on behalf of: that of the registration or login itself, or of
    the user whose session the credentials name, be it live or not. -/
def Database.subject (P : Prims T B J) (db : Database T) : Request T J → Option T
  | .register email _ _ => some (P.normalizeEmail email)
  | .login email _ => some (P.normalizeEmail email)
  | .user credentials _ =>
    ((credentials.filter P.truthy).bind fun token => db.findSession (tokenDigest P token)).bind
      db.emailOf
  | _ => none

/-- One user's items and keys. -/
def Scope.only (email : T) : Scope T where
  users user := user = email
  keys owner _ := owner = email

section Subject

variable {db db' : Database T} {credentials : Option T} {email : T} {p : Principal T}

theorem subject_of_principal {now : Time} (hp : db.principal P now credentials = .ok p)
    (r : UserRequest T J) : db.subject P (.user credentials r) = some p.user.email := by
  obtain ⟨token, rfl, htruthy, hsession, -, -, huser⟩ := principal_eq_ok.1 hp
  unfold Database.subject
  dsimp only
  rw [Option.filter_some, if_pos htruthy, Option.bind_some, hsession, Option.bind_some,
    Database.emailOf, huser]
  rfl

/-- Every session has an owner, so that credentials of nobody are of no session. -/
theorem emailOf_of_subject (ha : db.Accounts) {r : UserRequest T J}
    (hsubject : ∀ u, db.subject P (.user credentials r) = some u → u = email) {token : T}
    {s : Session T} (hc : credentials.filter P.truthy = some token)
    (hs : db.findSession (tokenDigest P token) = some s) : db.emailOf s = some email := by
  obtain ⟨u, hu, hid⟩ := ha.owners s (findSession_eq_some hs).1
  have hemail := emailOf_of_mem ha hu hid
  rw [hemail, hsubject u.email]
  unfold Database.subject
  dsimp only
  rw [hc, Option.bind_some, hs, Option.bind_some, hemail]

end Subject

/-! ## Calls of one user -/

section Calls

variable {c : Call T J} {email user : T}

omit [DecidableEq T] in
theorem Call.of_kvOwner (h : c.kvOwner? = some email) : c.email? = some email := by
  cases c <;> cases h <;> rfl

theorem Call.hidden_of_other (hc : c.email? = some user) (hne : user ≠ email) :
    c.Hidden P (.only email) := by
  refine ⟨⟨user, hc⟩, fun owner ho => ?_, fun owner name hk => ?_⟩
  · cases hc.symm.trans (Call.of_kvOwner ho)
    exact decide_eq_false hne
  · cases hc.symm.trans (Call.of_key hk).1
    exact decide_eq_false hne

theorem Call.visible_of_own (hc : ∀ user, c.email? = some user → user = email) :
    c.Visible P (.only email) :=
  ⟨fun _ ho => decide_eq_true (hc _ (Call.of_kvOwner ho)),
    fun _ _ hk => decide_eq_true (hc _ (Call.of_key hk).1)⟩

/-- A user sees all of their own listing. -/
theorem Call.hide_own (hc : ∀ user, c.email? = some user → user = email)
    (r : Except Exc (Data T J)) : c.hide (.only email) r = r := by
  cases c with
  | keyList user =>
    cases hc user rfl
    unfold Call.hide
    split
    · rename_i ms heq
      cases heq
      have hall : ms.filter (fun m => (Scope.only email).keys email m.keyName) = ms :=
        List.filter_eq_self.2 fun m _ => decide_eq_true rfl
      rw [hall]
    · rfl
  | _ => rfl

end Calls

/-! ## Somebody else -/

section Others

variable {good : T → Prop} {settings : Settings} {e : Env P} {w w' : World T B} {S : Scope T}
  {r : Request T J} {resp : Response T J} {email user : T}

omit [DecidableEq T] in
theorem twins_audited (w : World T B) (e : Env P) (user : T) (row : Option (String × String × T))
    (res : Except Exc (Data T J)) : w.Twins S (w.audited P e user row res) := by
  obtain ⟨logs, hlogs⟩ := audited_db w e user row res
  refine ⟨audited_dek w e user row res, ?_⟩
  rw [hlogs]
  exact alike_of_tables rfl rfl rfl rfl rfl

/-- **A request of somebody else leaves what a user sees.** -/
theorem World.Serving.other (h : w.Serving P good) (hone : P.OneOwner good)
    (hs : Served settings e w r resp w') (hsubject : w.db.subject P r = some user)
    (hne : user ≠ email) : w.Twins (.only email) w' ∧ w.db.Leaves email w'.db := by
  have hstays : ∀ db : Database T, db.vaultConfig = w.db.vaultConfig →
      db.kvSecrets = w.db.kvSecrets → db.kvSecretVersions = w.db.kvSecretVersions →
      db.transitKeys = w.db.transitKeys → db.transitKeyVersions = w.db.transitKeyVersions →
      w.Twins (.only email) { w with db := db } :=
    fun db hc hk hv ht hr => ⟨rfl, alike_of_tables hc hk hv ht hr⟩
  cases hs with
  | raised => exact ⟨.refl w, .frame rfl rfl⟩
  | unknownUser => exact ⟨.refl w, .frame rfl rfl⟩
  | lockedOut => exact ⟨.refl w, .frame rfl rfl⟩
  | tokenClash => exact ⟨.refl w, .frame rfl rfl⟩
  | me => exact ⟨.refl w, .frame rfl rfl⟩
  | auditVerify => exact ⟨.refl w, .frame rfl rfl⟩
  | vault hc =>
    cases r with
    | register => cases hc
    | login => cases hc
    | user => cases hc
    | _ => cases hsubject
  | @service credentials p r c res w' hp hc hs =>
    rw [subject_of_principal hp] at hsubject
    cases hsubject
    have hemail := UserRequest.call_email hc
    have hgood : ∀ user, c.email? = some user → good user := by
      intro user huser
      cases hemail.symm.trans huser
      exact h.principal hp
    obtain ⟨husers, hsessions⟩ := service_accounts hs p.user.email (r.audits P)
    refine ⟨?_, .frame husers hsessions⟩
    exact (hs.hidden (Call.hidden_of_other hemail hne) h.sound.shaped (hone.closed _) hgood).trans
      (twins_audited w' e _ _ _)
  | registered =>
    cases hsubject
    exact ⟨hstays _ rfl rfl rfl rfl rfl, leaves_registerUser h.accounts e hne _⟩
  | wrongPassword hf =>
    cases hsubject
    obtain ⟨huser, hemail⟩ := findUser_eq_some hf
    exact ⟨hstays _ rfl rfl rfl rfl rfl,
      leaves_setLockout h.accounts huser (fun heq => hne (hemail.symm.trans heq)) _ _⟩
  | loggedIn hf _ _ hc =>
    cases hsubject
    obtain ⟨huser, hemail⟩ := findUser_eq_some hf
    exact ⟨hstays _ rfl rfl rfl rfl rfl, leaves_openSession h.accounts settings e huser
      (fun heq => hne (hemail.symm.trans heq)) hc⟩
  | @loggedOut credentials p hp =>
    rw [subject_of_principal hp] at hsubject
    cases hsubject
    obtain ⟨token, -, -, hsession, -, -, huser⟩ := principal_eq_ok.1 hp
    refine ⟨hstays _ rfl rfl rfl rfl rfl,
      leaves_revokeSession h.accounts (findSession_eq_some hsession).1 ?_ e.now⟩
    rw [Database.emailOf, huser]
    exact fun heq => hne (Option.some.inj heq)

end Others

/-! ## The user, or nobody -/

def Request.isAuditVerify : Request T J → Bool
  | .user _ .auditVerify => true
  | _ => false

/-- The outcomes of a request that the user cannot tell apart. The answer to an audit verification
    is about the log of all users. -/
structure Request.SameFor (r : Request T J) (email : T) (o o' : Response T J × World T B) :
    Prop where
  answer : r.isAuditVerify = false → o'.1 = o.1
  twins : o.2.Twins (.only email) o'.2
  account : o.2.db.SameAccount email o'.2.db

/-- A registration fails or succeeds with the address alone, whoever else is registered. -/
theorem register_pair {s t : Proc T B} {e : Env P} {address : T}
    (hf : Paired User.anon User.anon (s.db.findUser (P.normalizeEmail address))
      (t.db.findUser (P.normalizeEmail address))) (password confirmation : T) :
    Refuses (AuthService.register address password confirmation) e s t ∨
      (AuthService.register address password confirmation e s =
          (.ok (P.normalizeEmail address),
            { s with
              db := s.db.registerUser P e address password
              committed := s.db.registerUser P e address password }) ∧
        AuthService.register address password confirmation e t =
          (.ok (P.normalizeEmail address),
            { t with
              db := t.db.registerUser P e address password
              committed := t.db.registerUser P e address password })) := by
  unfold Refuses AuthService.register
  by_cases hp : password = confirmation
  swap
  · left; simp [hp]
  subst hp
  rcases hv : P.validatePassphrase password with x | _
  · left; simp
  rcases hf with ⟨hl, hl'⟩ | ⟨u, u', hl, hl', -⟩
  · right
    constructor
    · simp [hl, Database.registerUser, newUser]
    · simp [hl', Database.registerUser, newUser]
  · left; simp [hl, hl']

omit [DecidableEq T] in
theorem missed_anon (u : User T) (now : Time) : u.anon.missed now = u.missed now := by
  unfold User.missed User.unlocked User.anon
  rcases u.lockedUntil with _ | t
  · rfl
  · rfl

omit [DecidableEq T] in
theorem lockedAt_anon (u : User T) (now : Time) : u.anon.lockedAt now ↔ u.lockedAt now := Iff.rfl

section Own

variable {good : T → Prop} {settings : Settings} {e : Env P} {w w' : World T B} {email : T}
  (h : w.Twins (.only email) w') (hsame : w.db.SameAccount email w'.db)

include h hsame

theorem vault_sameFor (hw : w.Serving P good) (hw' : w'.Serving P good) (hone : P.OneOwner good)
    {r : Request T J} {c : Call T J} (hc : r.vaultCall = some c) :
    r.SameFor email (w.request settings e r) (w'.request settings e r) := by
  have hemail : c.email? = none := by
    cases r <;> cases hc <;> rfl
  have hown : ∀ user, c.email? = some user → user = email := by
    intro user huser
    rw [hemail] at huser
    cases huser
  obtain ⟨hres, htwins⟩ := call_sameSeen h hw.sound.shaped hw'.sound.shaped (hone.closed _) e c
    (Call.visible_of_own hown) fun user huser => by rw [hemail] at huser; cases huser
  rw [Call.hide_own hown, Call.hide_own hown] at hres
  rw [request_vault hc, request_vault hc]
  obtain ⟨husers, hsessions⟩ := (step_of_call e w c).accounts
  obtain ⟨husers', hsessions'⟩ := (step_of_call e w' c).accounts
  exact ⟨fun _ => by rw [hres], htwins, hsame.frame husers hsessions husers' hsessions'⟩

theorem register_sameFor (ha : w.db.Accounts) (ha' : w'.db.Accounts) {address : T}
    (haddress : P.normalizeEmail address = email) (password confirmation : T) :
    (Request.register address password confirmation : Request T J).SameFor email
      (w.request settings e (.register address password confirmation))
      (w'.request settings e (.register address password confirmation)) := by
  subst haddress
  have hr : handler settings (.register address password confirmation) =
      AuthService.register address password confirmation >>=
        fun a => ok (P := P) (.registered a : Data T J) 201 := rfl
  rcases register_pair (s := w.session) (t := w'.session) (e := e) hsame.findUser password
    confirmation with ⟨x, hl, hl'⟩ | ⟨hl, hl'⟩
  · rw [request_of_run hr hl, request_of_run hr hl']
    exact ⟨fun _ => rfl, h, hsame⟩
  · rw [request_of_run hr hl, request_of_run hr hl']
    exact ⟨fun _ => rfl, ⟨h.dek, h.alike.config, h.alike.kv, h.alike.keys⟩,
      hsame.registerUser ha ha' e address password⟩

theorem login_sameFor (ha : w.db.Accounts) (ha' : w'.db.Accounts) {address : T}
    (haddress : P.normalizeEmail address = email) (password : T)
    (hfresh : w.db.findSession (tokenDigest P e.token) = none) :
    (Request.login address password : Request T J).SameFor email
      (w.request settings e (.login address password))
      (w'.request settings e (.login address password)) := by
  subst haddress
  have hr : handler settings (.login address password) =
      AuthService.login settings address password >>=
        fun a => ok (P := P) (.login a : Data T J) 200 := rfl
  rcases hsame.findUser with ⟨hl, hl'⟩ | ⟨u, u', hl, hl', hanon⟩
  · rw [request_of_run hr (login_unknown (s := w.session) hl),
      request_of_run hr (login_unknown (s := w'.session) hl')]
    exact ⟨fun _ => rfl, h, hsame⟩
  have hhash : u'.passwordHash = u.passwordHash := congrArg (·.passwordHash) hanon.symm
  have hmissed : u'.missed e.now = u.missed e.now := by
    rw [← missed_anon u', ← hanon, missed_anon]
  by_cases hlocked : u.lockedAt e.now
  · have hlocked' : u'.lockedAt e.now := by
      rw [← lockedAt_anon, ← hanon]
      exact hlocked
    rw [request_of_run hr (login_locked (s := w.session) hl hlocked),
      request_of_run hr (login_locked (s := w'.session) hl' hlocked')]
    exact ⟨fun _ => rfl, h, hsame⟩
  have hlocked' : ¬ u'.lockedAt e.now := by
    rw [← lockedAt_anon, ← hanon]
    exact hlocked
  rcases hp : P.verifyPassword u.passwordHash password with _ | _
  · rw [request_of_run hr (login_wrong (s := w.session) hl hlocked hp),
      request_of_run hr (login_wrong (s := w'.session) hl' hlocked' (hhash ▸ hp)), hmissed]
    exact ⟨fun _ => rfl, ⟨h.dek, h.alike.config, h.alike.kv, h.alike.keys⟩,
      hsame.setLockout hl hl' _ _⟩
  · rw [request_of_run hr (login_right (s := w.session) hl hlocked hp hfresh),
      request_of_run hr (login_right (s := w'.session) hl' hlocked' (hhash ▸ hp)
        (hsame.tokens _ hfresh))]
    exact ⟨fun _ => rfl, ⟨h.dek, h.alike.config, h.alike.kv, h.alike.keys⟩,
      hsame.openSession ha ha' settings e hl hl' hfresh⟩

theorem user_sameFor (hw : w.Serving P good) (hw' : w'.Serving P good) (hone : P.OneOwner good)
    {credentials : Option T} {r : UserRequest T J}
    (hsubject : ∀ u, w.db.subject P (.user credentials r) = some u → u = email) :
    (Request.user credentials r).SameFor email (w.request settings e (.user credentials r))
      (w'.request settings e (.user credentials r)) := by
  rcases hsame.principal hw.accounts hw'.accounts e.now
      (fun token s => emailOf_of_subject hw.accounts hsubject) with
    ⟨x, hl, hr⟩ | ⟨p, p', hl, hr, hp, hp', hmem, hmem', hanon⟩
  · rw [request_unauthenticated hl, request_unauthenticated hr]
    exact ⟨fun _ => rfl, h, hsame⟩
  rcases hv : r.valid with _ | _
  · rw [request_invalid hl hv, request_invalid hr hv]
    exact ⟨fun _ => rfl, h, hsame⟩
  rcases hc : r.call email with _ | c
  · rw [request_of_principal hl hv, request_of_principal hr hv]
    rw [UserRequest.call_eq_none hv] at hc
    cases r with
    | logout =>
      exact ⟨fun _ => rfl, ⟨h.dek, h.alike.config, h.alike.kv, h.alike.keys⟩,
        hsame.revokeSession hw.accounts hw'.accounts hmem hmem' hanon e.now⟩
    | me =>
      refine ⟨fun _ => ?_, h, hsame⟩
      show Response.ok (.me p'.user.email) 200 = .ok (.me p.user.email) 200
      rw [hp, hp']
    | auditVerify => exact ⟨nofun, h, hsame⟩
    | _ => cases hc
  · have hcl : r.call p.user.email = some c := by rw [hp]; exact hc
    have hcr : r.call p'.user.email = some c := by rw [hp']; exact hc
    have hown : ∀ user, c.email? = some user → user = email := by
      intro user huser
      rw [UserRequest.call_email hc] at huser
      exact (Option.some.inj huser).symm
    have hgood : ∀ user, c.email? = some user → good user := by
      intro user huser
      rw [hown user huser, ← hp]
      exact hw.principal hl
    obtain ⟨hres, htwins⟩ := call_sameSeen h hw.sound.shaped hw'.sound.shaped (hone.closed _) e c
      (Call.visible_of_own hown) hgood
    rw [Call.hide_own hown, Call.hide_own hown] at hres
    rw [request_user hl hcl, request_user hr hcr]
    obtain ⟨husers, hsessions⟩ := service_accounts (step_of_call e w c) p.user.email (r.audits P)
    obtain ⟨husers', hsessions'⟩ := service_accounts (step_of_call e w' c) p'.user.email
      (r.audits P)
    refine ⟨fun _ => ?_, ?_, hsame.frame husers hsessions husers' hsessions'⟩
    · show answer P (w'.call (e, c)).1 r.status = answer P (w.call (e, c)).1 r.status
      rw [hres]
    · exact ((twins_audited _ e _ _ _).symm.trans htwins).trans (twins_audited _ e _ _ _)

/-- **A request of the user, or of nobody, is answered alike.** -/
theorem request_sameFor (hw : w.Serving P good) (hw' : w'.Serving P good) (hone : P.OneOwner good)
    {r : Request T J} (hsubject : ∀ u, w.db.subject P r = some u → u = email)
    (hfresh : r.isLogin = true → w.db.findSession (tokenDigest P e.token) = none) :
    r.SameFor email (w.request settings e r) (w'.request settings e r) := by
  cases r with
  | vaultInit p c => exact vault_sameFor h hsame hw hw' hone rfl
  | vaultUnlock p => exact vault_sameFor h hsame hw hw' hone rfl
  | vaultLock => exact vault_sameFor h hsame hw hw' hone rfl
  | vaultStatus => exact vault_sameFor h hsame hw hw' hone rfl
  | restart => exact vault_sameFor h hsame hw hw' hone rfl
  | register address password confirmation =>
    exact register_sameFor h hsame hw.accounts hw'.accounts (hsubject _ rfl) password confirmation
  | login address password =>
    exact login_sameFor h hsame hw.accounts hw'.accounts (hsubject _ rfl) password (hfresh rfl)
  | user credentials r => exact user_sameFor h hsame hw hw' hone hsubject

end Own

end MiniVault
