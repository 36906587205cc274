/-
  Sessions over whole histories: `current_principal` accepts a token exactly while it is one that
  a login returned, not expired, and not logged out. Every session row belongs to one login of
  the history.
-/
import MiniVault.Auth.Accounts
import MiniVault.Model.Sample

namespace MiniVault

open Kit

variable {T B J : Type} {P : Prims T B J}

/-! ## Histories -/

/-- The exchange is a login that issued the token `t` to `email` at the time `s`. -/
inductive LogsIn : (Env P × Request T J) × Response T J → T → T → Time → Prop
  | mk (e : Env P) (email password : T) (l : Login T) (n : Nat) :
      LogsIn ((e, .login email password), .ok (.login l) n) l.accessToken
        (P.normalizeEmail email) e.now

/-- The exchange is a logout that the token `t` authenticated. -/
inductive LogsOut : (Env P × Request T J) × Response T J → T → Prop
  | mk (e : Env P) (t : T) (n : Nat) : LogsOut ((e, .user (some t) .logout), .ok .loggedOut n) t

/-- A login issued the token, and no logout with it has happened since. -/
def LoggedIn (tr : Exchanges P) (t email : T) (s : Time) : Prop :=
  ∃ before x after, tr = before ++ x :: after ∧ LogsIn x t email s ∧ ∀ y ∈ after, ¬ LogsOut y t

theorem LogsIn.request {x : (Env P × Request T J) × Response T J} {t email : T} {s : Time}
    (h : LogsIn x t email s) :
    x.2.isOk = true ∧ ∃ email password, x.1.2 = .login email password := by
  cases h
  exact ⟨rfl, _, _, rfl⟩

theorem LogsOut.request {x : (Env P × Request T J) × Response T J} {t : T} (h : LogsOut x t) :
    x.2.isOk = true ∧ x.1.2 = .user (some t) .logout := by
  cases h
  exact ⟨rfl, rfl⟩

theorem loggedIn_concat {tr : Exchanges P} {x : (Env P × Request T J) × Response T J} {t email : T}
    {s : Time} : LoggedIn (tr ++ [x]) t email s ↔
      (LoggedIn tr t email s ∧ ¬ LogsOut x t) ∨ LogsIn x t email s := by
  constructor
  · rintro ⟨before, y, after, htr, hin, hout⟩
    rcases List.eq_nil_or_concat after with rfl | ⟨after, z, rfl⟩
    · obtain ⟨-, hx⟩ := List.append_inj' htr rfl
      cases hx
      exact .inr hin
    · rw [List.concat_eq_append, ← List.cons_append, ← List.append_assoc] at htr
      obtain ⟨htr', hx⟩ := List.append_inj' htr rfl
      cases hx
      rw [List.concat_eq_append] at hout
      exact .inl ⟨⟨before, y, after, htr', hin, fun y hy => hout y (List.mem_append_left _ hy)⟩,
        hout x (List.mem_append_right _ List.mem_cons_self)⟩
  · rintro (⟨⟨before, y, after, rfl, hin, hout⟩, hx⟩ | hin)
    · refine ⟨before, y, after ++ [x], by simp, hin, fun z hz => ?_⟩
      rcases List.mem_append.1 hz with hz | hz
      · exact hout z hz
      · rw [List.mem_singleton.1 hz]
        exact hx
    · exact ⟨tr, x, [], rfl, hin, by rintro _ ⟨⟩⟩

/-! ## Rows and logins -/

/-- The row of the session that a login opened. -/
structure Session.OpenedBy (P : Prims T B J) (settings : Settings) (db : Database T)
    (r : Session T) (t email : T) (s : Time) : Prop where
  token : r.tokenHash = tokenDigest P t
  expiry : r.expiresAt = s + settings.sessionTtl
  user : db.HasUser r.userId email

/-- What a history says of the session table. -/
structure SessionsRecorded (settings : Settings) (tr : Exchanges P) (w : World T B) : Prop where
  accounts : w.db.Accounts
  issued : ∀ x ∈ tr, ∀ t email s, LogsIn x t email s →
    ∃ r ∈ w.db.sessions, r.OpenedBy P settings w.db t email s
  live : ∀ t email s, LoggedIn tr t email s →
    ∃ r ∈ w.db.sessions, r.OpenedBy P settings w.db t email s ∧ r.revokedAt = none
  rows : ∀ r ∈ w.db.sessions, r.revokedAt = none →
    ∃ t email s, LoggedIn tr t email s ∧ r.OpenedBy P settings w.db t email s

theorem sessionsRecorded_initial (settings : Settings) :
    SessionsRecorded (P := P) settings [] World.initial where
  accounts := accounts_initial
  issued _ hx := by cases hx
  live := by
    rintro _ _ _ ⟨before, x, after, htr, -⟩
    simp at htr
  rows _ hr := by cases hr

section Steps

variable {settings : Settings} {tr : Exchanges P} {e : Env P} {w w' : World T B}
  {x : (Env P × Request T J) × Response T J}

theorem Session.OpenedBy.frame {db db' : Database T} {r r' : Session T} {t email : T} {s : Time}
    (h : r.OpenedBy P settings db t email s) (htoken : r'.tokenHash = r.tokenHash)
    (hexpiry : r'.expiresAt = r.expiresAt) (huser : r'.userId = r.userId)
    (hu : ∀ id email, db.HasUser id email → db'.HasUser id email) :
    r'.OpenedBy P settings db' t email s :=
  ⟨htoken.trans h.token, hexpiry.trans h.expiry, huser ▸ hu _ _ h.user⟩

/-- An exchange that neither logs in nor out, and leaves the sessions. -/
theorem SessionsRecorded.frame (h : SessionsRecorded settings tr w) (ha : w'.db.Accounts)
    (hs : w'.db.sessions = w.db.sessions)
    (hu : ∀ id email, w.db.HasUser id email → w'.db.HasUser id email)
    (hin : ∀ t email s, ¬ LogsIn x t email s) (hout : ∀ t, ¬ LogsOut x t) :
    SessionsRecorded settings (tr ++ [x]) w' := by
  have hopened : ∀ (r : Session T) t email s, r.OpenedBy P settings w.db t email s →
      r.OpenedBy P settings w'.db t email s := fun r t email s hr => hr.frame rfl rfl rfl hu
  refine ⟨ha, fun y hy t email s hy' => ?_, fun t email s ht => ?_, fun r hr hlive => ?_⟩
  · rcases List.mem_append.1 hy with hy | hy
    · rw [hs]
      obtain ⟨r, hr, hopen⟩ := h.issued y hy t email s hy'
      exact ⟨r, hr, hopened _ _ _ _ hopen⟩
    · rw [List.mem_singleton.1 hy] at hy'
      exact absurd hy' (hin t email s)
  · rcases loggedIn_concat.1 ht with ⟨ht, -⟩ | ht
    · rw [hs]
      obtain ⟨r, hr, hopen, hlive⟩ := h.live t email s ht
      exact ⟨r, hr, hopened _ _ _ _ hopen, hlive⟩
    · exact absurd ht (hin t email s)
  · rw [hs] at hr
    obtain ⟨t, email, s, ht, hopen⟩ := h.rows r hr hlive
    exact ⟨t, email, s, loggedIn_concat.2 (.inl ⟨ht, hout t⟩), hopened _ _ _ _ hopen⟩

theorem hasUser_setLockout {db : Database T} {id : Nat} {email : T} (h : db.HasUser id email)
    (uid attempts : Nat) (lockedUntil : Option Time) :
    (db.setLockout uid attempts lockedUntil).HasUser id email := by
  rw [hasUser_iff, setLockout_map _ _ _ fun _ => rfl]
  exact hasUser_iff.1 h

/-- A login adds the row it belongs to. -/
theorem SessionsRecorded.openSession {settings : Settings} {email : T} {user : User T}
    (h : SessionsRecorded settings tr w) (ha : (w.db.openSession P settings e user.id).Accounts)
    (huser : user ∈ w.db.users) (hemail : user.email = email)
    (hdb : w'.db = w.db.openSession P settings e user.id)
    (hin : ∀ t email' s, LogsIn x t email' s ↔ t = e.token ∧ email' = email ∧ s = e.now)
    (hout : ∀ t, ¬ LogsOut x t) : SessionsRecorded settings (tr ++ [x]) w' := by
  have hu : ∀ id email, w.db.HasUser id email → w'.db.HasUser id email := by
    intro id email hid
    rw [hdb]
    exact hasUser_setLockout hid _ _ _
  have hopened : ∀ (r : Session T) t email s, r.OpenedBy P settings w.db t email s →
      r.OpenedBy P settings w'.db t email s := fun r t email s hr => hr.frame rfl rfl rfl hu
  have hsessions : w'.db.sessions = w.db.sessions ++
      [newSession P settings e (e.rowid (w.db.sessions.map (·.id))) user.id] := by
    rw [hdb]
    rfl
  have hnew : (newSession P settings e (e.rowid (w.db.sessions.map (·.id))) user.id).OpenedBy P
      settings w'.db e.token email e.now := ⟨rfl, rfl, hu _ _ ⟨user, huser, rfl, hemail⟩⟩
  refine ⟨by rw [hdb]; exact ha, fun y hy t email' s hy' => ?_, fun t email' s ht => ?_,
    fun r hr hlive => ?_⟩
  · rw [hsessions]
    rcases List.mem_append.1 hy with hy | hy
    · obtain ⟨r, hr, hopen⟩ := h.issued y hy t email' s hy'
      exact ⟨r, List.mem_append_left _ hr, hopened _ _ _ _ hopen⟩
    · rw [List.mem_singleton.1 hy] at hy'
      obtain ⟨rfl, rfl, rfl⟩ := (hin _ _ _).1 hy'
      exact ⟨_, List.mem_append_right _ List.mem_cons_self, hnew⟩
  · rw [hsessions]
    rcases loggedIn_concat.1 ht with ⟨ht, -⟩ | ht
    · obtain ⟨r, hr, hopen, hlive⟩ := h.live t email' s ht
      exact ⟨r, List.mem_append_left _ hr, hopened _ _ _ _ hopen, hlive⟩
    · obtain ⟨rfl, rfl, rfl⟩ := (hin _ _ _).1 ht
      exact ⟨_, List.mem_append_right _ List.mem_cons_self, hnew, rfl⟩
  · rw [hsessions] at hr
    rcases List.mem_append.1 hr with hr | hr
    · obtain ⟨t, email', s, ht, hopen⟩ := h.rows r hr hlive
      exact ⟨t, email', s, loggedIn_concat.2 (.inl ⟨ht, hout t⟩), hopened _ _ _ _ hopen⟩
    · rw [List.mem_singleton.1 hr]
      exact ⟨e.token, email, e.now, loggedIn_concat.2 (.inr ((hin _ _ _).2 ⟨rfl, rfl, rfl⟩)), hnew⟩

/-- A logout revokes the row of the token it presents, and no other. -/
theorem SessionsRecorded.revokeSession (hinj : Function.Injective (tokenDigest P))
    (h : SessionsRecorded settings tr w) {session : Session T} {token : T}
    (hsession : session ∈ w.db.sessions) (htoken : session.tokenHash = tokenDigest P token)
    (hdb : w'.db = w.db.revokeSession session.id e.now)
    (hin : ∀ t email s, ¬ LogsIn x t email s) (hout : ∀ t, LogsOut x t ↔ t = token) :
    SessionsRecorded settings (tr ++ [x]) w' := by
  have hu : ∀ id email, w.db.HasUser id email → w'.db.HasUser id email := by
    intro id email hid
    rw [hdb]
    exact hid
  have hsessions : w'.db.sessions = w.db.sessions.map
      (Table.updated (·.id) session.id fun s => { s with revokedAt := some e.now }) := by
    rw [hdb]
    rfl
  have hopened : ∀ (r : Session T) t email s, r.OpenedBy P settings w.db t email s →
      (Table.updated (·.id) session.id (fun s : Session T => { s with revokedAt := some e.now })
        r).OpenedBy P settings w'.db t email s := by
    intro r t email s hr
    unfold Table.updated
    split
    · exact hr.frame rfl rfl rfl hu
    · exact hr.frame rfl rfl rfl hu
  -- two tokens have two rows
  have hother : ∀ r ∈ w.db.sessions, ∀ t email s, r.OpenedBy P settings w.db t email s →
      (r.id = session.id ↔ t = token) := by
    intro r hr t email s hopen
    constructor
    · intro hid
      have hrs := Table.eq_of_key h.accounts.sessionIds hr hsession hid
      subst hrs
      exact hinj (hopen.token.symm.trans htoken)
    · rintro rfl
      rw [Table.eq_of_key h.accounts.tokens hr hsession (hopen.token.trans htoken.symm)]
  refine ⟨by rw [hdb]; exact h.accounts.revokeSession _ _, fun y hy t email s hy' => ?_,
    fun t email s ht => ?_, fun r hr hlive => ?_⟩
  · rw [hsessions]
    rcases List.mem_append.1 hy with hy | hy
    · obtain ⟨r, hr, hopen⟩ := h.issued y hy t email s hy'
      exact ⟨_, List.mem_map_of_mem hr, hopened _ _ _ _ hopen⟩
    · rw [List.mem_singleton.1 hy] at hy'
      exact absurd hy' (hin t email s)
  · rw [hsessions]
    rcases loggedIn_concat.1 ht with ⟨ht, hnot⟩ | ht
    · obtain ⟨r, hr, hopen, hlive⟩ := h.live t email s ht
      refine ⟨_, List.mem_map_of_mem hr, hopened _ _ _ _ hopen, ?_⟩
      rw [Table.updated, if_neg fun hid => hnot ((hout t).2 ((hother r hr _ _ _ hopen).1 hid))]
      exact hlive
    · exact absurd ht (hin t email s)
  · rw [hsessions] at hr
    obtain ⟨r₀, hr₀, rfl⟩ := List.mem_map.1 hr
    by_cases hid : r₀.id = session.id
    · rw [Table.updated, if_pos hid] at hlive
      cases hlive
    · have hlive₀ : r₀.revokedAt = none := by
        rwa [Table.updated, if_neg hid] at hlive
      obtain ⟨t, email, s, ht, hopen⟩ := h.rows r₀ hr₀ hlive₀
      refine ⟨t, email, s, loggedIn_concat.2 (.inl ⟨ht, fun h' => hid ?_⟩), hopened _ _ _ _ hopen⟩
      exact (hother r₀ hr₀ _ _ _ hopen).2 ((hout t).1 h')

variable [DecidableEq T]

omit [DecidableEq T] in
theorem not_logs_of_error {r : Request T J} {y : Exc} (hx : x = ((e, r), .ofExc y)) :
    (∀ t email s, ¬ LogsIn x t email s) ∧ ∀ t, ¬ LogsOut x t := by
  have hok : x.2.isOk = false := by
    rw [hx]
    cases y <;> rfl
  refine ⟨fun t email s h => ?_, fun t h => ?_⟩
  · rw [h.request.1] at hok
    cases hok
  · rw [h.request.1] at hok
    cases hok

/-- Every request keeps the session table and the history together. -/
theorem SessionsRecorded.served (hinj : Function.Injective (tokenDigest P))
    (h : SessionsRecorded settings tr w) {r : Request T J} {resp : Response T J}
    (hs : Served settings e w r resp w') :
    SessionsRecorded settings (tr ++ [((e, r), resp)]) w' := by
  have ha := h.accounts.served hs
  have hlogin : (∀ email password, r ≠ .login email password) →
      ∀ t email s, ¬ LogsIn ((e, r), resp) t email s := by
    intro hne t email s hlog
    obtain ⟨-, email', password, hr⟩ := hlog.request
    exact hne email' password hr
  have hlogout : (∀ t, r ≠ .user t .logout) → ∀ t, ¬ LogsOut ((e, r), resp) t := by
    intro hne t hlog
    exact hne (some t) hlog.request.2
  have herror : ∀ y, resp = .ofExc y →
      (∀ t email s, ¬ LogsIn ((e, r), resp) t email s) ∧ ∀ t, ¬ LogsOut ((e, r), resp) t := by
    rintro y rfl
    exact not_logs_of_error rfl
  cases hs with
  | raised r y =>
    obtain ⟨hin, hout⟩ := herror y rfl
    exact h.frame ha rfl (fun _ _ => id) hin hout
  | unknownUser =>
    obtain ⟨hin, hout⟩ := herror _ rfl
    exact h.frame ha rfl (fun _ _ => id) hin hout
  | lockedOut =>
    obtain ⟨hin, hout⟩ := herror _ rfl
    exact h.frame ha rfl (fun _ _ => id) hin hout
  | tokenClash =>
    obtain ⟨hin, hout⟩ := herror _ rfl
    exact h.frame ha rfl (fun _ _ => id) hin hout
  | vault hc hs =>
    refine h.frame ha hs.accounts.2 (fun id email hid => ?_) (hlogin ?_) (hlogout ?_)
    · rw [hasUser_iff, hs.accounts.1]
      exact hasUser_iff.1 hid
    · rintro _ _ rfl
      cases hc
    · rintro _ rfl
      cases hc
  | service hp hc hs =>
    obtain ⟨husers, hsessions⟩ := service_accounts hs _ _
    refine h.frame ha hsessions (fun id email hid => ?_) (hlogin ?_) (hlogout ?_)
    · rw [hasUser_iff, husers]
      exact hasUser_iff.1 hid
    · rintro _ _ ⟨⟩
    · rintro _ ⟨⟩
      cases hc
  | me =>
    exact h.frame ha rfl (fun _ _ => id) (hlogin (by rintro _ _ ⟨⟩)) (hlogout (by rintro _ ⟨⟩))
  | auditVerify =>
    exact h.frame ha rfl (fun _ _ => id) (hlogin (by rintro _ _ ⟨⟩)) (hlogout (by rintro _ ⟨⟩))
  | registered =>
    refine h.frame ha rfl ?_ (hlogin (by rintro _ _ ⟨⟩)) (hlogout (by rintro _ ⟨⟩))
    rintro id email ⟨u, hu, hid, hemail⟩
    exact ⟨u, List.mem_append_left _ hu, hid, hemail⟩
  | wrongPassword =>
    obtain ⟨hin, hout⟩ := herror _ rfl
    exact h.frame ha rfl (fun id email hid => hasUser_setLockout hid _ _ _) hin hout
  | @loggedIn email password user hf hl hp hc =>
    obtain ⟨huser, hemail⟩ := findUser_eq_some hf
    refine h.openSession ha huser hemail rfl (fun t email' s => ?_) (hlogout (by rintro _ ⟨⟩))
    constructor
    · rintro ⟨⟩
      exact ⟨rfl, rfl, rfl⟩
    · rintro ⟨rfl, rfl, rfl⟩
      exact .mk e email password _ _
  | @loggedOut credentials p hp =>
    obtain ⟨token, rfl, -, hfound, -⟩ := principal_eq_ok.1 hp
    obtain ⟨hmem, htoken⟩ := findSession_eq_some hfound
    refine h.revokeSession hinj hmem htoken rfl (hlogin (by rintro _ _ ⟨⟩)) fun t => ?_
    constructor
    · rintro ⟨⟩
      rfl
    · rintro rfl
      exact .mk e _ _

end Steps

/-! ## Acceptance -/

variable [DecidableEq T]

/-- `current_principal` accepts the token as the user. -/
def World.Accepts (w : World T B) (e : Env P) (t email : T) : Prop :=
  ∃ p, (currentPrincipal (some t) e w.session).1 = .ok p ∧ p.user.email = email

theorem accepts_eq {w : World T B} {e : Env P} {t email : T} :
    w.Accepts e t email ↔
      (w.db.principal P e.now (some t)).map (·.user.email) = .ok email := by
  unfold World.Accepts
  rw [currentPrincipal_apply]
  show (∃ p, w.db.principal P e.now (some t) = .ok p ∧ p.user.email = email) ↔ _
  rcases w.db.principal P e.now (some t) with x | p
  · constructor
    · rintro ⟨_, ⟨⟩, _⟩
    · rintro ⟨⟩
  · constructor
    · rintro ⟨_, ⟨⟩, rfl⟩
      rfl
    · intro h
      exact ⟨p, rfl, Except.ok.inj h⟩

/-- A token is accepted while the login that returned it is neither expired nor logged out. -/
theorem SessionsRecorded.accepts_iff (hinj : Function.Injective (tokenDigest P))
    {settings : Settings} {tr : Exchanges P} {w : World T B}
    (h : SessionsRecorded settings tr w) (e : Env P) {t : T} (ht : P.truthy t = true) (email : T) :
    w.Accepts e t email ↔
      ∃ s, LoggedIn tr t email s ∧ e.now < s + settings.sessionTtl := by
  unfold World.Accepts
  rw [currentPrincipal_apply]
  show (∃ p, w.db.principal P e.now (some t) = .ok p ∧ p.user.email = email) ↔ _
  constructor
  · rintro ⟨p, hp, rfl⟩
    obtain ⟨token, htoken, -, hfound, hlive, hexp, huser⟩ := principal_eq_ok.1 hp
    cases htoken
    obtain ⟨hmem, hhash⟩ := findSession_eq_some hfound
    obtain ⟨t', email', s, hin, hopen⟩ := h.rows _ hmem hlive
    have htt : t = t' := hinj (hhash.symm.trans hopen.token)
    subst htt
    obtain ⟨u, hu, hid, rfl⟩ := hopen.user
    have hfind := Table.find?_key h.accounts.ids hu
    rw [hid, huser] at hfind
    cases hfind
    exact ⟨s, hin, hopen.expiry ▸ hexp⟩
  · rintro ⟨s, hin, hexp⟩
    obtain ⟨r, hr, hopen, hlive⟩ := h.live t email s hin
    obtain ⟨u, hu, hid, hemail⟩ := hopen.user
    have hfind := Table.find?_key h.accounts.ids hu
    rw [hid] at hfind
    refine ⟨⟨u, r⟩, principal_eq_ok.2 ⟨t, rfl, ht, ?_, hlive, ?_, hfind⟩, hemail⟩
    · rw [← hopen.token]
      exact findSession_of_mem h.accounts hr
    · rw [hopen.expiry]
      exact hexp

/-- Along every run. -/
theorem sessionsRecorded_run (hinj : Function.Injective (tokenDigest P)) (settings : Settings)
    (is : List (Env P × Request T J)) :
    SessionsRecorded settings (World.initial.exchanges settings is)
      (World.initial.served settings is) :=
  serve_induction settings World.initial (I := SessionsRecorded settings)
    (sessionsRecorded_initial settings)
    (fun _ _ _ _ _ _ h hs => h.served hinj hs) is

/-- What a login returns is the token it drew. -/
theorem Served.issues {settings : Settings} {e : Env P} {w w' : World T B} {r : Request T J}
    {resp : Response T J} (hs : Served settings e w r resp w') {t email : T} {s : Time}
    (h : LogsIn ((e, r), resp) t email s) : t = e.token := by
  obtain ⟨hok, email', password, hr⟩ := h.request
  dsimp only at hok hr
  subst hr
  cases hs with
  | raised _ y hr => cases hr
  | unknownUser => exact absurd h ((not_logs_of_error rfl).1 _ _ _)
  | lockedOut => exact absurd h ((not_logs_of_error rfl).1 _ _ _)
  | tokenClash => exact absurd h ((not_logs_of_error rfl).1 _ _ _)
  | vault hc => cases hc
  | wrongPassword => exact absurd h ((not_logs_of_error rfl).1 _ _ _)
  | loggedIn =>
    cases h
    rfl

theorem issued_run (settings : Settings) (is : List (Env P × Request T J)) :
    ∀ x ∈ World.initial.exchanges settings is, ∀ t email s, LogsIn x t email s →
      t = x.1.1.token := by
  refine serve_induction settings World.initial
    (I := fun tr _ => ∀ x ∈ tr, ∀ t email s, LogsIn x t email s → t = x.1.1.token)
    (by rintro _ ⟨⟩) ?_ is
  intro tr w w' e r resp ih hs x hx t email s hlog
  rcases List.mem_append.1 hx with hx | hx
  · exact ih x hx t email s hlog
  · rw [List.mem_singleton] at hx
    subst hx
    exact hs.issues hlog

/-! ## Token digests -/

theorem hexDigit_inj : ∀ m < 16, ∀ n < 16, Json.hexDigit m = Json.hexDigit n → m = n := by
  decide

theorem hexDigits_inj {x y : UInt8} (h : hexDigits x = hexDigits y) : x = y := by
  have hlt : ∀ z : UInt8, z.toNat / 16 < 16 ∧ z.toNat % 16 < 16 := fun z => by
    have := z.toNat_lt
    omega
  unfold hexDigits at h
  obtain ⟨h₁, h⟩ := List.cons.inj h
  obtain ⟨h₂, -⟩ := List.cons.inj h
  have hhigh := hexDigit_inj _ (hlt x).1 _ (hlt y).1 h₁
  have hlow := hexDigit_inj _ (hlt x).2 _ (hlt y).2 h₂
  exact UInt8.toNat_inj.1 (by omega)

theorem hex_injective : Function.Injective fun b : Bytes => b.flatMap hexDigits := by
  intro a
  induction a with
  | nil =>
    intro b h
    cases b with
    | nil => rfl
    | cons y b => cases h
  | cons x a ih =>
    intro b h
    cases b with
    | nil => cases h
    | cons y b =>
      have h' : hexDigits x ++ a.flatMap hexDigits = hexDigits y ++ b.flatMap hexDigits := h
      obtain ⟨hx, hrest⟩ := List.append_inj h' rfl
      rw [hexDigits_inj hx, ih hrest]

theorem tokenDigest_injective {F : Type} {L : Lib F} (hsha : Function.Injective L.sha256) :
    Function.Injective (tokenDigest (concrete L)) := fun _ _ h =>
  Utf8.encode_injective (hsha (hex_injective h))

/-! ## Session safety -/

/-- **Session safety and completeness.** After any run, a token is accepted as a user exactly if
    a login for that user returned it, has not expired, and no logout with the token has happened
    since. A token is never accepted as a user it was not issued to, and a logout with another
    token does not end its session. -/
theorem session_safety {F : Type} (L : Lib F) (hsha : Function.Injective L.sha256)
    (settings : Settings) (is : List (Env (concrete L) × Request Text (Json.Value F)))
    (htoken : ∀ i ∈ is, i.1.token ≠ []) :
    (∀ (e : Env (concrete L)) t email,
      (World.initial.served settings is).Accepts e t email ↔
        ∃ s, LoggedIn (World.initial.exchanges settings is) t email s ∧
          e.now < s + settings.sessionTtl) ∧
      (∀ x ∈ World.initial.exchanges settings is, ∀ t email s, LogsIn x t email s →
        ∀ (e : Env (concrete L)) email',
          (World.initial.served settings is).Accepts e t email' → email' = email) ∧
      ∀ (e e' : Env (concrete L)) t t' email, t' ≠ t →
        (World.initial.served settings is).Accepts e t email →
          ((World.initial.served settings is).request settings e'
            (.user (some t') .logout : Request Text (Json.Value F))).2.Accepts e t email := by
  have hinj := tokenDigest_injective hsha
  have hrec := sessionsRecorded_run hinj settings is
  have htruthy : ∀ x ∈ World.initial.exchanges settings is, ∀ t email s, LogsIn x t email s →
      (concrete L).truthy t = true := by
    intro x hx t email s hlog
    have ht := issued_run settings is x hx t email s hlog
    have hne := htoken x.1 (Run.mem_of_mem_trace hx)
    rw [← ht] at hne
    show (!t.isEmpty) = true
    simpa using hne
  have haccepts : ∀ {w : World Text Bytes} {e : Env (concrete L)} {t email : Text},
      w.Accepts e t email → (concrete L).truthy t = true := by
    rintro w e t email ⟨p, hp, -⟩
    rw [currentPrincipal_apply] at hp
    obtain ⟨token, htok, htr, -⟩ := principal_eq_ok.1 hp
    cases htok
    exact htr
  refine ⟨fun e t email => ?_, fun x hx t email s hlog e email' hacc => ?_,
    fun e e' t t' email hne hacc => ?_⟩
  · constructor
    · intro hacc
      exact (hrec.accepts_iff hinj e (haccepts hacc) email).1 hacc
    · rintro ⟨s, hin, hexp⟩
      have hin' := hin
      obtain ⟨before, x, after, htr, hlog, -⟩ := hin'
      have hx : x ∈ World.initial.exchanges settings is := by
        rw [htr]
        exact List.mem_append_right _ List.mem_cons_self
      exact (hrec.accepts_iff hinj e (htruthy x hx t email s hlog) email).2 ⟨s, hin, hexp⟩
  · obtain ⟨s', hin, -⟩ := (hrec.accepts_iff hinj e (haccepts hacc) email').1 hacc
    obtain ⟨r, hr, hopen, -⟩ := hrec.live t email' s' hin
    obtain ⟨r', hr', hopen'⟩ := hrec.issued x hx t email s hlog
    -- one token hash, one row, one user
    have hrr := Table.eq_of_key hrec.accounts.tokens hr hr' (hopen.token.trans hopen'.token.symm)
    subst hrr
    obtain ⟨u, hu, hid, rfl⟩ := hopen.user
    obtain ⟨u', hu', hid', rfl⟩ := hopen'.user
    rw [Table.eq_of_key hrec.accounts.ids hu hu' (hid.trans hid'.symm)]
  · have hrec' := hrec.served hinj (served_of_request settings e'
      (World.initial.served settings is) (.user (some t') .logout))
    obtain ⟨s, hin, hexp⟩ := (hrec.accepts_iff hinj e (haccepts hacc) email).1 hacc
    refine (hrec'.accepts_iff hinj e (haccepts hacc) email).2 ⟨s, ?_, hexp⟩
    refine loggedIn_concat.2 (.inl ⟨hin, fun hout => hne ?_⟩)
    have hreq := hout.request.2
    cases hreq
    rfl

namespace Sample

/-- A second session of the same user is opened, and the first is logged out. -/
def twoSessions : List SampleRequest :=
  signedIn ++ [(env 5, .login alice passphrase), (env 6, .user (some token) .logout)]

end Sample

open Sample in
theorem session_safety_sample :
    (World.initial.served {} twoSessions).Accepts (env 7) (env 5).token alice ∧
      (∃ s, LoggedIn (World.initial.exchanges {} twoSessions) (env 5).token alice s ∧
        (env 7).now < s + ({} : Settings).sessionTtl) ∧
      ¬ ∃ s, LoggedIn (World.initial.exchanges {} twoSessions) token alice s ∧
        (env 7).now < s + ({} : Settings).sessionTtl := by
  obtain ⟨hiff, -⟩ := session_safety lib (fun _ _ h => h) {} twoSessions (by decide)
  have haccepts : (World.initial.served {} twoSessions).Accepts (env 7) (env 5).token alice :=
    accepts_eq.2 (by decide +kernel)
  refine ⟨haccepts, (hiff _ _ _).1 haccepts, fun h => ?_⟩
  exact absurd (accepts_eq.1 ((hiff _ _ _).2 h)) (by decide +kernel)

end MiniVault
