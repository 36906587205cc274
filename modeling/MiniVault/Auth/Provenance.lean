/-
  Where access comes from. A user row is there because somebody registered it, with the hash of
  the password it was registered with; a session because that password was given in a login. So
  behind every request that is served for a user stand a registration and, after it, a login with
  the registered password that issued the token the request carries.
-/
import MiniVault.Auth.Lockout
import MiniVault.Auth.Sessions

namespace MiniVault

open Kit

variable {T B J : Type} {P : Prims T B J}

/-! ## Users and their registrations -/

/-- Every user row has the address and the password hash of a registration of the history. -/
def UsersRecorded (tr : Exchanges P) (w : World T B) : Prop :=
  ∀ u ∈ w.db.users, ∃ x ∈ tr, ∃ password, Registers x u.email password ∧
    u.passwordHash = P.hashPassword x.1.1.passwordSalt password

section Users

variable {tr : Exchanges P} {w w' : World T B} {x : (Env P × Request T J) × Response T J}

theorem UsersRecorded.frame (h : UsersRecorded tr w)
    (hu : ∀ u ∈ w'.db.users, ∃ u' ∈ w.db.users, u'.email = u.email ∧
      u'.passwordHash = u.passwordHash) : UsersRecorded (tr ++ [x]) w' := by
  intro u hmem
  obtain ⟨u', hmem', hemail, hhash⟩ := hu u hmem
  obtain ⟨y, hy, password, hreg, hsalt⟩ := h u' hmem'
  rw [hemail] at hreg
  exact ⟨y, List.mem_append_left _ hy, password, hreg, hhash.symm.trans hsalt⟩

/-- An update of the lockout columns. -/
theorem kept_setLockout {db : Database T} (id attempts : Nat) (lockedUntil : Option Time) :
    ∀ u ∈ (db.setLockout id attempts lockedUntil).users, ∃ u' ∈ db.users,
      u'.email = u.email ∧ u'.passwordHash = u.passwordHash := by
  intro u hu
  rw [setLockout_users] at hu
  obtain ⟨u', hu', rfl⟩ := List.mem_map.1 hu
  unfold Table.updated
  split
  · exact ⟨u', hu', rfl, rfl⟩
  · exact ⟨u', hu', rfl, rfl⟩

variable [DecidableEq T] {settings : Settings} {e : Env P} {r : Request T J} {resp : Response T J}

theorem UsersRecorded.served (h : UsersRecorded tr w) (hs : Served settings e w r resp w') :
    UsersRecorded (tr ++ [((e, r), resp)]) w' := by
  have hsame : w'.db.users = w.db.users → UsersRecorded (tr ++ [((e, r), resp)]) w' :=
    fun hu => h.frame fun u hmem => ⟨u, hu ▸ hmem, rfl, rfl⟩
  cases hs with
  | vault hc hs => exact hsame hs.accounts.1
  | service hp hc hs => exact hsame (service_accounts hs _ _).1
  | @registered email password hf =>
    intro u hmem
    rcases List.mem_append.1 hmem with hmem | hmem
    · obtain ⟨y, hy, hreg⟩ := h u hmem
      exact ⟨y, List.mem_append_left _ hy, hreg⟩
    · rw [List.mem_singleton.1 hmem]
      exact ⟨_, List.mem_append_right _ List.mem_cons_self, password, .mk e email password 201, rfl⟩
  | wrongPassword => exact h.frame (kept_setLockout _ _ _)
  | loggedIn => exact h.frame (kept_setLockout _ _ _)
  | _ => exact hsame rfl

theorem usersRecorded_run (settings : Settings) (is : List (Env P × Request T J)) :
    UsersRecorded (World.initial.exchanges settings is) (World.initial.served settings is) :=
  serve_induction settings World.initial (I := UsersRecorded) (by rintro _ ⟨⟩)
    (fun _ _ _ _ _ _ h hs => h.served hs) is

end Users

/-! ## Logins and their passwords -/

section Logins

variable [DecidableEq T] {settings : Settings} {e : Env P} {w w' : World T B}
  {email password : T} {l : Login T} {n : Nat}

/-- A login that succeeds was given a password that the row of the account verifies. -/
theorem Served.verified (hs : Served settings e w (.login email password)
    (.ok (.login l) n : Response T J) w') :
    ∃ u ∈ w.db.users, u.email = P.normalizeEmail email ∧
      P.verifyPassword u.passwordHash password = true := by
  generalize hresp : (Response.ok (.login l) n : Response T J) = resp at hs
  cases hs with
  | raised r x hr => cases hr
  | vault hc => cases hc
  | unknownUser => cases hresp
  | lockedOut => cases hresp
  | tokenClash => cases hresp
  | wrongPassword => cases hresp
  | loggedIn hf hl hp =>
    obtain ⟨hu, hemail⟩ := findUser_eq_some hf
    exact ⟨_, hu, hemail, hp⟩

/-- The history behind a token: the account was registered with a password, that password got
    the token in a login less than the lifetime of a session ago, and no logout with the token
    has come since. -/
def Backed (settings : Settings) (tr : Exchanges P) (t account : T) (now : Time) : Prop :=
  ∃ before x between e email password l n after,
    tr = before ++ x :: between ++ ((e, .login email password), .ok (.login l) n) :: after ∧
      Registers x account password ∧ P.normalizeEmail email = account ∧ l.accessToken = t ∧
      now < e.now + settings.sessionTtl ∧ ∀ y ∈ after, ¬ LogsOut y t

/-- A token that a login issued is backed, if only the registered password verifies. -/
theorem backed_of_loggedIn (hverify : ∀ salt password candidate,
      P.verifyPassword (P.hashPassword salt password) candidate = true → candidate = password)
    {is : List (Env P × Request T J)} {t account : T} {s now : Time}
    (h : LoggedIn ((World.initial : World T B).exchanges settings is) t account s)
    (hexp : now < s + settings.sessionTtl) :
    Backed settings ((World.initial : World T B).exchanges settings is) t account now := by
  obtain ⟨before, x, after, htr, hin, hout⟩ := h
  obtain ⟨is₁, is₂, rfl, rfl, hresp⟩ := Run.trace_split htr
  cases hin with
  | mk e email password l n =>
    have hs := served_of_request settings e (World.initial.served settings is₁ : World T B)
      (.login email password)
    rw [show ((World.initial.served settings is₁).request settings e
      (.login email password)).1 = .ok (.login l) n from hresp] at hs
    obtain ⟨u, hu, hemail, hp⟩ := hs.verified
    obtain ⟨y, hy, registered, hreg, hhash⟩ := usersRecorded_run settings is₁ u hu
    rw [hhash] at hp
    cases hverify _ _ _ hp
    obtain ⟨before, between, hsplit⟩ := List.append_of_mem hy
    rw [hemail] at hreg
    refine ⟨before, y, between, e, email, password, l, n, after, ?_, hreg, rfl, rfl, hexp, hout⟩
    rw [htr]
    exact congrArg (· ++ _) hsplit

end Logins

/-! ## Requests and their users -/

/-- Credentials that are not accepted are answered with 401. -/
theorem principal_eq_error [DecidableEq T] {db : Database T} {now : Time} {credentials : Option T}
    {x : Exc} (h : db.principal P now credentials = .error x) :
    ∃ err : AppError, x = .app err ∧ err.statusCode = 401 := by
  unfold Database.principal at h
  split at h
  · exact ⟨_, (Except.error.inj h).symm, rfl⟩
  split at h
  · exact ⟨_, (Except.error.inj h).symm, rfl⟩
  split_ifs at h
  · exact ⟨_, (Except.error.inj h).symm, rfl⟩
  · exact ⟨_, (Except.error.inj h).symm, rfl⟩
  split at h
  · exact ⟨_, (Except.error.inj h).symm, rfl⟩
  · cases h

/-- **Access is backed by the registered password.** After any run of requests, a request with any
    credentials either is refused with 401 and changes nothing, or is served for a user whose
    account somebody registered earlier with a password that somebody later gave in the login
    which issued the token it carries; that login was less than the lifetime of a session ago, and
    the token has not been used to log out since. -/
theorem access_backed {F : Type} (L : Lib F) (hsha : Function.Injective L.sha256)
    (hverify : ∀ salt password candidate,
      L.verifyPassword (L.hashPassword salt password) candidate = true → candidate = password)
    (settings : Settings) (is : List (Env (concrete L) × Request Text (Json.Value F)))
    (e : Env (concrete L)) (credentials : Option Text)
    (r : UserRequest Text (Json.Value F)) :
    (∃ t p, credentials = some t ∧
      (World.initial.served settings is).db.principal (concrete L) e.now credentials = .ok p ∧
      Backed settings (World.initial.exchanges settings is) t p.user.email e.now) ∨
    ∃ err : AppError, err.statusCode = 401 ∧
      (World.initial.served settings is).serve settings (e, .user credentials r) =
        (.error err, World.initial.served settings is) := by
  have hinj := tokenDigest_injective hsha
  rcases hp : (World.initial.served settings is).db.principal (concrete L) e.now credentials
    with x | p
  · right
    obtain ⟨err, rfl, hstatus⟩ := principal_eq_error hp
    exact ⟨err, hstatus, request_unauthenticated hp r⟩
  · left
    obtain ⟨t, rfl, htruthy, -⟩ := principal_eq_ok.1 hp
    refine ⟨t, p, rfl, rfl, ?_⟩
    have haccepts : (World.initial.served settings is).Accepts e t p.user.email := by
      rw [accepts_eq, hp]
      rfl
    obtain ⟨s, hin, hexp⟩ :=
      ((sessionsRecorded_run hinj settings is).accepts_iff hinj e htruthy p.user.email).1 haccepts
    exact backed_of_loggedIn hverify hin hexp

open Sample in
theorem access_backed_sample :
    ∃ t p, some (env 5).token = some t ∧
      (World.initial.served {} twoSessions).db.principal (concrete lib) (env 7).now
        (some (env 5).token) = .ok p ∧
      Backed {} (World.initial.exchanges {} twoSessions) t p.user.email (env 7).now := by
  have hverify : ∀ salt password candidate,
      lib.verifyPassword (lib.hashPassword salt password) candidate = true →
        candidate = password := by
    intro salt password candidate h
    exact (beq_iff_eq.1 h).symm
  have haccepted : ((World.initial.served {} twoSessions).serve {}
      (env 7, .user (some (env 5).token) .me)).1.isOk = true := by
    decide +kernel
  rcases access_backed lib (fun _ _ h => h) hverify {} twoSessions (env 7)
    (some (env 5).token) .me with h | ⟨err, -, h⟩
  · exact h
  · rw [h] at haccepted
    cases haccepted

end MiniVault
