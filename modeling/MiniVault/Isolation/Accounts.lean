/-
  What one user can tell of the user and session tables: their own row and, by token hash, their
  own sessions, without the row ids. What is done for somebody else does not show; what is done
  for the user shows the same, whatever rows of others there are.
-/
import MiniVault.Auth.Accounts
import MiniVault.Isolation.Answers

namespace MiniVault

open Kit

variable {T B J : Type} {P : Prims T B J} [DecidableEq T]

/-! ## One account -/

def User.anon (u : User T) : User T := { u with id := 0 }

def Session.anon (s : Session T) : Session T := { s with id := 0, userId := 0 }

/-- The address of the user whose session it is. -/
def Database.emailOf (db : Database T) (s : Session T) : Option T :=
  (db.users.find? (·.id = s.userId)).map (·.email)

/-- The session of a user under a token hash. -/
def Database.sessionOf (db : Database T) (email hash : T) : Option (Session T) :=
  (db.findSession hash).filter fun s => db.emailOf s = some email

/-- To the user, `db'` looks like `db`; nobody has a token in `db'` that is not in `db`. -/
structure Database.SameAccount (email : T) (db db' : Database T) : Prop where
  user : (db'.findUser email).map User.anon = (db.findUser email).map User.anon
  sessions : ∀ hash,
    (db'.sessionOf email hash).map Session.anon = (db.sessionOf email hash).map Session.anon
  tokens : ∀ hash, db.findSession hash = none → db'.findSession hash = none

theorem Database.SameAccount.refl (email : T) (db : Database T) : db.SameAccount email db :=
  ⟨rfl, fun _ => rfl, fun _ h => h⟩

/-- The account of a user is as it was; others may have more tokens. -/
structure Database.Leaves (email : T) (db db' : Database T) : Prop where
  user : db'.findUser email = db.findUser email
  sessions : ∀ hash, db'.sessionOf email hash = db.sessionOf email hash
  tokens : ∀ hash, db'.findSession hash = none → db.findSession hash = none

section Account

variable {db db' db'' : Database T} {email hash : T} {s : Session T} {u : User T}

theorem Database.Leaves.frame (hu : db'.users = db.users) (hs : db'.sessions = db.sessions) :
    db.Leaves email db' := by
  refine ⟨?_, fun hash => ?_, fun hash => ?_⟩
  · rw [Database.findUser, hu]
    rfl
  · unfold Database.sessionOf Database.findSession Database.emailOf
    rw [hu, hs]
  · unfold Database.findSession
    rw [hs]
    exact id

theorem Database.SameAccount.leaves (h : db.SameAccount email db'') (hl : db.Leaves email db') :
    db'.SameAccount email db'' := by
  refine ⟨?_, fun hash => ?_, fun hash hnone => h.tokens hash (hl.tokens hash hnone)⟩
  · rw [hl.user]
    exact h.user
  · rw [hl.sessions]
    exact h.sessions hash

theorem Database.SameAccount.frame {db₁ db₁' : Database T} (h : db.SameAccount email db')
    (hu : db₁.users = db.users) (hs : db₁.sessions = db.sessions) (hu' : db₁'.users = db'.users)
    (hs' : db₁'.sessions = db'.sessions) : db₁.SameAccount email db₁' := by
  have hl : db.Leaves email db₁ := .frame hu hs
  have hr : db'.Leaves email db₁' := .frame hu' hs'
  refine ⟨?_, fun hash => ?_, fun hash hnone => ?_⟩
  · rw [hl.user, hr.user]
    exact h.user
  · rw [hl.sessions, hr.sessions]
    exact h.sessions hash
  · unfold Database.findSession
    rw [hs']
    exact h.tokens hash (hl.tokens hash hnone)

theorem sessionOf_eq_some : db.sessionOf email hash = some s ↔
    db.findSession hash = some s ∧ db.emailOf s = some email := by
  unfold Database.sessionOf
  rw [Option.filter_eq_some_iff, decide_eq_true_eq]

omit [DecidableEq T] in
theorem emailOf_of_mem (h : db.Accounts) (hu : u ∈ db.users) (hid : u.id = s.userId) :
    db.emailOf s = some u.email := by
  unfold Database.emailOf
  rw [← hid, Table.find?_key h.ids hu]
  rfl

/-- The owner of a session is the user with that address. -/
theorem findUser_of_emailOf (h : db.Accounts) (hs : db.emailOf s = some email) :
    ∃ u, db.users.find? (·.id = s.userId) = some u ∧ db.findUser email = some u := by
  obtain ⟨u, hfind, rfl⟩ := Option.map_eq_some_iff.1 hs
  exact ⟨u, hfind, findUser_of_mem h (List.mem_of_find?_eq_some hfind)⟩

end Account

/-! ## Writes -/

section Writes

variable {db : Database T} {email hash : T} {user : User T} {session : Session T} {now : Time}
  {settings : Settings} {e : Env P}

omit [DecidableEq T] in
theorem emailOf_setLockout (id attempts : Nat) (lockedUntil : Option Time) (s : Session T) :
    (db.setLockout id attempts lockedUntil).emailOf s = db.emailOf s := by
  have hfind : (db.setLockout id attempts lockedUntil).users.find? (·.id = s.userId) =
      (db.users.find? (·.id = s.userId)).map
        (Table.updated (·.id) id (User.withLockout attempts lockedUntil)) :=
    Table.find?_updated fun _ => rfl
  unfold Database.emailOf
  rw [hfind, Option.map_map]
  congr 1
  funext u
  exact Table.updated_eq (f := User.withLockout attempts lockedUntil) (g := fun u => u.email)
    (fun _ => rfl) u

theorem sessionOf_setLockout (id attempts : Nat) (lockedUntil : Option Time) :
    (db.setLockout id attempts lockedUntil).sessionOf email hash = db.sessionOf email hash := by
  unfold Database.sessionOf
  simp only [emailOf_setLockout]
  rfl

/-- A registration takes no session away and gives none. -/
theorem sessionOf_registerUser (h : db.Accounts) (e : Env P) (address password : T) :
    (db.registerUser P e address password).sessionOf email hash = db.sessionOf email hash := by
  unfold Database.sessionOf
  show (db.findSession hash).filter _ = _
  rcases hs : db.findSession hash with _ | s
  · rfl
  obtain ⟨u, hu, hid⟩ := h.owners s (findSession_eq_some hs).1
  have hemail : (db.registerUser P e address password).emailOf s = db.emailOf s := by
    have hfind : db.users.find? (·.id = s.userId) = some u := by
      rw [← hid]
      exact Table.find?_key h.ids hu
    unfold Database.emailOf
    show ((db.users ++ [_]).find? _).map _ = _
    rw [Table.find?_concat hfind, hfind]
  simp only [Option.filter_some, hemail]

theorem findUser_registerUser {account : T} (e : Env P) (address password : T) :
    (db.registerUser P e address password).findUser account =
      (db.findUser account).or
        (if P.normalizeEmail address = account then
          some (newUser P e (e.rowid (db.users.map (·.id))) address password) else none) := by
  unfold Database.findUser
  show (db.users ++ [_]).find? _ = _
  rw [List.find?_append, List.find?_singleton]
  simp only [decide_eq_true_eq]
  rfl

theorem findSession_revokeSession (id : Nat) :
    (db.revokeSession id now).findSession hash =
      (db.findSession hash).map
        (Table.updated (·.id) id fun s => { s with revokedAt := some now }) :=
  Table.find?_updated fun _ => rfl

/-- A logout shows in the session of its token hash. -/
theorem sessionOf_revokeSession (h : db.Accounts) (hmem : session ∈ db.sessions) :
    (db.revokeSession session.id now).sessionOf email hash =
      if session.tokenHash = hash then
        (db.sessionOf email hash).map fun s => { s with revokedAt := some now }
      else db.sessionOf email hash := by
  have hmap : (db.revokeSession session.id now).sessionOf email hash =
      (db.sessionOf email hash).map (Table.updated (·.id) session.id fun s =>
        { s with revokedAt := some now }) := by
    unfold Database.sessionOf
    rw [findSession_revokeSession, Option.filter_map]
    congr 2
    funext s
    unfold Table.updated
    dsimp only [Function.comp_apply]
    split
    · rfl
    · rfl
  rw [hmap]
  rcases hs : db.sessionOf email hash with _ | s
  · split
    · rfl
    · rfl
  obtain ⟨hfind, -⟩ := sessionOf_eq_some.1 hs
  obtain ⟨hsmem, rfl⟩ := findSession_eq_some hfind
  by_cases htoken : session.tokenHash = s.tokenHash
  · rw [if_pos htoken, Option.map_some, Option.map_some, Table.updated, if_pos]
    rw [Table.eq_of_key h.tokens hmem hsmem htoken]
  · rw [if_neg htoken, Option.map_some, Table.updated, if_neg]
    intro hid
    exact htoken (by rw [Table.eq_of_key h.sessionIds hsmem hmem hid])

theorem findSession_revokeSession_eq_none (id : Nat) :
    (db.revokeSession id now).findSession hash = none ↔ db.findSession hash = none := by
  rw [findSession_revokeSession, Option.map_eq_none_iff]

theorem findSession_openSession (id : Nat) :
    (db.openSession P settings e id).findSession hash =
      (db.findSession hash).or
        (if tokenDigest P e.token = hash then
          some (newSession P settings e (e.rowid (db.sessions.map (·.id))) id) else none) := by
  unfold Database.findSession
  show (db.sessions ++ [_]).find? _ = _
  rw [List.find?_append, List.find?_singleton]
  simp only [decide_eq_true_eq]
  rfl

/-- A login shows under the hash of the token it draws. -/
theorem sessionOf_openSession (h : db.Accounts) (huser : user ∈ db.users)
    (hc : db.findSession (tokenDigest P e.token) = none) :
    (db.openSession P settings e user.id).sessionOf email hash =
      if tokenDigest P e.token = hash then
        if user.email = email then
          some (newSession P settings e (e.rowid (db.sessions.map (·.id))) user.id)
        else none
      else db.sessionOf email hash := by
  have hemail : ∀ s, (db.openSession P settings e user.id).emailOf s = db.emailOf s :=
    emailOf_setLockout user.id 0 none
  unfold Database.sessionOf
  rw [findSession_openSession]
  simp only [hemail]
  by_cases htoken : tokenDigest P e.token = hash
  · rw [if_pos htoken, if_pos htoken, ← htoken, hc, Option.none_or, Option.filter_some,
      emailOf_of_mem h huser rfl]
    simp only [Option.some.injEq, decide_eq_true_eq]
  · rw [if_neg htoken, if_neg htoken, Option.or_none]

end Writes

/-! ## Somebody else -/

section Others

variable {db : Database T} {email : T} {user : User T} {session : Session T} (h : db.Accounts)

include h

theorem leaves_setLockout (huser : user ∈ db.users) (hne : user.email ≠ email) (attempts : Nat)
    (lockedUntil : Option Time) :
    db.Leaves email (db.setLockout user.id attempts lockedUntil) where
  user := findUser_setLockout_other h huser hne attempts lockedUntil
  sessions _ := sessionOf_setLockout user.id attempts lockedUntil
  tokens _ := id

theorem leaves_registerUser (e : Env P) {address : T} (hne : P.normalizeEmail address ≠ email)
    (password : T) : db.Leaves email (db.registerUser P e address password) where
  user := by rw [findUser_registerUser, if_neg hne, Option.or_none]
  sessions _ := sessionOf_registerUser h e address password
  tokens _ := id

theorem leaves_openSession (settings : Settings) (e : Env P) (huser : user ∈ db.users)
    (hne : user.email ≠ email) (hc : db.findSession (tokenDigest P e.token) = none) :
    db.Leaves email (db.openSession P settings e user.id) where
  user := findUser_setLockout_other h huser hne 0 none
  sessions hash := by
    rw [sessionOf_openSession h huser hc, if_neg hne]
    split
    · rename_i htoken
      rw [Database.sessionOf, ← htoken, hc]
      rfl
    · rfl
  tokens hash hnone := by
    rw [findSession_openSession, Option.or_eq_none_iff] at hnone
    exact hnone.1

theorem leaves_revokeSession (hmem : session ∈ db.sessions) (hne : db.emailOf session ≠ some email)
    (now : Time) : db.Leaves email (db.revokeSession session.id now) where
  user := rfl
  sessions hash := by
    rw [sessionOf_revokeSession h hmem]
    split
    · rename_i htoken
      have hnone : db.sessionOf email hash = none := by
        rw [Database.sessionOf, ← htoken, findSession_of_mem h hmem, Option.filter_some, if_neg]
        simpa using hne
      rw [hnone]
      rfl
    · rfl
  tokens _ := (findSession_revokeSession_eq_none session.id).1

end Others

/-! ## The user -/

section Own

variable {db db' : Database T} {email : T} {user user' : User T} {session session' : Session T}
  (h : db.SameAccount email db')

include h

theorem Database.SameAccount.findUser :
    Paired User.anon User.anon (db.findUser email) (db'.findUser email) :=
  paired_of_map h.user.symm

/-- A session of the user on one side is one on the other. -/
theorem Database.SameAccount.sessionOf {hash : T} (hl : db.sessionOf email hash = some session) :
    ∃ s', db'.sessionOf email hash = some s' ∧ s'.anon = session.anon := by
  have hsession := h.sessions hash
  rw [hl, Option.map_some, Option.map_eq_some_iff] at hsession
  exact hsession

/-- Credentials of the user, or of nobody, are accepted on both sides or on neither. -/
theorem Database.SameAccount.principal (ha : db.Accounts) (ha' : db'.Accounts) (now : Time)
    {credentials : Option T} (hsubject : ∀ token s, credentials.filter P.truthy = some token →
      db.findSession (tokenDigest P token) = some s → db.emailOf s = some email) :
    (∃ x, db.principal P now credentials = .error x ∧ db'.principal P now credentials = .error x) ∨
      ∃ p p', db.principal P now credentials = .ok p ∧ db'.principal P now credentials = .ok p' ∧
        p.user.email = email ∧ p'.user.email = email ∧ p.session ∈ db.sessions ∧
        p'.session ∈ db'.sessions ∧ p'.session.anon = p.session.anon := by
  unfold Database.principal
  rcases hc : credentials.filter P.truthy with _ | token
  · exact .inl ⟨_, rfl, rfl⟩
  rcases hs : db.findSession (tokenDigest P token) with _ | s
  · left
    simp only [hs, h.tokens _ hs]
    exact ⟨_, rfl, rfl⟩
  have hemail := hsubject token s hc hs
  obtain ⟨s', hs', hanon⟩ := h.sessionOf (sessionOf_eq_some.2 ⟨hs, hemail⟩)
  obtain ⟨hfind', hemail'⟩ := sessionOf_eq_some.1 hs'
  have hrevoked : s'.revokedAt = s.revokedAt := congrArg (·.revokedAt) hanon
  have hexpires : s'.expiresAt = s.expiresAt := congrArg (·.expiresAt) hanon
  obtain ⟨u, hu, hfu⟩ := findUser_of_emailOf ha hemail
  obtain ⟨u', hu', hfu'⟩ := findUser_of_emailOf ha' hemail'
  simp only [hs, hfind', hrevoked, hexpires]
  by_cases hr : s.revokedAt.isSome = true
  · rw [if_pos hr, if_pos hr]
    exact .inl ⟨_, rfl, rfl⟩
  by_cases hx : s.expiresAt ≤ now
  · rw [if_neg hr, if_neg hr, if_pos hx, if_pos hx]
    exact .inl ⟨_, rfl, rfl⟩
  · rw [if_neg hr, if_neg hr, if_neg hx, if_neg hx, hu, hu']
    exact .inr ⟨_, _, rfl, rfl, (findUser_eq_some hfu).2, (findUser_eq_some hfu').2,
      (findSession_eq_some hs).1, (findSession_eq_some hfind').1, hanon⟩

theorem Database.SameAccount.setLockout (hl : db.findUser email = some user)
    (hr : db'.findUser email = some user') (attempts : Nat) (lockedUntil : Option Time) :
    (db.setLockout user.id attempts lockedUntil).SameAccount email
      (db'.setLockout user'.id attempts lockedUntil) := by
  have huser := h.user
  rw [hl, hr, Option.map_some, Option.map_some] at huser
  refine ⟨?_, fun hash => ?_, h.tokens⟩
  · rw [findUser_setLockout_self hl, findUser_setLockout_self hr]
    exact congrArg (fun u => some (u.withLockout attempts lockedUntil)) (Option.some.inj huser)
  · rw [sessionOf_setLockout, sessionOf_setLockout]
    exact h.sessions hash

theorem Database.SameAccount.registerUser (ha : db.Accounts) (ha' : db'.Accounts) (e : Env P)
    (address password : T) :
    (db.registerUser P e address password).SameAccount email
      (db'.registerUser P e address password) := by
  refine ⟨?_, fun hash => ?_, h.tokens⟩
  · rw [findUser_registerUser, findUser_registerUser, Option.map_or, Option.map_or, h.user]
    congr 1
    split
    · rfl
    · rfl
  · rw [sessionOf_registerUser ha, sessionOf_registerUser ha']
    exact h.sessions hash

theorem Database.SameAccount.openSession (ha : db.Accounts) (ha' : db'.Accounts)
    (settings : Settings) (e : Env P) (hl : db.findUser email = some user)
    (hr : db'.findUser email = some user')
    (hc : db.findSession (tokenDigest P e.token) = none) :
    (db.openSession P settings e user.id).SameAccount email
      (db'.openSession P settings e user'.id) := by
  obtain ⟨huser, hemail⟩ := findUser_eq_some hl
  obtain ⟨huser', hemail'⟩ := findUser_eq_some hr
  refine ⟨(h.setLockout hl hr 0 none).user, fun hash => ?_, fun hash hnone => ?_⟩
  · rw [sessionOf_openSession ha huser hc, sessionOf_openSession ha' huser' (h.tokens _ hc),
      if_pos hemail, if_pos hemail']
    split
    · rfl
    · exact h.sessions hash
  · rw [findSession_openSession, Option.or_eq_none_iff] at hnone ⊢
    refine ⟨h.tokens hash hnone.1, ?_⟩
    by_contra htoken
    rw [if_pos (by_contra fun hne => htoken (if_neg hne))] at hnone
    cases hnone.2

theorem Database.SameAccount.revokeSession (ha : db.Accounts) (ha' : db'.Accounts)
    (hmem : session ∈ db.sessions) (hmem' : session' ∈ db'.sessions)
    (hanon : session'.anon = session.anon) (now : Time) :
    (db.revokeSession session.id now).SameAccount email (db'.revokeSession session'.id now) := by
  have htoken : session'.tokenHash = session.tokenHash := congrArg (·.tokenHash) hanon
  refine ⟨h.user, fun hash => ?_, fun hash hnone => ?_⟩
  · rw [sessionOf_revokeSession ha hmem, sessionOf_revokeSession ha' hmem', htoken]
    split
    · have hmap : ∀ o : Option (Session T),
          (o.map fun s => { s with revokedAt := some now }).map Session.anon =
            (o.map Session.anon).map fun s => { s with revokedAt := some now } := by
        intro o
        rw [Option.map_map, Option.map_map]
        rfl
      rw [hmap, hmap, h.sessions hash]
    · exact h.sessions hash
  · rw [findSession_revokeSession_eq_none] at hnone ⊢
    exact h.tokens hash hnone

end Own

end MiniVault
