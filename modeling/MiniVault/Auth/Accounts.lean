/-
  The user and session tables in every run of requests: distinct row ids, one user for an
  address, one session for a token hash, and a user for every session.
-/
import MiniVault.Http.Step
import MiniVault.Kit.Table

namespace MiniVault

open Kit

variable {T B J : Type} {P : Prims T B J}

structure Database.Accounts (db : Database T) : Prop where
  ids : (db.users.map (·.id)).Nodup
  emails : (db.users.map (·.email)).Nodup
  sessionIds : (db.sessions.map (·.id)).Nodup
  tokens : (db.sessions.map (·.tokenHash)).Nodup
  owners : ∀ s ∈ db.sessions, ∃ u ∈ db.users, u.id = s.userId

theorem accounts_initial : (World.initial : World T B).db.Accounts where
  ids := List.nodup_nil
  emails := List.nodup_nil
  sessionIds := List.nodup_nil
  tokens := List.nodup_nil
  owners _ hs := by cases hs

/-! ## Lookups -/

section Lookup

variable {db : Database T}

variable [DecidableEq T]

theorem findUser_eq_some {email : T} {u : User T} (h : db.findUser email = some u) :
    u ∈ db.users ∧ u.email = email :=
  ⟨List.mem_of_find?_eq_some h, by simpa using List.find?_some h⟩

theorem findUser_of_mem (h : db.Accounts) {u : User T} (hu : u ∈ db.users) :
    db.findUser u.email = some u := Table.find?_key h.emails hu

theorem findSession_eq_some {tokenHash : T} {s : Session T}
    (h : db.findSession tokenHash = some s) :
    s ∈ db.sessions ∧ s.tokenHash = tokenHash :=
  ⟨List.mem_of_find?_eq_some h, by simpa using List.find?_some h⟩

theorem findSession_eq_none {tokenHash : T} :
    db.findSession tokenHash = none ↔ ∀ s ∈ db.sessions, s.tokenHash ≠ tokenHash := by
  simp [Database.findSession]

theorem findSession_of_mem (h : db.Accounts) {s : Session T} (hs : s ∈ db.sessions) :
    db.findSession s.tokenHash = some s := Table.find?_key h.tokens hs

end Lookup

/-! ## Updates -/

section Updates

variable {db : Database T}

/-- The lockout columns of one row. -/
def User.withLockout (attempts : Nat) (lockedUntil : Option Time) (u : User T) : User T :=
  { u with failedLoginAttempts := attempts, lockedUntil := lockedUntil }

theorem setLockout_users (id attempts : Nat) (lockedUntil : Option Time) :
    (db.setLockout id attempts lockedUntil).users =
      db.users.map (Table.updated (·.id) id (User.withLockout attempts lockedUntil)) := rfl

theorem setLockout_map {γ : Type} {g : User T → γ} (id attempts : Nat) (lockedUntil : Option Time)
    (hg : ∀ u, g (u.withLockout attempts lockedUntil) = g u) :
    (db.setLockout id attempts lockedUntil).users.map g = db.users.map g :=
  Table.map_updated hg

theorem revokeSession_sessions (id : Nat) (now : Time) :
    (db.revokeSession id now).sessions =
      db.sessions.map (Table.updated (·.id) id fun s => { s with revokedAt := some now }) := rfl

theorem revokeSession_map {γ : Type} {g : Session T → γ} (id : Nat) (now : Time)
    (hg : ∀ s t, g { s with revokedAt := t } = g s) :
    (db.revokeSession id now).sessions.map g = db.sessions.map g :=
  Table.map_updated fun s => hg s _

/-- A user row, by the two columns that never change. -/
def Database.HasUser (db : Database T) (id : Nat) (email : T) : Prop :=
  ∃ u ∈ db.users, u.id = id ∧ u.email = email

theorem hasUser_iff {id : Nat} {email : T} :
    db.HasUser id email ↔ (id, email) ∈ db.users.map fun u => (u.id, u.email) := by
  simp [Database.HasUser]

variable [DecidableEq T]

theorem findUser_setLockout (id attempts : Nat) (lockedUntil : Option Time) (account : T) :
    (db.setLockout id attempts lockedUntil).findUser account =
      (db.findUser account).map
        (Table.updated (·.id) id (User.withLockout attempts lockedUntil)) := by
  unfold Database.findUser
  rw [setLockout_users]
  exact Table.find?_updated fun _ => rfl

/-- The row of one user stays when another's is written. -/
theorem findUser_setLockout_other (h : db.Accounts) {user : User T} (huser : user ∈ db.users)
    {account : T} (hne : user.email ≠ account) (attempts : Nat) (lockedUntil : Option Time) :
    (db.setLockout user.id attempts lockedUntil).findUser account = db.findUser account := by
  rw [findUser_setLockout]
  rcases hf : db.findUser account with _ | u
  · rfl
  · obtain ⟨hu, hemail⟩ := findUser_eq_some hf
    rw [Option.map_some, Table.updated, if_neg]
    intro hid
    rw [Table.eq_of_key h.ids hu huser hid] at hemail
    exact hne hemail

theorem findUser_setLockout_self {user : User T} {account : T}
    (hf : db.findUser account = some user) (attempts : Nat) (lockedUntil : Option Time) :
    (db.setLockout user.id attempts lockedUntil).findUser account =
      some (user.withLockout attempts lockedUntil) := by
  rw [findUser_setLockout, hf, Option.map_some, Table.updated, if_pos rfl]

end Updates

/-! ## Preservation -/

section Preserved

variable {db : Database T}

theorem Database.Accounts.setLockout (h : db.Accounts) (id attempts : Nat)
    (lockedUntil : Option Time) : (db.setLockout id attempts lockedUntil).Accounts where
  ids := by
    rw [setLockout_map _ _ _ fun _ => rfl]
    exact h.ids
  emails := by
    rw [setLockout_map _ _ _ fun _ => rfl]
    exact h.emails
  sessionIds := h.sessionIds
  tokens := h.tokens
  owners s hs := by
    have hids : (db.setLockout id attempts lockedUntil).users.map (·.id) = db.users.map (·.id) :=
      setLockout_map _ _ _ fun _ => rfl
    obtain ⟨u, hu, hid⟩ := h.owners s hs
    have hmem : s.userId ∈ db.users.map (·.id) := hid ▸ List.mem_map_of_mem hu
    rw [← hids] at hmem
    exact List.mem_map.1 hmem

theorem Database.Accounts.revokeSession (h : db.Accounts) (id : Nat) (now : Time) :
    (db.revokeSession id now).Accounts where
  ids := h.ids
  emails := h.emails
  sessionIds := by
    rw [revokeSession_map _ _ fun _ _ => rfl]
    exact h.sessionIds
  tokens := by
    rw [revokeSession_map _ _ fun _ _ => rfl]
    exact h.tokens
  owners s hs := by
    have hids : (db.revokeSession id now).sessions.map (·.userId) = db.sessions.map (·.userId) :=
      revokeSession_map _ _ fun _ _ => rfl
    have hmem : s.userId ∈ (db.revokeSession id now).sessions.map (·.userId) :=
      List.mem_map_of_mem hs
    rw [hids] at hmem
    obtain ⟨s', hs', hid⟩ := List.mem_map.1 hmem
    rw [← hid]
    exact h.owners s' hs'

variable [DecidableEq T]

theorem Database.Accounts.registerUser (h : db.Accounts) (e : Env P) {email : T} (password : T)
    (hf : db.findUser (P.normalizeEmail email) = none) :
    (db.registerUser P e email password).Accounts where
  ids := Table.nodup_concat h.ids (e.rowid_fresh _)
  emails := Table.nodup_concat h.emails fun hmem => by
    obtain ⟨u, hu, hemail⟩ := List.mem_map.1 hmem
    have := List.find?_eq_none.1 hf u hu
    simp only [decide_eq_true_eq] at this
    exact this hemail
  sessionIds := h.sessionIds
  tokens := h.tokens
  owners s hs := by
    obtain ⟨u, hu, hid⟩ := h.owners s hs
    exact ⟨u, List.mem_append_left _ hu, hid⟩

theorem Database.Accounts.openSession (h : db.Accounts) (settings : Settings) (e : Env P)
    {user : User T} (huser : user ∈ db.users)
    (hc : db.findSession (tokenDigest P e.token) = none) :
    (db.openSession P settings e user.id).Accounts where
  ids := (h.setLockout user.id 0 none).ids
  emails := (h.setLockout user.id 0 none).emails
  sessionIds := Table.nodup_concat h.sessionIds (e.rowid_fresh _)
  tokens := Table.nodup_concat h.tokens fun hmem => by
    obtain ⟨s, hs, htoken⟩ := List.mem_map.1 hmem
    exact findSession_eq_none.1 hc s hs htoken
  owners s hs := by
    rcases List.mem_append.1 hs with hs | hs
    · exact (h.setLockout user.id 0 none).owners s hs
    · rw [List.mem_singleton.1 hs]
      have hmem : user.id ∈ db.users.map (·.id) := List.mem_map_of_mem huser
      rw [← setLockout_map user.id 0 none (g := fun u : User T => u.id) fun _ => rfl] at hmem
      exact List.mem_map.1 hmem

omit [DecidableEq T] in
theorem Database.Accounts.frame {db' : Database T} (h : db.Accounts) (hu : db'.users = db.users)
    (hs : db'.sessions = db.sessions) : db'.Accounts := by
  refine ⟨?_, ?_, ?_, ?_, ?_⟩
  · rw [hu]
    exact h.ids
  · rw [hu]
    exact h.emails
  · rw [hs]
    exact h.sessionIds
  · rw [hs]
    exact h.tokens
  · rw [hs, hu]
    exact h.owners

/-- A request that is neither a registration nor about sessions leaves the two tables. -/
theorem service_accounts {e : Env P} {w w' : World T B} {c : Call T J}
    {res : Except Exc (Data T J)} (hs : Step e w c res w') (email : T)
    (row : Option (String × String × T)) :
    (w'.audited P e email row res).db.users = w.db.users ∧
      (w'.audited P e email row res).db.sessions = w.db.sessions := by
  obtain ⟨logs, hlogs⟩ := audited_db w' e email row res
  rw [hlogs]
  exact hs.accounts

/-- Every request keeps the two tables in shape. -/
theorem Database.Accounts.served {settings : Settings} {e : Env P} {w w' : World T B}
    {r : Request T J} {resp : Response T J} (h : w.db.Accounts)
    (hs : Served settings e w r resp w') : w'.db.Accounts := by
  cases hs with
  | raised => exact h
  | unknownUser => exact h
  | lockedOut => exact h
  | tokenClash => exact h
  | vault hc hs => exact h.frame hs.accounts.1 hs.accounts.2
  | service hp hc hs =>
    obtain ⟨hu, hsess⟩ := service_accounts hs _ _
    exact h.frame hu hsess
  | me => exact h
  | auditVerify => exact h
  | registered hf => exact h.registerUser e _ hf
  | wrongPassword => exact h.setLockout _ _ _
  | loggedIn hf _ _ hc => exact h.openSession settings e (findUser_eq_some hf).1 hc
  | loggedOut => exact h.revokeSession _ _

end Preserved

end MiniVault
