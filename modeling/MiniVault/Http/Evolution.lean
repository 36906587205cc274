/-
  What a run of requests may do to rows that are there. No user, session, key, key version or
  audit row is ever removed, and each keeps its place; a user keeps address and password hash, a
  session changes once, when it is revoked, a key until it is revoked, and a row of the vault
  configuration, of a key version or of the audit log never.
-/
import MiniVault.Http.Schema

namespace MiniVault

open Kit

variable {T B J : Type} {P : Prims T B J}

/-! ## Rows -/

/-- The lockout columns may change. -/
structure User.Kept (u u' : User T) : Prop where
  id : u'.id = u.id
  email : u'.email = u.email
  passwordHash : u'.passwordHash = u.passwordHash

/-- Nothing changes but that the session is revoked. -/
def Session.Kept (s s' : Session T) : Prop :=
  s' = s ∨ s.revokedAt = none ∧ ∃ t, s' = { s with revokedAt := some t }

/-- Until a key is revoked, its material may be replaced. -/
def TransitKey.Kept (k k' : TransitKey T) : Prop :=
  k' = k ∨ k.revokedAt = none ∧ ∃ material nonce revoked, k' =
    { k with encryptedKeyMaterialB64 := material, keyNonceB64 := nonce, revokedAt := revoked }

theorem User.Kept.refl (u : User T) : u.Kept u := ⟨rfl, rfl, rfl⟩

theorem User.Kept.trans (u v x : User T) (h : u.Kept v) (h' : v.Kept x) : u.Kept x :=
  ⟨h'.id.trans h.id, h'.email.trans h.email, h'.passwordHash.trans h.passwordHash⟩

theorem Session.Kept.refl (s : Session T) : s.Kept s := .inl rfl

theorem Session.Kept.trans (s t u : Session T) (h : s.Kept t) (h' : t.Kept u) : s.Kept u := by
  rcases h with rfl | ⟨hs, time, rfl⟩
  · exact h'
  · rcases h' with rfl | ⟨ht, -⟩
    · exact .inr ⟨hs, time, rfl⟩
    · cases ht

theorem TransitKey.Kept.refl (k : TransitKey T) : k.Kept k := .inl rfl

theorem TransitKey.Kept.trans (k l m : TransitKey T) (h : k.Kept l) (h' : l.Kept m) :
    k.Kept m := by
  rcases h with rfl | ⟨hk, material, nonce, revoked, rfl⟩
  · exact h'
  · rcases h' with rfl | ⟨-, material', nonce', revoked', rfl⟩
    · exact .inr ⟨hk, material, nonce, revoked, rfl⟩
    · exact .inr ⟨hk, material', nonce', revoked', rfl⟩

/-! ## Tables -/

/-- Every row that may not be deleted is still at its place, changed in the columns that may. -/
structure Database.Evolves (db db' : Database T) : Prop where
  config : Table.Grows Eq db.vaultConfig db'.vaultConfig
  users : Table.Grows User.Kept db.users db'.users
  sessions : Table.Grows Session.Kept db.sessions db'.sessions
  keys : Table.Grows TransitKey.Kept db.transitKeys db'.transitKeys
  keyVersions : Table.Grows Eq db.transitKeyVersions db'.transitKeyVersions
  logs : Table.Grows Eq db.auditLogs.rows db'.auditLogs.rows

theorem Database.Evolves.refl (db : Database T) : db.Evolves db where
  config := Table.grows_refl (fun _ => rfl) _
  users := Table.grows_refl User.Kept.refl _
  sessions := Table.grows_refl Session.Kept.refl _
  keys := Table.grows_refl TransitKey.Kept.refl _
  keyVersions := Table.grows_refl (fun _ => rfl) _
  logs := Table.grows_refl (fun _ => rfl) _

theorem Database.Evolves.trans {db db' db'' : Database T} (h : db.Evolves db')
    (h' : db'.Evolves db'') : db.Evolves db'' where
  config := h.config.trans (fun _ _ _ => Eq.trans) h'.config
  users := h.users.trans User.Kept.trans h'.users
  sessions := h.sessions.trans Session.Kept.trans h'.sessions
  keys := h.keys.trans TransitKey.Kept.trans h'.keys
  keyVersions := h.keyVersions.trans (fun _ _ _ => Eq.trans) h'.keyVersions
  logs := h.logs.trans (fun _ _ _ => Eq.trans) h'.logs

section Steps

variable [DecidableEq T] {settings : Settings} {e : Env P} {w w' : World T B} {r : Request T J}
  {resp : Response T J} {c : Call T J} {res : Except Exc (Data T J)}

omit [DecidableEq T] in
/-- Key rows and key version rows only. -/
theorem Database.Evolves.of_keys {db db' : Database T} (hc : db'.vaultConfig = db.vaultConfig)
    (hu : db'.users = db.users) (hs : db'.sessions = db.sessions)
    (hl : db'.auditLogs = db.auditLogs)
    (hk : Table.Grows TransitKey.Kept db.transitKeys db'.transitKeys)
    (hv : Table.Grows Eq db.transitKeyVersions db'.transitKeyVersions) : db.Evolves db' where
  config := Table.grows_of_eq (fun _ => rfl) hc
  users := Table.grows_of_eq User.Kept.refl hu
  sessions := Table.grows_of_eq Session.Kept.refl hs
  keys := hk
  keyVersions := hv
  logs := Table.grows_of_eq (fun _ => rfl) (by rw [hl])

omit [DecidableEq T] in
theorem evolves_keyCreate (e : Env P) (db : Database T) (email name : T) (usage : KeyUsage)
    (dek : B) : db.Evolves (db.keyCreate P e email name usage dek) := by
  cases usage with
  | encryptDecrypt =>
    exact .of_keys rfl rfl rfl rfl (Table.grows_append TransitKey.Kept.refl _ _)
      (Table.grows_append (fun _ => rfl) _ _)
  | signVerify =>
    exact .of_keys rfl rfl rfl rfl (Table.grows_append TransitKey.Kept.refl _ _)
      (Table.grows_refl (fun _ => rfl) _)

/-- A call, on tables in shape. -/
theorem Step.evolves (h : w.InShape P) (hs : Step e w c res w') : w.db.Evolves w'.db := by
  have hids : (w.db.transitKeys.map (·.id)).Nodup := by
    obtain ⟨tr, htr⟩ := h.serving.sound.keys
    exact htr.ring.ids
  have hsame : ∀ db : Database T, db.vaultConfig = w.db.vaultConfig → db.users = w.db.users →
      db.sessions = w.db.sessions → db.auditLogs = w.db.auditLogs →
      db.transitKeys = w.db.transitKeys → db.transitKeyVersions = w.db.transitKeyVersions →
      w.db.Evolves db := fun db hc hu hs hl hk hv =>
    .of_keys hc hu hs hl (Table.grows_of_eq TransitKey.Kept.refl hk)
      (Table.grows_of_eq (fun _ => rfl) hv)
  cases hs with
  | vaultInit p hempty =>
    refine ⟨?_, Table.grows_refl User.Kept.refl _, Table.grows_refl Session.Kept.refl _,
      Table.grows_refl TransitKey.Kept.refl _, Table.grows_refl (fun _ => rfl) _,
      Table.grows_refl (fun _ => rfl) _⟩
    rw [hempty]
    exact nofun
  | restart =>
    have hlogs : ensureSchema P w.db.auditLogs = w.db.auditLogs :=
      ensureSchema_of_columns h.logs.columns
    rw [hlogs]
    exact .refl w.db
  | @createAes email name dek =>
    exact evolves_keyCreate e w.db email name .encryptDecrypt dek
  | @createSigning email name dek =>
    exact evolves_keyCreate e w.db email name .signVerify dek
  | @revoke email name key hready =>
    refine .of_keys rfl rfl rfl rfl ?_ (Table.grows_refl (fun _ => rfl) _)
    exact Table.grows_updated TransitKey.Kept.refl hids (findKey_eq_some hready.found).1
      (.inr ⟨hready.live, _, _, _, rfl⟩)
  | @rotate email name key dek hready =>
    refine .of_keys rfl rfl rfl rfl ?_ (Table.grows_append (fun _ => rfl) _ _)
    exact Table.grows_updated TransitKey.Kept.refl hids (findKey_eq_some hready.found).1
      (.inr ⟨hready.live, _, _, _, rfl⟩)
  | _ => exact hsame _ rfl rfl rfl rfl rfl rfl

/-- A request, on tables in shape. -/
theorem Served.evolves (h : w.InShape P) (hs : Served settings e w r resp w') :
    w.db.Evolves w'.db := by
  have haccounts := h.serving.accounts
  have hother : ∀ db : Database T, db.vaultConfig = w.db.vaultConfig →
      db.transitKeys = w.db.transitKeys → db.transitKeyVersions = w.db.transitKeyVersions →
      db.auditLogs = w.db.auditLogs → Table.Grows User.Kept w.db.users db.users →
      Table.Grows Session.Kept w.db.sessions db.sessions → w.db.Evolves db :=
    fun db hc hk hv hl hu hs =>
      ⟨Table.grows_of_eq (fun _ => rfl) hc, hu, hs, Table.grows_of_eq TransitKey.Kept.refl hk,
        Table.grows_of_eq (fun _ => rfl) hv, Table.grows_of_eq (fun _ => rfl) (by rw [hl])⟩
  have hlockout : ∀ (id attempts : Nat) (lockedUntil : Option Time),
      Table.Grows User.Kept w.db.users (w.db.setLockout id attempts lockedUntil).users :=
    fun id attempts lockedUntil => Table.grows_map fun u _ => by
      split
      · exact ⟨rfl, rfl, rfl⟩
      · exact User.Kept.refl u
  have hsessions := Table.grows_refl Session.Kept.refl w.db.sessions
  cases hs with
  | vault hc hs => exact hs.evolves h
  | @service credentials p r c res w' hp hc hs =>
    refine (hs.evolves h).trans ?_
    have hlogs : Table.Grows Eq w'.db.auditLogs.rows
        (w'.audited P e p.user.email (r.audits P) res).db.auditLogs.rows := by
      rcases audited_auditLogs w' e p.user.email (r.audits P) res with hl | ⟨_, _, _, _, hl⟩
      · exact Table.grows_of_eq (fun _ => rfl) (by rw [hl])
      · rw [hl]
        exact Table.grows_append (fun _ => rfl) _ _
    obtain ⟨logs, heq⟩ := audited_db w' e p.user.email (r.audits P) res
    rw [heq] at hlogs ⊢
    exact ⟨Table.grows_refl (fun _ => rfl) _, Table.grows_refl User.Kept.refl _,
      Table.grows_refl Session.Kept.refl _, Table.grows_refl TransitKey.Kept.refl _,
      Table.grows_refl (fun _ => rfl) _, hlogs⟩
  | registered =>
    exact hother _ rfl rfl rfl rfl (Table.grows_append User.Kept.refl _ _) hsessions
  | wrongPassword => exact hother _ rfl rfl rfl rfl (hlockout _ _ _) hsessions
  | loggedIn =>
    exact hother _ rfl rfl rfl rfl (hlockout _ _ _)
      (Table.grows_append Session.Kept.refl _ _)
  | @loggedOut credentials p hp =>
    obtain ⟨token, -, -, hsession, hlive, -⟩ := principal_eq_ok.1 hp
    refine hother _ rfl rfl rfl rfl (Table.grows_refl User.Kept.refl _) ?_
    exact Table.grows_updated Session.Kept.refl haccounts.sessionIds
      (findSession_eq_some hsession).1 (.inr ⟨hlive, e.now, rfl⟩)
  | _ => exact .refl w.db

end Steps

/-- **Nothing is rewritten.** From any state that requests reach, through any further requests and
    restarts, the users, sessions, keys, key versions, audit rows and the configuration that were
    there are there still, each at its place: a user with the same address and password hash, a
    session the same or revoked since, a key the same if it was revoked and otherwise with new
    material at most, and every other row unchanged. -/
theorem rows_evolve [DecidableEq T] (settings : Settings) (pre is : List (Env P × Request T J)) :
    (World.initial.served settings pre : World T B).db.Evolves
      ((World.initial.served settings pre).served settings is).db := by
  have hrun : ∀ w : World T B, w.InShape P →
      (w.served settings is).InShape P ∧ w.db.Evolves (w.served settings is).db := fun w hw =>
    Run.invariant_final
      (I := fun w' : World T B => w'.InShape P ∧ w.db.Evolves w'.db) ⟨hw, .refl w.db⟩
      (fun w' i hw' => ⟨hw'.1.served (served_of_request settings i.1 w' i.2),
        hw'.2.trans ((served_of_request settings i.1 w' i.2).evolves hw'.1)⟩) is
  exact (hrun _ (inShape_run settings pre)).2

end MiniVault
