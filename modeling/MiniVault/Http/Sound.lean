/-
  The tables in every run of requests: what the services keep of the KV and key tables when they
  are called for good users, with users who are good because they registered as such.
-/
import MiniVault.Auth.Accounts
import MiniVault.Isolation.Calls

namespace MiniVault

open Kit

variable {T B J : Type} {P : Prims T B J} [DecidableEq T]

/-! ## Tables that stay -/

omit [DecidableEq T] in
theorem Database.KvTables.of_tables {good : T → Prop} {db db' : Database T}
    (h : db.KvTables P good) (hs : db'.kvSecrets = db.kvSecrets)
    (hv : db'.kvSecretVersions = db.kvSecretVersions) : db'.KvTables P good := by
  refine ⟨?_, ?_, ?_, ?_⟩
  · rw [hs]
    exact h.ids
  · rw [hs]
    exact h.paths
  · rw [hs]
    exact h.owned
  · rw [hs, hv]
    exact h.rows

omit [DecidableEq T] in
theorem Database.KeyRing.of_tables {db db' : Database T} (h : db.KeyRing P)
    (hk : db'.transitKeys = db.transitKeys)
    (hv : db'.transitKeyVersions = db.transitKeyVersions) : db'.KeyRing P := by
  refine ⟨?_, ?_, ?_, ?_⟩
  · rw [hk]
    exact h.ids
  · rw [hk]
    exact h.named
  · rw [hk, hv]
    exact h.first
  · rw [hv]
    exact h.versions

theorem KeysRecorded.of_tables {tr : History P} {w w' : World T B} (h : KeysRecorded tr w)
    (hk : w'.db.transitKeys = w.db.transitKeys)
    (hv : w'.db.transitKeyVersions = w.db.transitKeyVersions) : KeysRecorded tr w' := by
  have hrows : ∀ id, w'.db.keyRows id = w.db.keyRows id := by
    intro id
    unfold Database.keyRows
    rw [hv]
  refine ⟨h.ring.of_tables hk hv, ?_, fun email name hf => ?_, fun k hkey hu => ?_,
    fun k hkey hu => ?_, ?_⟩
  · rw [hk]
    exact h.names
  · unfold Database.findKey at hf
    rw [hk] at hf
    exact h.absent email name hf
  · rw [hk] at hkey
    exact (h.encryption k hkey hu).frame (hrows _) rfl rfl rfl
  · rw [hk] at hkey
    rw [hrows]
    exact h.signing k hkey hu
  · rw [hk, hv]
    exact h.belongs

theorem World.Sound.of_tables {good : T → Prop} {w w' : World T B} (h : w.Sound P good)
    (hs : w'.db.kvSecrets = w.db.kvSecrets) (hv : w'.db.kvSecretVersions = w.db.kvSecretVersions)
    (hk : w'.db.transitKeys = w.db.transitKeys)
    (hr : w'.db.transitKeyVersions = w.db.transitKeyVersions) : w'.Sound P good := by
  obtain ⟨tr, htr⟩ := h.keys
  exact ⟨h.kv.of_tables hs hv, tr, htr.of_tables hk hr⟩

/-! ## Runs of requests -/

/-- The tables, and users who are all good. -/
structure World.Serving (P : Prims T B J) (good : T → Prop) (w : World T B) : Prop where
  accounts : w.db.Accounts
  users : ∀ u ∈ w.db.users, good u.email
  sound : w.Sound P good

/-- Whoever registers is good. -/
def Request.Registers (P : Prims T B J) (good : T → Prop) (r : Request T J) : Prop :=
  ∀ email password confirmation, r = .register email password confirmation →
    good (P.normalizeEmail email)

section Serving

variable {good : T → Prop} {settings : Settings} {e : Env P} {w w' : World T B}
  {r : Request T J} {resp : Response T J}

theorem serving_initial : (World.initial : World T B).Serving P good :=
  ⟨accounts_initial, by rintro _ ⟨⟩, sound_initial⟩

/-- The user behind accepted credentials is good. -/
theorem World.Serving.principal (h : w.Serving P good) {now : Time} {credentials : Option T}
    {p : Principal T} (hp : w.db.principal P now credentials = .ok p) : good p.user.email := by
  obtain ⟨-, -, -, -, -, -, huser⟩ := principal_eq_ok.1 hp
  exact h.users _ (List.mem_of_find?_eq_some huser)

theorem World.Sound.step (h : w.Sound P good) {c : Call T J} {res : Except Exc (Data T J)}
    (hs : Step e w c res w') (hgood : ∀ email, c.email? = some email → good email) :
    w'.Sound P good := by
  obtain ⟨tr, htr⟩ := h.keys
  exact ⟨h.kv.step hgood hs, _, htr.step hs⟩

omit [DecidableEq T] in
/-- No update of the lockout columns changes who the users are. -/
theorem users_setLockout {db : Database T} {id attempts : Nat} {lockedUntil : Option Time}
    (h : ∀ u ∈ db.users, good u.email) :
    ∀ u ∈ (db.setLockout id attempts lockedUntil).users, good u.email := by
  intro u hu
  have hmem : u.email ∈ (db.setLockout id attempts lockedUntil).users.map (·.email) :=
    List.mem_map_of_mem hu
  rw [setLockout_map _ _ _ fun _ => rfl] at hmem
  obtain ⟨u', hu', hemail⟩ := List.mem_map.1 hmem
  rw [← hemail]
  exact h u' hu'

/-- **Every request keeps the tables in shape.** -/
theorem World.Serving.served (h : w.Serving P good) (hs : Served settings e w r resp w')
    (hreg : r.Registers P good) : w'.Serving P good := by
  have haccounts := h.accounts.served hs
  cases hs with
  | raised => exact h
  | unknownUser => exact h
  | lockedOut => exact h
  | tokenClash => exact h
  | me => exact h
  | auditVerify => exact h
  | @vault r c res w' hc hs =>
    refine ⟨haccounts, ?_, h.sound.step hs fun email hemail => ?_⟩
    · rw [hs.accounts.1]
      exact h.users
    · cases r <;> cases hc <;> cases hemail
  | @service credentials p r c res w' hp hc hs =>
    obtain ⟨logs, hlogs⟩ := audited_db w' e p.user.email (r.audits P) res
    have hsound : w'.Sound P good := by
      refine h.sound.step hs fun email hemail => ?_
      rw [UserRequest.call_email hc] at hemail
      cases hemail
      exact h.principal hp
    refine ⟨haccounts, ?_, hsound.of_tables ?_ ?_ ?_ ?_⟩
    · rw [hlogs]
      show ∀ u ∈ w'.db.users, good u.email
      rw [hs.accounts.1]
      exact h.users
    · rw [hlogs]
    · rw [hlogs]
    · rw [hlogs]
    · rw [hlogs]
  | registered hf =>
    refine ⟨haccounts, fun u hu => ?_, h.sound.of_tables rfl rfl rfl rfl⟩
    rcases List.mem_append.1 hu with hu | hu
    · exact h.users u hu
    · rw [List.mem_singleton.1 hu]
      exact hreg _ _ _ rfl
  | wrongPassword =>
    exact ⟨haccounts, users_setLockout h.users, h.sound.of_tables rfl rfl rfl rfl⟩
  | loggedIn =>
    exact ⟨haccounts, users_setLockout h.users, h.sound.of_tables rfl rfl rfl rfl⟩
  | loggedOut => exact ⟨haccounts, h.users, h.sound.of_tables rfl rfl rfl rfl⟩

theorem serving_run (settings : Settings) (is : List (Env P × Request T J))
    (hreg : ∀ i ∈ is, i.2.Registers P good) :
    (World.initial.served settings is : World T B).Serving P good := by
  have hall : (∀ x ∈ World.initial.exchanges settings is, x.1.2.Registers P good) →
      (World.initial.served settings is : World T B).Serving P good :=
    serve_induction settings World.initial
      (I := fun tr w => (∀ x ∈ tr, x.1.2.Registers P good) → w.Serving P good)
      (fun _ => serving_initial)
      (fun tr w w' e r resp ih hs htr =>
        (ih fun x hx => htr x (List.mem_append_left _ hx)).served hs
          (htr _ (List.mem_append_right _ List.mem_cons_self))) is
  exact hall fun x hx => hreg x.1 (Run.mem_of_mem_trace hx)

end Serving

end MiniVault
