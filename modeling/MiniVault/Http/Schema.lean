/-
  The constraints that `models.py` declares, in every run of requests: primary keys, unique
  columns, foreign keys and the range of an integer column; and the columns that are stored twice.
  Nothing that a request commits breaks one of them. A handler that would, by a token that is drawn
  a second time or a version past 64 signed bits, ends in an exception of the driver.
-/
import MiniVault.Http.Sound
import MiniVault.Http.Trail
import MiniVault.Kv.Contents

namespace MiniVault

open Kit

variable {T B J : Type} {P : Prims T B J}

/-! ## The version rows of the KV items -/

/-- Every item has version rows, numbered from one, and repeats the columns of the newest. -/
structure Database.KvRows (db : Database T) : Prop where
  numbered : ∀ r ∈ db.kvSecrets, Table.Numbered (·.version) (db.versionsOf r.id)
  newest : ∀ r ∈ db.kvSecrets, ∃ v, (db.versionsOf r.id).getLast? = some v ∧
    v.nonceB64 = r.nonceB64 ∧ v.ciphertextB64 = r.ciphertextB64
  range : ∀ v ∈ db.kvSecretVersions, v.version < 2 ^ 63

theorem kvRows_initial : (World.initial : World T B).db.KvRows where
  numbered _ hr := by cases hr
  newest _ hr := by cases hr
  range _ hv := by cases hv

section Rows

variable {db db' : Database T} {good : T → Prop} {e : Env P} {path email : T} {dek raw : B}
  {item : KVSecret T}

theorem Database.KvRows.of_tables (h : db.KvRows) (hs : db'.kvSecrets = db.kvSecrets)
    (hv : db'.kvSecretVersions = db.kvSecretVersions) : db'.KvRows := by
  have hversions : ∀ id, db'.versionsOf id = db.versionsOf id := fun id => by
    unfold Database.versionsOf
    rw [hv]
  refine ⟨fun r hr => ?_, fun r hr => ?_, ?_⟩
  · rw [hs] at hr
    rw [hversions]
    exact h.numbered r hr
  · rw [hs] at hr
    rw [hversions]
    exact h.newest r hr
  · rw [hv]
    exact h.range

theorem Database.KvRows.kvCreate (h : db.KvRows) (ht : db.KvTables P good) :
    (db.kvCreate P e path email dek raw).KvRows := by
  have hself : (db.kvCreate P e path email dek raw).versionsOf
      (e.rowid (db.kvSecrets.map (·.id))) =
      [newSecretVersion P e (e.rowid (db.kvSecrets.map (·.id))) 1 path dek raw] :=
    versionsOf_kvCreate_self ht
  refine ⟨fun r hr => ?_, fun r hr => ?_, fun v hv => ?_⟩
  · rcases List.mem_append.1 hr with hr | hr
    · rw [versionsOf_kvCreate_of_mem hr]
      exact h.numbered r hr
    · rw [List.mem_singleton.1 hr]
      exact hself ▸ rfl
  · rcases List.mem_append.1 hr with hr | hr
    · rw [versionsOf_kvCreate_of_mem hr]
      exact h.newest r hr
    · rw [List.mem_singleton.1 hr]
      refine ⟨newSecretVersion P e (e.rowid (db.kvSecrets.map (·.id))) 1 path dek raw, ?_, rfl, rfl⟩
      show ((db.kvCreate P e path email dek raw).versionsOf
        (e.rowid (db.kvSecrets.map (·.id)))).getLast? = _
      rw [hself]
      rfl
  · rcases List.mem_append.1 hv with hv | hv
    · exact h.range v hv
    · rw [List.mem_singleton.1 hv]
      exact Nat.lt_of_lt_of_le Nat.one_lt_two (Nat.le_self_pow (by decide) 2)

theorem Database.KvRows.kvUpdate (h : db.KvRows) (hitem : item ∈ db.kvSecrets)
    (hv : db.nextKvVersion item.id < 2 ^ 63) :
    (db.kvUpdate P e item path dek raw).KvRows := by
  have hself : (db.kvUpdate P e item path dek raw).versionsOf item.id = db.versionsOf item.id ++
      [newSecretVersion P e item.id (db.nextKvVersion item.id) path dek raw] :=
    versionsOf_kvUpdate_self
  have hne : db.versionsOf item.id ≠ [] := fun hnil => by
    obtain ⟨v, hlast, -⟩ := h.newest item hitem
    rw [hnil] at hlast
    cases hlast
  refine ⟨fun r hr => ?_, fun r hr => ?_, fun v hv' => ?_⟩
  · obtain ⟨r', hr', hid, -⟩ := mem_kvUpdate hr
    rw [← hid]
    by_cases hsame : item.id = r'.id
    · rw [← hsame, hself]
      exact (h.numbered item hitem).concat (nextKvVersion_eq (h.numbered item hitem) hne)
    · rw [versionsOf_kvUpdate_of_ne hsame]
      exact h.numbered r' hr'
  · rw [kvUpdate_secrets] at hr
    obtain ⟨r', hr', rfl⟩ := List.mem_map.1 hr
    unfold Table.updated
    split
    · rename_i hid
      refine ⟨newSecretVersion P e item.id (db.nextKvVersion item.id) path dek raw, ?_, rfl, rfl⟩
      show ((db.kvUpdate P e item path dek raw).versionsOf r'.id).getLast? = _
      rw [show r'.id = item.id from hid, hself, List.getLast?_concat]
    · rename_i hid
      rw [versionsOf_kvUpdate_of_ne (Ne.symm hid)]
      exact h.newest r' hr'
  · rcases List.mem_append.1 hv' with hv' | hv'
    · exact h.range v hv'
    · rw [List.mem_singleton.1 hv']
      exact hv

theorem Database.KvRows.kvDelete (h : db.KvRows) (id : Nat) : (db.deleteKvSecret id).KvRows := by
  have hmem : ∀ r ∈ (db.deleteKvSecret id).kvSecrets, r ∈ db.kvSecrets ∧ r.id ≠ id := by
    intro r hr
    simpa [Database.deleteKvSecret] using hr
  refine ⟨fun r hr => ?_, fun r hr => ?_, fun v hv => ?_⟩
  · obtain ⟨hr, hid⟩ := hmem r hr
    rw [versionsOf_deleteKvSecret hid]
    exact h.numbered r hr
  · obtain ⟨hr, hid⟩ := hmem r hr
    rw [versionsOf_deleteKvSecret hid]
    exact h.newest r hr
  · exact h.range v (List.mem_of_mem_filter hv)

variable [DecidableEq T] {w w' : World T B} {c : Call T J} {res : Except Exc (Data T J)}

theorem Database.KvRows.step (h : w.db.KvRows) (ht : w.db.KvTables P good)
    (hs : Step e w c res w') : w'.db.KvRows := by
  cases hs with
  | kvCreate => exact h.kvCreate ht
  | kvUpdate _ hf hv => exact h.kvUpdate (findPath_eq_some hf).1 hv
  | kvDelete => exact h.kvDelete _
  | createAes => exact h.of_tables rfl rfl
  | _ => exact h.of_tables rfl rfl

end Rows

/-! ## The key rows -/

/-- The columns that a key's usage decides. -/
def TransitKey.Typed (P : Prims T B J) (k : TransitKey T) : Prop :=
  match k.keyUsage with
  | .encryptDecrypt => k.algorithm = P.lit "AES-256-GCM" ∧ k.publicKeyB64 = none
  | .signVerify => k.algorithm = P.lit "ED25519" ∧ k.publicKeyB64 ≠ none

section Keys

variable {db : Database T} {e : Env P} {email name : T} {dek : B} {key : TransitKey T}
  {usage : KeyUsage}

theorem typed_keyCreate (h : ∀ k ∈ db.transitKeys, k.Typed P) :
    ∀ k ∈ (db.keyCreate P e email name usage dek).transitKeys, k.Typed P := by
  have hkeys : (db.keyCreate P e email name usage dek).transitKeys = db.transitKeys ++
      [newKey P e (e.rowid (db.transitKeys.map (·.id))) email name usage dek] := by
    cases usage <;> rfl
  intro k hk
  rw [hkeys] at hk
  rcases List.mem_append.1 hk with hk | hk
  · exact h k hk
  · rw [List.mem_singleton.1 hk]
    cases usage
    · exact ⟨rfl, rfl⟩
    · exact ⟨rfl, nofun⟩

/-- An update of columns that the usage does not decide. -/
theorem typed_updateKey (h : ∀ k ∈ db.transitKeys, k.Typed P) (id : Nat)
    {f : TransitKey T → TransitKey T} (hf : ∀ k : TransitKey T, k.Typed P → (f k).Typed P) :
    ∀ k ∈ (db.updateKey id f).transitKeys, k.Typed P := by
  intro k hk
  obtain ⟨k', hk', rfl⟩ := List.mem_map.1 hk
  split
  · exact hf k' (h k' hk')
  · exact h k' hk'

theorem typed_step [DecidableEq T] {w w' : World T B} {c : Call T J}
    {res : Except Exc (Data T J)} (h : ∀ k ∈ w.db.transitKeys, k.Typed P)
    (hs : Step e w c res w') : ∀ k ∈ w'.db.transitKeys, k.Typed P := by
  cases hs with
  | createAes => exact typed_keyCreate h
  | createSigning => exact typed_keyCreate h
  | revoke => exact typed_updateKey h _ fun _ hk => hk
  | rotate => exact typed_updateKey h _ fun _ hk => hk
  | _ => exact h

end Keys

/-! ## All tables -/

/-- The declared constraints, and the columns that repeat others. -/
structure Database.Constrained (P : Prims T B J) (db : Database T) : Prop where
  config : db.vaultConfig.length ≤ 1
  userIds : (db.users.map (·.id)).Nodup
  emails : (db.users.map (·.email)).Nodup
  sessionIds : (db.sessions.map (·.id)).Nodup
  tokenHashes : (db.sessions.map (·.tokenHash)).Nodup
  sessionUsers : ∀ s ∈ db.sessions, ∃ u ∈ db.users, u.id = s.userId
  secretIds : (db.kvSecrets.map (·.id)).Nodup
  paths : (db.kvSecrets.map (·.path)).Nodup
  secretVersions : (db.kvSecretVersions.map fun v => (v.kvSecretId, v.version)).Nodup
  versionSecrets : ∀ v ∈ db.kvSecretVersions, ∃ r ∈ db.kvSecrets, r.id = v.kvSecretId
  newestSecrets : ∀ r ∈ db.kvSecrets, ∃ v ∈ db.kvSecretVersions, v.kvSecretId = r.id ∧
    v.nonceB64 = r.nonceB64 ∧ v.ciphertextB64 = r.ciphertextB64 ∧
    ∀ u ∈ db.kvSecretVersions, u.kvSecretId = r.id → u.version ≤ v.version
  keyIds : (db.transitKeys.map (·.id)).Nodup
  keyNames : (db.transitKeys.map fun k => (k.ownerEmail, k.keyName)).Nodup
  typed : ∀ k ∈ db.transitKeys, k.Typed P
  keyVersions : (db.transitKeyVersions.map fun v => (v.transitKeyId, v.version)).Nodup
  versionKeys : ∀ v ∈ db.transitKeyVersions, ∃ k ∈ db.transitKeys, k.id = v.transitKeyId ∧
    k.keyUsage = .encryptDecrypt
  newestKeys : ∀ k ∈ db.transitKeys, k.keyUsage = .encryptDecrypt →
    ∃ v ∈ db.transitKeyVersions, v.transitKeyId = k.id ∧
      v.encryptedKeyMaterialB64 = k.encryptedKeyMaterialB64 ∧ v.keyNonceB64 = k.keyNonceB64 ∧
      ∀ u ∈ db.transitKeyVersions, u.transitKeyId = k.id → u.version ≤ v.version
  secretRange : ∀ v ∈ db.kvSecretVersions, 1 ≤ v.version ∧ v.version < 2 ^ 63
  keyRange : ∀ v ∈ db.transitKeyVersions, 1 ≤ v.version ∧ v.version < 2 ^ 63
  logIds : (db.auditLogs.rows.map (·.id)).Nodup

section Constrained

variable {db : Database T} {good : T → Prop}

theorem Database.KvRows.secretVersions (h : db.KvRows) (ht : db.KvTables P good) :
    (db.kvSecretVersions.map fun v => (v.kvSecretId, v.version)).Nodup := by
  refine Table.nodup_pairs fun v hv => ?_
  obtain ⟨r, hr, hid⟩ := ht.rows v hv
  rw [← hid]
  exact h.numbered r hr

theorem Database.KvRows.secretRange (h : db.KvRows) (ht : db.KvTables P good) :
    ∀ v ∈ db.kvSecretVersions, 1 ≤ v.version ∧ v.version < 2 ^ 63 := by
  intro v hv
  obtain ⟨r, hr, hid⟩ := ht.rows v hv
  have hmem : v ∈ db.versionsOf r.id := List.mem_filter.2 ⟨hv, decide_eq_true hid.symm⟩
  refine ⟨?_, h.range v hv⟩
  obtain ⟨i, hi, rfl⟩ := List.getElem_of_mem hmem
  rw [(h.numbered r hr).key_get hi]
  exact Nat.le_add_left 1 i

theorem Database.KvRows.newestSecrets (h : db.KvRows) :
    ∀ r ∈ db.kvSecrets, ∃ v ∈ db.kvSecretVersions, v.kvSecretId = r.id ∧
      v.nonceB64 = r.nonceB64 ∧ v.ciphertextB64 = r.ciphertextB64 ∧
      ∀ u ∈ db.kvSecretVersions, u.kvSecretId = r.id → u.version ≤ v.version := by
  intro r hr
  obtain ⟨v, hlast, hnonce, htext⟩ := h.newest r hr
  obtain ⟨hv, hid⟩ := List.mem_filter.1 (List.mem_of_getLast? hlast)
  refine ⟨v, hv, of_decide_eq_true hid, hnonce, htext, fun u hu huid => ?_⟩
  rw [← (h.numbered r hr).argmax] at hlast
  exact List.le_of_mem_argmax (List.mem_filter.2 ⟨hu, decide_eq_true huid⟩) hlast

theorem Database.Mirrors.rowsNumbered {k : TransitKey T} {n : Nat} (h : db.Mirrors k n) :
    Table.Numbered (·.version) (db.keyRows k.id) := by
  have hlen := congrArg List.length h.numbered
  rw [List.length_map, List.length_range'] at hlen
  rw [Table.Numbered, hlen]
  exact h.numbered

theorem Database.Mirrors.newestKey {k : TransitKey T} {n : Nat} (h : db.Mirrors k n) :
    ∃ v ∈ db.transitKeyVersions, v.transitKeyId = k.id ∧
      v.encryptedKeyMaterialB64 = k.encryptedKeyMaterialB64 ∧ v.keyNonceB64 = k.keyNonceB64 ∧
      ∀ u ∈ db.transitKeyVersions, u.transitKeyId = k.id → u.version ≤ v.version := by
  obtain ⟨v, hv, hn, hmaterial, hnonce⟩ := h.newest
  obtain ⟨hmem, hid⟩ := mem_keyRows.1 hv
  refine ⟨v, hmem, hid, hmaterial, hnonce, fun u hu huid => ?_⟩
  have hnumber : u.version ∈ (db.keyRows k.id).map (·.version) :=
    List.mem_map_of_mem (mem_keyRows.2 ⟨hu, huid⟩)
  rw [h.numbered, List.mem_range'_1] at hnumber
  omega

variable [DecidableEq T] {w : World T B} {tr : History P}

theorem KeysRecorded.versionKeys (h : KeysRecorded tr w) :
    ∀ v ∈ w.db.transitKeyVersions, ∃ k ∈ w.db.transitKeys, k.id = v.transitKeyId ∧
      k.keyUsage = .encryptDecrypt := by
  intro v hv
  obtain ⟨k, hk, hid⟩ := h.belongs v hv
  refine ⟨k, hk, hid, ?_⟩
  rcases hu : k.keyUsage with _ | _
  · rfl
  · have hmem : v ∈ w.db.keyRows k.id := mem_keyRows.2 ⟨hv, hid.symm⟩
    rw [h.signing k hk hu] at hmem
    cases hmem

theorem KeysRecorded.keyVersions (h : KeysRecorded tr w) :
    (w.db.transitKeyVersions.map fun v => (v.transitKeyId, v.version)).Nodup := by
  refine Table.nodup_pairs fun v hv => ?_
  obtain ⟨k, hk, hid, hu⟩ := h.versionKeys v hv
  rw [← hid]
  exact (h.encryption k hk hu).rowsNumbered

end Constrained

/-! ## Runs -/

/-- What every request keeps of the tables. -/
structure World.InShape (P : Prims T B J) [DecidableEq T] (w : World T B) : Prop where
  serving : w.Serving P fun _ => True
  kvRows : w.db.KvRows
  typed : ∀ k ∈ w.db.transitKeys, k.Typed P
  config : w.db.vaultConfig.length ≤ 1
  logs : Chained P w.db.auditLogs

section Runs

variable [DecidableEq T] {settings : Settings} {e : Env P} {w w' : World T B} {r : Request T J}
  {resp : Response T J}

theorem inShape_initial : (World.initial : World T B).InShape P where
  serving := serving_initial
  kvRows := kvRows_initial
  typed _ hk := by cases hk
  config := Nat.zero_le 1
  logs := ⟨⟨rfl, rfl⟩, List.nodup_nil, trivial⟩

theorem config_step {c : Call T J} {res : Except Exc (Data T J)} (hs : Step e w c res w')
    (h : w.db.vaultConfig.length ≤ 1) : w'.db.vaultConfig.length ≤ 1 := by
  cases hs with
  | vaultInit => exact Nat.le_refl 1
  | createAes => exact h
  | _ => exact h

theorem World.InShape.served (h : w.InShape P) (hs : Served settings e w r resp w') :
    w'.InShape P := by
  have hserving := h.serving.served hs fun _ _ _ _ => trivial
  have hlogs := hs.chained h.logs
  cases hs with
  | vault hc hs =>
    exact ⟨hserving, h.kvRows.step h.serving.sound.kv hs, typed_step h.typed hs,
      config_step hs h.config, hlogs⟩
  | @service credentials p r c res w' hp hc hs =>
    obtain ⟨logs, heq⟩ := audited_db w' e p.user.email (r.audits P) res
    have hrows := h.kvRows.step h.serving.sound.kv hs
    have htyped := typed_step h.typed hs
    have hconfig := config_step hs h.config
    refine ⟨hserving, hrows.of_tables ?_ ?_, ?_, ?_, hlogs⟩
    · rw [heq]
    · rw [heq]
    · rw [heq]
      exact htyped
    · rw [heq]
      exact hconfig
  | registered => exact ⟨hserving, h.kvRows.of_tables rfl rfl, h.typed, h.config, hlogs⟩
  | wrongPassword => exact ⟨hserving, h.kvRows.of_tables rfl rfl, h.typed, h.config, hlogs⟩
  | loggedIn => exact ⟨hserving, h.kvRows.of_tables rfl rfl, h.typed, h.config, hlogs⟩
  | loggedOut => exact ⟨hserving, h.kvRows.of_tables rfl rfl, h.typed, h.config, hlogs⟩
  | _ => exact h

theorem World.InShape.constrained (h : w.InShape P) : w.db.Constrained P := by
  obtain ⟨tr, htr⟩ := h.serving.sound.keys
  have haccounts := h.serving.accounts
  have hkv := h.serving.sound.kv
  exact {
    config := h.config
    userIds := haccounts.ids
    emails := haccounts.emails
    sessionIds := haccounts.sessionIds
    tokenHashes := haccounts.tokens
    sessionUsers := haccounts.owners
    secretIds := hkv.ids
    paths := hkv.paths
    secretVersions := h.kvRows.secretVersions hkv
    versionSecrets := hkv.rows
    newestSecrets := h.kvRows.newestSecrets
    keyIds := htr.ring.ids
    keyNames := htr.names
    typed := h.typed
    keyVersions := htr.keyVersions
    versionKeys := htr.versionKeys
    newestKeys := fun k hk hu => (htr.encryption k hk hu).newestKey
    secretRange := h.kvRows.secretRange hkv
    keyRange := htr.ring.versions
    logIds := h.logs.nodup }

theorem inShape_run (settings : Settings) (is : List (Env P × Request T J)) :
    (World.initial.served settings is : World T B).InShape P :=
  Run.invariant_final (I := fun w : World T B => w.InShape P) inShape_initial
    (fun w i hw => hw.served (served_of_request settings i.1 w i.2)) is

/-- **Every declared constraint holds.** Whatever requests were served since the database
    was created, restarts among them, every primary key, unique column and foreign key of
    `models.py` holds, the version columns fit an integer column, and the columns that items and
    keys share with their newest version are the same. -/
theorem constraints_hold (settings : Settings) (is : List (Env P × Request T J)) :
    (World.initial.served settings is : World T B).db.Constrained P :=
  (inShape_run settings is).constrained

end Runs

end MiniVault
