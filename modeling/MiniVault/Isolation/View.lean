/-
  What an observer sees of the database: the vault configuration, the KV items of some users and
  some transit keys, each with its version rows, without the row ids. Every write moves the view
  by what it shows of the written row; a write to what is hidden leaves the view alone.
-/
import MiniVault.Kit.TableView
import MiniVault.Kv.Contents
import MiniVault.Transit.Ring

namespace MiniVault

open Kit

variable {T B J : Type} {P : Prims T B J}

/-- The users and the keys that an observer may see. -/
structure Scope (T : Type) where
  users : T → Bool
  keys : (owner name : T) → Bool

/-! ## Rows without ids -/

def KVSecret.anon (r : KVSecret T) : KVSecret T := { r with id := 0 }

def KVSecretVersion.anon (v : KVSecretVersion T) : KVSecretVersion T := { v with kvSecretId := 0 }

def TransitKey.anon (k : TransitKey T) : TransitKey T := { k with id := 0 }

def TransitKeyVersion.anon (v : TransitKeyVersion T) : TransitKeyVersion T :=
  { v with transitKeyId := 0 }

/-- An item with its version rows. -/
abbrev KvEntry (T : Type) : Type := KVSecret T × List (KVSecretVersion T)

/-- A key with its version rows. -/
abbrev KeyEntry (T : Type) : Type := TransitKey T × List (TransitKeyVersion T)

def Database.kvEntry (db : Database T) (r : KVSecret T) : KvEntry T :=
  (r.anon, (db.versionsOf r.id).map KVSecretVersion.anon)

def Database.keyEntry (db : Database T) (k : TransitKey T) : KeyEntry T :=
  (k.anon, (db.keyRows k.id).map TransitKeyVersion.anon)

/-- The items the observer sees. -/
def Database.kvView (S : Scope T) (db : Database T) : List (KvEntry T) :=
  Table.view (fun r => S.users r.ownerEmail) db.kvEntry db.kvSecrets

/-- The keys the observer sees. -/
def Database.keyView (S : Scope T) (db : Database T) : List (KeyEntry T) :=
  Table.view (fun k => S.keys k.ownerEmail k.keyName) db.keyEntry db.transitKeys

/-- Two databases that the observer cannot tell apart. -/
structure Database.Alike (S : Scope T) (db db' : Database T) : Prop where
  config : db'.vaultConfig = db.vaultConfig
  kv : db'.kvView S = db.kvView S
  keys : db'.keyView S = db.keyView S

section Alike

variable {S : Scope T} {db db' db'' : Database T}

theorem Database.Alike.refl (db : Database T) : db.Alike S db := ⟨rfl, rfl, rfl⟩

theorem Database.Alike.symm (h : db.Alike S db') : db'.Alike S db :=
  ⟨h.config.symm, h.kv.symm, h.keys.symm⟩

theorem Database.Alike.trans (h : db.Alike S db') (h' : db'.Alike S db'') : db.Alike S db'' :=
  ⟨h'.config.trans h.config, h'.kv.trans h.kv, h'.keys.trans h.keys⟩

/-- Tables that the observer does not see at all. -/
theorem alike_of_tables (hc : db'.vaultConfig = db.vaultConfig)
    (hs : db'.kvSecrets = db.kvSecrets) (hv : db'.kvSecretVersions = db.kvSecretVersions)
    (hk : db'.transitKeys = db.transitKeys)
    (hr : db'.transitKeyVersions = db.transitKeyVersions) : db.Alike S db' := by
  refine ⟨hc, ?_, ?_⟩
  · unfold Database.kvView Database.kvEntry Database.versionsOf
    rw [hs, hv]
  · unfold Database.keyView Database.keyEntry Database.keyRows
    rw [hk, hr]

end Alike

/-! ## The shape of the tables -/

/-- What the view relies on. -/
structure Database.Shaped (P : Prims T B J) (good : T → Prop) (db : Database T) : Prop where
  kv : db.KvTables P good
  keyIds : (db.transitKeys.map (·.id)).Nodup
  keyNames : (db.transitKeys.map fun k => (k.ownerEmail, k.keyName)).Nodup
  keyRows : ∀ v ∈ db.transitKeyVersions, ∃ k ∈ db.transitKeys, k.id = v.transitKeyId

/-! ## KV writes -/

section Kv

variable {good : T → Prop} {S : Scope T} {db : Database T} {e : Env P} {path email : T}
  {dek raw : B} {item : KVSecret T}

/-- What a first write shows. -/
def newKvEntry (P : Prims T B J) (e : Env P) (path email : T) (dek raw : B) : KvEntry T :=
  (newSecret P e 0 path email dek raw, [newSecretVersion P e 0 1 path dek raw])

theorem kvView_kvCreate (h : db.KvTables P good) :
    (db.kvCreate P e path email dek raw).kvView S =
      db.kvView S ++ if S.users email then [newKvEntry P e path email dek raw] else [] := by
  have hold : ∀ r ∈ db.kvSecrets,
      (db.kvCreate P e path email dek raw).kvEntry r = db.kvEntry r := by
    intro r hr
    unfold Database.kvEntry
    rw [versionsOf_kvCreate_of_mem hr]
  have hnew : (db.kvCreate P e path email dek raw).kvEntry
      (newSecret P e (e.rowid (db.kvSecrets.map (·.id))) path email dek raw) =
        newKvEntry P e path email dek raw := by
    refine Prod.ext rfl ?_
    show ((db.kvCreate P e path email dek raw).versionsOf
      (e.rowid (db.kvSecrets.map (·.id)))).map _ = _
    rw [versionsOf_kvCreate_self h]
    rfl
  unfold Database.kvView
  show Table.view _ _ (db.kvSecrets ++ [newSecret P e _ path email dek raw]) = _
  rw [Table.view_concat, hnew, Table.view_congr hold]
  rfl

/-- The number after the last of the version rows. -/
def nextOf (rows : List (KVSecretVersion T)) : Nat :=
  ((rows.argmax (·.version)).map (·.version)).getD 1 + 1

theorem nextOf_anon (rows : List (KVSecretVersion T)) :
    nextOf (rows.map KVSecretVersion.anon) = nextOf rows := by
  unfold nextOf
  rw [Table.argmax_map (f := KVSecretVersion.anon) (g := fun v : KVSecretVersion T => v.version)
    fun _ => rfl, Option.map_map]
  rfl

theorem nextKvVersion_entry (db : Database T) (r : KVSecret T) :
    db.nextKvVersion r.id = nextOf (db.kvEntry r).2 := (nextOf_anon _).symm

/-- What a further write does to what is shown of the item at a path. -/
def rewriteEntry [DecidableEq T] (P : Prims T B J) (e : Env P) (path : T) (dek raw : B)
    (x : KvEntry T) : KvEntry T :=
  if x.1.path = path then
    ({ x.1 with
        nonceB64 := P.b64encode e.nonce
        ciphertextB64 := cipherText P (kvSealing P e path dek raw)
        updatedAt := e.now },
      x.2 ++ [newSecretVersion P e 0 (nextOf x.2) path dek raw])
  else x

variable [DecidableEq T]

theorem kvView_kvUpdate (h : db.KvTables P good) (hitem : item ∈ db.kvSecrets)
    (hpath : item.path = path) :
    (db.kvUpdate P e item path dek raw).kvView S =
      (db.kvView S).map (rewriteEntry P e path dek raw) := by
  unfold Database.kvView
  rw [kvUpdate_secrets]
  refine Table.view_map (fun r => ?_) fun r hr => ?_
  · unfold Table.updated
    split
    · rfl
    · rfl
  unfold rewriteEntry
  by_cases hid : r.id = item.id
  · have hsame := Table.eq_of_key h.ids hr hitem hid
    subst hsame
    rw [Table.updated, if_pos rfl, if_pos (show (db.kvEntry r).1.path = path from hpath)]
    refine Prod.ext rfl ?_
    show ((db.kvUpdate P e r path dek raw).versionsOf r.id).map _ = _
    rw [versionsOf_kvUpdate_self, List.map_append, nextKvVersion_entry]
    rfl
  · have hother : (db.kvEntry r).1.path ≠ path := fun heq =>
      hid (by rw [Table.eq_of_key h.paths hr hitem (heq.trans hpath.symm)])
    rw [Table.updated, if_neg hid, if_neg hother]
    unfold Database.kvEntry
    rw [versionsOf_kvUpdate_of_ne (Ne.symm hid)]

theorem kvView_deleteKvSecret (h : db.KvTables P good) (hitem : item ∈ db.kvSecrets) :
    (db.deleteKvSecret item.id).kvView S =
      (db.kvView S).filter fun x => decide (x.1.path ≠ item.path) := by
  unfold Database.kvView
  refine Table.view_filter (fun r hr => ?_) fun r _ hne => ?_
  · rw [decide_eq_decide]
    show r.id ≠ item.id ↔ r.path ≠ item.path
    constructor
    · exact fun hne heq => hne (by rw [Table.eq_of_key h.paths hr hitem heq])
    · exact fun hne heq => hne (by rw [Table.eq_of_key h.ids hr hitem heq])
  · unfold Database.kvEntry
    rw [versionsOf_deleteKvSecret (of_decide_eq_true hne)]

omit [DecidableEq T] in
/-- A hidden item has a path that the view does not show. -/
theorem path_ne_of_hidden (h : db.KvTables P good) (hitem : item ∈ db.kvSecrets)
    (hhidden : S.users item.ownerEmail = false) : ∀ x ∈ db.kvView S, x.1.path ≠ item.path := by
  intro x hx heq
  obtain ⟨r, hr, hvis, rfl⟩ := Table.mem_view.1 hx
  rw [Table.eq_of_key h.paths hr hitem heq, hhidden] at hvis
  cases hvis

theorem kvView_hidden_update (h : db.KvTables P good) (hitem : item ∈ db.kvSecrets)
    (hpath : item.path = path) (hhidden : S.users item.ownerEmail = false) :
    (db.kvUpdate P e item path dek raw).kvView S = db.kvView S := by
  rw [kvView_kvUpdate h hitem hpath]
  refine Table.map_eq_self fun x hx => if_neg ?_
  rw [← hpath]
  exact path_ne_of_hidden h hitem hhidden x hx

theorem kvView_hidden_delete (h : db.KvTables P good) (hitem : item ∈ db.kvSecrets)
    (hhidden : S.users item.ownerEmail = false) :
    (db.deleteKvSecret item.id).kvView S = db.kvView S := by
  rw [kvView_deleteKvSecret h hitem]
  exact List.filter_eq_self.2 fun x hx =>
    decide_eq_true (path_ne_of_hidden h hitem hhidden x hx)

end Kv

/-! ## Key writes -/

section Keys

variable {good : T → Prop} {S : Scope T} {db : Database T} {e : Env P} {email name : T} {dek : B}
  {key : TransitKey T} {now : Time}

theorem keyEntry_addKeyVersion (db : Database T) {v : TransitKeyVersion T} {k : TransitKey T}
    (h : v.transitKeyId ≠ k.id) : (db.addKeyVersion v).keyEntry k = db.keyEntry k := by
  unfold Database.keyEntry
  rw [keyRows_add_other db h]

/-- What a new key shows. -/
def newKeyEntry (P : Prims T B J) (e : Env P) (email name : T) (usage : KeyUsage) (dek : B) :
    KeyEntry T :=
  (newKey P e 0 email name usage dek,
    match usage with
    | .encryptDecrypt => [newKeyVersion P e 0 1 email name dek]
    | .signVerify => [])

theorem keyView_keyCreate (h : db.Shaped P good) (usage : KeyUsage) :
    (db.keyCreate P e email name usage dek).keyView S =
      db.keyView S ++ if S.keys email name then [newKeyEntry P e email name usage dek] else [] := by
  have hold : ∀ k ∈ db.transitKeys,
      (db.keyCreate P e email name usage dek).keyEntry k = db.keyEntry k := by
    intro k hk
    unfold Database.keyEntry
    rw [keyRows_keyCreate e email name usage dek hk]
  have hnew : (db.keyCreate P e email name usage dek).keyEntry
      (newKey P e (e.rowid (db.transitKeys.map (·.id))) email name usage dek) =
        newKeyEntry P e email name usage dek := by
    refine Prod.ext rfl ?_
    show ((db.keyCreate P e email name usage dek).keyRows
      (e.rowid (db.transitKeys.map (·.id)))).map _ = _
    rw [keyRows_keyCreate_self h.keyRows e email name usage dek]
    cases usage <;> rfl
  unfold Database.keyView
  rw [keyCreate_keys, Table.view_concat, hnew, Table.view_congr hold]
  rfl

/-- The current version, by the version rows. -/
def currentOf (rows : List (TransitKeyVersion T)) : Nat :=
  ((rows.argmax (·.version)).map (·.version)).getD 1

theorem currentKeyNumber_entry (db : Database T) (k : TransitKey T) :
    db.currentKeyNumber k.id = currentOf (db.keyEntry k).2 := by
  show _ = currentOf ((db.keyRows k.id).map TransitKeyVersion.anon)
  unfold currentOf
  rw [Table.argmax_map (f := TransitKeyVersion.anon) (g := fun v : TransitKeyVersion T => v.version)
    fun _ => rfl, Option.map_map]
  rfl

variable [DecidableEq T]

/-- What a revocation does to what is shown of a key. -/
def revokeEntry (email name : T) (now : Time) (x : KeyEntry T) : KeyEntry T :=
  if x.1.ownerEmail = email ∧ x.1.keyName = name then ({ x.1 with revokedAt := some now }, x.2)
  else x

/-- What a rotation does to what is shown of a key. -/
def rotateEntry (P : Prims T B J) (e : Env P) (email name : T) (dek : B) (x : KeyEntry T) :
    KeyEntry T :=
  if x.1.ownerEmail = email ∧ x.1.keyName = name then
    (rewrapped P e (keySealing P e email name (currentOf x.2 + 1) dek) x.1,
      x.2 ++ [newKeyVersion P e 0 (currentOf x.2 + 1) email name dek])
  else x

omit [DecidableEq T] in
/-- Owner and name tell the rows apart, as the ids do. -/
theorem key_id_iff (h : db.Shaped P good) (hkey : key ∈ db.transitKeys)
    (howner : key.ownerEmail = email) (hname : key.keyName = name) {k : TransitKey T}
    (hk : k ∈ db.transitKeys) :
    k.id = key.id ↔ (db.keyEntry k).1.ownerEmail = email ∧ (db.keyEntry k).1.keyName = name := by
  constructor
  · intro hid
    rw [Table.eq_of_key h.keyIds hk hkey hid]
    exact ⟨howner, hname⟩
  · rintro ⟨ho, hn⟩
    rw [Table.eq_of_key h.keyNames hk hkey (Prod.ext (ho.trans howner.symm) (hn.trans hname.symm))]

theorem keyView_keyRevoke (h : db.Shaped P good) (hkey : key ∈ db.transitKeys)
    (howner : key.ownerEmail = email) (hname : key.keyName = name) :
    (db.keyRevoke key.id now).keyView S = (db.keyView S).map (revokeEntry email name now) := by
  unfold Database.keyView
  refine Table.view_map (fun k => ?_) fun k hk => ?_
  · split
    · rfl
    · rfl
  unfold revokeEntry
  have hiff := key_id_iff h hkey howner hname hk
  by_cases hid : k.id = key.id
  · rw [if_pos hid, if_pos (hiff.1 hid)]
    rfl
  · rw [if_neg hid, if_neg fun hboth => hid (hiff.2 hboth)]
    rfl

theorem keyView_keyRotate (h : db.Shaped P good) (hkey : key ∈ db.transitKeys)
    (howner : key.ownerEmail = email) (hname : key.keyName = name) :
    (db.keyRotate P e key email name dek).keyView S =
      (db.keyView S).map (rotateEntry P e email name dek) := by
  unfold Database.keyView
  refine Table.view_map (fun k => ?_) fun k hk => ?_
  · split
    · rfl
    · rfl
  unfold rotateEntry
  have hiff := key_id_iff h hkey howner hname hk
  by_cases hid : k.id = key.id
  · rw [if_pos hid, if_pos (hiff.1 hid)]
    have hrows : (db.keyRotate P e key email name dek).keyRows k.id = db.keyRows k.id ++
        [newKeyVersion P e key.id (db.currentKeyNumber key.id + 1) email name dek] := by
      rw [hid]
      exact keyRows_add_self (db.updateKey key.id _)
        (newKeyVersion P e key.id (db.currentKeyNumber key.id + 1) email name dek)
    rw [← currentKeyNumber_entry, hid]
    refine Prod.ext rfl ?_
    show ((db.keyRotate P e key email name dek).keyRows k.id).map _ = _
    rw [hrows, List.map_append]
    rfl
  · rw [if_neg hid, if_neg fun hboth => hid (hiff.2 hboth)]
    exact keyEntry_addKeyVersion (db.updateKey key.id _) (Ne.symm hid)

omit [DecidableEq T] in
/-- The view does not show a hidden key. -/
theorem key_ne_of_hidden (hhidden : S.keys email name = false) :
    ∀ x ∈ db.keyView S, ¬ (x.1.ownerEmail = email ∧ x.1.keyName = name) := by
  rintro x hx ⟨ho, hn⟩
  obtain ⟨k, hk, hvis, rfl⟩ := Table.mem_view.1 hx
  rw [show k.ownerEmail = email from ho, show k.keyName = name from hn, hhidden] at hvis
  cases hvis

end Keys

end MiniVault
