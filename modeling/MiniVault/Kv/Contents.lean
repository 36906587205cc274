/-
  The versioned map behind the KV tables. `kvMap` reads it off the calls of a run; `Stores` says
  how the two tables hold it, and every call keeps the two together: the version rows of an item
  are numbered from one, and each opens under the data key to the value at its place.
-/
import MiniVault.Kit.VersionedMap
import MiniVault.Kv.Tables
import MiniVault.Service.Dek

namespace MiniVault

open Kit

variable {T B J : Type} {P : Prims T B J}

/-! ## The map of a run -/

section Map

variable [DecidableEq T] (canon : J → J)

/-- A successful write appends its value to the history of the path; a successful delete drops
    the history. -/
def kvApply (m : VersionedMap T J) :
    (Env P × Call T J) × Except Exc (Data T J) → VersionedMap T J
  | ((_, .kvWrite path _ data), .ok _) => m.write path (canon data)
  | ((_, .kvDelete path _), .ok _) => m.delete path
  | _ => m

/-- What the calls of a run leave in the map. -/
def kvMap (tr : History P) : VersionedMap T J := tr.foldl (kvApply canon) .empty

theorem kvMap_concat (tr : History P) (x : (Env P × Call T J) × Except Exc (Data T J)) :
    kvMap canon (tr ++ [x]) = kvApply canon (kvMap canon tr) x := List.foldl_append

theorem kvApply_error (m : VersionedMap T J) (e : Env P) (c : Call T J) (x : Exc) :
    kvApply canon m ((e, c), .error x) = m := by
  cases c <;> rfl

theorem kvApply_view (m : VersionedMap T J) (e : Env P) {c : Call T J} (hc : c.isView = true)
    (d : Data T J) : kvApply canon m ((e, c), .ok d) = m := by
  cases c with
  | kvWrite => cases hc
  | kvDelete => cases hc
  | _ => rfl

end Map

/-! ## Its representation -/

/-- The version row was sealed for the path under the data key, and opens to the value. -/
def World.Sealed (P : Prims T B J) (w : World T B) (path : T) (v : KVSecretVersion T) (x : J) :
    Prop :=
  ∃ d, w.Keyed P d ∧ ∃ (e : Env P) (raw : B), v.nonceB64 = P.b64encode e.nonce ∧
    v.ciphertextB64 = cipherText P (kvSealing P e path d raw) ∧ P.loads raw = .ok x

/-- The version rows of an item hold the history of its path. -/
structure World.Holds (P : Prims T B J) (w : World T B) (id : Nat) (path : T) (xs : List J) :
    Prop where
  written : xs ≠ []
  small : xs.length < 2 ^ 63
  numbered : Table.Numbered (·.version) (w.db.versionsOf id)
  values : List.Forall₂ (w.Sealed P path) (w.db.versionsOf id) xs

/-- The tables hold the map. -/
structure World.Stores (P : Prims T B J) (w : World T B) (m : VersionedMap T J) : Prop where
  item : ∀ path ∈ m.keys, ∃ r ∈ w.db.kvSecrets, r.path = path
  holds : ∀ r ∈ w.db.kvSecrets, w.Holds P r.id r.path (m.history r.path)

theorem stores_initial : (World.initial : World T B).Stores P .empty where
  item _ hpath := absurd rfl hpath
  holds _ hr := by cases hr

theorem World.Sealed.mono {w w' : World T B} {path : T} {v : KVSecretVersion T} {x : J}
    (h : w.Sealed P path v x) (hk : ∀ d, w.Keyed P d → w'.Keyed P d) : w'.Sealed P path v x := by
  obtain ⟨d, hd, hv⟩ := h
  exact ⟨d, hk d hd, hv⟩

/-- An item whose version rows stay. -/
theorem World.Holds.frame {w w' : World T B} {id : Nat} {path : T} {xs : List J}
    (h : w.Holds P id path xs) (hk : ∀ d, w.Keyed P d → w'.Keyed P d)
    (hv : w'.db.versionsOf id = w.db.versionsOf id) : w'.Holds P id path xs := by
  refine ⟨h.written, h.small, ?_, ?_⟩
  · rw [hv]
    exact h.numbered
  · rw [hv]
    exact h.values.imp fun _ _ hx => hx.mono hk

/-- A call that does not touch the two tables. -/
theorem World.Stores.frame {w w' : World T B} {m : VersionedMap T J} (h : w.Stores P m)
    (hk : ∀ d, w.Keyed P d → w'.Keyed P d) (hs : w'.db.kvSecrets = w.db.kvSecrets)
    (hv : w'.db.kvSecretVersions = w.db.kvSecretVersions) : w'.Stores P m := by
  refine ⟨?_, ?_⟩
  · rw [hs]
    exact h.item
  · rw [hs]
    refine fun r hr => (h.holds r hr).frame hk ?_
    rw [Database.versionsOf, hv, Database.versionsOf]

/-! ## Version rows -/

section Versions

variable {db : Database T} {id : Nat} {v : KVSecretVersion T} {e : Env P} {path email : T}
  {dek raw : B} {item r : KVSecret T}

/-- A new item has a new id. -/
theorem ne_rowid (e : Env P) (hr : r ∈ db.kvSecrets) :
    r.id ≠ e.rowid (db.kvSecrets.map (·.id)) := fun heq => by
  refine e.rowid_fresh (db.kvSecrets.map (·.id)) ?_
  rw [← heq]
  exact List.mem_map_of_mem hr

theorem versionsOf_addKvVersion (db : Database T) (hid : v.kvSecretId = id) :
    (db.addKvVersion v).versionsOf id = db.versionsOf id ++ [v] := by
  simp [Database.versionsOf, Database.addKvVersion, hid]

theorem versionsOf_addKvVersion_of_ne (db : Database T) (hid : v.kvSecretId ≠ id) :
    (db.addKvVersion v).versionsOf id = db.versionsOf id := by
  simp [Database.versionsOf, Database.addKvVersion, hid]

theorem versionsOf_deleteKvSecret {id' : Nat} (hid : id ≠ id') :
    (db.deleteKvSecret id').versionsOf id = db.versionsOf id := by
  unfold Database.versionsOf Database.deleteKvSecret
  rw [List.filter_filter]
  refine List.filter_congr fun v _ => ?_
  simp only [ne_eq, decide_not, Bool.and_eq_left_iff_imp, decide_eq_true_eq, Bool.not_eq_true',
    decide_eq_false_iff_not]
  rintro rfl
  exact hid

/-- No version row has the id of a new item. -/
theorem versionsOf_rowid {good : T → Prop} (h : db.KvTables P good) (e : Env P) :
    db.versionsOf (e.rowid (db.kvSecrets.map (·.id))) = [] := by
  refine List.filter_eq_nil_iff.2 fun v hv hid => ?_
  obtain ⟨r, hr, hrid⟩ := h.rows v hv
  exact ne_rowid e hr (hrid.trans (of_decide_eq_true hid))

theorem versionsOf_kvCreate_self {good : T → Prop} (h : db.KvTables P good) :
    (db.kvCreate P e path email dek raw).versionsOf (e.rowid (db.kvSecrets.map (·.id))) =
      [newSecretVersion P e (e.rowid (db.kvSecrets.map (·.id))) 1 path dek raw] := by
  refine (versionsOf_addKvVersion (db.addKvSecret _) rfl).trans ?_
  show db.versionsOf (e.rowid (db.kvSecrets.map (·.id))) ++ _ = _
  rw [versionsOf_rowid h, List.nil_append]

theorem versionsOf_kvCreate_of_mem (hr : r ∈ db.kvSecrets) :
    (db.kvCreate P e path email dek raw).versionsOf r.id = db.versionsOf r.id :=
  versionsOf_addKvVersion_of_ne (db.addKvSecret _) (ne_rowid e hr).symm

theorem versionsOf_kvUpdate_self :
    (db.kvUpdate P e item path dek raw).versionsOf item.id = db.versionsOf item.id ++
      [newSecretVersion P e item.id (db.nextKvVersion item.id) path dek raw] :=
  versionsOf_addKvVersion (db.setKvCiphertext _ _ _ _) rfl

theorem versionsOf_kvUpdate_of_ne (hid : item.id ≠ id) :
    (db.kvUpdate P e item path dek raw).versionsOf id = db.versionsOf id :=
  versionsOf_addKvVersion_of_ne (db.setKvCiphertext _ _ _ _) hid

/-- The rows are numbered, so that the next number is one more than their count. -/
theorem nextKvVersion_eq (hn : Table.Numbered (·.version) (db.versionsOf id))
    (hne : db.versionsOf id ≠ []) :
    db.nextKvVersion id = (db.versionsOf id).length + 1 := by
  have hpos := List.length_pos_iff.2 hne
  rw [Database.nextKvVersion, Database.currentKvVersion, hn.argmax,
    List.getLast?_eq_getElem?, List.getElem?_eq_getElem (Nat.sub_lt hpos Nat.one_pos),
    Option.map_some, Option.getD_some, hn.key_get]
  omega

/-- The next write of a path appends to its history. -/
theorem World.Holds.next {w : World T B} {path : T} {xs : List J} (h : w.Holds P id path xs) :
    w.db.nextKvVersion id = xs.length + 1 := by
  rw [nextKvVersion_eq h.numbered, h.values.length_eq]
  rw [← List.length_pos_iff, h.values.length_eq, List.length_pos_iff]
  exact h.written

end Versions

/-! ## Preservation -/

section Preserved

variable {canon : J → J} {w w' : World T B} {m : VersionedMap T J} {path email : T} {data : J}
  {dek raw : B} {e : Env P} {item : KVSecret T}

/-- What a write stores, sealed under the data key. -/
theorem sealed_new (hk : w'.Keyed P dek) (hload : P.loads raw = .ok (canon data)) (e : Env P)
    (id version : Nat) (path : T) :
    w'.Sealed P path (newSecretVersion P e id version path dek raw) (canon data) :=
  ⟨dek, hk, e, raw, rfl, rfl, hload⟩

/-- The item gets one more version row. -/
theorem World.Holds.kvUpdate {xs : List J} (h : w.Holds P item.id path xs)
    (hmono : ∀ d, w.Keyed P d → w'.Keyed P d) (hk : w'.Keyed P dek)
    (hload : P.loads raw = .ok (canon data)) (hv : w.db.nextKvVersion item.id < 2 ^ 63)
    (hdb : w'.db = w.db.kvUpdate P e item path dek raw) :
    w'.Holds P item.id path (xs ++ [canon data]) := by
  have hlen := h.values.length_eq
  have hne : w.db.versionsOf item.id ≠ [] := fun hnil => by
    rw [hnil] at hlen
    exact h.written (List.length_eq_zero_iff.1 hlen.symm)
  have hnext := nextKvVersion_eq h.numbered hne
  have hversions : w'.db.versionsOf item.id = w.db.versionsOf item.id ++
      [newSecretVersion P e item.id (w.db.nextKvVersion item.id) path dek raw] := by
    rw [hdb]
    exact versionsOf_kvUpdate_self
  refine ⟨by simp, ?_, ?_, ?_⟩
  · rw [List.length_append, List.length_singleton, ← hlen, ← hnext]
    exact hv
  · rw [hversions]
    exact h.numbered.concat hnext
  · rw [hversions]
    exact List.rel_append (h.values.imp fun _ _ hx => hx.mono hmono)
      (.cons (sealed_new hk hload e item.id _ path) .nil)

variable [DecidableEq T]

theorem World.Stores.kvUpdate {good : T → Prop} (h : w.Stores P m) (ht : w.db.KvTables P good)
    (hmono : ∀ d, w.Keyed P d → w'.Keyed P d) (hk : w'.Keyed P dek)
    (hload : P.loads raw = .ok (canon data)) (hf : w.db.findPath path = some item)
    (hv : w.db.nextKvVersion item.id < 2 ^ 63)
    (hdb : w'.db = w.db.kvUpdate P e item path dek raw) :
    w'.Stores P (m.write path (canon data)) := by
  obtain ⟨hitem, hpath⟩ := findPath_eq_some hf
  have hpaths : w'.db.kvSecrets.map (·.path) = w.db.kvSecrets.map (·.path) := by
    rw [hdb]
    exact kvUpdate_map fun _ _ _ _ => rfl
  refine ⟨fun p hp => ?_, fun r hr => ?_⟩
  · rw [← List.mem_map, hpaths, List.mem_map]
    by_cases hpp : p = path
    · exact ⟨item, hitem, hpath.trans hpp.symm⟩
    · rw [VersionedMap.mem_keys, VersionedMap.history_write_of_ne _ _ hpp] at hp
      exact h.item p hp
  · rw [hdb] at hr
    obtain ⟨r', hr', hid, hpath', -⟩ := mem_kvUpdate hr
    rw [← hid, ← hpath']
    by_cases hsame : r'.path = path
    · have : r' = item := Table.eq_of_key ht.paths hr' hitem (hsame.trans hpath.symm)
      subst this
      rw [hsame, VersionedMap.history_write]
      exact (hsame ▸ h.holds r' hr').kvUpdate hmono hk hload hv hdb
    · rw [VersionedMap.history_write_of_ne _ _ hsame]
      refine (h.holds r' hr').frame hmono ?_
      rw [hdb]
      refine versionsOf_kvUpdate_of_ne fun heq => hsame ?_
      rw [← Table.eq_of_key ht.ids hitem hr' heq, hpath]

theorem World.Stores.kvCreate {good : T → Prop} (h : w.Stores P m) (ht : w.db.KvTables P good)
    (hmono : ∀ d, w.Keyed P d → w'.Keyed P d) (hk : w'.Keyed P dek)
    (hload : P.loads raw = .ok (canon data)) (hf : w.db.findPath path = none)
    (hdb : w'.db = w.db.kvCreate P e path email dek raw) :
    w'.Stores P (m.write path (canon data)) := by
  have hempty : m.history path = [] := by
    by_contra hne
    obtain ⟨r, hr, hpath⟩ := h.item path hne
    exact findPath_eq_none.1 hf r hr hpath
  have hsecrets : w'.db.kvSecrets = w.db.kvSecrets ++
      [newSecret P e (e.rowid (w.db.kvSecrets.map (·.id))) path email dek raw] := by
    rw [hdb]
    rfl
  refine ⟨fun p hp => ?_, fun r hr => ?_⟩
  · rw [hsecrets]
    by_cases hpp : p = path
    · exact ⟨_, List.mem_append_right _ List.mem_cons_self, hpp.symm⟩
    · rw [VersionedMap.mem_keys, VersionedMap.history_write_of_ne _ _ hpp] at hp
      obtain ⟨r, hr, hpath⟩ := h.item p hp
      exact ⟨r, List.mem_append_left _ hr, hpath⟩
  · rw [hsecrets] at hr
    rcases List.mem_append.1 hr with hr | hr
    · rw [VersionedMap.history_write_of_ne _ _ (findPath_eq_none.1 hf r hr)]
      refine (h.holds r hr).frame hmono ?_
      rw [hdb]
      exact versionsOf_kvCreate_of_mem hr
    · have hnew : w'.db.versionsOf (e.rowid (w.db.kvSecrets.map (·.id))) =
          [newSecretVersion P e (e.rowid (w.db.kvSecrets.map (·.id))) 1 path dek raw] := by
        rw [hdb]
        exact versionsOf_kvCreate_self ht
      rw [List.mem_singleton.1 hr]
      show w'.Holds P (e.rowid (w.db.kvSecrets.map (·.id))) path
        ((m.write path (canon data)).history path)
      rw [VersionedMap.history_write, hempty]
      refine ⟨by simp, by simp, ?_, ?_⟩
      · rw [hnew]
        rfl
      · rw [hnew]
        exact .cons (sealed_new hk hload e _ 1 path) .nil

theorem World.Stores.kvDelete {good : T → Prop} (h : w.Stores P m) (ht : w.db.KvTables P good)
    (hmono : ∀ d, w.Keyed P d → w'.Keyed P d) (hitem : item ∈ w.db.kvSecrets)
    (hdb : w'.db = w.db.deleteKvSecret item.id) : w'.Stores P (m.delete item.path) := by
  have hmem : ∀ r, r ∈ w'.db.kvSecrets ↔ r ∈ w.db.kvSecrets ∧ r.id ≠ item.id := fun r => by
    rw [hdb]
    simp [Database.deleteKvSecret]
  refine ⟨fun p hp => ?_, fun r hr => ?_⟩
  · have hpp : p ≠ item.path := by
      rintro rfl
      exact hp (VersionedMap.history_delete m)
    rw [VersionedMap.mem_keys, VersionedMap.history_delete_of_ne _ hpp] at hp
    obtain ⟨r, hr, rfl⟩ := h.item p hp
    refine ⟨r, (hmem r).2 ⟨hr, fun hid => hpp ?_⟩, rfl⟩
    rw [Table.eq_of_key ht.ids hr hitem hid]
  · obtain ⟨hr, hid⟩ := (hmem r).1 hr
    have hpath : r.path ≠ item.path := fun heq =>
      hid (congrArg (·.id) (Table.eq_of_key ht.paths hr hitem heq))
    rw [VersionedMap.history_delete_of_ne _ hpath]
    refine (h.holds r hr).frame hmono ?_
    rw [hdb]
    exact versionsOf_deleteKvSecret hid

/-- Every call moves the tables and the map together. -/
theorem World.Stores.step {good : T → Prop} (hP : P.Lawful)
    (hload : ∀ data raw, P.dumps data = .ok raw → P.loads raw = .ok (canon data))
    (hkeyed : w.Unkeyed ∨ ∃ d, w.Keyed P d) (ht : w.db.KvTables P good) (h : w.Stores P m)
    {c : Call T J} {r : Except Exc (Data T J)} (hs : Step e w c r w') :
    w'.Stores P (kvApply canon m ((e, c), r)) := by
  have hmono : ∀ d, w.Keyed P d → w'.Keyed P d := fun d hd => hd.step hP.unlocks hs
  have hdek : ∀ {dek}, w.dek = some dek → w'.Keyed P dek := fun hd =>
    hmono _ (World.keyed_of_loaded hkeyed hd)
  cases hs with
  | fail c x =>
    rw [kvApply_error]
    exact h.frame hmono rfl rfl
  | view d hc =>
    rw [kvApply_view canon m e hc]
    exact h.frame hmono rfl rfl
  | kvCreate hw hf =>
    exact h.kvCreate ht hmono (hdek hw.unlocked) (hload _ _ hw.dumped) hf rfl
  | kvUpdate hw hf hv =>
    exact h.kvUpdate ht hmono (hdek hw.unlocked) (hload _ _ hw.dumped) hf hv rfl
  | @kvDelete path email dek item hp hd hf =>
    have hitem := List.mem_of_find?_eq_some hf
    have hpath : item.path = path := by
      have := List.find?_some hf
      simp only [decide_eq_true_eq] at this
      exact this.1
    rw [← hpath]
    exact h.kvDelete ht hmono hitem rfl
  | _ => exact h.frame hmono rfl rfl

end Preserved

end MiniVault
