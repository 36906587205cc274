/-
  What a write leaves of the history of its path. A write replaces the ciphertext in the item's
  own row and adds one version row, numbered after the newest. An item with version rows keeps
  them all, so that every version that could be read can still be read. An item without any, as
  stored before there were versions, loses the value it had: `write` counts it as version 1 but
  adds no row for it.
-/
import MiniVault.Kv.Refine

namespace MiniVault

open Kit

variable {T B J : Type} {P : Prims T B J}

/-! ## States -/

/-- What the schema promises of the KV tables, and that versions count from one. -/
structure Database.KvAdmitted (db : Database T) : Prop where
  ids : (db.kvSecrets.map (·.id)).Nodup
  paths : (db.kvSecrets.map (·.path)).Nodup
  distinct : (db.kvSecretVersions.map fun v => (v.kvSecretId, v.version)).Nodup
  range : ∀ v ∈ db.kvSecretVersions, 1 ≤ v.version ∧ v.version < 2 ^ 63

theorem Database.KvAdmitted.noVersions {db : Database T} (h : db.KvAdmitted) :
    ({ db with kvSecretVersions := [] } : Database T).KvAdmitted :=
  ⟨h.ids, h.paths, List.nodup_nil, by rintro _ ⟨⟩⟩

/-- The version row opens to the value. -/
def KVSecretVersion.Opens (P : Prims T B J) (dek : B) (path : T) (v : KVSecretVersion T) (x : J) :
    Prop :=
  KVService.openSecret P dek v.nonceB64 v.ciphertextB64 path = .ok x

/-- Is the call a write? -/
def Call.isKvWrite : Call T J → Bool
  | .kvWrite .. => true
  | _ => false

section Newest

variable [DecidableEq T] (canon : J → J) (path : T)

/-- The value at a path after one more call. -/
def newestAfter (x : J) : (Env P × Call T J) × Except Exc (Data T J) → J
  | ((_, .kvWrite path' _ data), .ok _) => if path' = path then canon data else x
  | _ => x

/-- The value at a path after some calls: that of the last write to it that went through. -/
def newest (x : J) (tr : History P) : J := tr.foldl (newestAfter canon path) x

theorem newestAfter_write (x : J) (e : Env P) (email : T) (data : J) (d : Data T J) :
    newestAfter canon path x ((e, .kvWrite path email data), .ok d) = canon data := if_pos rfl

end Newest

section Rows

variable {db : Database T} {id : Nat} {v : KVSecretVersion T}

theorem mem_versionsOf : v ∈ db.versionsOf id ↔ v ∈ db.kvSecretVersions ∧ v.kvSecretId = id := by
  simp [Database.versionsOf]

/-- The rows of one item have distinct versions. -/
theorem Database.KvAdmitted.rows_distinct (h : db.KvAdmitted) (id : Nat) :
    ((db.versionsOf id).map (·.version)).Nodup := by
  have hrows : (db.versionsOf id).Nodup := List.Nodup.filter _ (List.Nodup.of_map _ h.distinct)
  refine List.Nodup.map_on (fun u hu v hv heq => ?_) hrows
  obtain ⟨hmem, hid⟩ := mem_versionsOf.1 hu
  obtain ⟨hmem', hid'⟩ := mem_versionsOf.1 hv
  exact Table.eq_of_key h.distinct hmem hmem' (Prod.ext (hid.trans hid'.symm) heq)

/-- The number of the next write is above all others. -/
theorem version_lt_next (hv : v ∈ db.versionsOf id) : v.version < db.nextKvVersion id := by
  unfold Database.nextKvVersion
  rcases hc : db.currentKvVersion id with _ | c
  · rw [List.argmax_eq_none.1 hc] at hv
    cases hv
  · exact Nat.lt_succ_of_le (List.le_of_mem_argmax hv hc)

/-- A row above all others is the current one. -/
theorem currentKvVersion_of_above (hv : v ∈ db.versionsOf id)
    (habove : ∀ u ∈ db.versionsOf id, u = v ∨ u.version < v.version) :
    db.currentKvVersion id = some v :=
  Table.argmax_eq_some hv fun u hu hle =>
    (habove u hu).resolve_right fun hlt => absurd hle (Nat.not_le.2 hlt)

end Rows

variable [DecidableEq T]

/-! ## One item through writes -/

/-- The item at a path, its version rows distinct and in range, in an unlocked vault. -/
structure World.Item (w : World T B) (path email : T) (dek : B) (id : Nat) : Prop where
  unlocked : w.dek = some dek
  ids : (w.db.kvSecrets.map (·.id)).Nodup
  paths : (w.db.kvSecrets.map (·.path)).Nodup
  found : ∃ r, w.db.findOwned path email = some r ∧ r.id = id
  distinct : ((w.db.versionsOf id).map (·.version)).Nodup
  range : ∀ v ∈ w.db.versionsOf id, 1 ≤ v.version ∧ v.version < 2 ^ 63

section Item

variable {canon : J → J} {w w' : World T B} {path email path' email' : T} {data : J} {dek raw : B}
  {id : Nat} {e : Env P} {item : KVSecret T} {r : Except Exc (Data T J)}

/-- The item at the path is found without its owner, too. -/
theorem World.Item.findPath (h : w.Item path email dek id) :
    ∃ item, w.db.findPath path = some item ∧ item ∈ w.db.kvSecrets ∧ item.path = path ∧
      item.ownerEmail = email ∧ item.id = id := by
  obtain ⟨item, hf, hid⟩ := h.found
  obtain ⟨hitem, hpath, howner⟩ := findOwned_eq_some hf
  have hkey := Table.find?_key h.paths hitem
  rw [hpath] at hkey
  exact ⟨item, hkey, hitem, hpath, howner, hid⟩

/-- An update of a row leaves every row under its owner and path. -/
theorem findOwned_kvUpdate (path email : T) (db : Database T) (e : Env P) (item : KVSecret T)
    (path' : T) (dek raw : B) :
    ∃ f : KVSecret T → KVSecret T, (∀ r, (f r).id = r.id) ∧
      (db.kvUpdate P e item path' dek raw).findOwned path email =
        (db.findOwned path email).map f := by
  refine ⟨Table.updated (·.id) item.id fun r =>
    { r with
      nonceB64 := P.b64encode e.nonce
      ciphertextB64 := cipherText P (kvSealing P e path' dek raw)
      updatedAt := e.now }, fun r => ?_, Table.find?_updated fun _ => rfl⟩
  unfold Table.updated
  split
  · rfl
  · rfl

/-- A write to the path adds the next version, which opens to the value written. -/
theorem World.Item.update (hP : P.RoundTrips canon)
    (h : w.Item path email dek id) (hw : WriteReady P w.session path email' data dek raw)
    (hid : item.id = id) (hv : w.db.nextKvVersion id < 2 ^ 63)
    (w' : World T B) (hdek : w'.dek = w.dek)
    (hdb : w'.db = w.db.kvUpdate P e item path dek raw) :
    w'.Item path email dek id ∧ ∃ v, w'.db.versionsOf id = w.db.versionsOf id ++ [v] ∧
      v.version = w.db.nextKvVersion id ∧ v.Opens P dek path (canon data) := by
  subst hid
  have hrows : w'.db.versionsOf item.id = w.db.versionsOf item.id ++
      [newSecretVersion P e item.id (w.db.nextKvVersion item.id) path dek raw] := by
    rw [hdb]
    exact versionsOf_kvUpdate_self
  refine ⟨⟨hdek.trans h.unlocked, ?_, ?_, ?_, ?_, ?_⟩, _, hrows, rfl, ?_⟩
  · rw [hdb, kvUpdate_map fun _ _ _ _ => rfl]
    exact h.ids
  · rw [hdb, kvUpdate_map fun _ _ _ _ => rfl]
    exact h.paths
  · obtain ⟨r, hr, hrid⟩ := h.found
    obtain ⟨f, hf, hfound⟩ := findOwned_kvUpdate path email w.db e item path
      dek raw
    rw [hdb, hfound, hr]
    exact ⟨f r, rfl, (hf r).trans hrid⟩
  · rw [hrows]
    refine Table.nodup_concat h.distinct fun hmem => ?_
    obtain ⟨v, hmem, hversion⟩ := List.mem_map.1 hmem
    exact absurd hversion (Nat.ne_of_lt (version_lt_next hmem))
  · rw [hrows]
    intro v hmem
    rcases List.mem_append.1 hmem with hmem | hmem
    · exact h.range v hmem
    · rw [List.mem_singleton.1 hmem]
      exact ⟨Nat.le_add_left 1 _, hv⟩
  · show KVService.openSecret P dek (P.b64encode e.nonce)
      (cipherText P (kvSealing P e path dek raw)) path = _
    rw [openSecret_sealed hP.b64decode_b64encode hP.correct hw.keyOk]
    exact hP.loads _ _ hw.dumped

/-- A write to another path leaves the item and its version rows. -/
theorem World.Item.other (h : w.Item path email dek id) (hne : path' ≠ path)
    (hs : Step e w (.kvWrite path' email' data) r w') :
    w'.Item path email dek id ∧ w'.db.versionsOf id = w.db.versionsOf id := by
  obtain ⟨mine, -, hmine, hpath, -, hid⟩ := h.findPath
  obtain ⟨found, hfound, hfid⟩ := h.found
  cases hs with
  | fail => exact ⟨h, rfl⟩
  | view _ hc => cases hc
  | kvOverflow => exact ⟨⟨h.unlocked, h.ids, h.paths, h.found, h.distinct, h.range⟩, rfl⟩
  | @kvCreate _ _ _ dek' raw' hw hf =>
    have hfresh := e.rowid_fresh (w.db.kvSecrets.map (·.id))
    have hrows : (w.db.kvCreate P e path' email' dek' raw').versionsOf id = w.db.versionsOf id := by
      rw [← hid]
      exact versionsOf_kvCreate_of_mem hmine
    refine ⟨⟨h.unlocked, Table.nodup_concat h.ids hfresh, ?_, ⟨found, ?_, hfid⟩, ?_, ?_⟩, hrows⟩
    · refine Table.nodup_concat h.paths fun hmem => ?_
      obtain ⟨r, hr, hrpath⟩ := List.mem_map.1 hmem
      exact findPath_eq_none.1 hf r hr hrpath
    · exact Table.find?_concat hfound _
    · rw [wrote_db, hrows]
      exact h.distinct
    · rw [wrote_db, hrows]
      exact h.range
  | @kvUpdate _ _ _ dek' raw' item hw hf hv =>
    obtain ⟨hitem, hipath⟩ := findPath_eq_some hf
    have hother : item.id ≠ id := fun heq => hne (by
      rw [← hipath, Table.eq_of_key h.ids hitem hmine (heq.trans hid.symm), hpath])
    have hrows : (w.db.kvUpdate P e item path' dek' raw').versionsOf id = w.db.versionsOf id :=
      versionsOf_kvUpdate_of_ne hother
    refine ⟨⟨h.unlocked, ?_, ?_, ?_, ?_, ?_⟩, hrows⟩
    · rw [wrote_db, kvUpdate_map fun _ _ _ _ => rfl]
      exact h.ids
    · rw [wrote_db, kvUpdate_map fun _ _ _ _ => rfl]
      exact h.paths
    · obtain ⟨f, hf, heq⟩ := findOwned_kvUpdate path email w.db e item path'
        dek' raw'
      rw [wrote_db, heq, hfound]
      exact ⟨f found, rfl, (hf found).trans hfid⟩
    · rw [wrote_db, hrows]
      exact h.distinct
    · rw [wrote_db, hrows]
      exact h.range

/-- A write to the path that goes through is such an update. -/
theorem World.Item.overwrite (hP : P.RoundTrips canon)
    (h : w.Item path email dek id) {d : Data T J}
    (hs : Step e w (.kvWrite path email' data) (.ok d) w') :
    w'.Item path email dek id ∧ ∃ v, w'.db.versionsOf id = w.db.versionsOf id ++ [v] ∧
      v.version = w.db.nextKvVersion id ∧ v.Opens P dek path (canon data) := by
  obtain ⟨mine, hmine, -, -, -, hid⟩ := h.findPath
  cases hs with
  | view _ hc => cases hc
  | kvCreate hw hf =>
    rw [hmine] at hf
    cases hf
  | @kvUpdate _ _ _ dek' raw item hw hf hv =>
    have heq : item = mine := Option.some.inj (hf.symm.trans hmine)
    subst heq
    have hdek : dek' = dek := Option.some.inj (hw.unlocked.symm.trans h.unlocked)
    subst hdek
    rw [hid] at hv
    exact h.update hP hw hid hv (w.wrote _ _) rfl rfl

/-- One more write, at this path or elsewhere. -/
theorem World.Item.write (hP : P.RoundTrips canon)
    (h : w.Item path email dek id) (hs : Step e w (.kvWrite path' email' data) r w') (x : J) :
    w'.Item path email dek id ∧
      ((w'.db.versionsOf id = w.db.versionsOf id ∧
          newestAfter canon path x ((e, .kvWrite path' email' data), r) = x) ∨
        ∃ v, w'.db.versionsOf id = w.db.versionsOf id ++ [v] ∧
          v.version = w.db.nextKvVersion id ∧ v.Opens P dek path
            (newestAfter canon path x ((e, .kvWrite path' email' data), r))) := by
  by_cases hpath : path' = path
  · subst hpath
    cases r with
    | error =>
      cases hs with
      | fail => exact ⟨h, .inl ⟨rfl, rfl⟩⟩
      | kvOverflow =>
        exact ⟨⟨h.unlocked, h.ids, h.paths, h.found, h.distinct, h.range⟩, .inl ⟨rfl, rfl⟩⟩
    | ok d =>
      obtain ⟨hitem, v, hrows, hversion, hopens⟩ := h.overwrite hP hs
      refine ⟨hitem, .inr ⟨v, hrows, hversion, ?_⟩⟩
      rwa [newestAfter_write]
  · obtain ⟨hitem, hrows⟩ := h.other hpath hs
    refine ⟨hitem, .inl ⟨hrows, ?_⟩⟩
    cases r with
    | error x => rfl
    | ok d => exact if_neg hpath

end Item

/-! ## The history of an item -/

/-- The version rows grew from `old` by rows above `k`, the last of which opens to `x`. -/
structure World.Grown (P : Prims T B J) (w : World T B) (path email : T) (dek : B) (id : Nat)
    (old : List (KVSecretVersion T)) (k : Nat) (x : J) : Prop where
  item : w.Item path email dek id
  rows : ∃ new, w.db.versionsOf id = old ++ new ∧ ∀ v ∈ new, k + 1 ≤ v.version
  last : ∃ v, w.db.currentKvVersion id = some v ∧ k + 1 ≤ v.version ∧ v.Opens P dek path x

section Grown

variable {canon : J → J} {w w' : World T B} {path email path' email' : T} {data : J} {dek : B}
  {id k : Nat} {old : List (KVSecretVersion T)} {e : Env P} {r : Except Exc (Data T J)} {x v : J}

omit [DecidableEq T] in
/-- A new row above all others is the current one. -/
theorem currentKvVersion_concat {db db' : Database T} {u : KVSecretVersion T}
    (hrows : db'.versionsOf id = db.versionsOf id ++ [u])
    (hu : u.version = db.nextKvVersion id) : db'.currentKvVersion id = some u := by
  refine currentKvVersion_of_above ?_ fun v hv => ?_
  · rw [hrows]
    exact List.mem_append_right _ List.mem_cons_self
  · rw [hrows, List.mem_append, List.mem_singleton] at hv
    rcases hv with hv | rfl
    · rw [hu]
      exact .inr (version_lt_next hv)
    · exact .inl rfl

/-- **A write keeps the history growing.** -/
theorem World.Grown.write (hP : P.RoundTrips canon)
    (h : w.Grown P path email dek id old k x) (hs : Step e w (.kvWrite path' email' data) r w') :
    w'.Grown P path email dek id old k
      (newestAfter canon path x ((e, .kvWrite path' email' data), r)) := by
  obtain ⟨new, hnew, habove⟩ := h.rows
  obtain ⟨c, hc, hkc, hopens⟩ := h.last
  obtain ⟨hitem, ⟨hrows, hx⟩ | ⟨u, hrows, hu, hux⟩⟩ := h.item.write hP hs x
  · rw [hx]
    refine ⟨hitem, ⟨new, hrows.trans hnew, habove⟩, c, ?_, hkc, hopens⟩
    rwa [Database.currentKvVersion, hrows]
  · have hcu : c.version < u.version := by
      rw [hu]
      exact version_lt_next (List.argmax_mem hc)
    have hku : k + 1 ≤ u.version := Nat.le_trans hkc (Nat.le_of_lt hcu)
    refine ⟨hitem, ⟨new ++ [u], ?_, ?_⟩, u, currentKvVersion_concat hrows hu, hku, hux⟩
    · rw [hrows, hnew, List.append_assoc]
    · intro y hy
      rcases List.mem_append.1 hy with hy | hy
      · exact habove y hy
      · rwa [List.mem_singleton.1 hy]

theorem World.Grown.after (hP : P.RoundTrips canon)
    (h : w.Grown P path email dek id old k x) (js : List (Env P × Call T J))
    (hjs : ∀ j ∈ js, j.2.isKvWrite = true) :
    (w.after js).Grown P path email dek id old k (newest canon path x (w.trace js)) := by
  induction js generalizing w x with
  | nil => exact h
  | cons j js ih =>
    obtain ⟨e, c⟩ := j
    have hc := hjs (e, c) List.mem_cons_self
    cases c with
    | kvWrite path' email' data =>
      exact ih (h.write hP (step_of_call e w _)) fun i hi => hjs i (List.mem_cons_of_mem _ hi)
    | _ => cases hc

end Grown

/-! ## Reading the history -/

/-- Version `k` of a path still reads `v` and is listed, and the path reads `x` under a later
    version. -/
structure World.Keeps (P : Prims T B J) (w : World T B) (path email : T) (k : Nat) (v x : J) :
    Prop where
  old : ∀ e : Env P, (w.call (e, .kvRead path email (some k))).1 = .ok (.kvValue ⟨path, k, v⟩)
  listed : ∀ e : Env P, ∃ l, (w.call (e, .kvVersions path email)).1 = .ok (.kvVersions l) ∧
    k ∈ l.map (·.version)
  last : ∀ e : Env P, ∃ n, k + 1 ≤ n ∧
    (w.call (e, .kvRead path email none)).1 = .ok (.kvValue ⟨path, n, x⟩)

section Reading

variable {w : World T B} {path email : T} {dek : B} {id k : Nat} {old : List (KVSecretVersion T)}
  {x v : J} {item : KVSecret T}

omit [DecidableEq T] in
/-- A read with a number finds the row with that number, if it is in range. -/
theorem kvAsked_row {db : Database T} {c : KVSecretVersion T}
    (hdistinct : ((db.versionsOf item.id).map (·.version)).Nodup) (hc : c ∈ db.versionsOf item.id)
    (hrange : 1 ≤ c.version ∧ c.version < 2 ^ 63) :
    db.kvAsked item (some (c.version : Int)) = .ok (some c) := by
  have hfind : db.kvSecretVersions.find?
      (fun v => v.kvSecretId = item.id ∧ v.version = c.version) = some c := by
    have hkey := Table.find?_key hdistinct hc
    rw [Database.versionsOf, List.find?_filter] at hkey
    rw [← hkey]
    exact List.find?_congr fun v _ => by simp
  have h₁ : ¬ (c.version : Int) < 1 := by omega
  have h₂ : ¬ 2 ^ 63 ≤ (c.version : Int).toNat := by omega
  rw [Database.kvAsked, if_neg h₁, if_neg h₂, Int.toNat_natCast, hfind]

omit [DecidableEq T] in
/-- Without such a row it raises. -/
theorem kvAsked_no_row {db : Database T} (hnone : ∀ v ∈ db.versionsOf item.id, v.version ≠ k) :
    ∃ x, db.kvAsked item (some (k : Int)) = .error x := by
  have hfind : db.kvSecretVersions.find?
      (fun v => v.kvSecretId = item.id ∧ v.version = k) = none := by
    refine List.find?_eq_none.2 fun v hv hkey => ?_
    obtain ⟨hid, hversion⟩ := of_decide_eq_true hkey
    exact hnone v (mem_versionsOf.2 ⟨hv, hid⟩) hversion
  unfold Database.kvAsked
  simp only [Int.toNat_natCast, hfind]
  split_ifs
  · exact ⟨_, rfl⟩
  · exact ⟨_, rfl⟩
  · exact ⟨_, rfl⟩

/-- A read without a number opens the newest row. -/
theorem kvRead_newest {c : KVSecretVersion T} {e : Env P} (hp : P.validatePath path email = .ok ())
    (hd : w.dek = some dek) (hf : w.db.findOwned path email = some item)
    (hc : w.db.currentKvVersion item.id = some c) (hx : c.Opens P dek path x) :
    (w.call (e, .kvRead path email none)).1 = .ok (.kvValue ⟨path, c.version, x⟩) := by
  rw [kvRead_call hp hd, kvRead_of_asked hf (k := none) (congrArg Except.ok hc) hx]
  rfl

/-- `versions` shows the numbers of the version rows. -/
theorem kvVersions_of_rows {db : Database T} (hf : db.findOwned path email = some item)
    (hne : db.versionsOf item.id ≠ []) :
    ∃ l, db.kvVersions P path email = .ok l ∧
      ∀ n, n ∈ l.map (·.version) ↔ n ∈ (db.versionsOf item.id).map (·.version) := by
  have hrows : (db.versionsOf item.id).insertionSort (fun a b => a.version ≤ b.version) ≠ [] := by
    intro hnil
    obtain ⟨v, hv⟩ := List.exists_mem_of_ne_nil _ hne
    have hsorted := (List.mem_insertionSort (fun a b : KVSecretVersion T =>
      a.version ≤ b.version)).2 hv
    rw [hnil] at hsorted
    cases hsorted
  refine ⟨((db.versionsOf item.id).insertionSort fun a b => a.version ≤ b.version).map fun v =>
    { version := v.version, createdAt := P.isoformat false v.createdAt }, ?_, fun n => ?_⟩
  · rw [Database.kvVersions, hf]
    exact if_neg (by simpa using hrows)
  · rw [List.map_map]
    exact ((List.perm_insertionSort _ _).map fun v : KVSecretVersion T => v.version).mem_iff

/-- Without version rows, the old value is gone; otherwise it stays. -/
theorem World.Grown.keeps_iff (h : w.Grown P path email dek id old k x) (e : Env P)
    (hp : P.validatePath path email = .ok ())
    (hold : old ≠ [] → ∃ c ∈ old, c.version = k ∧ c.Opens P dek path v) :
    w.Keeps P path email k v x ↔ old ≠ [] := by
  obtain ⟨new, hnew, habove⟩ := h.rows
  obtain ⟨item, hfound, rfl⟩ := h.item.found
  have hd := h.item.unlocked
  constructor
  · rintro hkeeps rfl
    obtain ⟨y, hy⟩ : ∃ y, w.db.kvAsked item (some (k : Int)) = .error y := by
      refine kvAsked_no_row fun u hu hversion => ?_
      rw [hnew, List.nil_append] at hu
      exact absurd (habove u hu) (by omega)
    have hread := hkeeps.old e
    rw [kvRead_call hp hd, kvRead_of_error hfound hy] at hread
    cases hread
  · intro hne
    obtain ⟨c, hc, rfl, hopens⟩ := hold hne
    have hmem : c ∈ w.db.versionsOf item.id := by
      rw [hnew]
      exact List.mem_append_left _ hc
    refine ⟨fun e => ?_, fun e => ?_, fun e => ?_⟩
    · rw [kvRead_call hp hd, kvRead_of_asked hfound
        (kvAsked_row h.item.distinct hmem (h.item.range c hmem)) hopens]
      rfl
    · obtain ⟨l, hl, hversions⟩ :=
        kvVersions_of_rows (P := P) hfound (List.ne_nil_of_mem hmem)
      rw [kvVersions_call hp hd, hl]
      exact ⟨l, rfl, (hversions c.version).2 (List.mem_map_of_mem hmem)⟩
    · obtain ⟨u, hu, hku, hux⟩ := h.last
      exact ⟨u.version, hku, kvRead_newest hp hd hfound hu hux⟩

end Reading

/-! ## Overwriting -/

section Overwriting

variable {w : World T B} {path email : T} {k : Nat} {v : J} {e : Env P}

/-- A read that goes through found the vault unlocked and the path owned. -/
theorem kvRead_call_eq_ok
    (h : (w.call (e, .kvRead path email none)).1 = .ok (.kvValue ⟨path, k, v⟩)) :
    ∃ dek item, P.validatePath path email = .ok () ∧ w.dek = some dek ∧
      w.db.findOwned path email = some item ∧
      k = ((w.db.currentKvVersion item.id).map (·.version)).getD 1 ∧
      openItem P dek item (w.db.currentKvVersion item.id) path = .ok v := by
  rcases kvView_cases (J := J) path email e w.session with ⟨hread, -⟩ | ⟨dek, hp, hd⟩
  · obtain ⟨x, hx⟩ := hread none
    rw [call_eq (c := Call.kvRead path email none) rfl hx] at h
    cases h
  · rw [kvRead_call hp hd] at h
    rcases hr : w.db.kvRead P dek path email none with x | u
    · rw [hr] at h
      cases h
    · rw [hr] at h
      cases h
      obtain ⟨item, record, hf, hrecord, -, hk, hopen⟩ := kvRead_eq_ok hr
      cases Except.ok.inj hrecord
      exact ⟨dek, item, hp, hd, hf, hk, hopen⟩

end Overwriting

/-- **Overwriting keeps the old value, if the item has version rows.** In any state that the
    schema admits, let a path read `v` under version `k`, and a write to it go through. After that
    and any further writes, `k` still reads `v` and is listed, and the path reads the newest value
    under a later version, if and only if the item had version rows before the write. -/
theorem overwrite_keeps_iff {canon : J → J} (hP : P.RoundTrips canon)
    {w w' : World T B} (hw : w.db.KvAdmitted) {path email : T} {k : Nat} {v : J} {e₀ : Env P}
    (hread : (w.call (e₀, .kvRead path email none)).1 = .ok (.kvValue ⟨path, k, v⟩))
    {e : Env P} {data : J} {d : Data T J}
    (hwrite : w.call (e, .kvWrite path email data) = (.ok d, w'))
    (js : List (Env P × Call T J)) (hjs : ∀ j ∈ js, j.2.isKvWrite = true) :
    (w'.after js).Keeps P path email k v (newest canon path (canon data) (w'.trace js)) ↔
      ∃ item, w.db.findOwned path email = some item ∧ w.db.versionsOf item.id ≠ [] := by
  obtain ⟨dek, item, hp, hd, hf, hk, hopen⟩ := kvRead_call_eq_ok hread
  have hitem : w.Item path email dek item.id := by
    refine ⟨hd, hw.ids, hw.paths, ⟨item, hf, rfl⟩, ?_, fun u hu => ?_⟩
    · exact hw.rows_distinct item.id
    · exact hw.range u (mem_versionsOf.1 hu).1
  have hs := step_of_call e w (.kvWrite path email data)
  rw [hwrite] at hs
  have hgrown : w'.Grown P path email dek item.id (w.db.versionsOf item.id) k (canon data) := by
    obtain ⟨hitem', u, hrows, hu, hux⟩ := hitem.overwrite hP hs
    have hnext : k + 1 ≤ u.version := by
      rw [hu, hk]
      exact Nat.le_refl _
    refine ⟨hitem', ⟨[u], hrows, ?_⟩, u, currentKvVersion_concat hrows hu, hnext, hux⟩
    intro y hy
    rwa [List.mem_singleton.1 hy]
  have hsame : (∃ item, w.db.findOwned path email = some item ∧ w.db.versionsOf item.id ≠ []) ↔
      w.db.versionsOf item.id ≠ [] := by
    rw [hf]
    exact ⟨by rintro ⟨_, ⟨⟩, hne⟩; exact hne, fun hne => ⟨item, rfl, hne⟩⟩
  rw [hsame]
  refine (hgrown.after hP js hjs).keeps_iff e hp fun hne => ?_
  rcases hc : w.db.currentKvVersion item.id with _ | c
  · exact absurd (List.argmax_eq_none.1 hc) hne
  · rw [hc] at hk hopen
    exact ⟨c, List.argmax_mem hc, hk.symm, hopen⟩

namespace Sample

/-- A vault with one secret, written once. -/
def written : World Text Bytes :=
  World.initial.after (opening ++ [(env 3, .kvWrite path alice (secret 1))] : List SampleCall)

/-- The same vault as before there were versions: the item's row alone. -/
def unversioned : World Text Bytes :=
  { written with db := { written.db with kvSecretVersions := [] } }

/-- The secret overwritten. -/
def overwriting : SampleCall := (env 4, .kvWrite path alice (secret 2))

theorem written_admitted : written.db.KvAdmitted := by
  have hrows : (written.db.kvSecrets.map (·.id)).Nodup ∧
      (written.db.kvSecrets.map (·.path)).Nodup ∧
      (written.db.kvSecretVersions.map fun v => (v.kvSecretId, v.version)).Nodup ∧
      ∀ v ∈ written.db.kvSecretVersions, 1 ≤ v.version ∧ v.version < 2 ^ 63 := by
    decide +kernel
  exact ⟨hrows.1, hrows.2.1, hrows.2.2.1, hrows.2.2.2⟩

theorem read_call {w : World Text Bytes} {version : Option Int} {k : Nat} {n : Int}
    (h : readNumber w version = some (k, n)) :
    (w.call ((env 5, .kvRead path alice version) : SampleCall)).1 =
      .ok (.kvValue ⟨path, k, secret n⟩) := by
  obtain ⟨v, hv, rfl, hvalue⟩ := read_of_readNumber h
  have hread : KVService.read path alice version (env 5 : Env (concrete lib)) w.session =
      (.ok v, w.session) := Prod.ext hv (read_state path alice version (env 5) w.session)
  rw [call_eq (c := Call.kvRead path alice version) rfl hread]
  rcases kvView_cases (J := Json.Value Unit) (P := concrete lib) path alice (env 5) w.session with
    ⟨hall, -⟩ | ⟨dek, hp, hd⟩
  · obtain ⟨x, hx⟩ := hall version
    rw [hread] at hx
    cases hx
  · rw [read_apply hp hd] at hread
    obtain ⟨-, -, -, -, hpath, -⟩ := kvRead_eq_ok (Prod.mk.inj hread).1
    rw [← hpath, ← hvalue]
    rfl

end Sample

open Sample in
/-- A secret stored before there were versions is lost at the next write: its version 1 reads no
    more. -/
theorem overwrite_loses_unversioned :
    unversioned.db.KvAdmitted ∧
      (unversioned.call ((env 5, .kvRead path alice none) : SampleCall)).1 =
        .ok (.kvValue ⟨path, 1, secret 1⟩) ∧
      ∃ d w', unversioned.call overwriting = (.ok d, w') ∧
        ∀ x, ¬ w'.Keeps (concrete lib) path alice 1 (secret 1) x := by
  obtain ⟨hread, hok, hlost⟩ : readNumber unversioned none = some (1, 1) ∧
      (unversioned.call overwriting).1.toBool = true ∧
      ((unversioned.call overwriting).2.call
        ((env 5, .kvRead path alice (some 1)) : SampleCall)).1.toBool = false := by
    decide +kernel
  refine ⟨written_admitted.noVersions, read_call hread, ?_⟩
  rcases hcall : unversioned.call overwriting with ⟨x | d, w'⟩
  · rw [hcall] at hok
    cases hok
  · rw [hcall] at hlost
    refine ⟨d, w', rfl, fun x hkeeps => ?_⟩
    rw [show (1 : Int) = ((1 : Nat) : Int) from rfl, hkeeps.old (env 5)] at hlost
    cases hlost

open Sample in
theorem overwrite_keeps_iff_sample :
    ∃ w' : World Text Bytes,
      (w'.after [((env 6, .kvWrite path alice (secret 3)) : SampleCall)]).Keeps (concrete lib)
        path alice 1 (secret 1)
        (newest Json.Value.canon path (Json.Value.canon (secret 2))
          (w'.trace [((env 6, .kvWrite path alice (secret 3)) : SampleCall)])) := by
  obtain ⟨hok, hany, hread⟩ : (written.call overwriting).1.toBool = true ∧
      (written.db.findOwned path alice).any
        (fun item => (written.db.versionsOf item.id).length == 1) = true ∧
      readNumber written none = some (1, 1) := by
    decide +kernel
  rcases hcall : written.call overwriting with ⟨x | d, w'⟩
  · rw [hcall] at hok
    cases hok
  · have hrows : ∃ item, written.db.findOwned path alice = some item ∧
        written.db.versionsOf item.id ≠ [] := by
      obtain ⟨item, hitem, hlen⟩ := (Option.any_eq_true _ _).1 hany
      refine ⟨item, hitem, fun hnil => ?_⟩
      rw [hnil] at hlen
      cases hlen
    refine ⟨w', (overwrite_keeps_iff (concrete_roundTrips aesgcm_correct floats_lawful)
      written_admitted (read_call hread) hcall _ ?_).2 hrows⟩
    intro j hj
    rw [List.mem_singleton.1 hj]
    rfl

end MiniVault
