/-
  The two key tables as one key ring. An address and a name have one key row. An encryption key
  has version rows numbered from one without gaps, one for its creation and one for each of its
  rotations, and its own row mirrors the newest. A signing key has none, and keeps the public key
  of what it wraps. So every operation that reports a version reports the same one.
-/
import MiniVault.Tamper.Keys
import MiniVault.Transit.Rotation

namespace MiniVault

open Kit

variable {T B J : Type} {P : Prims T B J}

/-! ## The rows of a key -/

/-- The version rows of a key, in the order they were written. -/
def Database.keyRows (db : Database T) (id : Nat) : List (TransitKeyVersion T) :=
  db.transitKeyVersions.filter (·.transitKeyId = id)

/-- The key has the versions one to `n`, and its own row mirrors the newest. -/
structure Database.Mirrors (db : Database T) (k : TransitKey T) (n : Nat) : Prop where
  positive : 1 ≤ n
  numbered : (db.keyRows k.id).map (·.version) = List.range' 1 n
  newest : ∃ v ∈ db.keyRows k.id, v.version = n ∧
    v.encryptedKeyMaterialB64 = k.encryptedKeyMaterialB64 ∧ v.keyNonceB64 = k.keyNonceB64

section Rows

variable {db : Database T} {k : TransitKey T} {n : Nat}

theorem mem_keyRows {id : Nat} {v : TransitKeyVersion T} :
    v ∈ db.keyRows id ↔ v ∈ db.transitKeyVersions ∧ v.transitKeyId = id := by
  simp [Database.keyRows]

theorem keyRows_add_self (db : Database T) (v : TransitKeyVersion T) :
    (db.addKeyVersion v).keyRows v.transitKeyId = db.keyRows v.transitKeyId ++ [v] := by
  unfold Database.keyRows Database.addKeyVersion
  rw [List.filter_append, List.filter_cons_of_pos (by simp), List.filter_nil]

theorem keyRows_add_other (db : Database T) {v : TransitKeyVersion T} {id : Nat}
    (h : v.transitKeyId ≠ id) :
    (db.addKeyVersion v).keyRows id = db.keyRows id := by
  unfold Database.keyRows Database.addKeyVersion
  rw [List.filter_append, List.filter_cons_of_neg (by simpa using h), List.filter_nil,
    List.append_nil]

/-- A new key leaves the rows of the keys there are. -/
theorem keyRows_keyCreate (e : Env P) (email name : T) (usage : KeyUsage) (dek : B)
    (hk : k ∈ db.transitKeys) :
    (db.keyCreate P e email name usage dek).keyRows k.id = db.keyRows k.id := by
  have hid : e.rowid (db.transitKeys.map (·.id)) ≠ k.id := by
    intro hid
    refine e.rowid_fresh (db.transitKeys.map (·.id)) ?_
    rw [hid]
    exact List.mem_map_of_mem hk
  cases usage with
  | encryptDecrypt => exact keyRows_add_other (db.addKey _) hid
  | signVerify => rfl

/-- A new key has the row it comes with: no row waited under its id. -/
theorem keyRows_keyCreate_self
    (hbelongs : ∀ v ∈ db.transitKeyVersions, ∃ k ∈ db.transitKeys, k.id = v.transitKeyId)
    (e : Env P) (email name : T) (usage : KeyUsage) (dek : B) :
    (db.keyCreate P e email name usage dek).keyRows (e.rowid (db.transitKeys.map (·.id))) =
      match usage with
      | .encryptDecrypt =>
        [newKeyVersion P e (e.rowid (db.transitKeys.map (·.id))) 1 email name dek]
      | .signVerify => [] := by
  have hnone : db.keyRows (e.rowid (db.transitKeys.map (·.id))) = [] := by
    refine List.eq_nil_iff_forall_not_mem.2 fun v hv => e.rowid_fresh (db.transitKeys.map (·.id)) ?_
    obtain ⟨hmem, hvid⟩ := mem_keyRows.1 hv
    obtain ⟨k, hk, hkid⟩ := hbelongs v hmem
    rw [← hvid, ← hkid]
    exact List.mem_map_of_mem hk
  cases usage with
  | encryptDecrypt =>
    have hadd := keyRows_add_self
      (db.addKey (newKey P e (e.rowid (db.transitKeys.map (·.id))) email name .encryptDecrypt dek))
      (newKeyVersion P e (e.rowid (db.transitKeys.map (·.id))) 1 email name dek)
    exact hadd.trans (congrArg (· ++ [newKeyVersion P e _ 1 email name dek]) hnone)
  | signVerify => exact hnone

/-- The row of a new key has its key. -/
theorem belongs_keyCreate
    (hbelongs : ∀ v ∈ db.transitKeyVersions, ∃ k ∈ db.transitKeys, k.id = v.transitKeyId)
    (e : Env P) (email name : T) (usage : KeyUsage) (dek : B) :
    ∀ v ∈ (db.keyCreate P e email name usage dek).transitKeyVersions,
      ∃ k ∈ (db.keyCreate P e email name usage dek).transitKeys, k.id = v.transitKeyId := by
  intro v hv
  rw [keyCreate_keys]
  rw [keyCreate_versions] at hv
  have hold : v ∈ db.transitKeyVersions → ∃ k ∈ db.transitKeys ++
      [newKey P e (e.rowid (db.transitKeys.map (·.id))) email name usage dek],
      k.id = v.transitKeyId := fun hv => by
    obtain ⟨k, hk, hid⟩ := hbelongs v hv
    exact ⟨k, List.mem_append_left _ hk, hid⟩
  cases usage with
  | encryptDecrypt =>
    rcases List.mem_append.1 hv with hv | hv
    · exact hold hv
    · rw [List.mem_singleton.1 hv]
      exact ⟨_, List.mem_append_right _ List.mem_cons_self, rfl⟩
  | signVerify => exact hold hv

/-- A new encryption key mirrors its one version. -/
theorem mirrors_keyCreate
    (hbelongs : ∀ v ∈ db.transitKeyVersions, ∃ k ∈ db.transitKeys, k.id = v.transitKeyId)
    (e : Env P) (email name : T) (dek : B) :
    (db.keyCreate P e email name .encryptDecrypt dek).Mirrors
      (newKey P e (e.rowid (db.transitKeys.map (·.id))) email name .encryptDecrypt dek) 1 := by
  have hrows := keyRows_keyCreate_self hbelongs e email name .encryptDecrypt dek
  refine ⟨le_rfl, (congrArg (List.map (·.version)) hrows).trans rfl,
    newKeyVersion P e (e.rowid (db.transitKeys.map (·.id))) 1 email name dek, ?_, rfl, rfl, rfl⟩
  show _ ∈ (db.keyCreate P e email name .encryptDecrypt dek).keyRows
    (e.rowid (db.transitKeys.map (·.id)))
  rw [hrows]
  exact List.mem_cons_self

/-- The current version of a key is the number of its versions. -/
theorem Database.Mirrors.current (h : db.Mirrors k n) : db.currentKeyNumber k.id = n := by
  obtain ⟨v, hv, hn, -⟩ := h.newest
  obtain ⟨hmem, hid⟩ := mem_keyRows.1 hv
  obtain ⟨c, hc, hcid, hnum, hle⟩ := currentKeyVersion_of_row db hmem hid
  have hrange : c.version ∈ List.range' 1 n := by
    rw [← h.numbered]
    exact List.mem_map_of_mem (mem_keyRows.2 ⟨hc, hcid⟩)
  rw [List.mem_range'_1] at hrange
  omega

/-- The version after the newest. -/
theorem Database.Mirrors.add (h : db.Mirrors k n) {v : TransitKeyVersion T} {k' : TransitKey T}
    (hid : v.transitKeyId = k.id) (hid' : k'.id = k.id) (hv : v.version = n + 1)
    (hm : v.encryptedKeyMaterialB64 = k'.encryptedKeyMaterialB64)
    (hn : v.keyNonceB64 = k'.keyNonceB64) : (db.addKeyVersion v).Mirrors k' (n + 1) := by
  have hrows : (db.addKeyVersion v).keyRows k'.id = db.keyRows k.id ++ [v] := by
    rw [hid', ← hid]
    exact keyRows_add_self db v
  refine ⟨Nat.le_add_left 1 n, ?_, v, ?_, hv, hm, hn⟩
  · rw [hrows, List.map_append, h.numbered, List.map_singleton, hv, List.range'_1_concat,
      Nat.add_comm 1]
  · rw [hrows]
    exact List.mem_append_right _ List.mem_cons_self

/-- What `Mirrors` looks at. -/
theorem Database.Mirrors.frame {db' : Database T} {k' : TransitKey T} (h : db.Mirrors k n)
    (hrows : db'.keyRows k.id = db.keyRows k.id) (hid : k'.id = k.id)
    (hm : k'.encryptedKeyMaterialB64 = k.encryptedKeyMaterialB64)
    (hn : k'.keyNonceB64 = k.keyNonceB64) : db'.Mirrors k' n := by
  obtain ⟨v, hv, hversion, hvm, hvn⟩ := h.newest
  refine ⟨h.positive, ?_, v, ?_, hversion, hvm.trans hm.symm, hvn.trans hn.symm⟩
  · rw [hid, hrows]
    exact h.numbered
  · rw [hid, hrows]
    exact hv

/-- The key rows after a rotation: the rotated one, and the others as they were. -/
theorem mem_keyRotate (hring : db.KeyRing P) {e : Env P} {key : TransitKey T} {email name : T}
    {dek : B} (hkey : key ∈ db.transitKeys)
    (hk : k ∈ (db.keyRotate P e key email name dek).transitKeys) :
    (k ∈ db.transitKeys ∧ k.id ≠ key.id) ∨ k = rewrapped P e
      (keySealing P e email name (db.currentKeyNumber key.id + 1) dek) key := by
  obtain ⟨k₀, hk₀, rfl⟩ := List.mem_map.1 hk
  by_cases hid : k₀.id = key.id
  · rw [if_pos hid, Table.eq_of_key hring.ids hk₀ hkey hid]
    exact .inr rfl
  · rw [if_neg hid]
    exact .inl ⟨hk₀, hid⟩

end Rows

variable [DecidableEq T]

/-! ## Histories -/

/-- Is it a rotation of the key `name` of `email` that went through? -/
def isRotation (email name : T) : (Env P × Call T J) × Except Exc (Data T J) → Bool
  | ((_, .rotate email' name'), .ok _) => decide (email' = email ∧ name' = name)
  | _ => false

/-- The rotations of a key in a history. -/
def rotationCount (email name : T) (h : History P) : Nat := h.countP (isRotation email name)

theorem rotationCount_concat {email name : T} {h : History P}
    {x : (Env P × Call T J) × Except Exc (Data T J)} (hx : isRotation email name x = false) :
    rotationCount email name (h ++ [x]) = rotationCount email name h := by
  rw [rotationCount, List.countP_append, List.countP_singleton, hx]
  rfl

theorem rotationCount_rotate (email name : T) (h : History P) (e : Env P) (d : Data T J) :
    rotationCount email name (h ++ [((e, .rotate email name), .ok d)]) =
      rotationCount email name h + 1 := by
  have hx : isRotation email name ((e, .rotate email name), .ok d) = true :=
    decide_eq_true ⟨rfl, rfl⟩
  rw [rotationCount, List.countP_append, List.countP_singleton, hx]
  rfl

/-- What a history says of the key tables. -/
structure KeysRecorded (h : History P) (w : World T B) : Prop where
  ring : w.db.KeyRing P
  names : (w.db.transitKeys.map fun k => (k.ownerEmail, k.keyName)).Nodup
  absent : ∀ email name, w.db.findKey email name = none → rotationCount email name h = 0
  encryption : ∀ k ∈ w.db.transitKeys, k.keyUsage = .encryptDecrypt →
    w.db.Mirrors k (rotationCount k.ownerEmail k.keyName h + 1)
  signing : ∀ k ∈ w.db.transitKeys, k.keyUsage = .signVerify → w.db.keyRows k.id = []
  belongs : ∀ v ∈ w.db.transitKeyVersions, ∃ k ∈ w.db.transitKeys, k.id = v.transitKeyId

theorem keysRecorded_initial : KeysRecorded (P := P) [] World.initial where
  ring := keyRing_initial
  names := List.nodup_nil
  absent _ _ _ := rfl
  encryption _ hk := by cases hk
  signing _ hk := by cases hk
  belongs _ hv := by cases hv

section Steps

variable {h : History P} {e : Env P} {w w' : World T B}
  {x : (Env P × Call T J) × Except Exc (Data T J)}

/-- A key is found under its owner and name. -/
theorem KeysRecorded.findKey (hrec : KeysRecorded h w) {k : TransitKey T}
    (hk : k ∈ w.db.transitKeys) : w.db.findKey k.ownerEmail k.keyName = some k := by
  rcases hf : w.db.findKey k.ownerEmail k.keyName with _ | k'
  · have hnone := List.find?_eq_none.1 hf k hk
    simp at hnone
  · obtain ⟨hmem, howner, hname⟩ := findKey_eq_some hf
    rw [Table.eq_of_key hrec.names hmem hk (Prod.ext howner hname)]

/-- A call that changes no column of a key but the mark of revocation. -/
theorem KeysRecorded.frame (hrec : KeysRecorded h w) (hring : w'.db.KeyRing P)
    (hx : ∀ email name, isRotation email name x = false)
    (hkeys : ∃ f : TransitKey T → TransitKey T, w'.db.transitKeys = w.db.transitKeys.map f ∧
      ∀ k, ∃ t, f k = { k with revokedAt := t })
    (hversions : w'.db.transitKeyVersions = w.db.transitKeyVersions) :
    KeysRecorded (h ++ [x]) w' := by
  obtain ⟨f, hf, hcolumns⟩ := hkeys
  have hrows : ∀ id, w'.db.keyRows id = w.db.keyRows id := fun id => by
    unfold Database.keyRows
    rw [hversions]
  have hrow : ∀ k ∈ w'.db.transitKeys, ∃ k₀ ∈ w.db.transitKeys, ∃ t,
      k = { k₀ with revokedAt := t } := by
    intro k hk
    rw [hf] at hk
    obtain ⟨k₀, hk₀, rfl⟩ := List.mem_map.1 hk
    exact ⟨k₀, hk₀, hcolumns k₀⟩
  refine ⟨hring, ?_, fun email name hnone => ?_, fun k hk hu => ?_, fun k hk hu => ?_,
    fun v hv => ?_⟩
  · have hmap : w'.db.transitKeys.map (fun k => (k.ownerEmail, k.keyName)) =
        w.db.transitKeys.map fun k => (k.ownerEmail, k.keyName) := by
      rw [hf, List.map_map]
      refine List.map_congr_left fun k _ => ?_
      obtain ⟨t, ht⟩ := hcolumns k
      rw [Function.comp, ht]
    rw [hmap]
    exact hrec.names
  · rw [rotationCount_concat (hx email name)]
    refine hrec.absent email name (List.find?_eq_none.2 fun k hk => ?_)
    have hnot := List.find?_eq_none.1 hnone (f k) (hf ▸ List.mem_map_of_mem hk)
    obtain ⟨t, ht⟩ := hcolumns k
    rwa [ht] at hnot
  · obtain ⟨k₀, hk₀, t, rfl⟩ := hrow k hk
    rw [rotationCount_concat (hx _ _)]
    exact (hrec.encryption k₀ hk₀ hu).frame (hrows _) rfl rfl rfl
  · obtain ⟨k₀, hk₀, t, rfl⟩ := hrow k hk
    rw [hrows]
    exact hrec.signing k₀ hk₀ hu
  · rw [hversions] at hv
    obtain ⟨k, hk, hid⟩ := hrec.belongs v hv
    refine ⟨f k, hf ▸ List.mem_map_of_mem hk, ?_⟩
    obtain ⟨t, ht⟩ := hcolumns k
    rw [ht]
    exact hid

/-- A call that leaves the key tables. -/
theorem KeysRecorded.same (hrec : KeysRecorded h w) (hring : w'.db.KeyRing P)
    (hx : ∀ email name, isRotation email name x = false)
    (hkeys : w'.db.transitKeys = w.db.transitKeys)
    (hversions : w'.db.transitKeyVersions = w.db.transitKeyVersions) :
    KeysRecorded (h ++ [x]) w' :=
  hrec.frame hring hx ⟨id, by rw [hkeys, List.map_id], fun k => ⟨k.revokedAt, rfl⟩⟩ hversions

/-- A new key, under a name its owner has no key for. -/
theorem KeysRecorded.create (hrec : KeysRecorded h w) (hring : w'.db.KeyRing P)
    (hx : ∀ email name, isRotation email name x = false) {email name : T} {usage : KeyUsage}
    {dek : B} (habsent : w.db.findKey email name = none)
    (hdb : w'.db = w.db.keyCreate P e email name usage dek) : KeysRecorded (h ++ [x]) w' := by
  have hkeys : w'.db.transitKeys = w.db.transitKeys ++
      [newKey P e (e.rowid (w.db.transitKeys.map (·.id))) email name usage dek] := by
    rw [hdb]
    exact keyCreate_keys e email name usage dek
  have hold : ∀ k ∈ w.db.transitKeys, w'.db.keyRows k.id = w.db.keyRows k.id := by
    intro k hk
    rw [hdb]
    exact keyRows_keyCreate e email name usage dek hk
  refine ⟨hring, ?_, fun email' name' hf => ?_, fun k hk hu => ?_, fun k hk hu => ?_, ?_⟩
  · rw [hkeys]
    refine Table.nodup_concat hrec.names fun hmem => ?_
    obtain ⟨k, hk, heq⟩ := List.mem_map.1 hmem
    obtain ⟨howner, hname⟩ := Prod.mk.inj heq
    have hnot := List.find?_eq_none.1 habsent k hk
    rw [decide_eq_true_eq] at hnot
    exact hnot ⟨howner, hname⟩
  · rw [rotationCount_concat (hx email' name')]
    refine hrec.absent email' name' (List.find?_eq_none.2 fun k hk => ?_)
    exact List.find?_eq_none.1 hf k (hkeys ▸ List.mem_append_left _ hk)
  · rw [rotationCount_concat (hx _ _)]
    rw [hkeys, List.mem_append, List.mem_singleton] at hk
    rcases hk with hk | rfl
    · exact (hrec.encryption k hk hu).frame (hold k hk) rfl rfl rfl
    · cases usage with
      | encryptDecrypt =>
        have hcount : rotationCount email name h = 0 := hrec.absent email name habsent
        show w'.db.Mirrors _ (rotationCount email name h + 1)
        rw [hcount, hdb]
        exact mirrors_keyCreate hrec.belongs e email name dek
      | signVerify => cases hu
  · rw [hkeys, List.mem_append, List.mem_singleton] at hk
    rcases hk with hk | rfl
    · rw [hold k hk]
      exact hrec.signing k hk hu
    · cases usage with
      | encryptDecrypt => cases hu
      | signVerify =>
        rw [hdb]
        exact keyRows_keyCreate_self hrec.belongs e email name .signVerify dek
  · rw [hdb]
    exact belongs_keyCreate hrec.belongs e email name usage dek

/-- A rotation adds the next version and mirrors it. -/
theorem KeysRecorded.rotate (hrec : KeysRecorded h w) (hring : w'.db.KeyRing P)
    {email name : T} {key : TransitKey T} {dek : B} {d : Data T J}
    (hf : FindReady w.session email name (some .encryptDecrypt) key)
    (hdb : w'.db = w.db.keyRotate P e key email name dek) :
    KeysRecorded (h ++ [((e, .rotate email name), .ok d)]) w' := by
  obtain ⟨hmem, howner, hname⟩ := findKey_eq_some hf.found
  have husage := hf.usageOk _ rfl
  have hmirrors := hrec.encryption key hmem husage
  have hcurrent := hmirrors.current
  have hrow : ∀ k ∈ w'.db.transitKeys, (k ∈ w.db.transitKeys ∧ k.id ≠ key.id) ∨ k = rewrapped P e
      (keySealing P e email name (w.db.currentKeyNumber key.id + 1) dek) key := by
    rw [hdb]
    exact fun k hk => mem_keyRotate hrec.ring hmem hk
  have hother : ∀ k ∈ w.db.transitKeys, k.id ≠ key.id →
      w'.db.keyRows k.id = w.db.keyRows k.id ∧
        isRotation k.ownerEmail k.keyName ((e, .rotate email name), .ok d) = false := by
    intro k hk hid
    refine ⟨?_, decide_eq_false ?_⟩
    · rw [hdb]
      exact keyRows_add_other (w.db.updateKey key.id _) (Ne.symm hid)
    · rintro ⟨rfl, rfl⟩
      exact hid (by rw [Table.eq_of_key hrec.names hmem hk (Prod.ext howner hname)])
  refine ⟨hring, ?_, fun email' name' hnone => ?_, fun k hk hu => ?_, fun k hk hu => ?_,
    fun v hv => ?_⟩
  · have hmap : w'.db.transitKeys.map (fun k => (k.ownerEmail, k.keyName)) =
        w.db.transitKeys.map fun k => (k.ownerEmail, k.keyName) := by
      rw [hdb]
      exact Table.map_updated fun _ => rfl
    rw [hmap]
    exact hrec.names
  · rw [hdb, findKey_keyRotate, Option.map_eq_none_iff] at hnone
    have hx : isRotation email' name' ((e, .rotate email name), .ok d) = false := by
      refine decide_eq_false ?_
      rintro ⟨rfl, rfl⟩
      rw [show w.db.findKey email name = some key from hf.found] at hnone
      cases hnone
    rw [rotationCount_concat hx]
    exact hrec.absent email' name' hnone
  · rcases hrow k hk with ⟨hk, hid⟩ | rfl
    · obtain ⟨hrows, hx⟩ := hother k hk hid
      rw [rotationCount_concat hx]
      exact (hrec.encryption k hk hu).frame hrows rfl rfl rfl
    · show w'.db.Mirrors _ (rotationCount key.ownerEmail key.keyName _ + 1)
      rw [howner, hname] at hmirrors hcurrent ⊢
      rw [rotationCount_rotate, hdb]
      have hupdated : ∀ f, (w.db.updateKey key.id f).Mirrors key _ := fun f =>
        hmirrors.frame rfl rfl rfl rfl
      refine (hupdated _).add rfl rfl ?_ rfl rfl
      show w.db.currentKeyNumber key.id + 1 = _
      rw [hcurrent]
  · rcases hrow k hk with ⟨hk, hid⟩ | rfl
    · rw [(hother k hk hid).1]
      exact hrec.signing k hk hu
    · exact absurd (husage.symm.trans hu) (by decide)
  · have hids : w'.db.transitKeys.map (·.id) = w.db.transitKeys.map (·.id) := by
      rw [hdb]
      exact Table.map_updated fun _ => rfl
    have hvid : v.transitKeyId ∈ w'.db.transitKeys.map (·.id) := by
      rw [hids]
      rw [hdb] at hv
      rcases List.mem_append.1 hv with hv | hv
      · obtain ⟨k, hk, hid⟩ := hrec.belongs v hv
        exact hid ▸ List.mem_map_of_mem hk
      · rw [List.mem_singleton.1 hv]
        exact List.mem_map_of_mem hmem
    exact List.mem_map.1 hvid

/-- Every call keeps the key tables and the history together. -/
theorem KeysRecorded.step {c : Call T J} {r : Except Exc (Data T J)} (hrec : KeysRecorded h w)
    (hs : Step e w c r w') : KeysRecorded (h ++ [((e, c), r)]) w' := by
  have hring := hrec.ring.step hs
  cases hs with
  | createAes hc => exact hrec.create hring (fun _ _ => rfl) hc.absent (wrote_db _ _ _)
  | createSigning hc => exact hrec.create hring (fun _ _ => rfl) hc.absent (wrote_db _ _ _)
  | @revoke email name key hf =>
    refine hrec.frame hring (fun _ _ => rfl) ⟨_, rfl, fun k => ?_⟩ rfl
    by_cases hid : k.id = key.id
    · exact ⟨some e.now, by rw [if_pos hid]⟩
    · exact ⟨k.revokedAt, by rw [if_neg hid]⟩
  | rotate hf => exact hrec.rotate hring hf rfl
  | fail c y => exact hrec.same hring (fun _ _ => by cases c <;> rfl) rfl rfl
  | view d hc =>
    refine hrec.same hring (fun _ _ => ?_) rfl rfl
    cases c with
    | rotate => cases hc
    | _ => rfl
  | _ => exact hrec.same hring (fun _ _ => rfl) rfl rfl

/-- Along every run. -/
theorem keysRecorded_run (is : List (Env P × Call T J)) :
    KeysRecorded (World.initial.trace is) (World.initial.after is) :=
  Run.run_induction (I := KeysRecorded) keysRecorded_initial
    (fun _ w i hrec => hrec.step (step_of_call i.1 w i.2)) is

end Steps

/-! ## What the rows wrap -/

/-- Every row holds material that a call of the history drew, wrapped under `d` for the key it
    belongs to; a signing key also keeps the public key. -/
structure Database.Wraps (P : Prims T B J) (db : Database T) (h : History P) (d : B) : Prop where
  rows : ∀ v ∈ db.transitKeyVersions, ∀ k ∈ db.transitKeys, k.id = v.transitKeyId →
    ∃ i r, (i, r) ∈ h ∧ v = newKeyVersion P i.1 k.id v.version k.ownerEmail k.keyName d
  signing : ∀ k ∈ db.transitKeys, k.keyUsage = .signVerify → ∃ i r, (i, r) ∈ h ∧
    k.encryptedKeyMaterialB64 = cipherText P (keySealing P i.1 k.ownerEmail k.keyName 1 d) ∧
      k.keyNonceB64 = P.b64encode i.1.nonce ∧
        k.publicKeyB64 = some (P.b64encode (P.publicKey i.1.key))

section Wraps

variable {h : History P} {d : B}

omit [DecidableEq T] in
/-- A longer history, and rows that keep what is wrapped. -/
theorem Database.Wraps.frame {db db' : Database T} (hw : db.Wraps P h d)
    (x : (Env P × Call T J) × Except Exc (Data T J))
    (hversions : db'.transitKeyVersions = db.transitKeyVersions)
    (hkeys : ∀ k ∈ db'.transitKeys, ∃ k₀ ∈ db.transitKeys, ∃ t, k = { k₀ with revokedAt := t }) :
    db'.Wraps P (h ++ [x]) d := by
  refine ⟨fun v hv k hk hid => ?_, fun k hk hu => ?_⟩
  · rw [hversions] at hv
    obtain ⟨k₀, hk₀, t, rfl⟩ := hkeys k hk
    obtain ⟨i, r, hi, hrow⟩ := hw.rows v hv k₀ hk₀ hid
    exact ⟨i, r, List.mem_append_left _ hi, hrow⟩
  · obtain ⟨k₀, hk₀, t, rfl⟩ := hkeys k hk
    obtain ⟨i, r, hi, hrow⟩ := hw.signing k₀ hk₀ hu
    exact ⟨i, r, List.mem_append_left _ hi, hrow⟩

theorem Database.Wraps.create {w : World T B} {e : Env P} {c : Call T J} {email name : T}
    {usage : KeyUsage} (hw : w.db.Wraps P h d) (hrec : KeysRecorded h w)
    (r : Except Exc (Data T J)) :
    (w.db.keyCreate P e email name usage d).Wraps P (h ++ [((e, c), r)]) d := by
  have hfresh := e.rowid_fresh (w.db.transitKeys.map (·.id))
  have hlast : ((e, c), r) ∈ h ++ [((e, c), r)] := List.mem_append_right _ List.mem_cons_self
  refine ⟨fun v hv k hk hid => ?_, fun k hk hu => ?_⟩
  · rw [keyCreate_keys, List.mem_append, List.mem_singleton] at hk
    rw [keyCreate_versions] at hv
    have hold : v ∈ w.db.transitKeyVersions → ∃ i r', (i, r') ∈ h ++ [((e, c), r)] ∧
        v = newKeyVersion P i.1 k.id v.version k.ownerEmail k.keyName d := by
      intro hv
      rcases hk with hk | rfl
      · obtain ⟨i, r', hi, hrow⟩ := hw.rows v hv k hk hid
        exact ⟨i, r', List.mem_append_left _ hi, hrow⟩
      · obtain ⟨k₀, hk₀, hid₀⟩ := hrec.belongs v hv
        refine absurd ?_ hfresh
        rw [show e.rowid (w.db.transitKeys.map (·.id)) = k₀.id from hid.trans hid₀.symm]
        exact List.mem_map_of_mem hk₀
    cases usage with
    | encryptDecrypt =>
      rcases List.mem_append.1 hv with hv | hv
      · exact hold hv
      · rw [List.mem_singleton.1 hv] at hid ⊢
        rcases hk with hk | rfl
        · refine absurd ?_ hfresh
          rw [show e.rowid (w.db.transitKeys.map (·.id)) = k.id from hid.symm]
          exact List.mem_map_of_mem hk
        · exact ⟨(e, c), r, hlast, rfl⟩
    | signVerify => exact hold hv
  · rw [keyCreate_keys, List.mem_append, List.mem_singleton] at hk
    rcases hk with hk | rfl
    · obtain ⟨i, r', hi, hrow⟩ := hw.signing k hk hu
      exact ⟨i, r', List.mem_append_left _ hi, hrow⟩
    · cases usage with
      | encryptDecrypt => cases hu
      | signVerify => exact ⟨(e, c), r, hlast, rfl, rfl, rfl⟩

theorem Database.Wraps.rotate {w : World T B} {e : Env P} {c : Call T J} {email name : T}
    {key : TransitKey T} (hw : w.db.Wraps P h d) (hrec : KeysRecorded h w)
    (hf : FindReady w.session email name (some .encryptDecrypt) key)
    (r : Except Exc (Data T J)) :
    (w.db.keyRotate P e key email name d).Wraps P (h ++ [((e, c), r)]) d := by
  obtain ⟨hmem, howner, hname⟩ := findKey_eq_some hf.found
  refine ⟨fun v hv k hk hid => ?_, fun k hk hu => ?_⟩
  · rcases List.mem_append.1 hv with hv | hv
    · rcases mem_keyRotate hrec.ring hmem hk with ⟨hk, -⟩ | rfl
      · obtain ⟨i, r', hi, hv⟩ := hw.rows v hv k hk hid
        exact ⟨i, r', List.mem_append_left _ hi, hv⟩
      · obtain ⟨i, r', hi, hv⟩ := hw.rows v hv key hmem hid
        exact ⟨i, r', List.mem_append_left _ hi, hv⟩
    · rw [List.mem_singleton.1 hv] at hid ⊢
      rcases mem_keyRotate hrec.ring hmem hk with ⟨hk, hne⟩ | rfl
      · exact absurd hid hne
      · refine ⟨(e, c), r, List.mem_append_right _ List.mem_cons_self, ?_⟩
        show newKeyVersion P e key.id _ email name d =
          newKeyVersion P e key.id _ key.ownerEmail key.keyName d
        rw [howner, hname]
        rfl
  · rcases mem_keyRotate hrec.ring hmem hk with ⟨hk, -⟩ | rfl
    · obtain ⟨i, r', hi, hk⟩ := hw.signing k hk hu
      exact ⟨i, r', List.mem_append_left _ hi, hk⟩
    · exact absurd ((hf.usageOk _ rfl).symm.trans hu) (by decide)

/-- There are no keys without a data key, and with one, all are wrapped under it. -/
def KeysWrapped (h : History P) (w : World T B) : Prop :=
  (w.Unkeyed ∧ w.db.transitKeys = [] ∧ w.db.transitKeyVersions = []) ∨
    ∃ d, w.Keyed P d ∧ w.db.Wraps P h d

variable {e : Env P} {w w' : World T B} {c : Call T J} {r : Except Exc (Data T J)}

/-- While the vault is locked, the key tables do not change. -/
theorem Step.locked_keys (hs : Step e w c r w') (hlocked : w.dek = none) :
    w'.db.transitKeys = w.db.transitKeys ∧
      w'.db.transitKeyVersions = w.db.transitKeyVersions := by
  cases hs with
  | createAes hc => exact absurd (hlocked.symm.trans hc.unlocked) (by simp)
  | createSigning hc => exact absurd (hlocked.symm.trans hc.unlocked) (by simp)
  | revoke hf =>
    obtain ⟨k, hk⟩ := hf.unlocked
    exact absurd (hlocked.symm.trans hk) (by simp)
  | rotate _ hd => exact absurd (hlocked.symm.trans hd) (by simp)
  | _ => exact ⟨rfl, rfl⟩

theorem Database.Wraps.step (hw : w.db.Wraps P h d) (hk : w.Keyed P d) (hrec : KeysRecorded h w)
    (hs : Step e w c r w') : w'.db.Wraps P (h ++ [((e, c), r)]) d := by
  have hsame : ∀ k ∈ w.db.transitKeys, ∃ k₀ ∈ w.db.transitKeys, ∃ t,
      k = { k₀ with revokedAt := t } := fun k hk => ⟨k, hk, k.revokedAt, rfl⟩
  cases hs with
  | createAes hc =>
    rw [wrote_db, hk.loaded _ hc.unlocked]
    exact hw.create hrec _
  | createSigning hc =>
    rw [wrote_db, hk.loaded _ hc.unlocked]
    exact hw.create hrec _
  | @revoke email name key hf =>
    refine hw.frame _ rfl fun k hmem => ?_
    obtain ⟨k₀, hk₀, rfl⟩ := List.mem_map.1 hmem
    by_cases hid : k₀.id = key.id
    · exact ⟨k₀, hk₀, some e.now, by rw [if_pos hid]⟩
    · exact ⟨k₀, hk₀, k₀.revokedAt, by rw [if_neg hid]⟩
  | rotate hf hd =>
    rw [wrote_db, hk.loaded _ hd]
    exact hw.rotate hrec hf _
  | _ => exact hw.frame _ rfl hsame

theorem KeysWrapped.step (hP : P.Lawful) (hw : KeysWrapped h w) (hrec : KeysRecorded h w)
    (hs : Step e w c r w') : KeysWrapped (h ++ [((e, c), r)]) w' := by
  rcases hw with ⟨hu, hkeys, hversions⟩ | ⟨d, hk, hw⟩
  · obtain ⟨hkeys', hversions'⟩ := hs.locked_keys hu.2
    rw [hkeys] at hkeys'
    rw [hversions] at hversions'
    refine (hu.step hs).imp (fun hu => ⟨hu, hkeys', hversions'⟩) fun hk => ⟨_, hk, ?_, ?_⟩
    · rw [hversions']
      rintro v ⟨⟩
    · rw [hkeys']
      rintro k ⟨⟩
  · exact .inr ⟨d, hk.step hP.unlocks hs, hw.step hk hrec hs⟩

/-- Along every run. -/
theorem keysWrapped_run (hP : P.Lawful) (is : List (Env P × Call T J)) :
    KeysWrapped (World.initial.trace is) (World.initial.after is) := by
  refine (Run.run_induction (I := fun h w => KeysRecorded h w ∧ KeysWrapped h w) ?_ ?_ is).2
  · exact ⟨keysRecorded_initial, .inl ⟨⟨rfl, rfl⟩, rfl, rfl⟩⟩
  · rintro h w i ⟨hrec, hw⟩
    have hs := step_of_call i.1 w i.2
    exact ⟨hrec.step hs, hw.step hP hrec hs⟩

omit [DecidableEq T] in
/-- A row opens to the material it was made from. -/
theorem open_keySealing (hP : P.Lawful) (hd : aesKeyOk P d = true) (e : Env P) (email name : T)
    (n : Nat) : TransitService.openMaterial P d (P.b64encode e.nonce)
      (cipherText P (keySealing P e email name n d)) (keyAad P email name n) = .ok e.key := by
  unfold TransitService.openMaterial cipherText
  rw [b64d_eq_ok.2 (hP.b64decode_b64encode _), b64d_eq_ok.2 (hP.b64decode_b64encode _)]
  exact decrypt_encrypt hP.correct hd e _ _

end Wraps

/-! ## The key ring -/

/-- Every operation that reports a version of the encryption key reports `n`, and a rotation the
    next one. -/
structure World.Reports (P : Prims T B J) (w : World T B) (k : TransitKey T) (n : Nat) : Prop where
  get : w.dek ≠ none → k.revokedAt = none → ∀ e : Env P,
    (w.call (e, (.keyGet k.ownerEmail k.keyName : Call T J))).1 =
      .ok (.key (TransitService.metadata P false k n))
  list : w.dek ≠ none → k.revokedAt = none → ∀ e : Env P,
    ∃ ms, (w.call (e, (.keyList k.ownerEmail : Call T J))).1 = .ok (.keys ms) ∧
      TransitService.metadata P false k n ∈ ms ∧
        ∀ m ∈ ms, m.keyName = k.keyName → m = TransitService.metadata P false k n
  rotate : ∀ (e : Env P) m,
    (w.call (e, (.rotate k.ownerEmail k.keyName : Call T J))).1 = .ok (.key m) →
      m.currentVersion = n + 1
  encrypt : ∀ (e : Env P) plaintextB64 c,
    (w.call (e, (.encrypt k.ownerEmail k.keyName plaintextB64 : Call T J))).1 =
      .ok (.ciphertext c) → ∃ blob, c = envelope P n k.keyName blob

theorem KeysRecorded.reports {h : History P} {w : World T B} (hrec : KeysRecorded h w)
    {k : TransitKey T} (hk : k ∈ w.db.transitKeys) {n : Nat} (hn : w.db.currentKeyNumber k.id = n) :
    w.Reports P k n := by
  have hfound := hrec.findKey hk
  refine ⟨fun hd hlive e => ?_, fun hd hlive e => ?_, fun e m hm => ?_, fun e x c hc => ?_⟩
  · have hready : FindReady w.session k.ownerEmail k.keyName none k :=
      ⟨Option.ne_none_iff_exists'.1 hd, hfound, hlive, by rintro _ ⟨⟩⟩
    rw [call_eq (c := Call.keyGet k.ownerEmail k.keyName) rfl (keyGet_of_ready hready e), ← hn]
    rfl
  · obtain ⟨dek, hdek⟩ := Option.ne_none_iff_exists'.1 hd
    refine ⟨w.db.keyList P k.ownerEmail, ?_, ?_, ?_⟩
    · rw [call_eq (c := Call.keyList k.ownerEmail) rfl
        (keyList_apply (s := w.session) hdek k.ownerEmail e)]
      rfl
    · rw [← hn]
      exact List.mem_map.2 ⟨k, List.mem_filter.2 ⟨hk, decide_eq_true ⟨rfl, hlive⟩⟩, rfl⟩
    · intro m hm hname
      obtain ⟨k', hk', rfl⟩ := List.mem_map.1 hm
      obtain ⟨hmem, howner⟩ := List.mem_filter.1 hk'
      rw [decide_eq_true_eq] at howner
      have heq : k' = k := Table.eq_of_key hrec.names hmem hk (Prod.ext howner.1 hname)
      rw [heq, hn]
  · have hs := step_of_call e w (.rotate k.ownerEmail k.keyName : Call T J)
    rw [hm] at hs
    generalize (w.call (e, .rotate k.ownerEmail k.keyName)).2 = w' at hs
    cases hs with
    | view _ hc => cases hc
    | @rotate _ _ key _ hf =>
      have heq : key = k := Option.some.inj (hf.found.symm.trans hfound)
      subst heq
      show (TransitService.metadata P false key _).currentVersion = n + 1
      rw [← hn]
      exact currentKeyNumber_keyRotate w.db e key _ _ _
  · obtain ⟨hr, henv, -⟩ := encrypt_call_eq_ok (Prod.ext hc rfl)
    have heq : hr.key = k := Option.some.inj (hr.ready.found.symm.trans hfound)
    rw [heq, hn] at henv
    exact ⟨_, henv⟩

/-- **The key ring.** After any run: an owner has one key of a name; a version row belongs to a
    key; a signing key has no version rows, and its public key is that of the private key it
    wraps; an encryption key has versions numbered from one without gaps, one more than there
    were rotations of it, its own row mirrors the newest, and every operation reports it. -/
theorem key_ring (hP : P.Lawful) (is : List (Env P × Call T J)) :
    let w : World T B := World.initial.after is
    let h : History P := (World.initial : World T B).trace is
    (w.db.transitKeys.map fun k => (k.ownerEmail, k.keyName)).Nodup ∧
      (∀ v ∈ w.db.transitKeyVersions, ∃ k ∈ w.db.transitKeys, k.id = v.transitKeyId) ∧
      (∀ k ∈ w.db.transitKeys, k.keyUsage = .signVerify →
        w.db.keyRows k.id = [] ∧ ∃ d m, w.Keyed P d ∧
          TransitService.openMaterial P d k.keyNonceB64 k.encryptedKeyMaterialB64
            (keyAad P k.ownerEmail k.keyName 1) = .ok m ∧
          k.publicKeyB64 = some (P.b64encode (P.publicKey m))) ∧
      ∀ k ∈ w.db.transitKeys, k.keyUsage = .encryptDecrypt →
        w.db.Mirrors k (rotationCount k.ownerEmail k.keyName h + 1) ∧
          w.Reports P k (rotationCount k.ownerEmail k.keyName h + 1) := by
  intro w h
  have hrec : KeysRecorded h w := keysRecorded_run is
  refine ⟨hrec.names, hrec.belongs, fun k hk hu => ⟨hrec.signing k hk hu, ?_⟩, fun k hk hu => ?_⟩
  · rcases keysWrapped_run (B := B) hP is with ⟨-, hkeys, -⟩ | ⟨d, hkeyed, hwraps⟩
    · rw [hkeys] at hk
      cases hk
    · obtain ⟨i, r, -, hmaterial, hnonce, hpublic⟩ := hwraps.signing k hk hu
      refine ⟨d, i.1.key, hkeyed, ?_, hpublic⟩
      rw [hmaterial, hnonce]
      exact open_keySealing hP hkeyed.keyOk i.1 _ _ 1
  · have hmirrors := hrec.encryption k hk hu
    exact ⟨hmirrors, hrec.reports hk hmirrors.current⟩

namespace Sample

/-- An encryption key is made and rotated, a signing key is made, and the vault is locked. -/
def ringCalls : List SampleCall :=
  opening ++ [(env 3, .createAes alice keyName), (env 4, .rotate alice keyName),
    (env 5, .createSigning alice otherName), (env 6, .vaultLock)]

end Sample

open Sample in
theorem key_ring_sample :
    ∃ k ∈ (World.initial.after ringCalls : World Text Bytes).db.transitKeys,
      k.keyName = keyName ∧ (World.initial.after ringCalls).db.Mirrors k 2 ∧
        (World.initial.after ringCalls).Reports (concrete lib) k 2 := by
  obtain ⟨-, -, -, hring⟩ := key_ring (concrete_lawful aesgcm_correct aesgcm_keyBound) ringCalls
  obtain ⟨k, hk, hname, husage, hcount⟩ :
      ∃ k ∈ (World.initial.after ringCalls : World Text Bytes).db.transitKeys,
        k.keyName = keyName ∧ k.keyUsage = .encryptDecrypt ∧
          rotationCount k.ownerEmail k.keyName (World.initial.trace ringCalls) + 1 = 2 := by
    decide +kernel
  rw [← hcount]
  exact ⟨k, hk, hname, hring k hk husage⟩

end MiniVault
