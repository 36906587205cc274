/-
  The key tables in every reachable state: distinct ids, checked names, a first version for
  every encryption key. A version row, once written, answers for its version from then on.
-/
import MiniVault.Kit.Table
import MiniVault.Service.Dek

namespace MiniVault

open Kit

variable {T B J : Type} {P : Prims T B J} [DecidableEq T]

/-! ## Queries -/

theorem findKey_eq_some {db : Database T} {email name : T} {key : TransitKey T}
    (h : db.findKey email name = some key) :
    key ∈ db.transitKeys ∧ key.ownerEmail = email ∧ key.keyName = name := by
  have hkey := List.find?_some h
  simp only [decide_eq_true_eq] at hkey
  exact ⟨List.mem_of_find?_eq_some h, hkey⟩

omit [DecidableEq T] in
theorem keyVersion_eq_some {db : Database T} {id n : Nat} {v : TransitKeyVersion T}
    (h : db.keyVersion id n = some v) :
    v ∈ db.transitKeyVersions ∧ v.transitKeyId = id ∧ v.version = n := by
  have hv := List.find?_some h
  simp only [decide_eq_true_eq] at hv
  exact ⟨List.mem_of_find?_eq_some h, hv⟩

omit [DecidableEq T] in
/-- The current version of a key with a version row `v` is a row of that key, not below `v`. -/
theorem currentKeyVersion_of_row (db : Database T) {id : Nat} {v : TransitKeyVersion T}
    (hv : v ∈ db.transitKeyVersions) (hid : v.transitKeyId = id) :
    ∃ c ∈ db.transitKeyVersions, c.transitKeyId = id ∧ db.currentKeyNumber id = c.version ∧
      v.version ≤ c.version := by
  have hmem : v ∈ db.transitKeyVersions.filter (·.transitKeyId = id) :=
    List.mem_filter.2 ⟨hv, decide_eq_true hid⟩
  rcases h : db.currentKeyVersion id with _ | c
  · rw [List.argmax_eq_none.1 h] at hmem
    cases hmem
  · have hc := List.mem_filter.1 (List.argmax_mem h)
    have hnum : db.currentKeyNumber id = c.version := by
      rw [Database.currentKeyNumber, h]
      rfl
    exact ⟨c, hc.1, of_decide_eq_true hc.2, hnum, List.le_of_mem_argmax hmem h⟩

omit [DecidableEq T] in
/-- Where a key has version rows, the current version is the number of one of them. -/
theorem keyVersion_current {db : Database T} {id : Nat} {v : TransitKeyVersion T}
    (hv : v ∈ db.transitKeyVersions) (hid : v.transitKeyId = id) :
    ∃ c, db.keyVersion id (db.currentKeyNumber id) = some c := by
  obtain ⟨c, hc, hcid, hnum, -⟩ := currentKeyVersion_of_row db hv hid
  refine Option.isSome_iff_exists.1 (List.find?_isSome.2 ⟨c, hc, ?_⟩)
  exact decide_eq_true ⟨hcid, hnum.symm⟩

omit [DecidableEq T] in
theorem currentKeyNumber_of_none {db : Database T} {id : Nat}
    (h : db.keyVersion id (db.currentKeyNumber id) = none) : db.currentKeyNumber id = 1 := by
  rcases hc : db.currentKeyVersion id with _ | c
  · rw [Database.currentKeyNumber, hc]
    rfl
  · obtain ⟨hmem, hid⟩ := List.mem_filter.1 (List.argmax_mem hc)
    obtain ⟨v, hv⟩ := keyVersion_current hmem (of_decide_eq_true hid)
    cases h.symm.trans hv

omit [DecidableEq T] in
theorem one_le_currentKeyNumber {db : Database T}
    (h : ∀ v ∈ db.transitKeyVersions, 1 ≤ v.version) (id : Nat) : 1 ≤ db.currentKeyNumber id := by
  unfold Database.currentKeyNumber
  rcases hc : db.currentKeyVersion id with _ | c
  · exact le_rfl
  · exact h c (List.mem_filter.1 (List.argmax_mem hc)).1

omit [DecidableEq T] in
/-- A new version row does not lower the current version of any key. -/
theorem currentKeyNumber_le_add (db : Database T) {v : TransitKeyVersion T}
    (h : ∀ x ∈ (db.addKeyVersion v).transitKeyVersions, 1 ≤ x.version) (id : Nat) :
    db.currentKeyNumber id ≤ (db.addKeyVersion v).currentKeyNumber id := by
  rcases hc : db.currentKeyVersion id with _ | c
  · rw [Database.currentKeyNumber, hc]
    exact one_le_currentKeyNumber h id
  · have hmem := List.mem_filter.1 (List.argmax_mem hc)
    obtain ⟨d, -, -, hnum, hle⟩ := currentKeyVersion_of_row (db.addKeyVersion v)
      (List.mem_append_left _ hmem.1) (of_decide_eq_true hmem.2)
    rw [Database.currentKeyNumber, hc, hnum]
    exact hle

omit [DecidableEq T] in
/-- A row above the current version of its key becomes the current version. -/
theorem currentKeyNumber_add (db : Database T) {v : TransitKeyVersion T}
    (h : db.currentKeyNumber v.transitKeyId < v.version) :
    (db.addKeyVersion v).currentKeyNumber v.transitKeyId = v.version := by
  obtain ⟨c, hc, hid, hnum, hle⟩ := currentKeyVersion_of_row (db.addKeyVersion v)
    (List.mem_append_right _ List.mem_cons_self) rfl
  rcases List.mem_append.1 hc with hc | hc
  · obtain ⟨d, -, -, hd, hcd⟩ := currentKeyVersion_of_row db hc hid
    omega
  · rw [hnum, List.mem_singleton.1 hc]

/-! ## The ring -/

/-- What holds of the key tables. -/
structure Database.KeyRing (P : Prims T B J) (db : Database T) : Prop where
  ids : (db.transitKeys.map (·.id)).Nodup
  named : ∀ k ∈ db.transitKeys, P.validateKeyName k.keyName = .ok ()
  first : ∀ k ∈ db.transitKeys, k.keyUsage = .encryptDecrypt →
    ∃ v ∈ db.transitKeyVersions, v.transitKeyId = k.id ∧ v.version = 1
  versions : ∀ v ∈ db.transitKeyVersions, 1 ≤ v.version ∧ v.version < 2 ^ 63

section Ring

omit [DecidableEq T]

variable {db : Database T}

theorem Database.KeyRing.addKeyVersion (h : db.KeyRing P) {v : TransitKeyVersion T}
    (hv : 1 ≤ v.version ∧ v.version < 2 ^ 63) : (db.addKeyVersion v).KeyRing P where
  ids := h.ids
  named := h.named
  first k hk hu := by
    obtain ⟨v₁, hv₁, hfirst⟩ := h.first k hk hu
    exact ⟨v₁, List.mem_append_left _ hv₁, hfirst⟩
  versions x hx := by
    rcases List.mem_append.1 hx with hx | hx
    · exact h.versions x hx
    · rwa [List.mem_singleton.1 hx]

theorem Database.KeyRing.updateKey (h : db.KeyRing P) {id : Nat}
    {f : TransitKey T → TransitKey T} (hid : ∀ k, (f k).id = k.id)
    (hname : ∀ k, (f k).keyName = k.keyName) (husage : ∀ k, (f k).keyUsage = k.keyUsage) :
    (db.updateKey id f).KeyRing P := by
  have hrow : ∀ k ∈ (db.updateKey id f).transitKeys, ∃ k₀ ∈ db.transitKeys,
      k.id = k₀.id ∧ k.keyName = k₀.keyName ∧ k.keyUsage = k₀.keyUsage := by
    intro k hk
    obtain ⟨k₀, hk₀, rfl⟩ := List.mem_map.1 hk
    exact ⟨k₀, hk₀, Table.updated_eq hid k₀, Table.updated_eq hname k₀,
      Table.updated_eq husage k₀⟩
  refine ⟨?_, fun k hk => ?_, fun k hk hu => ?_, h.versions⟩
  · have hmap : (db.updateKey id f).transitKeys.map (·.id) = db.transitKeys.map (·.id) :=
      Table.map_updated hid
    rw [hmap]
    exact h.ids
  · obtain ⟨k₀, hk₀, -, hn, -⟩ := hrow k hk
    rw [hn]
    exact h.named k₀ hk₀
  · obtain ⟨k₀, hk₀, hi, -, hu₀⟩ := hrow k hk
    rw [hi]
    exact h.first k₀ hk₀ (hu₀ ▸ hu)

theorem keyCreate_keys (e : Env P) (email name : T) (usage : KeyUsage) (dek : B) :
    (db.keyCreate P e email name usage dek).transitKeys =
      db.transitKeys ++
        [newKey P e (e.rowid (db.transitKeys.map (·.id))) email name usage dek] := by
  cases usage <;> rfl

theorem keyCreate_versions (e : Env P) (email name : T) (usage : KeyUsage) (dek : B) :
    (db.keyCreate P e email name usage dek).transitKeyVersions =
      match usage with
      | .encryptDecrypt =>
        db.transitKeyVersions ++
          [newKeyVersion P e (e.rowid (db.transitKeys.map (·.id))) 1 email name dek]
      | .signVerify => db.transitKeyVersions := by
  cases usage <;> rfl

theorem Database.KeyRing.keyCreate (h : db.KeyRing P) (e : Env P) (email : T) {name : T}
    (usage : KeyUsage) (dek : B) (hname : P.validateKeyName name = .ok ()) :
    (db.keyCreate P e email name usage dek).KeyRing P := by
  have hsub : ∀ v ∈ db.transitKeyVersions,
      v ∈ (db.keyCreate P e email name usage dek).transitKeyVersions := by
    intro v hv
    rw [keyCreate_versions]
    cases usage with
    | encryptDecrypt => exact List.mem_append_left _ hv
    | signVerify => exact hv
  refine ⟨?_, fun k hk => ?_, fun k hk hu => ?_, fun v hv => ?_⟩
  · rw [keyCreate_keys]
    exact Table.nodup_concat h.ids (e.rowid_fresh _)
  · rw [keyCreate_keys, List.mem_append, List.mem_singleton] at hk
    rcases hk with hk | rfl
    · exact h.named k hk
    · exact hname
  · rw [keyCreate_keys, List.mem_append, List.mem_singleton] at hk
    rcases hk with hk | rfl
    · obtain ⟨v, hv, hfirst⟩ := h.first k hk hu
      exact ⟨v, hsub v hv, hfirst⟩
    · cases usage with
      | encryptDecrypt =>
        exact ⟨_, by rw [keyCreate_versions]; exact List.mem_append_right _ List.mem_cons_self,
          rfl, rfl⟩
      | signVerify => cases hu
  · rw [keyCreate_versions] at hv
    cases usage with
    | encryptDecrypt =>
      rcases List.mem_append.1 hv with hv | hv
      · exact h.versions v hv
      · rw [List.mem_singleton.1 hv]
        exact ⟨Nat.le_refl 1, show 1 < 2 ^ 63 by decide⟩
    | signVerify => exact h.versions v hv

/-- What a rotation writes into the key row. -/
def rewrapped (P : Prims T B J) (e : Env P) (x : Sealing B) (k : TransitKey T) : TransitKey T :=
  { k with encryptedKeyMaterialB64 := cipherText P x, keyNonceB64 := P.b64encode e.nonce }

/-- A rotation leaves the columns that `_find` looks at. -/
theorem updated_rewrapped (id : Nat) (e : Env P) (x : Sealing B) (k : TransitKey T) :
    (Table.updated (·.id) id (rewrapped P e x) k).id = k.id ∧
      (Table.updated (·.id) id (rewrapped P e x) k).keyUsage = k.keyUsage ∧
        (Table.updated (·.id) id (rewrapped P e x) k).revokedAt = k.revokedAt := by
  unfold Table.updated
  split
  · exact ⟨rfl, rfl, rfl⟩
  · exact ⟨rfl, rfl, rfl⟩

end Ring

/-! ## Key queries after updates -/

section Queries

variable (db : Database T) (email name : T)

/-- A key query after an update of columns it does not look at. -/
theorem findKey_updateKey {id : Nat} {f : TransitKey T → TransitKey T}
    (howner : ∀ k, (f k).ownerEmail = k.ownerEmail) (hname : ∀ k, (f k).keyName = k.keyName) :
    (db.updateKey id f).findKey email name =
      (db.findKey email name).map (Table.updated (·.id) id f) :=
  Table.find?_updated fun k => by rw [howner, hname]

theorem findKey_keyRevoke (id : Nat) (now : Time) :
    (db.keyRevoke id now).findKey email name =
      (db.findKey email name).map
        (Table.updated (·.id) id fun k => { k with revokedAt := some now }) :=
  findKey_updateKey db email name (fun _ => rfl) fun _ => rfl

theorem findKey_keyRotate (e : Env P) (k : TransitKey T) (email' name' : T) (dek : B) :
    (db.keyRotate P e k email' name' dek).findKey email name =
      (db.findKey email name).map
        (Table.updated (·.id) k.id
          (rewrapped P e (keySealing P e email' name' (db.currentKeyNumber k.id + 1) dek))) :=
  findKey_updateKey db email name (fun _ => rfl) fun _ => rfl

end Queries

theorem Database.KeyRing.step {e : Env P} {w w' : World T B} {c : Call T J}
    {r : Except Exc (Data T J)} (h : w.db.KeyRing P) (hs : Step e w c r w') :
    w'.db.KeyRing P := by
  cases hs with
  | createAes hc =>
    rw [wrote_db]
    exact h.keyCreate e _ _ _ hc.valid
  | createSigning hc =>
    rw [wrote_db]
    exact h.keyCreate e _ _ _ hc.valid
  | revoke => exact h.updateKey (fun _ => rfl) (fun _ => rfl) fun _ => rfl
  | rotate hf hd hv =>
    rw [wrote_db]
    refine Database.KeyRing.addKeyVersion ?_ ⟨Nat.le_add_left _ _, hv⟩
    exact h.updateKey (fun _ => rfl) (fun _ => rfl) fun _ => rfl
  | kvCreate => exact ⟨h.ids, h.named, h.first, h.versions⟩
  | kvUpdate => exact ⟨h.ids, h.named, h.first, h.versions⟩
  | kvDelete => exact ⟨h.ids, h.named, h.first, h.versions⟩
  | vaultInit => exact ⟨h.ids, h.named, h.first, h.versions⟩
  | restart => exact ⟨h.ids, h.named, h.first, h.versions⟩
  | _ => exact h

theorem Database.KeyRing.after {w : World T B} (h : w.db.KeyRing P)
    (is : List (Env P × Call T J)) : (w.after is).db.KeyRing P :=
  Run.invariant_final (I := fun w : World T B => w.db.KeyRing P) h
    (fun w i h => h.step (step_of_call i.1 w i.2)) is

omit [DecidableEq T] in
theorem keyRing_initial : (World.initial : World T B).db.KeyRing P :=
  ⟨List.nodup_nil, by rintro _ ⟨⟩, by rintro _ ⟨⟩, by rintro _ ⟨⟩⟩

end MiniVault
