/-
  Tampering with wrapped keys. Whoever overwrites key ciphertexts in the database, with texts of
  any other row, gets `_material` to return the material drawn for that owner, name and version,
  or to fail.
-/
import MiniVault.Model.Sample
import MiniVault.Tamper.Aad
import MiniVault.Tamper.Log

namespace MiniVault

open Kit

variable {T B J : Type} {P : Prims T B J}

/-! ## The attack -/

/-- `db'` is `db` with other ciphertext and nonce texts in its key rows. -/
structure Database.KeyTampered (db db' : Database T) : Prop where
  keys : List.Forall₂
    (fun k k' => ∃ m n, k' = { k with encryptedKeyMaterialB64 := m, keyNonceB64 := n })
    db.transitKeys db'.transitKeys
  versions : List.Forall₂
    (fun v v' => ∃ m n, v' = { v with encryptedKeyMaterialB64 := m, keyNonceB64 := n })
    db.transitKeyVersions db'.transitKeyVersions
  rest : db' = { db with
    transitKeys := db'.transitKeys, transitKeyVersions := db'.transitKeyVersions }

/-- Overwriting the key rows, each by two texts of the attacker's choice. -/
def Database.overwriteKeys (db : Database T) (f : TransitKey T → T × T)
    (g : TransitKeyVersion T → T × T) : Database T :=
  { db with
    transitKeys := db.transitKeys.map fun k =>
      { k with encryptedKeyMaterialB64 := (f k).1, keyNonceB64 := (f k).2 }
    transitKeyVersions := db.transitKeyVersions.map fun v =>
      { v with encryptedKeyMaterialB64 := (g v).1, keyNonceB64 := (g v).2 } }

theorem keyTampered_overwriteKeys (db : Database T) (f : TransitKey T → T × T)
    (g : TransitKeyVersion T → T × T) : db.KeyTampered (db.overwriteKeys f g) where
  keys := List.forall₂_map_right_iff.2 (List.forall₂_same.2 fun _ _ => ⟨_, _, rfl⟩)
  versions := List.forall₂_map_right_iff.2 (List.forall₂_same.2 fun _ _ => ⟨_, _, rfl⟩)
  rest := rfl

/-- A nonce text and a ciphertext text are no forgery: they open under `d` only if they were made
    by an encryption of the log, under the same associated data. -/
def Unforged (P : Prims T B J) (log : List (Sealing B)) (d : B) (nonceB64 textB64 : T) : Prop :=
  ∀ n c a, P.b64decode nonceB64 = some n → P.b64decode textB64 = some c →
    P.aesgcm.Genuine log d n c a

/-- No wrapped key of the database is a forgery. -/
structure Database.KeysUnforged (P : Prims T B J) (log : List (Sealing B)) (d : B)
    (db : Database T) : Prop where
  keys : ∀ k ∈ db.transitKeys, Unforged P log d k.keyNonceB64 k.encryptedKeyMaterialB64
  versions : ∀ v ∈ db.transitKeyVersions, Unforged P log d v.keyNonceB64 v.encryptedKeyMaterialB64

/-! ## What `_material` can return -/

/-- A text that opens was made by an encryption of the log. -/
theorem Unforged.mem {log : List (Sealing B)} {d m : B} {nonceB64 textB64 aad : T}
    (h : Unforged P log d nonceB64 textB64)
    (hopen : TransitService.openMaterial P d nonceB64 textB64 aad = .ok m) :
    ∃ n, (⟨d, n, m, P.encode aad⟩ : Sealing B) ∈ log := by
  obtain ⟨n, hn, hopen⟩ := Imp.except_bind_eq_ok.1 hopen
  obtain ⟨c, hc, hdec⟩ := Imp.except_bind_eq_ok.1 hopen
  exact ⟨n, (h n c _ (b64d_eq_ok.1 hn) (b64d_eq_ok.1 hc) m (decrypt_eq_ok.1 hdec).2.2).1⟩

theorem recordAsked_mem {db : Database T} {key : TransitKey T} {version : Option Nat}
    {r : TransitKeyVersion T} (h : db.recordAsked key version = some r) :
    r ∈ db.transitKeyVersions := by
  rcases version with _ | k
  · rcases hu : key.keyUsage with _ | _
    · have hc : db.currentKeyVersion key.id = some r := by
        simpa only [Database.recordAsked, hu] using h
      exact (List.mem_filter.1 (List.argmax_mem hc)).1
    · simp [Database.recordAsked, hu] at h
  · exact (keyVersion_eq_some h).1

theorem currentKeyNumber_lt {db : Database T}
    (h : ∀ v ∈ db.transitKeyVersions, v.version < 2 ^ 63) (id : Nat) :
    db.currentKeyNumber id < 2 ^ 63 := by
  unfold Database.currentKeyNumber
  rcases hc : db.currentKeyVersion id with _ | c
  · exact show 1 < 2 ^ 63 by decide
  · exact h c (List.mem_filter.1 (List.argmax_mem hc)).1

theorem versionAsked_lt {db : Database T} (h : ∀ v ∈ db.transitKeyVersions, v.version < 2 ^ 63)
    {key : TransitKey T} {version : Option Nat} (hv : ∀ k, version = some k → k < 2 ^ 63) :
    db.versionAsked key version < 2 ^ 63 := by
  rcases version with _ | k
  · unfold Database.versionAsked
    rcases key.keyUsage with _ | _
    · exact currentKeyNumber_lt h key.id
    · exact show 1 < 2 ^ 63 by decide
  · exact hv k rfl

/-- What `_material` returns was encrypted for the owner, name and version it was asked for. -/
theorem material_mem {log : List (Sealing B)} {d m : B} {db : Database T} {key : TransitKey T}
    {version : Option Nat} (hdb : db.KeysUnforged P log d) (hkey : key ∈ db.transitKeys)
    (hm : db.material P d key version = .ok m) :
    ∃ n, (⟨d, n, m, P.encode (keyAad P key.ownerEmail key.keyName (db.versionAsked key version))⟩ :
      Sealing B) ∈ log := by
  have hopen := (material_eq_ok.1 hm).2
  unfold openRecord at hopen
  rcases hr : db.recordAsked key version with _ | r
  · rw [hr] at hopen
    exact (hdb.keys key hkey).mem hopen
  · rw [hr] at hopen
    exact (hdb.versions r (recordAsked_mem hr)).mem hopen

/-- However the wrapped keys of a reachable database are overwritten, short of forgery, what
    `_material` returns is the one material that was drawn for the owner, name and version. -/
theorem material_tampered {F : Type} (L : Lib F)
    (is : List (Env (concrete L) × Call Text (Json.Value F)))
    (hcolon : ∀ i ∈ is, ∀ email, i.2.email? = some email → ':' ∉ email)
    (db : Database Text) (ht : (World.initial.after is).db.KeyTampered db) (d : Bytes)
    (hd : (World.initial.after is).dek = some d)
    (hunforged : db.KeysUnforged (concrete L) (World.initial.after is).sealings d)
    (key : TransitKey Text) (hkey : key ∈ db.transitKeys) (version : Option Nat)
    (e : Env (concrete L)) (m : Bytes)
    (hm : (TransitService.material key version e
      { World.initial.after is with db := db }.session).1 = .ok m) :
    Generated (World.initial.trace is) key.ownerEmail key.keyName (db.versionAsked key version) m ∧
      ∀ m', Generated (World.initial.trace is) key.ownerEmail key.keyName
        (db.versionAsked key version) m' → m' = m := by
  have hrec := recorded_run is
  rw [material_apply hd] at hm
  obtain ⟨n, hmem⟩ := material_mem hunforged hkey hm
  obtain ⟨k₀, hk₀, t₁, t₂, hrow⟩ := Table.exists_of_forall₂ ht.keys hkey
  have howner : ':' ∉ key.ownerEmail := by
    obtain ⟨i, r, hi, hemail⟩ := hrec.owners k₀ hk₀
    rw [hrow]
    exact hcolon i (Run.mem_of_mem_trace hi) _ hemail
  have hname : ':' ∉ key.keyName := by
    rw [hrow]
    exact (keyName_ne (hrec.ring.named k₀ hk₀)).2
  have hversions : ∀ v ∈ db.transitKeyVersions, v.version < 2 ^ 63 := by
    intro v hv
    obtain ⟨v₀, hv₀, s₁, s₂, hv⟩ := Table.exists_of_forall₂ ht.versions hv
    rw [hv]
    exact (hrec.ring.versions v₀ hv₀).2
  have hlt : db.versionAsked key version < 2 ^ 63 :=
    versionAsked_lt hversions fun k hk => ((material_eq_ok.1 hm).1 k hk).1
  have hg : Generated (World.initial.trace is) key.ownerEmail key.keyName
      (db.versionAsked key version) m := by
    -- the other kinds of encryption start their associated data differently
    cases hrec.sealings _ hmem with
    | dek haad => exact absurd haad (encode_ne_of_head (keyAad_head _ _ _) rfl (by decide))
    | secret hcall hpath hdata haad =>
      exact absurd haad (encode_ne_of_head (keyAad_head _ _ _) (path_head hpath) (by decide))
    | @key i r email name n' hcall hemail hname' haad hdata =>
      obtain ⟨h₁, h₂, h₃⟩ := keyAad_inj howner (hcolon i (Run.mem_of_mem_trace hcall) _ hemail)
        hname (keyName_ne hname').2 (Utf8.encode_injective haad)
      rw [h₁, h₂, h₃]
      exact hdata (h₃ ▸ hlt)
    | envelope haad =>
      exact absurd haad (encode_ne_of_head (keyAad_head _ _ _) (transitAad_head _ _ _) (by decide))
  exact ⟨hg, fun m' hm' => hrec.unique _ _ _ _ _ hm' hg⟩

namespace Sample

/-- A ciphertext of the log is no forgery. -/
theorem genuine_of_mem {log : List (Sealing Bytes)} {x : Sealing Bytes} (hx : x ∈ log)
    (k n a : Bytes) : aesgcm.Genuine log k n (aesgcm.encrypt x.key x.nonce x.data x.aad) a := by
  intro p hp
  obtain ⟨rfl, rfl, rfl⟩ := header_inj (header_of_decrypt hp).1
  have hdata := aesgcm_correct.decrypt_eq hp
  subst hdata
  exact ⟨hx, rfl⟩

theorem unforged_of_mem {log : List (Sealing Bytes)} {d : Bytes} {nonceB64 textB64 : Text}
    (h : ∃ x ∈ log, textB64 = cipherText (concrete lib) x) :
    Unforged (concrete lib) log d nonceB64 textB64 := by
  obtain ⟨x, hx, rfl⟩ := h
  intro n c a hn hc
  have hc' : c = aesgcm.encrypt x.key x.nonce x.data x.aad :=
    Option.some.inj (hc.symm.trans (Base64.decode_encode _))
  rw [hc']
  exact genuine_of_mem hx d n a

def otherName : Text := "key_2".toList

/-- A vault with two keys. -/
def keyCalls : List SampleCall :=
  opening ++ [(env 3, .createAes alice keyName), (env 4, .createAes alice otherName)]

/-- The other key's ciphertext in every key row, the version rows as they were. -/
def keysTampered : Database Text :=
  let x := keySealing (concrete lib) (env 4) alice otherName 1 dataKey
  (World.initial.after keyCalls).db.overwriteKeys
    (fun _ => (cipherText (concrete lib) x, Base64.encode x.nonce))
    fun v => (v.encryptedKeyMaterialB64, v.keyNonceB64)

/-- The first key's row under the attack. -/
def tamperedKey : TransitKey Text :=
  { newKey (concrete lib) (env 3) 1 alice keyName .encryptDecrypt dataKey with
    encryptedKeyMaterialB64 :=
      cipherText (concrete lib) (keySealing (concrete lib) (env 4) alice otherName 1 dataKey)
    keyNonceB64 := Base64.encode (env 4).nonce }

end Sample

open Sample in
theorem material_tampered_sample :
    Generated (World.initial.trace keyCalls) alice keyName 1 (env 3).key ∧
      ∀ m', Generated (World.initial.trace keyCalls) alice keyName 1 m' → m' = (env 3).key := by
  refine material_tampered lib keyCalls ?_ keysTampered (keyTampered_overwriteKeys _ _ _) dataKey
    (by decide +kernel) ⟨?_, ?_⟩ tamperedKey (by decide +kernel) (some 1) (env 5) _
    (by decide +kernel)
  · intro i hi email hemail
    simp only [keyCalls, opening, List.cons_append, List.nil_append, List.mem_cons,
      List.not_mem_nil, or_false] at hi
    rcases hi with rfl | rfl | rfl | rfl <;> cases hemail <;> decide
  · intro k hk
    refine unforged_of_mem ?_
    revert k
    decide +kernel
  · intro v hv
    refine unforged_of_mem ?_
    revert v
    decide +kernel

end MiniVault
