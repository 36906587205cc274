/-
  Tampering with stored secrets. Whoever overwrites the ciphertexts of the KV tables, with texts
  of any other row, gets `read` to return a value that was written to the very path that is read,
  or an error. Which of the values written there is not determined: the associated data of a
  secret is its path alone.
-/
import MiniVault.Service.Exceptions
import MiniVault.Tamper.Keys

namespace MiniVault

open Kit

variable {T B J : Type} {P : Prims T B J}

/-! ## The attack -/

/-- `db'` is `db` with other ciphertext and nonce texts in its KV rows. -/
structure Database.KvTampered (db db' : Database T) : Prop where
  secrets : List.Forall₂ (fun r r' => ∃ n c, r' = { r with nonceB64 := n, ciphertextB64 := c })
    db.kvSecrets db'.kvSecrets
  versions : List.Forall₂ (fun v v' => ∃ n c, v' = { v with nonceB64 := n, ciphertextB64 := c })
    db.kvSecretVersions db'.kvSecretVersions
  rest : db' = { db with
    kvSecrets := db'.kvSecrets, kvSecretVersions := db'.kvSecretVersions }

/-- Overwriting the KV rows, each by two texts of the attacker's choice. -/
def Database.overwriteKv (db : Database T) (f : KVSecret T → T × T)
    (g : KVSecretVersion T → T × T) : Database T :=
  { db with
    kvSecrets := db.kvSecrets.map fun r => { r with nonceB64 := (f r).1, ciphertextB64 := (f r).2 }
    kvSecretVersions := db.kvSecretVersions.map fun v =>
      { v with nonceB64 := (g v).1, ciphertextB64 := (g v).2 } }

theorem kvTampered_overwriteKv (db : Database T) (f : KVSecret T → T × T)
    (g : KVSecretVersion T → T × T) : db.KvTampered (db.overwriteKv f g) where
  secrets := List.forall₂_map_right_iff.2 (List.forall₂_same.2 fun _ _ => ⟨_, _, rfl⟩)
  versions := List.forall₂_map_right_iff.2 (List.forall₂_same.2 fun _ _ => ⟨_, _, rfl⟩)
  rest := rfl

/-- No ciphertext of the KV tables is a forgery. -/
structure Database.KvUnforged (P : Prims T B J) (log : List (Sealing B)) (d : B)
    (db : Database T) : Prop where
  secrets : ∀ r ∈ db.kvSecrets, Unforged P log d r.nonceB64 r.ciphertextB64
  versions : ∀ v ∈ db.kvSecretVersions, Unforged P log d v.nonceB64 v.ciphertextB64

/-! ## What `read` can return -/

/-- A secret that opens was made by an encryption of the log under its path. -/
theorem Unforged.mem_secret {log : List (Sealing B)} {d : B} {nonceB64 textB64 path : T} {v : J}
    (h : Unforged P log d nonceB64 textB64)
    (hopen : KVService.openSecret P d nonceB64 textB64 path = .ok v) :
    ∃ n raw, (⟨d, n, raw, P.encode path⟩ : Sealing B) ∈ log ∧ P.loads raw = .ok v := by
  obtain ⟨n, hn, hopen⟩ := Imp.except_bind_eq_ok.1 hopen
  obtain ⟨c, hc, hopen⟩ := Imp.except_bind_eq_ok.1 hopen
  obtain ⟨raw, hdec, hload⟩ := Imp.except_bind_eq_ok.1 hopen
  exact ⟨n, raw, (h n c _ (b64d_eq_ok.1 hn) (b64d_eq_ok.1 hc) raw (decrypt_eq_ok.1 hdec).2.2).1,
    hload⟩

theorem kvAsked_mem {db : Database T} {item : KVSecret T} {version : Option Int}
    {r : KVSecretVersion T} (h : db.kvAsked item version = .ok (some r)) :
    r ∈ db.kvSecretVersions := by
  rcases version with _ | k
  · exact (List.mem_filter.1 (List.argmax_mem (Except.ok.inj h))).1
  · unfold Database.kvAsked at h
    dsimp only at h
    split_ifs at h
    split at h
    · cases h
    · rename_i v hv
      rw [← Option.some.inj (Except.ok.inj h)]
      exact List.mem_of_find?_eq_some hv

variable [DecidableEq T]

/-- What `read` returns was encrypted for the path that is read. -/
theorem kvRead_mem {log : List (Sealing B)} {d : B} {db : Database T} {path email : T}
    {version : Option Int} {v : KVValue T J} (hdb : db.KvUnforged P log d)
    (h : db.kvRead P d path email version = .ok v) :
    v.path = path ∧ ∃ n raw, (⟨d, n, raw, P.encode path⟩ : Sealing B) ∈ log ∧
      P.loads raw = .ok v.value := by
  obtain ⟨item, record, hf, hr, hpath, -, hopen⟩ := kvRead_eq_ok h
  refine ⟨hpath, ?_⟩
  rcases record with _ | r
  · exact (hdb.secrets item (List.mem_of_find?_eq_some hf)).mem_secret hopen
  · exact (hdb.versions r (kvAsked_mem hr)).mem_secret hopen

/-! ## The result -/

/-- However the ciphertexts of the KV tables of a reachable database are overwritten, short of
    forgery, `read` returns a value that some call wrote to that path, or raises an `AppError`. -/
theorem read_tampered {F : Type} (L : Lib F) (hff : L.floats.Lawful)
    (is : List (Env (concrete L) × Call Text (Json.Value F))) (db : Database Text)
    (_ht : (World.initial.after is).db.KvTampered db) (d : Bytes)
    (hd : (World.initial.after is).dek = some d)
    (hunforged : db.KvUnforged (concrete L) (World.initial.after is).sealings d)
    (path email : Text) (version : Option Int) (hv : ∀ k, version = some k → k < 2 ^ 63)
    (e : Env (concrete L)) :
    (∃ err, (KVService.read path email version e
        { World.initial.after is with db := db }.session).1 = .error (.app err)) ∨
      ∃ v, (KVService.read path email version e
          { World.initial.after is with db := db }.session).1 = .ok v ∧ v.path = path ∧
        ∃ e' email' data r, ((e', .kvWrite path email' data), r) ∈ World.initial.trace is ∧
          v.value = data.canon := by
  have hrec := recorded_run is
  set s : Proc Text Bytes := { World.initial.after is with db := db }.session
  rcases hr : (KVService.read path email version e s).1 with x | v
  · have hx : ¬ x.Escapes := fun hx => by
      obtain ⟨-, -, -, k, hk, hlarge⟩ :=
        (read_escapes (concrete_checked L) (concrete_jsonRaises L)).1 ⟨x, hr, hx⟩
      exact absurd hlarge (Int.not_le.2 (hv k hk))
    obtain ⟨err, rfl⟩ := not_escapes.1 hx
    exact .inl ⟨err, rfl⟩
  · have hp : validatePath path email = .ok () := by
      rcases hp : validatePath path email with x | _
      · rw [read_of_invalid hp] at hr
        cases hr
      · rfl
    rw [read_apply (s := s) hp hd] at hr
    obtain ⟨hpath, n, raw, hmem, hload⟩ := kvRead_mem hunforged hr
    refine .inr ⟨v, rfl, hpath, ?_⟩
    cases hrec.sealings _ hmem with
    | dek haad => exact absurd haad (encode_ne_of_head (path_head hp) rfl (by decide))
    | @secret e' path' email' data r hcall hpath' hdata haad =>
      have heq : path = path' := Utf8.encode_injective haad
      subst heq
      refine ⟨e', email', data, r, hcall, ?_⟩
      rw [concrete_loads hff hdata] at hload
      exact (Except.ok.inj hload).symm
    | key _ _ _ haad =>
      exact absurd haad (encode_ne_of_head (path_head hp) (keyAad_head _ _ _) (by decide))
    | envelope haad =>
      exact absurd haad (encode_ne_of_head (path_head hp) (transitAad_head _ _ _) (by decide))

namespace Sample

/-- The second ciphertext in every version row. -/
def kvSwapped : Database Text :=
  let db := (World.initial.after kvCalls).db
  let texts := ((db.kvSecrets.head?).map fun r => (r.nonceB64, r.ciphertextB64)).getD ([], [])
  db.overwriteKv (fun r => (r.nonceB64, r.ciphertextB64)) fun _ => texts

theorem kvSwapped_tampered : (World.initial.after kvCalls).db.KvTampered kvSwapped :=
  kvTampered_overwriteKv _ _ _

theorem kvSwapped_unforged :
    kvSwapped.KvUnforged (concrete lib) (World.initial.after kvCalls).sealings dataKey := by
  refine ⟨fun r hr => unforged_of_mem ?_, fun v hv => unforged_of_mem ?_⟩
  · revert r
    decide +kernel
  · revert v
    decide +kernel

end Sample

open Sample in
theorem read_tampered_sample :
    (∃ err, (KVService.read path alice (some 1) (env 5)
        { World.initial.after kvCalls with db := kvSwapped }.session).1 = .error (.app err)) ∨
      ∃ v, (KVService.read path alice (some 1) (env 5)
          { World.initial.after kvCalls with db := kvSwapped }.session).1 = .ok v ∧
        v.path = path ∧
        ∃ e' email' data r, ((e', .kvWrite path email' data), r) ∈ World.initial.trace kvCalls ∧
          v.value = data.canon :=
  read_tampered lib floats_lawful kvCalls kvSwapped kvSwapped_tampered dataKey kvCalls_dek
    kvSwapped_unforged path alice (some 1) (by rintro _ ⟨⟩; decide) (env 5)

open Sample in
/-- Version 1 was written as one value; with the ciphertext of version 2 in its row, it reads as
    another. -/
theorem read_swapped :
    (World.initial.after kvCalls).db.KvTampered kvSwapped ∧
      kvSwapped.KvUnforged (concrete lib) (World.initial.after kvCalls).sealings dataKey ∧
      (∃ v, (KVService.read path alice (some 1) (env 5 : Env (concrete lib))
          (World.initial.after kvCalls).session).1 = .ok v ∧ v.version = 1 ∧ v.value = secret 1) ∧
      (∃ v, (KVService.read path alice (some 1) (env 5 : Env (concrete lib))
          { World.initial.after kvCalls with db := kvSwapped }.session).1 = .ok v ∧
        v.version = 1 ∧ v.value = secret 2) ∧ secret 1 ≠ secret 2 := by
  refine ⟨kvSwapped_tampered, kvSwapped_unforged, read_of_readNumber (by decide +kernel),
    read_of_readNumber (by decide +kernel), ?_⟩
  intro h
  simp [secret] at h

end MiniVault
