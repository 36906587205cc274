/-
  The shape of the KV tables in every run: distinct row ids, one row for a path, every path
  under the prefix of its owner, and no version row without its item. The path alone then tells
  whose it is, so that `write`, which looks the path up without the owner, finds the same row
  as the operations that do.
-/
import Mathlib.Data.List.Find
import MiniVault.Kit.Separator
import MiniVault.Kit.Table
import MiniVault.Model.Sample
import MiniVault.Service.Step

namespace MiniVault

open Kit

variable {T B J : Type} {P : Prims T B J}

/-! ## Owners -/

/-- No path is valid for two users. -/
def Prims.OneOwner (P : Prims T B J) (good : T → Prop) : Prop :=
  ∀ ⦃path e₁ e₂⦄, good e₁ → good e₂ → P.validatePath path e₁ = .ok () →
    P.validatePath path e₂ = .ok () → e₁ = e₂

/-- What `EmailStr` promises: exactly one `@`, and a domain without slashes. -/
def EmailOk (email : Text) : Prop :=
  ∃ user domain, email = user ++ '@' :: domain ∧ '@' ∉ user ∧ '@' ∉ domain ∧ '/' ∉ domain

theorem pathPrefix_of_valid {path email : Text} (h : validatePath path email = .ok ()) :
    pathPrefix email <+: path := by
  by_contra hne
  unfold validatePath at h
  rw [if_pos (Or.inl hne)] at h
  split at h
  · cases h
  · split at h
    · cases h
    · cases h

theorem email_of_pathPrefix {path e₁ e₂ : Text} (h₁ : EmailOk e₁) (h₂ : EmailOk e₂)
    (hp₁ : pathPrefix e₁ <+: path) (hp₂ : pathPrefix e₂ <+: path) : e₁ = e₂ := by
  obtain ⟨u₁, d₁, rfl, hu₁, -, hd₁⟩ := h₁
  obtain ⟨u₂, d₂, rfl, hu₂, -, hd₂⟩ := h₂
  obtain ⟨s₁, hs₁⟩ := hp₁
  obtain ⟨s₂, hs₂⟩ := hp₂
  have heq := hs₁.trans hs₂.symm
  unfold pathPrefix at heq
  generalize "secret/".toList = root at heq
  simp only [List.append_assoc, List.append_cancel_left_eq, List.cons_append,
    List.nil_append] at heq
  obtain ⟨hu, heq⟩ := Separator.append_cons_inj hu₁ hu₂ heq
  obtain ⟨hd, -⟩ := Separator.append_cons_inj hd₁ hd₂ heq
  rw [hu, hd]

theorem concrete_oneOwner {F : Type} (L : Lib F) : (concrete L).OneOwner EmailOk :=
  fun _ _ _ h₁ h₂ hp₁ hp₂ =>
    email_of_pathPrefix h₁ h₂ (pathPrefix_of_valid hp₁) (pathPrefix_of_valid hp₂)

/-! ## The tables -/

structure Database.KvTables (P : Prims T B J) (good : T → Prop) (db : Database T) : Prop where
  ids : (db.kvSecrets.map (·.id)).Nodup
  paths : (db.kvSecrets.map (·.path)).Nodup
  owned : ∀ r ∈ db.kvSecrets, good r.ownerEmail ∧ P.validatePath r.path r.ownerEmail = .ok ()
  rows : ∀ v ∈ db.kvSecretVersions, ∃ r ∈ db.kvSecrets, r.id = v.kvSecretId

theorem kvTables_initial {good : T → Prop} :
    (World.initial : World T B).db.KvTables P good where
  ids := List.nodup_nil
  paths := List.nodup_nil
  owned _ hr := by cases hr
  rows _ hv := by cases hv

section Lookup

variable [DecidableEq T] {good : T → Prop} {db : Database T} {path email : T} {r : KVSecret T}

theorem findPath_eq_some (h : db.findPath path = some r) : r ∈ db.kvSecrets ∧ r.path = path :=
  ⟨List.mem_of_find?_eq_some h, by simpa using List.find?_some h⟩

theorem findOwned_eq_some (h : db.findOwned path email = some r) :
    r ∈ db.kvSecrets ∧ r.path = path ∧ r.ownerEmail = email := by
  have hrow := List.find?_some h
  simp only [decide_eq_true_eq] at hrow
  exact ⟨List.mem_of_find?_eq_some h, hrow⟩

theorem findPath_eq_none : db.findPath path = none ↔ ∀ r ∈ db.kvSecrets, r.path ≠ path := by
  simp [Database.findPath]

/-- Whoever may name a path owns what is stored there. -/
theorem findOwned_eq (h : db.KvTables P good) (hone : P.OneOwner good) (hgood : good email)
    (hp : P.validatePath path email = .ok ()) : db.findOwned path email = db.findPath path := by
  have howner : ∀ r ∈ db.kvSecrets, r.path = path → r.ownerEmail = email := by
    rintro r hr rfl
    exact hone (h.owned r hr).1 hgood (h.owned r hr).2 hp
  refine List.find?_congr fun r hr => ?_
  rw [decide_eq_decide, and_iff_left_iff_imp]
  exact howner r hr

end Lookup

/-! ## Preservation -/

section Preserved

variable [DecidableEq T] {good : T → Prop} {db : Database T} {path email : T} {dek raw : B}

theorem Database.KvTables.kvCreate (h : db.KvTables P good) (hgood : good email)
    (hp : P.validatePath path email = .ok ()) (hf : db.findPath path = none) (e : Env P) :
    (db.kvCreate P e path email dek raw).KvTables P good where
  ids := Table.nodup_concat h.ids (e.rowid_fresh _)
  paths := Table.nodup_concat h.paths fun hmem => by
    obtain ⟨r, hr, hpath⟩ := List.mem_map.1 hmem
    exact findPath_eq_none.1 hf r hr hpath
  owned r hr := by
    rcases List.mem_append.1 hr with hr | hr
    · exact h.owned r hr
    · rw [List.mem_singleton.1 hr]
      exact ⟨hgood, hp⟩
  rows v hv := by
    rcases List.mem_append.1 hv with hv | hv
    · obtain ⟨r, hr, hid⟩ := h.rows v hv
      exact ⟨r, List.mem_append_left _ hr, hid⟩
    · rw [List.mem_singleton.1 hv]
      exact ⟨_, List.mem_append_right _ List.mem_cons_self, rfl⟩

omit [DecidableEq T] in
/-- The rows of `kv_secrets` after a further write. -/
theorem kvUpdate_secrets (db : Database T) (e : Env P) (item : KVSecret T) (path : T)
    (dek raw : B) :
    (db.kvUpdate P e item path dek raw).kvSecrets =
      db.kvSecrets.map (Table.updated (·.id) item.id fun r =>
        { r with
          nonceB64 := P.b64encode e.nonce
          ciphertextB64 := cipherText P (kvSealing P e path dek raw)
          updatedAt := e.now }) := rfl

omit [DecidableEq T] in
/-- A further write changes neither id, path nor owner of a row. -/
theorem mem_kvUpdate {e : Env P} {item r : KVSecret T}
    (hr : r ∈ (db.kvUpdate P e item path dek raw).kvSecrets) :
    ∃ r' ∈ db.kvSecrets, r'.id = r.id ∧ r'.path = r.path ∧ r'.ownerEmail = r.ownerEmail := by
  rw [kvUpdate_secrets] at hr
  obtain ⟨r', hr', rfl⟩ := List.mem_map.1 hr
  refine ⟨r', hr', ?_⟩
  unfold Table.updated
  split
  · exact ⟨rfl, rfl, rfl⟩
  · exact ⟨rfl, rfl, rfl⟩

omit [DecidableEq T] in
theorem kvUpdate_map {γ : Type} {g : KVSecret T → γ} {e : Env P} {item : KVSecret T}
    (hg : ∀ r n c t, g { r with nonceB64 := n, ciphertextB64 := c, updatedAt := t } = g r) :
    (db.kvUpdate P e item path dek raw).kvSecrets.map g = db.kvSecrets.map g := by
  rw [kvUpdate_secrets]
  exact Table.map_updated fun r => hg r _ _ _

omit [DecidableEq T] in
theorem Database.KvTables.kvUpdate (h : db.KvTables P good) {item : KVSecret T}
    (hitem : item ∈ db.kvSecrets) (e : Env P) :
    (db.kvUpdate P e item path dek raw).KvTables P good where
  ids := by
    rw [kvUpdate_map fun _ _ _ _ => rfl]
    exact h.ids
  paths := by
    rw [kvUpdate_map fun _ _ _ _ => rfl]
    exact h.paths
  owned r hr := by
    obtain ⟨r', hr', -, hpath, howner⟩ := mem_kvUpdate hr
    rw [← hpath, ← howner]
    exact h.owned r' hr'
  rows v hv := by
    have hids : (db.kvUpdate P e item path dek raw).kvSecrets.map (·.id) =
        db.kvSecrets.map (·.id) :=
      kvUpdate_map fun _ _ _ _ => rfl
    have hmem : v.kvSecretId ∈ db.kvSecrets.map (·.id) := by
      rcases List.mem_append.1 hv with hv | hv
      · obtain ⟨r, hr, hid⟩ := h.rows v hv
        exact List.mem_map.2 ⟨r, hr, hid⟩
      · rw [List.mem_singleton.1 hv]
        exact List.mem_map_of_mem hitem
    rw [← hids] at hmem
    exact List.mem_map.1 hmem

omit [DecidableEq T] in
theorem Database.KvTables.deleteKvSecret (h : db.KvTables P good) (id : Nat) :
    (db.deleteKvSecret id).KvTables P good where
  ids := h.ids.sublist (List.filter_sublist.map _)
  paths := h.paths.sublist (List.filter_sublist.map _)
  owned r hr := h.owned r (List.mem_of_mem_filter hr)
  rows v hv := by
    obtain ⟨hv, hne⟩ := List.mem_filter.1 hv
    obtain ⟨r, hr, hid⟩ := h.rows v hv
    refine ⟨r, List.mem_filter.2 ⟨hr, ?_⟩, hid⟩
    rw [hid]
    exact hne

/-- No call made for a good user breaks the tables. -/
theorem Database.KvTables.step {e : Env P} {w w' : World T B} {c : Call T J}
    {r : Except Exc (Data T J)} (h : w.db.KvTables P good)
    (hgood : ∀ email, c.email? = some email → good email) (hs : Step e w c r w') :
    w'.db.KvTables P good := by
  cases hs with
  | kvCreate hw hf => exact h.kvCreate (hgood _ rfl) hw.valid hf e
  | kvUpdate hw hf => exact h.kvUpdate (findPath_eq_some hf).1 e
  | kvDelete => exact h.deleteKvSecret _
  | _ => exact ⟨h.ids, h.paths, h.owned, h.rows⟩

end Preserved

/-! ## Namespaces -/

section Namespaces

variable [DecidableEq T] {good : T → Prop}

theorem Database.KvTables.after {w : World T B} (h : w.db.KvTables P good)
    (is : List (Env P × Call T J))
    (hgood : ∀ i ∈ is, ∀ email, i.2.email? = some email → good email) :
    (w.after is).db.KvTables P good := by
  induction is generalizing w with
  | nil => exact h
  | cons i is ih =>
    exact ih (h.step (hgood i List.mem_cons_self) (step_of_call i.1 w i.2))
      fun j hj => hgood j (List.mem_cons_of_mem _ hj)

/-- Every row lies in the namespace of its owner and in no other. `write` looks a path up without
    the owner, `read`, `versions` and `delete` with them: for whoever may name the path, both find
    the same row. -/
structure Database.Namespaced (P : Prims T B J) (good : T → Prop) (db : Database T) : Prop where
  own : ∀ r ∈ db.kvSecrets, P.validatePath r.path r.ownerEmail = .ok ()
  other : ∀ r ∈ db.kvSecrets, ∀ email, good email → email ≠ r.ownerEmail →
    P.validatePath r.path email ≠ .ok ()
  lookup : ∀ path email, good email → P.validatePath path email = .ok () →
    db.findPath path = db.findOwned path email

theorem Database.KvTables.namespaced {db : Database T} (h : db.KvTables P good)
    (hone : P.OneOwner good) : db.Namespaced P good where
  own r hr := (h.owned r hr).2
  other r hr _ hgood hne hp := hne (hone hgood (h.owned r hr).1 hp (h.owned r hr).2)
  lookup _ _ hgood hp := (findOwned_eq h hone hgood hp).symm

end Namespaces

/-- **The namespaces of the owners are disjoint**, and in every run on behalf of users with
    well-formed addresses the rows stay inside them. -/
theorem kv_namespaces {F : Type} (L : Lib F)
    (is : List (Env (concrete L) × Call Text (Json.Value F)))
    (hemail : ∀ i ∈ is, ∀ email, i.2.email? = some email → EmailOk email) :
    (∀ e₁ e₂, EmailOk e₁ → EmailOk e₂ → e₁ ≠ e₂ →
        ∀ path, validatePath path e₁ = .ok () → validatePath path e₂ ≠ .ok ()) ∧
      (World.initial.after is).db.Namespaced (concrete L) EmailOk := by
  have hone := concrete_oneOwner L
  refine ⟨fun e₁ e₂ h₁ h₂ hne path hp₁ hp₂ => hne (hone h₁ h₂ hp₁ hp₂), ?_⟩
  exact (kvTables_initial.after is hemail).namespaced hone

namespace Sample

theorem alice_ok : EmailOk alice := ⟨"alice".toList, "x.org".toList, by decide⟩

theorem kvCalls_ok : ∀ i ∈ kvCalls, ∀ email, i.2.email? = some email → EmailOk email := by
  have hall : ∀ i ∈ kvCalls, i.2.email? = none ∨ i.2.email? = some alice := by decide +kernel
  intro i hi email hemail
  rcases hall i hi with h | h
  · rw [h] at hemail
    cases hemail
  · rw [h] at hemail
    cases hemail
    exact alice_ok

end Sample

open Sample in
theorem kv_namespaces_sample :
    (World.initial.after kvCalls).db.Namespaced (concrete lib) EmailOk :=
  (kv_namespaces lib kvCalls kvCalls_ok).2

end MiniVault
