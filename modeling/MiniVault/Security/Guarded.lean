/-
  What the tables may hold so that their texts can be shown to anyone. Data keys are wrapped
  under a key derived from the master passphrase, named keys under a data key, and everything
  else is public. Every change of the tables that the services make keeps it so.
-/
import MiniVault.Security.Symbolic

namespace MiniVault

open Kit DolevYao

/-! ## Atoms -/

/-- What the texts of a run are made of. -/
inductive Atom where
  | master
  | dek (n : Nat)
  | key (n : Nat)
  | nonce (n : Nat)
  | salt (n : Nat)
  | passwordSalt (n : Nat)
  | token (n : Nat)
  | client (n : Nat)
  deriving DecidableEq

/-- The master passphrase, the data keys and the named keys are secret; what is encrypted under
    a named key is data of clients. -/
def vaultSecrets : Secrets Atom where
  secret
    | .master | .dek _ | .key _ => True
    | _ => False
  payload
    | .key _ => True
    | _ => False

/-- Anyone may hold the term. -/
def Public (t : Term Atom) : Prop := Exposable vaultSecrets t

theorem Public.derives {t u : Term Atom} (ht : Public t) (h : Derives {t} u) : Public u :=
  h.exposable (by rintro _ rfl; exact ht)

theorem public_const (c : String) : Public (.const c) := trivial

theorem public_nonce (n : Nat) : Public (.atom (.nonce n)) := fun h => h

/-- What random draws look like: atoms of their kind. -/
structure Drawn {X : Reading Atom} (e : Env (symbolic X)) : Prop where
  nonce : ∃ n, e.nonce = .atom (.nonce n)
  salt : ∃ n, e.salt = .atom (.salt n)
  dek : ∃ n, e.dek = .atom (.dek n)
  key : ∃ n, e.key = .atom (.key n)
  passwordSalt : ∃ n, e.passwordSalt = .atom (.passwordSalt n)
  token : ∃ n, e.token = .atom (.token n)
  clientIp : ∀ ip, e.clientIp = some ip → ∃ c, ip = .const c

/-! ## Sealed texts -/

/-- A data key, wrapped under a key derived from the master passphrase. -/
def WrapsDek (t : Term Atom) : Prop :=
  ∃ s q n d a, t = .code "base64" (.aead (.kdf (.atom .master) s q) n (.atom (.dek d)) a)

/-- A named key, wrapped under a data key. -/
def WrapsKey (t : Term Atom) : Prop :=
  ∃ d n k a, t = .code "base64" (.aead (.atom (.dek d)) n (.atom (.key k)) a)

/-- Public data, sealed under a data key. -/
def SealsData (t : Term Atom) : Prop :=
  ∃ d n p a, t = .code "base64" (.aead (.atom (.dek d)) n p a) ∧ Public p

theorem not_payload_dek (d : Nat) : ¬ Payload vaultSecrets (.atom (.dek d)) := by
  rintro ⟨a, ha, hp⟩
  cases ha
  exact hp

theorem WrapsDek.public {t : Term Atom} (h : WrapsDek t) : Public t := by
  obtain ⟨s, q, n, d, a, rfl⟩ := h
  rintro (hk | ⟨a, ha, -⟩)
  · exact absurd trivial hk
  · cases ha

theorem WrapsKey.public {t : Term Atom} (h : WrapsKey t) : Public t := by
  obtain ⟨d, n, k, a, rfl⟩ := h
  rintro (hk | hk)
  · exact absurd trivial hk
  · exact absurd hk (not_payload_dek d)

theorem SealsData.public {t : Term Atom} (h : SealsData t) : Public t := by
  obtain ⟨d, n, p, a, rfl, hp⟩ := h
  exact fun _ => hp

/-! ## Rows -/

section Cells

variable {T : Type}

def VaultConfig.cells (c : VaultConfig T) : List T :=
  [c.kdfSaltB64, c.kdfParametersJson, c.encryptedDekB64, c.dekNonceB64]

def User.cells (u : User T) : List T := [u.email, u.passwordHash]

def Session.cells (s : Session T) : List T := [s.tokenHash]

def KVSecret.cells (r : KVSecret T) : List T := [r.path, r.ownerEmail, r.nonceB64, r.ciphertextB64]

def KVSecretVersion.cells (v : KVSecretVersion T) : List T := [v.nonceB64, v.ciphertextB64]

def TransitKey.cells (k : TransitKey T) : List T :=
  [k.keyName, k.ownerEmail, k.algorithm, k.encryptedKeyMaterialB64, k.keyNonceB64] ++
    k.publicKeyB64.toList

def TransitKeyVersion.cells (v : TransitKeyVersion T) : List T :=
  [v.encryptedKeyMaterialB64, v.keyNonceB64]

def AuditLog.cells (l : AuditLog T) : List T :=
  [l.requesterEmail, l.action, l.resourceType, l.resourceIdentifier, l.result] ++
    l.clientIp.toList ++ l.previousHashB64.toList ++ l.hashB64.toList

/-- Every text of every row. -/
def Database.cells (db : Database T) : List T :=
  db.vaultConfig.flatMap (·.cells) ++ db.users.flatMap (·.cells) ++
    db.sessions.flatMap (·.cells) ++ db.kvSecrets.flatMap (·.cells) ++
    db.kvSecretVersions.flatMap (·.cells) ++ db.transitKeys.flatMap (·.cells) ++
    db.transitKeyVersions.flatMap (·.cells) ++ db.auditLogs.rows.flatMap (·.cells)

end Cells

/-- All terms of a list may be shown. -/
def AllPublic (ts : List (Term Atom)) : Prop := ∀ t ∈ ts, Public t

theorem allPublic_flatMap {α : Type} {f : α → List (Term Atom)} {l : List α}
    (h : ∀ a ∈ l, AllPublic (f a)) : AllPublic (l.flatMap f) := by
  intro t ht
  obtain ⟨a, ha, hta⟩ := List.mem_flatMap.1 ht
  exact h a ha t hta

/-- A row of each table that may be shown. -/
def VaultConfig.Guarded (c : VaultConfig (Term Atom)) : Prop :=
  AllPublic c.cells ∧ WrapsDek c.encryptedDekB64

def User.Guarded (u : User (Term Atom)) : Prop := AllPublic u.cells

def Session.Guarded (s : Session (Term Atom)) : Prop := AllPublic s.cells

def KVSecret.Guarded (r : KVSecret (Term Atom)) : Prop :=
  AllPublic r.cells ∧ SealsData r.ciphertextB64

def KVSecretVersion.Guarded (v : KVSecretVersion (Term Atom)) : Prop :=
  AllPublic v.cells ∧ SealsData v.ciphertextB64

def TransitKey.Guarded (k : TransitKey (Term Atom)) : Prop :=
  AllPublic k.cells ∧ WrapsKey k.encryptedKeyMaterialB64

def TransitKeyVersion.Guarded (v : TransitKeyVersion (Term Atom)) : Prop :=
  AllPublic v.cells ∧ WrapsKey v.encryptedKeyMaterialB64

def AuditLog.Guarded (l : AuditLog (Term Atom)) : Prop := AllPublic l.cells

/-- Tables all of whose rows may be shown. -/
structure Database.Guarded (db : Database (Term Atom)) : Prop where
  vaultConfig : ∀ c ∈ db.vaultConfig, c.Guarded
  users : ∀ u ∈ db.users, u.Guarded
  sessions : ∀ s ∈ db.sessions, s.Guarded
  kvSecrets : ∀ r ∈ db.kvSecrets, r.Guarded
  kvSecretVersions : ∀ v ∈ db.kvSecretVersions, v.Guarded
  transitKeys : ∀ k ∈ db.transitKeys, k.Guarded
  transitKeyVersions : ∀ v ∈ db.transitKeyVersions, v.Guarded
  auditLogs : ∀ l ∈ db.auditLogs.rows, l.Guarded

theorem Database.Guarded.cells {db : Database (Term Atom)} (h : db.Guarded) :
    AllPublic db.cells := by
  unfold Database.cells AllPublic
  simp only [List.forall_mem_append]
  exact ⟨⟨⟨⟨⟨⟨⟨allPublic_flatMap fun c hc => (h.vaultConfig c hc).1, allPublic_flatMap h.users⟩,
    allPublic_flatMap h.sessions⟩, allPublic_flatMap fun r hr => (h.kvSecrets r hr).1⟩,
    allPublic_flatMap fun v hv => (h.kvSecretVersions v hv).1⟩,
    allPublic_flatMap fun k hk => (h.transitKeys k hk).1⟩,
    allPublic_flatMap fun v hv => (h.transitKeyVersions v hv).1⟩,
    allPublic_flatMap h.auditLogs⟩

/-! ## Changes of the tables -/

section Changes

variable {db : Database (Term Atom)}

theorem guarded_empty : (Database.empty (Term Atom)).Guarded := by
  constructor <;> rintro _ ⟨⟩

theorem forall_mem_concat {α : Type} {p : α → Prop} {l : List α} {x : α} (h : ∀ a ∈ l, p a)
    (hx : p x) : ∀ a ∈ l ++ [x], p a := by
  rw [List.forall_mem_append]
  exact ⟨h, List.forall_mem_singleton.2 hx⟩

theorem forall_mem_map_ite {α : Type} {p : α → Prop} {l : List α} {c : α → Prop}
    [DecidablePred c] {f : α → α} (h : ∀ a ∈ l, p a) (hf : ∀ a, p a → p (f a)) :
    ∀ a ∈ l.map fun a => if c a then f a else a, p a := by
  rw [List.forall_mem_map]
  intro a ha
  split
  · exact hf a (h a ha)
  · exact h a ha

theorem Database.Guarded.addConfig (h : db.Guarded) {c : VaultConfig (Term Atom)}
    (hc : c.Guarded) : { db with vaultConfig := db.vaultConfig ++ [c] }.Guarded :=
  { h with vaultConfig := forall_mem_concat h.vaultConfig hc }

theorem Database.Guarded.addUser (h : db.Guarded) {u : User (Term Atom)} (hu : u.Guarded) :
    (db.addUser u).Guarded :=
  { h with users := forall_mem_concat h.users hu }

theorem Database.Guarded.setLockout (h : db.Guarded) (id attempts : Nat)
    (lockedUntil : Option Time) : (db.setLockout id attempts lockedUntil).Guarded :=
  { h with users := forall_mem_map_ite h.users fun _ hu => hu }

theorem Database.Guarded.addSession (h : db.Guarded) {s : Session (Term Atom)}
    (hs : s.Guarded) : (db.addSession s).Guarded :=
  { h with sessions := forall_mem_concat h.sessions hs }

theorem Database.Guarded.revokeSession (h : db.Guarded) (id : Nat) (now : Time) :
    (db.revokeSession id now).Guarded :=
  { h with sessions := forall_mem_map_ite h.sessions fun _ hs => hs }

theorem Database.Guarded.addKvSecret (h : db.Guarded) {r : KVSecret (Term Atom)}
    (hr : r.Guarded) : (db.addKvSecret r).Guarded :=
  { h with kvSecrets := forall_mem_concat h.kvSecrets hr }

theorem Database.Guarded.addKvVersion (h : db.Guarded) {v : KVSecretVersion (Term Atom)}
    (hv : v.Guarded) : (db.addKvVersion v).Guarded :=
  { h with kvSecretVersions := forall_mem_concat h.kvSecretVersions hv }

theorem Database.Guarded.setKvCiphertext (h : db.Guarded) (id : Nat) {n c : Term Atom}
    (hn : Public n) (hc : SealsData c) (now : Time) : (db.setKvCiphertext id n c now).Guarded :=
  { h with
    kvSecrets := forall_mem_map_ite h.kvSecrets fun r hr => by
      refine ⟨?_, hc⟩
      have hcells := hr.1
      simp only [AllPublic, KVSecret.cells, List.forall_mem_cons] at hcells ⊢
      exact ⟨hcells.1, hcells.2.1, hn, hc.public, hcells.2.2.2.2⟩ }

theorem Database.Guarded.deleteKvSecret (h : db.Guarded) (id : Nat) :
    (db.deleteKvSecret id).Guarded :=
  { h with
    kvSecrets := fun r hr => h.kvSecrets r (List.mem_of_mem_filter hr)
    kvSecretVersions := fun v hv => h.kvSecretVersions v (List.mem_of_mem_filter hv) }

theorem Database.Guarded.addKey (h : db.Guarded) {k : TransitKey (Term Atom)} (hk : k.Guarded) :
    (db.addKey k).Guarded :=
  { h with transitKeys := forall_mem_concat h.transitKeys hk }

theorem Database.Guarded.addKeyVersion (h : db.Guarded) {v : TransitKeyVersion (Term Atom)}
    (hv : v.Guarded) : (db.addKeyVersion v).Guarded :=
  { h with transitKeyVersions := forall_mem_concat h.transitKeyVersions hv }

theorem Database.Guarded.updateKey (h : db.Guarded) (id : Nat)
    {f : TransitKey (Term Atom) → TransitKey (Term Atom)} (hf : ∀ k, k.Guarded → (f k).Guarded) :
    (db.updateKey id f).Guarded :=
  { h with transitKeys := forall_mem_map_ite h.transitKeys hf }

/-- New material for a key. -/
theorem TransitKey.Guarded.rewrap {k : TransitKey (Term Atom)} (hk : k.Guarded) {n c : Term Atom}
    (hn : Public n) (hc : WrapsKey c) :
    { k with encryptedKeyMaterialB64 := c, keyNonceB64 := n }.Guarded := by
  refine ⟨?_, hc⟩
  have hcells := hk.1
  simp only [AllPublic, TransitKey.cells, List.cons_append, List.nil_append,
    List.forall_mem_cons] at hcells ⊢
  exact ⟨hcells.1, hcells.2.1, hcells.2.2.1, hc.public, hn, hcells.2.2.2.2.2⟩

/-! ## The audit table -/

theorem public_chainHash {X : Reading Atom} (t : Term Atom) :
    Public (chainHash (symbolic X) t) := trivial

theorem AuditLog.Guarded.withHashes {l : AuditLog (Term Atom)} (h : l.Guarded)
    {prev hash : Term Atom} (hp : Public prev) (hh : Public hash) :
    (l.withHashes prev hash).Guarded := by
  unfold AuditLog.Guarded AllPublic AuditLog.cells at h ⊢
  simp only [List.forall_mem_append] at h ⊢
  refine ⟨⟨h.1.1, ?_⟩, ?_⟩
  · rintro t ht
    rw [List.mem_singleton.1 ht]
    exact hp
  · rintro t ht
    rw [List.mem_singleton.1 ht]
    exact hh

theorem backfill_guarded {X : Reading Atom} (rows : List (AuditLog (Term Atom)))
    {prev : Term Atom} (hp : Public prev) {t : AuditTable (Term Atom)}
    (h : ∀ l ∈ t.rows, l.Guarded) : ∀ l ∈ (backfill (symbolic X) prev rows t).rows, l.Guarded := by
  induction rows generalizing prev t with
  | nil => exact h
  | cons row rows ih =>
    exact ih (public_chainHash _) (forall_mem_map_ite h fun l hl =>
      hl.withHashes hp (public_chainHash _))

theorem addPreviousHash_guarded {t : AuditTable (Term Atom)} (h : ∀ l ∈ t.rows, l.Guarded) :
    ∀ l ∈ (if t.hasPreviousHash then t else t.addPreviousHash).rows, l.Guarded := by
  split
  · exact h
  · refine List.forall_mem_map.2 fun l hl => ?_
    have hcells := h l hl
    unfold AuditLog.Guarded AllPublic AuditLog.cells at hcells ⊢
    simp only [List.forall_mem_append] at hcells ⊢
    exact ⟨⟨hcells.1.1, by rintro _ ⟨⟩⟩, hcells.2⟩

theorem addHash_guarded {t : AuditTable (Term Atom)} (h : ∀ l ∈ t.rows, l.Guarded) :
    ∀ l ∈ (if t.hasHash then t else t.addHash).rows, l.Guarded := by
  split
  · exact h
  · refine List.forall_mem_map.2 fun l hl => ?_
    have hcells := h l hl
    unfold AuditLog.Guarded AllPublic AuditLog.cells at hcells ⊢
    simp only [List.forall_mem_append] at hcells ⊢
    exact ⟨hcells.1, by rintro _ ⟨⟩⟩

theorem ensureSchema_guarded {X : Reading Atom} {t : AuditTable (Term Atom)}
    (h : ∀ l ∈ t.rows, l.Guarded) : ∀ l ∈ (ensureSchema (symbolic X) t).rows, l.Guarded := by
  unfold ensureSchema
  split
  · exact h
  · exact backfill_guarded _ (public_const _) (addHash_guarded (addPreviousHash_guarded h))

theorem prevHash_public {X : Reading Atom} {t : AuditTable (Term Atom)}
    (h : ∀ l ∈ t.rows, l.Guarded) :
    Public ((t.prevHash (symbolic X)).getD (genesis (symbolic X))) := by
  unfold AuditTable.prevHash
  rcases ht : t.last with _ | l
  · exact public_const _
  have hcells := h l (List.argmax_mem ht)
  unfold AuditLog.Guarded AllPublic AuditLog.cells at hcells
  simp only [List.forall_mem_append] at hcells
  dsimp only
  rcases hl : l.hashB64 with _ | hash
  · exact public_const _
  · exact hcells.2 hash (by rw [hl]; exact List.mem_singleton_self hash)

theorem append_guarded {X : Reading Atom} {t : AuditTable (Term Atom)}
    (h : ∀ l ∈ t.rows, l.Guarded) (id : Int) (now : Time)
    {email action resourceType identifier result : Term Atom} {clientIp : Option (Term Atom)}
    (htexts : AllPublic [email, action, resourceType, identifier, result])
    (hip : AllPublic clientIp.toList) :
    ∀ l ∈ (t.append (symbolic X) id now email action resourceType identifier result
      clientIp).rows, l.Guarded := by
  refine forall_mem_concat h ?_
  unfold AuditLog.Guarded AllPublic AuditLog.cells
  simp only [List.forall_mem_append]
  exact ⟨⟨⟨htexts, hip⟩, List.forall_mem_singleton.2 (prevHash_public h)⟩,
    List.forall_mem_singleton.2 (public_chainHash _)⟩

theorem Database.Guarded.withAudit (h : db.Guarded) {t : AuditTable (Term Atom)}
    (ht : ∀ l ∈ t.rows, l.Guarded) : { db with auditLogs := t }.Guarded :=
  { h with auditLogs := ht }

end Changes

end MiniVault
