/-
  The tables of `app/models.py`, the SQLAlchemy session and the process state.

  A table is the list of its rows in insertion order. `Proc` is what one request works on: the
  session's view of the tables, the committed tables, and the process-wide `VaultState`. A
  change reaches `committed` only through `commit`; closing the session drops the rest.
-/
import MiniVault.Kit.Imp
import MiniVault.Model.Prims
import Mathlib.Algebra.Group.Nat.Defs
import Mathlib.Data.List.MinMax
import Mathlib.Data.List.Sort

namespace MiniVault

open Kit

/-! ## Tables -/

/-- `key_usage` of a transit key. -/
inductive KeyUsage where
  | encryptDecrypt
  | signVerify
  deriving DecidableEq, Repr

section Rows

variable (T : Type)

/-- A row of `vault_config`. -/
structure VaultConfig where
  kdfSaltB64 : T
  kdfParametersJson : T
  encryptedDekB64 : T
  dekNonceB64 : T
  deriving DecidableEq

/-- A row of `users`. -/
structure User where
  id : Nat
  email : T
  passwordHash : T
  failedLoginAttempts : Nat
  lockedUntil : Option Time
  deriving DecidableEq

/-- A row of `sessions`. -/
structure Session where
  id : Nat
  userId : Nat
  tokenHash : T
  expiresAt : Int
  revokedAt : Option Time
  deriving DecidableEq

/-- A row of `kv_secrets`. -/
structure KVSecret where
  id : Nat
  path : T
  ownerEmail : T
  nonceB64 : T
  ciphertextB64 : T
  createdAt : Time
  updatedAt : Time
  deriving DecidableEq

/-- A row of `kv_secret_versions`. -/
structure KVSecretVersion where
  kvSecretId : Nat
  version : Nat
  nonceB64 : T
  ciphertextB64 : T
  createdAt : Time
  deriving DecidableEq

/-- A row of `transit_keys`. -/
structure TransitKey where
  id : Nat
  keyName : T
  ownerEmail : T
  keyUsage : KeyUsage
  algorithm : T
  encryptedKeyMaterialB64 : T
  keyNonceB64 : T
  publicKeyB64 : Option T
  revokedAt : Option Time
  createdAt : Time
  deriving DecidableEq

/-- A row of `transit_key_versions`. -/
structure TransitKeyVersion where
  transitKeyId : Nat
  version : Nat
  encryptedKeyMaterialB64 : T
  keyNonceB64 : T
  deriving DecidableEq

/-- A row of `audit_logs`. The two hash columns may be missing or null in a table older than
    the hash chain. -/
structure AuditLog where
  id : Int
  requesterEmail : T
  action : T
  resourceType : T
  resourceIdentifier : T
  result : T
  clientIp : Option T
  previousHashB64 : Option T
  hashB64 : Option T
  createdAt : Time
  deriving DecidableEq

/-- The `audit_logs` table with its two hash columns: is each there, and the rows. -/
structure AuditTable where
  hasPreviousHash : Bool
  hasHash : Bool
  rows : List (AuditLog T)
  deriving DecidableEq

/-- The database. -/
structure Database where
  vaultConfig : List (VaultConfig T)
  users : List (User T)
  sessions : List (Session T)
  kvSecrets : List (KVSecret T)
  kvSecretVersions : List (KVSecretVersion T)
  transitKeys : List (TransitKey T)
  transitKeyVersions : List (TransitKeyVersion T)
  auditLogs : AuditTable T
  deriving DecidableEq

/-- The database `create_all` makes: every table, no row. -/
def Database.empty : Database T where
  vaultConfig := []
  users := []
  sessions := []
  kvSecrets := []
  kvSecretVersions := []
  transitKeys := []
  transitKeyVersions := []
  auditLogs := ⟨true, true, []⟩

end Rows

/-! ## Session and process -/

/-- What outlives a request: the committed database, the DEK in `VaultState`, and, as a ghost
    that no operation reads, everything given to AES-GCM for encryption so far. -/
structure World (T B : Type) where
  db : Database T
  dek : Option B
  sealings : List (Sealing B) := []
  deriving DecidableEq

/-- What a request works on. -/
structure Proc (T B : Type) where
  db : Database T
  committed : Database T
  dek : Option B
  sealings : List (Sealing B)

/-- A freshly opened session. -/
def World.session {T B : Type} (w : World T B) : Proc T B := ⟨w.db, w.db, w.dek, w.sealings⟩

/-- Closing the session drops what was not committed. -/
def Proc.close {T B : Type} (s : Proc T B) : World T B := ⟨s.committed, s.dek, s.sealings⟩

section Py

variable {T B J : Type} (P : Prims T B J)

/-- A computation of the service. -/
abbrev Py (α : Type) : Type := Imp (Env P) (Proc T B) Exc α

variable {P}

def query {α : Type} (f : Database T → α) : Py P α := Imp.gets fun s => f s.db

def update (f : Database T → Database T) : Py P Unit :=
  Imp.modify fun s => { s with db := f s.db }

/-- `db.commit()` -/
def commit : Py P Unit := Imp.modify fun s => { s with committed := s.db }

/-- `utcnow()` -/
def utcnow : Py P Time := do
  let e ← Imp.environ
  return e.now

/-- The driver binds an integer parameter only if it fits in 64 signed bits. -/
def bindInteger (n : Nat) : Except Exc Unit :=
  if 2 ^ 63 ≤ n then .error .overflowError else .ok ()

@[simp] theorem query_apply {α : Type} (f : Database T → α) (e : Env P) (s : Proc T B) :
    (query f : Py P α) e s = (.ok (f s.db), s) := rfl

@[simp] theorem update_apply (f : Database T → Database T) (e : Env P) (s : Proc T B) :
    (update f : Py P Unit) e s = (.ok (), { s with db := f s.db }) := rfl

@[simp] theorem commit_apply (e : Env P) (s : Proc T B) :
    (commit : Py P Unit) e s = (.ok (), { s with committed := s.db }) := rfl

@[simp] theorem utcnow_apply (e : Env P) (s : Proc T B) :
    (utcnow : Py P Time) e s = (.ok e.now, s) := rfl

/-- Run a computation as one request: open a session, run, close. -/
def World.run {α : Type} (w : World T B) (e : Env P) (m : Py P α) :
    Except Exc α × World T B :=
  ((m e w.session).1, (m e w.session).2.close)

end Py

end MiniVault
