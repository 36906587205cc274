/-
  `app/audit/service.py` and the verifier of `app/router.py`: the hash chain of `audit_logs`.
-/
import MiniVault.Model.Vault

namespace MiniVault

open Kit Imp

variable {T B J : Type} {P : Prims T B J} [DecidableEq T]

/-- `f"{id}|{prev_hash}|{email}|{action}|{identifier}|{result}"` -/
def dataStr (P : Prims T B J) (id : Int) (prevHash email action identifier result : T) : T :=
  P.fstr [P.str id, P.lit "|", prevHash, P.lit "|", email, P.lit "|", action, P.lit "|",
    identifier, P.lit "|", result]

/-- `base64.b64encode(hashlib.sha256(data_str.encode()).digest()).decode()` -/
def chainHash (P : Prims T B J) (dataStr : T) : T :=
  P.b64encode (P.sha256 (P.encode dataStr))

/-- The hash of a row that follows a row with hash `prev`. -/
def AuditLog.hashAfter (P : Prims T B J) (prev : T) (log : AuditLog T) : T :=
  chainHash P (dataStr P log.id prev log.requesterEmail log.action log.resourceIdentifier
    log.result)

/-- The first `prev_hash` of the chain. -/
def genesis (P : Prims T B J) : T := P.lit "GENESIS"

/-- `ORDER BY id ASC` -/
def AuditTable.byId (t : AuditTable T) : List (AuditLog T) :=
  t.rows.insertionSort fun a b => a.id ≤ b.id

-- ids compare by the order of the integers, which computes
local instance idOrder : Preorder Int := Int.instLinearOrder.toPreorder

/-- The row with the largest id, `ORDER BY id DESC` and first. -/
def AuditTable.last (t : AuditTable T) : Option (AuditLog T) := t.rows.argmax (·.id)

/-! ## ensure_schema -/

/-- `ALTER TABLE audit_logs ADD COLUMN previous_hash_b64`: every row reads null there. -/
def AuditTable.addPreviousHash (t : AuditTable T) : AuditTable T :=
  { t with
    hasPreviousHash := true
    rows := t.rows.map fun log => { log with previousHashB64 := none } }

/-- `ALTER TABLE audit_logs ADD COLUMN hash_b64` -/
def AuditTable.addHash (t : AuditTable T) : AuditTable T :=
  { t with
    hasHash := true
    rows := t.rows.map fun log => { log with hashB64 := none } }

/-- A row with new hashes. -/
def AuditLog.withHashes (prev h : T) (log : AuditLog T) : AuditLog T :=
  { log with previousHashB64 := some prev, hashB64 := some h }

/-- `UPDATE audit_logs SET previous_hash_b64 = prev, hash_b64 = h WHERE id = id` -/
def AuditTable.setHashes (t : AuditTable T) (id : Int) (prev h : T) : AuditTable T :=
  { t with rows := t.rows.map fun log => if log.id = id then log.withHashes prev h else log }

/-- The backfill loop, over the rows that the `SELECT` returned. -/
def backfill (P : Prims T B J) (prevHash : T) : List (AuditLog T) → AuditTable T → AuditTable T
  | [], t => t
  | row :: rows, t =>
    let newHash := row.hashAfter P prevHash
    backfill P newHash rows (t.setHashes row.id prevHash newHash)

/-- `ensure_schema`, run to completion. -/
def ensureSchema (P : Prims T B J) (t : AuditTable T) : AuditTable T :=
  if t.hasPreviousHash ∧ t.hasHash then t
  else
    let t := if t.hasPreviousHash then t else t.addPreviousHash
    let t := if t.hasHash then t else t.addHash
    backfill P (genesis P) t.byId t

/-! ## audit -/

/-- `last_log.hash_b64 if last_log else "GENESIS"` -/
def AuditTable.prevHash (P : Prims T B J) (t : AuditTable T) : Option T :=
  match t.last with
  | some lastLog => lastLog.hashB64
  | none => some (genesis P)

/-- The table after `audit` has inserted its row and set the row's hash. -/
def AuditTable.append (P : Prims T B J) (t : AuditTable T) (id : Int) (now : Time)
    (email action resourceType identifier result : T) (clientIp : Option T) : AuditTable T :=
  let prevHash := t.prevHash P
  let log : AuditLog T :=
    { id := id, requesterEmail := email, action := action, resourceType := resourceType
      resourceIdentifier := identifier, result := result, clientIp := clientIp
      -- a null hash is left out of the INSERT, and the column has a default
      previousHashB64 := some (prevHash.getD (genesis P)), hashB64 := none, createdAt := now }
  -- an f-string prints a null hash as None
  let h := log.hashAfter P (prevHash.getD (P.lit "None"))
  { t with rows := t.rows ++ [{ log with hashB64 := some h }] }

/-- `audit` -/
def audit (email action resourceType identifier result : T) (clientIp : Option T) :
    Py P Unit := do
  let e ← environ
  update fun db =>
    { db with
      auditLogs := db.auditLogs.append P (e.auditId (db.auditLogs.rows.map (·.id))) e.now
        email action resourceType identifier result clientIp }
  commit

/-! ## audit_verify -/

/-- What `audit_verify` answers. -/
inductive AuditVerdict where
  | valid
  | broken (id : Int) (reason : String)
  deriving DecidableEq

/-- The loop of `audit_verify`, over the rows in id order. -/
def verifyLogs (P : Prims T B J) (prev : T) : List (AuditLog T) → AuditVerdict
  | [] => .valid
  | log :: logs =>
    if log.previousHashB64 ≠ some prev then .broken log.id "Previous hash mismatch"
    else
      let expectedHash := log.hashAfter P prev
      if log.hashB64 ≠ some expectedHash then .broken log.id "Hash mismatch"
      else verifyLogs P expectedHash logs

/-- `audit_verify` -/
def auditVerify (P : Prims T B J) (t : AuditTable T) : AuditVerdict :=
  verifyLogs P (genesis P) t.byId

end MiniVault
