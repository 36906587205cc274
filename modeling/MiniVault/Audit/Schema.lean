/-
  The migration of the audit table: after `ensure_schema` any legacy table is a valid chain, and
  on a table that has both hash columns it changes nothing.
-/
import MiniVault.Audit.Chain

namespace MiniVault

open Kit

variable {T B J : Type} {P : Prims T B J}

/-! ## One UPDATE of the backfill -/

theorem byId_setHashes (t : AuditTable T) (id : Int) (prev h : T) :
    (t.setHashes id prev h).byId =
      t.byId.map fun log => if log.id = id then log.withHashes prev h else log := by
  have hid : ∀ log : AuditLog T,
      (if log.id = id then log.withHashes prev h else log).id = log.id := by
    intro log
    split <;> rfl
  refine (List.map_insertionSort _ _ _ t.rows fun a _ b _ => ?_).symm
  rw [hid a, hid b]

theorem ids_setHashes (t : AuditTable T) (id : Int) (prev h : T) :
    (t.setHashes id prev h).rows.map (·.id) = t.rows.map (·.id) := by
  rw [AuditTable.setHashes, List.map_map]
  refine List.map_congr_left fun log _ => ?_
  simp only [Function.comp]
  split <;> rfl

theorem nodup_byId {t : AuditTable T} (h : (t.rows.map (·.id)).Nodup) :
    (t.byId.map (·.id)).Nodup :=
  ((byId_perm t).map _).nodup_iff.2 h

/-- The `UPDATE` for the first row that is not yet chained chains it. -/
theorem byId_setHashes_split {t : AuditTable T} (hn : (t.rows.map (·.id)).Nodup)
    {done todo : List (AuditLog T)} {row : AuditLog T} (h : t.byId = done ++ row :: todo)
    (prev newHash : T) :
    (t.setHashes row.id prev newHash).byId = done ++ row.withHashes prev newHash :: todo := by
  have hn' := nodup_byId hn
  rw [h] at hn'
  rw [byId_setHashes, h]
  exact Table.map_if_key (AuditLog.withHashes prev newHash) hn'

/-! ## The loop -/

/-- **The backfill loop**: with the rows in id order split into those already chained and those
    still to do, the loop chains the rest. -/
theorem backfill_chained (todo done : List (AuditLog T)) (t : AuditTable T)
    (hcols : t.hasPreviousHash = true ∧ t.hasHash = true) (hn : (t.rows.map (·.id)).Nodup)
    (h : t.byId = done ++ todo) (hv : (auditChain P).Valid (genesis P) done) :
    Chained P (backfill P ((auditChain P).tip (genesis P) done) todo t) := by
  induction todo generalizing done t with
  | nil =>
    rw [List.append_nil] at h
    exact ⟨hcols, hn, h ▸ hv⟩
  | cons row todo ih =>
    have hsplit := byId_setHashes_split hn h ((auditChain P).tip (genesis P) done)
      (row.hashAfter P ((auditChain P).tip (genesis P) done))
    have hstep : (auditChain P).Valid (genesis P)
        (done ++ [row.withHashes ((auditChain P).tip (genesis P) done)
          (row.hashAfter P ((auditChain P).tip (genesis P) done))]) := by
      rw [HashChain.valid_append]
      exact ⟨hv, rfl, rfl, trivial⟩
    have htip : (auditChain P).tip (genesis P)
        (done ++ [row.withHashes ((auditChain P).tip (genesis P) done)
          (row.hashAfter P ((auditChain P).tip (genesis P) done))])
        = row.hashAfter P ((auditChain P).tip (genesis P) done) := HashChain.tip_append _ _ _
    rw [backfill, ← htip]
    refine ih _ _ hcols ?_ ?_ hstep
    · rw [htip, ids_setHashes]
      exact hn
    · rw [htip, hsplit, List.append_assoc]
      rfl

/-! ## ensure_schema -/

theorem addPreviousHash_spec (t : AuditTable T) :
    (if t.hasPreviousHash then t else t.addPreviousHash).hasPreviousHash = true ∧
      (if t.hasPreviousHash then t else t.addPreviousHash).rows.map (·.id) = t.rows.map (·.id) := by
  by_cases h : t.hasPreviousHash = true
  · rw [if_pos h]
    exact ⟨h, rfl⟩
  · rw [if_neg h]
    exact ⟨rfl, by simp only [AuditTable.addPreviousHash, List.map_map]; rfl⟩

theorem addHash_spec (t : AuditTable T) :
    (if t.hasHash then t else t.addHash).hasHash = true ∧
      (if t.hasHash then t else t.addHash).hasPreviousHash = t.hasPreviousHash ∧
      (if t.hasHash then t else t.addHash).rows.map (·.id) = t.rows.map (·.id) := by
  by_cases h : t.hasHash = true
  · rw [if_pos h]
    exact ⟨h, rfl, rfl⟩
  · rw [if_neg h]
    exact ⟨rfl, rfl, by simp only [AuditTable.addHash, List.map_map]; rfl⟩

/-- A table with both hash columns is left alone. -/
theorem ensureSchema_of_columns {t : AuditTable T}
    (h : t.hasPreviousHash = true ∧ t.hasHash = true) : ensureSchema P t = t := if_pos h

/-- **A legacy table is a valid chain after the migration.** -/
theorem ensureSchema_chained {t : AuditTable T} (hn : (t.rows.map (·.id)).Nodup)
    (hlegacy : ¬ (t.hasPreviousHash = true ∧ t.hasHash = true)) :
    Chained P (ensureSchema P t) := by
  rw [ensureSchema, if_neg hlegacy]
  obtain ⟨hprev, hids⟩ := addPreviousHash_spec t
  obtain ⟨hhash, hprev', hids'⟩ :=
    addHash_spec (if t.hasPreviousHash then t else t.addPreviousHash)
  refine backfill_chained _ [] _ ⟨hprev'.trans hprev, hhash⟩ ?_ rfl trivial
  rw [hids', hids]
  exact hn

end MiniVault
