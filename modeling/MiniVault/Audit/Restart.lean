/-
  `ensure_schema` statement by statement, stopped anywhere and run again. Each `ALTER TABLE` takes
  effect at once, the `UPDATE`s take effect together with the commit; whether to backfill is
  decided by the columns alone. A stop between the last `ALTER TABLE` and the commit leaves both
  columns without hashes, and the next start takes that for a finished migration.
-/
import MiniVault.Audit.Verify
import MiniVault.Kit.Transaction

namespace MiniVault

open Kit Transaction

variable {T B J : Type} {P : Prims T B J}

/-! ## The statements -/

/-- The `ALTER TABLE` statements for the columns that are missing. -/
def AuditTable.alters (t : AuditTable T) : List (AuditTable T → AuditTable T) :=
  (if t.hasPreviousHash then [] else [AuditTable.addPreviousHash]) ++
    (if t.hasHash then [] else [AuditTable.addHash])

/-- The `UPDATE` statements of the backfill loop, over the rows that the `SELECT` returned. -/
def updates (P : Prims T B J) (prevHash : T) :
    List (AuditLog T) → List (AuditTable T → AuditTable T)
  | [] => []
  | row :: rows =>
    let newHash := row.hashAfter P prevHash
    (·.setHashes row.id prevHash newHash) :: updates P newHash rows

/-- `ensure_schema`: its statements up to the commit that ends `engine.begin()`. -/
def ensureSchemaScript (P : Prims T B J) (t : AuditTable T) : List (Statement (AuditTable T)) :=
  if t.hasPreviousHash ∧ t.hasHash then []
  else
    -- the `SELECT` sees the altered table
    let rows := ((connect t).run (t.alters.map .schema)).view.byId
    t.alters.map .schema ++ (.query :: (updates P (genesis P) rows).map .data ++ [.commit])

/-- `ensure_schema` stopped after `k` statements, and run again at the next start. -/
def AuditTable.restarted (P : Prims T B J) (t : AuditTable T) (k : Nat) : AuditTable T :=
  let left := stopped t (ensureSchemaScript P t) k
  completed left (ensureSchemaScript P left)

/-! ## The complete run -/

theorem applyAll_updates (rows : List (AuditLog T)) (prevHash : T) (t : AuditTable T) :
    applyAll (updates P prevHash rows) t = backfill P prevHash rows t := by
  induction rows generalizing prevHash t with
  | nil => rfl
  | cons row rows ih => exact ih _ _

theorem applyAll_alters (t : AuditTable T) :
    applyAll t.alters t =
      let t' := if t.hasPreviousHash then t else t.addPreviousHash
      if t'.hasHash then t' else t'.addHash := by
  unfold AuditTable.alters
  rcases hp : t.hasPreviousHash with _ | _
  · rcases hh : t.hasHash with _ | _
    · simp [applyAll, AuditTable.addPreviousHash, hh]
    · simp [applyAll, AuditTable.addPreviousHash, hh]
  · rcases hh : t.hasHash with _ | _
    · simp [applyAll, hh]
    · simp [applyAll, hh]

theorem ensureSchemaScript_of_legacy {t : AuditTable T}
    (h : ¬ (t.hasPreviousHash = true ∧ t.hasHash = true)) :
    ensureSchemaScript P t =
      script t.alters (updates P (genesis P) (applyAll t.alters t).byId) := by
  rw [ensureSchemaScript, if_neg h]
  dsimp only
  rw [run_schema]
  rfl

/-- **The script, run to its end, is `ensure_schema`.** -/
theorem completed_ensureSchemaScript (t : AuditTable T) :
    completed t (ensureSchemaScript P t) = ensureSchema P t := by
  by_cases h : t.hasPreviousHash = true ∧ t.hasHash = true
  · rw [ensureSchemaScript, if_pos h, ensureSchema, if_pos h]
    rfl
  · rw [ensureSchemaScript_of_legacy h, completed_script, applyAll_updates, applyAll_alters,
      ensureSchema, if_neg h]

/-! ## Stops -/

section Legacy

variable {t : AuditTable T}

theorem alters_cases (h : ¬ (t.hasPreviousHash = true ∧ t.hasHash = true)) :
    (t.hasPreviousHash = false ∧ t.hasHash = false ∧
        t.alters = [AuditTable.addPreviousHash, AuditTable.addHash]) ∨
      (t.hasPreviousHash = false ∧ t.hasHash = true ∧
        t.alters = [AuditTable.addPreviousHash]) ∨
      (t.hasPreviousHash = true ∧ t.hasHash = false ∧ t.alters = [AuditTable.addHash]) := by
  unfold AuditTable.alters
  rcases hp : t.hasPreviousHash with _ | _
  · rcases hh : t.hasHash with _ | _
    · exact .inl ⟨rfl, rfl, rfl⟩
    · exact .inr (.inl ⟨rfl, rfl, rfl⟩)
  · rcases hh : t.hasHash with _ | _
    · exact .inr (.inr ⟨rfl, rfl, rfl⟩)
    · exact absurd ⟨hp, hh⟩ h

theorem ids_applyAll_take_alters (h : ¬ (t.hasPreviousHash = true ∧ t.hasHash = true)) (k : Nat) :
    (applyAll (t.alters.take k) t).rows.map (·.id) = t.rows.map (·.id) := by
  refine applyAll_induction
    (I := fun u : AuditTable T => u.rows.map (·.id) = t.rows.map (·.id)) rfl ?_
  intro f hf u hu
  have halter : f = AuditTable.addPreviousHash ∨ f = AuditTable.addHash := by
    have hf := List.mem_of_mem_take hf
    rcases alters_cases h with ⟨-, -, heq⟩ | ⟨-, -, heq⟩ | ⟨-, -, heq⟩
    · simpa [heq] using hf
    · exact .inl (by simpa [heq] using hf)
    · exact .inr (by simpa [heq] using hf)
  rw [← hu]
  rcases halter with rfl | rfl
  · rw [AuditTable.addPreviousHash, List.map_map]
    rfl
  · rw [AuditTable.addHash, List.map_map]
    rfl

/-- Before the last `ALTER TABLE`, a column is still missing. -/
theorem legacy_of_lt_alters (h : ¬ (t.hasPreviousHash = true ∧ t.hasHash = true)) {k : Nat}
    (hk : k < t.alters.length) :
    ¬ ((applyAll (t.alters.take k) t).hasPreviousHash = true ∧
      (applyAll (t.alters.take k) t).hasHash = true) := by
  rcases alters_cases h with ⟨hp, hh, heq⟩ | ⟨hp, hh, heq⟩ | ⟨hp, hh, heq⟩
  · rw [heq] at hk ⊢
    rcases k with _ | _ | k
    · simp [applyAll, hp]
    · simp [applyAll, AuditTable.addPreviousHash, hh]
    · exact absurd hk (by simp)
  · rw [heq] at hk ⊢
    rw [Nat.lt_one_iff.1 hk]
    simp [applyAll, hp]
  · rw [heq] at hk ⊢
    rw [Nat.lt_one_iff.1 hk]
    simp [applyAll, hh]

/-- After it, both columns are there, and one of them is null in every row. -/
theorem altered_columns (h : ¬ (t.hasPreviousHash = true ∧ t.hasHash = true)) :
    ((applyAll t.alters t).hasPreviousHash = true ∧ (applyAll t.alters t).hasHash = true) ∧
      ∀ log ∈ (applyAll t.alters t).rows, log.previousHashB64 = none ∨ log.hashB64 = none := by
  rcases alters_cases h with ⟨-, -, heq⟩ | ⟨-, hh, heq⟩ | ⟨hp, -, heq⟩
  · rw [heq]
    refine ⟨⟨rfl, rfl⟩, fun log hlog => .inr ?_⟩
    obtain ⟨row, -, rfl⟩ := List.mem_map.1 hlog
    rfl
  · rw [heq]
    refine ⟨⟨rfl, hh⟩, fun log hlog => .inl ?_⟩
    obtain ⟨row, -, rfl⟩ := List.mem_map.1 hlog
    rfl
  · rw [heq]
    refine ⟨⟨hp, rfl⟩, fun log hlog => .inr ?_⟩
    obtain ⟨row, -, rfl⟩ := List.mem_map.1 hlog
    rfl

/-- A row without one of the hashes makes the log invalid, wherever it stands. -/
theorem rows_of_valid [DecidableEq T]
    (hnull : ∀ log ∈ t.rows, log.previousHashB64 = none ∨ log.hashB64 = none) :
    auditVerify P t = .valid ↔ t.rows = [] := by
  rw [auditVerify_eq_valid]
  constructor
  · intro hvalid
    rcases hrows : t.byId with _ | ⟨log, logs⟩
    · exact List.Perm.eq_nil (hrows ▸ (byId_perm t).symm)
    · rw [hrows] at hvalid
      have hlog : log ∈ t.rows := (byId_perm t).mem_iff.1 (hrows ▸ List.mem_cons_self)
      obtain ⟨hprev, hhash, -⟩ := hvalid
      rcases hnull log hlog with h | h
      · cases hprev.symm.trans h
      · cases hhash.symm.trans h
  · intro hnil
    rw [AuditTable.byId, hnil]
    trivial

end Legacy

/-- **Stopped and started again, the migration leaves a valid log** exactly if there was no row, or
    the process did not stop between the last `ALTER TABLE` and the commit. -/
theorem restarted_valid_iff [DecidableEq T] {t : AuditTable T} (hn : (t.rows.map (·.id)).Nodup)
    (hlegacy : ¬ (t.hasPreviousHash = true ∧ t.hasHash = true)) (k : Nat) :
    auditVerify P (t.restarted P k) = .valid ↔
      t.rows = [] ∨ k < t.alters.length ∨ (ensureSchemaScript P t).length ≤ k := by
  have hids := ids_applyAll_take_alters hlegacy
  have hrows : ∀ u : AuditTable T, u.rows.map (·.id) = t.rows.map (·.id) →
      (u.rows = [] ↔ t.rows = []) := by
    intro u hu
    rw [← List.map_eq_nil_iff (f := AuditLog.id), hu, List.map_eq_nil_iff]
  rw [AuditTable.restarted, completed_ensureSchemaScript, ensureSchemaScript_of_legacy hlegacy,
    stopped_script]
  by_cases hk : k < t.alters.length
  · -- a column is still missing, and the next start migrates the table
    rw [if_pos hk]
    have hchained := ensureSchema_chained (P := P) ((hids k).symm ▸ hn)
      (legacy_of_lt_alters hlegacy hk)
    exact ⟨fun _ => .inr (.inl hk), fun _ => auditVerify_eq_valid.2 hchained.valid⟩
  · rw [if_neg hk]
    by_cases hall : k < (script t.alters (updates P (genesis P) (applyAll t.alters t).byId)).length
    · -- both columns are there, and the next start leaves the table alone
      obtain ⟨hcols, hnull⟩ := altered_columns hlegacy
      have hids := hids t.alters.length
      rw [List.take_length] at hids
      rw [if_pos hall, ensureSchema_of_columns hcols, rows_of_valid hnull, hrows _ hids]
      exact ⟨.inl, fun h => h.resolve_right (by omega)⟩
    · -- the migration was complete
      have hfull : applyAll (updates P (genesis P) (applyAll t.alters t).byId)
          (applyAll t.alters t) = ensureSchema P t := by
        rw [← completed_script, ← ensureSchemaScript_of_legacy hlegacy,
          completed_ensureSchemaScript]
      have hchained := ensureSchema_chained (P := P) hn hlegacy
      rw [if_neg hall, hfull, ensureSchema_of_columns hchained.columns]
      exact ⟨fun _ => .inr (.inr (Nat.not_lt.1 hall)), fun _ =>
        auditVerify_eq_valid.2 hchained.valid⟩

open Sample in
/-- The sample log, stopped after the two `ALTER TABLE`s and started again, is reported broken. -/
theorem restarted_broken :
    (legacy.rows.map (·.id)).Nodup ∧
      ¬ (legacy.hasPreviousHash = true ∧ legacy.hasHash = true) ∧
      auditVerify (concrete lib) (legacy.restarted (concrete lib) 2) =
        .broken 3 "Previous hash mismatch" :=
  ⟨by decide, by decide, by decide +kernel⟩

open Sample in
theorem restarted_valid_iff_sample :
    auditVerify (concrete lib) (legacy.restarted (concrete lib) 1) = .valid :=
  (restarted_valid_iff (by decide) (by decide) 1).2 (.inr (.inl (by decide)))

end MiniVault
