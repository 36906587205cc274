/-
  The migration of the audit table against its daily business: `ensure_schema` gives a legacy
  table the hashes that it would have if its rows had been appended one after the other, in id
  order, to a table that had the hash columns from the start. A valid chain is determined by what
  its rows say besides their hashes.
-/
import MiniVault.Audit.Schema
import MiniVault.Audit.Verify

namespace MiniVault

open Kit

variable {T B J : Type} {P : Prims T B J}

/-! ## Rows without their hashes -/

/-- The columns that the migration does not write. -/
def AuditLog.bare (log : AuditLog T) : AuditLog T :=
  { log with previousHashB64 := none, hashB64 := none }

theorem hashAfter_bare (prev : T) (log : AuditLog T) :
    log.bare.hashAfter P prev = log.hashAfter P prev := rfl

theorem eq_of_bare {a b : AuditLog T} (h : a.bare = b.bare)
    (hprev : a.previousHashB64 = b.previousHashB64) (hhash : a.hashB64 = b.hashB64) : a = b := by
  have heq : ({ a.bare with previousHashB64 := a.previousHashB64, hashB64 := a.hashB64 } :
      AuditLog T) = { b.bare with previousHashB64 := b.previousHashB64, hashB64 := b.hashB64 } := by
    rw [h, hprev, hhash]
  exact heq

/-- Sorting by id does not look at the hashes. -/
theorem byId_bare {t t' : AuditTable T}
    (h : t.rows.map AuditLog.bare = t'.rows.map AuditLog.bare) :
    t.byId.map AuditLog.bare = t'.byId.map AuditLog.bare := by
  have hsort : ∀ t : AuditTable T, t.byId.map AuditLog.bare =
      (t.rows.map AuditLog.bare).insertionSort fun a b => a.id ≤ b.id := fun t =>
    List.map_insertionSort _ _ _ t.rows fun _ _ _ _ => Iff.rfl
  rw [hsort, hsort, h]

/-- **A chain is determined by its bare rows.** -/
theorem chain_unique {as bs : List (AuditLog T)} {prev : T}
    (ha : (auditChain P).Valid prev as) (hb : (auditChain P).Valid prev bs)
    (h : as.map AuditLog.bare = bs.map AuditLog.bare) : as = bs := by
  induction as generalizing bs prev with
  | nil => exact (List.map_eq_nil_iff.1 h.symm).symm
  | cons a as ih =>
    cases bs with
    | nil => cases h
    | cons b bs =>
      obtain ⟨hbare, hrest⟩ := List.cons.inj h
      obtain ⟨haprev, hahash, hvalid⟩ := ha
      obtain ⟨hbprev, hbhash, hvalid'⟩ := hb
      have hlink : (auditChain P).link prev a = (auditChain P).link prev b := by
        show a.hashAfter P prev = b.hashAfter P prev
        rw [← hashAfter_bare, hbare, hashAfter_bare]
      rw [hlink] at hahash hvalid
      rw [eq_of_bare hbare (haprev.trans hbprev.symm) (hahash.trans hbhash.symm),
        ih hvalid hvalid' hrest]

/-! ## What the migration keeps -/

theorem bare_withHashes (prev h : T) (log : AuditLog T) : (log.withHashes prev h).bare = log.bare :=
  rfl

theorem bare_setHashes (t : AuditTable T) (id : Int) (prev h : T) :
    (t.setHashes id prev h).rows.map AuditLog.bare = t.rows.map AuditLog.bare := by
  rw [AuditTable.setHashes, List.map_map]
  refine List.map_congr_left fun log _ => ?_
  simp only [Function.comp]
  split
  · exact bare_withHashes prev h log
  · rfl

theorem bare_backfill (rows : List (AuditLog T)) (prev : T) (t : AuditTable T) :
    (backfill P prev rows t).rows.map AuditLog.bare = t.rows.map AuditLog.bare := by
  induction rows generalizing prev t with
  | nil => rfl
  | cons row rows ih =>
    rw [backfill]
    exact (ih _ _).trans (bare_setHashes t row.id prev _)

theorem bare_ensureSchema (t : AuditTable T) :
    (ensureSchema P t).rows.map AuditLog.bare = t.rows.map AuditLog.bare := by
  have hprev : (if t.hasPreviousHash then t else t.addPreviousHash).rows.map AuditLog.bare =
      t.rows.map AuditLog.bare := by
    split
    · rfl
    · exact List.map_map
  have hhash : ∀ t : AuditTable T, (if t.hasHash then t else t.addHash).rows.map AuditLog.bare =
      t.rows.map AuditLog.bare := by
    intro t
    split
    · rfl
    · exact List.map_map
  unfold ensureSchema
  split
  · rfl
  · exact (bare_backfill _ _ _).trans ((hhash _).trans hprev)

/-! ## Appending the rows one by one -/

/-- `audit`, with the id, the time and the columns of a row. -/
def AuditTable.record (P : Prims T B J) (t : AuditTable T) (log : AuditLog T) : AuditTable T :=
  t.append P log.id log.createdAt log.requesterEmail log.action log.resourceType
    log.resourceIdentifier log.result log.clientIp

/-- The table after some rows are appended to an empty one. -/
def recorded (P : Prims T B J) (rows : List (AuditLog T)) : AuditTable T :=
  rows.foldl (AuditTable.record P) ⟨true, true, []⟩

theorem recorded_concat (rows : List (AuditLog T)) (log : AuditLog T) :
    recorded P (rows ++ [log]) = (recorded P rows).record P log := List.foldl_append

theorem bare_recorded (rows : List (AuditLog T)) :
    (recorded P rows).rows.map AuditLog.bare = rows.map AuditLog.bare := by
  induction rows using List.reverseRecOn with
  | nil => rfl
  | append_singleton rows log ih =>
    rw [recorded_concat, List.map_append, ← ih]
    exact List.map_append

theorem ids_recorded (rows : List (AuditLog T)) :
    (recorded P rows).rows.map (·.id) = rows.map (·.id) := by
  have hbare := congrArg (List.map AuditLog.id) (bare_recorded (P := P) rows)
  rw [List.map_map, List.map_map] at hbare
  exact hbare

theorem recorded_chained {rows : List (AuditLog T)} (h : rows.Pairwise (·.id < ·.id)) :
    Chained P (recorded P rows) := by
  induction rows using List.reverseRecOn with
  | nil => exact ⟨⟨rfl, rfl⟩, List.nodup_nil, trivial⟩
  | append_singleton rows log ih =>
    obtain ⟨hrows, -, hlast⟩ := List.pairwise_append.1 h
    rw [recorded_concat]
    refine (ih hrows).append fun i hi => ?_
    rw [ids_recorded] at hi
    obtain ⟨a, ha, rfl⟩ := List.mem_map.1 hi
    exact hlast a ha log List.mem_cons_self

/-- **The migration replays the log.** A table without one of the hash columns, or both, holds
    after `ensure_schema` the same rows at the same places, and in id order it is, hashes
    included, the table that appending its rows one by one would have left; running the migration
    once more changes nothing. -/
theorem migration_replays {t : AuditTable T} (hn : (t.rows.map (·.id)).Nodup)
    (hlegacy : ¬ (t.hasPreviousHash = true ∧ t.hasHash = true)) :
    (ensureSchema P t).rows.map AuditLog.bare = t.rows.map AuditLog.bare ∧
      (ensureSchema P t).byId = (recorded P t.byId).rows ∧
      ensureSchema P (ensureSchema P t) = ensureSchema P t := by
  have hchained : Chained P (ensureSchema P t) := ensureSchema_chained hn hlegacy
  have hsorted : t.byId.Pairwise (·.id < ·.id) := by
    have hne := List.pairwise_map.1 (nodup_byId hn)
    exact ((byId_pairwise t).and hne).imp fun h => lt_of_le_of_ne h.1 h.2
  have hids : (recorded P t.byId).byId = (recorded P t.byId).rows := by
    refine byId_of_pairwise ?_
    rw [← List.pairwise_map (f := AuditLog.id) (R := (· < ·)), ids_recorded, List.pairwise_map]
    exact hsorted
  refine ⟨bare_ensureSchema t, ?_, ensureSchema_of_columns hchained.columns⟩
  rw [← hids]
  refine chain_unique hchained.valid (recorded_chained hsorted).valid ?_
  rw [byId_bare (bare_ensureSchema t), hids, bare_recorded]

open Sample in
theorem migration_replays_sample :
    (ensureSchema (concrete lib) legacy).rows.map (·.id) = [7, 3] ∧
      (ensureSchema (concrete lib) legacy).byId =
        ((⟨true, true, []⟩ : AuditTable Text)
          |>.append (concrete lib) 3 0 ['a'] ['W'] ['K'] ['y'] ['D'] none
          |>.append (concrete lib) 7 0 ['b'] ['R'] ['K'] ['x'] ['D'] none).rows := by
  obtain ⟨hbare, hrows, -⟩ := migration_replays (P := concrete lib) (t := legacy) (by decide)
    (by decide)
  have hids := congrArg (List.map AuditLog.id) hbare
  rw [List.map_map, List.map_map] at hids
  exact ⟨hids, hrows⟩

end MiniVault
