/-
  What `audit_verify` finds out: no false alarm in any run, every edit of what the hash covers,
  and every removal of rows other than the last ones.

  The hash of a row covers its id, the hash before it and the text
  `email|action|identifier|result` (`AuditLog.hashedText`). It does not cover `resource_type`,
  `client_ip` and `created_at`, and nothing outside the table records how long the log was.
-/
import MiniVault.Audit.Schema
import MiniVault.Kit.Separator
import MiniVault.Model.Sample

namespace MiniVault

open Kit

variable {F : Type} {L : Lib F}

/-! ## Runs -/

section Runs

variable {T B J : Type} {P : Prims T B J}

/-- The audit table after one call. -/
def AuditCall.apply (e : Env P) (t : AuditTable T) : AuditCall T → AuditTable T
  | .audit email action resourceType identifier result clientIp =>
    t.append P (e.auditId (t.rows.map (·.id))) e.now email action resourceType identifier result
      clientIp
  | .restart => ensureSchema P t

theorem Chained.apply {t : AuditTable T} (h : Chained P t) (e : Env P) (c : AuditCall T) :
    Chained P (c.apply e t) := by
  cases c with
  | audit => exact h.append (e.auditId_gt _)
  | restart =>
    rw [AuditCall.apply, ensureSchema_of_columns h.columns]
    exact h

/-- The tables a run may start from: an empty one with both hash columns, or a legacy one with
    distinct ids on which `ensure_schema` has run. -/
def AuditStart (P : Prims T B J) (t : AuditTable T) : Prop :=
  t = ⟨true, true, []⟩ ∨
    ∃ legacy : AuditTable T, (legacy.rows.map (·.id)).Nodup ∧
      ¬ (legacy.hasPreviousHash = true ∧ legacy.hasHash = true) ∧ t = ensureSchema P legacy

theorem AuditStart.chained {t : AuditTable T} (h : AuditStart P t) : Chained P t := by
  rcases h with rfl | ⟨legacy, hn, hlegacy, rfl⟩
  · exact ⟨⟨rfl, rfl⟩, List.nodup_nil, trivial⟩
  · exact ensureSchema_chained hn hlegacy

variable [DecidableEq T]

theorem run_auditLogs (w : World T B) (e : Env P) (c : AuditCall T) :
    (w.run e c.run).2.db.auditLogs = c.apply e w.db.auditLogs := by
  cases c <;> rfl

/-- What every call keeps, every run keeps. -/
theorem auditRun_induction {I : AuditTable T → Prop} {w : World T B} (h : I w.db.auditLogs)
    (hstep : ∀ (e : Env P) (c : AuditCall T) t, I t → I (c.apply e t))
    (calls : List (Env P × AuditCall T)) : I (w.auditRun calls).db.auditLogs := by
  induction calls generalizing w with
  | nil => exact h
  | cons c calls ih =>
    refine ih ?_
    rw [run_auditLogs]
    exact hstep _ _ _ h

theorem Chained.auditRun {w : World T B} (h : Chained P w.db.auditLogs)
    (calls : List (Env P × AuditCall T)) : Chained P (w.auditRun calls).db.auditLogs :=
  auditRun_induction h (fun e c _ ht => ht.apply e c) calls

/-- **No false alarm.** After any run of `audit` calls and restarts, the log verifies. -/
theorem auditVerify_auditRun (w : World T B) (hstart : AuditStart P w.db.auditLogs)
    (calls : List (Env P × AuditCall T)) :
    auditVerify P (w.auditRun calls).db.auditLogs = .valid :=
  auditVerify_eq_valid.2 (hstart.chained.auditRun calls).valid

/-- A legacy table without hashes, its rows not in id order. -/
def Sample.legacy : AuditTable Text :=
  ⟨false, false,
    [⟨7, ['b'], ['R'], ['K'], ['x'], ['D'], none, none, none, 0⟩,
      ⟨3, ['a'], ['W'], ['K'], ['y'], ['D'], none, none, none, 0⟩]⟩

def Sample.audits : List (Env (concrete Sample.lib) × AuditCall Text) :=
  [(Sample.env 1, .audit "bob@x.y".toList "READ".toList "KV_SECRET".toList "secret/a".toList
      "DENIED".toList none),
    (Sample.env 2, .restart),
    (Sample.env 3, .audit "eve@x.y".toList "SIGN".toList "TRANSIT_KEY".toList "key".toList
      "DENIED".toList none)]

theorem auditVerify_auditRun_sample :
    auditVerify (concrete Sample.lib) ((⟨{ Database.empty Text with
      auditLogs := ensureSchema (concrete Sample.lib) Sample.legacy }, none, []⟩ :
        World Text Bytes).auditRun Sample.audits).db.auditLogs = .valid :=
  auditVerify_auditRun _ (.inr ⟨Sample.legacy, by decide, by decide, rfl⟩) _

/-- A table in id order with both hash columns grows at its end. -/
theorem auditRun_rows {w : World T B}
    (hcols : w.db.auditLogs.hasPreviousHash = true ∧ w.db.auditLogs.hasHash = true)
    (hp : w.db.auditLogs.rows.Pairwise (·.id < ·.id)) (calls : List (Env P × AuditCall T)) :
    (w.auditRun calls).db.auditLogs.rows.Pairwise (·.id < ·.id) ∧
      w.db.auditLogs.rows <+: (w.auditRun calls).db.auditLogs.rows := by
  have hstep : ∀ (e : Env P) (c : AuditCall T) (t : AuditTable T),
      (t.hasPreviousHash = true ∧ t.hasHash = true) ∧ t.rows.Pairwise (·.id < ·.id) ∧
        w.db.auditLogs.rows <+: t.rows →
      ((c.apply e t).hasPreviousHash = true ∧ (c.apply e t).hasHash = true) ∧
        (c.apply e t).rows.Pairwise (·.id < ·.id) ∧ w.db.auditLogs.rows <+: (c.apply e t).rows := by
    rintro e c t ⟨hc, hp, hpre⟩
    cases c with
    | restart =>
      rw [AuditCall.apply, ensureSchema_of_columns hc]
      exact ⟨hc, hp, hpre⟩
    | audit email action resourceType identifier result clientIp =>
      refine ⟨hc, ?_, hpre.trans (List.prefix_append _ _)⟩
      refine List.pairwise_append.2 ⟨hp, List.pairwise_singleton _ _, ?_⟩
      intro a ha b hb
      rw [List.mem_singleton.1 hb]
      exact e.auditId_gt _ _ (List.mem_map_of_mem ha)
  exact (auditRun_induction ⟨hcols, hp, List.prefix_rfl⟩ hstep calls).2

end Runs

/-! ## What the hash covers -/

/-- The columns the hash covers besides id and the hash before, as they are joined. -/
def AuditLog.hashedText (log : AuditLog Text) : Text :=
  log.requesterEmail ++ ['|'] ++ log.action ++ ['|'] ++ log.resourceIdentifier ++ ['|'] ++
    log.result

theorem dataStr_eq (log : AuditLog Text) (prev : Text) :
    dataStr (concrete L) log.id prev log.requesterEmail log.action log.resourceIdentifier
      log.result = str log.id ++ '|' :: (prev ++ '|' :: log.hashedText) := by
  simp [dataStr, concrete, AuditLog.hashedText]

theorem chainHash_injective (hsha : Function.Injective L.sha256) :
    Function.Injective (chainHash (concrete L)) := fun _ _ h =>
  Utf8.encode_injective (hsha (Base64.encode_injective h))

theorem bar_notMem_str (n : Int) : '|' ∉ str n := Json.notMem_intRepr rfl (by decide) n

theorem hashAfter_inj (hsha : Function.Injective L.sha256) {g g' : Text} {a b : AuditLog Text}
    (h : a.hashAfter (concrete L) g = b.hashAfter (concrete L) g') :
    a.id = b.id ∧ g ++ '|' :: a.hashedText = g' ++ '|' :: b.hashedText := by
  have hdata := chainHash_injective hsha h
  rw [dataStr_eq, dataStr_eq] at hdata
  obtain ⟨hid, hrest⟩ :=
    Separator.append_cons_inj (bar_notMem_str a.id) (bar_notMem_str b.id) hdata
  exact ⟨Json.intRepr_injective hid, hrest⟩

/-- After the same hash, rows with different covered columns have different hashes. -/
theorem hashedText_eq (hsha : Function.Injective L.sha256) {g : Text} {a b : AuditLog Text}
    (h : a.hashAfter (concrete L) g = b.hashAfter (concrete L) g) :
    a.hashedText = b.hashedText :=
  (List.cons.inj (List.append_cancel_left (hashAfter_inj hsha h).2)).2

/-- No hash is the word the chain starts with: its length is a multiple of four. -/
theorem hashAfter_ne_genesis (g : Text) (a : AuditLog Text) :
    a.hashAfter (concrete L) g ≠ genesis (concrete L) := by
  intro h
  have hlen := Base64.length_encode (L.sha256 (Utf8.encode (dataStr (concrete L) a.id g
    a.requesterEmail a.action a.resourceIdentifier a.result)))
  have h7 : (Base64.encode (L.sha256 (Utf8.encode (dataStr (concrete L) a.id g
    a.requesterEmail a.action a.resourceIdentifier a.result)))).length = 7 := congrArg List.length h
  omega

/-! ## Edits -/

/-- The edits the verifier is held to: one row, in place, changing something; of the last row
    either the hash columns only or the other columns only. -/
structure Edit (x y : AuditLog Text) (zs : List (AuditLog Text)) : Prop where
  id : y.id = x.id
  changed : y ≠ x
  last : zs = [] →
    (y.previousHashB64 = x.previousHashB64 ∧ y.hashB64 = x.hashB64) ∨
      y = { x with previousHashB64 := y.previousHashB64, hashB64 := y.hashB64 }

/-- **Edits are detected**: on every reachable log, every edit of one row that changes a hash
    column or the covered text. -/
theorem edit_detected (hsha : Function.Injective L.sha256) {w : World Text Bytes}
    (hempty : w.db.auditLogs = ⟨true, true, []⟩)
    (calls : List (Env (concrete L) × AuditCall Text)) (xs : List (AuditLog Text))
    (x y : AuditLog Text) (zs : List (AuditLog Text))
    (hrows : (w.auditRun calls).db.auditLogs.rows = xs ++ x :: zs) (hedit : Edit x y zs)
    (hcovered : y.previousHashB64 ≠ x.previousHashB64 ∨ y.hashB64 ≠ x.hashB64 ∨
      y.hashedText ≠ x.hashedText) :
    auditVerify (concrete L) { (w.auditRun calls).db.auditLogs with rows := xs ++ y :: zs } ≠
      .valid := by
  have hstart : AuditStart (concrete L) w.db.auditLogs := .inl hempty
  have hv := (hstart.chained.auditRun calls).valid
  obtain ⟨hp, -⟩ := auditRun_rows (w := w) (by rw [hempty]; exact ⟨rfl, rfl⟩)
    (by rw [hempty]; exact List.Pairwise.nil) calls
  rw [byId_of_pairwise hp, hrows] at hv
  have hp' : (xs ++ y :: zs).Pairwise (·.id < ·.id) := by
    rw [hrows] at hp
    have hmap : (xs ++ y :: zs).map (·.id) = (xs ++ x :: zs).map (·.id) := by
      simp [hedit.id]
    rw [← List.pairwise_map (f := AuditLog.id) (R := (· < ·))] at hp ⊢
    rw [hmap]
    exact hp
  intro hvalid
  rw [auditVerify_eq_valid, byId_of_pairwise hp'] at hvalid
  obtain ⟨hprev, hrest⟩ := HashChain.valid_edit hv hvalid
  have hside : zs ≠ [] ∨ y.hashB64 = x.hashB64 := by
    by_cases hz : zs = []
    · right
      rcases hedit.last hz with h | h
      · exact h.2
      · -- only the hash columns differ, and the hash before is right: so is the hash
        obtain ⟨-, -, hx, -⟩ := HashChain.valid_append.1 hv
        obtain ⟨-, -, hy, -⟩ := HashChain.valid_append.1 hvalid
        have hlink : (auditChain (concrete L)).link ((auditChain (concrete L)).tip
            (genesis (concrete L)) xs) y = (auditChain (concrete L)).link
            ((auditChain (concrete L)).tip (genesis (concrete L)) xs) x := by
          rw [h]
          rfl
        exact hy.trans (hlink ▸ hx.symm)
    · exact .inl hz
  obtain ⟨hhash, hlink⟩ := hrest hside
  rcases hcovered with h | h | h
  · exact h hprev
  · exact h hhash
  · exact h (hashedText_eq hsha hlink)

/-- The log after the sample calls, from an empty database. -/
def Sample.log : AuditTable Text :=
  ((⟨Database.empty Text, none, []⟩ : World Text Bytes).auditRun Sample.audits).db.auditLogs

/-- Its first row. -/
def Sample.row : AuditLog Text :=
  { id := 1, requesterEmail := "bob@x.y".toList, action := "READ".toList
    resourceType := "KV_SECRET".toList, resourceIdentifier := "secret/a".toList
    result := "DENIED".toList, clientIp := none, previousHashB64 := some "GENESIS".toList
    hashB64 := some (chainHash (concrete Sample.lib)
      "1|GENESIS|bob@x.y|READ|secret/a|DENIED".toList)
    createdAt := 1700000000000000 }

theorem edit_detected_sample :
    auditVerify (concrete Sample.lib) { Sample.log with
      rows := { Sample.row with result := "OK".toList } :: Sample.log.rows.tail } ≠ .valid :=
  edit_detected (fun _ _ h => h) (w := ⟨Database.empty Text, none, []⟩) rfl Sample.audits []
    Sample.row _ Sample.log.rows.tail (by decide +kernel)
    ⟨rfl, by decide +kernel, fun h => absurd h (by decide +kernel)⟩
    (.inr (.inr (by decide +kernel)))

/-- An edit of the resource type, the client's address and the time goes unnoticed. -/
theorem edit_undetected :
    Function.Injective Sample.lib.sha256 ∧
      Sample.log.rows = [] ++ Sample.row :: Sample.log.rows.tail ∧
      Edit Sample.row { Sample.row with
        resourceType := "TRANSIT_KEY".toList, clientIp := some "10.0.0.1".toList, createdAt := 0 }
        Sample.log.rows.tail ∧
      auditVerify (concrete Sample.lib) { Sample.log with
        rows := [] ++ { Sample.row with
          resourceType := "TRANSIT_KEY".toList, clientIp := some "10.0.0.1".toList
          createdAt := 0 } :: Sample.log.rows.tail } = .valid :=
  ⟨fun _ _ h => h, by decide +kernel,
    ⟨rfl, by decide +kernel, fun h => absurd h (by decide +kernel)⟩, by decide +kernel⟩

/-! ## Removals -/

/-- **Removals are detected, now and later, unless they take the tail of the log**: of every
    reachable log, for every removal and every further run. -/
theorem removal_detected_iff (hsha : Function.Injective L.sha256) {w : World Text Bytes}
    (hempty : w.db.auditLogs = ⟨true, true, []⟩)
    (calls : List (Env (concrete L) × AuditCall Text)) (rows : List (AuditLog Text))
    (hsub : rows.Sublist (w.auditRun calls).db.auditLogs.rows) {w' : World Text Bytes}
    (hw' : w'.db.auditLogs = { (w.auditRun calls).db.auditLogs with rows := rows })
    (more : List (Env (concrete L) × AuditCall Text)) :
    auditVerify (concrete L) (w'.auditRun more).db.auditLogs ≠ .valid ↔
      ¬ rows <+: (w.auditRun calls).db.auditLogs.rows := by
  have hstart : AuditStart (concrete L) w.db.auditLogs := .inl hempty
  have hchained := hstart.chained.auditRun calls
  obtain ⟨hp, -⟩ := auditRun_rows (w := w) (by rw [hempty]; exact ⟨rfl, rfl⟩)
    (by rw [hempty]; exact List.Pairwise.nil) calls
  have hv := hchained.valid
  rw [byId_of_pairwise hp] at hv
  have hprows : w'.db.auditLogs.rows.Pairwise (·.id < ·.id) := by
    rw [hw']
    exact hp.sublist hsub
  have hcols : w'.db.auditLogs.hasPreviousHash = true ∧ w'.db.auditLogs.hasHash = true := by
    rw [hw']
    exact hchained.columns
  rw [not_iff_not]
  constructor
  · intro hvalid
    obtain ⟨hp', new, hnew⟩ := auditRun_rows hcols hprows more
    rw [auditVerify_eq_valid, byId_of_pairwise hp', ← hnew, hw', HashChain.valid_append] at hvalid
    refine HashChain.valid_sublist AuditLog.id ?_ hchained.nodup ?_ hv hsub hvalid.1
    · intro g g' a b h
      exact (hashAfter_inj hsha h).1
    · intro a _ g
      exact hashAfter_ne_genesis g a
  · rintro ⟨tail, htail⟩
    have hv' : (auditChain (concrete L)).Valid (genesis (concrete L)) rows := by
      rw [← htail, HashChain.valid_append] at hv
      exact hv.1
    have hch : Chained (concrete L) w'.db.auditLogs := by
      refine ⟨hcols, ?_, ?_⟩
      · rw [hw']
        exact hchained.nodup.sublist (hsub.map _)
      · rw [byId_of_pairwise hprows, hw']
        exact hv'
    exact auditVerify_eq_valid.2 (hch.auditRun more).valid

theorem removal_detected_sample :
    auditVerify (concrete Sample.lib) ((⟨{ Database.empty Text with
      auditLogs := { Sample.log with rows := Sample.log.rows.tail } }, none, []⟩ :
        World Text Bytes).auditRun Sample.audits).db.auditLogs ≠ .valid :=
  (removal_detected_iff (fun _ _ h => h) (w := ⟨Database.empty Text, none, []⟩) rfl Sample.audits
    Sample.log.rows.tail (List.tail_sublist _) rfl Sample.audits).2 (by decide +kernel)

/-- The removal of the last row, and that of all rows, go unnoticed. -/
theorem removal_undetected :
    Function.Injective Sample.lib.sha256 ∧
      Sample.log.rows.dropLast.Sublist Sample.log.rows ∧
      Sample.log.rows.dropLast ≠ Sample.log.rows ∧
      auditVerify (concrete Sample.lib) { Sample.log with rows := Sample.log.rows.dropLast } =
        .valid ∧
      auditVerify (concrete Sample.lib) { Sample.log with rows := [] } = .valid :=
  ⟨fun _ _ h => h, List.dropLast_sublist _, by decide +kernel, by decide +kernel,
    by decide +kernel⟩

end MiniVault
