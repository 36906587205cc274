/-
  What the hash of an audit record determines. `audit`, `ensure_schema` and `audit_verify` join
  six fields by `|` and escape nothing. The id and the hash before never hold a `|`; the requester,
  the action, the identifier and the result may, and then the same text is that of another record.
-/
import MiniVault.Audit.Verify

namespace MiniVault

open Kit

variable {F : Type} {L : Lib F}

/-! ## Records -/

/-- What a row can follow: the word the chain starts with, or the Base64 text of a digest. -/
def IsChainHash (prev : Text) : Prop :=
  prev = "GENESIS".toList ∨ ∃ digest : Bytes, prev = Base64.encode digest

theorem IsChainHash.bar_notMem {prev : Text} (h : IsChainHash prev) : '|' ∉ prev := by
  rcases h with rfl | ⟨digest, rfl⟩
  · decide
  · intro hmem
    exact absurd (Base64.mem_encode hmem) (by decide)

/-- The hashed columns of a row. -/
@[ext]
structure AuditRecord where
  id : Int
  previousHashB64 : Text
  requesterEmail : Text
  action : Text
  resourceIdentifier : Text
  result : Text
  isChainHash : IsChainHash previousHashB64

namespace AuditRecord

/-- The text that is hashed. -/
def dataStr (L : Lib F) (r : AuditRecord) : Text :=
  MiniVault.dataStr (concrete L) r.id r.previousHashB64 r.requesterEmail r.action
    r.resourceIdentifier r.result

/-- A row with these values in its hashed columns. -/
def inRow (r : AuditRecord) (log : AuditLog Text) : AuditLog Text :=
  { log with
    id := r.id
    previousHashB64 := some r.previousHashB64
    requesterEmail := r.requesterEmail
    action := r.action
    resourceIdentifier := r.resourceIdentifier
    result := r.result }

/-- The verifier, arrived at the hash before the row, passes the row. -/
def ValidIn (L : Lib F) (r : AuditRecord) (log : AuditLog Text) : Prop :=
  verifyLogs (concrete L) r.previousHashB64 [r.inRow log] = .valid

/-- The text determines the record, and so does the hash of any row that has it. -/
structure Determined (L : Lib F) (r : AuditRecord) : Prop where
  text : ∀ r' : AuditRecord, r'.dataStr L = r.dataStr L → r' = r
  hash : ∀ (log : AuditLog Text) (r' : AuditRecord), r.ValidIn L log → r'.ValidIn L log → r' = r

/-! ## The text -/

/-- The fields that a caller of `audit` chooses. -/
def fields (r : AuditRecord) : List Text :=
  [r.requesterEmail, r.action, r.resourceIdentifier, r.result]

theorem forall_mem_fields {r : AuditRecord} : (∀ x ∈ r.fields, '|' ∉ x) ↔
    '|' ∉ r.requesterEmail ∧ '|' ∉ r.action ∧ '|' ∉ r.resourceIdentifier ∧ '|' ∉ r.result := by
  simp [fields]

theorem dataStr_eq (L : Lib F) (r : AuditRecord) :
    r.dataStr L = str r.id ++ '|' :: (r.previousHashB64 ++ '|' :: ['|'].intercalate r.fields) := by
  simp [dataStr, MiniVault.dataStr, concrete, fields]

/-- The first two `|` of a text end the id and the hash before. -/
theorem dataStr_inj {r r' : AuditRecord} : r'.dataStr L = r.dataStr L ↔
    r'.id = r.id ∧ r'.previousHashB64 = r.previousHashB64 ∧
      ['|'].intercalate r'.fields = ['|'].intercalate r.fields := by
  rw [dataStr_eq, dataStr_eq]
  constructor
  · intro h
    obtain ⟨hid, hrest⟩ := Separator.append_cons_inj (bar_notMem_str _) (bar_notMem_str _) h
    obtain ⟨hprev, hfields⟩ := Separator.append_cons_inj r'.isChainHash.bar_notMem
      r.isChainHash.bar_notMem hrest
    exact ⟨Json.intRepr_injective hid, hprev, hfields⟩
  · rintro ⟨hid, hprev, hfields⟩
    rw [hid, hprev, hfields]

/-- A record is the only one with its text exactly if none of its fields holds a `|`. -/
theorem text_determined_iff {r : AuditRecord} :
    (∀ r' : AuditRecord, r'.dataStr L = r.dataStr L → r' = r) ↔ ∀ x ∈ r.fields, '|' ∉ x := by
  have hlen : 2 ≤ r.fields.length := Nat.le_add_left 2 2
  rw [← Separator.determined_iff hlen]
  constructor
  · intro h ys hys htext
    obtain ⟨email, action, identifier, result, rfl⟩ := List.length_eq_four.1 hys
    have heq := h { r with
      requesterEmail := email, action := action, resourceIdentifier := identifier
      result := result } (dataStr_inj.2 ⟨rfl, rfl, htext⟩)
    rw [← heq]
    rfl
  · intro h r' hr'
    obtain ⟨hid, hprev, htext⟩ := dataStr_inj.1 hr'
    have hfields := h r'.fields rfl htext
    simp only [fields, List.cons.injEq, and_true] at hfields
    obtain ⟨hemail, haction, hidentifier, hresult⟩ := hfields
    exact AuditRecord.ext hid hprev hemail haction hidentifier hresult

/-! ## The hash -/

theorem validIn_iff {r : AuditRecord} {log : AuditLog Text} :
    r.ValidIn L log ↔ log.hashB64 = some (chainHash (concrete L) (r.dataStr L)) := by
  rw [ValidIn, verifyLogs_eq_valid, HashChain.valid_singleton]
  exact and_iff_right rfl

/-- The hash tells no more and no less than the text. -/
theorem determined_iff_text (hsha : Function.Injective L.sha256) {r : AuditRecord} :
    r.Determined L ↔ ∀ r' : AuditRecord, r'.dataStr L = r.dataStr L → r' = r := by
  refine ⟨Determined.text, fun htext => ⟨htext, fun log r' hr hr' => htext r' ?_⟩⟩
  rw [validIn_iff] at hr hr'
  exact chainHash_injective hsha (Option.some.inj (hr'.symm.trans hr))

end AuditRecord

/-- Every row of a log that verifies holds such a record, with a valid hash. -/
theorem exists_record {t : AuditTable Text} (hv : auditVerify (concrete L) t = .valid)
    {log : AuditLog Text} (hlog : log ∈ t.rows) :
    ∃ r : AuditRecord, r.inRow log = log ∧ r.ValidIn L log := by
  rw [auditVerify_eq_valid] at hv
  obtain ⟨prev, hrow, hbefore⟩ := hv.exists_before ((byId_perm t).mem_iff.2 hlog)
  have hprev : IsChainHash prev := by
    rcases hbefore with rfl | ⟨g, before, rfl⟩
    · exact .inl rfl
    · exact .inr ⟨_, rfl⟩
  have hstored : log.previousHashB64 = some prev := hrow.1
  have hinRow : (⟨log.id, prev, log.requesterEmail, log.action, log.resourceIdentifier,
      log.result, hprev⟩ : AuditRecord).inRow log = log := by
    unfold AuditRecord.inRow
    rw [← hstored]
  refine ⟨_, hinRow, ?_⟩
  rw [AuditRecord.ValidIn, hinRow, verifyLogs_eq_valid]
  exact hrow

theorem AuditRecord.inRow_inj {r r' : AuditRecord} {log : AuditLog Text}
    (h : r'.inRow log = r.inRow log) : r' = r := by
  injection h with hid hemail haction _ hidentifier hresult _ hprev
  exact AuditRecord.ext hid (Option.some.inj hprev) hemail haction hidentifier hresult

/-- Of a row of a log that verifies, the hash accepts no other values exactly if none of the texts
    in the row holds a `|`. -/
theorem row_determined_iff (hsha : Function.Injective L.sha256) {t : AuditTable Text}
    (hv : auditVerify (concrete L) t = .valid) {log : AuditLog Text} (hlog : log ∈ t.rows) :
    (∀ r : AuditRecord, r.ValidIn L log → r.inRow log = log) ↔
      '|' ∉ log.requesterEmail ∧ '|' ∉ log.action ∧ '|' ∉ log.resourceIdentifier ∧
        '|' ∉ log.result := by
  obtain ⟨r, hrow, hr⟩ := exists_record hv hlog
  have hfields : '|' ∉ r.requesterEmail ∧ '|' ∉ r.action ∧ '|' ∉ r.resourceIdentifier ∧
      '|' ∉ r.result ↔ '|' ∉ log.requesterEmail ∧ '|' ∉ log.action ∧
        '|' ∉ log.resourceIdentifier ∧ '|' ∉ log.result := by
    rw [← hrow]
    exact Iff.rfl
  rw [← hfields, ← AuditRecord.forall_mem_fields, ← AuditRecord.text_determined_iff (L := L)]
  rw [AuditRecord.validIn_iff] at hr
  constructor
  · intro h r' htext
    have hr' : r'.ValidIn L log := by rw [AuditRecord.validIn_iff, htext, hr]
    exact AuditRecord.inRow_inj ((h r' hr').trans hrow.symm)
  · intro h r' hr'
    rw [AuditRecord.validIn_iff] at hr'
    rw [h r' (chainHash_injective hsha (Option.some.inj (hr'.symm.trans hr))), hrow]

/-- **The hashed record determines its fields exactly if the requester, the action, the identifier
    and the result hold no `|`.** -/
theorem record_determined_iff (L : Lib F) (hsha : Function.Injective L.sha256) (r : AuditRecord) :
    r.Determined L ↔
      '|' ∉ r.requesterEmail ∧ '|' ∉ r.action ∧ '|' ∉ r.resourceIdentifier ∧ '|' ∉ r.result := by
  rw [AuditRecord.determined_iff_text hsha, AuditRecord.text_determined_iff,
    AuditRecord.forall_mem_fields]

namespace Sample

/-- Bob is refused a path that has a `|` in its last part. -/
def refusals : List (Env (concrete lib) × AuditCall Text) :=
  [(env 1, .audit "bob@x.org".toList "READ".toList "KV_SECRET".toList
    "secret/alice@x.org/a|b".toList "DENIED".toList none)]

/-- What the hash of that row covers. -/
def refused : AuditRecord where
  id := 1
  previousHashB64 := "GENESIS".toList
  requesterEmail := "bob@x.org".toList
  action := "READ".toList
  resourceIdentifier := "secret/alice@x.org/a|b".toList
  result := "DENIED".toList
  isChainHash := .inl rfl

/-- The same text, of another path with another result. -/
def reread : AuditRecord :=
  { refused with
    resourceIdentifier := "secret/alice@x.org/a".toList, result := "b|DENIED".toList }

/-- The row. -/
def refusedRow : AuditLog Text :=
  refused.inRow { row with
    hashB64 := some (chainHash (concrete lib)
      "1|GENESIS|bob@x.org|READ|secret/alice@x.org/a|b|DENIED".toList) }

theorem reread_ne : reread ≠ refused := fun h =>
  absurd (congrArg AuditRecord.result h) (by decide)

end Sample

/-- A refused path with a `|` makes a row whose path and result can be edited together, and the log
    still verifies. -/
theorem record_undetermined :
    ¬ Sample.refused.Determined Sample.lib ∧
      Sample.reread.dataStr Sample.lib = Sample.refused.dataStr Sample.lib ∧
      Sample.reread.resourceIdentifier ≠ Sample.refused.resourceIdentifier ∧
      validatePath Sample.refused.resourceIdentifier Sample.refused.requesterEmail =
        .error (appError .permissionDenied "Permission denied" 403) ∧
      ((⟨Database.empty Text, none, []⟩ : World Text Bytes).auditRun Sample.refusals).db.auditLogs =
        ⟨true, true, [Sample.refusedRow]⟩ ∧
      auditVerify (concrete Sample.lib) ⟨true, true, [Sample.reread.inRow Sample.refusedRow]⟩ =
        .valid := by
  have htext : Sample.reread.dataStr Sample.lib = Sample.refused.dataStr Sample.lib := by
    decide +kernel
  exact ⟨fun h => Sample.reread_ne (h.text _ htext), htext, by decide, by decide +kernel,
    by decide +kernel, by decide +kernel⟩

theorem record_determined_iff_sample :
    ({ Sample.refused with resourceIdentifier := "secret/alice@x.org/a".toList } :
      AuditRecord).Determined Sample.lib :=
  (record_determined_iff Sample.lib (fun _ _ h => h) _).2
    ⟨by decide, by decide, by decide, by decide⟩

end MiniVault
