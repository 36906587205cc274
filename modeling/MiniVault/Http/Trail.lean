/-
  The audit log of a run of requests. A request moves the log by at most one call, that of the row
  of a denial or that of a restart; so whatever log requests reach, calls of the audit service
  reach it too. No request ever hears that such a log is broken, and no row of it is lost.
-/
import MiniVault.Audit.Verify
import MiniVault.Http.Denials
import MiniVault.Http.Simulation

namespace MiniVault

open Kit

variable {T B J : Type} {P : Prims T B J} [DecidableEq T]

/-! ## One request -/

section Steps

variable {settings : Settings} {e : Env P} {w w' : World T B} {r : Request T J}
  {resp : Response T J}

/-- A call of a service leaves the log, or is a restart. -/
theorem Step.auditLogs {c : Call T J} {res : Except Exc (Data T J)} (hs : Step e w c res w') :
    w'.db.auditLogs = w.db.auditLogs ∨ w'.db.auditLogs = ensureSchema P w.db.auditLogs := by
  cases hs with
  | restart => exact .inr rfl
  | createAes => exact .inl rfl
  | _ => exact .inl rfl

omit [DecidableEq T] in
/-- The handler of a request adds at most the row of a denial. -/
theorem audited_auditLogs (w : World T B) (e : Env P) (email : T)
    (row : Option (String × String × T)) (res : Except Exc (Data T J)) :
    (w.audited P e email row res).db.auditLogs = w.db.auditLogs ∨
      ∃ action resourceType identifier result,
        (w.audited P e email row res).db.auditLogs =
          AuditCall.apply e w.db.auditLogs
            (.audit email action resourceType identifier result e.clientIp) := by
  unfold World.audited
  split
  · split
    · exact .inr ⟨_, _, _, _, rfl⟩
    · exact .inl rfl
  · exact .inl rfl

/-- What one request does to the log: at most one call. -/
theorem Served.auditLogs (hs : Served settings e w r resp w') :
    w'.db.auditLogs = w.db.auditLogs ∨
      ∃ c, w'.db.auditLogs = AuditCall.apply e w.db.auditLogs c := by
  cases hs with
  | vault hc hs =>
    rcases hs.auditLogs with h | h
    · exact .inl h
    · exact .inr ⟨.restart, h⟩
  | @service credentials p r c res w' hp hc hs =>
    have hcall : w'.db.auditLogs = w.db.auditLogs := hs.auditRows (UserRequest.call_email hc)
    rcases audited_auditLogs w' e p.user.email (r.audits P) res with
      h | ⟨action, resourceType, identifier, result, h⟩
    · exact .inl (h.trans hcall)
    · rw [hcall] at h
      exact .inr ⟨_, h⟩
  | _ => exact .inl rfl

/-- What every call keeps of the log, every request keeps. -/
theorem Served.keepsLog {I : AuditTable T → Prop}
    (hstep : ∀ (e : Env P) (c : AuditCall T) t, I t → I (c.apply e t))
    (hs : Served settings e w r resp w') (h : I w.db.auditLogs) : I w'.db.auditLogs := by
  rcases hs.auditLogs with hlogs | ⟨c, hlogs⟩
  · rw [hlogs]
    exact h
  · rw [hlogs]
    exact hstep e c _ h

theorem Served.chained (hs : Served settings e w r resp w') (h : Chained P w.db.auditLogs) :
    Chained P w'.db.auditLogs :=
  hs.keepsLog (fun e c _ ht => ht.apply e c) h

omit [DecidableEq T] in
/-- No call is answered with a verdict on the log. -/
theorem run_ne_audit {α : Type} {m : Py P α} {f : α → Data T J} {s : Proc T B} {v : AuditVerdict}
    (hf : ∀ a, f a ≠ .audit v) : ((m >>= fun a => pure (f a)) e s).1 ≠ .ok (.audit v) := by
  rw [Imp.bind_apply]
  rcases m e s with ⟨x | a, t⟩
  · exact nofun
  · exact fun h => hf a (Except.ok.inj h)

theorem call_ne_audit (w : World T B) (i : Env P × Call T J) (v : AuditVerdict) :
    (w.call i).1 ≠ .ok (.audit v) := by
  obtain ⟨e, c⟩ := i
  cases c <;> exact run_ne_audit fun _ => nofun

omit [DecidableEq T] in
theorem answer_ne_audit {res : Except Exc (Data T J)} {n k : Nat} {v : AuditVerdict}
    (h : res ≠ .ok (.audit v)) : answer P res n ≠ .ok (.audit v) k := by
  rcases res with x | data
  · cases x <;> exact nofun
  intro heq
  rcases rendering_cases P data n with hr | hr
  · rw [answer, hr] at heq
    cases heq
    exact h rfl
  · rw [answer, hr] at heq
    cases heq

/-- A request that is answered about the log hears the verdict of the verifier. -/
theorem serve_verdict {v : AuditVerdict} {n : Nat}
    (h : (w.serve settings (e, r)).1 = .ok (.audit v) n) :
    v = auditVerify P w.db.auditLogs := by
  rcases hb : w.behind (e, r) with _ | x
  · have hs : Served settings e w r (.ok (.audit v) n) (w.serve settings (e, r)).2 := by
      rw [← h]
      exact served_of_request settings e w r
    generalize hresp : (Response.ok (.audit v) n : Response T J) = resp at hs
    generalize (w.serve settings (e, r)).2 = w' at hs
    cases hs with
    | raised r x => cases x <;> cases hresp
    | vault hc =>
      rw [behind_vault hc] at hb
      cases hb
    | service hp hc =>
      rw [behind_user hp, hc] at hb
      cases hb
    | auditVerify =>
      cases hresp
      rfl
    | _ => cases hresp
  · rw [serve_behind hb] at h
    exact absurd h (answer_ne_audit (call_ne_audit w x v))

end Steps

/-! ## Runs -/

theorem auditRun_concat (w : World T B) (calls : List (Env P × AuditCall T))
    (c : Env P × AuditCall T) :
    (w.auditRun (calls ++ [c])).db.auditLogs =
      c.2.apply c.1 (w.auditRun calls).db.auditLogs := by
  rw [World.auditRun, List.foldl_append]
  exact run_auditLogs _ c.1 c.2

/-- The log that requests reach is one that calls of the audit service and restarts reach. -/
theorem served_auditRun (settings : Settings) (w : World T B) (is : List (Env P × Request T J)) :
    ∃ calls : List (Env P × AuditCall T), calls.length ≤ is.length ∧
      (w.served settings is).db.auditLogs = (w.auditRun calls).db.auditLogs := by
  induction is using List.reverseRecOn with
  | nil => exact ⟨[], Nat.le_refl 0, rfl⟩
  | append_singleton is i ih =>
    obtain ⟨calls, hlen, hlogs⟩ := ih
    rw [List.length_append, List.length_singleton]
    rw [World.served, Run.final_concat]
    rcases (served_of_request settings i.1 (w.served settings is) i.2).auditLogs with h | ⟨c, h⟩
    · exact ⟨calls, Nat.le_succ_of_le hlen, h.trans hlogs⟩
    · refine ⟨calls ++ [(i.1, c)], ?_, ?_⟩
      · rw [List.length_append, List.length_singleton]
        exact Nat.succ_le_succ hlen
      · rw [auditRun_concat, ← hlogs]
        exact h

omit [DecidableEq T] in
/-- Every call keeps the rows of a valid chain, in their order. -/
theorem byId_apply {t : AuditTable T} (h : Chained P t) (e : Env P) (c : AuditCall T) :
    t.byId <+: (c.apply e t).byId := by
  cases c with
  | audit email action resourceType identifier result clientIp =>
    obtain ⟨log, -, hbyId, -⟩ := byId_append h (e.auditId_gt (t.rows.map (·.id))) e.now email
      action resourceType identifier result clientIp
    rw [AuditCall.apply, hbyId]
    exact List.prefix_append _ _
  | restart =>
    rw [AuditCall.apply, ensureSchema_of_columns h.columns]

theorem served_chained (settings : Settings) {w : World T B} (h : Chained P w.db.auditLogs)
    (is : List (Env P × Request T J)) : Chained P (w.served settings is).db.auditLogs :=
  Run.invariant_final (I := fun w : World T B => Chained P w.db.auditLogs) h
    (fun w i hw => (served_of_request settings i.1 w i.2).chained hw) is

/-- **The audit trail of a run of requests.** From an empty log, or a legacy one that has been
    migrated, through any requests and restarts: the log is one that calls of the audit service
    reach, it begins with the rows it had in their order, and whoever asks whether it is intact
    is told that it is. -/
theorem audit_trail (settings : Settings) (w : World T B) (hstart : AuditStart P w.db.auditLogs)
    (is : List (Env P × Request T J)) :
    (∃ calls : List (Env P × AuditCall T), calls.length ≤ is.length ∧
      (w.served settings is).db.auditLogs = (w.auditRun calls).db.auditLogs) ∧
    w.db.auditLogs.byId <+: (w.served settings is).db.auditLogs.byId ∧
    ∀ i v n, (i, Response.ok (.audit v) n) ∈ w.exchanges settings is → v = .valid := by
  refine ⟨served_auditRun settings w is, ?_, ?_⟩
  · have hrun : ∀ is, Chained P (w.served settings is).db.auditLogs ∧
        w.db.auditLogs.byId <+: (w.served settings is).db.auditLogs.byId := fun is =>
      Run.invariant_final
        (I := fun w' : World T B => Chained P w'.db.auditLogs ∧
          w.db.auditLogs.byId <+: w'.db.auditLogs.byId)
        ⟨hstart.chained, List.prefix_rfl⟩
        (fun w' i hw => (served_of_request settings i.1 w' i.2).keepsLog
          (I := fun t => Chained P t ∧ w.db.auditLogs.byId <+: t.byId)
          (fun e c t ht => ⟨ht.1.apply e c, ht.2.trans (byId_apply ht.1 e c)⟩) hw) is
    exact (hrun is).2
  · intro i v n hmem
    obtain ⟨is₁, is₂, -, h⟩ := Run.exists_of_mem_trace hmem
    rw [serve_verdict h]
    exact auditVerify_eq_valid.2 (served_chained settings hstart.chained is₁).valid

open Sample in
theorem audit_trail_sample :
    (World.initial.served {} (signedIn ++ denials)).db.auditLogs.rows.length = 2 ∧
      ∀ i v n, (i, Response.ok (.audit v) n) ∈
        (World.initial : World Text Bytes).exchanges {} (signedIn ++ denials) → v = .valid := by
  refine ⟨by decide +kernel, ?_⟩
  exact (audit_trail {} World.initial (.inl rfl) (signedIn ++ denials)).2.2

/-! ## Breaks -/

/-- The first break stays the first when rows are added behind it. -/
theorem verifyLogs_append {prev : T} {logs : List (AuditLog T)} {id : Int} {reason : String}
    (h : verifyLogs P prev logs = .broken id reason) (more : List (AuditLog T)) :
    verifyLogs P prev (logs ++ more) = .broken id reason := by
  induction logs generalizing prev with
  | nil => cases h
  | cons log logs ih =>
    rw [verifyLogs] at h
    rw [List.cons_append, verifyLogs]
    by_cases hprev : log.previousHashB64 ≠ some prev
    · rw [if_pos hprev] at h ⊢
      exact h
    rw [if_neg hprev] at h ⊢
    dsimp only at h ⊢
    by_cases hhash : log.hashB64 ≠ some (log.hashAfter P prev)
    · rw [if_pos hhash] at h ⊢
      exact h
    · rw [if_neg hhash] at h ⊢
      exact ih h

/-- No call mends a break, or hides it behind another one. -/
theorem broken_apply {t : AuditTable T} {id : Int} {reason : String}
    (hcols : t.hasPreviousHash = true ∧ t.hasHash = true)
    (h : auditVerify P t = .broken id reason) (e : Env P) (c : AuditCall T) :
    ((c.apply e t).hasPreviousHash = true ∧ (c.apply e t).hasHash = true) ∧
      auditVerify P (c.apply e t) = .broken id reason := by
  cases c with
  | restart =>
    rw [AuditCall.apply, ensureSchema_of_columns hcols]
    exact ⟨hcols, h⟩
  | audit email action resourceType identifier result clientIp =>
    refine ⟨hcols, ?_⟩
    have hbyId : ∃ log, ((AuditCall.audit email action resourceType identifier result
        clientIp).apply e t).byId = t.byId ++ [log] :=
      ⟨_, Table.insertionSort_concat fun a ha =>
        le_of_lt (e.auditId_gt _ a.id (List.mem_map_of_mem ha))⟩
    obtain ⟨log, hlog⟩ := hbyId
    unfold auditVerify
    rw [hlog]
    exact verifyLogs_append h [log]

/-- **A break stays reported.** Once the log is broken at a row, whatever requests follow, every
    one that asks is told of that row and the same reason. -/
theorem break_reported (settings : Settings) (w : World T B)
    (hcols : w.db.auditLogs.hasPreviousHash = true ∧ w.db.auditLogs.hasHash = true) {id : Int}
    {reason : String} (h : auditVerify P w.db.auditLogs = .broken id reason)
    (is : List (Env P × Request T J)) :
    ∀ i v n, (i, Response.ok (.audit v) n) ∈ w.exchanges settings is → v = .broken id reason := by
  intro i v n hmem
  obtain ⟨is₁, is₂, -, hv⟩ := Run.exists_of_mem_trace hmem
  have hrun : ((w.served settings is₁).db.auditLogs.hasPreviousHash = true ∧
        (w.served settings is₁).db.auditLogs.hasHash = true) ∧
      auditVerify P (w.served settings is₁).db.auditLogs = .broken id reason :=
    Run.invariant_final
      (I := fun w : World T B => (w.db.auditLogs.hasPreviousHash = true ∧
        w.db.auditLogs.hasHash = true) ∧ auditVerify P w.db.auditLogs = .broken id reason)
      ⟨hcols, h⟩
      (fun w i hw => (served_of_request settings i.1 w i.2).keepsLog
        (I := fun t => (t.hasPreviousHash = true ∧ t.hasHash = true) ∧
          auditVerify P t = .broken id reason)
        (fun e c _ ht => broken_apply ht.1 ht.2 e c) hw) is₁
  rw [serve_verdict hv]
  exact hrun.2

namespace Sample

/-- A log whose first row has no hash. -/
def brokenWorld : World Text Bytes :=
  ⟨{ Database.empty Text with
      auditLogs := ⟨true, true, [⟨1, alice, ['R'], ['K'], path, ['D'], none, some ['x'], none, 0⟩]⟩ },
    none, []⟩

/-- After denials, a user asks whether the log is intact. -/
def verifying : List SampleRequest :=
  signedIn ++ denials ++ [(env 8, .user (some token) .auditVerify)]

end Sample

open Sample in
theorem break_reported_sample :
    ((brokenWorld.exchanges {} verifying).map fun x => x.2.isOk) =
        [true, true, true, true, false, false, false, true] ∧
      ∀ i v n, (i, Response.ok (.audit v) n) ∈ brokenWorld.exchanges {} verifying →
        v = .broken 1 "Previous hash mismatch" :=
  ⟨by decide +kernel, break_reported {} brokenWorld ⟨rfl, rfl⟩ (by decide +kernel) verifying⟩

end MiniVault
