/-
  Failed requests and denials. A request of a user that fails leaves the tables and the vault
  state alone, but for the audit log; over a run, the log grows by exactly one row for each
  response PERMISSION_DENIED, which says who asked for what.
-/
import Mathlib.Data.List.TakeWhile
import MiniVault.Audit.Schema
import MiniVault.Http.Locked
import MiniVault.Service.Exceptions
import MiniVault.Transit.Envelope

namespace MiniVault

open Kit Imp

variable {T B J : Type} {P : Prims T B J}

/-! ## Failed requests -/

section Failed

variable [DecidableEq T] {settings : Settings} {e : Env P} {w w' : World T B}

/-- No call writes to the audit log; a restart may fill in hash columns. -/
theorem Step.auditRows {c : Call T J} {res : Except Exc (Data T J)} {email : T}
    (hs : Step e w c res w') (hc : c.email? = some email) :
    w'.db.auditLogs = w.db.auditLogs := by
  cases hs with
  | restart => cases hc
  | vaultInit => cases hc
  | createAes => rfl
  | _ => rfl

/-- A request of a user that fails changes nothing but the audit log. -/
theorem Served.failed {credentials : Option T} {r : UserRequest T J} {resp : Response T J}
    (hs : Served settings e w (.user credentials r) resp w') (h : resp.isOk = false) :
    (∃ logs, w'.db = { w.db with auditLogs := logs }) ∧ w'.dek = w.dek := by
  cases hs with
  | raised => exact ⟨⟨w.db.auditLogs, rfl⟩, rfl⟩
  | vault hc => cases hc
  | @service _ p _ c res w₁ hp hc hstep =>
    obtain ⟨hdb, hdek⟩ := hstep.failed h
    obtain ⟨logs, hlogs⟩ := audited_db w₁ e p.user.email (r.audits P) res
    rw [hlogs, hdb, audited_dek, hdek]
    exact ⟨⟨logs, rfl⟩, rfl⟩
  | me => cases h
  | auditVerify => cases h
  | loggedOut => cases h

end Failed

/-! ## What a denial is about -/

/-- `exc.code == "PERMISSION_DENIED"` -/
def Exc.isDenial : Exc → Bool
  | .app err => err.code = .permissionDenied
  | _ => false

def Response.isDenial : Response T J → Bool
  | .error err => err.code = .permissionDenied
  | _ => false

/-- What a request asks permission for: its action, and the path or key name the service looks
    up. For `decrypt` that is the name it reads from the ciphertext. -/
def UserRequest.asks (P : Prims T B J) : UserRequest T J → Option (String × T)
  | .kvWrite path _ => some ("WRITE", path)
  | .kvVersions path => some ("LIST_VERSIONS", path)
  | .kvRead path _ => some ("READ", path)
  | .kvDelete path => some ("DELETE", path)
  | .keyGet name => some ("GET", name)
  | .keyRotate name => some ("ROTATE", name)
  | .keyRevoke name => some ("REVOKE", name)
  | .transitEncrypt keyName _ => some ("ENCRYPT", keyName)
  | .transitDecrypt ciphertext =>
    match P.readEnvelope ciphertext with
    | .ok (_, name, _) => some ("DECRYPT", name)
    | .error _ => none
  | .transitSign keyName _ _ => some ("SIGN", keyName)
  | .transitVerify keyName _ _ _ _ => some ("VERIFY", keyName)
  | _ => none

/-- What the audit log relies on: the checks of names deny nothing, and the router reads the same
    name from a ciphertext as the service. -/
structure Prims.NamesDenials (P : Prims T B J) : Prop where
  validateKeyName : ∀ name x, P.validateKeyName name = .error x → x.isDenial = false
  readEnvelope : ∀ envelope x, P.readEnvelope envelope = .error x → x.isDenial = false
  envelopeName : ∀ envelope version name blob,
    P.readEnvelope envelope = .ok (version, name, blob) → P.envelopeName envelope = name

theorem split_length (sep : Char) (n : Nat) (s : Text) :
    (Text.split sep n s).length = min n (s.count sep) + 1 := by
  induction n generalizing s with
  | zero => simp [Text.split]
  | succ n ih =>
    have hcount : s.count sep = (s.dropWhile (· ≠ sep)).count sep := by
      conv_lhs => rw [← List.takeWhile_append_dropWhile (p := (· ≠ sep)) (l := s)]
      rw [List.count_append, Nat.add_eq_right, List.count_eq_zero]
      intro hmem
      have := List.mem_takeWhile_imp hmem
      simp at this
    rw [Text.split, hcount]
    rcases hd : s.dropWhile (· ≠ sep) with _ | ⟨c, rest⟩
    · simp
    · have hc : c = sep := by
        have hhead := List.head?_dropWhile_not (fun x => decide (x ≠ sep)) s
        rw [hd] at hhead
        simpa using hhead
      subst hc
      simp only [List.length_cons, ih, List.count_cons_self]
      omega

theorem concrete_namesDenials {F : Type} (L : Lib F) : (concrete L).NamesDenials where
  validateKeyName _ _ h := by
    rw [validateKeyName_error h]
    rfl
  readEnvelope _ _ h := by
    rw [readEnvelope_error h]
    rfl
  envelopeName envelope version name blob h := by
    have h' : MiniVault.readEnvelope envelope = .ok (version, name, blob) := h
    show MiniVault.envelopeName envelope = name
    unfold MiniVault.readEnvelope at h'
    dsimp only at h'
    split at h'
    · rename_i scheme number key data hsplit
      have hlen := split_length ':' 3 envelope
      rw [hsplit] at hlen
      have hcount : 3 ≤ envelope.count ':' := by
        simp only [List.length_cons, List.length_nil] at hlen
        omega
      rw [MiniVault.envelopeName, if_pos hcount, hsplit]
      split_ifs at h'
      split at h'
      · cases h'
      · split_ifs at h'
        cases h'
        rfl
    · cases h'

/-! ## Which calls can be denied -/

section Denied

variable [DecidableEq T] {settings : Settings} {e : Env P} {w : World T B}

/-- Creating a key is never denied. -/
theorem create_not_denied (hP : P.NamesDenials) (email name : T) {s s' : Proc T B} {x : Exc}
    (h : TransitService.createAes email name e s = (.error x, s') ∨
      TransitService.createSigning email name e s = (.error x, s')) : x.isDenial = false := by
  have hlocked : s.dek = none → (requireDek : Py P B) e s = (.error vaultLocked, s) := fun hd =>
    requireDek_of_none hd e
  unfold TransitService.createAes TransitService.createSigning at h
  rcases hn : P.validateKeyName name with y | _
  · have hy := hP.validateKeyName name y hn
    simp only [bind_apply, ofExcept_apply, hn, Prod.mk.injEq, Except.error.injEq, or_self] at h
    rw [← h.1]
    exact hy
  rcases hd : s.dek with _ | dek
  · simp only [bind_apply, ofExcept_apply, hn, hlocked hd, Prod.mk.injEq, Except.error.injEq,
      or_self] at h
    rw [← h.1]
    rfl
  rcases hf : s.db.findKey email name with _ | key
  swap
  · simp [hn, requireDek_of_some hd, hf] at h
    rw [← h.1]
    rfl
  rcases hk : aesKeyOk P dek with _ | _
  · simp [hn, requireDek_of_some hd, hf, encrypt_of_not_key hk] at h
    rw [← h.1]
    rfl
  · simp [hn, requireDek_of_some hd, hf, encrypt_of_key hk] at h

theorem decrypt_denied (hP : P.NamesDenials) {email ciphertext : T} {s s' : Proc T B} {x : Exc}
    (h : TransitService.decrypt email ciphertext e s = (.error x, s')) (hx : x.isDenial = true) :
    ∃ version name blob, P.readEnvelope ciphertext = .ok (version, name, blob) := by
  rcases hp : P.readEnvelope ciphertext with y | ⟨version, name, blob⟩
  · have hy : readCiphertext P ciphertext = .error y := by rw [readCiphertext, hp]
    rw [decrypt_of_unreadable hy email] at h
    cases h
    rw [hP.readEnvelope _ _ hp] at hx
    cases hx
  · exact ⟨version, name, blob, rfl⟩

/-- The result of an operation, from that of the call that wraps it. -/
theorem run_of_call_error {α : Type} {c : Call T J} {m : Py P α} {f : α → Data T J} {x : Exc}
    (hrun : c.run = m >>= fun a => pure (f a)) (h : (w.call (e, c)).1 = .error x) :
    ∃ s, m e w.session = (.error x, s) := by
  rcases hm : m e w.session with ⟨y | a, s⟩
  · rw [call_eq hrun hm] at h
    cases h
    exact ⟨s, rfl⟩
  · rw [call_eq hrun hm] at h
    cases h

/-- A request that is denied has the audit wrapper, with what the service denied. -/
theorem audits_of_denied (hP : P.NamesDenials) {r : UserRequest T J} {email : T} {c : Call T J}
    (hc : r.call email = some c) {x : Exc} (h : (w.call (e, c)).1 = .error x)
    (hx : x.isDenial = true) :
    ∃ action resourceType identifier, r.audits P = some (action, resourceType, identifier) ∧
      r.asks P = some (action, identifier) := by
  cases r with
  | logout => cases hc
  | me => cases hc
  | auditVerify => cases hc
  | kvList =>
    cases hc
    obtain ⟨s, hs⟩ := run_of_call_error (c := Call.kvList email) rfl h
    rcases hd : w.dek with _ | dek
    · have hd' : w.session.dek = none := hd
      simp [KVService.list, requireDek_of_none hd'] at hs
      rw [← hs.1] at hx
      cases hx
    · rw [list_apply (s := w.session) hd] at hs
      cases hs
  | keyList =>
    cases hc
    obtain ⟨s, hs⟩ := run_of_call_error (c := Call.keyList email) rfl h
    rcases hd : w.dek with _ | dek
    · have hd' : w.session.dek = none := hd
      simp [TransitService.list, requireDek_of_none hd'] at hs
      rw [← hs.1] at hx
      cases hx
    · have hd' : w.session.dek = some dek := hd
      simp [TransitService.list, requireDek_of_some hd'] at hs
  | keyCreate name =>
    cases hc
    obtain ⟨s, hs⟩ := run_of_call_error (c := Call.createAes email name) rfl h
    rw [create_not_denied hP email name (.inl hs)] at hx
    cases hx
  | signingKeyCreate name =>
    cases hc
    obtain ⟨s, hs⟩ := run_of_call_error (c := Call.createSigning email name) rfl h
    rw [create_not_denied hP email name (.inr hs)] at hx
    cases hx
  | transitDecrypt ciphertext =>
    cases hc
    obtain ⟨s, hs⟩ := run_of_call_error (c := Call.decrypt email ciphertext) rfl h
    obtain ⟨version, name, blob, hread⟩ := decrypt_denied hP hs hx
    refine ⟨"DECRYPT", "TRANSIT_KEY", name, ?_, ?_⟩
    · rw [UserRequest.audits, hP.envelopeName _ _ _ _ hread]
    · simp only [UserRequest.asks, hread]
  | _ => exact ⟨_, _, _, rfl, rfl⟩

end Denied

/-! ## The audit log of a run -/

section Runs

variable [DecidableEq T] {settings : Settings}

/-- The requests of a run that are answered PERMISSION_DENIED, each with the world it meets. -/
def deniedRequests (settings : Settings) :
    World T B → List (Env P × Request T J) → List (World T B × Env P × Request T J)
  | _, [] => []
  | w, i :: is =>
    let (resp, w') := w.serve settings i
    if resp.isDenial then (w, i) :: deniedRequests settings w' is
    else deniedRequests settings w' is

/-- The row records the denial of a request: by whose session it was made, its action, and the
    path or key name it asked about. -/
def AuditLog.Records (P : Prims T B J) (log : AuditLog T) :
    World T B × Env P × Request T J → Prop
  | (w, e, r) =>
    ∃ credentials request p action identifier, r = .user credentials request ∧
      w.db.principal P e.now credentials = .ok p ∧
      request.asks P = some (action, identifier) ∧ log.requesterEmail = p.user.email ∧
      log.action = P.lit action ∧ log.resourceIdentifier = identifier ∧
      log.result = P.lit "DENIED"

omit [DecidableEq T] in
theorem answer_isDenial {res : Except Exc (Data T J)} {n : Nat} :
    (answer P res n).isDenial = true ↔ ∃ x, res = .error x ∧ x.isDenial = true := by
  rcases res with x | data
  · constructor
    · intro h
      refine ⟨x, rfl, ?_⟩
      cases x with
      | app err => exact h
      | _ => cases h
    · rintro ⟨_, ⟨⟩, hx⟩
      cases x with
      | app err => exact hx
      | _ => cases hx
  · constructor
    · intro h
      rw [answer] at h
      rcases rendering_cases P data n with hr | hr
      · rw [hr] at h
        cases h
      · rw [hr] at h
        cases h
    · rintro ⟨_, ⟨⟩, _⟩

theorem principal_not_denied {db : Database T} {now : Time} {credentials : Option T} {x : Exc}
    (h : db.principal P now credentials = .error x) : x.isDenial = false := by
  unfold Database.principal at h
  split at h
  · cases h
    rfl
  split at h
  · cases h
    rfl
  split_ifs at h
  · cases h
    rfl
  · cases h
    rfl
  · split at h
    · cases h
      rfl
    · cases h

omit [DecidableEq T] in
/-- A denial adds one row, which records it; any other outcome adds none. -/
theorem audited_rows (w : World T B) (e : Env P) (email : T)
    (row : Option (String × String × T)) {res : Except Exc (Data T J)}
    (hrow : ∀ x, res = .error x → x.isDenial = true → row.isSome = true) :
    ∃ rows, (w.audited P e email row res).db.auditLogs.rows = w.db.auditLogs.rows ++ rows ∧
      ((∃ x, res = .error x ∧ x.isDenial = true) →
        ∃ log action resourceType identifier, rows = [log] ∧
          row = some (action, resourceType, identifier) ∧ log.requesterEmail = email ∧
          log.action = P.lit action ∧ log.resourceIdentifier = identifier ∧
          log.result = P.lit "DENIED") ∧
      ((¬ ∃ x, res = .error x ∧ x.isDenial = true) → rows = []) := by
  by_cases hden : ∃ x, res = .error x ∧ x.isDenial = true
  · obtain ⟨x, rfl, hx⟩ := hden
    obtain ⟨⟨action, resourceType, identifier⟩, rfl⟩ :=
      Option.isSome_iff_exists.1 (hrow x rfl hx)
    cases x with
    | app err =>
      rw [World.audited, if_pos (of_decide_eq_true hx)]
      refine ⟨_, rfl, fun _ => ⟨_, action, resourceType, identifier, rfl, rfl, rfl, rfl, rfl, rfl⟩,
        fun hno => absurd ⟨_, rfl, hx⟩ hno⟩
    | _ => cases hx
  · refine ⟨[], ?_, fun h => absurd h hden, fun _ => rfl⟩
    rw [List.append_nil]
    unfold World.audited
    split
    · rename_i err
      rw [if_neg]
      intro herr
      exact hden ⟨.app err, rfl, decide_eq_true herr⟩
    · rfl

/-- One request of a user adds a row to the log exactly if it is denied. -/
theorem request_rows (settings : Settings) (hP : P.NamesDenials) (w : World T B) (e : Env P)
    (credentials : Option T) (r : UserRequest T J) :
    ∃ rows, (w.request settings e (.user credentials r)).2.db.auditLogs.rows =
        w.db.auditLogs.rows ++ rows ∧
      List.Forall₂ (AuditLog.Records P) rows
        (if (w.request settings e (.user credentials r)).1.isDenial then
          [(w, e, .user credentials r)] else []) := by
  rcases hp : w.db.principal P e.now credentials with x | p
  · rw [request_unauthenticated hp]
    have hx : (Response.ofExc x : Response T J).isDenial = false := by
      have hx := principal_not_denied hp
      cases x with
      | app err => exact hx
      | _ => rfl
    rw [hx]
    exact ⟨[], (List.append_nil _).symm, .nil⟩
  rcases hv : r.valid with _ | _
  · rw [request_invalid hp hv]
    exact ⟨[], (List.append_nil _).symm, .nil⟩
  rcases hc : r.call p.user.email with _ | c
  · rw [request_of_principal hp hv]
    rw [UserRequest.call_eq_none hv] at hc
    cases r with
    | logout => exact ⟨[], (List.append_nil _).symm, .nil⟩
    | me => exact ⟨[], (List.append_nil _).symm, .nil⟩
    | auditVerify => exact ⟨[], (List.append_nil _).symm, .nil⟩
    | _ => cases hc
  · rw [request_user hp hc]
    have hasks := fun x => audits_of_denied (w := w) (e := e) (x := x) hP hc
    obtain ⟨rows, hrows, hone, hnone⟩ := audited_rows (w.call (e, c)).2 e p.user.email
      (r.audits P) fun x (hx : (w.call (e, c)).1 = .error x) hden => by
        obtain ⟨_, _, _, haudits, -⟩ := hasks x hx hden
        rw [haudits]
        rfl
    refine ⟨rows, ?_, ?_⟩
    · rw [hrows, (step_of_call e w c).auditRows (UserRequest.call_email hc)]
    · by_cases hden : ∃ x, (w.call (e, c)).1 = .error x ∧ x.isDenial = true
      · rw [if_pos (answer_isDenial.2 hden)]
        obtain ⟨log, action, resourceType, identifier, rfl, haudits, hlog⟩ := hone hden
        obtain ⟨x, hx, hxden⟩ := hden
        obtain ⟨action', resourceType', identifier', haudits', hask⟩ := hasks x hx hxden
        rw [haudits] at haudits'
        cases haudits'
        exact .cons ⟨credentials, r, p, action, identifier, rfl, hp, hask, hlog⟩ .nil
      · rw [if_neg (fun h => hden (answer_isDenial.1 h)), hnone hden]
        exact .nil

/-- Over a run of such requests, the log grows by one row for each denial, in order. -/
theorem served_rows (hP : P.NamesDenials) (is : List (Env P × Request T J))
    (his : ∀ i ∈ is, ∃ credentials r, i.2 = .user credentials r) (w : World T B) :
    ∃ rows, (w.served settings is).db.auditLogs.rows = w.db.auditLogs.rows ++ rows ∧
      List.Forall₂ (AuditLog.Records P) rows (deniedRequests settings w is) := by
  induction is generalizing w with
  | nil => exact ⟨[], (List.append_nil _).symm, .nil⟩
  | cons i is ih =>
    obtain ⟨e, r⟩ := i
    obtain ⟨credentials, request, rfl⟩ : ∃ credentials request, r = .user credentials request :=
      his (e, r) List.mem_cons_self
    obtain ⟨rows, hrows, hrec⟩ := request_rows settings hP w e credentials request
    obtain ⟨rows', hrows', hrec'⟩ := ih (fun i hi => his i (List.mem_cons_of_mem _ hi))
      (w.request settings e (.user credentials request)).2
    refine ⟨rows ++ rows', ?_, ?_⟩
    · rw [← List.append_assoc, ← hrows]
      exact hrows'
    · have hcons : deniedRequests settings w ((e, .user credentials request) :: is) =
          (if (w.request settings e (.user credentials request)).1.isDenial then
            [(w, e, .user credentials request)] else []) ++
            deniedRequests settings (w.request settings e (.user credentials request)).2 is := by
        rw [deniedRequests]
        dsimp only [World.serve]
        split
        · rfl
        · rfl
      rw [hcons]
      exact List.rel_append hrec hrec'

end Runs

/-- **Failed requests are atomic and denials are logged exactly once.** From every state, after
    any requests of users: a further one that fails leaves the vault state and all tables but
    the audit log as they were; and the log has grown by one row for each response
    PERMISSION_DENIED, in order, with the requester, the action, and the path or name asked for. -/
theorem failures_atomic {F : Type} (L : Lib F) (settings : Settings) (w : World Text Bytes)
    (is : List (Env (concrete L) × Request Text (Json.Value F)))
    (his : ∀ i ∈ is, ∃ credentials r, i.2 = .user credentials r) :
    (∀ (e : Env (concrete L)) credentials (r : UserRequest Text (Json.Value F)),
      ((w.served settings is).request settings e (.user credentials r)).1.isOk = false →
        (∃ logs, ((w.served settings is).request settings e (.user credentials r)).2.db =
          { (w.served settings is).db with auditLogs := logs }) ∧
        ((w.served settings is).request settings e (.user credentials r)).2.dek =
          (w.served settings is).dek) ∧
      ∃ rows, (w.served settings is).db.auditLogs.rows = w.db.auditLogs.rows ++ rows ∧
        List.Forall₂ (AuditLog.Records (concrete L)) rows (deniedRequests settings w is) :=
  ⟨fun e credentials r h => (served_of_request settings e _ (.user credentials r)).failed h,
    served_rows (concrete_namesDenials L) is his w⟩

namespace Sample

/-- A user asks for a secret of their own that is not there, for one of somebody else, and for an
    envelope of a key they do not have. -/
def denials : List SampleRequest :=
  [(env 5, .user (some token) (.kvRead path none)),
    (env 6, .user (some token) (.kvRead "secret/bob@x.org/db".toList none)),
    (env 7, .user (some token) (.transitDecrypt
      ("vault:v1:key_1:".toList ++ Base64.encode (List.replicate 28 0))))]

end Sample

open Sample in
theorem failures_atomic_sample :
    ∃ rows, ((World.initial.served {} signedIn).served {} denials).db.auditLogs.rows =
        (World.initial.served {} signedIn).db.auditLogs.rows ++ rows ∧
      List.Forall₂ (AuditLog.Records (concrete lib)) rows
        (deniedRequests {} (World.initial.served {} signedIn) denials) ∧
      rows.map (fun log => (log.requesterEmail, log.action, log.resourceIdentifier)) =
        [(alice, "READ".toList, "secret/bob@x.org/db".toList),
          (alice, "DECRYPT".toList, keyName)] := by
  obtain ⟨-, rows, hrows, hrec⟩ := failures_atomic lib {} (World.initial.served {} signedIn)
    denials (by
      intro i hi
      simp only [denials, List.mem_cons, List.not_mem_nil, or_false] at hi
      rcases hi with rfl | rfl | rfl <;> exact ⟨_, _, rfl⟩)
  refine ⟨rows, hrows, hrec, ?_⟩
  have hlogs : ((World.initial.served {} signedIn).served {} denials).db.auditLogs.rows.map
      (fun log => (log.requesterEmail, log.action, log.resourceIdentifier)) =
        [(alice, "READ".toList, "secret/bob@x.org/db".toList),
          (alice, "DECRYPT".toList, keyName)] := by decide +kernel
  have hnone : (World.initial.served {} signedIn).db.auditLogs.rows = [] := by decide +kernel
  rw [hrows, hnone, List.nil_append] at hlogs
  exact hlogs

end MiniVault
