/-
  Non-interference between users. A run of requests and the same run without the requests made on
  behalf of all users but one: that user, and whoever sends a request on behalf of nobody, gets
  the same answers in both. It takes tokens that are drawn once: the unique index on
  `sessions.token_hash` fails a login that draws a token somebody else already has.
-/
import MiniVault.Isolation.Requests
import MiniVault.Kit.Unwinding
import MiniVault.Model.Sample

namespace MiniVault

open Kit

variable {T B J : Type} {P : Prims T B J} [DecidableEq T]

/-! ## Runs without the others -/

/-- Is the request made on behalf of another user? -/
def World.forOther (email : T) (w : World T B) (i : Env P × Request T J) : Bool :=
  (w.db.subject P i.2).any fun user => user ≠ email

/-- What is compared of an answer: all of it, but for the verdict on the audit log, which is about
    all users. -/
def compared (i : Env P × Request T J) (resp : Response T J) : Option (Response T J) :=
  if i.2.isAuditVerify then none else some resp

/-- The requests of a run that are not made on behalf of other users. -/
def World.withoutOthers (settings : Settings) (email : T) (w : World T B)
    (is : List (Env P × Request T J)) : List (Env P × Request T J) :=
  Run.purged (World.serve settings) (World.forOther email) w is

/-- Those requests with what is compared of their answers. -/
def World.answers (settings : Settings) (email : T) (w : World T B)
    (is : List (Env P × Request T J)) : List ((Env P × Request T J) × Option (Response T J)) :=
  Run.observed (World.serve settings) (World.forOther email) compared w is

/-- The hashes of the tokens that the logins of a run draw. -/
def drawnHashes (is : List (Env P × Request T J)) : List T :=
  (is.filter (·.2.isLogin)).map fun i => tokenDigest P i.1.token

theorem forOther_eq_true {email : T} {w : World T B} {i : Env P × Request T J} :
    w.forOther email i = true ↔ ∃ user, w.db.subject P i.2 = some user ∧ user ≠ email := by
  unfold World.forOther
  rw [Option.any_eq_true]
  simp only [decide_eq_true_eq]

theorem forOther_eq_false {email : T} {w : World T B} {i : Env P × Request T J} :
    w.forOther email i = false ↔ ∀ user, w.db.subject P i.2 = some user → user = email := by
  rw [← Bool.not_eq_true, forOther_eq_true]
  constructor
  · intro h user hu
    by_contra hne
    exact h ⟨user, hu, hne⟩
  · rintro h ⟨user, hu, hne⟩
    exact hne (h user hu)

section Drawn

variable {settings : Settings} {e : Env P} {w w' : World T B} {r : Request T J}
  {resp : Response T J} {i : Env P × Request T J} {is : List (Env P × Request T J)} {hash : T}

omit [DecidableEq T] in
theorem drawnHashes_cons : drawnHashes (i :: is) =
    if i.2.isLogin then tokenDigest P i.1.token :: drawnHashes is else drawnHashes is := by
  unfold drawnHashes
  rw [List.filter_cons]
  split
  · rfl
  · rfl

/-- Only a login that draws the token makes a session for it. -/
theorem Served.findSession_eq_none (hs : Served settings e w r resp w')
    (h : w.db.findSession hash = none) (hne : r.isLogin = true → tokenDigest P e.token ≠ hash) :
    w'.db.findSession hash = none := by
  cases hs with
  | raised => exact h
  | unknownUser => exact h
  | lockedOut => exact h
  | tokenClash => exact h
  | me => exact h
  | auditVerify => exact h
  | registered => exact h
  | wrongPassword => exact h
  | vault hc hs =>
    unfold Database.findSession
    rw [hs.accounts.2]
    exact h
  | service hp hc hs =>
    unfold Database.findSession
    rw [(service_accounts hs _ _).2]
    exact h
  | loggedIn =>
    rw [findSession_openSession, h, if_neg (hne rfl)]
    rfl
  | loggedOut => exact (findSession_revokeSession_eq_none _).2 h

/-- A token that a run did not draw has no session. -/
theorem findSession_served (settings : Settings) (is : List (Env P × Request T J))
    (h : hash ∉ drawnHashes is) :
    (World.initial.served settings is : World T B).db.findSession hash = none := by
  have hall : (∀ x ∈ World.initial.exchanges settings is, x.1.2.isLogin = true →
      tokenDigest P x.1.1.token ≠ hash) →
        (World.initial.served settings is : World T B).db.findSession hash = none :=
    serve_induction settings World.initial
      (I := fun tr w => (∀ x ∈ tr, x.1.2.isLogin = true → tokenDigest P x.1.1.token ≠ hash) →
        w.db.findSession hash = none)
      (fun _ => rfl)
      (fun tr w w' e r resp ih hs htr =>
        hs.findSession_eq_none (ih fun x hx => htr x (List.mem_append_left _ hx))
          (htr _ (List.mem_append_right _ List.mem_cons_self))) is
  refine hall fun x hx hlogin heq => h ?_
  rw [← heq]
  exact List.mem_map.2 ⟨x.1, List.mem_filter.2 ⟨Run.mem_of_mem_trace hx, hlogin⟩, rfl⟩

end Drawn

/-! ## Two runs side by side -/

/-- With `is` still to come, `w'` looks to a user like `w`. -/
structure World.LooksLike (P : Prims T B J) (good : T → Prop) (email : T)
    (is : List (Env P × Request T J)) (w w' : World T B) : Prop where
  left : w.Serving P good
  right : w'.Serving P good
  twins : w.Twins (.only email) w'
  account : w.db.SameAccount email w'.db
  registers : ∀ i ∈ is, i.2.Registers P good
  fresh : ∀ hash ∈ drawnHashes is, w.db.findSession hash = none
  distinct : (drawnHashes is).Nodup

section Unwinding

variable {good : T → Prop} {settings : Settings} {email : T} {w w' : World T B}
  {i : Env P × Request T J} {is : List (Env P × Request T J)}

/-- Whoever is not somebody else in one world is not in the other. -/
theorem World.LooksLike.subject (h : w.LooksLike P good email is w') {r : Request T J}
    (hown : ∀ user, w.db.subject P r = some user → user = email) :
    ∀ user, w'.db.subject P r = some user → user = email := by
  intro user hu
  cases r with
  | register => exact hown user hu
  | login => exact hown user hu
  | user credentials r =>
    obtain ⟨s', hs', hemail'⟩ := Option.bind_eq_some_iff.1 hu
    obtain ⟨token, hc, hfind'⟩ := Option.bind_eq_some_iff.1 hs'
    rcases hfind : w.db.findSession (tokenDigest P token) with _ | s
    · rw [h.account.tokens _ hfind] at hfind'
      cases hfind'
    have hemail := emailOf_of_subject h.left.accounts hown hc hfind
    obtain ⟨s'', hs'', -⟩ := h.account.sessionOf (sessionOf_eq_some.2 ⟨hfind, hemail⟩)
    obtain ⟨hfind'', hemail''⟩ := sessionOf_eq_some.1 hs''
    cases hfind'.symm.trans hfind''
    exact Option.some.inj (hemail'.symm.trans hemail'')
  | _ => cases hu

/-- One request less to come. -/
theorem World.LooksLike.tail (h : w.LooksLike P good email (i :: is) w') {w₁ w₁' : World T B}
    (hs : Served settings i.1 w i.2 (w.request settings i.1 i.2).1 w₁) (hl : w₁.Serving P good)
    (hr : w₁'.Serving P good) (ht : w₁.Twins (.only email) w₁')
    (ha : w₁.db.SameAccount email w₁'.db) : w₁.LooksLike P good email is w₁' := by
  have hfresh := h.fresh
  have hdistinct := h.distinct
  rw [drawnHashes_cons] at hfresh hdistinct
  refine ⟨hl, hr, ht, ha, fun j hj => h.registers j (List.mem_cons_of_mem _ hj), ?_, ?_⟩
  · intro hash hmem
    split at hfresh
    · rename_i hlogin
      rw [if_pos hlogin, List.nodup_cons] at hdistinct
      refine hs.findSession_eq_none (hfresh hash (List.mem_cons_of_mem _ hmem)) fun _ heq => ?_
      rw [heq] at hdistinct
      exact hdistinct.1 hmem
    · rename_i hlogin
      exact hs.findSession_eq_none (hfresh hash hmem) fun h => absurd h hlogin
  · split at hdistinct
    · exact (List.nodup_cons.1 hdistinct).2
    · exact hdistinct

theorem World.LooksLike.request (h : w.LooksLike P good email (i :: is) w')
    (hone : P.OneOwner good) (hi : w.forOther email i = false) :
    i.2.SameFor email (w.request settings i.1 i.2) (w'.request settings i.1 i.2) := by
  refine request_sameFor h.twins h.account h.left h.right hone (forOther_eq_false.1 hi)
    fun hlogin => h.fresh _ ?_
  rw [drawnHashes_cons, if_pos hlogin]
  exact List.mem_cons_self

/-- Requests of others are absorbed, all other requests are answered alike. -/
theorem unwinding (settings : Settings) (email : T) (hone : P.OneOwner good) :
    Run.Unwinding (World.serve settings) (World.forOther email) compared
      (World.LooksLike P good email (B := B)) where
  absorb i is w w' h hi := by
    obtain ⟨user, hsubject, hne⟩ := forOther_eq_true.1 hi
    have hs := served_of_request settings i.1 w i.2
    obtain ⟨ht, hl⟩ := h.left.other hone hs hsubject hne
    exact h.tail hs (h.left.served hs (h.registers i List.mem_cons_self)) h.right
      (ht.symm.trans h.twins) (h.account.leaves hl)
  agree i is w w' h hi := by
    refine ⟨forOther_eq_false.2 (h.subject (forOther_eq_false.1 hi)), ?_⟩
    unfold compared
    split
    · rfl
    · rename_i haudit
      exact congrArg some ((h.request hone hi).answer (Bool.eq_false_iff.2 haudit))
  keep i is w w' h hi := by
    have hs := served_of_request settings i.1 w i.2
    have hs' := served_of_request settings i.1 w' i.2
    have hreg := h.registers i List.mem_cons_self
    have hsame : i.2.SameFor email (w.request settings i.1 i.2) (w'.request settings i.1 i.2) :=
      h.request hone hi
    exact h.tail hs (h.left.served hs hreg) (h.right.served hs' hreg) hsame.twins hsame.account

end Unwinding

/-! ## Non-interference -/

/-- **Without the requests of the others, a user gets the same answers.** From any state reached
    by requests, take a run and the same run without the requests made on behalf of users other
    than `email`. The remaining requests, those of the user and those of nobody, are answered the
    same in both runs, audit verifications apart. Whoever registered had an address that
    `EmailStr` lets through, and no token hash is drawn twice. -/
theorem noninterference {F : Type} (L : Lib F) (settings : Settings)
    (pre is : List (Env (concrete L) × Request Text (Json.Value F)))
    (hreg : ∀ i ∈ pre ++ is, i.2.Registers (concrete L) EmailOk)
    (hdrawn : (drawnHashes (pre ++ is)).Nodup) (email : Text) :
    (World.initial.served settings pre).answers settings email
        ((World.initial.served settings pre).withoutOthers settings email is) =
      (World.initial.served settings pre).answers settings email is := by
  have hserving := serving_run settings pre fun i hi => hreg i (List.mem_append_left _ hi)
  have hsplit : drawnHashes (pre ++ is) = drawnHashes pre ++ drawnHashes is := by
    unfold drawnHashes
    rw [List.filter_append, List.map_append]
  rw [hsplit, List.nodup_append] at hdrawn
  refine (unwinding settings email (concrete_oneOwner L)).observed_purged ⟨hserving, hserving,
    .refl _, .refl _ _, fun i hi => hreg i (List.mem_append_right _ hi), fun hash hmem => ?_,
    hdrawn.2.1⟩
  exact findSession_served settings pre fun hmem' => hdrawn.2.2 _ hmem' _ hmem rfl

namespace Sample

def bob : Text := "bob@x.org".toList

/-- The address that a request registers. -/
def registering : Request Text (Json.Value Unit) → Option Text
  | .register email _ _ => some email
  | _ => none

theorem registers_of_registering {is : List SampleRequest}
    (h : ∀ i ∈ is, registering i.2 = none ∨ registering i.2 = some alice ∨
      registering i.2 = some bob) : ∀ i ∈ is, i.2.Registers (concrete lib) EmailOk := by
  intro i hi email password confirmation hr
  have hemail := h i hi
  rw [hr] at hemail
  rcases hemail with hnone | halice | hbob
  · cases hnone
  · cases Option.some.inj halice
    exact ⟨"alice".toList, "x.org".toList, by decide⟩
  · cases Option.some.inj hbob
    exact ⟨"bob".toList, "x.org".toList, by decide⟩

/-- A vault is opened and two users register. -/
def twoUsers : List SampleRequest :=
  [(env 1, .vaultInit passphrase passphrase), (env 2, .vaultUnlock passphrase),
    (env 3, .register alice passphrase passphrase), (env 4, .register bob passphrase passphrase)]

/-- Both log in and make a key of one name; one revokes it, and the other looks at theirs. -/
def sameKeyName : List SampleRequest :=
  [(env 5, .login alice passphrase), (env 6, .user (some (env 5).token) (.keyCreate keyName)),
    (env 7, .login bob passphrase), (env 8, .user (some (env 7).token) (.keyCreate keyName)),
    (env 9, .user (some (env 5).token) (.keyRevoke keyName)),
    (env 10, .user (some (env 7).token) (.keyGet keyName))]

/-- Both log in, and by chance the same token is drawn for both. -/
def sameToken : List SampleRequest :=
  [(env 5, .login alice passphrase), (env 5, .login bob passphrase)]

end Sample

open Sample in
theorem noninterference_sample :
    ((World.initial.served {} twoUsers).withoutOthers {} bob sameKeyName).length = 3 ∧
      (World.initial.served {} twoUsers).answers {} bob
          ((World.initial.served {} twoUsers).withoutOthers {} bob sameKeyName) =
        (World.initial.served {} twoUsers).answers {} bob sameKeyName :=
  ⟨by decide +kernel, noninterference lib {} twoUsers sameKeyName
    (registers_of_registering (by decide)) (by decide +kernel) bob⟩

open Sample in
/-- A login that draws the token of somebody else's session fails, and goes through without the
    other login. -/
theorem token_clash_interferes :
    (∀ i ∈ twoUsers ++ sameToken, i.2.Registers (concrete lib) EmailOk) ∧
      (World.initial.served {} twoUsers).answers {} bob
          ((World.initial.served {} twoUsers).withoutOthers {} bob sameToken) ≠
        (World.initial.served {} twoUsers).answers {} bob sameToken := by
  refine ⟨registers_of_registering (by decide), fun h => ?_⟩
  have hok := congrArg (List.map fun x => x.2.map Response.isOk) h
  revert hok
  decide +kernel

end MiniVault
