/-
  The service refines the server in the clear: every run of requests that starts from an empty
  database is answered as a server answers it that keeps everything as it is. Requests carry
  texts: what a lone surrogate in a name does is shown in `Transit/Surrogates`.
-/
import MiniVault.Auth.Sessions
import MiniVault.Http.Trail
import MiniVault.Plain.AccountTables
import MiniVault.Plain.Calls
import MiniVault.Plain.Server

namespace MiniVault

open Kit Imp

variable {T B J : Type} {P : Prims T B J} [DecidableEq T]

/-! ## Registration and login -/

section Accounts

variable (settings : Settings) (e : Env P) {w : World T B} {as : PlainAccounts T}

theorem Database.HoldsAccounts.register (hold : w.db.HoldsAccounts P as)
    (email password confirmation : T) :
    (w.serve settings (e, (.register email password confirmation : Request T J))).1 =
        answer P ((as.register P email password confirmation).1.map .registered) 201 ∧
      (w.serve settings
          (e, (.register email password confirmation : Request T J))).2.db.HoldsAccounts P
        (as.register P email password confirmation).2 := by
  have hr : handler settings (.register email password confirmation) =
      AuthService.register email password confirmation >>=
        fun a => ok (P := P) (.registered a : Data T J) 201 := rfl
  unfold World.serve PlainAccounts.register
  by_cases hpass : password = confirmation
  swap
  · have hraise : AuthService.register email password confirmation e w.session =
        (.error (appError .validationError "Passphrases do not match" 400), w.session) := by
      simp [AuthService.register, hpass]
    rw [request_of_run hr hraise, if_pos hpass]
    exact ⟨rfl, hold⟩
  subst hpass
  rw [if_neg fun h => h rfl]
  rcases hv : P.validatePassphrase password with x | u
  · have hraise : AuthService.register email password password e w.session =
        (.error x, w.session) := by
      simp [AuthService.register, hv]
    rw [request_of_run hr hraise]
    exact ⟨rfl, hold⟩
  dsimp only
  rcases hold.lookup (P.normalizeEmail email) with ⟨hnone, hnone'⟩ | ⟨row, a, hrow, ha, -⟩
  · have hok : AuthService.register email password password e w.session =
        (.ok (P.normalizeEmail email),
          { w.session with
            db := w.db.registerUser P e email password
            committed := w.db.registerUser P e email password }) := by
      have hnew : w.session.db.findUser (P.normalizeEmail email) = none := hnone
      simp [AuthService.register, hv, hnew, Database.registerUser, newUser]
      rfl
    rw [request_of_run hr hok, hnone', if_neg (by simp)]
    exact ⟨rfl, hold.registered e password hnone hnone'⟩
  · have hrow' : w.session.db.findUser (P.normalizeEmail email) = some row := hrow
    have hraise : AuthService.register email password password e w.session =
        (.error (appError .emailAlreadyExists "Email already exists" 409), w.session) := by
      simp [AuthService.register, hv, hrow']
    rw [request_of_run hr hraise, ha, if_pos (by simp)]
    exact ⟨rfl, hold⟩

theorem Database.HoldsAccounts.login (hlaws : AccountLaws P) (hold : w.db.HoldsAccounts P as)
    (email password : T) :
    (w.serve settings (e, (.login email password : Request T J))).1 =
        answer P ((as.login settings e email password).1.map .login) 200 ∧
      (w.serve settings (e, (.login email password : Request T J))).2.db.HoldsAccounts P
        (as.login settings e email password).2 := by
  have hr : handler settings (.login email password) =
      AuthService.login settings email password >>=
        fun a => ok (P := P) (.login a : Data T J) 200 := rfl
  unfold World.serve PlainAccounts.login
  rcases hold.lookup (P.normalizeEmail email) with ⟨hf, hnone⟩ | ⟨user, a, hf, ha, hrow⟩
  · rw [request_of_run hr (login_unknown (s := w.session) hf), hnone]
    exact ⟨rfl, hold⟩
  have huser := (findUser_eq_some hf).1
  rw [ha]
  dsimp only
  by_cases hl : user.lockedAt e.now
  · rw [request_of_run hr (login_locked (s := w.session) hf hl), if_pos ((hrow.locked_iff _).1 hl)]
    exact ⟨rfl, hold⟩
  rw [if_neg fun h => hl ((hrow.locked_iff _).2 h)]
  by_cases hp : password = a.password
  swap
  · have hwrong : P.verifyPassword user.passwordHash password = false :=
      Bool.eq_false_iff.2 fun h => hp ((hrow.verify hlaws password).1 h)
    rw [request_of_run hr (login_wrong (s := w.session) hf hl hwrong), if_pos hp]
    have hstrike := hold.lockout huser (f := .strike e.now) (fun _ => rfl) fun a h =>
      h.strike e.now
    rw [hrow.email] at hstrike
    exact ⟨rfl, hstrike⟩
  have hright := (hrow.verify hlaws password).2 hp
  rw [if_neg fun h => h hp]
  rcases hold.session hlaws e.token with ⟨hc, hnone⟩ | ⟨row, s, hc, hs, -⟩
  · have hopened := hold.opened settings huser hc hnone
    rw [hrow.email] at hopened
    rw [request_of_run hr (login_right (s := w.session) hf hl hright hc), hnone, if_neg (by simp)]
    exact ⟨rfl, hopened⟩
  · have hclash : w.session.db.findSession (tokenDigest P e.token) ≠ none := by
      rintro hnone
      cases hc.symm.trans hnone
    obtain ⟨db, hdb⟩ : ∃ db, AuthService.login settings email password e w.session =
        (.error .integrityError, { w.session with db := db }) :=
      login_clash hf hl hright hclash
    rw [request_of_run hr hdb, hs, if_pos (by simp)]
    exact ⟨rfl, hold⟩

end Accounts

/-! ## The simulation -/

omit [DecidableEq T] in
theorem UserRequest.passphrase_none {email : T} {r : UserRequest T J} {c : Call T J}
    (h : r.call email = some c) : c.passphrase? = none := by
  obtain ⟨-, h⟩ := UserRequest.call_eq_some.1 h
  cases r <;> cases h <;> rfl

/-- The world stands for the server, and its log is chained. -/
structure World.InTheClear (P : Prims T B J) (offered : T → Prop) (w : World T B)
    (s : PlainServer T B J) : Prop where
  vault : w.Represents P offered s.vault
  accounts : w.db.HoldsAccounts P s.accounts
  chained : Chained P w.db.auditLogs

section Server

variable {canon : J → J} {offered : T → Prop} {settings : Settings} {e : Env P}
  {w : World T B} {s : PlainServer T B J} {r : Request T J}

/-- A request with a call behind it. -/
theorem World.InTheClear.call (hlaws : PlainLaws P canon) (hapart : P.Apart offered)
    (h : w.InTheClear P offered s) {c : Call T J} (hb : w.behind (e, r) = some (e, c))
    (hoffered : ∀ p, c.passphrase? = some p → offered p) :
    (w.serve settings (e, r)).1 = (s.call canon (e, c) r.status).1 ∧
      (w.serve settings (e, r)).2.InTheClear P offered (s.call canon (e, c) r.status).2 := by
  have hcall := h.vault.answer hlaws hapart e hoffered
  have hs := step_of_call e w c
  have hvault := h.vault.step hlaws hoffered hs
  rw [hcall] at hvault
  refine ⟨?_, hvault.held (serve_held_of_some hb), ?_,
    (served_of_request settings e w r).chained h.chained⟩
  · rw [serve_behind hb, hcall]
    rfl
  · rcases behind_cases hb with ⟨c', hc, heq⟩ | ⟨credentials, u, p, c', rfl, hp, hc, heq⟩
    · obtain rfl := (Prod.mk.inj heq).2
      rw [World.serve, request_vault hc]
      exact h.accounts.frame hs.accounts.1 hs.accounts.2
    · obtain rfl := (Prod.mk.inj heq).2
      rw [World.serve, request_user hp hc]
      obtain ⟨hu, hsess⟩ := service_accounts hs p.user.email (u.audits P)
      exact h.accounts.frame hu hsess

/-- A request without a call behind it. -/
theorem World.InTheClear.own (h : w.InTheClear P offered s) (hb : w.behind (e, r) = none)
    {as : PlainAccounts T} (has : (w.serve settings (e, r)).2.db.HoldsAccounts P as) :
    (w.serve settings (e, r)).2.InTheClear P offered { s with accounts := as } where
  vault := h.vault.held ((served_of_request settings e w r).held hb)
  accounts := has
  chained := (served_of_request settings e w r).chained h.chained

/-- Every request is answered as the server in the clear answers it. -/
theorem World.InTheClear.serve (hlaws : PlainLaws P canon) (haccounts : AccountLaws P)
    (hapart : P.Apart offered) (h : w.InTheClear P offered s) {i : Env P × Request T J}
    (hoffered : ∀ p, i.2.passphrase? = some p → offered p) :
    (w.serve settings i).1 = (s.serve canon settings i).1 ∧
      (w.serve settings i).2.InTheClear P offered (s.serve canon settings i).2 := by
  obtain ⟨e, r⟩ := i
  cases r with
  | vaultInit p c => exact h.call hlaws hapart rfl hoffered
  | vaultUnlock p => exact h.call hlaws hapart rfl hoffered
  | vaultLock => exact h.call hlaws hapart rfl hoffered
  | vaultStatus => exact h.call hlaws hapart rfl hoffered
  | restart => exact h.call hlaws hapart rfl hoffered
  | register email p c =>
    obtain ⟨hresp, has⟩ := h.accounts.register settings e email p c
    exact ⟨hresp, h.own rfl has⟩
  | login email p =>
    obtain ⟨hresp, has⟩ := h.accounts.login settings e haccounts email p
    exact ⟨hresp, h.own rfl has⟩
  | user credentials r =>
    unfold PlainServer.serve
    dsimp only
    rcases h.accounts.principal haccounts e.now credentials with
      ⟨x, hx, hx'⟩ | ⟨p, session, hp, hsession, hemail, hmem, hholds⟩
    · rw [World.serve, request_unauthenticated hx, hx']
      exact ⟨rfl, h⟩
    rw [hsession]
    dsimp only
    rcases hv : r.valid with _ | _
    · rw [World.serve, request_invalid hp hv, if_neg (by simp)]
      exact ⟨rfl, h⟩
    rw [← hemail, if_pos rfl]
    rcases hc : r.call p.user.email with _ | c
    · have hb : w.behind (e, .user credentials r) = none := by rw [behind_user hp, hc]; rfl
      have hserve : w.serve settings (e, .user credentials r) =
          (.ofOutcome (userHandler p r e w.session).1, (userHandler p r e w.session).2.close) :=
        request_of_principal hp hv
      rw [UserRequest.call_eq_none hv] at hc
      cases r with
      | logout =>
        have has : (w.serve settings (e, .user credentials .logout)).2.db.HoldsAccounts P
            (s.accounts.logout session.token) := by
          rw [hserve]
          exact h.accounts.loggedOut haccounts hmem hholds e.now
        refine ⟨?_, h.own hb has⟩
        rw [hserve]
        rfl
      | me =>
        rw [hserve]
        refine ⟨?_, h⟩
        change Response.ok (.me p.user.email) 200 = Response.ok (.me session.email) 200
        rw [hemail]
      | auditVerify =>
        rw [hserve]
        refine ⟨?_, h⟩
        change Response.ok (.audit (MiniVault.auditVerify P w.db.auditLogs)) 200 =
          Response.ok (.audit .valid) 200
        rw [auditVerify_eq_valid.2 h.chained.valid]
      | _ => cases hc
    · refine h.call hlaws hapart ((behind_user hp).trans (by rw [hc]; rfl)) fun p hp => ?_
      rw [UserRequest.passphrase_none hc] at hp
      cases hp

end Server

/-! ## Runs -/

/-- The requests of a run with their responses. -/
def PlainServer.exchanges (canon : J → J) (settings : Settings) (s : PlainServer T B J)
    (is : List (Env P × Request T J)) : Exchanges P :=
  Run.trace (PlainServer.serve canon settings) s is

omit [DecidableEq T] in
theorem concrete_accountLaws {F : Type} {L : Lib F} (hsha : Function.Injective L.sha256)
    (hverify : ∀ salt password candidate,
      L.verifyPassword (L.hashPassword salt password) candidate = true ↔ candidate = password) :
    AccountLaws (concrete L) where
  digest := tokenDigest_injective hsha
  verify := hverify

/-- **The service in the clear.** A server that keeps passphrases, passwords, tokens, secrets and
    keys as they are, in lists, with no tables, no hashes, no encryption at rest and no data key,
    gives the same response to every request of every run that starts from an empty database, if no
    two of the master passphrases offered in the run derive the same key. -/
theorem service_in_the_clear {F : Type} (L : Lib F) (hcorrect : L.aesgcm.Correct)
    (hkey : L.aesgcm.KeyBound) (hff : L.floats.Lawful)
    (hargon : ∀ secret salt, (L.argon2 secret salt (concrete L).defaultParams).length = 32)
    (hpublic : ∀ k : Bytes, k.length = 32 → (L.publicKey k).length = 32)
    (hsha : Function.Injective L.sha256)
    (hverify : ∀ salt password candidate,
      L.verifyPassword (L.hashPassword salt password) candidate = true ↔ candidate = password)
    (settings : Settings) (is : List (Env (concrete L) × Request Text (Json.Value F)))
    (hapart : (concrete L).Apart fun p => ∃ i ∈ is, i.2.passphrase? = some p) :
    World.initial.exchanges settings is =
      PlainServer.empty.exchanges Json.Value.canon settings is := by
  have hlaws := concrete_plainLaws hcorrect hkey hff hargon hpublic
  have haccounts := concrete_accountLaws hsha hverify
  refine Run.trace_related (R := fun w s =>
    World.InTheClear (concrete L) (fun p => ∃ i ∈ is, i.2.passphrase? = some p) w s) ?_
    ⟨represents_initial, holdsAccounts_initial, ⟨⟨rfl, rfl⟩, List.nodup_nil, trivial⟩⟩
  intro i hi w s h
  exact h.serve hlaws haccounts hapart fun p hp => ⟨i, hi, hp⟩

namespace Sample

/-- A wrong password, a secret and a key, a restart, and a wrong passphrase before the right one. -/
def clearRequests : List SampleRequest :=
  signedIn ++ [(env 5, .login alice path), (env 6, .user (some token) (.kvWrite path (secret 1))),
    (env 7, .user (some token) (.keyCreate keyName)), (env 8, .restart),
    (env 9, .user (some token) (.kvRead path none)), (env 10, .vaultUnlock path),
    (env 11, .vaultUnlock passphrase), (env 12, .user (some token) (.kvRead path none)),
    (env 13, .user (some token) (.keyGet keyName)), (env 14, .user (some token) .auditVerify)]

theorem clearRequests_apart :
    (concrete lib).Apart fun p => ∃ i ∈ clearRequests, i.2.passphrase? = some p := by
  have hoffered : ∀ i ∈ clearRequests, i.2.passphrase? = none ∨ i.2.passphrase? = some passphrase ∨
      i.2.passphrase? = some path := by
    decide +kernel
  have htwo : ∀ p, (∃ i ∈ clearRequests, i.2.passphrase? = some p) → p = passphrase ∨ p = path := by
    rintro p ⟨i, hi, hp⟩
    rcases hoffered i hi with h | h | h
    · cases h.symm.trans hp
    · exact .inl (Option.some.inj (hp.symm.trans h))
    · exact .inr (Option.some.inj (hp.symm.trans h))
  exact fun p q salt params hp hq => passphrases_apart p q salt params (htwo p hp) (htwo q hq)

end Sample

open Sample in
theorem service_in_the_clear_sample :
    ((World.initial.exchanges {} clearRequests).map fun x => x.2.isOk) =
        [true, true, true, true, false, true, true, true, false, false, true, true, true, true] ∧
      (World.initial : World Text Bytes).exchanges {} clearRequests =
        PlainServer.empty.exchanges Json.Value.canon {} clearRequests :=
  ⟨by decide +kernel, service_in_the_clear lib aesgcm_correct aesgcm_keyBound floats_lawful
    (fun _ _ => by simp [lib]) (fun _ hk => hk) (fun _ _ h => h)
    (fun _ _ _ => beq_iff_eq.trans eq_comm) {} clearRequests clearRequests_apart⟩

end MiniVault
