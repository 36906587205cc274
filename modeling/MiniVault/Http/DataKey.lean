/-
  One data key for the life of the vault, over runs of all requests: at most one `init`
  succeeds, what is loaded afterwards is the key it drew, and its passphrase, and no other,
  loads it.
-/
import MiniVault.Http.Step
import MiniVault.Model.Sample
import MiniVault.Service.Dek

namespace MiniVault

open Kit Imp

variable {T B J : Type} {P : Prims T B J}

/-! ## Unlocking -/

/-- No two of these passphrases derive the same key. -/
def Prims.Apart (P : Prims T B J) (offered : T → Prop) : Prop :=
  ∀ p q salt params, offered p → offered q →
    P.deriveKey p salt params = P.deriveKey q salt params → p = q

/-- The passphrase that a request offers. -/
def Request.passphrase? : Request T J → Option T
  | .vaultInit p _ => some p
  | .vaultUnlock p => some p
  | _ => none

section Unwrap

variable {e : Env P} {p q : T}

/-- A passphrase is tried on the configuration that another one made. -/
theorem unwrapDek_eq (hP : P.Lawful) :
    VaultService.unwrapDek P (newConfig P e p) q =
      decrypt P (P.deriveKey q e.salt P.defaultParams) e.nonce
        (P.aesgcm.encrypt (P.deriveKey p e.salt P.defaultParams) e.nonce e.dek (dekAad P))
        (dekAad P) := by
  simp only [VaultService.unwrapDek, newConfig, b64d, hP.b64decode_b64encode]
  rfl

/-- The passphrase that made the vault opens it. -/
theorem unwrapDek_self (hP : P.Lawful)
    (hk : aesKeyOk P (P.deriveKey p e.salt P.defaultParams) = true) :
    VaultService.unwrapDek P (newConfig P e p) p = .ok e.dek := by
  rw [unwrapDek_eq hP]
  exact decrypt_encrypt hP.correct hk e _ _

/-- A passphrase that derives another key is caught. -/
theorem unwrapDek_wrong (hP : P.Lawful)
    (hne : P.deriveKey q e.salt P.defaultParams ≠ P.deriveKey p e.salt P.defaultParams) :
    ∃ x, VaultService.unwrapDek P (newConfig P e p) q = .error x ∧
      (x = .invalidTag ∨ x.isValueError = true) := by
  rw [unwrapDek_eq hP]
  rcases hd : decrypt P (P.deriveKey q e.salt P.defaultParams) e.nonce
    (P.aesgcm.encrypt (P.deriveKey p e.salt P.defaultParams) e.nonce e.dek (dekAad P))
    (dekAad P) with x | k
  · refine ⟨x, rfl, ?_⟩
    unfold decrypt at hd
    split_ifs at hd
    · exact .inr (Except.error.inj hd ▸ rfl)
    · split at hd
      · cases hd
      · exact .inl (Except.error.inj hd).symm
    · exact .inr (Except.error.inj hd ▸ rfl)
  · exact absurd (hP.keyBound _ _ _ _ _ _ (decrypt_eq_ok.1 hd).2.2) hne

/-- A passphrase opens the configuration exactly if it made it. -/
theorem unwrapDek_iff (hP : P.Lawful)
    (hk : aesKeyOk P (P.deriveKey p e.salt P.defaultParams) = true)
    (happ : P.deriveKey q e.salt P.defaultParams = P.deriveKey p e.salt P.defaultParams → q = p) :
    (∃ k, VaultService.unwrapDek P (newConfig P e p) q = .ok k) ↔ q = p := by
  constructor
  · rintro ⟨k, h⟩
    by_contra hne
    obtain ⟨x, hx, -⟩ := unwrapDek_wrong hP (mt happ hne)
    cases h.symm.trans hx
  · rintro rfl
    exact ⟨e.dek, unwrapDek_self hP hk⟩

end Unwrap

variable [DecidableEq T]

/-! ## The life of a vault -/

/-- The `init` requests that succeeded, with the passphrase each was given. -/
def inits (tr : Exchanges P) : List (Env P × T) :=
  tr.filterMap fun
    | ((e, .vaultInit passphrase _), .ok _ _) => some (e, passphrase)
    | _ => none

omit [DecidableEq T] in
theorem inits_concat (tr : Exchanges P) (x : (Env P × Request T J) × Response T J) :
    inits (tr ++ [x]) = inits tr ++ inits [x] := List.filterMap_append

omit [DecidableEq T] in
theorem passphrase_of_mem_inits {tr : Exchanges P} {i : Env P × T} (hi : i ∈ inits tr) :
    ∃ x ∈ tr, x.1.2.passphrase? = some i.2 := by
  obtain ⟨⟨⟨e, r⟩, resp⟩, hx, heq⟩ := List.mem_filterMap.1 hi
  refine ⟨_, hx, ?_⟩
  cases r with
  | vaultInit p c =>
    cases resp with
    | ok d n =>
      cases heq
      rfl
    | error err => cases heq
  | _ => cases heq

/-- Before the vault is made, and after. -/
inductive VaultLife (P : Prims T B J) : List (Env P × T) → World T B → Prop
  | unmade {w} (hconfig : w.db.vaultConfig = []) (hdek : w.dek = none) : VaultLife P [] w
  | made {w} (e p) (hconfig : w.db.vaultConfig = [newConfig P e p])
      (hk : aesKeyOk P (P.deriveKey p e.salt P.defaultParams) = true)
      (hdek : ∀ d, w.dek = some d → d = e.dek) : VaultLife P [(e, p)] w

section Life

variable {settings : Settings} {e : Env P} {w w' : World T B}

omit [DecidableEq T] in
theorem VaultLife.frame {is : List (Env P × T)} (h : VaultLife P is w)
    (hconfig : w'.db.vaultConfig = w.db.vaultConfig)
    (hdek : ∀ d, w'.dek = some d → w.dek = some d) : VaultLife P is w' := by
  cases h with
  | unmade hc hd =>
    refine .unmade (hconfig.trans hc) ?_
    rcases hd' : w'.dek with _ | d
    · rfl
    · rw [hdek d hd'] at hd
      cases hd
  | made e p hc hk hd => exact .made e p (hconfig.trans hc) hk fun d h => hd d (hdek d h)

/-- One call, and what it adds to the list of successful `init`s. -/
theorem VaultLife.step (hP : P.Lawful) {is : List (Env P × T)} (h : VaultLife P is w)
    {r : Request T J} {c : Call T J} {res : Except Exc (Data T J)} (hc : r.vaultCall = some c)
    (hs : Step e w c res w') :
    VaultLife P (is ++ inits [((e, r), answer P res r.status)]) w' := by
  have hnone : inits [((e, r), answer P res r.status)] = [] → w'.db.vaultConfig = w.db.vaultConfig →
      (∀ d, w'.dek = some d → w.dek = some d) →
      VaultLife P (is ++ inits [((e, r), answer P res r.status)]) w' := by
    intro hi hconfig hdek
    rw [hi, List.append_nil]
    exact h.frame hconfig hdek
  cases hs with
  | vaultInit p hempty hk =>
    cases r <;> cases hc
    cases h with
    | unmade => exact .made e p rfl hk (by rintro _ ⟨⟩)
    | made e₀ p₀ hconfig => exact absurd (hempty.symm.trans hconfig) (by simp)
  | @vaultUnlock p config dek hconfig hu =>
    cases r <;> cases hc
    cases h with
    | unmade hempty =>
      rw [hempty] at hconfig
      cases hconfig
    | made e₀ p₀ hconfig₀ hk =>
      refine .made e₀ p₀ hconfig₀ hk ?_
      rintro d ⟨⟩
      rw [hconfig₀] at hconfig
      cases hconfig
      exact unwrapDek_newConfig hP.unlocks hu
  | fail _ x =>
    refine hnone ?_ rfl fun _ => id
    cases x <;> cases r <;> rfl
  | view d hview =>
    refine hnone ?_ rfl fun _ => id
    cases r <;> cases hc
    · cases hview
    · rfl
    · rfl
    · rfl
    · rfl
  | vaultLock =>
    cases r <;> cases hc
    exact hnone rfl rfl (by rintro _ ⟨⟩)
  | restart =>
    cases r <;> cases hc
    exact hnone rfl rfl (by rintro _ ⟨⟩)
  | _ => cases r <;> cases hc

/-- Every request keeps the vault on its one key. -/
theorem VaultLife.served (hP : P.Lawful) {is : List (Env P × T)} (h : VaultLife P is w)
    {r : Request T J} {resp : Response T J} (hs : Served settings e w r resp w') :
    VaultLife P (is ++ inits [((e, r), resp)]) w' := by
  have hnone : inits [((e, r), resp)] = [] → w'.db.vaultConfig = w.db.vaultConfig →
      w'.dek = w.dek → VaultLife P (is ++ inits [((e, r), resp)]) w' := by
    intro hi hconfig hdek
    rw [hi, List.append_nil]
    exact h.frame hconfig fun d hd => hdek ▸ hd
  cases hs with
  | raised r x =>
    refine hnone ?_ rfl rfl
    cases x <;> cases r <;> rfl
  | vault hc hs => exact h.step hP hc hs
  | @service _ p r c res w₁ hp hc hs =>
    obtain ⟨hconfig, hdek⟩ := hs.vault (UserRequest.call_email hc)
    obtain ⟨logs, hlogs⟩ := audited_db w₁ e p.user.email (r.audits P) res
    refine hnone rfl ?_ ?_
    · rw [hlogs]
      exact hconfig
    · rw [audited_dek]
      exact hdek
  | _ => exact hnone rfl rfl rfl

/-- Along every run. -/
theorem vaultLife_run (hP : P.Lawful) (settings : Settings) (is : List (Env P × Request T J)) :
    VaultLife P (inits (World.initial.exchanges settings is))
      (World.initial.served settings is) := by
  refine serve_induction settings World.initial (I := fun tr w => VaultLife P (inits tr) w)
    (.unmade rfl rfl) ?_ is
  intro tr w w' e r resp h hs
  rw [inits_concat]
  exact h.served hP hs

/-! ## Requests to the vault -/

omit [DecidableEq T] in
theorem unlock_of_unwrap {config : VaultConfig T} {p : T} {dek : B} {s : Proc T B}
    (hc : s.db.vaultConfig.head? = some config)
    (hu : VaultService.unwrapDek P config p = .ok dek) :
    VaultService.unlock p e s = (.ok (), { s with dek := some dek }) := by
  simp [VaultService.unlock, hc, hu, unlockState]

/-- `unlock` succeeds exactly where the passphrase opens the configuration. -/
theorem unlock_isOk (w : World T B) (settings : Settings) (e : Env P) (p : T) :
    (w.request settings e (.vaultUnlock p : Request T J)).1.isOk = true ↔
      ∃ config, w.db.vaultConfig.head? = some config ∧
        ∃ dek, VaultService.unwrapDek P config p = .ok dek := by
  rw [request_vault (r := .vaultUnlock p) rfl]
  constructor
  · intro h
    have hs := step_of_call e w (.vaultUnlock p : Call T J)
    generalize (w.call (e, .vaultUnlock p)).1 = res at h hs
    generalize (w.call (e, .vaultUnlock p)).2 = w' at hs
    cases hs with
    | fail _ x => cases x <;> cases h
    | view _ hview => cases hview
    | vaultUnlock _ hc hu => exact ⟨_, hc, _, hu⟩
  · rintro ⟨config, hc, dek, hu⟩
    have hunlock := unlock_of_unwrap (e := e) (s := w.session) hc hu
    rw [call_eq (c := Call.vaultUnlock p) rfl hunlock]
    rfl

/-- A failed request to the vault changes neither the configuration nor the loaded key. -/
theorem vaultCall_failed {r : Request T J} {c : Call T J} (hc : r.vaultCall = some c)
    (h : (w.request settings e r).1.isOk = false) :
    (w.request settings e r).2.db.vaultConfig = w.db.vaultConfig ∧
      (w.request settings e r).2.dek = w.dek := by
  rw [request_vault hc] at h ⊢
  obtain ⟨hdb, hdek⟩ := (step_of_call e w c).failed h
  exact ⟨by rw [hdb], hdek⟩

theorem init_locked {p c : T}
    (h : (w.request settings e (.vaultInit p c : Request T J)).1.isOk = true) :
    (w.request settings e (.vaultInit p c : Request T J)).2.dek = none := by
  rw [request_vault (r := .vaultInit p c) rfl] at h ⊢
  dsimp only at h ⊢
  have hs := step_of_call e w (.vaultInit p c : Call T J)
  generalize (w.call (e, .vaultInit p c)).1 = res at h hs
  generalize (w.call (e, .vaultInit p c)).2 = w' at hs ⊢
  cases hs with
  | fail _ x => cases x <;> cases h
  | view _ hview => cases hview
  | vaultInit => rfl

theorem restart_locked (w : World T B) (settings : Settings) (e : Env P) :
    (w.request settings e (.restart : Request T J)).2.dek = none := by
  rw [request_vault (r := .restart) rfl]
  rfl

end Life

/-- What holds of a vault after a run, for the passphrases that are offered. -/
structure OneDataKey (settings : Settings) (offered : T → Prop) (tr : Exchanges P)
    (w : World T B) : Prop where
  once : (inits tr).length ≤ 1
  loaded : ∀ d, w.dek = some d → ∃ i ∈ inits tr, d = i.1.dek
  unlocks : ∀ (e : Env P) p, offered p →
    ((w.request settings e (.vaultUnlock p : Request T J)).1.isOk = true ↔
      ∃ i ∈ inits tr, i.2 = p)
  failed : ∀ (e : Env P) (r : Request T J),
    ((∃ p c, r = .vaultInit p c) ∨ ∃ p, r = .vaultUnlock p) →
    (w.request settings e r).1.isOk = false →
      (w.request settings e r).2.db.vaultConfig = w.db.vaultConfig ∧
        (w.request settings e r).2.dek = w.dek
  initLocks : ∀ (e : Env P) p c,
    (w.request settings e (.vaultInit p c : Request T J)).1.isOk = true →
      (w.request settings e (.vaultInit p c : Request T J)).2.dek = none
  restartLocks : ∀ e : Env P, (w.request settings e (.restart : Request T J)).2.dek = none

theorem VaultLife.oneDataKey (hP : P.Lawful) {offered : T → Prop} (hapart : P.Apart offered)
    {settings : Settings} {tr : Exchanges P} {w : World T B} (h : VaultLife P (inits tr) w)
    (hmade : ∀ i ∈ inits tr, offered i.2) : OneDataKey settings offered tr w where
  once := by
    generalize inits tr = made at h ⊢
    cases h with
    | unmade => exact Nat.zero_le 1
    | made => exact Nat.le_refl 1
  loaded d hd := by
    generalize inits tr = made at h ⊢
    cases h with
    | unmade _ hdek =>
      rw [hdek] at hd
      cases hd
    | made e p _ _ hdek => exact ⟨(e, p), List.mem_singleton_self _, hdek d hd⟩
  unlocks e p hp := by
    generalize inits tr = made at h hmade ⊢
    rw [unlock_isOk]
    cases h with
    | unmade hempty =>
      rw [hempty]
      simp
    | made e₀ p₀ hconfig hk =>
      rw [hconfig]
      simp only [List.head?_cons, Option.some.injEq, exists_eq_left', List.mem_singleton,
        exists_eq_left]
      have hp₀ : offered p₀ := hmade _ (List.mem_singleton_self _)
      rw [unwrapDek_iff hP hk (hapart _ _ _ _ hp hp₀)]
      exact eq_comm
  failed e r hr hfail := by
    rcases hr with ⟨p, c, rfl⟩ | ⟨p, rfl⟩
    · exact vaultCall_failed rfl hfail
    · exact vaultCall_failed rfl hfail
  initLocks _ _ _ hok := init_locked hok
  restartLocks e := restart_locked w settings e

/-- **One data key for the life of the vault.** In every run at most one `init` succeeds; what is
    loaded afterwards is the key that it drew; its passphrase, and no other, unlocks, as far as no
    two of the passphrases that are offered derive the same key; a failed `init` or `unlock`
    changes nothing; after a successful `init` and after a restart the vault is locked. -/
theorem one_data_key {F : Type} (L : Lib F) (hcorrect : L.aesgcm.Correct)
    (hkey : L.aesgcm.KeyBound) (offered : Text → Prop) (hapart : (concrete L).Apart offered)
    (settings : Settings) (is : List (Env (concrete L) × Request Text (Json.Value F)))
    (hoffered : ∀ i ∈ is, ∀ p, i.2.passphrase? = some p → offered p) :
    OneDataKey settings offered (World.initial.exchanges settings is)
      (World.initial.served settings is) := by
  have hP := concrete_lawful hcorrect hkey
  refine (vaultLife_run hP settings is).oneDataKey hP hapart fun i hi => ?_
  obtain ⟨x, hx, hp⟩ := passphrase_of_mem_inits hi
  exact hoffered _ (Run.mem_of_mem_trace hx) _ hp

namespace Sample

/-- The passphrase of the samples and the path of the samples, padded to keys, differ. -/
theorem passphrases_apart : (concrete lib).Apart fun p => p = passphrase ∨ p = path := by
  have hne : (Utf8.encode passphrase ++ List.replicate 32 0).take 32 ≠
      (Utf8.encode path ++ List.replicate 32 0).take 32 := by
    decide +kernel
  rintro p q salt params (rfl | rfl) (rfl | rfl) heq
  · rfl
  · exact absurd heq hne
  · exact absurd heq.symm hne
  · rfl

/-- Two vaults are asked for, and both passphrases are tried. -/
def vaultRequests : List SampleRequest :=
  [(env 1, .vaultInit passphrase passphrase), (env 2, .vaultInit path path),
    (env 3, .vaultUnlock passphrase), (env 4, .vaultUnlock path)]

end Sample

open Sample in
theorem one_data_key_sample :
    ((World.initial.exchanges {} vaultRequests).map fun x => x.2.isOk) =
        [true, false, true, false] ∧
      (World.initial.served {} vaultRequests).dek = some (env 1).dek ∧
      OneDataKey {} (fun p => p = passphrase ∨ p = path)
        (World.initial.exchanges {} vaultRequests) (World.initial.served {} vaultRequests) := by
  refine ⟨by decide +kernel, by decide +kernel, one_data_key lib aesgcm_correct aesgcm_keyBound _
    passphrases_apart {} vaultRequests fun i hi p hp => ?_⟩
  have hoffered : ∀ i ∈ vaultRequests, i.2.passphrase? = some passphrase ∨
      i.2.passphrase? = some path := by
    decide +kernel
  rcases hoffered i hi with h | h
  · exact .inl (Option.some.inj (hp.symm.trans h))
  · exact .inr (Option.some.inj (hp.symm.trans h))

end MiniVault
