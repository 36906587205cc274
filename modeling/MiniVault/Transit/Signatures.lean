/-
  Signing and verifying agree. `sign` unwraps the private key of the key row, `verify` reads the
  public key beside it. Every signing key is as the `create_signing` call that made it left it, so
  the two belong together for as long as the key exists, and a private key drawn by one call tells
  whose key it is.
-/
import MiniVault.Transit.Ring

namespace MiniVault

open Kit

variable {T B J : Type} {P : Prims T B J} [DecidableEq T]

/-! ## Signing keys of a run -/

/-- The private key that a successful `create_signing` call drew. -/
def signingDraw : (Env P × Call T J) × Except Exc (Data T J) → Option B
  | ((e, .createSigning _ _), .ok _) => some e.key
  | _ => none

/-- The private keys that the calls of a history drew. -/
def signingKeys (h : History P) : List B := h.filterMap signingDraw

/-- The key row is as a `create_signing` call of the history left it, revocation apart. -/
def Created (h : History P) (d : B) (k : TransitKey T) : Prop :=
  ∃ e r id t, ((e, .createSigning k.ownerEmail k.keyName), .ok r) ∈ h ∧
    k = { newKey P e id k.ownerEmail k.keyName .signVerify d with revokedAt := t }

/-- There are no keys without a data key, and with one, every signing key is as it was created. -/
def SigningKeysCreated (h : History P) (w : World T B) : Prop :=
  (w.Unkeyed ∧ w.db.transitKeys = []) ∨
    ∃ d, w.Keyed P d ∧ ∀ k ∈ w.db.transitKeys, k.keyUsage = .signVerify → Created h d k

section Created

variable {h : History P} {d : B} {k : TransitKey T}
  {x : (Env P × Call T J) × Except Exc (Data T J)}

omit [DecidableEq T] in
theorem Created.concat (hk : Created h d k) : Created (h ++ [x]) d k := by
  obtain ⟨e, r, id, t, hmem, hrow⟩ := hk
  exact ⟨e, r, id, t, List.mem_append_left _ hmem, hrow⟩

omit [DecidableEq T] in
/-- A revocation changes nothing that the creating call determined. -/
theorem Created.revoked (hk : Created h d k) (t : Option Time) :
    Created h d { k with revokedAt := t } := by
  obtain ⟨e, r, id, t₀, hmem, hrow⟩ := hk
  exact ⟨e, r, id, t, hmem, by rw [hrow]; rfl⟩

variable {e : Env P} {w w' : World T B} {c : Call T J} {r : Except Exc (Data T J)}

/-- The signing keys after one more call. -/
theorem Created.step (hk : w.Keyed P d) (hring : w.db.KeyRing P)
    (hcreated : ∀ k ∈ w.db.transitKeys, k.keyUsage = .signVerify → Created h d k)
    (hs : Step e w c r w') :
    ∀ k ∈ w'.db.transitKeys, k.keyUsage = .signVerify → Created (h ++ [((e, c), r)]) d k := by
  intro k hmem hu
  have hold : k ∈ w.db.transitKeys → Created (h ++ [((e, c), r)]) d k := fun hmem =>
    (hcreated k hmem hu).concat
  cases hs with
  | createAes hc =>
    rw [wrote_db, keyCreate_keys, List.mem_append, List.mem_singleton] at hmem
    rcases hmem with hmem | rfl
    · exact hold hmem
    · cases hu
  | @createSigning email name dek hc m =>
    rw [wrote_db, keyCreate_keys, List.mem_append, List.mem_singleton] at hmem
    rcases hmem with hmem | rfl
    · exact hold hmem
    · obtain rfl : dek = d := hk.loaded _ hc.unlocked
      exact ⟨e, .key m, e.rowid (w.db.transitKeys.map (·.id)), none,
        List.mem_append_right _ List.mem_cons_self, rfl⟩
  | @revoke email name key hf =>
    obtain ⟨k₀, hk₀, rfl⟩ := List.mem_map.1 hmem
    by_cases hid : k₀.id = key.id
    · rw [if_pos hid] at hu ⊢
      exact ((hcreated k₀ hk₀ hu).revoked _).concat
    · rw [if_neg hid] at hu ⊢
      exact (hcreated k₀ hk₀ hu).concat
  | rotate hf =>
    rcases mem_keyRotate hring (findKey_eq_some hf.found).1 hmem with ⟨hmem, -⟩ | rfl
    · exact hold hmem
    · exact absurd ((hf.usageOk _ rfl).symm.trans hu) (by decide)
  | _ => exact hold hmem

theorem SigningKeysCreated.step (hP : P.Lawful) (hw : SigningKeysCreated h w)
    (hring : w.db.KeyRing P) (hs : Step e w c r w') :
    SigningKeysCreated (h ++ [((e, c), r)]) w' := by
  rcases hw with ⟨hu, hkeys⟩ | ⟨d, hk, hw⟩
  · have hkeys' := (hs.locked_keys hu.2).1
    rw [hkeys] at hkeys'
    refine (hu.step hs).imp (fun hu => ⟨hu, hkeys'⟩) fun hk => ⟨_, hk, ?_⟩
    rw [hkeys']
    rintro k ⟨⟩
  · exact .inr ⟨d, hk.step hP.unlocks hs, Created.step hk hring hw hs⟩

/-- Along every run. -/
theorem signingKeysCreated_run (hP : P.Lawful) (is : List (Env P × Call T J)) :
    SigningKeysCreated (World.initial.trace is) (World.initial.after is) := by
  refine (Run.run_induction
    (I := fun h w => w.db.KeyRing P ∧ SigningKeysCreated h w) ?_ ?_ is).2
  · exact ⟨keyRing_initial, .inl ⟨⟨rfl, rfl⟩, rfl⟩⟩
  · rintro h w i ⟨hring, hw⟩
    have hs := step_of_call i.1 w i.2
    exact ⟨hring.step hs, hw.step hP hring hs⟩

/-- In an unlocked vault, a signing key is as it was created under the loaded data key. -/
theorem created_of_unlocked (hP : P.Lawful) {is : List (Env P × Call T J)} {d : B}
    (hd : ((World.initial : World T B).after is).dek = some d) {k : TransitKey T}
    (hk : k ∈ ((World.initial : World T B).after is).db.transitKeys)
    (hu : k.keyUsage = .signVerify) :
    aesKeyOk P d = true ∧ Created ((World.initial : World T B).trace is) d k := by
  rcases signingKeysCreated_run hP is with ⟨-, hkeys⟩ | ⟨d', hkeyed, hcreated⟩
  · have hnone : k ∈ ((World.initial : World T B).after is).db.transitKeys := hk
    rw [hkeys] at hnone
    cases hnone
  · obtain rfl : d = d' := hkeyed.loaded d hd
    exact ⟨hkeyed.keyOk, hcreated k hk hu⟩

end Created

/-! ## A signing key in place -/

section Stays

variable {e : Env P} {w w' : World T B} {c : Call T J} {r : Except Exc (Data T J)}
  {email name : T} {k : TransitKey T}

/-- No call changes a signing key, but for its revocation. -/
theorem findKey_step (hf : w.db.findKey email name = some k) (hu : k.keyUsage = .signVerify)
    (hring : w.db.KeyRing P) (hs : Step e w c r w') :
    ∃ t, w'.db.findKey email name = some { k with revokedAt := t } := by
  have hcreate : ∀ (email' name' : T) (usage : KeyUsage) (dek : B),
      (w.db.keyCreate P e email' name' usage dek).findKey email name = some k := by
    intro email' name' usage dek
    unfold Database.findKey
    rw [keyCreate_keys]
    exact Table.find?_concat hf _
  cases hs with
  | createAes hc =>
    rw [wrote_db]
    exact ⟨k.revokedAt, hcreate _ _ _ _⟩
  | createSigning hc =>
    rw [wrote_db]
    exact ⟨k.revokedAt, hcreate _ _ _ _⟩
  | @revoke email' name' key hr =>
    rw [findKey_keyRevoke, hf, Option.map_some]
    by_cases hid : k.id = key.id
    · exact ⟨some e.now, by rw [Table.updated, if_pos hid]⟩
    · exact ⟨k.revokedAt, by rw [Table.updated, if_neg hid]⟩
  | @rotate email' name' key dek hr =>
    have hne : k.id ≠ key.id := by
      intro hid
      have heq := Table.eq_of_key hring.ids (findKey_eq_some hf).1 (findKey_eq_some hr.found).1 hid
      exact absurd ((hr.usageOk _ rfl).symm.trans (heq ▸ hu)) (by decide)
    rw [wrote_db, findKey_keyRotate, hf, Option.map_some, Table.updated, if_neg hne]
    exact ⟨k.revokedAt, rfl⟩
  | _ => exact ⟨k.revokedAt, hf⟩

theorem findKey_after (hf : w.db.findKey email name = some k) (hu : k.keyUsage = .signVerify)
    (hring : w.db.KeyRing P) (js : List (Env P × Call T J)) :
    ∃ t, (w.after js).db.findKey email name = some { k with revokedAt := t } := by
  induction js generalizing w k with
  | nil => exact ⟨k.revokedAt, hf⟩
  | cons i js ih =>
    have hs := step_of_call i.1 w i.2
    obtain ⟨t, ht⟩ := findKey_step hf hu hring hs
    exact ih (k := { k with revokedAt := t }) ht hu (hring.step hs)

end Stays

/-! ## Signatures of a run -/

/-- What the results on signatures assume of Ed25519: a private key has a public key, under which
    what it signs verifies, and every signature has 64 bytes. -/
structure Prims.Ed25519 (P : Prims T B J) : Prop where
  publicKey_len : ∀ k, P.len k = 32 → P.len (P.publicKey k) = 32
  correct : ∀ k m, P.len k = 32 → P.verify (P.publicKey k) (P.sign k m) m = true
  signature_len : ∀ pk s m, P.verify pk s m = true → P.len s = 64

/-- The private key and the message that a `sign` call handed to Ed25519. -/
def World.signing (w : World T B) (i : Env P × Call T J) : Option (B × B) :=
  match i.2, (w.call i).1 with
  | .sign email name messageB64 _, .ok _ => do
    let dek ← w.dek
    let key ← w.db.findKey email name
    let m ← (w.db.material P dek key none).toOption
    let message ← P.b64decode messageB64
    return (m, message)
  | _, _ => none

/-- Everything that the `sign` calls of a run handed to Ed25519. -/
def World.signings (w : World T B) : List (Env P × Call T J) → List (B × B)
  | [] => []
  | i :: is => (w.signing i).toList ++ (w.call i).2.signings is

/-- In the run, a `sign` call of `email` with the key `name`, then row `id`, made `signature` of
    `message`. -/
def SignedIn (is : List (Env P × Call T J)) (email name : T) (id : Nat) (message signature : B) :
    Prop :=
  ∃ before e messageB64 messageType after,
    is = before ++ (e, .sign email name messageB64 messageType) :: after ∧
    P.b64decode messageB64 = some message ∧
    (∃ key, ((World.initial : World T B).after before).db.findKey email name = some key ∧
      key.id = id) ∧
    ((World.initial.after before).call (e, .sign email name messageB64 messageType)).1 =
      .ok (.signed ⟨name, P.b64encode signature, P.lit "ED25519"⟩)

section Signings

variable {w : World T B} {is : List (Env P × Call T J)} {k message : B}

theorem mem_signings {x : B × B} (h : x ∈ w.signings is) :
    ∃ before i after, is = before ++ i :: after ∧ (w.after before).signing i = some x := by
  induction is generalizing w with
  | nil => cases h
  | cons i is ih =>
    rcases List.mem_append.1 h with h | h
    · exact ⟨[], i, is, rfl, Option.mem_toList.1 h⟩
    · obtain ⟨before, j, after, rfl, hj⟩ := ih h
      exact ⟨i :: before, j, after, rfl, hj⟩

/-- A `sign` call that returned. -/
theorem sign_call_eq_ok {e : Env P} {email name messageB64 : T} {messageType : MessageType}
    {d : Data T J}
    (h : (w.call (e, (.sign email name messageB64 messageType : Call T J))).1 = .ok d) :
    ∃ hr : SignReady P w.session email name messageB64 messageType,
      d = .signed ⟨name, P.b64encode (P.sign hr.material hr.message), P.lit "ED25519"⟩ := by
  rcases sign_cases email name messageB64 messageType e w.session with ⟨x, hx⟩ | ⟨⟨hr⟩⟩
  · rw [call_eq (c := Call.sign email name messageB64 messageType) rfl hx] at h
    cases h
  · rw [call_eq (c := Call.sign email name messageB64 messageType) rfl (sign_of_ready hr e)] at h
    exact ⟨hr, (Except.ok.inj h).symm⟩

/-- What the log of signings records is a `sign` call that went through. -/
theorem signing_eq_some {i : Env P × Call T J} (h : w.signing i = some (k, message)) :
    ∃ email name messageB64 messageType, i.2 = .sign email name messageB64 messageType ∧
      ∃ hr : SignReady P w.session email name messageB64 messageType,
        hr.material = k ∧ hr.message = message := by
  obtain ⟨e, c⟩ := i
  unfold World.signing at h
  split at h
  · rename_i email name messageB64 messageType d hc hok
    dsimp only at hc
    subst hc
    obtain ⟨hr, -⟩ := sign_call_eq_ok hok
    have hdek : w.dek = some hr.dek := hr.unlocked
    have hfound : w.db.findKey email name = some hr.key := hr.ready.found
    have hopened : w.db.material P hr.dek hr.key none = .ok hr.material := hr.opened
    simp only [hdek, hfound, hopened, hr.decoded, Except.toOption, Option.bind_eq_bind,
      Option.bind_some, Option.pure_def, Option.some.injEq, Prod.mk.injEq] at h
    exact ⟨email, name, messageB64, messageType, rfl, hr, h⟩
  · cases h

/-- The signing key that `_find` returns is as its creation left it. -/
theorem FindReady.created (hP : P.Lawful) {email name : T} {key : TransitKey T} {d : B}
    (h : FindReady ((World.initial : World T B).after is).session email name (some .signVerify) key)
    (hd : ((World.initial : World T B).after is).dek = some d) :
    aesKeyOk P d = true ∧
      ∃ e r id t, ((e, .createSigning email name), .ok r) ∈ (World.initial : World T B).trace is ∧
        key = { newKey P e id email name .signVerify d with revokedAt := t } := by
  obtain ⟨hmem, howner, hname⟩ := findKey_eq_some h.found
  obtain ⟨hk, e, r, id, t, hcall, hrow⟩ := created_of_unlocked hP hd hmem (h.usageOk _ rfl)
  rw [howner, hname] at hcall hrow
  exact ⟨hk, e, r, id, t, hcall, hrow⟩

/-- The private key that `sign` unwraps is the one that the creation of the key drew. -/
theorem SignReady.drawn (hP : P.Lawful) {email name messageB64 : T} {messageType : MessageType}
    (h : SignReady P ((World.initial : World T B).after is).session email name messageB64
      messageType) :
    ∃ e r id t, ((e, .createSigning email name), .ok r) ∈ (World.initial : World T B).trace is ∧
      h.material = e.key ∧
      h.key = { newKey P e id email name .signVerify h.dek with revokedAt := t } := by
  obtain ⟨hk, e, r, id, t, hcall, hrow⟩ := h.ready.created hP h.unlocked
  refine ⟨e, r, id, t, hcall, ?_, hrow⟩
  have hopen := (material_eq_ok.1 h.opened).2
  rw [hrow] at hopen
  exact Except.ok.inj (hopen.symm.trans (open_keySealing hP hk e email name 1))

end Signings

/-! ## Checking a signature -/

section Check

omit [DecidableEq T]

variable {publicKeyB64 signatureB64 : T} {k message : B}

theorem checkSignature_eq_true :
    TransitService.checkSignature P publicKeyB64 signatureB64 message = true ↔
      ∃ signature publicKey, P.b64decode signatureB64 = some signature ∧
        P.b64decode publicKeyB64 = some publicKey ∧ P.len publicKey = 32 ∧
        P.verify publicKey signature message = true := by
  unfold TransitService.checkSignature
  rcases P.b64decode signatureB64 with _ | signature
  · simp
  rcases P.b64decode publicKeyB64 with _ | publicKey
  · simp
  · simp

/-- What was signed verifies. -/
theorem checkSignature_sign (hP : P.Lawful) (hed : P.Ed25519) (hk : P.len k = 32) (message : B) :
    TransitService.checkSignature P (P.b64encode (P.publicKey k)) (P.b64encode (P.sign k message))
      message = true :=
  checkSignature_eq_true.2 ⟨_, _, hP.b64decode_b64encode _, hP.b64decode_b64encode _,
    hed.publicKey_len k hk, hed.correct k message hk⟩

/-- What is not 64 bytes long does not verify. -/
theorem checkSignature_eq_false (hed : P.Ed25519)
    (h : ∀ signature, P.b64decode signatureB64 = some signature → P.len signature ≠ 64) :
    TransitService.checkSignature P publicKeyB64 signatureB64 message = false := by
  rw [← Bool.not_eq_true, checkSignature_eq_true]
  rintro ⟨signature, publicKey, hs, -, -, hverify⟩
  exact h signature hs (hed.signature_len _ _ _ hverify)

end Check

/-! ## Agreement -/

section Agreement

variable {is before after : List (Env P × Call T J)} {e e' : Env P}
  {email name messageB64 messageB64' signatureB64 : T} {messageType messageType' : MessageType}
  {algorithm : Option T} {message : B} {key : TransitKey T}

/-- A `verify` call whose other arguments are in order answers what the check says. -/
theorem verify_call {w : World T B}
    (h : VerifyReady P w.session email name messageB64 messageType algorithm) (e : Env P) :
    (w.call (e, (.verify email name messageB64 messageType signatureB64 algorithm :
      Call T J))).1 =
      .ok (.verified ⟨name, TransitService.checkSignature P (h.key.publicKeyB64.getD (P.lit ""))
        signatureB64 h.message, P.lit "ED25519"⟩) :=
  congrArg Prod.fst (call_eq
    (c := Call.verify email name messageB64 messageType signatureB64 algorithm) rfl
    (verify_of_ready h signatureB64 e))

/-- A `verify` call that returned. -/
theorem verify_call_eq_ok {w : World T B} {v : Verified T}
    (h : (w.call (e, (.verify email name messageB64 messageType signatureB64 algorithm :
      Call T J))).1 = .ok (.verified v)) :
    ∃ hr : VerifyReady P w.session email name messageB64 messageType algorithm,
      v.signatureValid = TransitService.checkSignature P (hr.key.publicKeyB64.getD (P.lit ""))
        signatureB64 hr.message := by
  rcases verify_cases email name messageB64 messageType signatureB64 algorithm e w.session with
    ⟨x, hx⟩ | ⟨⟨hr⟩⟩
  · rw [call_eq (c := Call.verify email name messageB64 messageType signatureB64 algorithm) rfl
      hx] at h
    cases h
  · rw [verify_call hr] at h
    cases h
    exact ⟨hr, rfl⟩

/-- However many calls come between, what `sign` returned verifies on the same bytes, as long as
    the key is not revoked and the vault is unlocked. -/
theorem verify_signed (hP : P.Lawful) (hed : P.Ed25519) {s : Signed T} {w : World T B}
    (hw : w = World.initial.after
      (before ++ (e, .sign email name messageB64 messageType) :: after))
    (hsign : ((World.initial.after before).call
      (e, (.sign email name messageB64 messageType : Call T J))).1 = .ok (.signed s))
    (hunlocked : w.dek ≠ none)
    (hlive : ∀ key, w.db.findKey email name = some key → key.revokedAt = none)
    (hbytes : P.b64decode messageB64' = P.b64decode messageB64)
    (hlen : messageType' = .digest →
      ∀ message, P.b64decode messageB64' = some message → P.len message = 32)
    (halgorithm : algorithm = none ∨ algorithm = some (P.lit "ED25519")) :
    ∃ v, (w.call (e', .verify email name messageB64' messageType' s.signatureB64 algorithm)).1 =
      .ok (.verified v) ∧ v.signatureValid = true := by
  obtain ⟨h, heq⟩ := sign_call_eq_ok hsign
  cases heq
  obtain ⟨e₀, r, id, t, -, hm, hrow⟩ := h.drawn hP
  have hring : ((World.initial : World T B).after before).db.KeyRing P := keyRing_initial.after _
  obtain ⟨t', hfound⟩ := findKey_after h.ready.found (h.ready.usageOk _ rfl) hring
    ((e, .sign email name messageB64 messageType) :: after)
  have hfound' : w.db.findKey email name = some { h.key with revokedAt := t' } := by
    rw [hw, World.after, Run.final_append]
    exact hfound
  have ht' : t' = none := hlive _ hfound'
  let hv : VerifyReady P w.session email name messageB64' messageType' algorithm := {
    key := { h.key with revokedAt := t' }
    message := h.message
    ready := ⟨Option.ne_none_iff_exists'.1 hunlocked, hfound', ht', h.ready.usageOk⟩
    decoded := hbytes.trans h.decoded
    algorithm := by
      rintro a rfl -
      rcases halgorithm with ha | ha
      · cases ha
      · rw [Option.some.inj ha, hrow]
        rfl
    length := fun hd => hlen hd _ (hbytes.trans h.decoded) }
  refine ⟨_, verify_call hv e', ?_⟩
  show TransitService.checkSignature P (h.key.publicKeyB64.getD (P.lit "")) _ h.message = true
  rw [hm, hrow]
  exact checkSignature_sign hP hed e₀.key_len h.message

/-- A signature that verifies was made by `sign`, for the same owner, with the same key and on the
    same bytes, unless it is a forgery under a key of the run. -/
theorem signed_of_verify (hP : P.Lawful)
    (hdistinct : (signingKeys ((World.initial : World T B).trace is)).Nodup)
    (hunforged : ∀ k ∈ signingKeys ((World.initial : World T B).trace is), ∀ message signature,
      P.b64decode messageB64 = some message → P.b64decode signatureB64 = some signature →
      P.verify (P.publicKey k) signature message = true →
      (k, message) ∈ (World.initial : World T B).signings is ∧ signature = P.sign k message)
    {v : Verified T}
    (hverify : ((World.initial.after is).call
      (e, .verify email name messageB64 messageType signatureB64 algorithm)).1 =
        .ok (.verified v)) (hvalid : v.signatureValid = true) :
    ∃ key message signature, (World.initial.after is).db.findKey email name = some key ∧
      P.b64decode messageB64 = some message ∧ P.b64decode signatureB64 = some signature ∧
      SignedIn is email name key.id message signature := by
  obtain ⟨h, hv⟩ := verify_call_eq_ok hverify
  obtain ⟨d, hd⟩ := h.ready.unlocked
  obtain ⟨-, e₀, r, id, t, hcall, hrow⟩ := h.ready.created hP hd
  rw [hv, checkSignature_eq_true] at hvalid
  obtain ⟨signature, publicKey, hs, hpk, -, hcheck⟩ := hvalid
  rw [hrow] at hpk
  cases (hP.b64decode_b64encode _).symm.trans hpk
  have hdraw : ∀ {e₁ : Env P} {email₁ name₁ : T} {r₁ : Data T J},
      ((e₁, .createSigning email₁ name₁), .ok r₁) ∈ (World.initial : World T B).trace is →
        e₁.key ∈ signingKeys ((World.initial : World T B).trace is) := fun hmem =>
    List.mem_filterMap.2 ⟨_, hmem, rfl⟩
  obtain ⟨hmem, hsig⟩ := hunforged e₀.key (hdraw hcall) _ _ h.decoded hs hcheck
  obtain ⟨before, ⟨e₂, c⟩, after, his, hsigning⟩ := mem_signings hmem
  obtain ⟨email₁, name₁, messageB64₁, messageType₁, hc, hr, hm, hmessage⟩ :=
    signing_eq_some hsigning
  dsimp only at hc
  subst hc
  obtain ⟨e₁, r₁, id₁, t₁, hcall₁, hm₁, hrow₁⟩ := hr.drawn hP
  have hcall₁' : ((e₁, .createSigning email₁ name₁), .ok r₁) ∈
      (World.initial : World T B).trace is := by
    rw [his, World.trace, Run.trace_append]
    exact List.mem_append_left _ hcall₁
  -- the same private key was drawn by the same call, hence for the same owner and name
  have hsame := Table.eq_of_filterMap hdistinct hcall₁' hcall (x := e₀.key)
    (by rw [← hm, hm₁]; rfl) rfl
  simp only [Prod.mk.injEq, Call.createSigning.injEq] at hsame
  obtain ⟨⟨-, rfl, rfl⟩, -⟩ := hsame
  have hring : ((World.initial : World T B).after before).db.KeyRing P := keyRing_initial.after _
  obtain ⟨t', hfound⟩ := findKey_after hr.ready.found (hr.ready.usageOk _ rfl) hring
    ((e₂, .sign email₁ name₁ messageB64₁ messageType₁) :: after)
  refine ⟨{ hr.key with revokedAt := t' }, h.message, signature, ?_, h.decoded, hs, before, e₂,
    messageB64₁, messageType₁, after, his, ?_, ⟨hr.key, hr.ready.found, rfl⟩, ?_⟩
  · rw [his, World.after, Run.final_append]
    exact hfound
  · rw [← hmessage]
    exact hr.decoded
  · rw [hsig, ← hmessage, ← hm]
    exact congrArg Prod.fst (call_eq
      (c := Call.sign email₁ name₁ messageB64₁ messageType₁) rfl (sign_of_ready hr e₂))

/-- A malformed or wrong-length signature is invalid, not an error. -/
theorem verify_malformed (hed : P.Ed25519) {w : World T B} (hunlocked : w.dek ≠ none)
    (hfound : w.db.findKey email name = some key) (hlive : key.revokedAt = none)
    (husage : key.keyUsage = .signVerify) (hmessage : P.b64decode messageB64 = some message)
    (hlen : messageType = .digest → P.len message = 32)
    (halgorithm : algorithm = none ∨ algorithm = some key.algorithm)
    (hsignature : ∀ signature, P.b64decode signatureB64 = some signature →
      P.len signature ≠ 64) (e : Env P) :
    ∃ v, (w.call (e, (.verify email name messageB64 messageType signatureB64 algorithm :
      Call T J))).1 = .ok (.verified v) ∧ v.signatureValid = false := by
  let hv : VerifyReady P w.session email name messageB64 messageType algorithm := {
    key := key
    message := message
    ready := ⟨Option.ne_none_iff_exists'.1 hunlocked, hfound, hlive, by rintro _ ⟨⟩; exact husage⟩
    decoded := hmessage
    algorithm := by
      rintro a rfl -
      rcases halgorithm with ha | ha
      · cases ha
      · exact Option.some.inj ha
    length := hlen }
  exact ⟨_, verify_call hv e, checkSignature_eq_false hed hsignature⟩

end Agreement

/-- **Signing and verifying agree.** In any run whose `create_signing` calls draw distinct private
    keys: what `sign` returned verifies on the same bytes at every later point at which the vault
    is unlocked and the key is not revoked; what verifies, and is no forgery under a key of the
    run, was made by `sign` for the same owner, with the same key and on the same bytes; and what
    is no signature at all is answered with `false`. -/
theorem sign_verify {F : Type} (L : Lib F) (hcorrect : L.aesgcm.Correct)
    (hkey : L.aesgcm.KeyBound) (hed : (concrete L).Ed25519)
    (is : List (Env (concrete L) × Call Text (Json.Value F)))
    (hdistinct : (signingKeys (World.initial.trace is)).Nodup) :
    let w : World Text Bytes := World.initial.after is
    (∀ before e email name messageB64 messageType after s,
      is = before ++ (e, .sign email name messageB64 messageType) :: after →
      ((World.initial.after before).call (e, .sign email name messageB64 messageType)).1 =
        .ok (.signed s) →
      w.dek ≠ none → (∀ key, w.db.findKey email name = some key → key.revokedAt = none) →
      ∀ messageB64' messageType' algorithm (e' : Env (concrete L)),
        Base64.decode messageB64' = Base64.decode messageB64 →
        (messageType' = .digest →
          ∀ message, Base64.decode messageB64' = some message → message.length = 32) →
        (algorithm = none ∨ algorithm = some "ED25519".toList) →
        ∃ v, (w.call
            (e', .verify email name messageB64' messageType' s.signatureB64 algorithm)).1 =
          .ok (.verified v) ∧ v.signatureValid = true) ∧
      (∀ email name messageB64 messageType signatureB64 algorithm (e : Env (concrete L)) v,
        (∀ k ∈ signingKeys (World.initial.trace is), ∀ message signature,
          Base64.decode messageB64 = some message → Base64.decode signatureB64 = some signature →
          L.verify (L.publicKey k) signature message = true →
          (k, message) ∈ World.initial.signings is ∧ signature = L.sign k message) →
        (w.call (e, .verify email name messageB64 messageType signatureB64 algorithm)).1 =
          .ok (.verified v) →
        v.signatureValid = true →
        ∃ key message signature, w.db.findKey email name = some key ∧
          Base64.decode messageB64 = some message ∧ Base64.decode signatureB64 = some signature ∧
          SignedIn is email name key.id message signature) ∧
      ∀ email name messageB64 messageType signatureB64 algorithm (e : Env (concrete L)) key message,
        w.dek ≠ none → w.db.findKey email name = some key → key.revokedAt = none →
        key.keyUsage = .signVerify → Base64.decode messageB64 = some message →
        (messageType = .digest → message.length = 32) →
        (algorithm = none ∨ algorithm = some key.algorithm) →
        (∀ signature, Base64.decode signatureB64 = some signature → signature.length ≠ 64) →
        ∃ v, (w.call (e, .verify email name messageB64 messageType signatureB64 algorithm)).1 =
          .ok (.verified v) ∧ v.signatureValid = false := by
  intro w
  have hP := concrete_lawful hcorrect hkey
  refine ⟨?_, ?_, ?_⟩
  · intro before e email name messageB64 messageType after s his hsign hunlocked hlive
      messageB64' messageType' algorithm e' hbytes hlen halgorithm
    exact verify_signed hP hed (congrArg World.initial.after his) hsign hunlocked hlive hbytes hlen
      halgorithm
  · intro email name messageB64 messageType signatureB64 algorithm e v hunforged hverify hvalid
    exact signed_of_verify hP hdistinct hunforged hverify hvalid
  · intro email name messageB64 messageType signatureB64 algorithm e key message hunlocked hfound
      hlive husage hmessage hlen halgorithm hsignature
    exact verify_malformed hed hunlocked hfound hlive husage hmessage hlen halgorithm hsignature e

namespace Sample

/-- Libraries whose signatures have 64 bytes. -/
def signLib : Lib Unit :=
  { lib with
    sign := fun privateKey message => (privateKey ++ message ++ List.replicate 64 0).take 64
    verify := fun publicKey signature message =>
      signature == (publicKey ++ message ++ List.replicate 64 0).take 64 }

theorem signLib_ed25519 : (concrete signLib).Ed25519 where
  publicKey_len _ hk := hk
  correct k m _ := by
    show ((k ++ m ++ List.replicate 64 0).take 64 == (k ++ m ++ List.replicate 64 0).take 64) = true
    exact beq_self_eq_true _
  signature_len pk s m h := by
    have hs : s = (pk ++ m ++ List.replicate 64 0).take 64 := eq_of_beq h
    show s.length = 64
    rw [hs, List.length_take, List.length_append, List.length_replicate]
    omega

/-- A signing key is made. -/
def keyedCalls : List (Env (concrete signLib) × Call Text (Json.Value Unit)) :=
  forLib signLib (opening ++ [(env 3, .createSigning alice otherName)])

/-- It signs a message. -/
def signCall : Env (concrete signLib) × Call Text (Json.Value Unit) :=
  (withLib signLib (env 4), .sign alice otherName "aGVsbG8=".toList .raw)

/-- The private key that was drawn, and the bytes that are signed. -/
def signed : Bytes × Bytes := (List.replicate 32 3, [104, 101, 108, 108, 111])

/-- What that returned. -/
def signature : Option (Signed Text) :=
  match ((World.initial.after keyedCalls).call signCall).1 with
  | .ok (.signed s) => some s
  | _ => none

/-- The vault is locked and unlocked again. -/
def relockedCalls : List (Env (concrete signLib) × Call Text (Json.Value Unit)) :=
  keyedCalls ++ signCall ::
    forLib signLib [(env 5, .vaultLock), (env 6, .vaultUnlock passphrase)]

theorem signed_of_signature {s : Signed Text} (h : signature = some s) :
    ((World.initial.after keyedCalls).call signCall).1 = .ok (.signed s) := by
  unfold signature at h
  split at h
  · rename_i heq
    rw [heq, Option.some.inj h]
  · cases h

end Sample

open Sample in
theorem sign_verify_sample :
    ∃ s v, signature = some s ∧
      ((World.initial.after relockedCalls).call (withLib signLib (env 7),
        .verify alice otherName "aGVsbG8=".toList .raw s.signatureB64 none)).1 =
          .ok (.verified v) ∧ v.signatureValid = true ∧
      ∃ key message signature, (World.initial.after relockedCalls).db.findKey alice otherName =
          some key ∧ Base64.decode "aGVsbG8=".toList = some message ∧
        Base64.decode s.signatureB64 = some signature ∧
        SignedIn relockedCalls alice otherName key.id message signature := by
  obtain ⟨hs, hkeys⟩ : signature = some ⟨otherName,
        Base64.encode (signLib.sign signed.1 signed.2), "ED25519".toList⟩ ∧
      signingKeys (World.initial.trace relockedCalls) = [signed.1] := by
    decide +kernel
  have hbytes : Base64.decode "aGVsbG8=".toList = some signed.2 := by decide +kernel
  have hsigned := signed_of_signature hs
  obtain ⟨hcomplete, hsound, -⟩ := sign_verify signLib aesgcm_correct aesgcm_keyBound
    signLib_ed25519 relockedCalls (by rw [hkeys]; exact List.nodup_singleton _)
  obtain ⟨v, hv, hvalid⟩ := hcomplete keyedCalls _ alice otherName _ .raw _ _ rfl hsigned
    (by decide +kernel) (by decide +kernel) "aGVsbG8=".toList .raw none (withLib signLib (env 7))
    rfl (by rintro ⟨⟩) (.inl rfl)
  refine ⟨_, v, hs, hv, hvalid, hsound _ _ _ _ _ _ _ v ?_ hv hvalid⟩
  intro k hk message signature hmessage hsignature _
  rw [hkeys, List.mem_singleton] at hk
  cases hbytes.symm.trans hmessage
  cases (Base64.decode_encode _).symm.trans hsignature
  exact ⟨by rw [hk]; decide +kernel, by rw [hk]⟩

end MiniVault
