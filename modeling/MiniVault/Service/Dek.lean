/-
  One data key for the whole life of a vault: `init` draws it, and whatever passphrase unlocks
  the vault later, the key it unlocks is that one.
-/
import MiniVault.Kit.JsonRoundTrip
import MiniVault.Model.Concrete
import MiniVault.Service.Step

namespace MiniVault

open Kit

variable {T B J : Type} {P : Prims T B J}

/-- What the results on decryption assume of the libraries. -/
structure Prims.Lawful (P : Prims T B J) : Prop where
  b64decode_b64encode : ∀ b, P.b64decode (P.b64encode b) = some b
  correct : P.aesgcm.Correct
  keyBound : P.aesgcm.KeyBound

/-- What the results on the data key assume: of the keys derived from passphrases, only the one
    that a text was encrypted under opens it. -/
structure Prims.Unlocks (P : Prims T B J) : Prop where
  b64decode_b64encode : ∀ b, P.b64decode (P.b64encode b) = some b
  correct : P.aesgcm.Correct
  derivedBound : ∀ p q salt params n data a r,
    P.aesgcm.decrypt (P.deriveKey q salt params) n
        (P.aesgcm.encrypt (P.deriveKey p salt params) n data a) a = some r →
      P.deriveKey q salt params = P.deriveKey p salt params

theorem Prims.Lawful.unlocks (hP : P.Lawful) : P.Unlocks where
  b64decode_b64encode := hP.b64decode_b64encode
  correct := hP.correct
  derivedBound _ _ _ _ _ _ _ _ h := hP.keyBound _ _ _ _ _ _ h

theorem concrete_lawful {F : Type} {L : Lib F} (hcorrect : L.aesgcm.Correct)
    (hkey : L.aesgcm.KeyBound) : (concrete L).Lawful where
  b64decode_b64encode := Base64.decode_encode
  correct := hcorrect
  keyBound := hkey

/-- A written value, dumped, loads as the same value with its keys in order. -/
theorem concrete_loads {F : Type} {L : Lib F} (hff : L.floats.Lawful) {data : Json.Value F}
    {raw : Bytes} (hd : (concrete L).dumps data = .ok raw) :
    (concrete L).loads raw = .ok data.canon := by
  have hdumps : dumps L data = .ok raw := hd
  unfold dumps at hdumps
  rcases hs : Json.dumps L.floats data with _ | s
  · simp [hs] at hdumps
  rcases he : Json.encodeStr s with _ | b
  · simp [hs, he] at hdumps
  · simp only [hs, he, Except.ok.injEq] at hdumps
    subst hdumps
    show loads L b = _
    rw [loads, Json.loads_dumps hff hs he]

/-- What a stored value relies on: it is decoded, decrypted and loaded as what was dumped,
    encrypted and encoded, up to `canon`. -/
structure Prims.RoundTrips (P : Prims T B J) (canon : J → J) : Prop where
  b64decode_b64encode : ∀ b, P.b64decode (P.b64encode b) = some b
  correct : P.aesgcm.Correct
  loads : ∀ data raw, P.dumps data = .ok raw → P.loads raw = .ok (canon data)

theorem concrete_roundTrips {F : Type} {L : Lib F} (hcorrect : L.aesgcm.Correct)
    (hff : L.floats.Lawful) : (concrete L).RoundTrips Json.Value.canon where
  b64decode_b64encode := Base64.decode_encode
  correct := hcorrect
  loads _ _ hd := concrete_loads hff hd

/-! ## Decryption -/

theorem decrypt_eq_ok {key nonce ciphertext aad p : B} :
    decrypt P key nonce ciphertext aad = .ok p ↔
      aesKeyOk P key = true ∧ (8 ≤ P.len nonce ∧ P.len nonce ≤ 128) ∧
        P.aesgcm.decrypt key nonce ciphertext aad = some p := by
  unfold decrypt
  by_cases hk : aesKeyOk P key = true
  · by_cases hn : P.len nonce < 8 ∨ 128 < P.len nonce
    · simp only [if_pos hk, if_pos hn]
      constructor
      · rintro ⟨⟩
      · rintro ⟨-, ⟨h8, h128⟩, -⟩
        omega
    · simp only [if_pos hk, if_neg hn]
      have hlen : 8 ≤ P.len nonce ∧ P.len nonce ≤ 128 := by omega
      rcases P.aesgcm.decrypt key nonce ciphertext aad with _ | q
      · simp
      · simp [hk, hlen]
  · simp [hk]

theorem b64d_eq_ok {value : T} {code : ErrorCode} {b : B} :
    b64d P value code = .ok b ↔ P.b64decode value = some b := by
  unfold b64d
  rcases P.b64decode value with _ | c
  · simp
  · simp

/-- What one request encrypts, it can decrypt. -/
theorem decrypt_encrypt (hc : P.aesgcm.Correct) {key : B} (hk : aesKeyOk P key = true) (e : Env P)
    (data aad : B) :
    decrypt P key e.nonce (P.aesgcm.encrypt key e.nonce data aad) aad = .ok data := by
  rw [decrypt_eq_ok, e.nonce_len]
  exact ⟨hk, by omega, hc _ _ _ _⟩

/-- The columns that a write fills open to what was written. -/
theorem openSecret_sealed (hb : ∀ b, P.b64decode (P.b64encode b) = some b)
    (hc : P.aesgcm.Correct) {dek : B} (hk : aesKeyOk P dek = true) (e : Env P) (path : T)
    (raw : B) :
    KVService.openSecret P dek (P.b64encode e.nonce) (cipherText P (kvSealing P e path dek raw))
      path = P.loads raw := by
  rw [KVService.openSecret, cipherText, b64d_eq_ok.2 (hb _), b64d_eq_ok.2 (hb _)]
  show (decrypt P dek e.nonce _ _ >>= P.loads) = _
  rw [kvSealing, decrypt_encrypt hc hk]
  rfl

/-! ## The data key -/

/-- `d` is the data key of the vault: the configuration wraps it, and no other key is loaded. -/
structure World.Keyed (P : Prims T B J) (d : B) (w : World T B) : Prop where
  wrapped : ∃ e : Env P, ∃ p, w.db.vaultConfig = [newConfig P e p] ∧ e.dek = d
  loaded : ∀ k, w.dek = some k → k = d

theorem World.Keyed.keyOk {d : B} {w : World T B} (h : w.Keyed P d) : aesKeyOk P d = true := by
  obtain ⟨e, p, -, rfl⟩ := h.wrapped
  simp [aesKeyOk, e.dek_len]

/-- Whatever passphrase opens the configuration, it opens it to the key that was wrapped. -/
theorem unwrapDek_newConfig (hP : P.Unlocks) {e : Env P} {p q : T} {k : B}
    (h : VaultService.unwrapDek P (newConfig P e p) q = .ok k) : k = e.dek := by
  simp only [VaultService.unwrapDek, newConfig, b64d, hP.b64decode_b64encode] at h
  have hopen := (decrypt_eq_ok.1 h).2.2
  rw [hP.derivedBound _ _ _ _ _ _ _ _ hopen] at hopen
  exact hP.correct.decrypt_eq hopen

/-- Before `init`: nothing wrapped and nothing loaded. -/
def World.Unkeyed (w : World T B) : Prop := w.db.vaultConfig = [] ∧ w.dek = none

/-- A loaded key is the key of the vault. -/
theorem World.keyed_of_loaded {d : B} {w : World T B} (h : w.Unkeyed ∨ ∃ k, w.Keyed P k)
    (hd : w.dek = some d) : w.Keyed P d := by
  rcases h with hu | ⟨k, hk⟩
  · rw [hu.2] at hd
    cases hd
  · rwa [hk.loaded d hd]

variable [DecidableEq T]

/-- The data key stays the same. -/
theorem World.Keyed.step (hP : P.Unlocks) {d : B} {e : Env P} {w w' : World T B} {c : Call T J}
    {r : Except Exc (Data T J)} (h : w.Keyed P d) (hs : Step e w c r w') : w'.Keyed P d := by
  obtain ⟨e₀, p₀, hconfig, hd⟩ := h.wrapped
  cases hs with
  | vaultInit p hempty => exact absurd (hempty.symm.trans hconfig) (by simp)
  | vaultUnlock p hc hu =>
    refine ⟨h.wrapped, ?_⟩
    rintro k ⟨⟩
    rw [hconfig] at hc
    cases hc
    rw [unwrapDek_newConfig hP hu, hd]
  | vaultLock => exact ⟨h.wrapped, by rintro _ ⟨⟩⟩
  | restart => exact ⟨h.wrapped, by rintro _ ⟨⟩⟩
  | _ => exact ⟨h.wrapped, h.loaded⟩

/-- A vault that is not initialized stays so, or gets its data key. -/
theorem World.Unkeyed.step {e : Env P} {w w' : World T B} {c : Call T J}
    {r : Except Exc (Data T J)} (h : w.Unkeyed) (hs : Step e w c r w') :
    w'.Unkeyed ∨ w'.Keyed P e.dek := by
  cases hs with
  | vaultInit p => exact .inr ⟨⟨e, p, rfl, rfl⟩, by rintro _ ⟨⟩⟩
  | vaultUnlock p hc => rw [h.1] at hc; cases hc
  | vaultLock => exact .inl ⟨h.1, rfl⟩
  | restart => exact .inl ⟨h.1, rfl⟩
  | _ => exact .inl h

/-- In every run there is at most one data key. -/
theorem unkeyed_or_keyed (hP : P.Unlocks) (is : List (Env P × Call T J)) :
    (World.initial.after is).Unkeyed ∨ ∃ d, (World.initial.after is).Keyed P d := by
  refine Run.invariant_final (I := fun w : World T B => w.Unkeyed ∨ ∃ d, w.Keyed P d)
    (.inl ⟨rfl, rfl⟩) ?_ is
  rintro w ⟨e, c⟩ (h | ⟨d, h⟩)
  · exact (h.step (step_of_call e w c)).imp_right fun hk => ⟨_, hk⟩
  · exact .inr ⟨d, h.step hP (step_of_call e w c)⟩

/-- The key of an unlocked vault is the data key. -/
theorem keyed_of_unlocked (hP : P.Unlocks) {is : List (Env P × Call T J)} {d : B}
    (hd : (World.initial.after is).dek = some d) : (World.initial.after is).Keyed P d :=
  World.keyed_of_loaded (unkeyed_or_keyed hP is) hd

theorem World.Keyed.after (hP : P.Unlocks) {d : B} {w : World T B} (h : w.Keyed P d)
    (is : List (Env P × Call T J)) : (w.after is).Keyed P d :=
  Run.invariant_final h (fun _ i hw => hw.step hP (step_of_call i.1 _ i.2)) is

end MiniVault
