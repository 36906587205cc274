/-
  The vault, KV and Transit services refine the vault in the clear: the wrapped data key stands for
  the master passphrase, the loaded key for being unlocked, and the tables for the secrets and the
  keys. A call in the one is answered as in the other, and leaves the one standing for the other.
-/
import MiniVault.Http.Recovery
import MiniVault.Http.Sound
import MiniVault.Plain.KeyAnswers
import MiniVault.Plain.SecretAnswers
import MiniVault.Service.Held

namespace MiniVault

open Kit Imp

variable {T B J : Type} {P : Prims T B J}

/-! ## Laws -/

/-- What the refinement assumes: what its two halves do, and that derived keys are keys of the
    cipher. -/
structure PlainLaws (P : Prims T B J) (canon : J → J) : Prop where
  keys : KeyLaws P
  derived : ∀ p salt, aesKeyOk P (P.deriveKey p salt P.defaultParams) = true
  loads : ∀ data raw, P.dumps data = .ok raw → P.loads raw = .ok (canon data)

theorem concrete_plainLaws {F : Type} {L : Lib F} (hcorrect : L.aesgcm.Correct)
    (hkey : L.aesgcm.KeyBound) (hff : L.floats.Lawful)
    (hargon : ∀ secret salt, (L.argon2 secret salt (concrete L).defaultParams).length = 32)
    (hpublic : ∀ k : Bytes, k.length = 32 → (L.publicKey k).length = 32) :
    PlainLaws (concrete L) Json.Value.canon where
  keys := concrete_keyLaws hcorrect hkey hpublic
  derived p salt := by
    have h : (concrete L).len ((concrete L).deriveKey p salt (concrete L).defaultParams) = 32 :=
      hargon _ _
    rw [aesKeyOk, h]
    rfl
  loads _ _ := concrete_loads hff

/-- The passphrase that a call offers. -/
def Call.passphrase? : Call T J → Option T
  | .vaultInit p _ => some p
  | .vaultUnlock p => some p
  | _ => none

/-! ## The passphrase -/

/-- The wrapped data key stands for the passphrase. -/
def World.HoldsMaster (P : Prims T B J) (w : World T B) (master : Option T) : Prop :=
  ∃ is, VaultLife P is w ∧ master = (is.map (·.2)).head?

section Master

variable [DecidableEq T] {canon : J → J} {offered : T → Prop} {w w' : World T B}
  {v : PlainVault T B J} {e : Env P}

theorem hearVault_error (v : PlainVault T B J) (i : Env P × Call T J) (x : Exc) :
    v.hear canon (i, .error x) = v := by
  obtain ⟨e, c⟩ := i
  cases c <;> rfl

theorem hearVault_view (v : PlainVault T B J) (e : Env P) {c : Call T J} (hc : c.isView = true)
    (d : Data T J) : v.hear canon ((e, c), .ok d) = v := by
  cases c <;> first | rfl | cases hc

theorem World.HoldsMaster.init_answer (hlaws : PlainLaws P canon) (h : w.HoldsMaster P v.master)
    (p q : T) : (VaultService.init p q e w.session).1 = v.init P p q := by
  obtain ⟨is, hlife, hmaster⟩ := h
  unfold PlainVault.init
  rw [hmaster]
  cases hlife with
  | unmade hconfig =>
    have hnone : w.session.db.vaultConfig = [] := hconfig
    by_cases hpq : p = q
    · subst hpq
      rcases hv : P.validatePassphrase p with x | u
      · simp [VaultService.init, hnone, hv]
      · simp [VaultService.init, hnone, hv, encrypt_of_key (hlaws.derived p e.salt), lockState]
    · simp [VaultService.init, hnone, hpq]
      rfl
  | made e₀ p₀ hconfig =>
    have hsome : w.session.db.vaultConfig = [newConfig P e₀ p₀] := hconfig
    simp [VaultService.init, hsome]
    rfl

theorem World.HoldsMaster.unlock_answer (hlaws : PlainLaws P canon) (hapart : P.Apart offered)
    (h : w.HoldsMaster P v.master) (hmade : ∀ p, v.master = some p → offered p) {p : T}
    (hp : offered p) : (VaultService.unlock p e w.session).1 = v.unlock p := by
  obtain ⟨is, hlife, hmaster⟩ := h
  unfold PlainVault.unlock
  rw [hmaster]
  cases hlife with
  | unmade hconfig =>
    have hnone : w.session.db.vaultConfig = [] := hconfig
    simp [VaultService.unlock, hnone]
  | made e₀ p₀ hconfig hk =>
    have hsome : w.session.db.vaultConfig = [newConfig P e₀ p₀] := hconfig
    by_cases hsame : p = p₀
    · have hu := unwrapDek_self hlaws.keys.lawful hk
      rw [← hsame] at hu hsome
      rw [unlock_of_unwrap (e := e) (by rw [hsome]; rfl) hu]
      exact (if_pos hsame).symm
    · obtain ⟨x, hu, hx⟩ := unwrapDek_wrong hlaws.keys.lawful (e := e₀) fun heq =>
        hsame (hapart _ _ _ _ hp (hmade p₀ hmaster) heq)
      simp [VaultService.unlock, hsome, hu, hx, hsame]

omit [DecidableEq T] in
theorem World.HoldsMaster.frame {master : Option T} (h : w.HoldsMaster P master)
    (hconfig : w'.db.vaultConfig = w.db.vaultConfig)
    (hdek : ∀ d, w'.dek = some d → w.dek = some d) : w'.HoldsMaster P master := by
  obtain ⟨is, hlife, hmaster⟩ := h
  exact ⟨is, hlife.frame hconfig hdek, hmaster⟩

/-- Every call moves the wrapped key and the passphrase alike. -/
theorem World.HoldsMaster.step (hP : P.Lawful) (h : w.HoldsMaster P v.master) {c : Call T J}
    {r : Except Exc (Data T J)} (hs : Step e w c r w') :
    w'.HoldsMaster P (v.hear canon ((e, c), r)).master := by
  cases hs with
  | fail c x =>
    rw [hearVault_error]
    exact h
  | view d hc =>
    rw [hearVault_view v e hc]
    exact h
  | vaultInit p hempty hk => exact ⟨[(e, p)], .made e p rfl hk (by rintro _ ⟨⟩), rfl⟩
  | vaultUnlock p hc hu =>
    obtain ⟨is, hlife, hmaster⟩ := h
    refine ⟨is, ?_, hmaster⟩
    cases hlife with
    | unmade hempty =>
      rw [hempty] at hc
      cases hc
    | made e₀ p₀ hconfig hk =>
      refine .made e₀ p₀ hconfig hk ?_
      rintro d ⟨⟩
      rw [hconfig] at hc
      cases hc
      exact unwrapDek_newConfig hP.unlocks hu
  | vaultLock => exact h.frame rfl (by rintro _ ⟨⟩)
  | restart => exact h.frame rfl (by rintro _ ⟨⟩)
  | _ => exact h.frame rfl fun _ => id

theorem unlocked_step (h : v.unlocked = w.dek.isSome) {c : Call T J}
    {r : Except Exc (Data T J)} (hs : Step e w c r w') :
    (v.hear canon ((e, c), r)).unlocked = w'.dek.isSome := by
  cases hs with
  | fail c x =>
    rw [hearVault_error]
    exact h
  | view d hc =>
    rw [hearVault_view v e hc]
    exact h
  | vaultInit => rfl
  | vaultUnlock => rfl
  | vaultLock => rfl
  | restart => rfl
  | _ => exact h

omit [DecidableEq T] in
theorem World.HoldsMaster.keyed {master : Option T} (h : w.HoldsMaster P master) :
    w.Unkeyed ∨ ∃ d, w.Keyed P d := by
  obtain ⟨is, hlife, -⟩ := h
  cases hlife with
  | unmade hconfig hdek => exact .inl ⟨hconfig, hdek⟩
  | made e p hconfig hk hdek => exact .inr ⟨e.dek, ⟨e, p, hconfig, rfl⟩, hdek⟩

end Master

/-! ## The vault -/

/-- The world stands for the vault, whose passphrase was offered. -/
structure World.Represents [DecidableEq T] (P : Prims T B J) (offered : T → Prop) (w : World T B)
    (v : PlainVault T B J) : Prop where
  master : w.HoldsMaster P v.master
  offered : ∀ p, v.master = some p → offered p
  unlocked : v.unlocked = w.dek.isSome
  recorded : ∃ h : History P, KeysRecorded h w
  tables : w.db.KvTables P fun _ => True
  secrets : w.HoldsSecrets P v.secrets
  keys : w.HoldsKeys P v.keys

section Calls

variable [DecidableEq T] {canon : J → J} {offered : T → Prop} {w w' : World T B}
  {v : PlainVault T B J} {e : Env P}

theorem represents_initial : (World.initial : World T B).Represents P offered .empty where
  master := ⟨[], .unmade rfl rfl, rfl⟩
  offered _ h := by cases h
  unlocked := rfl
  recorded := ⟨[], keysRecorded_initial⟩
  tables := kvTables_initial
  secrets := holdsSecrets_initial
  keys := holdsKeys_initial

/-- What is answered to a call is what the vault in the clear answers. -/
theorem World.Represents.answer (hlaws : PlainLaws P canon) (hapart : P.Apart offered)
    (hw : w.Represents P offered v) (e : Env P) {c : Call T J}
    (hc : ∀ p, c.passphrase? = some p → offered p) : (w.call (e, c)).1 = v.answer e c := by
  have hP := hlaws.keys.lawful
  have hkeyed : ∀ d, w.dek = some d → w.Keyed P d := fun d hd =>
    World.keyed_of_loaded hw.master.keyed hd
  obtain ⟨h, hrec⟩ := hw.recorded
  have hkeys := hw.keys
  have hsecrets := hw.secrets
  unfold PlainVault.answer
  rw [hw.unlocked]
  cases c with
  | vaultInit p q =>
    rw [call_fst (f := fun _ => .vaultStatus true false) rfl, hw.master.init_answer hlaws]
  | vaultUnlock p =>
    rw [call_fst (f := fun _ => .vaultStatus true true) rfl, 
      hw.master.unlock_answer hlaws hapart hw.offered (hc p rfl)]
  | vaultLock => rfl
  | vaultStatus =>
    have hstatus : w.db.vaultConfig.head?.isSome = v.master.isSome := by
      obtain ⟨is, hlife, hmaster⟩ := hw.master
      rw [hmaster]
      cases hlife with
      | unmade hconfig => rw [hconfig]; rfl
      | made e p hconfig => rw [hconfig]; rfl
    rw [← hstatus]
    rfl
  | restart => rfl
  | kvWrite path email data =>
    rw [call_fst (f := .kvWritten) rfl, hsecrets.write_answer e path email hkeyed]
  | kvRead path email version =>
    rw [call_fst (f := .kvValue) rfl, hsecrets.read_answer e path email hP]
  | kvVersions path email =>
    rw [call_fst (f := .kvVersions) rfl, hsecrets.versions_answer]
    dsimp only
    rcases v.secrets.find P w.dek.isSome path email <;> rfl
  | kvDelete path email =>
    rw [call_fst (f := fun _ => .deleted) rfl, hsecrets.delete_answer]
    dsimp only
    rcases v.secrets.find P w.dek.isSome path email <;> rfl
  | kvList email => rw [call_fst (f := .kvListed) rfl, hsecrets.list_answer]
  | createAes email name =>
    rw [call_fst (f := .key) rfl, (hkeys.create_answer e email name hkeyed).1]
  | createSigning email name =>
    rw [call_fst (f := .key) rfl, (hkeys.create_answer e email name hkeyed).2]
  | keyList email => rw [call_fst (f := .keys) rfl, hkeys.list_answer]
  | keyGet email name =>
    rw [call_fst (f := .key) rfl, hkeys.get_answer]
    dsimp only
    rcases v.keys.find w.dek.isSome email name none <;> rfl
  | revoke email name =>
    rw [call_fst (f := fun _ => .revoked) rfl, hkeys.revoke_answer]
    dsimp only
    rcases v.keys.find w.dek.isSome email name none <;> rfl
  | rotate email name => rw [call_fst (f := .key) rfl, hkeys.rotate_answer e email name hkeyed]
  | encrypt email name plaintextB64 =>
    rw [call_fst (f := .ciphertext) rfl, hkeys.encrypt_answer e email name hP hrec.ring]
  | decrypt email ciphertext =>
    rw [call_fst (f := .plaintext) rfl, hkeys.decrypt_answer e email hP hlaws.keys.slice]
  | sign email name messageB64 messageType =>
    rw [call_fst (f := .signed) rfl, hkeys.sign_answer e email name hP]
  | verify email name messageB64 messageType signatureB64 signingAlgorithm =>
    rw [call_fst (f := .verified) rfl, hkeys.verify_answer e email name hP.b64decode_b64encode
      hlaws.keys.publicKey_len]

/-- Every call moves the world and the vault alike. -/
theorem World.Represents.step (hlaws : PlainLaws P canon) (hw : w.Represents P offered v)
    {c : Call T J} (hc : ∀ p, c.passphrase? = some p → offered p) {r : Except Exc (Data T J)}
    (hs : Step e w c r w') : w'.Represents P offered (v.hear canon ((e, c), r)) := by
  have hP := hlaws.keys.lawful
  obtain ⟨h, hrec⟩ := hw.recorded
  have hsecrets := hw.secrets.step hP hlaws.loads hw.master.keyed hw.tables hs
  have hkeys := hw.keys.step hP hw.master.keyed hrec hs
  have hparts : (v.hear canon ((e, c), r)).secrets = v.secrets.hear canon ((e, c), r) ∧
      (v.hear canon ((e, c), r)).keys = v.keys.hear ((e, c), r) := by
    cases c <;> cases r <;> exact ⟨rfl, rfl⟩
  have hoffered : ∀ p, (v.hear canon ((e, c), r)).master = some p → offered p := by
    intro p hp
    cases c <;> cases r <;> first | exact hw.offered p hp | exact hc p hp
  refine ⟨hw.master.step hP hs, hoffered, unlocked_step hw.unlocked hs, ⟨_, hrec.step hs⟩,
    hw.tables.step (fun _ _ => trivial) hs, ?_, ?_⟩
  · rw [hparts.1]
    exact hsecrets
  · rw [hparts.2]
    exact hkeys

/-- Only what is held counts. -/
theorem World.Represents.held (hw : w.Represents P offered v) (h : w'.held = w.held) :
    w'.Represents P offered v := by
  have hdek : w'.dek = w.dek := congrArg Prod.snd h
  have htables {α : Type} (f : Database T → α) (hf : ∀ db, f db = f db.held) :
      f w'.db = f w.db := by
    rw [hf w'.db, hf w.db]
    exact congrArg (fun x => f x.1) h
  have hmono : ∀ d, w.Keyed P d → w'.Keyed P d := fun d hd =>
    ⟨htables (·.vaultConfig) (fun _ => rfl) ▸ hd.wrapped, hdek ▸ hd.loaded⟩
  have hkeys := htables (·.transitKeys) fun _ => rfl
  have hversions := htables (·.transitKeyVersions) fun _ => rfl
  have hsecrets := htables (·.kvSecrets) fun _ => rfl
  have hrows := htables (·.kvSecretVersions) fun _ => rfl
  obtain ⟨hist, hrec⟩ := hw.recorded
  refine ⟨hw.master.frame (htables (·.vaultConfig) fun _ => rfl) fun d hd => hdek ▸ hd,
    hw.offered, ?_, ⟨hist, hrec.of_tables hkeys hversions⟩, ?_,
    hw.secrets.frame hmono hsecrets hrows, hw.keys.frame hmono hkeys hversions⟩
  · rw [hdek]
    exact hw.unlocked
  · obtain ⟨hids, hpaths, howned, hrows'⟩ := hw.tables
    refine ⟨?_, ?_, ?_, ?_⟩
    · rwa [hsecrets]
    · rwa [hsecrets]
    · rwa [hsecrets]
    · rwa [hsecrets, hrows]

end Calls

end MiniVault
