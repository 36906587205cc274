/-
  What a changed envelope does. The bytes under an envelope cannot be changed, but the letters can:
  `int` reads a version that is written with a leading zero, a sign, blanks or underscores, and the
  Base64 decoder drops the last bits of a padded group. A string that is read as the version, the
  name and the bytes of an envelope of the run is decrypted like that envelope; every other string
  is refused, two failures of the driver aside: a version that it does not bind, and a name that it
  cannot encode.
-/
import MiniVault.Transit.Revocation
import MiniVault.Transit.RoundTrip
import MiniVault.Transit.Surrogates
import MiniVault.Transit.Total

namespace MiniVault

open Kit

/-! ## Envelopes of a run -/

section Issued

variable {T B J : Type} {P : Prims T B J} [DecidableEq T]

/-- An `encrypt` call of the run, for the key `name` of `email`, returned the envelope. -/
def Issued (is : List (Env P × Call T J)) (email name envelope : T) : Prop :=
  ∃ e plaintextB64, ((e, .encrypt email name plaintextB64), .ok (.ciphertext envelope)) ∈
    (World.initial : World T B).trace is

/-- A key that is live at the end of a run was not revoked in it. -/
theorem unrevoked_of_live {w : World T B} (hring : w.db.KeyRing P) {js : List (Env P × Call T J)}
    {email name : T} {key : TransitKey T} (hfound : (w.after js).db.findKey email name = some key)
    (hlive : key.revokedAt = none) : Unrevoked email name (w.trace js) := by
  rintro ⟨e, c⟩ (x | d) hmem rfl
  · exact ⟨x, rfl⟩
  obtain ⟨js₁, js₂, rfl, hr⟩ := Run.exists_of_mem_trace hmem
  have hrevoke : (w.after js₁).call (e, .revoke email name) =
      (.ok d, ((w.after js₁).call (e, .revoke email name)).2) := Prod.ext hr rfl
  obtain ⟨key', hretired⟩ := retired_of_revoke hrevoke
  have hring' := (hring.after js₁).step (step_of_call e (w.after js₁) (.revoke email name))
  have hlater := hretired.after hring' js₂
  rw [World.after, Run.final_append, Run.final_cons] at hfound
  have hrevoked := hlater.revoked
  rw [Option.some.inj (hlater.found.symm.trans hfound), hlive] at hrevoked
  cases hrevoked

theorem EncryptedIn.issued {is : List (Env P × Call T J)} {email name : T} {n : Nat} {raw blob : B}
    (h : EncryptedIn is email name n raw blob) :
    Issued (B := B) is email name (envelope P n name blob) := by
  obtain ⟨before, e, x, after, rfl, -, -, hcall⟩ := h
  refine ⟨e, x, ?_⟩
  rw [← hcall]
  exact Run.mem_trace_append _ before after _

end Issued

section Spelling

variable {F : Type} {L : Lib F} {is : List (Env (concrete L) × Call Text (Json.Value F))}
  {email envelope : Text}

theorem EncryptedIn.envelopeForm {name : Text} {n : Nat} {raw blob : Bytes}
    (h : EncryptedIn is email name n raw blob) (hlen : 28 ≤ blob.length) :
    EnvelopeForm (MiniVault.envelope (concrete L) n name blob) n name blob := by
  obtain ⟨before, e, x, after, rfl, -, ⟨key, hkey, hn⟩, hcall⟩ := h
  have hring := Database.KeyRing.after (P := concrete L) keyRing_initial before
  obtain ⟨hr, -, -⟩ := encrypt_call_eq_ok (w := World.initial.after before) (Prod.ext hcall rfl)
  obtain ⟨v, hv, -⟩ := hr.holds hring
  have hid : hr.key = key := Option.some.inj (hr.ready.found.symm.trans hkey)
  have hversion : (World.initial.after before).session.db.currentKeyNumber hr.key.id = n := by
    rw [hid]
    exact hn
  rw [hversion] at hv
  exact hv.envelopeForm hring hlen

/-- The string is read as the version, the name and the bytes of an envelope that the run returned
    to `email`, and the key can still be used. -/
def Respells (is : List (Env (concrete L) × Call Text (Json.Value F))) (email envelope : Text) :
    Prop :=
  ∃ issued n name blob key, Issued (B := Bytes) is email name issued ∧
    EnvelopeForm issued n name blob ∧ EnvelopeForm envelope n name blob ∧
    FindReady (World.initial.after is).session email name (some .encryptDecrypt) key

/-! ## What is decrypted -/

/-- Another spelling is decrypted like the envelope itself. -/
theorem decrypt_of_respells (hP : (concrete L).Lawful) (h : Respells is email envelope)
    (e' : Env (concrete L)) :
    ∃ p, ((World.initial.after is).call (e', .decrypt email envelope)).1 = .ok (.plaintext p) := by
  obtain ⟨issued, n, name, blob, key, ⟨e, x, hmem⟩, hissued, hform, hready⟩ := h
  obtain ⟨before, js, rfl, hcall⟩ := Run.exists_of_mem_trace hmem
  have hring := Database.KeyRing.after (P := concrete L) keyRing_initial before
  obtain ⟨hr, rfl, hw⟩ := encrypt_call_eq_ok (w := World.initial.after before) (Prod.ext hcall rfl)
  have hafter : World.initial.after (before ++ (e, .encrypt email name x) :: js) =
      ((World.initial.after before).sealing (hr.sealing e)).after js := by
    rw [← hw]
    exact Run.final_append _ _ _
  obtain ⟨v, hv, -⟩ := hr.holds hring
  obtain ⟨rfl, -, rfl⟩ := hv.eq_of_envelopeForm hring hissued
  rw [hafter] at hready ⊢
  exact ⟨_, decrypt_after_encrypt hP.unlocks hr e e' js hform
    (unrevoked_of_live (w := (World.initial.after before).sealing _) hring hready.found
      hready.live) (Option.ne_none_iff_exists'.2 hready.unlocked)⟩

/-- What is decrypted is another spelling. -/
theorem respells_of_decrypt (hP : (concrete L).Lawful)
    (hgenuine : ∀ n name blob, EnvelopeForm envelope n name blob → ∀ i ∈ is, ∀ aad,
      L.aesgcm.Genuine (World.initial.after is).sealings i.1.key (blob.take 12) (blob.drop 12) aad)
    {e : Env (concrete L)} {p : Text}
    (h : ((World.initial.after is).call (e, .decrypt email envelope)).1 = .ok (.plaintext p)) :
    Respells is email envelope := by
  obtain ⟨hr, -⟩ := decrypt_call_eq_ok.1 h
  have hform : EnvelopeForm envelope hr.version hr.name hr.blob :=
    envelopeForm_iff.2 ⟨hr.blobB64, hr.parsed, hr.decoded, hr.size⟩
  have henc := hr.encryptedIn hP (hgenuine _ _ _ hform)
  exact ⟨_, hr.version, hr.name, hr.blob, hr.key, henc.issued, henc.envelopeForm hr.size, hform,
    hr.ready⟩

/-- A text is refused with an `AppError` unless it is another spelling, or overflows. -/
theorem decrypt_refused_iff (hP : (concrete L).Lawful) (e : Env (concrete L))
    (hgenuine : ∀ n name blob, EnvelopeForm envelope n name blob → ∀ i ∈ is, ∀ aad,
      L.aesgcm.Genuine (World.initial.after is).sealings i.1.key (blob.take 12) (blob.drop 12)
        aad) :
    (∃ err, ((World.initial.after is).call (e, .decrypt email envelope)).1 = .error (.app err)) ↔
      ¬ ((World.initial.after is).Overflows email envelope ∨ Respells is email envelope) := by
  have hover : ((∃ p, ((World.initial.after is).call (e, .decrypt email envelope)).1 =
      .ok (.plaintext p)) ∨ ∃ x, ((World.initial.after is).call (e, .decrypt email envelope)).1 =
        .error x ∧ ¬ x.Escapes) ↔ ¬ (World.initial.after is).Overflows email envelope := by
    rw [← raises_unexpected (e := e) (E := Exc.Escapes) hP (fun x hx => hx.not_escapes) rfl]
    exact (not_raises_call (c := Call.decrypt email envelope) (f := Data.plaintext) rfl).symm
  rw [not_or, ← hover]
  constructor
  · rintro ⟨err, herr⟩
    refine ⟨.inr ⟨.app err, herr, escapes_app err⟩, fun hrespells => ?_⟩
    obtain ⟨p, hp⟩ := decrypt_of_respells hP hrespells e
    cases herr.symm.trans hp
  · rintro ⟨⟨p, hp⟩ | ⟨x, hx, happ⟩, hnot⟩
    · exact absurd (respells_of_decrypt hP hgenuine hp) hnot
    · obtain ⟨err, rfl⟩ := not_escapes.1 happ
      exact ⟨err, hx⟩

/-- The call is the service method, its result wrapped. -/
theorem call_decrypt_refused {w : World Text Bytes} {e : Env (concrete L)} :
    (∃ err, (w.call (e, .decrypt email envelope)).1 = .error (.app err)) ↔
      ∃ err, (w.run e (TransitService.decrypt email envelope)).1 = .error (.app err) := by
  unfold World.call World.run
  dsimp only [Call.run]
  rw [Imp.bind_apply]
  rcases TransitService.decrypt email envelope e w.session with ⟨x | p, s⟩
  · exact ⟨fun ⟨err, h⟩ => ⟨err, congrArg _ (Except.error.inj h)⟩,
      fun ⟨err, h⟩ => ⟨err, congrArg _ (Except.error.inj h)⟩⟩
  · exact iff_of_false (by rintro ⟨_, ⟨⟩⟩) (by rintro ⟨_, ⟨⟩⟩)

end Spelling

/-! ## The result -/

/-- Whatever string is submitted, lone surrogates included: unless it forges a ciphertext under a
    key of the run, `decrypt` raises an `AppError` exactly if the string is no other spelling of an
    envelope of the run (or that envelope itself), does not name a version beyond 64 signed bits,
    and is not, while the vault is unlocked, an envelope but for a lone surrogate in its name. -/
theorem changed_envelope_refused_iff {F : Type} (L : Lib F) (hcorrect : L.aesgcm.Correct)
    (hkey : L.aesgcm.KeyBound) (is : List (Env (concrete L) × Call Text (Json.Value F)))
    (email : Text) (envelope : PyStr) (e : Env (concrete L))
    (hgenuine : ∀ t, envelope = Json.chars t → ∀ n name blob, EnvelopeForm t n name blob →
      ∀ i ∈ is, ∀ aad, L.aesgcm.Genuine (World.initial.after is).sealings i.1.key (blob.take 12)
        (blob.drop 12) aad) :
    (∃ err, ((World.initial.after is).run e (TransitService.decryptStr email envelope)).1 =
        .error (.app err)) ↔
      ¬ ((∃ t, envelope = Json.chars t ∧
          ((World.initial.after is).Overflows email t ∨ Respells is email t)) ∨
        (World.initial.after is).dek.isSome ∧ envelope.SurrogateName) := by
  by_cases htext : ∃ t, envelope = Json.chars t
  · obtain ⟨t, rfl⟩ := htext
    rw [decryptStr_chars, ← call_decrypt_refused,
      decrypt_refused_iff (concrete_lawful hcorrect hkey) e (hgenuine t rfl)]
    refine not_congr ⟨fun h => .inl ⟨t, rfl, h⟩, ?_⟩
    rintro (⟨u, hu, h⟩ | ⟨-, h⟩)
    · rwa [PyStr.chars_injective hu]
    · exact absurd h (PyStr.not_surrogateName_chars t)
  · refine (decryptStr_refused_iff fun t ht => htext ⟨t, ht⟩).trans (not_congr ⟨.inr, ?_⟩)
    rintro (⟨t, ht, -⟩ | h)
    · exact absurd ⟨t, ht⟩ htext
    · exact h

namespace Sample

/-- The first envelope of that run, with a zero before its version. -/
def respelled : Text := "vault:v01:key_1:".toList ++ Base64.encode firstBlob

/-- The same envelope, under the second version of the key. -/
def relabelled : Text := envelope (concrete lib) 2 keyName firstBlob

/-- The first envelope of that run, with a lone surrogate after the name. -/
def surrogateNamed (k : Fin 2048) : PyStr :=
  Json.chars "vault:v1:key_1".toList ++
    .surrogate k :: .char ':' :: Json.chars (Base64.encode firstBlob)

theorem firstEnvelope_issued :
    Issued (B := Bytes) envelopeCalls alice keyName firstEnvelope := by
  refine ⟨env 4, "aGVsbG8=".toList, ?_⟩
  have hcall := envelopeOf_eq_some (c := firstEnvelope)
    (r := ((World.initial.after oneKeyCalls).call
      (env 4, (.encrypt alice keyName "aGVsbG8=".toList))).1) (by decide +kernel)
  rw [← hcall]
  exact Run.mem_trace_append _ oneKeyCalls [_, _] _

/-- The envelopes that a run returned. -/
def issuedIn (is : List SampleCall) : List Text :=
  ((World.initial : World Text Bytes).trace is).filterMap fun o => envelopeOf o.2

theorem mem_issuedIn {is : List SampleCall} {email name c : Text}
    (h : Issued (B := Bytes) is email name c) : c ∈ issuedIn is := by
  obtain ⟨e, x, hmem⟩ := h
  exact List.mem_filterMap.2 ⟨_, hmem, rfl⟩

theorem relabelled_form : EnvelopeForm relabelled 2 keyName firstBlob :=
  envelopeForm_iff.2 ⟨_, readEnvelope_envelope lib (by decide) (by decide) (by decide +kernel) _,
    Base64.decode_encode _, by decide +kernel⟩

/-- No envelope of the run has that version and those bytes. -/
theorem relabelled_not_respells : ¬ Respells envelopeCalls alice relabelled := by
  have hother : ∀ c ∈ issuedIn envelopeCalls,
      (readEnvelope c).toOption.bind (fun p => (Base64.decode p.2.2).map fun b => (p.1, b)) ≠
        some (2, firstBlob) := by decide +kernel
  rintro ⟨issued, n, name, blob, key, hissued, h, h', -⟩
  obtain ⟨rfl, rfl, rfl⟩ := relabelled_form.unique h'
  obtain ⟨blobB64, hread, hblob, -⟩ := envelopeForm_iff.1 h
  refine hother issued (mem_issuedIn hissued) ?_
  simp [hread, hblob, Except.toOption]

theorem relabelled_not_overflows :
    ¬ (World.initial.after envelopeCalls).Overflows alice relabelled := by
  rintro ⟨n, name, blob, key, h, hn, -⟩
  obtain ⟨rfl, -, -⟩ := relabelled_form.unique h
  exact absurd hn (by decide)

theorem surrogateName_surrogateNamed : (surrogateNamed 0).SurrogateName :=
  ⟨['1'], 1, Json.chars keyName ++ [.surrogate 0], Base64.encode firstBlob, firstBlob,
    by decide +kernel, by decide +kernel, by decide, by decide, ⟨0, by decide⟩,
    Base64.decode_encode _, by decide +kernel⟩

end Sample

open Sample in
/-- The first envelope, written with the version `01`, is another string that no call returned,
    and it is decrypted. -/
theorem respelled_decrypted :
    Issued (B := Bytes) envelopeCalls alice keyName firstEnvelope ∧ respelled ≠ firstEnvelope ∧
      (∀ email name, ¬ Issued (B := Bytes) envelopeCalls email name respelled) ∧
      ((World.initial.after envelopeCalls).call (env 7, .decrypt alice respelled)).1 =
        .ok (.plaintext "aGVsbG8=".toList) ∧
      ¬ ∃ err, ((World.initial.after envelopeCalls).call (env 7, .decrypt alice respelled)).1 =
        .error (.app err) := by
  obtain ⟨hnot, hplain⟩ : respelled ∉ issuedIn envelopeCalls ∧
      plaintextOf ((World.initial.after envelopeCalls).call (env 7, .decrypt alice respelled)).1 =
        some "aGVsbG8=".toList := by
    decide +kernel
  have hcall := plaintextOf_eq_some.1 hplain
  refine ⟨firstEnvelope_issued, ?_, fun email name h => hnot (mem_issuedIn h), hcall, ?_⟩
  · intro heq
    rw [heq] at hnot
    exact hnot (mem_issuedIn firstEnvelope_issued)
  · rw [hcall]
    rintro ⟨_, ⟨⟩⟩

open Sample in
/-- Under another version, the bytes of the first envelope are refused; under a name with a lone
    surrogate, they are not. -/
theorem changed_envelope_refused_iff_sample :
    (∃ err, ((World.initial.after envelopeCalls).run (env 7)
      (TransitService.decryptStr (L := lib) alice (Json.chars relabelled))).1 =
        .error (.app err)) ∧
      ¬ ∃ err, ((World.initial.after envelopeCalls).run (env 7)
        (TransitService.decryptStr (L := lib) alice (surrogateNamed 0))).1 = .error (.app err) := by
  constructor
  · refine (changed_envelope_refused_iff lib aesgcm_correct aesgcm_keyBound envelopeCalls alice
      (Json.chars relabelled) (env 7) ?_).2 ?_
    · intro t ht n name blob h i _ aad
      rw [← PyStr.chars_injective ht] at h
      obtain ⟨-, -, rfl⟩ := relabelled_form.unique h
      rw [show firstBlob.drop 12 = _ from List.drop_left' (env 4).nonce_len]
      exact genuine_of_mem (by decide +kernel) _ _ _
    · rintro (⟨t, ht, h⟩ | ⟨-, h⟩)
      · rw [← PyStr.chars_injective ht] at h
        exact h.elim relabelled_not_overflows relabelled_not_respells
      · exact PyStr.not_surrogateName_chars _ h
  · have hname := surrogateName_surrogateNamed
    rw [changed_envelope_refused_iff lib aesgcm_correct aesgcm_keyBound envelopeCalls alice
      (surrogateNamed 0) (env 7) fun t ht => ?_]
    · exact not_not_intro (.inr ⟨by decide +kernel, hname⟩)
    · rw [ht] at hname
      exact absurd hname (PyStr.not_surrogateName_chars t)

end MiniVault
