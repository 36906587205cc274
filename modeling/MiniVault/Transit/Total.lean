/-
  `decrypt` over every string. A string that is no envelope is an invalid ciphertext; an envelope
  is decrypted or answered with the error of the key it names. There is one gap: the version is
  read by `int`, which has no bound, and goes into a query, whose driver binds 64 signed bits.
-/
import MiniVault.Service.Exceptions
import MiniVault.Transit.Authentic

namespace MiniVault

open Kit Imp

/-! ## What is promised -/

/-- The codes of the errors for a string that is an envelope. -/
def decryptCodes : List ErrorCode :=
  [.vaultLocked, .permissionDenied, .keyNotFound, .invalidKeyUsage, .keyVersionNotFound,
    .decryptionFailed]

/-- The string is an envelope. -/
def IsEnvelope (envelope : Text) : Prop := ∃ n name blob, EnvelopeForm envelope n name blob

/-- An `AppError` whose code tells whether the string is an envelope. -/
def Expected (envelope : Text) (x : Exc) : Prop :=
  ∃ err, x = .app err ∧ (¬ IsEnvelope envelope → err.code = .invalidCiphertext) ∧
    (IsEnvelope envelope → err.code ∈ decryptCodes)

/-- The envelope names a key that `decrypt` finds, at a version that does not fit in 64 signed
    bits. -/
def World.Overflows (w : World Text Bytes) (email envelope : Text) : Prop :=
  ∃ n name blob key, EnvelopeForm envelope n name blob ∧ 2 ^ 63 ≤ n ∧
    FindReady w.session email name (some .encryptDecrypt) key

section Expected

variable {envelope : Text} {code : ErrorCode} {message : String} {n : Nat}

theorem expected_invalid (h : ¬ IsEnvelope envelope) :
    Expected envelope (appError .invalidCiphertext message n) :=
  ⟨_, rfl, fun _ => rfl, fun h' => absurd h' h⟩

theorem expected_of_mem (h : IsEnvelope envelope) (hc : code ∈ decryptCodes) :
    Expected envelope (appError code message n) :=
  ⟨_, rfl, fun h' => absurd h h', fun _ => hc⟩

theorem expected_find (h : IsEnvelope envelope) : ∀ x ∈ findErrors, Expected envelope x := by
  intro x hx
  simp only [findErrors, List.mem_cons, List.not_mem_nil, or_false] at hx
  rcases hx with rfl | rfl | rfl | rfl <;> exact expected_of_mem h (by decide)

theorem not_expected_overflow : ¬ Expected envelope .overflowError := by
  rintro ⟨_, ⟨⟩, -⟩

theorem Expected.not_escapes {x : Exc} (h : Expected envelope x) : ¬ x.Escapes := by
  obtain ⟨err, rfl, -⟩ := h
  exact escapes_app err

end Expected

/-! ## What is raised -/

section Raised

variable {F : Type} {L : Lib F} {is : List (Env (concrete L) × Call Text (Json.Value F))}
  {email envelope name : Text} {n : Nat} {blob : Bytes} {e : Env (concrete L)} {E : Exc → Prop}

/-- A string that is no envelope is refused as an invalid ciphertext. -/
theorem not_raises_malformed {s : Proc Text Bytes} (hE : ∀ x, Expected envelope x → ¬ E x)
    (h : ¬ IsEnvelope envelope) :
    ¬ Imp.Raises E (TransitService.decrypt email envelope) e s := by
  rw [raises_decrypt]
  rintro (⟨x, hx, hx'⟩ | ⟨n, name, blobB64, hread, ⟨-, hx⟩ | ⟨blob, hblob, ⟨-, hx⟩ | ⟨hlen, -⟩⟩⟩)
  · rw [readEnvelope_error hx] at hx'
    exact hE _ (expected_invalid h) hx'
  · exact hE _ (expected_invalid h) hx
  · exact hE _ (expected_invalid h) hx
  · exact h ⟨n, name, blob, envelopeForm_iff.2 ⟨blobB64, hread, hblob, hlen⟩⟩

/-- What the `try` block of `decrypt` raises for a key that was found. -/
theorem openBlob_unexpected (hP : (concrete L).Lawful) (hE : ∀ x, Expected envelope x → ¬ E x)
    (hover : E .overflowError) (henv : IsEnvelope envelope) (hlen : 28 ≤ blob.length)
    {key : TransitKey Text} {d : Bytes} (hd : (World.initial.after is).dek = some d)
    (hready : FindReady (World.initial.after is).session email name (some .encryptDecrypt) key) :
    (∃ x, hideOpenTag ((World.initial.after is).db.openBlob (concrete L) d key email name n
      blob) = .error x ∧ E x) ↔ 2 ^ 63 ≤ n := by
  unfold Database.openBlob
  rcases material_cases hP hd (findKey_eq_some hready.found).1 (hready.usageOk _ rfl) n with
    ⟨hn, hm⟩ | ⟨hn, hm⟩ | ⟨i, -, hn, hm⟩
  · rw [hm]
    exact ⟨fun _ => hn, fun _ => ⟨_, rfl, hover⟩⟩
  · rw [hm]
    refine ⟨?_, fun h => absurd h (Nat.not_le.2 hn)⟩
    rintro ⟨_, ⟨⟩, h⟩
    exact absurd h (hE _ (expected_of_mem henv (by decide)))
  · rw [hm]
    refine ⟨?_, fun h => absurd h (Nat.not_le.2 hn)⟩
    have hk : aesKeyOk (concrete L) i.1.key = true := by simp [aesKeyOk, i.1.key_len]
    have hnonce : (blob.take 12).length = 12 := List.length_take_of_le (by omega)
    rintro ⟨x, hx, h⟩
    rcases hr : MiniVault.decrypt (concrete L) i.1.key (blob.take 12) (blob.drop 12)
      ((concrete L).encode (transitAad (concrete L) email name n)) with y | raw
    · have hx' : hideOpenTag (.error y : Except Exc Bytes) = .error x := hr ▸ hx
      rcases (decrypt_error_iff hk).1 hr with ⟨hbad, -⟩ | ⟨-, -, rfl⟩
      · have hbad' : (blob.take 12).length < 8 ∨ 128 < (blob.take 12).length := hbad
        omega
      · cases hx'
        exact absurd h (hE _ (expected_of_mem henv (by decide)))
    · have hx' : hideOpenTag (.ok raw : Except Exc Bytes) = .error x := hr ▸ hx
      cases hx'

/-- In a reachable state, nothing but the driver's overflow is unexpected. -/
theorem raises_unexpected (hP : (concrete L).Lawful) (hE : ∀ x, Expected envelope x → ¬ E x)
    (hover : E .overflowError) :
    Imp.Raises E (TransitService.decrypt email envelope) e (World.initial.after is).session ↔
      (World.initial.after is).Overflows email envelope := by
  by_cases henv : IsEnvelope envelope
  swap
  · refine ⟨fun h => absurd h (not_raises_malformed hE henv), ?_⟩
    rintro ⟨n, name, blob, key, hform, -⟩
    exact absurd ⟨n, name, blob, hform⟩ henv
  obtain ⟨n, name, blob, hform⟩ := henv
  have henv : IsEnvelope envelope := ⟨n, name, blob, hform⟩
  obtain ⟨blobB64, hread, hblob, hlen⟩ := envelopeForm_iff.1 hform
  rw [raises_decrypt]
  constructor
  · rintro (⟨x, hx, -⟩ | ⟨n', name', b', hread', h⟩)
    · cases hread.symm.trans hx
    cases hread.symm.trans hread'
    rcases h with ⟨hnone, -⟩ | ⟨blob', hblob', h⟩
    · cases hblob.symm.trans hnone
    cases hblob.symm.trans hblob'
    rcases h with ⟨hshort, -⟩ | ⟨-, hfind | ⟨key, d, hready, hd, hraise⟩⟩
    · exact absurd hshort (Nat.not_lt.2 hlen)
    · exact absurd hfind (not_raises_find fun x hx => hE x (expected_find henv x hx))
    · exact ⟨n, name, blob, key, hform, (openBlob_unexpected hP hE hover henv hlen hd hready).1
        hraise, hready⟩
  · rintro ⟨n', name', blob', key, hform', hn, hready⟩
    obtain ⟨rfl, rfl, rfl⟩ := hform.unique hform'
    obtain ⟨d, hd⟩ := hready.unlocked
    exact .inr ⟨n', name', blobB64, hread, .inr ⟨blob', hblob, .inr ⟨hlen, .inr ⟨key, d, hready, hd,
      (openBlob_unexpected hP hE hover henv hlen hd hready).2 hn⟩⟩⟩⟩

end Raised

/-! ## The result -/

/-- In every reachable state and for every string: `decrypt` returns a plaintext or raises an
    `AppError` whose code tells whether the string is an envelope, exactly if the string does not
    name a key of the user's own at a version beyond 64 signed bits. -/
theorem decrypt_total_iff {F : Type} (L : Lib F) (hcorrect : L.aesgcm.Correct)
    (hkey : L.aesgcm.KeyBound) (is : List (Env (concrete L) × Call Text (Json.Value F)))
    (email envelope : Text) (e : Env (concrete L)) :
    ((∃ p, ((World.initial.after is).call (e, .decrypt email envelope)).1 =
        .ok (.plaintext p)) ∨
      ∃ x, ((World.initial.after is).call (e, .decrypt email envelope)).1 = .error x ∧
        Expected envelope x) ↔
      ¬ (World.initial.after is).Overflows email envelope := by
  rw [← raises_unexpected (e := e) (E := fun x => ¬ Expected envelope x)
      (concrete_lawful hcorrect hkey) (fun x h => not_not.2 h) not_expected_overflow,
    not_raises_call (c := Call.decrypt email envelope) (f := Data.plaintext) rfl]
  simp only [not_not]

namespace Sample

/-- Version 2^63 of the key. -/
def overflowing : Text :=
  "vault:v9223372036854775808:key_1:".toList ++ Base64.encode (List.replicate 28 0)

/-- Version 2 of the key, which has one version. -/
def unversionedEnvelope : Text := envelope (concrete lib) 2 keyName (List.replicate 28 0)

end Sample

open Sample in
/-- Of an own key, `decrypt` is asked for version 2^63. -/
theorem decrypt_overflows :
    ((World.initial.after oneKeyCalls).call (env 4, .decrypt alice overflowing)).1 =
        .error .overflowError ∧
      ¬ ((∃ p, ((World.initial.after oneKeyCalls).call (env 4, .decrypt alice overflowing)).1 =
          .ok (.plaintext p)) ∨
        ∃ x, ((World.initial.after oneKeyCalls).call (env 4, .decrypt alice overflowing)).1 =
          .error x ∧ Expected overflowing x) := by
  have hcall : ((World.initial.after oneKeyCalls).call (env 4, .decrypt alice overflowing)).1 =
      .error .overflowError := raised_eq_some (by decide +kernel)
  refine ⟨hcall, ?_⟩
  rw [hcall]
  rintro (⟨_, ⟨⟩⟩ | ⟨_, ⟨⟩, h⟩)
  exact not_expected_overflow h

open Sample in
theorem decrypt_total_iff_sample :
    (∃ p, ((World.initial.after oneKeyCalls).call
        (env 4, .decrypt alice unversionedEnvelope)).1 = .ok (.plaintext p)) ∨
      ∃ x, ((World.initial.after oneKeyCalls).call
        (env 4, .decrypt alice unversionedEnvelope)).1 = .error x ∧
          Expected unversionedEnvelope x := by
  refine (decrypt_total_iff lib aesgcm_correct aesgcm_keyBound oneKeyCalls alice
    unversionedEnvelope (env 4)).2 ?_
  rintro ⟨n, name, blob, key, hform, hn, -⟩
  obtain ⟨blobB64, hread, -⟩ := envelopeForm_iff.1 hform
  have hread' : readEnvelope unversionedEnvelope =
      .ok (2, keyName, Base64.encode (List.replicate 28 0)) :=
    readEnvelope_envelope lib (by decide) (by decide) (by decide +kernel) _
  cases hread.symm.trans hread'
  exact absurd hn (by decide)

end MiniVault
