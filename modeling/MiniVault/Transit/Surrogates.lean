/-
  Strings with lone surrogates. On a text, `decrypt` over code points is `decrypt`. Of the other
  strings, those with a lone surrogate in the version or in the Base64 part are refused like any
  malformed envelope; one in the name gets as far as the query, whose driver cannot encode it.
-/
import MiniVault.Transit.Envelope

namespace MiniVault

open Kit Imp

namespace PyStr

/-! ## Reading -/

theorem text?_eq_none {s : PyStr} : text? s = none ↔ ∃ k, .surrogate k ∈ s := by
  induction s with
  | nil => exact ⟨by rintro ⟨⟩, by rintro ⟨_, ⟨⟩⟩⟩
  | cons c s ih =>
    cases c with
    | char c =>
      show (text? s).map (c :: ·) = none ↔ _
      rw [Option.map_eq_none_iff, ih]
      simp
    | surrogate k => exact iff_of_true rfl ⟨k, List.mem_cons_self⟩

theorem b64d_eq_ok {s : PyStr} {code : ErrorCode} {b : Bytes} :
    b64d s code = .ok b ↔ ∃ t, s = Json.chars t ∧ Base64.decode t = some b := by
  have hdecode : (text? s).bind Base64.decode = some b ↔
      ∃ t, s = Json.chars t ∧ Base64.decode t = some b := by
    simp only [Option.bind_eq_some_iff, text?_eq_some]
  rw [← hdecode, b64d]
  rcases (text? s).bind Base64.decode with _ | b'
  · exact ⟨by rintro ⟨⟩, by rintro ⟨⟩⟩
  · exact ⟨fun h => congrArg some (Except.ok.inj h),
      fun h => congrArg Except.ok (Option.some.inj h)⟩

theorem b64d_error {s : PyStr} {code : ErrorCode} {x : Exc} (h : b64d s code = .error x) :
    x = appError code "Invalid Base64 data" 400 := by
  unfold b64d at h
  split at h
  · cases h
  · exact (Except.error.inj h).symm

theorem b64d_chars {F : Type} (L : Lib F) (t : Text) (code : ErrorCode) :
    b64d (Json.chars t) code = MiniVault.b64d (concrete L) t code := by
  have hdecode : (concrete L).b64decode t = Base64.decode t := rfl
  rw [b64d, MiniVault.b64d, text?_chars, Option.bind_some, hdecode]
  rcases Base64.decode t with _ | b
  · rfl
  · rfl

theorem readEnvelope_error {envelope : PyStr} {x : Exc} (h : readEnvelope envelope = .error x) :
    x = appError .invalidCiphertext "Invalid ciphertext" 400 := by
  unfold readEnvelope at h
  dsimp only at h
  split at h
  · split_ifs at h
    · exact (Except.error.inj h).symm
    · split at h
      · exact (Except.error.inj h).symm
      · split_ifs at h
        exact (Except.error.inj h).symm
  · exact (Except.error.inj h).symm

/-! ## Names with a lone surrogate -/

/-- An envelope in all but its name, which holds a lone surrogate. -/
def SurrogateName (envelope : PyStr) : Prop :=
  ∃ (version : Text) (n : Nat) (name : PyStr) (blobB64 : Text) (blob : Bytes),
    envelope = Json.chars ("vault:v".toList ++ version) ++
        .char ':' :: (name ++ .char ':' :: Json.chars blobB64) ∧
      Text.int version = some (n : Int) ∧ 1 ≤ n ∧ .char ':' ∉ name ∧ (∃ k, .surrogate k ∈ name) ∧
      Base64.decode blobB64 = some blob ∧ 28 ≤ blob.length

theorem surrogateName_iff {envelope : PyStr} :
    SurrogateName envelope ↔
      ∃ n name blobB64 blob, readEnvelope envelope = .ok (n, name, blobB64) ∧
        b64d blobB64 .invalidCiphertext = .ok blob ∧ 28 ≤ blob.length ∧ text? name = none := by
  constructor
  · rintro ⟨version, n, name, blobB64, blob, henv, hint, h1, hcolon, hname, hblob, hlen⟩
    have hne : name ≠ [] := by
      rintro rfl
      obtain ⟨_, ⟨⟩⟩ := hname
    exact ⟨n, name, Json.chars blobB64, blob,
      readEnvelope_eq_ok.2 ⟨version, henv, hint, h1, hne, hcolon⟩,
      b64d_eq_ok.2 ⟨blobB64, rfl, hblob⟩, hlen, text?_eq_none.2 hname⟩
  · rintro ⟨n, name, blobB64, blob, hread, hblob, hlen, hname⟩
    obtain ⟨version, henv, hint, h1, -, hcolon⟩ := readEnvelope_eq_ok.1 hread
    obtain ⟨t, rfl, hdecode⟩ := b64d_eq_ok.1 hblob
    exact ⟨version, n, name, t, blob, henv, hint, h1, hcolon, text?_eq_none.1 hname, hdecode,
      hlen⟩

/-- A string whose three parts are texts is a text. -/
theorem text_of_parts {envelope : PyStr} {n : Nat} {name blobB64 : PyStr} {blob : Bytes} {t : Text}
    (hread : readEnvelope envelope = .ok (n, name, blobB64))
    (hblob : b64d blobB64 .invalidCiphertext = .ok blob) (hname : text? name = some t) :
    ∃ u, envelope = Json.chars u := by
  obtain ⟨version, rfl, -⟩ := readEnvelope_eq_ok.1 hread
  obtain ⟨b, rfl, -⟩ := b64d_eq_ok.1 hblob
  obtain rfl := text?_eq_some.1 hname
  exact ⟨"vault:v".toList ++ version ++ ':' :: (t ++ ':' :: b), by simp [Json.chars]⟩

theorem not_surrogateName_chars (t : Text) : ¬ SurrogateName (Json.chars t) := by
  intro h
  obtain ⟨n, name, blobB64, blob, hread, -, -, hname⟩ := surrogateName_iff.1 h
  rw [readEnvelope_chars] at hread
  rcases hr : MiniVault.readEnvelope t with x | p
  · rw [hr] at hread
    cases hread
  · rw [hr] at hread
    cases hread
    rw [text?_chars] at hname
    cases hname

end PyStr

/-! ## decrypt -/

section Decrypt

variable {F : Type} {L : Lib F} {e : Env (concrete L)} {s : Proc Text Bytes} {email : Text}
  {envelope : PyStr}

theorem findStr_chars (email name : Text) (usage : Option KeyUsage) :
    (TransitService.findStr email (Json.chars name) usage : Py (concrete L) _) =
      TransitService.find email name usage >>= fun key => pure (key, name) := by
  funext e s
  unfold TransitService.findStr
  rw [PyStr.text?_chars]
  rcases hd : s.dek with _ | d
  · simp [TransitService.find, requireDek_of_none hd]
  · simp [requireDek_of_some hd]

theorem findStr_locked {name : PyStr} {usage : Option KeyUsage} (hd : s.dek = none) :
    TransitService.findStr email name usage e s =
      (.error (appError .vaultLocked "Vault is locked" 423), s) := by
  simp [TransitService.findStr, requireDek_of_none hd]

theorem findStr_surrogate {name : PyStr} {usage : Option KeyUsage} {d : Bytes}
    (hname : name.text? = none) (hd : s.dek = some d) :
    TransitService.findStr email name usage e s = (.error .unicodeEncodeError, s) := by
  simp [TransitService.findStr, requireDek_of_some hd, hname]

/-- On a text, `decrypt` over code points is `decrypt`. -/
theorem decryptStr_chars (email t : Text) :
    (TransitService.decryptStr email (Json.chars t) : Py (concrete L) Text) =
      TransitService.decrypt email t := by
  have hread : (concrete L).readEnvelope t = readEnvelope t := rfl
  funext e s
  unfold TransitService.decryptStr TransitService.decrypt
  rw [bind_apply, bind_apply, ofExcept_apply, ofExcept_apply, PyStr.readEnvelope_chars, hread]
  rcases readEnvelope t with x | ⟨n, name, blobB64⟩
  · rfl
  dsimp only [Except.map]
  rw [bind_apply, bind_apply, ofExcept_apply, ofExcept_apply, PyStr.b64d_chars L]
  rcases b64d (concrete L) blobB64 .invalidCiphertext with x | blob
  · rfl
  dsimp only
  have hlen : (concrete L).len blob = blob.length := rfl
  rw [hlen]
  by_cases h : blob.length < 28
  · rw [if_pos h, if_pos h]
    rfl
  · rw [if_neg h, if_neg h, findStr_chars, bind_pure_bind]
    rfl

/-- A string that is no text is refused with an `AppError`, but for a name that gets as far as the
    query. -/
theorem decryptStr_refused_iff (h : ∀ t, envelope ≠ Json.chars t) :
    (∃ err, (TransitService.decryptStr email envelope e s).1 = .error (.app err)) ↔
      ¬ (s.dek.isSome ∧ PyStr.SurrogateName envelope) := by
  rw [PyStr.surrogateName_iff]
  unfold TransitService.decryptStr
  rw [bind_apply, ofExcept_apply]
  rcases hread : PyStr.readEnvelope envelope with x | ⟨n, name, blobB64⟩
  · obtain rfl := PyStr.readEnvelope_error hread
    refine iff_of_true ⟨_, rfl⟩ ?_
    rintro ⟨-, _, _, _, _, ⟨⟩, -⟩
  dsimp only
  rw [bind_apply, ofExcept_apply]
  rcases hblob : PyStr.b64d blobB64 .invalidCiphertext with x | blob
  · obtain rfl := PyStr.b64d_error hblob
    refine iff_of_true ⟨_, rfl⟩ ?_
    rintro ⟨-, _, _, _, _, ⟨⟩, hblob', -⟩
    cases hblob.symm.trans hblob'
  dsimp only
  by_cases hlen : blob.length < 28
  · rw [if_pos hlen]
    refine iff_of_true ⟨_, rfl⟩ ?_
    rintro ⟨-, _, _, _, _, ⟨⟩, hblob', hlen', -⟩
    cases hblob.symm.trans hblob'
    omega
  rw [if_neg hlen]
  rcases hname : PyStr.text? name with _ | t
  swap
  · obtain ⟨u, hu⟩ := PyStr.text_of_parts hread hblob hname
    exact absurd hu (h u)
  rcases hd : s.dek with _ | d
  · rw [bind_apply, findStr_locked hd]
    refine iff_of_true ⟨_, rfl⟩ ?_
    rintro ⟨⟨⟩, -⟩
  · rw [bind_apply, findStr_surrogate hname hd]
    refine iff_of_false (by rintro ⟨_, ⟨⟩⟩) ?_
    exact fun hnot => hnot ⟨rfl, n, name, blobB64, blob, rfl, hblob, Nat.not_lt.1 hlen, hname⟩

end Decrypt

end MiniVault
