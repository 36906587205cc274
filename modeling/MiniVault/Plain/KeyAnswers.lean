/-
  The Transit service answers as the ring in the clear that its tables hold, locked or not.
-/
import MiniVault.Plain.KeyTables
import MiniVault.Service.Exceptions
import MiniVault.Tamper.Log

namespace MiniVault

open Kit Imp

variable {T B J : Type} {P : Prims T B J}

/-! ## Keys -/

section Keys

variable {w : World T B} {row : TransitKey T} {k : PlainKey T B} {d : B}

/-- Whatever was drawn is a key of 256 bits. -/
theorem World.HoldsKey.drawn_len (hrow : w.HoldsKey P row k) : ∀ m ∈ k.drawn, P.len m = 32 := by
  intro m hm
  rcases hu : k.usage with _ | _
  · obtain ⟨v, -, d, -, e, rfl, -⟩ := Table.exists_of_forall₂ (hrow.encryption hu).2 hm
    exact e.key_len
  · obtain ⟨-, d, -, e, hdrawn, -⟩ := hrow.signing hu
    rw [hdrawn, List.mem_singleton] at hm
    rw [hm]
    exact e.key_len

theorem World.HoldsKey.newest_len (hrow : w.HoldsKey P row k) : P.len k.newest = 32 :=
  hrow.drawn_len _ (List.getLast_mem _)

theorem PlainKey.version_newest (k : PlainKey T B) :
    k.version k.drawn.length = some k.newest := by
  obtain ⟨n, hn⟩ : ∃ n, k.drawn.length = n + 1 :=
    Nat.exists_eq_succ_of_ne_zero (List.length_pos_iff.2 k.drawn_ne).ne'
  rw [hn, version, newest, ← List.getLast?_eq_some_getLast, List.getLast?_eq_getElem?, hn]
  rfl

theorem World.HoldsKey.metadata (hrow : w.HoldsKey P row k) (aware : Bool) (n : Nat) :
    TransitService.metadata P aware row n = { k.metadata P aware with currentVersion := n } := by
  rw [TransitService.metadata, PlainKey.metadata, hrow.name, hrow.usage, hrow.algorithm,
    hrow.createdAt, hrow.revoked]

theorem World.HoldsKey.current_metadata (hrow : w.HoldsKey P row k) (aware : Bool) :
    TransitService.metadata P aware row (w.db.currentKeyNumber row.id) = k.metadata P aware := by
  rw [hrow.metadata, hrow.current]
  rfl

/-- A version has its row if it was drawn. -/
theorem World.HoldsKey.version_cases (hrow : w.HoldsKey P row k) (hu : k.usage = .encryptDecrypt)
    (n : Nat) :
    (n ≠ 1 ∧ w.db.keyVersion row.id n = none ∧ k.version n = none) ∨
      ∃ v m, w.db.keyVersion row.id n = some v ∧ k.version n = some m ∧ v.version = n ∧
        w.Wrapped P k.owner k.name v m := by
  obtain ⟨hnumbered, hwraps⟩ := hrow.encryption hu
  have hfind : w.db.keyVersion row.id n =
      (w.db.keyRows row.id).find? (fun v => v.version = n) := by
    rw [Database.keyVersion, Database.keyRows, List.find?_filter]
    simp only [Bool.decide_and, Bool.decide_eq_true]
  rw [hfind]
  rcases n with _ | i
  · refine .inl ⟨Nat.zero_ne_one, List.find?_eq_none.2 fun v hv => ?_, rfl⟩
    obtain ⟨j, hj, rfl⟩ := List.getElem_of_mem hv
    rw [hnumbered.key_get hj]
    simp
  rw [hnumbered.find? i]
  have hlen := hwraps.length_eq
  by_cases hi : i < k.drawn.length
  · have hi' : i < (w.db.keyRows row.id).length := hlen ▸ hi
    exact .inr ⟨_, _, List.getElem?_eq_getElem hi', List.getElem?_eq_getElem hi,
      hnumbered.key_get hi', hwraps.get hi' hi⟩
  · refine .inl ⟨?_, List.getElem?_eq_none (by omega), List.getElem?_eq_none (by omega)⟩
    rintro heq
    have hpos := List.length_pos_iff.2 k.drawn_ne
    omega

/-- The material of a version is what was drawn for it. -/
theorem World.HoldsKey.material (hP : P.Lawful) (hrow : w.HoldsKey P row k)
    (hu : k.usage = .encryptDecrypt) (hd : w.dek = some d) (n : Nat) :
    w.db.material P d row (some n) =
      if 2 ^ 63 ≤ n then .error .overflowError
      else match k.version n with
        | none => .error (appError .keyVersionNotFound "Key version not found" 404)
        | some m => .ok m := by
  unfold Database.material
  dsimp only
  by_cases hn : 2 ^ 63 ≤ n
  · rw [if_pos hn, if_pos hn]
  rw [if_neg hn, if_neg hn]
  rcases hrow.version_cases hu n with
    ⟨hne, hnone, hversion⟩ | ⟨v, m, hv, hversion, hnum, d', hkeyed, e, rfl, hnonce, htext⟩
  · rw [if_pos ⟨hnone, hne⟩, hversion]
  · obtain rfl := hkeyed.loaded d hd
    rw [if_neg (by rw [hv]; rintro ⟨⟨⟩, -⟩), hversion, hideTag_eq_ok]
    have hasked : w.db.recordAsked row (some n) = some v := hv
    rw [openRecord, hasked, Option.map_some, Option.map_some, Option.getD_some, Option.getD_some,
      hnonce, htext, hrow.owner, hrow.name, hnum]
    exact open_keySealing hP hkeyed.keyOk e k.owner k.name n

/-- The `try` block of `decrypt` decrypts under the version of the ring. -/
theorem World.HoldsKey.openBlob (hP : P.Lawful) (hrow : w.HoldsKey P row k)
    (hu : k.usage = .encryptDecrypt) (hd : w.dek = some d) (email name : T) (n : Nat) {blob : B}
    (hnonce : P.len (P.take 12 blob) = 12) :
    hideOpenTag (w.db.openBlob P d row email name n blob) =
      if 2 ^ 63 ≤ n then .error .overflowError
      else match k.version n with
        | none => .error (appError .keyVersionNotFound "Key version not found" 404)
        | some m =>
          match P.aesgcm.decrypt m (P.take 12 blob) (P.drop 12 blob)
            (P.encode (transitAad P email name n)) with
          | none => .error (appError .decryptionFailed "Ciphertext could not be decrypted" 400)
          | some raw => .ok raw := by
  unfold Database.openBlob
  rw [hrow.material hP hu hd n]
  by_cases hn : 2 ^ 63 ≤ n
  · rw [if_pos hn, if_pos hn]
    rfl
  rw [if_neg hn, if_neg hn]
  rcases hrow.version_cases hu n with ⟨-, -, hversion⟩ | ⟨v, m, -, hversion, -, d', -, e, rfl, -⟩
  · rw [hversion]
    rfl
  · rw [hversion]
    dsimp only [Bind.bind, Except.bind]
    have hk : aesKeyOk P e.key = true := by simp [aesKeyOk, e.key_len]
    have hlen : ¬ (P.len (P.take 12 blob) < 8 ∨ 128 < P.len (P.take 12 blob)) := by omega
    rw [MiniVault.decrypt, if_pos hk, if_neg hlen]
    rcases P.aesgcm.decrypt e.key (P.take 12 blob) (P.drop 12 blob)
      (P.encode (transitAad P email name n)) with _ | raw
    · rfl
    · rfl

/-- The material of a signing key is what was drawn for it. -/
theorem World.HoldsKey.signing_material (hP : P.Lawful) (hrow : w.HoldsKey P row k)
    (hu : k.usage = .signVerify) (hd : w.dek = some d) :
    w.db.material P d row none = .ok k.newest := by
  obtain ⟨-, d', hkeyed, e, hdrawn, hnonce, htext, -⟩ := hrow.signing hu
  obtain rfl := hkeyed.loaded d hd
  have husage := hrow.usage.trans hu
  have hnewest : k.newest = e.key := by
    simp only [PlainKey.newest, hdrawn, List.getLast_singleton]
  refine hideTag_eq_ok.2 ?_
  simp only [openRecord, Database.recordAsked, Database.versionAsked, husage, Option.map_none,
    Option.getD_none, hnonce, htext, hrow.owner, hrow.name, hnewest]
  exact open_keySealing hP hkeyed.keyOk e k.owner k.name 1

theorem World.HoldsKey.publicKey (hrow : w.HoldsKey P row k) (hu : k.usage = .signVerify) :
    row.publicKeyB64 = some (P.b64encode (P.publicKey k.newest)) := by
  obtain ⟨-, d, -, e, hdrawn, -, -, hpublic⟩ := hrow.signing hu
  simp only [PlainKey.newest, hdrawn, List.getLast_singleton, hpublic]

end Keys

/-! ## Operations -/

section Operations

variable [DecidableEq T] {w : World T B} {ks : PlainKeys T B} {email name : T}

/-- `_find` finds the key of the ring. -/
theorem World.HoldsKeys.find (hold : w.HoldsKeys P ks) (email name : T)
    (usage : Option KeyUsage) (e : Env P) :
    (∃ x, ks.find w.dek.isSome email name usage = .error x ∧
        TransitService.find email name usage e w.session = (.error x, w.session)) ∨
      ∃ row k, ks.find w.dek.isSome email name usage = .ok k ∧ w.HoldsKey P row k ∧
        FindReady w.session email name usage row := by
  unfold PlainKeys.find TransitService.find
  rcases hd : w.dek with _ | d
  · have hd' : w.session.dek = none := hd
    exact .inl ⟨_, rfl, by simp [requireDek_of_none hd']⟩
  have hd' : w.session.dek = some d := hd
  rw [Option.isSome_some, requireUnlocked_bind]
  rcases hold.lookup email name with ⟨hf, hlookup⟩ | ⟨row, k, hf, hlookup, hrow⟩
  · have hf' : w.session.db.findKey email name = none := hf
    rw [hlookup]
    exact .inl ⟨_, rfl, by simp [requireDek_of_some hd', hf']⟩
  have hf' : w.session.db.findKey email name = some row := hf
  rw [hlookup]
  dsimp only
  by_cases hr : k.revoked = true
  · have hr' : row.revokedAt.isSome = true := hrow.revoked.trans hr
    rw [if_pos hr]
    exact .inl ⟨_, rfl, by simp [requireDek_of_some hd', hf', hr']⟩
  have hr' : row.revokedAt = none := by
    rw [← Option.not_isSome_iff_eq_none, hrow.revoked]
    exact hr
  rw [if_neg hr]
  rcases usage with _ | u
  · exact .inr ⟨row, k, rfl, hrow, ⟨d, hd'⟩, hf', hr', by rintro _ ⟨⟩⟩
  by_cases hu : u = k.usage
  · refine .inr ⟨row, k, ?_, hrow, ⟨d, hd'⟩, hf', hr', ?_⟩
    · rw [if_neg (by simp [hu])]
      rfl
    · rintro _ ⟨⟩
      rw [hrow.usage, hu]
  · rw [if_pos (by simp [hu])]
    exact .inl ⟨_, rfl, by simp [requireDek_of_some hd', hf', hr', hrow.usage, hu]⟩

variable (hold : w.HoldsKeys P ks) (e : Env P) (email name : T)
include hold

theorem World.HoldsKeys.create_answer (hk : ∀ d, w.dek = some d → w.Keyed P d) :
    (TransitService.createAes email name e w.session).1 =
        ks.create w.dek.isSome email name e .encryptDecrypt ∧
      (TransitService.createSigning email name e w.session).1 =
        ks.create w.dek.isSome email name e .signVerify := by
  unfold PlainKeys.create
  rcases hn : P.validateKeyName name with x | u
  · have hraise : TransitService.createAes email name e w.session = (.error x, w.session) ∧
        TransitService.createSigning email name e w.session = (.error x, w.session) := by
      simp [TransitService.createAes, TransitService.createSigning, hn]
    rw [hraise.1, hraise.2]
    exact ⟨rfl, rfl⟩
  rcases hd : w.dek with _ | d
  · have hd' : w.session.dek = none := hd
    have hraise : TransitService.createAes email name e w.session =
          (.error (appError .vaultLocked "Vault is locked" 423), w.session) ∧
        TransitService.createSigning email name e w.session =
          (.error (appError .vaultLocked "Vault is locked" 423), w.session) := by
      simp [TransitService.createAes, TransitService.createSigning, hn, requireDek_of_none hd']
    rw [hraise.1, hraise.2]
    exact ⟨rfl, rfl⟩
  have hd' : w.session.dek = some d := hd
  rcases hold.lookup email name with ⟨hf, hlookup⟩ | ⟨row, k, hf, hlookup, -⟩
  · have hready : CreateReady P w.session email name d := ⟨hn, hd', hf, (hk d hd).keyOk⟩
    rw [createAes_of_ready hready, createSigning_of_ready hready, hlookup]
    exact ⟨rfl, rfl⟩
  · have hf' : w.session.db.findKey email name = some row := hf
    have hraise : TransitService.createAes email name e w.session =
          (.error (appError .keyAlreadyExists "Key already exists" 409), w.session) ∧
        TransitService.createSigning email name e w.session =
          (.error (appError .keyAlreadyExists "Key already exists" 409), w.session) := by
      simp [TransitService.createAes, TransitService.createSigning, hn, requireDek_of_some hd', hf']
    rw [hraise.1, hraise.2, hlookup]
    exact ⟨rfl, rfl⟩

theorem World.HoldsKeys.list_answer :
    (TransitService.list email e w.session).1 = ks.list P w.dek.isSome email := by
  unfold TransitService.list PlainKeys.list
  rcases hd : w.dek with _ | d
  · have hd' : w.session.dek = none := hd
    rw [bind_apply, requireDek_of_none hd']
    rfl
  have hd' : w.session.dek = some d := hd
  rw [bind_apply, requireDek_of_some hd']
  have hfilter : List.Forall₂ (w.HoldsKey P)
      (w.db.transitKeys.filter fun k => k.ownerEmail = email ∧ k.revokedAt = none)
      (ks.keys.filter fun k => k.owner = email ∧ k.revoked = false) := by
    refine List.rel_filter (fun row k hrow => ?_) hold
    simp only [decide_eq_true_eq]
    rw [← hrow.owner, ← hrow.revoked, Option.isSome_eq_false_iff, Option.isNone_iff_eq_none]
  exact congrArg Except.ok (Table.map_eq_of_forall₂ hfilter fun _ _ h => h.current_metadata false)

theorem World.HoldsKeys.get_answer :
    (TransitService.get email name e w.session).1 =
      (ks.find w.dek.isSome email name none).map (·.metadata P false) := by
  unfold TransitService.get
  rcases hold.find email name none e with ⟨x, hx, hfind⟩ | ⟨row, k, hk, hrow, hready⟩
  · rw [bind_apply, hfind, hx]
    rfl
  · rw [bind_apply, find_of_ready hready e, hk]
    exact congrArg Except.ok (hrow.current_metadata false)

theorem World.HoldsKeys.revoke_answer :
    (TransitService.revoke email name e w.session).1 =
      (ks.find w.dek.isSome email name none).map fun _ => () := by
  unfold TransitService.revoke
  rcases hold.find email name none e with ⟨x, hx, hfind⟩ | ⟨row, k, hk, -, hready⟩
  · rw [bind_apply, hfind, hx]
    rfl
  · rw [bind_apply, find_of_ready hready e, hk]
    rfl

theorem World.HoldsKeys.rotate_answer (hk : ∀ d, w.dek = some d → w.Keyed P d) :
    (TransitService.rotate email name e w.session).1 = ks.rotate w.dek.isSome email name e := by
  unfold PlainKeys.rotate
  rcases hold.find email name (some .encryptDecrypt) e with
    ⟨x, hx, hfind⟩ | ⟨row, k, hfound, hrow, hready⟩
  · rw [TransitService.rotate, bind_apply, hfind, hx]
    rfl
  rw [hfound]
  obtain ⟨d, hd⟩ := hready.unlocked
  have hcurrent : w.session.db.currentKeyNumber row.id = k.drawn.length := hrow.current
  by_cases hv : k.drawn.length + 1 < 2 ^ 63
  · rw [rotate_of_ready hready hd (hk d hd).keyOk e (by rwa [hcurrent])]
    have hnext : (w.session.db.keyRotate P e row email name d).currentKeyNumber row.id =
        (k.rotate e.key).drawn.length := by
      rw [currentKeyNumber_keyRotate, hcurrent, PlainKey.rotate, List.length_append,
        List.length_singleton]
    rw [hnext, hrow.metadata]
    exact (if_neg (Nat.not_le.2 hv)).symm
  · obtain ⟨db, hdb⟩ := rotate_overflow hready hd (hk d hd).keyOk e (by rwa [hcurrent])
    rw [hdb]
    exact (if_pos (Nat.not_lt.1 hv)).symm

theorem World.HoldsKeys.encrypt_answer (hP : P.Lawful) (hring : w.db.KeyRing P)
    (plaintextB64 : T) :
    (TransitService.encrypt email name plaintextB64 e w.session).1 =
      ks.encrypt w.dek.isSome email name e plaintextB64 := by
  unfold PlainKeys.encrypt
  rcases hold.find email name (some .encryptDecrypt) e with
    ⟨x, hx, hfind⟩ | ⟨row, k, hfound, hrow, hready⟩
  · rw [TransitService.encrypt, bind_apply, hfind, hx]
    rfl
  rw [hfound]
  rcases hraw : P.b64decode plaintextB64 with _ | raw
  · have hb : b64d P plaintextB64 =
        .error (appError .validationError "Invalid Base64 data" 400) :=
      b64d_error_iff.2 ⟨hraw, rfl⟩
    rw [TransitService.encrypt, bind_apply, find_of_ready hready e, hb]
    rfl
  have hb : b64d P plaintextB64 = .ok raw := b64d_eq_ok.2 hraw
  by_cases hs : 1048576 < P.len raw
  · have hraise : TransitService.encrypt email name plaintextB64 e w.session =
        (.error (appError .validationError "Plaintext is too large" 413), w.session) := by
      simp [TransitService.encrypt, find_of_ready hready e, hb, hs]
    rw [hraise, hb]
    exact (if_pos hs).symm
  obtain ⟨d, hd⟩ := hready.unlocked
  have husage : k.usage = .encryptDecrypt := hrow.usage ▸ hready.usageOk _ rfl
  have hcurrent : w.session.db.currentKeyNumber row.id = k.drawn.length := hrow.current
  have hlt : k.drawn.length < 2 ^ 63 := by
    rw [← hrow.current]
    exact currentKeyNumber_lt (fun v hv => (hring.versions v hv).2) row.id
  have hopened : w.session.db.material P d row (some (w.session.db.currentKeyNumber row.id)) =
      .ok k.newest := by
    rw [hcurrent]
    refine (hrow.material hP husage hd k.drawn.length).trans ?_
    rw [if_neg (Nat.not_le.2 hlt), k.version_newest]
  have hk : aesKeyOk P k.newest = true := by simp [aesKeyOk, hrow.newest_len]
  rw [transitEncrypt_of_ready ⟨row, raw, d, k.newest, hready, hraw, Nat.not_lt.1 hs, hd, hopened,
    hk⟩ e, hb]
  simp only [EncryptReady.sealing, hcurrent]
  exact (if_neg hs).symm

theorem World.HoldsKeys.decrypt_answer (hP : P.Lawful)
    (hslice : ∀ b, 28 ≤ P.len b → P.len (P.take 12 b) = 12) (ciphertext : T) :
    (TransitService.decrypt email ciphertext e w.session).1 =
      ks.decrypt P w.dek.isSome email ciphertext := by
  unfold PlainKeys.decrypt
  rcases hp : P.readEnvelope ciphertext with x | ⟨n, name, blobB64⟩
  · rw [TransitService.decrypt, hp]
    rfl
  dsimp only [Bind.bind, Except.bind]
  rcases hblob : P.b64decode blobB64 with _ | blob
  · have hb : b64d P blobB64 .invalidCiphertext =
        .error (appError .invalidCiphertext "Invalid Base64 data" 400) :=
      b64d_error_iff.2 ⟨hblob, rfl⟩
    have hraise : TransitService.decrypt email ciphertext e w.session =
        (.error (appError .invalidCiphertext "Invalid Base64 data" 400), w.session) := by
      simp [TransitService.decrypt, hp, hb]
    rw [hraise, hb]
  have hb : b64d P blobB64 .invalidCiphertext = .ok blob := b64d_eq_ok.2 hblob
  rw [hb]
  dsimp only
  by_cases hs : P.len blob < 28
  · have hraise : TransitService.decrypt email ciphertext e w.session =
        (.error (appError .invalidCiphertext "Invalid ciphertext" 400), w.session) := by
      simp [TransitService.decrypt, hp, hb, hs]
    rw [hraise, if_pos hs]
    rfl
  rw [if_neg hs]
  rcases hold.find email name (some .encryptDecrypt) e with
    ⟨x, hx, hfind⟩ | ⟨row, k, hfound, hrow, hready⟩
  · have hraise : TransitService.decrypt email ciphertext e w.session =
        (.error x, w.session) := by
      simp [TransitService.decrypt, hp, hb, hs, hfind]
    rw [hraise, hx]
  obtain ⟨d, hd⟩ := hready.unlocked
  have husage : k.usage = .encryptDecrypt := hrow.usage ▸ hready.usageOk _ rfl
  have hopen : _ = (hideOpenTag (w.db.openBlob P d row email name n blob), w.session) :=
    handle_openBlob (e := e) hd row n blob
  have happly : (TransitService.decrypt email ciphertext e w.session).1 =
      (hideOpenTag (w.db.openBlob P d row email name n blob)).map P.b64encode := by
    rw [TransitService.decrypt, hp]
    show ((Imp.ofExcept (b64d P blobB64 .invalidCiphertext) >>= fun blob => _) e w.session).1 = _
    rw [hb]
    show ((if P.len blob < 28 then _ else _ : Py P T) e w.session).1 = _
    rw [if_neg hs, bind_apply, find_of_ready hready e]
    dsimp only
    rw [bind_apply, hopen]
    rcases hideOpenTag (w.db.openBlob P d row email name n blob) with x | raw
    · rfl
    · rfl
  rw [happly, hrow.openBlob hP husage hd email name n (hslice blob (Nat.not_lt.1 hs)), hfound]
  dsimp only
  by_cases hn : 2 ^ 63 ≤ n
  · rw [if_pos hn, if_pos hn]
    rfl
  rw [if_neg hn, if_neg hn]
  rcases k.version n with _ | m
  · rfl
  · dsimp only
    rcases P.aesgcm.decrypt m (P.take 12 blob) (P.drop 12 blob)
      (P.encode (transitAad P email name n)) with _ | raw
    · rfl
    · rfl

theorem World.HoldsKeys.sign_answer (hP : P.Lawful) (messageB64 : T) (messageType : MessageType) :
    (TransitService.sign email name messageB64 messageType e w.session).1 =
      ks.sign P w.dek.isSome email name messageB64 messageType := by
  unfold PlainKeys.sign
  rcases hold.find email name (some .signVerify) e with
    ⟨x, hx, hfind⟩ | ⟨row, k, hfound, hrow, hready⟩
  · rw [TransitService.sign, bind_apply, hfind, hx]
    rfl
  rw [hfound]
  dsimp only [Bind.bind, Except.bind]
  rcases hmessage : P.b64decode messageB64 with _ | message
  · have hb : b64d P messageB64 = .error (appError .validationError "Invalid Base64 data" 400) :=
      b64d_error_iff.2 ⟨hmessage, rfl⟩
    have hraise : TransitService.sign email name messageB64 messageType e w.session =
        (.error (appError .validationError "Invalid Base64 data" 400), w.session) := by
      simp [TransitService.sign, find_of_ready hready e, hb]
    rw [hraise, hb]
  have hb : b64d P messageB64 = .ok message := b64d_eq_ok.2 hmessage
  rw [hb]
  dsimp only
  by_cases hlen : messageType = .digest ∧ P.len message ≠ 32
  · have hraise : TransitService.sign email name messageB64 messageType e w.session =
        (.error (appError .invalidDigestLength "Digest must be 32 bytes" 400), w.session) := by
      simp [TransitService.sign, find_of_ready hready e, hb, hlen.1, hlen.2]
    rw [hraise, if_pos hlen]
    rfl
  · obtain ⟨d, hd⟩ := hready.unlocked
    have husage : k.usage = .signVerify := hrow.usage ▸ hready.usageOk _ rfl
    rw [sign_of_ready ⟨row, message, d, k.newest, hready, hmessage,
      fun ht => by_contra fun hne => hlen ⟨ht, hne⟩, hd, hrow.signing_material hP husage hd,
      hrow.newest_len⟩ e, if_neg hlen]
    rfl

theorem World.HoldsKeys.verify_answer (hb64 : ∀ b, P.b64decode (P.b64encode b) = some b)
    (hpublic : ∀ k, P.len k = 32 → P.len (P.publicKey k) = 32) (messageB64 : T)
    (messageType : MessageType) (signatureB64 : T) (signingAlgorithm : Option T) :
    (TransitService.verify email name messageB64 messageType signatureB64 signingAlgorithm e
        w.session).1 =
      ks.verify P w.dek.isSome email name messageB64 messageType signatureB64 signingAlgorithm := by
  unfold PlainKeys.verify
  rcases hold.find email name (some .signVerify) e with
    ⟨x, hx, hfind⟩ | ⟨row, k, hfound, hrow, hready⟩
  · rw [TransitService.verify, bind_apply, hfind, hx]
    rfl
  have husage : k.usage = .signVerify := hrow.usage ▸ hready.usageOk _ rfl
  have halgorithm : row.algorithm = P.lit "ED25519" := by rw [hrow.algorithm, husage]; rfl
  rw [hfound]
  dsimp only [Bind.bind, Except.bind]
  rcases hmessage : P.b64decode messageB64 with _ | message
  · have hb : b64d P messageB64 = .error (appError .validationError "Invalid Base64 data" 400) :=
      b64d_error_iff.2 ⟨hmessage, rfl⟩
    have hraise : TransitService.verify email name messageB64 messageType signatureB64
        signingAlgorithm e w.session =
          (.error (appError .validationError "Invalid Base64 data" 400), w.session) := by
      simp [TransitService.verify, find_of_ready hready e, hb]
    rw [hraise, hb]
  have hb : b64d P messageB64 = .ok message := b64d_eq_ok.2 hmessage
  rw [hb]
  dsimp only
  by_cases ha : (signingAlgorithm.any fun a => P.truthy a ∧ a ≠ P.lit "ED25519") = true
  · have hraise : TransitService.verify email name messageB64 messageType signatureB64
        signingAlgorithm e w.session =
          (.error (appError .invalidSigningAlgorithm "Signing algorithm does not match the key"
            400), w.session) := by
      rw [← halgorithm] at ha
      simp only [TransitService.verify, bind_apply, find_of_ready hready e, ofExcept_apply, hb,
        if_pos ha, raise_apply]
    rw [hraise, if_pos ha]
    rfl
  rw [if_neg ha]
  by_cases hlen : messageType = .digest ∧ P.len message ≠ 32
  · have hraise : TransitService.verify email name messageB64 messageType signatureB64
        signingAlgorithm e w.session =
          (.error (appError .invalidDigestLength "Digest must be 32 bytes" 400), w.session) := by
      rw [← halgorithm] at ha
      simp only [TransitService.verify, bind_apply, find_of_ready hready e, ofExcept_apply, hb,
        ite_run, if_neg ha, if_pos hlen, raise_apply]
    rw [hraise, if_pos hlen]
    rfl
  rw [if_neg hlen]
  have hnamed : ∀ a, signingAlgorithm = some a → P.truthy a = true → a = row.algorithm := by
    rintro a rfl ht
    by_contra hne
    exact ha (decide_eq_true ⟨ht, halgorithm ▸ hne⟩)
  rw [verify_of_ready ⟨row, message, hready, hmessage, hnamed,
    fun ht => by_contra fun hne => hlen ⟨ht, hne⟩⟩ signatureB64 e]
  dsimp only
  rw [hrow.publicKey husage, Option.getD_some, TransitService.checkSignature, hb64]
  rcases P.b64decode signatureB64 with _ | signature
  · rfl
  · simp [hpublic _ hrow.newest_len]
    rfl

end Operations

/-! ## Laws -/

/-- What the results on the ring assume: the cipher and Base64 are lawful, a slice of twelve bytes
    has them when they are there, and a private key has a public key. -/
structure KeyLaws (P : Prims T B J) : Prop where
  lawful : P.Lawful
  slice : ∀ b, 28 ≤ P.len b → P.len (P.take 12 b) = 12
  publicKey_len : ∀ k, P.len k = 32 → P.len (P.publicKey k) = 32

theorem concrete_keyLaws {F : Type} {L : Lib F} (hcorrect : L.aesgcm.Correct)
    (hkey : L.aesgcm.KeyBound)
    (hpublic : ∀ k : Bytes, k.length = 32 → (L.publicKey k).length = 32) :
    KeyLaws (concrete L) where
  lawful := concrete_lawful hcorrect hkey
  slice b hb := by
    show (List.take 12 b).length = 12
    have hlen : 28 ≤ b.length := hb
    rw [List.length_take]
    omega
  publicKey_len := hpublic

end MiniVault
