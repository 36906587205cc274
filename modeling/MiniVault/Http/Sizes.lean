/-
  Request sizes. The middleware limits the size of a request, `encrypt` that of the bytes it is
  given, and nothing that of an envelope. An envelope holds a nonce and a tag that its request did
  not, and the version of its key: near the limit, a client gets an envelope that it cannot send
  back.
-/
import MiniVault.Kit.JsonText
import MiniVault.Transit.RoundTrip

namespace MiniVault

open Kit

variable {F : Type} {L : Lib F} {settings : Settings}

/-! ## The middleware -/

/-- `request_size_limit`: the error it answers with, `none` where the request goes on to its
    handler. -/
def requestSizeLimit (settings : Settings) (contentLength : Option Text) : Option AppError :=
  let tooLarge : Bool :=
    match contentLength with
    | none => false
    | some length =>
      if length.isEmpty then false
      else match Text.int length with
        | some n => settings.maxRequestBytes + 8192 < n
        | none => true
  if tooLarge then some ⟨.validationError, "Request is too large", 413⟩ else none

/-- `EncryptRequest` -/
def encryptRequest (keyName plaintextB64 : Text) : Json.Value F :=
  .obj (Json.strMembers
    [("key_name".toList, keyName), ("plaintext_b64".toList, plaintextB64)])

/-- `DecryptRequest` -/
def decryptRequest (ciphertext : Text) : Json.Value F :=
  .obj (Json.strMembers [("ciphertext".toList, ciphertext)])

/-- A body, written as compact JSON and sent with its `Content-Length`, passes the middleware. -/
def Passes (L : Lib F) (settings : Settings) (body : Json.Value F) : Prop :=
  ∃ raw, dumps L body = .ok raw ∧ requestSizeLimit settings (some (str raw.length)) = none

theorem requestSizeLimit_str {n : Nat} (h : n < 2 ^ 63) :
    requestSizeLimit settings (some (str n)) = none ↔
      (n : Int) ≤ settings.maxRequestBytes + 8192 := by
  have hne : (str n).isEmpty = false := by
    have hint := Text.int_str h
    rcases hs : str n with _ | _
    · rw [hs] at hint
      cases hint
    · rfl
  simp only [requestSizeLimit, hne, Bool.false_eq_true, if_false, Text.int_str h]
  by_cases hlt : settings.maxRequestBytes + 8192 < (n : Int)
  · simp only [hlt, decide_true, if_true, reduceCtorEq, false_iff]
    exact Int.not_le.2 hlt
  · simp only [hlt, decide_false, Bool.false_eq_true, if_false, true_iff]
    exact Int.not_lt.1 hlt

/-- A body of plain strings passes exactly if its size is within the limit. -/
theorem passes_iff {ms : List (Text × Text)} (hne : ms ≠ [])
    (hplain : ∀ m ∈ ms, Json.PlainText m.1 ∧ Json.PlainText m.2)
    (hsorted : ms.Pairwise fun a b => Json.strLe (Json.chars a.1) (Json.chars b.1) = true) {n : Nat}
    (hn : n = Json.membersSize ms) (hsmall : n < 2 ^ 63) :
    Passes L settings (.obj (Json.strMembers ms)) ↔
      (n : Int) ≤ settings.maxRequestBytes + 8192 := by
  obtain ⟨raw, hraw, hlen⟩ := Json.render_plain L.floats hne hplain
  have hdumps : dumps L (.obj (Json.strMembers ms)) = .ok raw := by
    rw [dumps, Json.dumps_plain L.floats hsorted]
    simp only [hraw]
  rw [← hn] at hlen
  rw [← requestSizeLimit_str hsmall, ← hlen]
  constructor
  · rintro ⟨raw', hraw', h⟩
    rwa [Except.ok.inj (hdumps.symm.trans hraw')]
  · exact fun h => ⟨raw, hdumps, h⟩

/-! ## Plain texts -/

theorem isPlain_of_range {c : Char} (h : 35 ≤ c.toNat ∧ c.toNat < 128 ∧ c.toNat ≠ 92) :
    Json.isPlain c = true := by
  have hne : ∀ d : Char, c.toNat ≠ d.toNat → c ≠ d := by
    rintro d hd rfl
    exact hd rfl
  obtain ⟨h35, h128, h92⟩ := h
  simp only [Json.isPlain, Bool.and_eq_true, decide_eq_true_eq]
  refine ⟨⟨⟨by omega, h128⟩, hne '"' ?_⟩, hne '\\' ?_⟩
  · show c.toNat ≠ 34
    omega
  · exact h92

theorem plain_str (n : Nat) : Json.PlainText (str n) := by
  intro c hc
  rcases Json.mem_intRepr hc with h | rfl
  · rw [Json.isDigit_iff] at h
    exact isPlain_of_range (by omega)
  · rfl

theorem plain_keyName {name : Text} (h : validateKeyName name = .ok ()) : Json.PlainText name := by
  unfold validateKeyName at h
  split_ifs at h with hname
  intro c hc
  have hchar := List.all_eq_true.1 hname.2.2 c hc
  simp only [isKeyNameChar, isUpper, isLower, Bool.or_eq_true, Bool.and_eq_true,
    decide_eq_true_eq, Char.le_def, UInt32.le_iff_toNat_le] at hchar
  rcases hchar with (((h | h) | h) | rfl) | rfl
  · change 65 ≤ c.toNat ∧ c.toNat ≤ 90 at h
    exact isPlain_of_range (by omega)
  · change 97 ≤ c.toNat ∧ c.toNat ≤ 122 at h
    exact isPlain_of_range (by omega)
  · rw [Json.isDigit_iff] at h
    exact isPlain_of_range (by omega)
  · rfl
  · rfl

theorem plain_base64 (b : Bytes) : Json.PlainText (Base64.encode b) := by
  have hall : Json.PlainText ('=' :: Base64.alphabet) := by decide +kernel
  exact fun c hc => hall c (Base64.mem_encode hc)

/-! ## Sizes -/

/-- The size of the request for the envelope of `raw` under version `n` of a key. -/
def decryptSize (n : Nat) (name : Text) (raw : Bytes) : Nat :=
  26 + (str n).length + name.length + 4 * ((raw.length + 30) / 3)

theorem length_str {n : Nat} (h : n < 2 ^ 63) : (str n).length ≤ 19 := by
  have hstr : str n = Nat.toDigits 10 n := by
    rw [str, Json.intRepr, if_neg (by omega)]
    rfl
  rw [hstr, Nat.length_toDigits_le_iff (by decide) (by decide)]
  exact lt_trans h (by decide)

theorem length_keyName {name : Text} (h : validateKeyName name = .ok ()) : name.length ≤ 64 := by
  unfold validateKeyName at h
  split_ifs at h with hname
  exact hname.2.1

theorem length_envelope (n : Nat) (name : Text) (blob : Bytes) :
    (envelope (concrete L) n name blob).length =
      9 + (str n).length + name.length + 4 * ((blob.length + 2) / 3) := by
  simp only [envelope, concrete, List.flatten_cons, List.flatten_nil, List.append_nil,
    List.length_append, Base64.length_encode]
  rw [show "vault:v".toList.length = 7 from rfl, show ":".toList.length = 1 from rfl]
  omega

theorem plain_envelope (n : Nat) {name : Text} (hname : validateKeyName name = .ok ())
    (blob : Bytes) : Json.PlainText (envelope (concrete L) n name blob) := by
  have hscheme : Json.PlainText "vault:v".toList := by decide
  have hcolon : Json.PlainText ":".toList := by decide
  simp only [envelope, concrete, List.flatten_cons, List.flatten_nil, List.append_nil]
  exact hscheme.append ((plain_str n).append (hcolon.append ((plain_keyName hname).append
    (hcolon.append (plain_base64 blob)))))

theorem passes_decryptRequest {n : Nat} {name : Text} {raw blob : Bytes} (hn : n < 2 ^ 63)
    (hname : validateKeyName name = .ok ()) (hraw : raw.length ≤ 1048576)
    (hblob : blob.length = raw.length + 28) :
    Passes L settings (decryptRequest (envelope (concrete L) n name blob)) ↔
      (decryptSize n name raw : Int) ≤ settings.maxRequestBytes + 8192 := by
  have hsize := length_keyName hname
  have hstr := length_str hn
  have hkey : Json.PlainText "ciphertext".toList := by decide
  refine passes_iff (List.cons_ne_nil _ _) ?_ (List.pairwise_singleton _ _) ?_ ?_
  · intro m hm
    rw [List.mem_singleton.1 hm]
    exact ⟨hkey, plain_envelope n hname blob⟩
  · simp only [Json.membersSize, length_envelope, hblob, decryptSize,
      show "ciphertext".toList.length = 10 from rfl]
    omega
  · unfold decryptSize
    omega

/-- The size of the request that made it, where the text is the usual encoding of `raw`. -/
theorem passes_encryptRequest {name : Text} {raw : Bytes} (hname : validateKeyName name = .ok ())
    (hraw : raw.length ≤ 1048576) :
    Passes L settings (encryptRequest name (Base64.encode raw)) ↔
      ((34 + name.length + 4 * ((raw.length + 2) / 3) : Nat) : Int) ≤
        settings.maxRequestBytes + 8192 := by
  have hsize := length_keyName hname
  have hkey : Json.PlainText "key_name".toList ∧ Json.PlainText "plaintext_b64".toList := by
    decide
  refine passes_iff (List.cons_ne_nil _ _) ?_ ?_ ?_ ?_
  · intro m hm
    rcases List.mem_pair.1 hm with rfl | rfl
    · exact ⟨hkey.1, plain_keyName hname⟩
    · exact ⟨hkey.2, plain_base64 raw⟩
  · have hle : Json.strLe (Json.chars "key_name".toList) (Json.chars "plaintext_b64".toList) =
        true := by decide
    exact List.pairwise_pair.2 hle
  · simp only [Json.membersSize, Base64.length_encode, show "key_name".toList.length = 8 from rfl,
      show "plaintext_b64".toList.length = 13 from rfl]
    omega
  · omega

/-! ## The result -/

/-- **What `encrypt` returned can be sent back and opens** exactly if the request for it is within
    the limit: for every limit, after any run, for a key of any version and any text that `encrypt`
    accepted in a request that passed, as long as the key is not revoked and the vault is
    unlocked. -/
theorem decryptable_iff {F : Type} (L : Lib F) (hcorrect : L.aesgcm.Correct)
    (hlen : ∀ k n p a, (L.aesgcm.encrypt k n p a).length = p.length + 16)
    (hderived : ∀ p q salt params n data a r,
      L.aesgcm.decrypt (L.argon2 q salt params) n
          (L.aesgcm.encrypt (L.argon2 p salt params) n data a) a = some r →
        L.argon2 q salt params = L.argon2 p salt params)
    (settings : Settings) (is js : List (Env (concrete L) × Call Text (Json.Value F)))
    (e e' : Env (concrete L)) (email name plaintextB64 ciphertext : Text) (w : World Text Bytes)
    (henc : (World.initial.after is).call (e, .encrypt email name plaintextB64) =
      (.ok (.ciphertext ciphertext), w))
    (_hpasses : Passes L settings (encryptRequest name plaintextB64))
    (hrev : Unrevoked email name (w.trace js)) (hunlocked : (w.after js).dek ≠ none) :
    (Passes L settings (decryptRequest ciphertext) ∧
        ∃ raw, Base64.decode plaintextB64 = some raw ∧
          ((w.after js).call (e', .decrypt email ciphertext)).1 =
            .ok (.plaintext (Base64.encode raw))) ↔
      ∃ raw key, Base64.decode plaintextB64 = some raw ∧
        (World.initial.after is).db.findKey email name = some key ∧
        (decryptSize ((World.initial.after is).db.currentKeyNumber key.id) name raw : Int) ≤
          settings.maxRequestBytes + 8192 := by
  have hunlocks : (concrete L).Unlocks :=
    ⟨Base64.decode_encode, hcorrect, fun p q => hderived (Utf8.encode p) (Utf8.encode q)⟩
  have hring := Database.KeyRing.after (P := concrete L) keyRing_initial is
  obtain ⟨h, rfl, rfl⟩ := encrypt_call_eq_ok henc
  obtain ⟨v, hv, -⟩ := h.holds hring
  obtain ⟨hmem, -, hname⟩ := findKey_eq_some h.ready.found
  obtain ⟨hrow, -, hnum⟩ := keyVersion_eq_some hv.row
  have hrange := (hring.versions v hrow).2
  rw [hnum] at hrange
  have hblob : (e.nonce ++
      L.aesgcm.encrypt h.material e.nonce h.raw (h.sealing e).aad).length = h.raw.length + 28 := by
    rw [List.length_append, hlen, show e.nonce.length = 12 from e.nonce_len]
    omega
  have hsize : Passes L settings _ ↔ _ :=
    passes_decryptRequest hrange (hname ▸ hring.named h.key hmem) h.size hblob
  have hopens := decrypt_after_encrypt hunlocks h e e' js
    (hv.envelopeForm hring (by rw [hblob]; exact Nat.le_add_left 28 _)) hrev hunlocked
  constructor
  · rintro ⟨hpasses, -⟩
    exact ⟨h.raw, h.key, h.decoded, h.ready.found, hsize.1 hpasses⟩
  · rintro ⟨raw, key, hraw, hkey, hle⟩
    rw [show raw = h.raw from Option.some.inj (hraw.symm.trans h.decoded),
      show key = h.key from Option.some.inj (hkey.symm.trans h.ready.found)] at hle
    exact ⟨hsize.2 hle, h.raw, h.decoded, hopens⟩

namespace Sample

/-- A tag that spells the first half of the key. -/
def tagOf (key : Bytes) : Bytes := (key ++ List.replicate 16 0).take 16

theorem length_tagOf (key : Bytes) : (tagOf key).length = 16 :=
  List.length_take_of_le (by rw [List.length_append, List.length_replicate]; omega)

/-- A cipher whose ciphertexts are as long as those of AES-GCM. -/
def sized : Aead Bytes where
  encrypt key _ data _ := data ++ tagOf key
  decrypt key _ ciphertext _ :=
    if tagOf key <:+ ciphertext then some (ciphertext.take (ciphertext.length - 16)) else none

theorem sized_correct : sized.Correct := by
  intro k n p a
  have hopen : sized.decrypt k n (p ++ tagOf k) a =
      some ((p ++ tagOf k).take ((p ++ tagOf k).length - 16)) := if_pos (List.suffix_append _ _)
  rw [List.length_append, length_tagOf, Nat.add_sub_cancel, List.take_left] at hopen
  exact hopen

theorem sized_length (k n p a : Bytes) : (sized.encrypt k n p a).length = p.length + 16 := by
  rw [show sized.encrypt k n p a = p ++ tagOf k from rfl, List.length_append, length_tagOf]

theorem tagOf_eq {k k' n p a r : Bytes}
    (h : sized.decrypt k' n (sized.encrypt k n p a) a = some r) : tagOf k' = tagOf k := by
  have hopen : (if tagOf k' <:+ p ++ tagOf k then some ((p ++ tagOf k).take
      ((p ++ tagOf k).length - 16)) else none) = some r := h
  split_ifs at hopen with hsuffix
  obtain ⟨t, ht⟩ := hsuffix
  exact (List.append_inj' ht (by rw [length_tagOf, length_tagOf])).2

/-- The sample libraries with that cipher, for keys that their tags tell apart. -/
def sizedLib : Lib Unit :=
  { lib with
    aesgcm := sized
    argon2 := fun secret _ _ => tagOf secret ++ List.replicate 16 0 }

theorem sized_derived (p q salt : Bytes) (params : Text) (n data a r : Bytes)
    (h : sized.decrypt (sizedLib.argon2 q salt params) n
      (sized.encrypt (sizedLib.argon2 p salt params) n data a) a = some r) :
    sizedLib.argon2 q salt params = sizedLib.argon2 p salt params := by
  have htag : ∀ s, tagOf (sizedLib.argon2 s salt params) = tagOf s := fun s => by
    show ((tagOf s ++ List.replicate 16 0) ++ List.replicate 16 0).take 16 = tagOf s
    rw [List.append_assoc]
    exact List.take_left' (length_tagOf s)
  have heq := tagOf_eq h
  rw [htag, htag] at heq
  show tagOf q ++ _ = tagOf p ++ _
  rw [heq]

/-- A vault with one key, under these libraries. -/
def sizedCalls : List (Env (concrete sizedLib) × Call Text (Json.Value Unit)) :=
  forLib sizedLib oneKeyCalls

/-- That key, used once. -/
def sizedEncrypted : Except Exc (Data Text (Json.Value Unit)) × World Text Bytes :=
  (World.initial.after sizedCalls).call
    (withLib sizedLib (env 4), .encrypt alice keyName "aGVsbG8=".toList)

theorem sizedEncrypted_eq :
    ∃ c, sizedEncrypted = (.ok (.ciphertext c), sizedEncrypted.2) ∧
      (envelopeOf sizedEncrypted.1).getD [] = c := by
  obtain ⟨c, hc⟩ := Option.isSome_iff_exists.1
    (show (envelopeOf sizedEncrypted.1).isSome = true by decide +kernel)
  exact ⟨c, Prod.ext (envelopeOf_eq_some hc) rfl, by rw [hc, Option.getD_some]⟩

theorem sizedKey_version : ∀ k ∈ (World.initial.after sizedCalls).db.transitKeys,
    (World.initial.after sizedCalls).db.currentKeyNumber k.id = 1 := by
  decide +kernel

/-- With that key, any text of the size that `encrypt` allows can be encrypted. -/
theorem encrypt_sized {raw : Bytes} (hraw : raw.length ≤ 1048576) :
    ∃ blob x, blob.length = raw.length + 28 ∧
      (World.initial.after sizedCalls).call
          (withLib sizedLib (env 4), .encrypt alice keyName (Base64.encode raw)) =
        (.ok (.ciphertext (envelope (concrete sizedLib) 1 keyName blob)),
          (World.initial.after sizedCalls).sealing x) := by
  obtain ⟨c, henc, -⟩ := sizedEncrypted_eq
  obtain ⟨h, -, -⟩ := encrypt_call_eq_ok henc
  let h' : EncryptReady (concrete sizedLib) (World.initial.after sizedCalls).session alice keyName
      (Base64.encode raw) :=
    { h with raw := raw, decoded := Base64.decode_encode raw, size := hraw }
  have hversion := sizedKey_version _ (findKey_eq_some h.ready.found).1
  refine ⟨(withLib sizedLib (env 4)).nonce ++ sized.encrypt h.material
    (withLib sizedLib (env 4)).nonce raw (h'.sealing (withLib sizedLib (env 4))).aad,
    h'.sealing (withLib sizedLib (env 4)), ?_, ?_⟩
  · rw [List.length_append, sized_length,
      show (withLib sizedLib (env 4)).nonce.length = 12 from rfl]
    omega
  · rw [call_eq (c := Call.encrypt alice keyName (Base64.encode raw)) rfl
      (transitEncrypt_of_ready h' (withLib sizedLib (env 4)))]
    have hnumber : (World.initial.after sizedCalls).session.db.currentKeyNumber h'.key.id = 1 :=
      hversion
    rw [hnumber]
    rfl

end Sample

open Sample in
/-- 792546 bytes, within the default limit, and the request for their envelope is not. -/
theorem encrypted_not_decryptable :
    (∀ k n p a, (sizedLib.aesgcm.encrypt k n p a).length = p.length + 16) ∧
      ∃ ciphertext w,
        (World.initial.after sizedCalls).call (withLib sizedLib (env 4), .encrypt alice keyName
            (Base64.encode (List.replicate 792546 0))) = (.ok (.ciphertext ciphertext), w) ∧
          w.dek ≠ none ∧
          Passes sizedLib {} (encryptRequest keyName (Base64.encode (List.replicate 792546 0))) ∧
          ¬ Passes sizedLib {} (decryptRequest ciphertext) := by
  have hunlocked : (World.initial.after sizedCalls).dek ≠ none := by decide +kernel
  have hname : validateKeyName keyName = .ok () := by decide +kernel
  have hkey : keyName.length = 5 := rfl
  have hstr : (str (1 : Nat)).length = 1 := rfl
  have hraw : ∃ raw : Bytes, raw = List.replicate 792546 0 ∧ raw.length = 792546 :=
    ⟨_, rfl, List.length_replicate⟩
  obtain ⟨raw, heq, hlen⟩ := hraw
  rw [← heq]
  have hsmall : raw.length ≤ 1048576 := by omega
  obtain ⟨blob, x, hblob, hcall⟩ := encrypt_sized hsmall
  refine ⟨sized_length, _, _, hcall, hunlocked, ?_, ?_⟩
  · rw [passes_encryptRequest hname hsmall, hkey, hlen]
    decide
  · rw [passes_decryptRequest (by decide) hname hsmall hblob, decryptSize, hkey, hlen, hstr]
    decide

open Sample in
theorem decryptable_iff_sample :
    Passes sizedLib {} (decryptRequest ((envelopeOf sizedEncrypted.1).getD [])) ∧
      ∃ raw, Base64.decode "aGVsbG8=".toList = some raw ∧
        ((sizedEncrypted.2.after (forLib sizedLib later)).call (withLib sizedLib (env 9),
          .decrypt alice ((envelopeOf sizedEncrypted.1).getD []))).1 =
            .ok (.plaintext (Base64.encode raw)) := by
  obtain ⟨c, henc, hc⟩ := sizedEncrypted_eq
  have hname : validateKeyName keyName = .ok () := by decide +kernel
  have hhello : "aGVsbG8=".toList = Base64.encode [104, 101, 108, 108, 111] := by decide +kernel
  obtain ⟨key, hkey⟩ :
      ∃ key, (World.initial.after sizedCalls).db.findKey alice keyName = some key :=
    Option.isSome_iff_exists.1 (by decide +kernel)
  rw [hc]
  refine (decryptable_iff sizedLib sized_correct sized_length sized_derived {} sizedCalls
    (forLib sizedLib later) (withLib sizedLib (env 4)) (withLib sizedLib (env 9)) alice keyName _ c
    _ henc ?_ ?_ (by decide +kernel)).2
    ⟨[104, 101, 108, 108, 111], key, by rw [hhello, Base64.decode_encode], hkey, ?_⟩
  · rw [hhello, passes_encryptRequest hname (by decide)]
    decide
  · intro i r hi hrev
    have hmem := Run.mem_of_mem_trace hi
    simp only [forLib, later, List.map_cons, List.map_nil, List.mem_cons, List.not_mem_nil,
      or_false] at hmem
    rcases hmem with rfl | rfl | rfl | rfl <;> cases hrev
  · rw [sizedKey_version key (findKey_eq_some hkey).1]
    decide

end MiniVault
