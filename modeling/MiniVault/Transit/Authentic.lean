/-
  Decryption is authentic. Whatever string a client presents, `decrypt` accepts it only if an
  earlier `encrypt` for the same owner, key name and version made its ciphertext. The version
  and the name a string spells out choose the key material and the associated data, and the
  material of a key version is what a call of the run drew for it.
-/
import MiniVault.Transit.Ring

namespace MiniVault

open Kit

variable {T B J : Type} {P : Prims T B J} [DecidableEq T]

/-! ## Encryptions of a run -/

/-- In the run, an `encrypt` call for the key `name` of `email`, then at version `n`, made `blob`
    of `raw`. -/
def EncryptedIn (is : List (Env P × Call T J)) (email name : T) (n : Nat) (raw blob : B) : Prop :=
  ∃ before e plaintextB64 after, is = before ++ (e, .encrypt email name plaintextB64) :: after ∧
    P.b64decode plaintextB64 = some raw ∧
    (∃ key, (World.initial.after before).db.findKey email name = some key ∧
      (World.initial.after before).db.currentKeyNumber key.id = n) ∧
    ((World.initial.after before).call (e, .encrypt email name plaintextB64)).1 =
      .ok (.ciphertext (envelope P n name blob))

section EncryptedIn

variable {is : List (Env P × Call T J)} {email name : T} {n : Nat} {raw blob : B}

theorem EncryptedIn.concat (h : EncryptedIn is email name n raw blob) (i : Env P × Call T J) :
    EncryptedIn (is ++ [i]) email name n raw blob := by
  obtain ⟨before, e, plaintextB64, after, rfl, h⟩ := h
  exact ⟨before, e, plaintextB64, after ++ [i], by simp, h⟩

/-- The call that encrypted, and that its owner made it. -/
theorem EncryptedIn.call (h : EncryptedIn is email name n raw blob) :
    ∃ i ∈ is, i.2.email? = some email := by
  obtain ⟨before, e, plaintextB64, after, rfl, -⟩ := h
  exact ⟨_, List.mem_append_right _ List.mem_cons_self, rfl⟩

end EncryptedIn

theorem after_concat (w : World T B) (is : List (Env P × Call T J)) (i : Env P × Call T J) :
    w.after (is ++ [i]) = ((w.after is).call i).2 := Run.final_concat w is i

/-! ## The material of a version -/

/-- In an unlocked vault, `_material` returns what a call of the run drew for the version of an
    encryption key, or the version has no row. -/
theorem material_cases (hP : P.Lawful) {is : List (Env P × Call T J)} {key : TransitKey T} {d : B}
    (hd : ((World.initial : World T B).after is).dek = some d)
    (hkey : key ∈ ((World.initial : World T B).after is).db.transitKeys)
    (hu : key.keyUsage = .encryptDecrypt) (n : Nat) :
    (2 ^ 63 ≤ n ∧ ((World.initial : World T B).after is).db.material P d key (some n) =
        .error .overflowError) ∨
      (n < 2 ^ 63 ∧ ((World.initial : World T B).after is).db.material P d key (some n) =
        .error (appError .keyVersionNotFound "Key version not found" 404)) ∨
      ∃ i ∈ is, n < 2 ^ 63 ∧
        ((World.initial : World T B).after is).db.material P d key (some n) = .ok i.1.key := by
  have hrec : KeysRecorded ((World.initial : World T B).trace is) _ := keysRecorded_run is
  rcases keysWrapped_run (B := B) hP is with ⟨-, hkeys, -⟩ | ⟨d', hkeyed, hwraps⟩
  · have hnone : key ∈ ((World.initial : World T B).after is).db.transitKeys := hkey
    rw [hkeys] at hnone
    cases hnone
  obtain rfl : d = d' := hkeyed.loaded d hd
  unfold Database.material
  by_cases hn : 2 ^ 63 ≤ n
  · exact .inl ⟨hn, if_pos hn⟩
  rcases hv : ((World.initial : World T B).after is).db.keyVersion key.id n with _ | v
  · -- the version has no row: it is not version 1, which an encryption key has from the start
    have hne : n ≠ 1 := by
      rintro rfl
      obtain ⟨v₁, hv₁, hid, hone⟩ := hrec.ring.first key hkey hu
      have hnot := List.find?_eq_none.1 hv v₁ hv₁
      rw [decide_eq_true_eq] at hnot
      exact hnot ⟨hid, hone⟩
    refine .inr (.inl ⟨Nat.not_le.1 hn, ?_⟩)
    simp only [if_neg hn, hne, ne_eq, not_false_eq_true, and_self, if_true, hv]
  · obtain ⟨hrow, hid, hnum⟩ := keyVersion_eq_some hv
    obtain ⟨i, r, hi, hform⟩ := hwraps.rows v hrow key hkey hid.symm
    refine .inr (.inr ⟨i, Run.mem_of_mem_trace hi, Nat.not_le.1 hn, ?_⟩)
    simp only [if_neg hn, hv, reduceCtorEq, false_and, if_false]
    have hasked : ((World.initial : World T B).after is).db.recordAsked key (some n) = some v := hv
    unfold openRecord
    rw [hasked, hform, hnum]
    exact hideTag_eq_ok.2 (open_keySealing hP hkeyed.keyOk i.1 _ _ n)

/-- What `decrypt` unwraps is what a call of the run drew for the version. -/
theorem DecryptReady.material_drawn (hP : P.Lawful) {is : List (Env P × Call T J)}
    {email ciphertext : T}
    (h : DecryptReady P ((World.initial : World T B).after is).session email ciphertext) :
    ∃ i ∈ is, h.material = i.1.key := by
  have hopened : ((World.initial : World T B).after is).db.material P h.dek h.key
      (some h.version) = .ok h.material := h.opened
  rcases material_cases hP h.unlocked (findKey_eq_some h.ready.found).1 (h.ready.usageOk _ rfl)
    h.version with ⟨-, hm⟩ | ⟨-, hm⟩ | ⟨i, hi, -, hm⟩
  · cases hm.symm.trans hopened
  · cases hm.symm.trans hopened
  · exact ⟨i, hi, Except.ok.inj (hopened.symm.trans hm)⟩

/-! ## What was encrypted as an envelope -/

section Concrete

variable {F : Type} {L : Lib F} {is : List (Env (concrete L) × Call Text (Json.Value F))}

/-- What a run says of an entry of the log: it is no envelope, or an `encrypt` call made it. -/
def Accounted (is : List (Env (concrete L) × Call Text (Json.Value F))) (x : Sealing Bytes) :
    Prop :=
  (∃ t : Text, x.aad = (concrete L).encode t ∧ t.head? ≠ some 't') ∨
    ∃ email name n, x.aad = (concrete L).encode (transitAad (concrete L) email name n) ∧
      ':' ∉ name ∧ EncryptedIn is email name n x.data
        (x.nonce ++ L.aesgcm.encrypt x.key x.nonce x.data x.aad)

theorem Accounted.concat {x : Sealing Bytes} (h : Accounted is x)
    (i : Env (concrete L) × Call Text (Json.Value F)) : Accounted (is ++ [i]) x :=
  h.imp id fun ⟨email, name, n, haad, hname, henc⟩ => ⟨email, name, n, haad, hname, henc.concat i⟩

theorem keyName_colon {db : Database Text} (hring : db.KeyRing (concrete L)) {email name : Text}
    {key : TransitKey Text} (h : db.findKey email name = some key) : ':' ∉ name := by
  obtain ⟨hmem, -, rfl⟩ := findKey_eq_some h
  exact (keyName_ne (hring.named key hmem)).2

/-- Every entry of the log of a run is accounted for. -/
theorem accounted_run (is : List (Env (concrete L) × Call Text (Json.Value F))) :
    ∀ x ∈ (World.initial.after is).sealings, Accounted is x := by
  induction is using List.reverseRecOn with
  | nil => rintro x ⟨⟩
  | append_singleton is i ih =>
    obtain ⟨e, c⟩ := i
    have hring := Database.KeyRing.after (P := concrete L) keyRing_initial is
    have hs := step_of_call e (World.initial.after is) c
    rw [after_concat]
    generalize hr : ((World.initial.after is).call (e, c)).1 = r at hs
    generalize ((World.initial.after is).call (e, c)).2 = w' at hs ⊢
    have hold : ∀ x ∈ (World.initial.after is).sealings, Accounted (is ++ [(e, c)]) x :=
      fun x hx => (ih x hx).concat _
    have hnew : ∀ y, Accounted (is ++ [(e, c)]) y →
        ∀ x ∈ (World.initial.after is).sealings ++ [y], Accounted (is ++ [(e, c)]) x := by
      intro y hy x hx
      rcases List.mem_append.1 hx with hx | hx
      · exact hold x hx
      · rwa [List.mem_singleton.1 hx]
    have hkey : ∀ email name n, (keyAad (concrete L) email name n).head? ≠ some 't' := by
      intro email name n
      rw [keyAad_head]
      decide
    have hpath : ∀ path email, validatePath path email = .ok () → path.head? ≠ some 't' := by
      intro path email hp
      rw [path_head hp]
      decide
    cases hs with
    | vaultInit p =>
      refine hnew _ (.inl ⟨_, rfl, ?_⟩)
      show "mini-vault-dek-v1".toList.head? ≠ some 't'
      decide
    | kvOverflow hw => exact hnew _ (.inl ⟨_, rfl, hpath _ _ hw.valid⟩)
    | kvCreate hw => exact hnew _ (.inl ⟨_, rfl, hpath _ _ hw.valid⟩)
    | kvUpdate hw => exact hnew _ (.inl ⟨_, rfl, hpath _ _ hw.valid⟩)
    | createAes hc => exact hnew _ (.inl ⟨_, rfl, hkey _ _ _⟩)
    | createSigning hc => exact hnew _ (.inl ⟨_, rfl, hkey _ _ _⟩)
    | rotateOverflow => exact hnew _ (.inl ⟨_, rfl, hkey _ _ _⟩)
    | rotate => exact hnew _ (.inl ⟨_, rfl, hkey _ _ _⟩)
    | @encrypt email name plaintextB64 h =>
      refine hnew _ (.inr ⟨email, name, _, rfl, keyName_colon hring h.ready.found, is, e,
        plaintextB64, [], rfl, h.decoded, ⟨h.key, h.ready.found, rfl⟩, hr⟩)
    | _ => exact hold

theorem envelope_inj {n : Nat} {name : Text} {b b' : Bytes}
    (h : envelope (concrete L) n name b = envelope (concrete L) n name b') : b = b' := by
  have hcancel : Base64.encode b = Base64.encode b' := by
    simpa [envelope, concrete] using h
  have hdecode := Base64.decode_encode b
  rw [hcancel, Base64.decode_encode] at hdecode
  exact (Option.some.inj hdecode).symm

/-- What an `encrypt` call of the run put into its envelope. -/
theorem EncryptedIn.sealed {email name : Text} {n : Nat} {raw blob : Bytes}
    (h : EncryptedIn is email name n raw blob) :
    ':' ∉ name ∧ ∃ (i : Env (concrete L)) (m : Bytes), blob = i.nonce ++ L.aesgcm.encrypt m i.nonce
      raw ((concrete L).encode (transitAad (concrete L) email name n)) := by
  obtain ⟨before, e, plaintextB64, after, -, hraw, ⟨key, hkey, hn⟩, hcall⟩ := h
  obtain ⟨hr, henv, -⟩ := encrypt_call_eq_ok (Prod.ext hcall rfl)
  have hfound : hr.key = key := Option.some.inj (hr.ready.found.symm.trans hkey)
  have hdata : hr.raw = raw := Option.some.inj (hr.decoded.symm.trans hraw)
  have hring := Database.KeyRing.after (P := concrete L) keyRing_initial before
  refine ⟨keyName_colon hring hkey, e, hr.material, ?_⟩
  rw [hfound, hn] at henv
  rw [← hdata, envelope_inj henv, ← hn, ← hfound]
  rfl

theorem DecryptReady.decrypted {s : Proc Text Bytes} {email ciphertext : Text}
    (h : DecryptReady (concrete L) s email ciphertext) :
    L.aesgcm.decrypt h.material (h.blob.take 12) (h.blob.drop 12)
      ((concrete L).encode (transitAad (concrete L) email h.name h.version)) = some h.raw :=
  (decrypt_eq_ok.1 h.plain).2.2

/-- What `decrypt` opens, the owner of the key encrypted, unless it is a forgery under a key the
    run drew. -/
theorem DecryptReady.encryptedIn (hP : (concrete L).Lawful) {email ciphertext : Text}
    (h : DecryptReady (concrete L) (World.initial.after is).session email ciphertext)
    (hgenuine : ∀ i ∈ is, ∀ aad, L.aesgcm.Genuine (World.initial.after is).sealings i.1.key
      (h.blob.take 12) (h.blob.drop 12) aad) :
    EncryptedIn is email h.name h.version h.raw h.blob := by
  obtain ⟨i, hi, hm⟩ := h.material_drawn hP
  have hplain := h.decrypted
  rw [hm] at hplain
  obtain ⟨hmem, hc⟩ := hgenuine i hi _ _ hplain
  have hname := keyName_colon (Database.KeyRing.after (P := concrete L) keyRing_initial is)
    h.ready.found
  have hblob : h.blob = h.blob.take 12 ++ h.blob.drop 12 := (List.take_append_drop 12 h.blob).symm
  rcases accounted_run is _ hmem with ⟨t, ht, hhead⟩ | ⟨email', name', n', heq, hname', henc⟩
  · refine absurd ?_ hhead
    rw [← Utf8.encode_injective ht]
    exact transitAad_head _ _ _
  · obtain ⟨rfl, rfl, rfl⟩ := transitAad_inj_right hname hname' (Utf8.encode_injective heq)
    rw [hblob, hc]
    exact henc

/-- **Decryption is authentic.** In any run, and for any string that is no forgery under a key the
    run drew: if `decrypt` accepts it, the owner of the key that the string names has encrypted
    the very bytes it returns, under the version that the string names while it was current, to
    the very nonce and ciphertext that the string carries; and nobody has encrypted anything to
    these under another owner, key name or version. -/
theorem decrypt_authentic {F : Type} (L : Lib F) (hcorrect : L.aesgcm.Correct)
    (hbound : L.aesgcm.Bound) (is : List (Env (concrete L) × Call Text (Json.Value F)))
    (hcolon : ∀ i ∈ is, ∀ email, i.2.email? = some email → ':' ∉ email)
    (email ciphertext p : Text) (e : Env (concrete L))
    (hgenuine : ∀ n name blobB64 blob, readEnvelope ciphertext = .ok (n, name, blobB64) →
      Base64.decode blobB64 = some blob → ∀ i ∈ is, ∀ aad,
        L.aesgcm.Genuine (World.initial.after is).sealings i.1.key (blob.take 12) (blob.drop 12)
          aad)
    (hdec : ((World.initial.after is).call (e, .decrypt email ciphertext)).1 =
      .ok (.plaintext p)) :
    ∃ n name blobB64 blob raw, readEnvelope ciphertext = .ok (n, name, blobB64) ∧
      Base64.decode blobB64 = some blob ∧ p = Base64.encode raw ∧
      EncryptedIn is email name n raw blob ∧
      ∀ email' name' n' raw', EncryptedIn is email' name' n' raw' blob →
        email' = email ∧ name' = name ∧ n' = n ∧ raw' = raw := by
  obtain ⟨h, rfl⟩ := decrypt_call_eq_ok.1 hdec
  obtain ⟨i, hi, hm⟩ := h.material_drawn (concrete_lawful hcorrect hbound.keyBound)
  have hplain := h.decrypted
  rw [hm] at hplain
  have hring := Database.KeyRing.after (P := concrete L) keyRing_initial is
  have hname := keyName_colon hring h.ready.found
  have hemail : ':' ∉ email := by
    obtain ⟨hkeymem, howner, -⟩ := findKey_eq_some h.ready.found
    obtain ⟨j, r, hj, hcaller⟩ := (recorded_run is).owners h.key hkeymem
    exact hcolon j (Run.mem_of_mem_trace hj) _ (howner ▸ hcaller)
  have hblob : h.blob = h.blob.take 12 ++ h.blob.drop 12 := (List.take_append_drop 12 h.blob).symm
  refine ⟨h.version, h.name, h.blobB64, h.blob, h.raw, h.parsed, h.decoded, rfl,
    h.encryptedIn (concrete_lawful hcorrect hbound.keyBound)
      (hgenuine _ _ _ _ h.parsed h.decoded), ?_⟩
  intro email' name' n' raw' henc
  obtain ⟨hname', j, m, hsealed⟩ := henc.sealed
  obtain ⟨k, hk, hcaller⟩ := henc.call
  -- the same nonce and ciphertext, so the same key and associated data
  rw [hblob] at hsealed
  obtain ⟨hnonce, hcipher⟩ := List.append_inj hsealed (by
    rw [show j.nonce.length = 12 from j.nonce_len]
    exact List.length_take_of_le ((by decide : 12 ≤ 28).trans h.size))
  rw [hnonce, hcipher] at hplain
  obtain ⟨hm', heq⟩ := hbound _ _ _ _ _ _ _ hplain
  rw [hm', heq] at hplain
  have hraw := hcorrect.decrypt_eq hplain
  obtain ⟨rfl, rfl, rfl⟩ := transitAad_inj (hcolon k hk _ hcaller) hemail hname' hname
    (Utf8.encode_injective heq.symm)
  exact ⟨rfl, rfl, rfl, hraw.symm⟩

end Concrete

namespace Sample

/-- A key is made, used, rotated and used again. -/
def envelopeCalls : List SampleCall :=
  opening ++ [(env 3, .createAes alice keyName), (env 4, .encrypt alice keyName "aGVsbG8=".toList),
    (env 5, .rotate alice keyName), (env 6, .encrypt alice keyName "aGVsbG8=".toList)]

/-- What that encrypted first. -/
def firstSealing : Sealing Bytes where
  key := (env 3).key
  nonce := (env 4).nonce
  data := [104, 101, 108, 108, 111]
  aad := (concrete lib).encode (transitAad (concrete lib) alice keyName 1)

/-- The blob of the envelope made first. -/
def firstBlob : Bytes :=
  firstSealing.nonce ++
    aesgcm.encrypt firstSealing.key firstSealing.nonce firstSealing.data firstSealing.aad

def firstEnvelope : Text := envelope (concrete lib) 1 keyName firstBlob

end Sample

open Sample in
theorem decrypt_authentic_sample :
    ∃ n name blobB64 blob raw, readEnvelope firstEnvelope = .ok (n, name, blobB64) ∧
      Base64.decode blobB64 = some blob ∧ "aGVsbG8=".toList = Base64.encode raw ∧
      EncryptedIn envelopeCalls alice name n raw blob := by
  have hread : readEnvelope firstEnvelope = .ok (1, keyName, Base64.encode firstBlob) :=
    readEnvelope_envelope lib (by decide) (by decide) (by decide +kernel) firstBlob
  have hcolon : ∀ i ∈ envelopeCalls, ∀ email, i.2.email? = some email → ':' ∉ email := by
    intro i hi email hemail
    simp only [envelopeCalls, opening, List.cons_append, List.nil_append, List.mem_cons,
      List.not_mem_nil, or_false] at hi
    rcases hi with rfl | rfl | rfl | rfl | rfl | rfl <;> cases hemail <;> decide
  obtain ⟨n, name, blobB64, blob, raw, hparsed, hdecoded, hp, henc, -⟩ :=
    decrypt_authentic lib aesgcm_correct aesgcm_bound envelopeCalls hcolon alice firstEnvelope
      "aGVsbG8=".toList (env 7)
      (fun n name blobB64 blob hparsed hdecoded i _ aad => by
        rw [hread] at hparsed
        cases hparsed
        have hblob : blob = firstBlob :=
          Option.some.inj (hdecoded.symm.trans (Base64.decode_encode _))
        rw [hblob, show firstBlob.drop 12 = _ from List.drop_left' (env 4).nonce_len]
        exact genuine_of_mem (by decide +kernel) _ _ _)
      (plaintextOf_eq_some.1 (by decide +kernel))
  exact ⟨n, name, blobB64, blob, raw, hparsed, hdecoded, hp, henc⟩

end MiniVault
