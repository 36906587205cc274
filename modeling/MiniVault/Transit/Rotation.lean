/-
  What a rotation does to the ciphertexts made before it. The new version gets a row of its own
  and overwrites the key row; the material of version 1 survives only if it has a row too.
-/
import MiniVault.Transit.RoundTrip

namespace MiniVault

open Kit

variable {T B J : Type} {P : Prims T B J} [DecidableEq T]

/-! ## Rotations -/

/-- What the code guarantees of the key tables, those from before the version table included:
    distinct ids, and versions that count from one. -/
structure Database.Admitted (db : Database T) : Prop where
  ids : (db.transitKeys.map (·.id)).Nodup
  positive : ∀ v ∈ db.transitKeyVersions, 1 ≤ v.version

/-- What one or more rotations of the key `name` of `email` do. -/
structure Rotated (P : Prims T B J) (dek : B) (email name : T) (w w' : World T B) : Prop where
  dek_eq : w'.dek = w.dek
  admitted : w'.db.Admitted
  others : ∀ email' name' k, w.db.findKey email' name' = some k →
    ¬ (email' = email ∧ name' = name) → w'.db.findKey email' name' = some k
  itself : ∀ k, w.db.findKey email name = some k → ∃ e : Env P, ∃ n, 2 ≤ n ∧
    w'.db.findKey email name = some (rewrapped P e (keySealing P e email name n dek) k)
  kept : ∀ id n v, w.db.keyVersion id n = some v → w'.db.keyVersion id n = some v
  absent : ∀ id, w.db.keyVersion id 1 = none → w'.db.keyVersion id 1 = none

theorem Rotated.trans {dek : B} {email name : T} {w w' w'' : World T B}
    (h : Rotated P dek email name w w') (h' : Rotated P dek email name w' w'') :
    Rotated P dek email name w w'' where
  dek_eq := h'.dek_eq.trans h.dek_eq
  admitted := h'.admitted
  others email' name' k hk hne := h'.others _ _ k (h.others _ _ k hk hne) hne
  itself k hk := by
    obtain ⟨e, n, -, h₁⟩ := h.itself k hk
    obtain ⟨e', n', hn', h₂⟩ := h'.itself _ h₁
    exact ⟨e', n', hn', h₂⟩
  kept id n v hv := h'.kept id n v (h.kept id n v hv)
  absent id hid := h'.absent id (h.absent id hid)

/-- A `rotate` call that returned. -/
theorem rotate_call_eq_ok {w w' : World T B} {e : Env P} {email name : T} {d : Data T J}
    (h : w.call (e, .rotate email name) = (.ok d, w')) :
    ∃ key dek, FindReady w.session email name (some .encryptDecrypt) key ∧ w.dek = some dek ∧
      w' = w.wrote (w.db.keyRotate P e key email name dek)
        (keySealing P e email name (w.db.currentKeyNumber key.id + 1) dek) := by
  have hs := step_of_call e w (.rotate email name : Call T J)
  rw [h] at hs
  cases hs with
  | view _ hc => cases hc
  | rotate hf hd hv => exact ⟨_, _, hf, hd, rfl⟩

theorem rotate_rotated {dek : B} {email name : T} {e : Env P} {w w' : World T B} {d : Data T J}
    (hw : w.db.Admitted) (hdek : w.dek = some dek)
    (h : w.call (e, .rotate email name) = (.ok d, w')) : Rotated P dek email name w w' := by
  obtain ⟨key, dek', hf, hd, rfl⟩ := rotate_call_eq_ok h
  have hd' : dek' = dek := Option.some.inj (hd.symm.trans hdek)
  subst hd'
  obtain ⟨hmem, howner, hname⟩ := findKey_eq_some hf.found
  have hnext : 2 ≤ w.db.currentKeyNumber key.id + 1 :=
    Nat.succ_le_succ (one_le_currentKeyNumber hw.positive key.id)
  refine ⟨rfl, ⟨?_, ?_⟩, fun email' name' k hk hne => ?_, fun k hk => ?_,
    fun id n v hv => Table.find?_concat hv _, fun id hid => ?_⟩
  · have hmap : (w.db.keyRotate P e key email name dek').transitKeys.map (·.id) =
        w.db.transitKeys.map (·.id) := Table.map_updated fun _ => rfl
    rw [wrote_db, hmap]
    exact hw.ids
  · intro v hv
    rcases List.mem_append.1 hv with hv | hv
    · exact hw.positive v hv
    · rw [List.mem_singleton.1 hv]
      exact Nat.le_add_left 1 _
  · obtain ⟨hmem', howner', hname'⟩ := findKey_eq_some hk
    have hid : k.id ≠ key.id := by
      intro hid
      have heq := Table.eq_of_key hw.ids hmem' hmem hid
      subst heq
      exact hne ⟨howner'.symm.trans howner, hname'.symm.trans hname⟩
    rw [wrote_db, findKey_keyRotate, hk, Option.map_some, Table.updated, if_neg hid]
  · have hkey : k = key := Option.some.inj (hk.symm.trans hf.found)
    subst hkey
    refine ⟨e, w.db.currentKeyNumber k.id + 1, hnext, ?_⟩
    rw [wrote_db, findKey_keyRotate, hk, Option.map_some, Table.updated, if_pos rfl]
  · refine List.find?_eq_none.2 fun v hv => ?_
    rcases List.mem_append.1 hv with hv | hv
    · exact List.find?_eq_none.1 hid v hv
    · rw [List.mem_singleton.1 hv]
      have hnew : ¬ (key.id = id ∧ w.db.currentKeyNumber key.id + 1 = 1) := by omega
      simpa [newKeyVersion] using hnew

/-- A run of rotations of one key, one after the other. -/
def rotations (P : Prims T B J) (email name : T) (es : List (Env P)) :
    List (Env P × Call T J) :=
  es.map fun e => (e, .rotate email name)

theorem rotations_rotated {dek : B} {email name : T} {w : World T B} {es : List (Env P)}
    (hw : w.db.Admitted) (hdek : w.dek = some dek) (hne : es ≠ [])
    (hok : ∀ i r, (i, r) ∈ w.trace (rotations P email name es) → ∃ d, r = .ok d) :
    Rotated P dek email name w (w.after (rotations P email name es)) := by
  induction es generalizing w with
  | nil => exact absurd rfl hne
  | cons e es ih =>
    obtain ⟨d, hd⟩ := hok _ _ List.mem_cons_self
    have hfirst : Rotated P dek email name w (w.call (e, .rotate email name)).2 :=
      rotate_rotated hw hdek (Prod.ext hd rfl)
    by_cases hes : es = []
    · subst hes
      exact hfirst
    · exact hfirst.trans (ih hfirst.admitted (hfirst.dek_eq.trans hdek) hes
        fun i r hi => hok i r (List.mem_cons_of_mem _ hi))

/-! ## Ciphertexts across rotations -/

/-- The envelope names the key at version 1, and the key has no row for that version. -/
def Database.Strands (P : Prims T B J) (db : Database T) (email name ciphertext : T) : Prop :=
  ∃ blob key, P.readEnvelope ciphertext = .ok (1, name, blob) ∧
    db.findKey email name = some key ∧ db.keyVersion key.id 1 = none

theorem decrypt_call_eq_ok {w : World T B} {e : Env P} {email ciphertext p : T} :
    (w.call (e, (.decrypt email ciphertext : Call T J))).1 = .ok (.plaintext p) ↔
      ∃ h : DecryptReady P w.session email ciphertext, P.b64encode h.raw = p := by
  constructor
  · intro h
    rcases transitDecrypt_cases email ciphertext e w.session with ⟨x, hx⟩ | ⟨⟨hr⟩⟩
    · rw [call_eq (c := Call.decrypt email ciphertext) rfl hx] at h
      cases h
    · rw [call_eq (c := Call.decrypt email ciphertext) rfl (transitDecrypt_of_ready hr e)] at h
      cases h
      exact ⟨hr, rfl⟩
  · rintro ⟨hr, rfl⟩
    rw [call_eq (c := Call.decrypt email ciphertext) rfl (transitDecrypt_of_ready hr e)]
    rfl

section Across

variable {w w' : World T B} {email name ciphertext : T} {dek : B}

/-- Rotations do not hide a key: it is found as before, with its own ciphertext overwritten if it
    is the one that was rotated. -/
theorem Rotated.ready (hr : Rotated P dek email name w w') {name' : T} {key : TransitKey T}
    {usage : Option KeyUsage} (h : FindReady w.session email name' usage key) :
    ∃ key', FindReady w'.session email name' usage key' ∧ key'.id = key.id ∧
      key'.ownerEmail = key.ownerEmail ∧ key'.keyName = key.keyName ∧
        (name' ≠ name → key' = key) := by
  have hunlocked : ∃ k, w'.dek = some k := by
    rw [hr.dek_eq]
    exact h.unlocked
  by_cases hname : name' = name
  · subst hname
    obtain ⟨e, n, -, hk⟩ := hr.itself key h.found
    exact ⟨_, ⟨hunlocked, hk, h.live, h.usageOk⟩, rfl, rfl, rfl, fun hne => absurd rfl hne⟩
  · have hk := hr.others email name' key h.found fun hboth => hname hboth.2
    exact ⟨key, ⟨hunlocked, hk, h.live, h.usageOk⟩, rfl, rfl, rfl, fun _ => rfl⟩

/-- An envelope that is not stranded opens after the rotations as it did before. -/
theorem Rotated.decrypt (hr : Rotated P dek email name w w')
    (h : DecryptReady P w.session email ciphertext)
    (hns : ¬ w.db.Strands P email name ciphertext) :
    ∃ h' : DecryptReady P w'.session email ciphertext, h'.raw = h.raw := by
  obtain ⟨key', hready, hid, howner, hname, hsame⟩ := hr.ready h.ready
  obtain ⟨hb, hopen⟩ := material_eq_ok.1 h.opened
  obtain ⟨hlt, hone⟩ := hb h.version rfl
  have hdek : w'.session.dek = some h.dek := hr.dek_eq.trans h.unlocked
  have hopened : w'.db.material P h.dek key' (some h.version) = .ok h.material := by
    rcases hrow : w.db.keyVersion h.key.id h.version with _ | v
    · -- only version 1 can be read without a row, and not of the rotated key
      have hversion := hone hrow
      have hne : h.name ≠ name := by
        rintro rfl
        refine hns ⟨h.blobB64, h.key, ?_, h.ready.found, ?_⟩
        · rw [← hversion]
          exact h.parsed
        · rw [← hversion]
          exact hrow
      rw [hsame hne]
      have hrow' : w'.db.keyVersion h.key.id h.version = none := by
        rw [hversion] at hrow ⊢
        exact hr.absent _ hrow
      refine material_eq_ok.2 ⟨?_, ?_⟩
      · rintro _ ⟨⟩
        exact ⟨hlt, fun _ => hversion⟩
      · simp only [Database.recordAsked, Database.versionAsked] at hopen ⊢
        rw [hrow']
        rw [show w.session.db.keyVersion h.key.id h.version = none from hrow] at hopen
        exact hopen
    · have hrow' : w'.db.keyVersion key'.id h.version = some v := by
        rw [hid]
        exact hr.kept _ _ _ hrow
      refine material_eq_ok.2 ⟨?_, ?_⟩
      · rintro _ ⟨⟩
        exact ⟨hlt, fun hnone => absurd (hrow'.symm.trans hnone) (by simp)⟩
      · simp only [Database.recordAsked, Database.versionAsked, openRecord] at hopen ⊢
        rw [show w.session.db.keyVersion h.key.id h.version = some v from hrow] at hopen
        rw [hrow', howner, hname]
        exact hopen
  exact ⟨{ h with
    key := key'
    ready := hready
    unlocked := hdek
    opened := hopened }, rfl⟩

/-- A stranded envelope does not open after the rotations: the key row now holds a later version,
    sealed under other associated data. -/
theorem Rotated.not_decrypt (hr : Rotated P dek email name w w')
    (hP : ∀ b, P.b64decode (P.b64encode b) = some b) (haad : P.aesgcm.AadBound)
    (hsep : ∀ n, 2 ≤ n → P.encode (keyAad P email name n) ≠ P.encode (keyAad P email name 1))
    (hdek : w.dek = some dek) (hs : w.db.Strands P email name ciphertext) :
    IsEmpty (DecryptReady P w'.session email ciphertext) := by
  obtain ⟨blob, key, hparsed, hkey, hrow⟩ := hs
  obtain ⟨e, n, hn, hkey'⟩ := hr.itself key hkey
  obtain ⟨-, howner, hname⟩ := findKey_eq_some hkey
  refine ⟨fun h => ?_⟩
  have hread := hparsed.symm.trans h.parsed
  simp only [Except.ok.injEq, Prod.mk.injEq] at hread
  have hfound : h.key = rewrapped P e (keySealing P e email name n dek) key := by
    have hf := h.ready.found
    rw [← hread.2.1] at hf
    exact Option.some.inj (hf.symm.trans hkey')
  have hd : h.dek = dek := Option.some.inj (h.unlocked.symm.trans (hr.dek_eq.trans hdek))
  have hopen := (material_eq_ok.1 h.opened).2
  rw [← hread.1, hfound, hd] at hopen
  have hrow' : w'.session.db.keyVersion key.id 1 = none := hr.absent _ hrow
  simp only [Database.recordAsked, Database.versionAsked, openRecord, rewrapped, hrow',
    Option.map_none, Option.getD_none, howner, hname, TransitService.openMaterial, b64d, cipherText,
    hP] at hopen
  exact hsep n hn (haad _ _ _ _ _ _ (decrypt_eq_ok.1 hopen).2.2).symm

end Across

/-- Version 1 has associated data of its own: no suffix. -/
theorem keyAad_ne_first {F : Type} (L : Lib F) (email name : Text) (n : Nat) (hn : 2 ≤ n) :
    (concrete L).encode (keyAad (concrete L) email name n) ≠
      (concrete L).encode (keyAad (concrete L) email name 1) := by
  intro h
  have htext : keyAad (concrete L) email name n = keyAad (concrete L) email name 1 :=
    Utf8.encode_injective h
  unfold keyAad at htext
  rw [if_neg (by omega), if_pos rfl] at htext
  have hlen := congrArg List.length htext
  simp [concrete] at hlen

/-- After any number of rotations of a key, an envelope that opened before still opens to the same
    bytes if and only if it does not depend on a version 1 that has no row. -/
theorem decrypt_after_rotations_iff {F : Type} (L : Lib F) (haad : L.aesgcm.AadBound)
    (w : World Text Bytes) (hw : w.db.Admitted) (email name ciphertext p : Text)
    (e e' : Env (concrete L))
    (hdec : (w.call (e, (.decrypt email ciphertext : Call Text (Json.Value F)))).1 =
      .ok (.plaintext p))
    (es : List (Env (concrete L))) (hne : es ≠ [])
    (hok : ∀ i r, (i, r) ∈ w.trace (rotations (concrete L) email name es) → ∃ d, r = .ok d) :
    ((w.after (rotations (concrete L) email name es)).call (e', .decrypt email ciphertext)).1 =
        .ok (.plaintext p) ↔
      ¬ w.db.Strands (concrete L) email name ciphertext := by
  obtain ⟨h, hp⟩ := decrypt_call_eq_ok.1 hdec
  have hdek : w.dek = some h.dek := h.unlocked
  have hr := rotations_rotated hw hdek hne hok
  constructor
  · intro hafter hs
    obtain ⟨h', -⟩ := decrypt_call_eq_ok.1 hafter
    exact (hr.not_decrypt Base64.decode_encode haad (keyAad_ne_first L email name) hdek hs).false h'
  · intro hns
    obtain ⟨h', hraw⟩ := hr.decrypt h hns
    exact decrypt_call_eq_ok.2 ⟨h', by rw [hraw, hp]⟩

namespace Sample

/-- A vault whose key dates from before the version table. -/
def legacyVault : World Text Bytes :=
  let w := World.initial.after (opening ++ [(env 3, .createAes alice keyName)])
  { w with db := { w.db with transitKeyVersions := [] } }

/-- The plaintext of a response. -/
def plaintextOf : Except Exc (Data Text (Json.Value Unit)) → Option Text
  | .ok (.plaintext p) => some p
  | _ => none

/-- Did the call return? -/
def returned : Except Exc (Data Text (Json.Value Unit)) → Bool
  | .ok _ => true
  | .error _ => false

def legacyEnvelope : Text :=
  (envelopeOf (legacyVault.call (env 4, .encrypt alice keyName "aGVsbG8=".toList)).1).getD []

theorem plaintextOf_eq_some {r : Except Exc (Data Text (Json.Value Unit))} {p : Text} :
    plaintextOf r = some p ↔ r = .ok (.plaintext p) := by
  unfold plaintextOf
  split
  · simp
  · rename_i hr
    exact ⟨by rintro ⟨⟩, fun h => absurd h (hr p)⟩

theorem exists_of_returned {r : Except Exc (Data Text (Json.Value Unit))}
    (h : returned r = true) : ∃ d, r = .ok d := by
  rcases r with x | d
  · cases h
  · exact ⟨d, rfl⟩

theorem legacy_decrypt : (legacyVault.call (env 5, .decrypt alice legacyEnvelope)).1 =
    .ok (.plaintext "aGVsbG8=".toList) :=
  plaintextOf_eq_some.1 (by decide +kernel)

theorem legacy_rotate : ∃ d, (legacyVault.call (env 6, .rotate alice keyName)).1 = .ok d :=
  exists_of_returned (by decide +kernel)

end Sample

open Sample in
theorem decrypt_after_rotations_iff_sample :
    ((legacyVault.after (rotations (concrete lib) alice keyName [env 6])).call
        (env 7, .decrypt alice legacyEnvelope)).1 = .ok (.plaintext "aGVsbG8=".toList) ↔
      ¬ legacyVault.db.Strands (concrete lib) alice keyName legacyEnvelope := by
  refine decrypt_after_rotations_iff lib aesgcm_aadBound legacyVault
    ⟨by decide +kernel, by rintro _ ⟨⟩⟩ alice keyName legacyEnvelope _ (env 5) (env 7)
    legacy_decrypt [env 6] (by simp) ?_
  intro i r hi
  rcases List.mem_singleton.1 hi with ⟨rfl, rfl⟩
  exact legacy_rotate

open Sample in
/-- A key from before the version table: what it encrypted is lost at its first rotation. -/
theorem rotation_strands :
    (legacyVault.call (env 5, .decrypt alice legacyEnvelope)).1 =
        .ok (.plaintext "aGVsbG8=".toList) ∧
      (∃ d, (legacyVault.call (env 6, .rotate alice keyName)).1 = .ok d) ∧
      ((legacyVault.call (env 6, .rotate alice keyName)).2.call
          (env 7, .decrypt alice legacyEnvelope)).1 ≠ .ok (.plaintext "aGVsbG8=".toList) := by
  refine ⟨legacy_decrypt, legacy_rotate, fun h => ?_⟩
  have hnone : plaintextOf ((legacyVault.call (env 6, .rotate alice keyName)).2.call
      (env 7, .decrypt alice legacyEnvelope)).1 = none := by decide +kernel
  rw [plaintextOf_eq_some.2 h] at hnone
  cases hnone

end MiniVault
