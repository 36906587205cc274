/-
  The Transit service shows nothing secret. A named key leaves its wrapping only to be used: what
  `_material` hands out is a payload key, and under such a key nothing but data of clients is
  ever encrypted, whoever made the ciphertext that `decrypt` is given.
-/
import MiniVault.Security.Services

namespace MiniVault

open Kit DolevYao Imp

variable {X : Reading Atom}

section Terms

variable {T : Type}

def KeyMetadata.terms (m : KeyMetadata T) : List T := [m.keyName, m.algorithm, m.createdAt]

def Signed.terms (s : Signed T) : List T := [s.keyName, s.signatureB64, s.signingAlgorithm]

def Verified.terms (v : Verified T) : List T := [v.keyName, v.signingAlgorithm]

end Terms

/-- A key of a user, as it is drawn. -/
def IsKey (m : Term Atom) : Prop := ∃ n, m = .atom (.key n)

section Transit

variable {email name : Term Atom}

theorem TransitKey.Guarded.metadata {k : TransitKey (Term Atom)} (hk : k.Guarded) (aware : Bool)
    (n : Nat) : AllPublic (TransitService.metadata (symbolic X) aware k n).terms := by
  have hcells := hk.1
  simp only [AllPublic, TransitKey.cells, List.cons_append, List.forall_mem_cons] at hcells
  simp only [AllPublic, KeyMetadata.terms, List.forall_mem_cons]
  exact ⟨hcells.1, hcells.2.2.1, public_isoformat (X := X) _ _, by rintro _ ⟨⟩⟩

theorem secures_find (usage : Option KeyUsage) :
    Secures (TransitService.find email name usage : Py (symbolic X) _) TransitKey.Guarded := by
  unfold TransitService.find
  refine secures_requireDek.bind fun _ _ => ?_
  refine (secures_query (Q := fun k => ∀ key, k = some key → key.Guarded) fun db hdb key hkey =>
    hdb.transitKeys key (List.mem_of_find?_eq_some hkey)).bind fun key? hkey => ?_
  rcases key? with _ | key
  · exact ensures_raise _
  · exact .ite (fun _ => ensures_raise_bind _ _) fun _ =>
      .ite (fun _ => ensures_raise_bind _ _) fun _ => ensures_pure (hkey key rfl)

/-- The material of a new version, wrapped. -/
theorem secures_wrap {e : Env (symbolic X)} (he : Drawn e) {dek : Term Atom} (hdek : IsDek dek)
    (aad : Term Atom) :
    Secures (encrypt dek e.key aad : Py (symbolic X) _) fun c =>
      Public ((symbolic X).b64encode c.1) ∧ WrapsKey ((symbolic X).b64encode c.2) := by
  obtain ⟨d, rfl⟩ := hdek
  obtain ⟨k, hk⟩ := he.key
  refine (secures_encrypt _ _ _).mono fun c hc => ?_
  obtain ⟨n, hn, rfl⟩ := hc
  refine ⟨hn, ?_⟩
  rw [hk]
  exact ⟨_, _, _, _, rfl⟩

theorem wrapped_version {id version : Nat} {n c : Term Atom} (hn : Public n) (hc : WrapsKey c) :
    (⟨id, version, c, n⟩ : TransitKeyVersion (Term Atom)).Guarded := by
  refine ⟨?_, hc⟩
  simp only [AllPublic, TransitKeyVersion.cells, List.forall_mem_cons]
  exact ⟨hc.public, hn, by rintro _ ⟨⟩⟩

/-- The row of a new key. -/
theorem wrapped_key {id : Nat} {usage : KeyUsage} {algorithm n c : Term Atom}
    {publicKey : Option (Term Atom)} {now : Time} (hname : Public name) (hemail : Public email)
    (halgorithm : Public algorithm) (hn : Public n) (hc : WrapsKey c)
    (hpublic : AllPublic publicKey.toList) :
    (⟨id, name, email, usage, algorithm, c, n, publicKey, none, now⟩ :
      TransitKey (Term Atom)).Guarded := by
  refine ⟨?_, hc⟩
  simp only [AllPublic, TransitKey.cells, List.cons_append, List.nil_append, List.forall_mem_cons]
  exact ⟨hname, hemail, halgorithm, hc.public, hn, hpublic⟩

theorem secures_createAes (hemail : Public email) (hname : Public name) :
    Secures (TransitService.createAes email name : Py (symbolic X) _) fun m =>
      AllPublic m.terms := by
  unfold TransitService.createAes
  refine (secures_ofExcept _).bind fun _ _ => secures_requireDek.bind fun dek hdek => ?_
  refine (secures_query (Q := fun _ => True) fun _ _ => trivial).bind fun _ _ => ?_
  dsimp only
  refine .ite (fun _ => ensures_raise_bind _ _) fun _ => ?_
  refine ensures_environ.bind fun e he => (secures_wrap he hdek _).bind fun c hc => ?_
  obtain ⟨n, w⟩ := c
  obtain ⟨hn, hw⟩ := hc
  refine (secures_query (Q := fun _ => True) fun _ _ => trivial).bind fun id _ => ?_
  dsimp only
  have hkey : (⟨id, name, email, .encryptDecrypt, (symbolic X).lit "AES-256-GCM",
      (symbolic X).b64encode w, (symbolic X).b64encode n, none, none, e.now⟩ :
        TransitKey (Term Atom)).Guarded :=
    wrapped_key hname hemail (public_const _) hn hw (by rintro _ ⟨⟩)
  refine (secures_update fun db hdb => hdb.addKey hkey).bind fun _ _ => ?_
  refine (secures_update fun db hdb => hdb.addKeyVersion (wrapped_version hn hw)).bind
    fun _ _ => secures_commit.bind fun _ _ => ensures_pure (hkey.metadata _ _)

theorem secures_createSigning (hemail : Public email) (hname : Public name) :
    Secures (TransitService.createSigning email name : Py (symbolic X) _) fun m =>
      AllPublic m.terms := by
  unfold TransitService.createSigning
  refine (secures_ofExcept _).bind fun _ _ => secures_requireDek.bind fun dek hdek => ?_
  refine (secures_query (Q := fun _ => True) fun _ _ => trivial).bind fun _ _ => ?_
  dsimp only
  refine .ite (fun _ => ensures_raise_bind _ _) fun _ => ?_
  refine ensures_environ.bind fun e he => (secures_wrap he hdek _).bind fun c hc => ?_
  obtain ⟨n, w⟩ := c
  obtain ⟨hn, hw⟩ := hc
  refine (secures_query (Q := fun _ => True) fun _ _ => trivial).bind fun id _ => ?_
  dsimp only
  have hkey : (⟨id, name, email, .signVerify, (symbolic X).lit "ED25519",
      (symbolic X).b64encode w, (symbolic X).b64encode n,
      some ((symbolic X).b64encode ((symbolic X).publicKey e.key)), none, e.now⟩ :
        TransitKey (Term Atom)).Guarded :=
    wrapped_key hname hemail (public_const _) hn hw (List.forall_mem_singleton.2 trivial)
  exact (secures_update fun db hdb => hdb.addKey hkey).bind fun _ _ =>
    secures_commit.bind fun _ _ => ensures_pure (hkey.metadata _ _)

theorem secures_keyList :
    Secures (TransitService.list email : Py (symbolic X) _) fun ms =>
      ∀ m ∈ ms, AllPublic m.terms := by
  unfold TransitService.list
  refine secures_requireDek.bind fun _ _ => secures_query fun db hdb => ?_
  exact List.forall_mem_map.2 fun k hk =>
    (hdb.transitKeys k (List.mem_of_mem_filter hk)).metadata _ _

theorem secures_keyGet :
    Secures (TransitService.get email name : Py (symbolic X) _) fun m => AllPublic m.terms :=
  (secures_find none).bind fun _ hkey => secures_query fun _ _ => hkey.metadata _ _

theorem secures_revoke :
    Secures (TransitService.revoke email name : Py (symbolic X) Unit) fun _ => True := by
  unfold TransitService.revoke
  refine (secures_find none).bind fun _ _ => secures_utcnow.bind fun _ _ =>
    (secures_update fun db hdb => hdb.updateKey _ ?_).bind fun _ _ => secures_commit
  exact fun k hk => hk

theorem secures_rotate :
    Secures (TransitService.rotate email name : Py (symbolic X) _) fun m => AllPublic m.terms := by
  unfold TransitService.rotate
  refine (secures_find _).bind fun key hkey => secures_requireDek.bind fun dek hdek => ?_
  refine (secures_query (Q := fun _ => True) fun _ _ => trivial).bind fun current _ => ?_
  dsimp only
  refine ensures_environ.bind fun e he => (secures_wrap he hdek _).bind fun c hc => ?_
  obtain ⟨n, w⟩ := c
  obtain ⟨hn, hw⟩ := hc
  dsimp only
  refine (secures_update fun db hdb => hdb.updateKey _ fun _ hk => hk.rewrap hn hw).bind
    fun _ _ => (secures_ofExcept _).bind fun _ _ => ?_
  refine (secures_update fun db hdb => hdb.addKeyVersion (wrapped_version hn hw)).bind
    fun _ _ => secures_commit.bind fun _ _ => secures_query fun _ _ => hkey.metadata _ _

/-! ## Use of the keys -/

theorem openMaterial_isKey {dek n c aad m : Term Atom} (hc : WrapsKey c)
    (h : TransitService.openMaterial (symbolic X) dek n c aad = .ok m) : IsKey m := by
  obtain ⟨nonce, -, h⟩ := except_bind_eq_ok.1 h
  obtain ⟨w, hw, h⟩ := except_bind_eq_ok.1 h
  obtain ⟨d, k, i, a, hwraps⟩ := hc
  rw [hwraps] at hw
  exact ⟨i, opened_symbolic hw h⟩

theorem secures_openMaterial {dek n c aad : Term Atom} (hc : WrapsKey c) :
    Secures (handle (ofExcept (TransitService.openMaterial (symbolic X) dek n c aad)) fun x =>
      if x = .invalidTag then
        raise (appError .decryptionFailed "Key material could not be decrypted" 400)
      else raise x : Py (symbolic X) _) IsKey :=
  ((secures_ofExcept _).mono fun _ h => openMaterial_isKey hc h).handle fun _ =>
    .ite (fun _ => ensures_raise _) fun _ => ensures_raise _

theorem secures_keyVersion {f : Database (Term Atom) → Option (TransitKeyVersion (Term Atom))}
    (h : ∀ db r, f db = some r → r ∈ db.transitKeyVersions) :
    Secures (query f : Py (symbolic X) _) fun r => ∀ v, r = some v → v.Guarded :=
  secures_query fun db hdb v hv => hdb.transitKeyVersions v (h db v hv)

theorem secures_material {key : TransitKey (Term Atom)} (hkey : key.Guarded)
    (version : Option Nat) :
    Secures (TransitService.material key version : Py (symbolic X) _) IsKey := by
  have hwraps : ∀ record : Option (TransitKeyVersion (Term Atom)),
      (∀ v, record = some v → v.Guarded) →
      WrapsKey ((record.map (·.encryptedKeyMaterialB64)).getD key.encryptedKeyMaterialB64) := by
    intro record hrecord
    rcases record with _ | v
    · exact hkey.2
    · exact (hrecord v rfl).2
  unfold TransitService.material
  dsimp only
  rcases version with _ | k
  · rcases key.keyUsage with _ | _
    · refine (secures_keyVersion fun db r hr => List.mem_of_mem_filter (List.argmax_mem hr)).bind
        fun record hrecord => (ensures_pure (Q := fun r => ∃ n, r = (record, n)) ⟨_, rfl⟩).bind
          fun r hr => ?_
      obtain ⟨n, rfl⟩ := hr
      exact secures_requireDek.bind fun _ _ => secures_openMaterial (hwraps record hrecord)
    · refine (ensures_pure (Q := fun r => ∃ n, r = (none, n)) ⟨_, rfl⟩).bind fun r hr => ?_
      obtain ⟨n, rfl⟩ := hr
      exact secures_requireDek.bind fun _ _ => secures_openMaterial hkey.2
  · refine (secures_ofExcept _).bind fun _ _ => ?_
    refine (secures_keyVersion fun db r hr => List.mem_of_find?_eq_some hr).bind
      fun record hrecord => .ite (fun _ => ensures_raise_bind _ _) fun _ => ?_
    refine (ensures_pure (Q := fun r => ∃ n, r = (record, n)) ⟨_, rfl⟩).bind fun r hr => ?_
    obtain ⟨n, rfl⟩ := hr
    exact secures_requireDek.bind fun _ _ => secures_openMaterial (hwraps record hrecord)

theorem public_envelope {n : Nat} {blob : Term Atom} (hname : Public name) (hblob : Public blob) :
    Public (envelope (symbolic X) n name blob) :=
  ⟨trivial, trivial, trivial, hname, trivial, hblob, trivial⟩

/-- The data of a ciphertext under a named key is data of clients. -/
theorem IsKey.data {m n p a : Term Atom} (hm : IsKey m) (h : Public (.aead m n p a)) :
    Public p := by
  obtain ⟨k, rfl⟩ := hm
  exact h (.inr ⟨_, rfl, trivial⟩)

theorem secures_transitEncrypt {plaintextB64 : Term Atom} (hname : Public name)
    (hplaintext : Public plaintextB64) :
    Secures (TransitService.encrypt email name plaintextB64 : Py (symbolic X) _) Public := by
  unfold TransitService.encrypt
  refine (secures_find _).bind fun key hkey => (secures_ofExcept _).bind fun raw hraw => ?_
  dsimp only
  refine .ite (fun _ => ensures_raise_bind _ _) fun _ => ?_
  refine (secures_query (Q := fun _ => True) fun _ _ => trivial).bind fun version _ => ?_
  refine (secures_material hkey _).bind fun m _ => (secures_encrypt _ _ _).bind fun c hc => ?_
  obtain ⟨n, hn, rfl⟩ := hc
  have hraw' : Public raw := by
    rw [b64d_symbolic hraw] at hplaintext
    exact hplaintext
  exact ensures_pure (public_envelope hname ⟨hn, fun _ => hraw'⟩)

theorem secures_transitDecrypt {ciphertext : Term Atom} (hciphertext : Public ciphertext) :
    Secures (TransitService.decrypt email ciphertext : Py (symbolic X) _) Public := by
  unfold TransitService.decrypt
  refine (secures_ofExcept _).bind fun parts hparts => ?_
  obtain ⟨version, name, blobB64⟩ := parts
  refine (secures_ofExcept _).bind fun blob hblob => ?_
  dsimp only
  refine .ite (fun _ => ensures_raise_bind _ _) fun _ => ?_
  have hpublic : Public ((symbolic X).drop 12 blob) := by
    have hb := hciphertext.derives (X.readEnvelope_derives hparts).2
    rw [b64d_symbolic hblob] at hb
    have hblob' : Public blob := hb
    exact hblob'.derives (symbolic_drop_derives 12 blob)
  refine (secures_find _).bind fun key hkey => ?_
  refine Ensures.bind (Q := Public) ?_ fun raw hraw => ensures_pure hraw
  refine Ensures.handle ?_ fun x => .ite (fun _ => ensures_raise _) fun _ => ensures_raise _
  refine (secures_material hkey _).bind fun m hm => (secures_ofExcept _).mono fun raw hraw => ?_
  rw [decrypt_symbolic hraw] at hpublic
  exact hm.data hpublic

theorem secures_sign {messageB64 : Term Atom} (hname : Public name)
    (hmessage : Public messageB64) (messageType : MessageType) :
    Secures (TransitService.sign email name messageB64 messageType : Py (symbolic X) _) fun s =>
      AllPublic s.terms := by
  unfold TransitService.sign
  refine (secures_find _).bind fun key hkey => (secures_ofExcept _).bind fun message hm => ?_
  dsimp only
  refine .ite (fun _ => ensures_raise_bind _ _) fun _ => ?_
  refine (secures_material hkey _).bind fun m _ => ?_
  refine .ite (fun _ => ensures_raise_bind _ _) fun _ => ensures_pure ?_
  rw [b64d_symbolic hm] at hmessage
  simp only [AllPublic, Signed.terms, List.forall_mem_cons]
  exact ⟨hname, hmessage, public_const _, by rintro _ ⟨⟩⟩

theorem secures_verify {messageB64 signatureB64 : Term Atom} {signingAlgorithm : Option (Term Atom)}
    (hname : Public name) (messageType : MessageType) :
    Secures (TransitService.verify email name messageB64 messageType signatureB64
      signingAlgorithm : Py (symbolic X) _) fun v => AllPublic v.terms := by
  unfold TransitService.verify
  refine (secures_find _).bind fun key hkey => (secures_ofExcept _).bind fun message hm => ?_
  dsimp only
  refine .ite (fun _ => ensures_raise_bind _ _) fun _ =>
    .ite (fun _ => ensures_raise_bind _ _) fun _ => ensures_pure ?_
  simp only [AllPublic, Verified.terms, List.forall_mem_cons]
  exact ⟨hname, public_const _, by rintro _ ⟨⟩⟩

end Transit

end MiniVault
