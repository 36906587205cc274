/-
  What the services return may be shown: a triple for each operation, from the inputs of the
  clients to the terms of the answer, with the tables guarded throughout.
-/
import MiniVault.Kit.Ensures
import MiniVault.Security.Guarded

namespace MiniVault

open Kit DolevYao Imp

variable {X : Reading Atom} {α : Type}

/-- What a request works on: guarded tables, and no key loaded but a data key. -/
structure Proc.Guarded (s : Proc (Term Atom) (Term Atom)) : Prop where
  db : s.db.Guarded
  committed : s.committed.Guarded
  dek : ∀ d, s.dek = some d → ∃ n, d = .atom (.dek n)

/-- On random draws, `m` keeps the tables guarded and returns what `Q` says. -/
abbrev Secures (m : Py (symbolic X) α) (Q : α → Prop) : Prop :=
  Ensures Drawn Proc.Guarded m Q

/-! ## Rules -/

theorem secures_query {f : Database (Term Atom) → α} {Q : α → Prop}
    (h : ∀ db, db.Guarded → Q (f db)) : Secures (query f : Py (symbolic X) α) Q :=
  ensures_gets fun s hs => h s.db hs.db

theorem secures_update {f : Database (Term Atom) → Database (Term Atom)}
    (h : ∀ db, db.Guarded → (f db).Guarded) :
    Secures (update f : Py (symbolic X) Unit) fun _ => True :=
  ensures_modify fun s hs => ⟨h s.db hs.db, hs.committed, hs.dek⟩

theorem secures_commit : Secures (commit : Py (symbolic X) Unit) fun _ => True :=
  ensures_modify fun _ hs => ⟨hs.db, hs.db, hs.dek⟩

theorem secures_utcnow : Secures (utcnow : Py (symbolic X) Time) fun _ => True :=
  ensures_environ.bind fun _ _ => ensures_pure trivial

/-- An operation whose result is no term. -/
theorem secures_ofExcept (x : Except Exc α) :
    Secures (ofExcept x : Py (symbolic X) α) fun a => x = .ok a :=
  ensures_ofExcept fun _ h => h

/-- The key in the vault state is a data key. -/
def IsDek (d : Term Atom) : Prop := ∃ n, d = .atom (.dek n)

theorem secures_requireDek : Secures (requireDek : Py (symbolic X) (Term Atom)) IsDek := by
  unfold requireDek
  refine (ensures_gets (Q := fun dek => ∀ d, dek = some d → IsDek d) fun s hs => hs.dek).bind
    fun dek hdek => ?_
  rcases dek with _ | dek
  · exact ensures_raise _
  · exact ensures_pure (hdek dek rfl)

/-- An encryption, as a term. -/
theorem secures_encrypt (key data aad : Term Atom) :
    Secures (encrypt key data aad : Py (symbolic X) (Term Atom × Term Atom)) fun c =>
      ∃ n, Public n ∧ c = (n, .aead key n data aad) := by
  unfold encrypt
  refine ensures_environ.bind fun e he => (secures_ofExcept _).bind fun c hc =>
    (ensures_modify fun s hs => ⟨hs.db, hs.committed, hs.dek⟩).bind fun _ _ => ensures_pure ?_
  unfold gcmSeal at hc
  split at hc
  · cases hc
    obtain ⟨n, hn⟩ := he.nonce
    refine ⟨e.nonce, ?_, rfl⟩
    rw [hn]
    exact public_nonce n
  · cases hc

theorem decrypt_symbolic {key nonce c aad p : Term Atom}
    (h : decrypt (symbolic X) key nonce c aad = .ok p) : c = .aead key nonce p aad := by
  unfold decrypt at h
  split at h
  · split at h
    · cases h
    · split at h
      · rename_i q hq
        rw [← Except.ok.inj h]
        exact symbolic_decrypt hq
      · cases h
  · cases h

theorem b64d_symbolic {t u : Term Atom} {code : ErrorCode} (h : b64d (symbolic X) t code = .ok u) :
    t = .code "base64" u := by
  unfold b64d at h
  split at h
  · rename_i b hb
    rw [← Except.ok.inj h]
    exact symbolic_b64decode hb
  · cases h

/-- Base64 of a ciphertext opens to its plaintext. -/
theorem opened_symbolic {key nonce aad k n p a c d : Term Atom} {code : ErrorCode}
    (hc : b64d (symbolic X) (.code "base64" (.aead k n p a)) code = .ok c)
    (hd : decrypt (symbolic X) key nonce c aad = .ok d) : d = p := by
  have hcode := b64d_symbolic hc
  injection hcode with _ hcode
  have hdec := decrypt_symbolic hd
  rw [← hcode] at hdec
  injection hdec with _ _ hp _
  exact hp.symm

/-! ## Vault -/

theorem secures_lockState : Secures (lockState : Py (symbolic X) Unit) fun _ => True :=
  ensures_modify fun _ hs => ⟨hs.db, hs.committed, by rintro _ ⟨⟩⟩

theorem secures_init {p c : Term Atom} (hp : p = c → p = .atom .master) :
    Secures (VaultService.init p c : Py (symbolic X) Unit) fun _ => True := by
  unfold VaultService.init
  refine (secures_query (Q := fun _ => True) fun _ _ => trivial).bind fun config _ => ?_
  dsimp only
  refine .ite (fun _ => ensures_raise_bind _ _) fun _ => ?_
  refine .ite (fun _ => ensures_raise_bind _ _) fun hpc => ?_
  rw [not_not] at hpc
  refine (secures_ofExcept _).bind fun _ _ => ensures_environ.bind fun e he => ?_
  refine (secures_encrypt _ _ _).bind fun c hc => ?_
  obtain ⟨n, hn, rfl⟩ := hc
  obtain ⟨k, hk⟩ := he.salt
  obtain ⟨d, hd⟩ := he.dek
  have hwraps : WrapsDek ((symbolic X).b64encode (.aead ((symbolic X).deriveKey p e.salt
      (symbolic X).defaultParams) n e.dek (dekAad (symbolic X)))) := by
    rw [hd, hp hpc]
    exact ⟨_, _, _, _, _, rfl⟩
  have hsalt : Public e.salt := by
    rw [hk]
    exact fun h => h
  refine (secures_update fun db hdb => hdb.addConfig ⟨?_, hwraps⟩).bind fun _ _ =>
    secures_commit.bind fun _ _ => secures_lockState
  simp only [AllPublic, VaultConfig.cells, List.forall_mem_cons]
  exact ⟨hsalt, public_const _, hwraps.public, hn, by rintro _ ⟨⟩⟩

/-- Whatever passphrase opens the configuration, it opens to a data key. -/
theorem unwrapDek_isDek {c : VaultConfig (Term Atom)} (hc : c.Guarded) {p d : Term Atom}
    (h : VaultService.unwrapDek (symbolic X) c p = .ok d) : IsDek d := by
  obtain ⟨salt, -, h⟩ := except_bind_eq_ok.1 h
  obtain ⟨n, -, h⟩ := except_bind_eq_ok.1 h
  obtain ⟨w, hw, h⟩ := except_bind_eq_ok.1 h
  obtain ⟨s, q, m, k, a, hwraps⟩ := hc.2
  rw [hwraps] at hw
  exact ⟨k, opened_symbolic hw h⟩

theorem secures_unlock (p : Term Atom) :
    Secures (VaultService.unlock p : Py (symbolic X) Unit) fun _ => True := by
  unfold VaultService.unlock
  refine (secures_query (Q := fun c => ∀ config, c = some config → config.Guarded)
    fun db hdb config hc => hdb.vaultConfig config (List.mem_of_head? hc)).bind fun config hc => ?_
  rcases config with _ | config
  · exact ensures_raise _
  refine Ensures.bind (Q := IsDek) ?_ fun dek hdek =>
    ensures_modify fun s hs => ⟨hs.db, hs.committed, by rintro _ ⟨⟩; exact hdek⟩
  refine Ensures.handle ?_ fun x => .ite (fun _ => ensures_raise _) fun _ => ensures_raise _
  exact (secures_ofExcept _).mono fun _ h => unwrapDek_isDek (hc config rfl) h

theorem secures_status : Secures (VaultService.status : Py (symbolic X) _) fun _ => True :=
  (secures_query (Q := fun _ => True) fun _ _ => trivial).bind fun _ _ =>
    (ensures_gets (Q := fun _ => True) fun _ _ => trivial).bind fun _ _ => ensures_pure trivial

/-! ## KV -/

section Terms

variable {T J : Type}

def KVWritten.terms (r : KVWritten T) : List T := [r.path, r.createdAt, r.updatedAt]

def KVVersion.terms (r : KVVersion T) : List T := [r.createdAt]

def KVListed.terms (r : KVListed T) : List T := [r.path, r.createdAt, r.updatedAt]

def KVValue.terms (r : KVValue T T) : List T := [r.path, r.value]

end Terms

theorem public_isoformat (aware : Bool) (t : Time) : Public ((symbolic X).isoformat aware t) :=
  ⟨trivial, trivial⟩

section Kv

variable {path email data : Term Atom}

/-- The item that a lookup finds. -/
theorem secures_findItem {f : Database (Term Atom) → Option (KVSecret (Term Atom))}
    (h : ∀ db r, f db = some r → r ∈ db.kvSecrets) :
    Secures (query f : Py (symbolic X) _) fun r => ∀ item, r = some item → item.Guarded :=
  secures_query fun db hdb item hitem => hdb.kvSecrets item (h db item hitem)

theorem secures_findVersion {f : Database (Term Atom) → Option (KVSecretVersion (Term Atom))}
    (h : ∀ db r, f db = some r → r ∈ db.kvSecretVersions) :
    Secures (query f : Py (symbolic X) _) fun r => ∀ v, r = some v → v.Guarded :=
  secures_query fun db hdb v hv => hdb.kvSecretVersions v (h db v hv)

theorem currentKvVersion_mem (db : Database (Term Atom)) (id : Nat)
    (v : KVSecretVersion (Term Atom)) (h : db.currentKvVersion id = some v) :
    v ∈ db.kvSecretVersions :=
  List.mem_of_mem_filter (List.argmax_mem h)

theorem secures_write (hpath : Public path) (hemail : Public email) (hdata : Public data) :
    Secures (KVService.write path email data : Py (symbolic X) _) fun r => AllPublic r.terms := by
  unfold KVService.write
  refine (secures_ofExcept _).bind fun _ _ => secures_requireDek.bind fun dek hdek => ?_
  refine (secures_ofExcept _).bind fun raw hraw => ?_
  dsimp only
  refine .ite (fun _ => ensures_raise_bind _ _) fun _ => ?_
  refine (secures_encrypt _ _ _).bind fun c hc => ?_
  obtain ⟨n, hn, rfl⟩ := hc
  have hseals : SealsData ((symbolic X).b64encode
      (.aead dek n raw ((symbolic X).encode path))) := by
    obtain ⟨d, rfl⟩ := hdek
    exact ⟨_, _, _, _, rfl, hdata.derives (X.dumps_derives hraw)⟩
  have hnonce : Public ((symbolic X).b64encode n) := hn
  have hversion : ∀ id version now,
      (⟨id, version, (symbolic X).b64encode n, _, now⟩ : KVSecretVersion (Term Atom)).Guarded :=
    fun id version now => ⟨by
      simp only [AllPublic, KVSecretVersion.cells, List.forall_mem_cons]
      exact ⟨hn, hseals.public, by rintro _ ⟨⟩⟩, hseals⟩
  refine (secures_findItem fun db r hr => List.mem_of_find?_eq_some hr).bind fun item? hitem => ?_
  refine secures_utcnow.bind fun now _ => ?_
  rcases item? with _ | item
  · refine ensures_environ.bind fun e _ =>
      (secures_query (Q := fun _ => True) fun _ _ => trivial).bind fun id _ => ?_
    refine (secures_update fun db hdb => hdb.addKvSecret ⟨?_, hseals⟩).bind fun _ _ => ?_
    · simp only [AllPublic, KVSecret.cells, List.forall_mem_cons]
      exact ⟨hpath, hemail, hn, hseals.public, by rintro _ ⟨⟩⟩
    refine (secures_update fun db hdb => hdb.addKvVersion (hversion id 1 now)).bind fun _ _ =>
      secures_commit.bind fun _ _ => ensures_pure ?_
    simp only [AllPublic, KVWritten.terms, List.forall_mem_cons]
    exact ⟨hpath, public_isoformat _ _, public_isoformat _ _, by rintro _ ⟨⟩⟩
  · have hcells := (hitem item rfl).1
    simp only [AllPublic, KVSecret.cells, List.forall_mem_cons] at hcells
    refine (secures_findVersion fun db r hr => currentKvVersion_mem db _ r hr).bind
      fun latest _ => ?_
    dsimp only
    refine (secures_update fun db hdb => hdb.setKvCiphertext _ hnonce hseals _).bind fun _ _ =>
      (secures_ofExcept _).bind fun _ _ => ?_
    refine (secures_update fun db hdb => hdb.addKvVersion (hversion _ _ now)).bind fun _ _ =>
      secures_commit.bind fun _ _ => ensures_pure ?_
    simp only [AllPublic, KVWritten.terms, List.forall_mem_cons]
    exact ⟨hcells.1, public_isoformat _ _, public_isoformat _ _, by rintro _ ⟨⟩⟩

/-- A sealed text opens to public data. -/
theorem openSecret_public {dek n c v : Term Atom} (hc : SealsData c)
    (h : KVService.openSecret (symbolic X) dek n c path = .ok v) : Public v := by
  obtain ⟨nonce, -, h⟩ := except_bind_eq_ok.1 h
  obtain ⟨w, hw, h⟩ := except_bind_eq_ok.1 h
  obtain ⟨raw, hraw, h⟩ := except_bind_eq_ok.1 h
  obtain ⟨d, m, p, a, hseals, hp⟩ := hc
  rw [hseals] at hw
  have hraw := opened_symbolic hw hraw
  subst hraw
  exact hp.derives (X.loads_derives h)

theorem secures_openSecret {dek n c : Term Atom} (hc : SealsData c) :
    Secures (handle (ofExcept (KVService.openSecret (symbolic X) dek n c path)) fun x =>
      if x = .invalidTag ∨ x.isValueError then
        raise (appError .decryptionFailed "Secret could not be decrypted" 400)
      else raise x : Py (symbolic X) _) Public :=
  ((secures_ofExcept _).mono fun _ h => openSecret_public hc h).handle fun _ =>
    .ite (fun _ => ensures_raise _) fun _ => ensures_raise _

theorem secures_read (hpath : Public path) (version : Option Int) :
    Secures (KVService.read path email version : Py (symbolic X) _) fun r =>
      AllPublic r.terms := by
  unfold KVService.read
  refine (secures_ofExcept _).bind fun _ _ => secures_requireDek.bind fun dek _ => ?_
  refine (secures_findItem fun db r hr => List.mem_of_find?_eq_some hr).bind fun item? hitem => ?_
  rcases item? with _ | item
  · exact ensures_raise _
  have hitem := (hitem item rfl).2
  have hrecord : ∀ record : Option (KVSecretVersion (Term Atom)),
      (∀ v, record = some v → v.Guarded) →
      SealsData ((record.map (·.ciphertextB64)).getD item.ciphertextB64) := by
    intro record hrecord
    rcases record with _ | v
    · exact hitem
    · exact (hrecord v rfl).2
  have hterms : ∀ k v, Public v →
      AllPublic (KVValue.terms (⟨path, k, v⟩ : KVValue (Term Atom) (Term Atom))) := by
    intro k v hv
    simp only [AllPublic, KVValue.terms, List.forall_mem_cons]
    exact ⟨hpath, hv, by rintro _ ⟨⟩⟩
  dsimp only
  rcases version with _ | k
  · refine (secures_findVersion fun db r hr => currentKvVersion_mem db _ r hr).bind
      fun record hguarded => ?_
    exact (secures_openSecret (hrecord record hguarded)).bind fun v hv =>
      ensures_pure (hterms _ v hv)
  · dsimp only
    refine .ite (fun _ => ensures_raise_bind _ _) fun _ => (secures_ofExcept _).bind fun _ _ => ?_
    refine (secures_findVersion fun db r hr => List.mem_of_find?_eq_some hr).bind
      fun found hfound => ?_
    rcases found with _ | v
    · exact ensures_raise_bind _ _
    · refine (ensures_pure (Q := fun r => r = some v) rfl).bind fun record heq => ?_
      subst heq
      exact (secures_openSecret (hrecord (some v) hfound)).bind fun u hu =>
        ensures_pure (hterms _ u hu)

theorem secures_versions :
    Secures (KVService.versions path email : Py (symbolic X) _) fun vs =>
      ∀ v ∈ vs, AllPublic v.terms := by
  have hterms : ∀ v : KVVersion (Term Atom), Public v.createdAt → AllPublic v.terms :=
    fun v hv => List.forall_mem_singleton.2 hv
  unfold KVService.versions
  refine (secures_ofExcept _).bind fun _ _ => secures_requireDek.bind fun _ _ => ?_
  refine (secures_query (Q := fun _ => True) fun _ _ => trivial).bind fun item? _ => ?_
  rcases item? with _ | item
  · exact ensures_raise _
  refine (secures_query (Q := fun _ => True) fun _ _ => trivial).bind fun rows _ => ?_
  refine .ite (fun _ => ensures_pure ?_) fun _ => ensures_pure ?_
  · exact List.forall_mem_singleton.2 (hterms _ (public_isoformat (X := X) _ _))
  · exact List.forall_mem_map.2 fun v _ => hterms _ (public_isoformat (X := X) _ _)

theorem secures_delete :
    Secures (KVService.delete path email : Py (symbolic X) Unit) fun _ => True := by
  unfold KVService.delete
  refine (secures_ofExcept _).bind fun _ _ => secures_requireDek.bind fun _ _ => ?_
  refine (secures_query (Q := fun _ => True) fun _ _ => trivial).bind fun item? _ => ?_
  rcases item? with _ | item
  · exact ensures_raise _
  · exact (secures_update fun db hdb => hdb.deleteKvSecret _).bind fun _ _ => secures_commit

theorem secures_list :
    Secures (KVService.list email : Py (symbolic X) _) fun rs => ∀ r ∈ rs, AllPublic r.terms := by
  unfold KVService.list
  refine secures_requireDek.bind fun _ _ => secures_query fun db hdb => ?_
  refine List.forall_mem_map.2 fun r hr => ?_
  have hcells := (hdb.kvSecrets r (List.mem_of_mem_filter
    ((List.perm_insertionSort _ _).mem_iff.1 hr))).1
  simp only [AllPublic, KVSecret.cells, List.forall_mem_cons] at hcells
  simp only [AllPublic, KVListed.terms, List.forall_mem_cons]
  exact ⟨hcells.1, public_isoformat _ _, public_isoformat _ _, by rintro _ ⟨⟩⟩

end Kv

end MiniVault
