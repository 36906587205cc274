/-
  What the service has encrypted, and on whose behalf. Every entry of the ghost log belongs to a
  call of the history: a written secret, the material of a key version, an envelope or the data
  key. For each version of each key, material was drawn at most once.
-/
import MiniVault.Transit.KeyRing

namespace MiniVault

open Kit

variable {T B J : Type} {P : Prims T B J}

/-! ## Key versions and their material -/

/-- The call drew the material of a version of the key `name` of `email`. -/
inductive Generates (email name : T) :
    (Env P × Call T J) × Except Exc (Data T J) → Nat → B → Prop
  | createAes (e d) : Generates email name ((e, .createAes email name), .ok d) 1 e.key
  | createSigning (e d) : Generates email name ((e, .createSigning email name), .ok d) 1 e.key
  | rotate (e m) :
      Generates email name ((e, .rotate email name), .ok (.key m)) m.currentVersion e.key

/-- A call of the history drew the material. -/
def Generated (h : History P) (email name : T) (n : Nat) (m : B) : Prop :=
  ∃ x ∈ h, Generates email name x n m

theorem Generated.concat {h : History P} {email name : T} {n : Nat} {m : B}
    (hg : Generated h email name n m) (x) : Generated (h ++ [x]) email name n m := by
  obtain ⟨y, hy, hyg⟩ := hg
  exact ⟨y, List.mem_append_left _ hy, hyg⟩

theorem generated_concat {h : History P} {email name : T} {n : Nat} {m : B} {x} :
    Generated (h ++ [x]) email name n m ↔
      Generated h email name n m ∨ Generates email name x n m := by
  constructor
  · rintro ⟨y, hy, hyg⟩
    rcases List.mem_append.1 hy with hy | hy
    · exact .inl ⟨y, hy, hyg⟩
    · rw [List.mem_singleton] at hy
      exact .inr (hy ▸ hyg)
  · rintro (hg | hg)
    · exact hg.concat x
    · exact ⟨x, List.mem_append_right _ List.mem_cons_self, hg⟩

/-! ## What an encryption was for -/

/-- The call of the history that an entry of the log belongs to. -/
inductive SealedFor (h : History P) (x : Sealing B) : Prop
  | dek (haad : x.aad = dekAad P)
  | secret {e path email data r} (hcall : ((e, .kvWrite path email data), r) ∈ h)
      (hpath : P.validatePath path email = .ok ()) (hdata : P.dumps data = .ok x.data)
      (haad : x.aad = P.encode path)
  | key {i r email name n} (hcall : (i, r) ∈ h) (hemail : i.2.email? = some email)
      (hname : P.validateKeyName name = .ok ()) (haad : x.aad = P.encode (keyAad P email name n))
      (hdata : n < 2 ^ 63 → Generated h email name n x.data)
  | envelope {email name n} (haad : x.aad = P.encode (transitAad P email name n))

theorem SealedFor.concat {h : History P} {x : Sealing B} (hx : SealedFor h x) (y) :
    SealedFor (h ++ [y]) x := by
  cases hx with
  | dek haad => exact .dek haad
  | secret hcall hpath hdata haad =>
    exact .secret (List.mem_append_left _ hcall) hpath hdata haad
  | key hcall hemail hname haad hdata =>
    exact .key (List.mem_append_left _ hcall) hemail hname haad fun hn => (hdata hn).concat y
  | envelope haad => exact .envelope haad

variable [DecidableEq T]

/-- What the history says of the world it ends in. -/
structure Recorded (h : History P) (w : World T B) : Prop where
  ring : w.db.KeyRing P
  sealings : ∀ x ∈ w.sealings, SealedFor h x
  owners : ∀ k ∈ w.db.transitKeys, ∃ i r, (i, r) ∈ h ∧ i.2.email? = some k.ownerEmail
  held : ∀ email name n m, Generated h email name n m →
    ∃ key, w.db.findKey email name = some key ∧ n ≤ w.db.currentKeyNumber key.id
  unique : ∀ email name n m m', Generated h email name n m → Generated h email name n m' → m = m'

/-! ## Steps -/

section Steps

variable {e : Env P} {w w' : World T B} {c : Call T J} {r : Except Exc (Data T J)}

omit [DecidableEq T] in
theorem updated_id (id : Nat) {f : TransitKey T → TransitKey T} (hf : ∀ k, (f k).id = k.id)
    (k : TransitKey T) : (Table.updated (·.id) id f k).id = k.id :=
  Table.updated_eq (g := fun k : TransitKey T => k.id) hf k

/-- No step hides a key or lowers its current version. -/
theorem Step.findKey (hs : Step e w c r w') (hring : w'.db.KeyRing P) {email name : T}
    {key : TransitKey T} (hk : w.db.findKey email name = some key) :
    ∃ key', w'.db.findKey email name = some key' ∧ key'.id = key.id ∧
      w.db.currentKeyNumber key.id ≤ w'.db.currentKeyNumber key.id := by
  have hpos : ∀ v ∈ w'.db.transitKeyVersions, 1 ≤ v.version := fun v hv => (hring.versions v hv).1
  cases hs with
  | createAes hc =>
    refine ⟨key, ?_, rfl, ?_⟩
    · unfold Database.findKey
      rw [wrote_db, keyCreate_keys]
      exact Table.find?_concat hk _
    · exact currentKeyNumber_le_add (w.db.addKey _) hpos key.id
  | createSigning hc =>
    refine ⟨key, ?_, rfl, le_rfl⟩
    unfold Database.findKey
    rw [wrote_db, keyCreate_keys]
    exact Table.find?_concat hk _
  | @revoke _ _ revoked hf =>
    have hfound := findKey_keyRevoke w.db email name revoked.id e.now
    rw [hk, Option.map_some] at hfound
    refine ⟨_, hfound, updated_id revoked.id ?_ key, le_rfl⟩
    exact fun _ => rfl
  | @rotate email' name' rotated dek hf hd hv =>
    have hfound := findKey_keyRotate w.db email name e rotated email' name' dek
    rw [hk, Option.map_some] at hfound
    refine ⟨_, hfound, (updated_rewrapped rotated.id e _ key).1, ?_⟩
    exact currentKeyNumber_le_add (w.db.updateKey rotated.id _) hpos key.id
  | _ => exact ⟨key, hk, rfl, le_rfl⟩

/-- A new key is found under its name. -/
theorem findKey_keyCreate {db : Database T} {email name : T} (h : db.findKey email name = none)
    (e : Env P) (usage : KeyUsage) (dek : B) :
    (db.keyCreate P e email name usage dek).findKey email name =
      some (newKey P e (e.rowid (db.transitKeys.map (·.id))) email name usage dek) := by
  unfold Database.findKey at h ⊢
  rw [keyCreate_keys, List.find?_append, h, Option.none_or, List.find?_singleton]
  exact if_pos (by simp [newKey])

omit [DecidableEq T] in
theorem currentKeyNumber_keyRotate (db : Database T) (e : Env P) (key : TransitKey T)
    (email name : T) (dek : B) :
    (db.keyRotate P e key email name dek).currentKeyNumber key.id =
      db.currentKeyNumber key.id + 1 :=
  currentKeyNumber_add (db.updateKey key.id _)
    (v := newKeyVersion P e key.id (db.currentKeyNumber key.id + 1) email name dek)
    (Nat.lt_succ_self _)

/-- What a step draws is new: a version above all those the key had. -/
theorem Step.generates (hs : Step e w c r w') (hring : w'.db.KeyRing P) {email name : T} {n : Nat}
    {m : B} (hg : Generates email name ((e, c), r) n m) :
    m = e.key ∧
      (∃ key, w'.db.findKey email name = some key ∧ n ≤ w'.db.currentKeyNumber key.id) ∧
      ∀ key, w.db.findKey email name = some key → w.db.currentKeyNumber key.id < n := by
  have hpos : ∀ v ∈ w'.db.transitKeyVersions, 1 ≤ v.version := fun v hv => (hring.versions v hv).1
  cases hs with
  | createAes hc =>
    cases hg
    refine ⟨rfl, ⟨_, findKey_keyCreate hc.absent e _ _, one_le_currentKeyNumber hpos _⟩, ?_⟩
    intro key hk
    exact absurd (hk.symm.trans hc.absent) (by simp)
  | createSigning hc =>
    cases hg
    refine ⟨rfl, ⟨_, findKey_keyCreate hc.absent e _ _, one_le_currentKeyNumber hpos _⟩, ?_⟩
    intro key hk
    exact absurd (hk.symm.trans hc.absent) (by simp)
  | @rotate _ _ rotated dek hf hd hv =>
    cases hg
    have hnum := currentKeyNumber_keyRotate w.db e rotated email name dek
    have hfound := findKey_keyRotate w.db email name e rotated email name dek
    rw [show w.db.findKey email name = some rotated from hf.found, Option.map_some] at hfound
    refine ⟨rfl, ⟨_, hfound, ?_⟩, ?_⟩
    · rw [(updated_rewrapped rotated.id e _ rotated).1]
      exact le_rfl
    · intro key hk
      have hkey : key = rotated := Option.some.inj (hk.symm.trans hf.found)
      subst hkey
      show w.db.currentKeyNumber key.id < (TransitService.metadata P false key _).currentVersion
      rw [TransitService.metadata, hnum]
      exact Nat.lt_succ_self _
  | view _ hc => cases hg <;> cases hc
  | _ => cases hg

/-- What one step encrypts belongs to its call. -/
theorem Step.sealedFor {h : History P} (hs : Step e w c r w') (hrec : Recorded h w) :
    ∀ x ∈ w'.sealings, SealedFor (h ++ [((e, c), r)]) x := by
  have hcall : ((e, c), r) ∈ h ++ [((e, c), r)] := List.mem_append_right _ List.mem_cons_self
  have hold : ∀ x ∈ w.sealings, SealedFor (h ++ [((e, c), r)]) x := fun x hx =>
    (hrec.sealings x hx).concat _
  have hnew : ∀ y, w'.sealings = w.sealings ++ [y] → SealedFor (h ++ [((e, c), r)]) y →
      ∀ x ∈ w'.sealings, SealedFor (h ++ [((e, c), r)]) x := by
    intro y hy hyfor x hx
    rw [hy, List.mem_append, List.mem_singleton] at hx
    rcases hx with hx | rfl
    · exact hold x hx
    · exact hyfor
  cases hs with
  | vaultInit p => exact hnew _ rfl (.dek rfl)
  | kvOverflow hw => exact hnew _ rfl (.secret hcall hw.valid hw.dumped rfl)
  | kvCreate hw => exact hnew _ rfl (.secret hcall hw.valid hw.dumped rfl)
  | kvUpdate hw => exact hnew _ rfl (.secret hcall hw.valid hw.dumped rfl)
  | createAes hc =>
    refine hnew _ rfl (.key hcall rfl hc.valid rfl fun _ => ⟨_, hcall, ?_⟩)
    exact .createAes e _
  | createSigning hc =>
    refine hnew _ rfl (.key hcall rfl hc.valid rfl fun _ => ⟨_, hcall, ?_⟩)
    exact .createSigning e _
  | @rotateOverflow email name key dek hf hd hv =>
    obtain ⟨hmem, -, hname⟩ := findKey_eq_some hf.found
    refine hnew _ rfl (.key hcall rfl (hname ▸ hrec.ring.named key hmem) rfl fun hn => ?_)
    exact absurd hn hv
  | @rotate email name key dek hf hd hv =>
    obtain ⟨hmem, -, hname⟩ := findKey_eq_some hf.found
    refine hnew _ rfl (.key hcall rfl (hname ▸ hrec.ring.named key hmem) rfl
      fun _ => ⟨_, hcall, ?_⟩)
    have hnum : (w.db.keyRotate P e key email name dek).currentKeyNumber key.id =
        w.db.currentKeyNumber key.id + 1 := currentKeyNumber_keyRotate w.db e key email name dek
    rw [hnum]
    exact .rotate e _
  | encrypt hr => exact hnew _ rfl (.envelope rfl)
  | _ => exact hold

omit [DecidableEq T] in
theorem owner_updateKey {db : Database T} {id : Nat} {f : TransitKey T → TransitKey T}
    (hf : ∀ k, (f k).ownerEmail = k.ownerEmail) {key : TransitKey T}
    (hk : key ∈ (db.updateKey id f).transitKeys) :
    ∃ k ∈ db.transitKeys, k.ownerEmail = key.ownerEmail := by
  obtain ⟨k, hmem, rfl⟩ := List.mem_map.1 hk
  refine ⟨k, hmem, ?_⟩
  split
  · exact (hf k).symm
  · rfl

omit [DecidableEq T] in
theorem owner_keyCreate {db : Database T} {e : Env P} {email name : T} {usage : KeyUsage} {dek : B}
    {key : TransitKey T} (hk : key ∈ (db.keyCreate P e email name usage dek).transitKeys) :
    (∃ k ∈ db.transitKeys, k.ownerEmail = key.ownerEmail) ∨ some email = some key.ownerEmail := by
  rw [keyCreate_keys, List.mem_append, List.mem_singleton] at hk
  rcases hk with hk | rfl
  · exact .inl ⟨key, hk, rfl⟩
  · exact .inr rfl

/-- A key is owned by who owned it, or by who makes the call. -/
theorem Step.owner (hs : Step e w c r w') {key : TransitKey T} (hk : key ∈ w'.db.transitKeys) :
    (∃ k ∈ w.db.transitKeys, k.ownerEmail = key.ownerEmail) ∨
      c.email? = some key.ownerEmail := by
  cases hs with
  | createAes => exact owner_keyCreate hk
  | createSigning => exact owner_keyCreate hk
  | revoke =>
    refine .inl (owner_updateKey ?_ hk)
    exact fun _ => rfl
  | rotate =>
    refine .inl (owner_updateKey ?_ hk)
    exact fun _ => rfl
  | _ => exact .inl ⟨key, hk, rfl⟩

theorem Recorded.step {h : History P} (hrec : Recorded h w) (hs : Step e w c r w') :
    Recorded (h ++ [((e, c), r)]) w' := by
  have hring := hrec.ring.step hs
  refine ⟨hring, hs.sealedFor hrec, fun key hk => ?_, fun email name n m hg => ?_,
    fun email name n m m' hg hg' => ?_⟩
  · rcases hs.owner hk with ⟨k, hk, howner⟩ | hcall
    · obtain ⟨i, r', hi, hemail⟩ := hrec.owners k hk
      exact ⟨i, r', List.mem_append_left _ hi, hemail.trans (by rw [howner])⟩
    · exact ⟨(e, c), r, List.mem_append_right _ List.mem_cons_self, hcall⟩
  · rcases generated_concat.1 hg with hg | hg
    · obtain ⟨key, hkey, hle⟩ := hrec.held email name n m hg
      obtain ⟨key', hkey', hid, hmono⟩ := hs.findKey hring hkey
      exact ⟨key', hkey', by rw [hid]; exact hle.trans hmono⟩
    · exact (hs.generates hring hg).2.1
  · -- a version drawn before is one the key already had
    have hfresh : ∀ m m', Generated h email name n m → ¬ Generates email name ((e, c), r) n m' := by
      intro m m' hold hnew
      obtain ⟨key, hkey, hle⟩ := hrec.held email name n m hold
      exact absurd ((hs.generates hring hnew).2.2 key hkey) (Nat.not_lt.2 hle)
    rcases generated_concat.1 hg with hold | hnew
    · rcases generated_concat.1 hg' with hold' | hnew'
      · exact hrec.unique email name n m m' hold hold'
      · exact absurd hnew' (hfresh m m' hold)
    · rcases generated_concat.1 hg' with hold' | hnew'
      · exact absurd hnew (hfresh m' m hold')
      · rw [(hs.generates hring hnew).1, (hs.generates hring hnew').1]

end Steps

/-- The history of a run from an empty database accounts for the world it ends in. -/
theorem recorded_run (is : List (Env P × Call T J)) :
    Recorded (World.initial.trace is) (World.initial.after is) := by
  refine Run.run_induction (I := fun h w => Recorded h w) ?_ ?_ is
  · refine ⟨keyRing_initial, by rintro _ ⟨⟩, by rintro _ ⟨⟩, ?_, ?_⟩
    · rintro email name n m ⟨x, hx, -⟩
      cases hx
    · rintro email name n m m' ⟨x, hx, -⟩
      cases hx
  · exact fun h w i hrec => hrec.step (step_of_call i.1 w i.2)

end MiniVault
