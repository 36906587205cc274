/-
  The key tables hold a key ring in the clear, wrapped under the data key: a key row for each key,
  and for an encryption key a version row for each version. Every call moves both alike.
-/
import MiniVault.Plain.Vault
import MiniVault.Transit.Ring

namespace MiniVault

open Kit

variable {T B J : Type} {P : Prims T B J}

/-! ## Representation -/

/-- The version row wraps what was drawn. -/
def World.Wrapped (P : Prims T B J) (w : World T B) (owner name : T) (v : TransitKeyVersion T)
    (m : B) : Prop :=
  ∃ d, w.Keyed P d ∧ ∃ e : Env P, e.key = m ∧ v.keyNonceB64 = P.b64encode e.nonce ∧
    v.encryptedKeyMaterialB64 = cipherText P (keySealing P e owner name v.version d)

/-- The rows of a key hold what was drawn for it: those of an encryption key are numbered, and a
    signing key has its own row only. -/
structure World.HoldsKey (P : Prims T B J) (w : World T B) (row : TransitKey T)
    (k : PlainKey T B) : Prop where
  owner : row.ownerEmail = k.owner
  name : row.keyName = k.name
  usage : row.keyUsage = k.usage
  algorithm : row.algorithm = PlainKey.algorithm P k.usage
  createdAt : row.createdAt = k.createdAt
  revoked : row.revokedAt.isSome = k.revoked
  encryption : k.usage = .encryptDecrypt → Table.Numbered (·.version) (w.db.keyRows row.id) ∧
    List.Forall₂ (w.Wrapped P k.owner k.name) (w.db.keyRows row.id) k.drawn
  signing : k.usage = .signVerify → w.db.keyRows row.id = [] ∧
    ∃ d, w.Keyed P d ∧ ∃ e : Env P, k.drawn = [e.key] ∧
      row.keyNonceB64 = P.b64encode e.nonce ∧
      row.encryptedKeyMaterialB64 = cipherText P (keySealing P e k.owner k.name 1 d) ∧
      row.publicKeyB64 = some (P.b64encode (P.publicKey e.key))

/-- The tables hold the ring. -/
def World.HoldsKeys (P : Prims T B J) (w : World T B) (ks : PlainKeys T B) : Prop :=
  List.Forall₂ (w.HoldsKey P) w.db.transitKeys ks.keys

theorem holdsKeys_initial : (World.initial : World T B).HoldsKeys P .empty := .nil

section Frame

variable {w w' : World T B} {row row' : TransitKey T} {k k' : PlainKey T B}

theorem World.Wrapped.mono {owner name : T} {v : TransitKeyVersion T} {m : B}
    (h : w.Wrapped P owner name v m) (hmono : ∀ d, w.Keyed P d → w'.Keyed P d) :
    w'.Wrapped P owner name v m := by
  obtain ⟨d, hd, hv⟩ := h
  exact ⟨d, hmono d hd, hv⟩

/-- A key whose rows stay. -/
theorem World.HoldsKey.frame (h : w.HoldsKey P row k) (hmono : ∀ d, w.Keyed P d → w'.Keyed P d)
    (hrows : w'.db.keyRows row.id = w.db.keyRows row.id) : w'.HoldsKey P row k := by
  refine { h with encryption := fun hu => ?_, signing := fun hu => ?_ }
  · rw [hrows]
    obtain ⟨hnumbered, hwraps⟩ := h.encryption hu
    exact ⟨hnumbered, hwraps.imp fun _ _ hv => hv.mono hmono⟩
  · rw [hrows]
    obtain ⟨hnil, d, hd, hrow⟩ := h.signing hu
    exact ⟨hnil, d, hmono d hd, hrow⟩

/-- A call that leaves the key tables. -/
theorem World.HoldsKeys.frame {ks : PlainKeys T B} (h : w.HoldsKeys P ks)
    (hmono : ∀ d, w.Keyed P d → w'.Keyed P d) (hk : w'.db.transitKeys = w.db.transitKeys)
    (hv : w'.db.transitKeyVersions = w.db.transitKeyVersions) : w'.HoldsKeys P ks := by
  unfold World.HoldsKeys
  rw [hk]
  refine List.Forall₂.imp (fun row k hrow => hrow.frame hmono ?_) h
  unfold Database.keyRows
  rw [hv]

theorem World.HoldsKey.revoke (h : w.HoldsKey P row k) (now : Time) :
    w.HoldsKey P { row with revokedAt := some now } k.revoke where
  owner := h.owner
  name := h.name
  usage := h.usage
  algorithm := h.algorithm
  createdAt := h.createdAt
  revoked := rfl
  encryption := h.encryption
  signing := h.signing

end Frame

/-! ## Preservation -/

section Preserved

variable [DecidableEq T] {h : History P} {w w' : World T B} {ks : PlainKeys T B}
  {row : TransitKey T} {k : PlainKey T B} {e : Env P} {email name : T} {usage : KeyUsage} {dek : B}

/-- Rows and keys are found alike. -/
theorem World.HoldsKeys.lookup (hold : w.HoldsKeys P ks) (email name : T) :
    (w.db.findKey email name = none ∧ ks.lookup email name = none) ∨
      ∃ row k, w.db.findKey email name = some row ∧ ks.lookup email name = some k ∧
        w.HoldsKey P row k := by
  refine Table.forall₂_find? hold fun row k hrow => ?_
  rw [PlainKey.label, hrow.owner, hrow.name]
  exact decide_eq_decide.2 Prod.mk_inj.symm

omit [DecidableEq T] in
/-- The current version of a key is its newest. -/
theorem World.HoldsKey.current (hrow : w.HoldsKey P row k) :
    w.db.currentKeyNumber row.id = k.drawn.length := by
  unfold Database.currentKeyNumber Database.currentKeyVersion
  change ((List.argmax (·.version) (w.db.keyRows row.id)).map (·.version)).getD 1 = _
  rcases hu : k.usage with _ | _
  · obtain ⟨hnumbered, hwraps⟩ := hrow.encryption hu
    have hlen := hwraps.length_eq
    have hpos : 0 < (w.db.keyRows row.id).length := by
      rw [hlen]
      exact List.length_pos_iff.2 k.drawn_ne
    rw [hnumbered.argmax, List.getLast?_eq_getElem?,
      List.getElem?_eq_getElem (Nat.sub_lt hpos Nat.one_pos), Option.map_some, Option.getD_some,
      hnumbered.key_get, Nat.sub_add_cancel hpos, hlen]
  · obtain ⟨hnil, d, -, e, hdrawn, -⟩ := hrow.signing hu
    rw [hnil, hdrawn]
    rfl

theorem World.HoldsKeys.create (hold : w.HoldsKeys P ks) (hrec : KeysRecorded h w)
    (hmono : ∀ d, w.Keyed P d → w'.Keyed P d) (hk : w'.Keyed P dek)
    (habsent : w.db.findKey email name = none)
    (hdb : w'.db = w.db.keyCreate P e email name usage dek) :
    w'.HoldsKeys P (ks.add (.fresh e email name usage)) := by
  have hnone : ks.lookup email name = none := by
    rcases hold.lookup email name with ⟨-, hnone⟩ | ⟨row, k, hfound, -⟩
    · exact hnone
    · cases habsent.symm.trans hfound
  have hlabel : (PlainKey.fresh e email name usage).label ∉ ks.keys.map (·.label) := by
    intro hmem
    obtain ⟨k, hk, hlabel⟩ := List.mem_map.1 hmem
    exact List.find?_eq_none.1 hnone k hk (decide_eq_true hlabel)
  have hkeys : w'.db.transitKeys = w.db.transitKeys ++
      [newKey P e (e.rowid (w.db.transitKeys.map (·.id))) email name usage dek] := by
    rw [hdb]
    exact keyCreate_keys e email name usage dek
  unfold World.HoldsKeys PlainKeys.add
  rw [dif_neg hlabel, hkeys]
  refine List.rel_append ?_ (.cons ?_ .nil)
  · have hframe : List.Forall₂ (w'.HoldsKey P) (w.db.transitKeys.map id) (ks.keys.map id) :=
      Table.forall₂_map hold fun row hrow k hholds => hholds.frame hmono (by
        rw [hdb]
        exact keyRows_keyCreate e email name usage dek hrow)
    rwa [List.map_id, List.map_id] at hframe
  · have hrows := keyRows_keyCreate_self hrec.belongs e email name usage dek
    rw [← hdb] at hrows
    refine ⟨rfl, rfl, rfl, ?_, rfl, rfl, fun hu => ?_, fun hu => ?_⟩
    · cases usage <;> rfl
    · obtain rfl : usage = .encryptDecrypt := hu
      change w'.db.keyRows _ = [_] at hrows
      rw [show (newKey P e (e.rowid (w.db.transitKeys.map (·.id))) email name .encryptDecrypt
        dek).id = e.rowid (w.db.transitKeys.map (·.id)) from rfl, hrows]
      exact ⟨rfl, .cons ⟨dek, hk, e, rfl, rfl, rfl⟩ .nil⟩
    · obtain rfl : usage = .signVerify := hu
      exact ⟨hrows, dek, hk, e, rfl, rfl, rfl, rfl⟩

omit [DecidableEq T] in
/-- The row of a key with a new version, and its version rows. -/
theorem World.HoldsKey.rotate (hrow : w.HoldsKey P row k) (hu : k.usage = .encryptDecrypt)
    (hmono : ∀ d, w.Keyed P d → w'.Keyed P d) (hk : w'.Keyed P dek)
    (hrows : w'.db.keyRows row.id = w.db.keyRows row.id ++
      [newKeyVersion P e row.id (w.db.currentKeyNumber row.id + 1) k.owner k.name dek])
    (x : Sealing B) : w'.HoldsKey P (rewrapped P e x row) (k.rotate e.key) := by
  refine ⟨hrow.owner, hrow.name, hrow.usage, hrow.algorithm, hrow.createdAt, hrow.revoked,
    fun _ => ?_, fun hu' => ?_⟩
  · obtain ⟨hnumbered, hwraps⟩ := hrow.encryption hu
    change Table.Numbered _ (w'.db.keyRows row.id) ∧ List.Forall₂ _ (w'.db.keyRows row.id) _
    rw [hrows]
    refine ⟨hnumbered.concat ?_, List.rel_append (hwraps.imp fun _ _ hv => hv.mono hmono)
      (.cons ⟨dek, hk, e, rfl, rfl, rfl⟩ .nil)⟩
    rw [hwraps.length_eq, ← hrow.current]
    rfl
  · cases hu.symm.trans hu'

/-- A key is told apart by its id as it is by owner and name. -/
theorem World.HoldsKey.label_iff (hrow : w.HoldsKey P row k) (hrec : KeysRecorded h w)
    (hmem : row ∈ w.db.transitKeys) {key : TransitKey T}
    (hfound : w.db.findKey email name = some key) :
    row.id = key.id ↔ k.label = (email, name) := by
  obtain ⟨hkey, howner, hname⟩ := findKey_eq_some hfound
  constructor
  · intro hid
    rw [Table.eq_of_key hrec.ring.ids hmem hkey hid] at hrow
    rw [PlainKey.label, ← hrow.owner, ← hrow.name, howner, hname]
  · intro hlabel
    obtain ⟨hemail, hname'⟩ := Prod.mk.inj hlabel
    have hrow' := hrec.findKey hmem
    rw [hrow.owner, hrow.name, hemail, hname', hfound] at hrow'
    rw [Option.some.inj hrow']

theorem World.HoldsKeys.revoked (hold : w.HoldsKeys P ks) (hrec : KeysRecorded h w)
    {key : TransitKey T} (hfound : w.db.findKey email name = some key) {now : Time}
    (hmono : ∀ d, w.Keyed P d → w'.Keyed P d) (hdb : w'.db = w.db.keyRevoke key.id now) :
    w'.HoldsKeys P (ks.change email name .revoke fun _ => rfl) := by
  unfold World.HoldsKeys
  rw [hdb]
  refine Table.forall₂_map hold fun row hmem k hrow => ?_
  have hframe : w'.HoldsKey P row k := hrow.frame hmono (by rw [hdb]; rfl)
  unfold Table.updated
  by_cases hid : row.id = key.id
  · rw [if_pos hid, if_pos ((hrow.label_iff hrec hmem hfound).1 hid)]
    exact hframe.revoke now
  · rw [if_neg hid, if_neg fun hlabel => hid ((hrow.label_iff hrec hmem hfound).2 hlabel)]
    exact hframe

theorem World.HoldsKeys.rotated (hold : w.HoldsKeys P ks) (hrec : KeysRecorded h w)
    {key : TransitKey T} (hf : FindReady w.session email name (some .encryptDecrypt) key)
    (hmono : ∀ d, w.Keyed P d → w'.Keyed P d) (hk : w'.Keyed P dek)
    (hdb : w'.db = w.db.keyRotate P e key email name dek) :
    w'.HoldsKeys P (ks.change email name (.rotate e.key) fun _ => rfl) := by
  have hfound : w.db.findKey email name = some key := hf.found
  unfold World.HoldsKeys
  have hkeys : w'.db.transitKeys = w.db.transitKeys.map (Table.updated (·.id) key.id
      (rewrapped P e (keySealing P e email name (w.db.currentKeyNumber key.id + 1) dek))) := by
    rw [hdb]
    rfl
  rw [hkeys]
  refine Table.forall₂_map hold fun row hmem k hrow => ?_
  have hlabel := hrow.label_iff hrec hmem hfound
  unfold Table.updated
  by_cases hid : row.id = key.id
  · rw [if_pos hid, if_pos (hlabel.1 hid)]
    obtain ⟨hkey, howner, hname⟩ := findKey_eq_some hfound
    obtain rfl := Table.eq_of_key hrec.ring.ids hmem hkey hid
    refine hrow.rotate (hrow.usage ▸ hf.usageOk _ rfl) hmono hk ?_ _
    rw [hdb, ← hrow.owner, ← hrow.name, howner, hname]
    exact keyRows_add_self (w.db.updateKey row.id _) _
  · rw [if_neg hid, if_neg fun h => hid (hlabel.2 h)]
    refine hrow.frame hmono ?_
    rw [hdb]
    exact keyRows_add_other (w.db.updateKey key.id _) (Ne.symm hid)

theorem hear_error (ks : PlainKeys T B) (i : Env P × Call T J) (x : Exc) :
    ks.hear (i, .error x) = ks := by
  obtain ⟨e, c⟩ := i
  cases c <;> rfl

theorem hear_view (ks : PlainKeys T B) (e : Env P) {c : Call T J} (hc : c.isView = true)
    (d : Data T J) : ks.hear ((e, c), .ok d) = ks := by
  cases c with
  | createAes => cases hc
  | createSigning => cases hc
  | rotate => cases hc
  | revoke => cases hc
  | _ => rfl

/-- Every call moves the tables and the ring alike. -/
theorem World.HoldsKeys.step (hP : P.Lawful) (hkeyed : w.Unkeyed ∨ ∃ d, w.Keyed P d)
    (hrec : KeysRecorded h w) (hold : w.HoldsKeys P ks) {c : Call T J}
    {r : Except Exc (Data T J)} (hs : Step e w c r w') : w'.HoldsKeys P (ks.hear ((e, c), r)) := by
  have hmono : ∀ d, w.Keyed P d → w'.Keyed P d := fun d hd => hd.step hP.unlocks hs
  have hdek : ∀ {dek}, w.dek = some dek → w'.Keyed P dek := fun hd =>
    hmono _ (World.keyed_of_loaded hkeyed hd)
  cases hs with
  | fail c x =>
    rw [hear_error]
    exact hold.frame hmono rfl rfl
  | view d hc =>
    rw [hear_view ks e hc]
    exact hold.frame hmono rfl rfl
  | createAes hready => exact hold.create hrec hmono (hdek hready.unlocked) hready.absent rfl
  | createSigning hready => exact hold.create hrec hmono (hdek hready.unlocked) hready.absent rfl
  | revoke hf => exact hold.revoked hrec hf.found hmono rfl
  | rotate hf hd => exact hold.rotated hrec hf hmono (hdek hd) rfl
  | _ => exact hold.frame hmono rfl rfl

/-- The ring that a history describes. -/
def plainKeys (h : History P) : PlainKeys T B := h.foldl PlainKeys.hear .empty

/-- Along every run, the key tables hold the ring of its calls. -/
theorem holdsKeys_run (hP : P.Lawful) (is : List (Env P × Call T J)) :
    (World.initial.after is).HoldsKeys P (plainKeys (World.initial.trace is)) := by
  refine (Run.run_induction (I := fun (h : History P) (w : World T B) =>
    (w.Unkeyed ∨ ∃ d, w.Keyed P d) ∧ KeysRecorded h w ∧ w.HoldsKeys P (plainKeys h))
    ⟨.inl ⟨rfl, rfl⟩, keysRecorded_initial, holdsKeys_initial⟩ ?_ is).2.2
  rintro h w ⟨e, c⟩ ⟨hkeyed, hrec, hold⟩
  have hs := step_of_call e w c
  refine ⟨?_, hrec.step hs, ?_⟩
  · rcases hkeyed with hu | ⟨k, hk⟩
    · exact (hu.step hs).imp_right fun hk => ⟨_, hk⟩
    · exact .inr ⟨k, hk.step hP.unlocks hs⟩
  · rw [plainKeys, List.foldl_append]
    exact hold.step hP hkeyed hrec hs

end Preserved

end MiniVault
