/-
  The KV service refines a versioned map: whatever calls were made before, each operation of an
  unlocked vault answers as the map of those calls says.
-/
import MiniVault.Kv.Contents

namespace MiniVault

open Kit

variable {T B J : Type} {P : Prims T B J} [DecidableEq T]

/-! ## The answers of a versioned map -/

/-- `raise AppError("NOT_FOUND", "Secret not found", 404)` -/
def secretNotFound : Exc := appError .notFound "Secret not found" 404

/-- `raise AppError("NOT_FOUND", "Secret version not found", 404)` -/
def versionNotFound : Exc := appError .notFound "Secret version not found" 404

/-- Every call for a good user on a path of theirs is answered as the map says. -/
structure World.KvAnswers (P : Prims T B J) (good : T → Prop) (w : World T B)
    (m : VersionedMap T J) : Prop where
  write : ∀ (e : Env P) path email data d, good email →
    (w.call (e, .kvWrite path email data)).1 = .ok d →
      ∃ r, d = .kvWritten r ∧ r.path = path ∧ r.version = (m.history path).length + 1
  absent : ∀ (e : Env P) path email, good email → P.validatePath path email = .ok () →
    m.history path = [] →
      (∀ k, (w.call (e, .kvRead path email k)).1 = .error secretNotFound) ∧
      (w.call (e, .kvVersions path email)).1 = .error secretNotFound ∧
      (w.call (e, .kvDelete path email)).1 = .error secretNotFound
  readLast : ∀ (e : Env P) path email x, good email → P.validatePath path email = .ok () →
    (m.history path).getLast? = some x →
      (w.call (e, .kvRead path email none)).1 =
        .ok (.kvValue ⟨path, (m.history path).length, x⟩)
  readAt : ∀ (e : Env P) path email (k : Nat) x, good email →
    P.validatePath path email = .ok () → (m.history path)[k]? = some x →
      (w.call (e, .kvRead path email (some (k + 1)))).1 = .ok (.kvValue ⟨path, k + 1, x⟩)
  readAbove : ∀ (e : Env P) path email (k : Int), good email →
    P.validatePath path email = .ok () → m.history path ≠ [] → (m.history path).length < k →
    k < 2 ^ 63 →
      (w.call (e, .kvRead path email (some k))).1 = .error versionNotFound
  readBelow : ∀ (e : Env P) path email (k : Int), good email →
    P.validatePath path email = .ok () → m.history path ≠ [] → k < 1 →
      (w.call (e, .kvRead path email (some k))).1 =
        .error (appError .validationError "Invalid version" 422)
  versions : ∀ (e : Env P) path email, good email → P.validatePath path email = .ok () →
    m.history path ≠ [] →
      ∃ l, (w.call (e, .kvVersions path email)).1 = .ok (.kvVersions l) ∧
        l.map (·.version) = List.range' 1 (m.history path).length
  delete : ∀ (e : Env P) path email, good email → P.validatePath path email = .ok () →
    m.history path ≠ [] → (w.call (e, .kvDelete path email)).1 = .ok .deleted
  list : ∀ (e : Env P) email, good email →
    ∃ l, (w.call (e, .kvList email)).1 = .ok (.kvListed l) ∧
      (l.map (·.path)).Pairwise (fun s t => P.le s t = true) ∧ (l.map (·.path)).Nodup ∧
      (∀ path, path ∈ l.map (·.path) ↔
        m.history path ≠ [] ∧ P.validatePath path email = .ok ()) ∧
      ∀ x ∈ l, x.currentVersion = (m.history x.path).length

/-! ## What the tables answer -/

section Answers

variable {good : T → Prop} {w : World T B} {m : VersionedMap T J} {d : B} {path email : T}
  {item : KVSecret T}

/-- A path of the map has its item, any other has none. -/
theorem World.Stores.lookup (h : w.Stores P m) (ht : w.db.KvTables P good)
    (hone : P.OneOwner good) (hgood : good email) (hp : P.validatePath path email = .ok ()) :
    (m.history path = [] ∧ w.db.findOwned path email = none) ∨
      ∃ item, w.db.findOwned path email = some item ∧ item.path = path ∧
        w.Holds P item.id path (m.history path) := by
  rw [findOwned_eq ht hone hgood hp]
  rcases hf : w.db.findPath path with _ | item
  · left
    refine ⟨?_, rfl⟩
    by_contra hne
    obtain ⟨r, hr, hpath⟩ := h.item path hne
    exact findPath_eq_none.1 hf r hr hpath
  · right
    obtain ⟨hitem, hpath⟩ := findPath_eq_some hf
    exact ⟨item, rfl, hpath, hpath ▸ h.holds item hitem⟩

/-- A path of the map has its item. -/
theorem World.Stores.found (h : w.Stores P m) (ht : w.db.KvTables P good)
    (hone : P.OneOwner good) (hgood : good email) (hp : P.validatePath path email = .ok ())
    (hne : m.history path ≠ []) :
    ∃ item, w.db.findOwned path email = some item ∧ w.Holds P item.id path (m.history path) := by
  rcases h.lookup ht hone hgood hp with ⟨hnil, -⟩ | ⟨item, hf, -, hholds⟩
  · exact absurd hnil hne
  · exact ⟨item, hf, hholds⟩

omit [DecidableEq T] in
/-- The row at a place is found under its number and opens to the value at that place. -/
theorem World.Holds.row {xs : List J} (h : w.Holds P item.id path xs) (hP : P.Lawful)
    (hd : w.dek = some d) {k : Nat} {x : J} (hx : xs[k]? = some x) :
    ∃ v, (w.db.versionsOf item.id)[k]? = some v ∧ v.version = k + 1 ∧
      openItem P d item (some v) path = .ok x := by
  obtain ⟨hk, rfl⟩ := List.getElem?_eq_some_iff.1 hx
  have hk' : k < (w.db.versionsOf item.id).length := by rwa [h.values.length_eq]
  refine ⟨_, List.getElem?_eq_getElem hk', h.numbered.key_get hk', ?_⟩
  obtain ⟨d', hkeyed, e, raw, hnonce, htext, hload⟩ := h.values.get hk' hk
  have hdd : d = d' := hkeyed.loaded d hd
  subst hdd
  simp only [List.get_eq_getElem] at hnonce htext hload
  simp only [openItem, Option.map_some, Option.getD_some, hnonce, htext]
  rw [openSecret_sealed hP.b64decode_b64encode hP.correct hkeyed.keyOk]
  exact hload

omit [DecidableEq T] in
/-- The version a read without a number takes is the last. -/
theorem kvAsked_last {xs : List J} (h : w.Holds P item.id path xs) :
    w.db.kvAsked item none = .ok ((w.db.versionsOf item.id)[xs.length - 1]?) := by
  rw [Database.kvAsked, Database.currentKvVersion, h.numbered.argmax, List.getLast?_eq_getElem?,
    h.values.length_eq]

omit [DecidableEq T] in
theorem kvAsked_at {xs : List J} (h : w.Holds P item.id path xs) {k : Nat} (hk : k + 1 < 2 ^ 63) :
    w.db.kvAsked item (some (k + 1 : Nat)) =
      match (w.db.versionsOf item.id)[k]? with
      | none => .error versionNotFound
      | some v => .ok (some v) := by
  have hfind : w.db.kvSecretVersions.find? (fun v => v.kvSecretId = item.id ∧ v.version = k + 1) =
      (w.db.versionsOf item.id)[k]? := by
    rw [← h.numbered.find? k, Database.versionsOf, List.find?_filter]
    simp only [Bool.decide_and, Bool.decide_eq_true]
  have h₁ : ¬ ((k + 1 : Nat) : Int) < 1 := by omega
  have h₂ : ¬ 2 ^ 63 ≤ ((k + 1 : Nat) : Int).toNat := by omega
  rw [Database.kvAsked, if_neg h₁, if_neg h₂, Int.toNat_natCast, hfind]
  rfl

omit [DecidableEq T] in
theorem kvAsked_below {k : Int} (hk : k < 1) :
    w.db.kvAsked item (some k) = .error (appError .validationError "Invalid version" 422) :=
  if_pos hk

/-- `read` of a version row that opens. -/
theorem kvRead_of_asked {k : Option Int} {v : KVSecretVersion T} {x : J}
    (hf : w.db.findOwned path email = some item) (hk : w.db.kvAsked item k = .ok (some v))
    (hx : openItem P d item (some v) path = .ok x) :
    w.db.kvRead P d path email k = .ok ⟨path, v.version, x⟩ := by
  rw [Database.kvRead, hf]
  dsimp only
  rw [hk]
  dsimp only
  rw [hx]
  rfl

theorem kvRead_of_absent (hf : w.db.findOwned path email = none) (k : Option Int) :
    w.db.kvRead P d path email k = .error secretNotFound := by
  rw [Database.kvRead, hf]
  rfl

theorem kvRead_of_error {k : Option Int} {x : Exc} (hf : w.db.findOwned path email = some item)
    (hk : w.db.kvAsked item k = .error x) : w.db.kvRead P d path email k = .error x := by
  rw [Database.kvRead, hf]
  dsimp only
  rw [hk]

/-! ## Calls -/

variable {e : Env P}

theorem kvRead_call (hp : P.validatePath path email = .ok ()) (hd : w.dek = some d)
    (k : Option Int) :
    (w.call (e, .kvRead path email k)).1 = (w.db.kvRead P d path email k).map .kvValue := by
  rw [call_eq (c := Call.kvRead path email k) rfl (read_apply (s := w.session) hp hd k e)]
  rfl

theorem kvVersions_call (hp : P.validatePath path email = .ok ()) (hd : w.dek = some d) :
    (w.call (e, .kvVersions path email)).1 = (w.db.kvVersions P path email).map .kvVersions := by
  rw [call_eq (c := Call.kvVersions path email) rfl (versions_apply (s := w.session) hp hd e)]
  rfl

theorem kvList_call (hd : w.dek = some d) :
    (w.call (e, .kvList email)).1 = .ok (.kvListed (w.db.kvList P email)) := by
  rw [call_eq (c := Call.kvList email) rfl (list_apply (s := w.session) hd e)]
  rfl

theorem kvDelete_call (hp : P.validatePath path email = .ok ()) (hd : w.dek = some d) :
    (w.call (e, .kvDelete path email)).1 =
      match w.db.findOwned path email with
      | none => .error secretNotFound
      | some _ => .ok .deleted := by
  have hd' : w.session.dek = some d := hd
  rcases hf : w.db.findOwned path email with _ | item
  · have hf' : w.session.db.findOwned path email = none := hf
    have happly : KVService.delete path email e w.session = (.error secretNotFound, w.session) := by
      simp [KVService.delete, hp, requireDek_of_some hd', hf', secretNotFound]
    rw [call_eq (c := Call.kvDelete path email) rfl happly]
    rfl
  · have hf' : w.session.db.findOwned path email = some item := hf
    have happly : ∃ s, KVService.delete path email e w.session = (.ok (), s) := by
      simp [KVService.delete, hp, requireDek_of_some hd', hf']
    obtain ⟨s, hs⟩ := happly
    rw [call_eq (c := Call.kvDelete path email) rfl hs]
    rfl

/-- A write that succeeds found the vault and the path as the tables say. -/
theorem kvWrite_call_eq_ok {data : J} {r : Data T J} {w' : World T B}
    (h : w.call (e, .kvWrite path email data) = (.ok r, w')) :
    P.validatePath path email = .ok () ∧ ∃ x, r = .kvWritten x ∧ x.path = path ∧
      ((w.db.findPath path = none ∧ x.version = 1) ∨
        ∃ item, w.db.findPath path = some item ∧ x.version = w.db.nextKvVersion item.id) := by
  have hs := step_of_call e w (.kvWrite path email data)
  rw [h] at hs
  cases hs with
  | view d hc => cases hc
  | kvCreate hw hf => exact ⟨hw.valid, _, rfl, rfl, .inl ⟨hf, rfl⟩⟩
  | kvUpdate hw hf => exact ⟨hw.valid, _, rfl, (findPath_eq_some hf).2, .inr ⟨_, hf, rfl⟩⟩

end Answers

/-! ## The refinement -/

/-- What the refinement assumes of the libraries and of the users' addresses. -/
structure KvLaws (P : Prims T B J) (good : T → Prop) (canon : J → J) : Prop where
  lawful : P.Lawful
  oneOwner : P.OneOwner good
  loads : ∀ data raw, P.dumps data = .ok raw → P.loads raw = .ok (canon data)
  le_total : ∀ s t, P.le s t = true ∨ P.le t s = true
  le_trans : ∀ s t u, P.le s t = true → P.le t u = true → P.le s u = true

section Refinement

variable {good : T → Prop} {canon : J → J} {w : World T B} {m : VersionedMap T J} {d : B}

/-- What `list` answers: the paths of the owner in path order. -/
theorem World.Stores.list (h : w.Stores P m) (ht : w.db.KvTables P good)
    (hlaws : KvLaws P good canon) {email : T} (hgood : good email) :
    ((w.db.kvList P email).map (·.path)).Pairwise (fun s t => P.le s t = true) ∧
      ((w.db.kvList P email).map (·.path)).Nodup ∧
      (∀ path, path ∈ (w.db.kvList P email).map (·.path) ↔
        m.history path ≠ [] ∧ P.validatePath path email = .ok ()) ∧
      ∀ x ∈ w.db.kvList P email, x.currentVersion = (m.history x.path).length := by
  let le : KVSecret T → KVSecret T → Prop := fun a b => P.le a.path b.path = true
  have htotal : Std.Total le := ⟨fun a b => hlaws.le_total a.path b.path⟩
  have htrans : IsTrans (KVSecret T) le := ⟨fun a b c => hlaws.le_trans a.path b.path c.path⟩
  have hperm := List.perm_insertionSort le (w.db.kvSecrets.filter (·.ownerEmail = email))
  have hsorted := List.pairwise_insertionSort le (w.db.kvSecrets.filter (·.ownerEmail = email))
  have hpaths : (w.db.kvList P email).map (·.path) =
      ((w.db.kvSecrets.filter (·.ownerEmail = email)).insertionSort le).map (·.path) := by
    rw [Database.kvList, List.map_map]
    rfl
  refine ⟨?_, ?_, fun path => ?_, fun x hx => ?_⟩
  · rw [hpaths, List.pairwise_map]
    exact hsorted
  · rw [hpaths, (hperm.map _).nodup_iff]
    exact ht.paths.sublist (List.filter_sublist.map _)
  · rw [hpaths, (hperm.map _).mem_iff, List.mem_map]
    constructor
    · rintro ⟨r, hr, rfl⟩
      obtain ⟨hr, howner⟩ := List.mem_filter.1 hr
      refine ⟨(h.holds r hr).written, ?_⟩
      rw [← of_decide_eq_true howner]
      exact (ht.owned r hr).2
    · rintro ⟨hne, hp⟩
      obtain ⟨r, hr, rfl⟩ := h.item path hne
      refine ⟨r, List.mem_filter.2 ⟨hr, decide_eq_true ?_⟩, rfl⟩
      exact hlaws.oneOwner (ht.owned r hr).1 hgood (ht.owned r hr).2 hp
  · obtain ⟨r, hr, rfl⟩ := List.mem_map.1 hx
    have hr := List.mem_of_mem_filter (hperm.mem_iff.1 hr)
    have hholds := h.holds r hr
    have hpos := List.length_pos_iff.2 hholds.written
    show ((w.db.currentKvVersion r.id).map (·.version)).getD 1 = (m.history r.path).length
    rw [← hholds.values.length_eq] at hpos ⊢
    rw [Database.currentKvVersion, hholds.numbered.argmax, List.getLast?_eq_getElem?,
      List.getElem?_eq_getElem (Nat.sub_lt hpos Nat.one_pos), Option.map_some, Option.getD_some,
      hholds.numbered.key_get]
    omega

/-- Where the tables hold the map, an unlocked vault answers as the map says. -/
theorem World.Stores.answers (h : w.Stores P m) (ht : w.db.KvTables P good)
    (hlaws : KvLaws P good canon) (hd : w.dek = some d) : w.KvAnswers P good m where
  write e path email data r hgood hr := by
    obtain ⟨hp, x, rfl, hpath, hx⟩ :=
      kvWrite_call_eq_ok (Prod.ext_iff.2 ⟨hr, rfl⟩)
    refine ⟨x, rfl, hpath, ?_⟩
    rcases h.lookup ht hlaws.oneOwner hgood hp with ⟨hnil, hf⟩ | ⟨item, hf, -, hholds⟩
    · rw [findOwned_eq ht hlaws.oneOwner hgood hp] at hf
      rcases hx with ⟨-, hx⟩ | ⟨item, hf', -⟩
      · rw [hx, hnil]
        rfl
      · rw [hf] at hf'
        cases hf'
    · rw [findOwned_eq ht hlaws.oneOwner hgood hp] at hf
      rcases hx with ⟨hf', -⟩ | ⟨item', hf', hx⟩
      · rw [hf] at hf'
        cases hf'
      · rw [hf] at hf'
        cases hf'
        have hlen := hholds.values.length_eq
        rw [hx, nextKvVersion_eq hholds.numbered, hlen]
        rw [← List.length_pos_iff, hlen, List.length_pos_iff]
        exact hholds.written
  absent e path email hgood hp hnil := by
    rcases h.lookup ht hlaws.oneOwner hgood hp with ⟨-, hf⟩ | ⟨item, -, -, hholds⟩
    swap
    · exact absurd hnil hholds.written
    refine ⟨fun k => ?_, ?_, ?_⟩
    · rw [kvRead_call hp hd, kvRead_of_absent hf]
      rfl
    · rw [kvVersions_call hp hd, Database.kvVersions, hf]
      rfl
    · rw [kvDelete_call hp hd, hf]
  readLast e path email x hgood hp hx := by
    have hne : m.history path ≠ [] := by
      rintro hnil
      simp [hnil] at hx
    obtain ⟨item, hf, hholds⟩ := h.found ht hlaws.oneOwner hgood hp hne
    have hpos := List.length_pos_iff.2 hholds.written
    rw [List.getLast?_eq_getElem?] at hx
    obtain ⟨v, hv, hnum, hopen⟩ := hholds.row hlaws.lawful hd hx
    have hasked := kvAsked_last hholds
    rw [hv] at hasked
    rw [kvRead_call hp hd, kvRead_of_asked hf hasked hopen, hnum, Nat.sub_add_cancel hpos]
    rfl
  readAt e path email k x hgood hp hx := by
    have hne : m.history path ≠ [] := by
      rintro hnil
      simp [hnil] at hx
    obtain ⟨item, hf, hholds⟩ := h.found ht hlaws.oneOwner hgood hp hne
    have hk := (List.getElem?_eq_some_iff.1 hx).1
    obtain ⟨v, hv, hnum, hopen⟩ := hholds.row hlaws.lawful hd hx
    have hasked := kvAsked_at hholds (k := k) (by have := hholds.small; omega)
    rw [hv] at hasked
    have hread := kvRead_of_asked hf hasked hopen
    rw [hnum] at hread
    rw [kvRead_call hp hd]
    exact congrArg (Except.map Data.kvValue) hread
  readAbove e path email k hgood hp hne hk hk' := by
    obtain ⟨item, hf, hholds⟩ := h.found ht hlaws.oneOwner hgood hp hne
    obtain ⟨j, rfl⟩ : ∃ j : Nat, k = (j + 1 : Nat) := ⟨(k - 1).toNat, by omega⟩
    have hasked := kvAsked_at hholds (k := j) (by omega)
    rw [List.getElem?_eq_none (by rw [hholds.values.length_eq]; omega)] at hasked
    rw [kvRead_call hp hd, kvRead_of_error hf hasked]
    rfl
  readBelow e path email k hgood hp hne hk := by
    obtain ⟨item, hf, -⟩ := h.found ht hlaws.oneOwner hgood hp hne
    rw [kvRead_call hp hd, kvRead_of_error hf (kvAsked_below hk)]
    rfl
  versions e path email hgood hp hne := by
    obtain ⟨item, hf, hholds⟩ := h.found ht hlaws.oneOwner hgood hp hne
    have hlen := hholds.values.length_eq
    have hrows : w.db.versionsOf item.id ≠ [] := by
      rwa [← List.length_pos_iff, hlen, List.length_pos_iff]
    rw [kvVersions_call hp hd, Database.kvVersions, hf]
    dsimp only
    rw [hholds.numbered.sorted.insertionSort_eq, if_neg (by simpa using hrows)]
    refine ⟨_, rfl, ?_⟩
    rw [List.map_map, ← hlen]
    exact hholds.numbered
  delete e path email hgood hp hne := by
    obtain ⟨item, hf, -⟩ := h.found ht hlaws.oneOwner hgood hp hne
    rw [kvDelete_call hp hd, hf]
  list e email hgood := ⟨_, kvList_call hd, h.list ht hlaws hgood⟩

/-- Along every run on behalf of good users, the tables hold the map of its calls. -/
theorem stores_run (hP : P.Lawful)
    (hload : ∀ data raw, P.dumps data = .ok raw → P.loads raw = .ok (canon data))
    (is : List (Env P × Call T J))
    (hgood : ∀ i ∈ is, ∀ email, i.2.email? = some email → good email) :
    (World.initial.after is).db.KvTables P good ∧
      (World.initial.after is).Stores P (kvMap canon (World.initial.trace is)) := by
  have hrun := @Run.run_induction _ _ _ World.call
    (fun (tr : History P) (w : World T B) =>
      (∀ x ∈ tr, ∀ email, x.1.2.email? = some email → good email) →
        (w.Unkeyed ∨ ∃ d, w.Keyed P d) ∧ w.db.KvTables P good ∧ w.Stores P (kvMap canon tr))
    World.initial (fun _ => ⟨.inl ⟨rfl, rfl⟩, kvTables_initial, stores_initial⟩) ?_ is
  · refine (hrun fun x hx => ?_).2
    exact hgood x.1 (Run.mem_of_mem_trace hx)
  · rintro tr w ⟨e, c⟩ ih hall
    obtain ⟨hkeyed, ht, hstores⟩ := ih fun x hx => hall x (List.mem_append_left _ hx)
    have hs := step_of_call e w c
    refine ⟨?_, ht.step (hall _ (List.mem_append_right _ List.mem_cons_self)) hs, ?_⟩
    · rcases hkeyed with hu | ⟨k, hk⟩
      · exact (hu.step hs).imp_right fun hk => ⟨_, hk⟩
      · exact .inr ⟨k, hk.step hP.unlocks hs⟩
    · rw [kvMap_concat]
      exact hstores.step hP hload hkeyed ht hs

end Refinement

theorem concrete_kvLaws {F : Type} {L : Lib F} (hcorrect : L.aesgcm.Correct)
    (hkey : L.aesgcm.KeyBound) (hff : L.floats.Lawful) :
    KvLaws (concrete L) EmailOk Json.Value.canon where
  lawful := concrete_lawful hcorrect hkey
  oneOwner := concrete_oneOwner L
  loads _ _ hd := concrete_loads hff hd
  le_total s t := (le_total s t).imp decide_eq_true decide_eq_true
  le_trans _ _ _ hst htu :=
    decide_eq_true (le_trans (of_decide_eq_true hst) (of_decide_eq_true htu))

/-- **The KV service refines a versioned map.** After any run from an empty database on behalf
    of users with well-formed addresses, whatever ids the database gives to its rows, an
    unlocked vault answers every KV call as the map of that run says. -/
theorem kv_refines {F : Type} (L : Lib F) (hcorrect : L.aesgcm.Correct)
    (hkey : L.aesgcm.KeyBound) (hff : L.floats.Lawful)
    (is : List (Env (concrete L) × Call Text (Json.Value F)))
    (hemail : ∀ i ∈ is, ∀ email, i.2.email? = some email → EmailOk email) (d : Bytes)
    (hd : (World.initial.after is).dek = some d) :
    (World.initial.after is).KvAnswers (concrete L) EmailOk
      (kvMap Json.Value.canon (World.initial.trace is)) := by
  have hlaws := concrete_kvLaws hcorrect hkey hff
  obtain ⟨ht, hstores⟩ := stores_run hlaws.lawful hlaws.loads is hemail
  exact hstores.answers ht hlaws hd

open Sample in
theorem kv_refines_sample :
    (World.initial.after kvCalls).KvAnswers (concrete lib) EmailOk
      (kvMap Json.Value.canon (World.initial.trace kvCalls)) :=
  kv_refines lib aesgcm_correct aesgcm_keyBound floats_lawful kvCalls kvCalls_ok dataKey
    kvCalls_dek

open Sample in
/-- A version below the first is refused as malformed, not as missing. -/
theorem read_zero :
    (World.initial.after kvCalls).dek = some dataKey ∧
      ((kvMap Json.Value.canon (World.initial.trace kvCalls)).history path).length = 2 ∧
      ((World.initial.after kvCalls).call (env 5, .kvRead path alice (some 0))).1 =
        .error (appError .validationError "Invalid version" 422) ∧
      ∀ message,
        appError .validationError "Invalid version" 422 ≠ appError .notFound message 404 := by
  have hp : (concrete lib).validatePath path alice = .ok () := by decide +kernel
  obtain ⟨item, hitem⟩ :
      ∃ item, (World.initial.after kvCalls).db.findOwned path alice = some item :=
    Option.isSome_iff_exists.1 (by decide +kernel)
  refine ⟨kvCalls_dek, by decide +kernel, ?_, ?_⟩
  · rw [kvRead_call hp kvCalls_dek, kvRead_of_error hitem (kvAsked_below (by decide))]
    rfl
  · intro message h
    cases h

end MiniVault
