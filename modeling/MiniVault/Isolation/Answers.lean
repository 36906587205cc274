/-
  What the operations that read answer, from the view alone: two databases with one view answer
  every visible query alike, up to the row ids.
-/
import MiniVault.Isolation.View

namespace MiniVault

open Kit

variable {T B J : Type} {P : Prims T B J} {S : Scope T} {db db' : Database T}

/-! ## Rows behind an entry -/

section Entries

variable {k k' : TransitKey T} {r r' : KVSecret T}

theorem keyEntry_key (h : db.keyEntry k = db'.keyEntry k') : k.anon = k'.anon :=
  congrArg Prod.fst h

theorem kvEntry_item (h : db.kvEntry r = db'.kvEntry r') : r.anon = r'.anon :=
  congrArg Prod.fst h

theorem keyVersion_entry (db : Database T) (k : TransitKey T) (n : Nat) :
    (db.keyVersion k.id n).map TransitKeyVersion.anon =
      (db.keyEntry k).2.find? fun v => v.version = n := by
  have hrows : db.keyVersion k.id n = (db.keyRows k.id).find? fun v => v.version = n := by
    unfold Database.keyVersion Database.keyRows
    rw [List.find?_filter]
    exact List.find?_congr fun v _ => by simp
  show _ = ((db.keyRows k.id).map TransitKeyVersion.anon).find? _
  rw [hrows, List.find?_map]
  rfl

theorem currentKeyVersion_entry (db : Database T) (k : TransitKey T) :
    (db.currentKeyVersion k.id).map TransitKeyVersion.anon =
      (db.keyEntry k).2.argmax (·.version) :=
  (Table.argmax_map (f := TransitKeyVersion.anon) (g := fun v : TransitKeyVersion T => v.version)
    (fun _ => rfl) _).symm

theorem kvVersion_entry (db : Database T) (r : KVSecret T) (n : Nat) :
    (db.kvSecretVersions.find? fun v => v.kvSecretId = r.id ∧ v.version = n).map
        KVSecretVersion.anon =
      (db.kvEntry r).2.find? fun v => v.version = n := by
  have hrows : (db.kvSecretVersions.find? fun v => v.kvSecretId = r.id ∧ v.version = n) =
      (db.versionsOf r.id).find? fun v => v.version = n := by
    unfold Database.versionsOf
    rw [List.find?_filter]
    exact List.find?_congr fun v _ => by simp
  show _ = ((db.versionsOf r.id).map KVSecretVersion.anon).find? _
  rw [hrows, List.find?_map]
  rfl

theorem currentKvVersion_entry (db : Database T) (r : KVSecret T) :
    (db.currentKvVersion r.id).map KVSecretVersion.anon =
      (db.kvEntry r).2.argmax (·.version) :=
  (Table.argmax_map (f := KVSecretVersion.anon) (g := fun v : KVSecretVersion T => v.version)
    (fun _ => rfl) _).symm

end Entries

variable [DecidableEq T]

/-! ## Lookups -/

section Lookups

variable {email name path : T}

/-- A lookup of a visible key is a lookup in the view. -/
theorem findKey_entry (hvis : S.keys email name = true) :
    (db.findKey email name).map db.keyEntry =
      (db.keyView S).find? fun x => x.1.ownerEmail = email ∧ x.1.keyName = name := by
  refine Table.find?_view (fun k _ hk => ?_) fun _ => rfl
  rw [decide_eq_true_eq] at hk
  rw [hk.1, hk.2]
  exact hvis

theorem findOwned_entry (hvis : S.users email = true) :
    (db.findOwned path email).map db.kvEntry =
      (db.kvView S).find? fun x => x.1.path = path ∧ x.1.ownerEmail = email := by
  refine Table.find?_view (fun r _ hr => ?_) fun _ => rfl
  rw [decide_eq_true_eq] at hr
  rw [hr.2]
  exact hvis

theorem findPath_entry (hvis : ∀ r ∈ db.kvSecrets, r.path = path → S.users r.ownerEmail = true) :
    (db.findPath path).map db.kvEntry = (db.kvView S).find? fun x => x.1.path = path := by
  refine Table.find?_view (fun r hr hpath => ?_) fun _ => rfl
  exact hvis r hr (of_decide_eq_true hpath)

/-- Rows found on both sides or on neither, showing the same. -/
def Paired {α β γ : Type} (f : α → γ) (g : β → γ) (a : Option α) (b : Option β) : Prop :=
  (a = none ∧ b = none) ∨ ∃ x y, a = some x ∧ b = some y ∧ f x = g y

omit [DecidableEq T] in
theorem paired_of_map {α β γ : Type} {f : α → γ} {g : β → γ} {a : Option α} {b : Option β}
    (h : a.map f = b.map g) : Paired f g a b := by
  cases a with
  | none =>
    cases b with
    | none => exact .inl ⟨rfl, rfl⟩
    | some y => cases h
  | some x =>
    cases b with
    | none => cases h
    | some y => exact .inr ⟨x, y, rfl, rfl, Option.some.inj h⟩

variable (h : db.Alike S db')

include h

theorem Database.Alike.findKey (hvis : S.keys email name = true) :
    Paired db.keyEntry db'.keyEntry (db.findKey email name) (db'.findKey email name) :=
  paired_of_map (by rw [findKey_entry hvis, findKey_entry hvis, h.keys])

theorem Database.Alike.findOwned (path : T) (hvis : S.users email = true) :
    Paired db.kvEntry db'.kvEntry (db.findOwned path email) (db'.findOwned path email) :=
  paired_of_map (by rw [findOwned_entry hvis, findOwned_entry hvis, h.kv])

theorem Database.Alike.findPath
    (hvis : ∀ r ∈ db.kvSecrets, r.path = path → S.users r.ownerEmail = true)
    (hvis' : ∀ r ∈ db'.kvSecrets, r.path = path → S.users r.ownerEmail = true) :
    Paired db.kvEntry db'.kvEntry (db.findPath path) (db'.findPath path) :=
  paired_of_map (by rw [findPath_entry hvis, findPath_entry hvis', h.kv])

end Lookups

/-! ## Key material -/

section Material

variable {k k' : TransitKey T}

omit [DecidableEq T]

/-- The decryption of a record does not look at ids. -/
theorem openRecord_anon (dek : B) (k : TransitKey T) (record : Option (TransitKeyVersion T))
    (n : Nat) :
    openRecord P dek k record n =
      openRecord P dek k.anon (record.map TransitKeyVersion.anon) n := by
  cases record with
  | none => rfl
  | some v => rfl

theorem recordAsked_anon (h : db.keyEntry k = db'.keyEntry k') (version : Option Nat) :
    (db.recordAsked k version).map TransitKeyVersion.anon =
      (db'.recordAsked k' version).map TransitKeyVersion.anon := by
  have husage : k.keyUsage = k'.keyUsage := congrArg (·.keyUsage) (keyEntry_key h)
  cases version with
  | some n =>
    show (db.keyVersion k.id n).map _ = (db'.keyVersion k'.id n).map _
    rw [keyVersion_entry, keyVersion_entry, h]
  | none =>
    unfold Database.recordAsked
    rw [← husage]
    cases k.keyUsage with
    | encryptDecrypt =>
      show (db.currentKeyVersion k.id).map _ = (db'.currentKeyVersion k'.id).map _
      rw [currentKeyVersion_entry, currentKeyVersion_entry, h]
    | signVerify => rfl

theorem currentKeyNumber_pair (h : db.keyEntry k = db'.keyEntry k') :
    db.currentKeyNumber k.id = db'.currentKeyNumber k'.id := by
  rw [currentKeyNumber_entry, currentKeyNumber_entry, h]

theorem versionAsked_pair (h : db.keyEntry k = db'.keyEntry k') (version : Option Nat) :
    db.versionAsked k version = db'.versionAsked k' version := by
  have husage : k.keyUsage = k'.keyUsage := congrArg (·.keyUsage) (keyEntry_key h)
  cases version with
  | some n => rfl
  | none =>
    unfold Database.versionAsked
    rw [← husage, currentKeyNumber_pair h]

/-- The material of a key is that of its entry. -/
theorem material_pair (h : db.keyEntry k = db'.keyEntry k') (dek : B) (version : Option Nat) :
    db.material P dek k version = db'.material P dek k' version := by
  have hopen : openRecord P dek k (db.recordAsked k version) (db.versionAsked k version) =
      openRecord P dek k' (db'.recordAsked k' version) (db'.versionAsked k' version) := by
    rw [openRecord_anon, openRecord_anon (k := k'), recordAsked_anon h, versionAsked_pair h,
      keyEntry_key h]
  unfold Database.material
  rw [hopen]
  cases version with
  | none => rfl
  | some n =>
    have hnone : db.keyVersion k.id n = none ↔ db'.keyVersion k'.id n = none := by
      rw [← Option.map_eq_none_iff (f := TransitKeyVersion.anon), keyVersion_entry, h,
        ← keyVersion_entry, Option.map_eq_none_iff]
    simp only [hnone]

theorem metadata_pair (h : db.keyEntry k = db'.keyEntry k') (aware : Bool) (n : Nat) :
    TransitService.metadata P aware k n = TransitService.metadata P aware k' n := by
  show TransitService.metadata P aware k.anon n = TransitService.metadata P aware k'.anon n
  rw [keyEntry_key h]

end Material

/-! ## Answers -/

section Kv

variable {path email : T}

omit [DecidableEq T] in
theorem openItem_anon (dek : B) (r : KVSecret T) (record : Option (KVSecretVersion T)) (path : T) :
    openItem P dek r record path =
      openItem P dek r.anon (record.map KVSecretVersion.anon) path := by
  cases record with
  | none => rfl
  | some v => rfl

omit [DecidableEq T] in
theorem kvAsked_anon {r r' : KVSecret T} (h : db.kvEntry r = db'.kvEntry r')
    (version : Option Int) :
    (db.kvAsked r version).map (Option.map KVSecretVersion.anon) =
      (db'.kvAsked r' version).map (Option.map KVSecretVersion.anon) := by
  cases version with
  | none =>
    show Except.ok ((db.currentKvVersion r.id).map _) =
      Except.ok ((db'.currentKvVersion r'.id).map _)
    rw [currentKvVersion_entry, currentKvVersion_entry, h]
  | some n =>
    have hfind := kvVersion_entry db r n.toNat
    rw [h, ← kvVersion_entry db' r' n.toNat] at hfind
    unfold Database.kvAsked
    by_cases hn : n < 1
    · simp only [if_pos hn]
    by_cases hb : 2 ^ 63 ≤ n.toNat
    · simp only [if_neg hn, if_pos hb]
    simp only [if_neg hn, if_neg hb]
    obtain ⟨hl, hr⟩ | ⟨v, v', hl, hr, hv⟩ := paired_of_map hfind
    · simp only [hl, hr]
    · simp only [hl, hr]
      show Except.ok (some v.anon) = Except.ok (some v'.anon)
      rw [hv]

omit [DecidableEq T] in
theorem insertionSort_anon (rows : List (KVSecretVersion T)) :
    (rows.insertionSort fun a b => a.version ≤ b.version).map KVSecretVersion.anon =
      (rows.map KVSecretVersion.anon).insertionSort fun a b => a.version ≤ b.version :=
  List.map_insertionSort _ _ KVSecretVersion.anon rows fun _ _ _ _ => Iff.rfl

variable (h : db.Alike S db') (hvis : S.users email = true)

include h hvis

theorem kvRead_pair (dek : B) (version : Option Int) :
    db.kvRead P dek path email version = db'.kvRead P dek path email version := by
  unfold Database.kvRead
  obtain ⟨hl, hr⟩ | ⟨r, r', hl, hr, hentry⟩ := h.findOwned path hvis
  · rw [hl, hr]
  rw [hl, hr]
  have hasked := kvAsked_anon hentry version
  simp only
  generalize db.kvAsked r version = a at hasked
  generalize db'.kvAsked r' version = a' at hasked
  cases a with
  | error x =>
    cases a' with
    | error x' =>
      rw [Except.error.inj hasked]
    | ok record => cases hasked
  | ok record =>
    cases a' with
    | error x' => cases hasked
    | ok record' =>
      have hrec : record.map KVSecretVersion.anon = record'.map KVSecretVersion.anon :=
        Except.ok.inj hasked
      have hversion : record.map (·.version) = record'.map (·.version) := by
        have := congrArg (Option.map fun v : KVSecretVersion T => v.version) hrec
        rwa [Option.map_map, Option.map_map] at this
      simp only
      rw [openItem_anon, openItem_anon (r := r'), hrec, kvEntry_item hentry, hversion]

theorem kvVersions_pair : db.kvVersions P path email = db'.kvVersions P path email := by
  unfold Database.kvVersions
  obtain ⟨hl, hr⟩ | ⟨r, r', hl, hr, hentry⟩ := h.findOwned path hvis
  · rw [hl, hr]
  rw [hl, hr]
  have hcreated : r.createdAt = r'.createdAt := congrArg (·.createdAt) (kvEntry_item hentry)
  have hrows : ((db.versionsOf r.id).insertionSort fun a b => a.version ≤ b.version).map
        KVSecretVersion.anon =
      ((db'.versionsOf r'.id).insertionSort fun a b => a.version ≤ b.version).map
        KVSecretVersion.anon := by
    rw [insertionSort_anon, insertionSort_anon, show (db.versionsOf r.id).map KVSecretVersion.anon =
        (db'.versionsOf r'.id).map KVSecretVersion.anon from congrArg Prod.snd hentry]
  simp only
  generalize (db.versionsOf r.id).insertionSort (fun a b => a.version ≤ b.version) = rows
    at hrows ⊢
  generalize (db'.versionsOf r'.id).insertionSort (fun a b => a.version ≤ b.version) = rows'
    at hrows ⊢
  have hempty : rows.isEmpty = rows'.isEmpty := by
    have := congrArg List.isEmpty hrows
    rwa [List.isEmpty_map, List.isEmpty_map] at this
  have hshown := congrArg (List.map fun v : KVSecretVersion T =>
    ({ version := v.version, createdAt := P.isoformat false v.createdAt } : KVVersion T)) hrows
  rw [List.map_map, List.map_map] at hshown
  rw [hempty, hcreated]
  split
  · rfl
  · exact congrArg Except.ok hshown

theorem kvList_pair : db.kvList P email = db'.kvList P email := by
  -- the list is a function of the visible entries, in their order
  have hview : ∀ db : Database T, db.kvList P email =
      (((db.kvView S).filter fun x => x.1.ownerEmail = email).insertionSort
        fun a b => P.le a.1.path b.1.path).map fun x =>
          { path := x.1.path
            currentVersion := ((x.2.argmax (·.version)).map (·.version)).getD 1
            createdAt := P.isoformat false x.1.createdAt
            updatedAt := P.isoformat false x.1.updatedAt } := by
    intro db
    have hfilter : (db.kvSecrets.filter (·.ownerEmail = email)).map db.kvEntry =
        (db.kvView S).filter fun x => x.1.ownerEmail = email := by
      refine Table.filter_view (fun r _ hr => ?_) fun _ => rfl
      rw [of_decide_eq_true hr]
      exact hvis
    rw [← hfilter, ← List.map_insertionSort (fun a b : KVSecret T => P.le a.path b.path)
      _ _ _ fun _ _ _ _ => Iff.rfl, List.map_map]
    refine List.map_congr_left fun r _ => ?_
    show _ = KVListed.mk _ _ _ _
    rw [← currentKvVersion_entry, Option.map_map]
    rfl
  rw [hview db, hview db', h.kv]

end Kv

/-- The listing of a user's keys, without the hidden ones. -/
theorem keyList_pair (h : db.Alike S db') (email : T) :
    (db.keyList P email).filter (fun m => S.keys email m.keyName) =
      (db'.keyList P email).filter (fun m => S.keys email m.keyName) := by
  have hview : ∀ db : Database T,
      (db.keyList P email).filter (fun m => S.keys email m.keyName) =
        ((db.keyView S).filter fun x =>
            S.keys email x.1.keyName && decide (x.1.ownerEmail = email ∧ x.1.revokedAt = none)).map
          fun x => TransitService.metadata P false x.1 (currentOf x.2) := by
    intro db
    have hfilter : (db.transitKeys.filter fun k =>
          S.keys email k.keyName && decide (k.ownerEmail = email ∧ k.revokedAt = none)).map
            db.keyEntry =
        (db.keyView S).filter fun x =>
          S.keys email x.1.keyName && decide (x.1.ownerEmail = email ∧ x.1.revokedAt = none) := by
      refine Table.filter_view (fun k _ hk => ?_) fun _ => rfl
      rw [Bool.and_eq_true, decide_eq_true_eq] at hk
      rw [hk.2.1]
      exact hk.1
    unfold Database.keyList
    rw [← hfilter, List.filter_map, List.filter_filter, List.map_map]
    refine List.map_congr_left fun k _ => ?_
    rw [currentKeyNumber_entry]
    rfl
  rw [hview db, hview db', h.keys]

end MiniVault
