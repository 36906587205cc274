/-
  What the KV views say of one item. `versions`, `list` and `read` take an item without version
  rows for one at version 1; `read` with a number does not, so that the version that the other
  three show cannot be asked for.
-/
import MiniVault.Kv.History

namespace MiniVault

open Kit

variable {T B J : Type} {P : Prims T B J} [DecidableEq T]

/-! ## The views -/

/-- `versions`, `list`, `read` and `read` with a number show the same versions of an item: every
    version listed can be read, and the last of them is the current one in all views. -/
structure World.ViewsAgree (P : Prims T B J) (w : World T B) (e : Env P) (item : KVSecret T)
    (listed : List (KVVersion T)) (paths : List (KVListed T)) (n : Nat) (x : J) : Prop where
  versions : (w.call (e, .kvVersions item.path item.ownerEmail)).1 = .ok (.kvVersions listed)
  list : (w.call (e, .kvList item.ownerEmail)).1 = .ok (.kvListed paths)
  readable : ∀ v ∈ listed, ∃ y,
    (w.call (e, .kvRead item.path item.ownerEmail (some (v.version : Int)))).1 =
      .ok (.kvValue ⟨item.path, v.version, y⟩)
  largest : n ∈ listed.map (·.version) ∧ ∀ v ∈ listed, v.version ≤ n
  current : (∃ l ∈ paths, l.path = item.path) ∧
    ∀ l ∈ paths, l.path = item.path → l.currentVersion = n
  read : (w.call (e, .kvRead item.path item.ownerEmail none)).1 =
    .ok (.kvValue ⟨item.path, n, x⟩)
  readLast : (w.call (e, .kvRead item.path item.ownerEmail (some (n : Int)))).1 =
    .ok (.kvValue ⟨item.path, n, x⟩)

section Views

variable {w : World T B} {dek : B} {item : KVSecret T} {e : Env P}

theorem findOwned_of_mem {db : Database T} (hpaths : (db.kvSecrets.map (·.path)).Nodup)
    (hitem : item ∈ db.kvSecrets) : db.findOwned item.path item.ownerEmail = some item := by
  rcases hf : db.findOwned item.path item.ownerEmail with _ | r
  · exact absurd (decide_eq_true ⟨rfl, rfl⟩) (List.find?_eq_none.1 hf item hitem)
  · obtain ⟨hr, hpath, -⟩ := findOwned_eq_some hf
    rw [Table.eq_of_key hpaths hr hitem hpath]

/-- Without version rows, `versions` shows version 1. -/
theorem kvVersions_of_nil {db : Database T} {path email : T}
    (hf : db.findOwned path email = some item) (hnil : db.versionsOf item.id = []) :
    db.kvVersions P path email =
      .ok [{ version := 1, createdAt := P.isoformat false item.createdAt }] := by
  rw [Database.kvVersions, hf]
  simp [hnil]

theorem viewsAgree_of_rows (hd : w.dek = some dek) (h : w.db.KvAdmitted)
    (hitem : item ∈ w.db.kvSecrets) (hp : P.validatePath item.path item.ownerEmail = .ok ())
    (hopens : ∀ v ∈ w.db.versionsOf item.id, ∃ x, v.Opens P dek item.path x)
    (hne : w.db.versionsOf item.id ≠ []) :
    ∃ listed paths n x, w.ViewsAgree P e item listed paths n x := by
  have hf := findOwned_of_mem h.paths hitem
  obtain ⟨listed, hlisted, hversions⟩ := kvVersions_of_rows (P := P) hf hne
  obtain ⟨c, hc⟩ : ∃ c, w.db.currentKvVersion item.id = some c :=
    Option.ne_none_iff_exists'.1 fun hnone => hne (List.argmax_eq_none.1 hnone)
  have hmem : c ∈ w.db.versionsOf item.id := List.argmax_mem hc
  have hread : ∀ v ∈ w.db.versionsOf item.id, ∀ x, v.Opens P dek item.path x →
      (w.call (e, .kvRead item.path item.ownerEmail (some (v.version : Int)))).1 =
        .ok (.kvValue ⟨item.path, v.version, x⟩) := by
    intro v hv x hx
    have hrange := h.range v (mem_versionsOf.1 hv).1
    rw [kvRead_call hp hd, kvRead_of_asked hf (kvAsked_row (h.rows_distinct _) hv hrange) hx]
    rfl
  obtain ⟨x, hx⟩ := hopens c hmem
  refine ⟨listed, w.db.kvList P item.ownerEmail, c.version, x, ?_, kvList_call hd, ?_, ⟨?_, ?_⟩,
    ⟨?_, ?_⟩, kvRead_newest hp hd hf hc hx, hread c hmem x hx⟩
  · rw [kvVersions_call hp hd, hlisted]
    rfl
  · intro v hv
    obtain ⟨u, hu, heq⟩ := List.mem_map.1 ((hversions v.version).1 (List.mem_map_of_mem hv))
    obtain ⟨y, hy⟩ := hopens u hu
    exact ⟨y, heq ▸ hread u hu y hy⟩
  · exact (hversions c.version).2 (List.mem_map_of_mem hmem)
  · intro v hv
    obtain ⟨u, hu, heq⟩ := List.mem_map.1 ((hversions v.version).1 (List.mem_map_of_mem hv))
    rw [← heq]
    exact List.le_of_mem_argmax hu hc
  · refine ⟨_, List.mem_map_of_mem ((List.mem_insertionSort _).2 (List.mem_filter.2
      ⟨hitem, decide_eq_true rfl⟩)), rfl⟩
  · intro l hl hpath
    obtain ⟨r, hr, rfl⟩ := List.mem_map.1 hl
    have hr' := (List.mem_filter.1 ((List.mem_insertionSort _).1 hr)).1
    rw [Table.eq_of_key h.paths hr' hitem hpath]
    show ((w.db.currentKvVersion item.id).map (·.version)).getD 1 = c.version
    rw [hc]
    rfl

theorem not_viewsAgree_of_nil (hd : w.dek = some dek) (h : w.db.KvAdmitted)
    (hitem : item ∈ w.db.kvSecrets) (hp : P.validatePath item.path item.ownerEmail = .ok ())
    (hnil : w.db.versionsOf item.id = []) :
    ¬ ∃ listed paths n x, w.ViewsAgree P e item listed paths n x := by
  rintro ⟨listed, paths, n, x, hagree⟩
  have hf := findOwned_of_mem h.paths hitem
  have hlisted := hagree.versions
  rw [kvVersions_call hp hd, kvVersions_of_nil hf hnil] at hlisted
  cases hlisted
  obtain ⟨y, hy⟩ := hagree.readable _ (List.mem_singleton_self _)
  obtain ⟨z, hz⟩ : ∃ z, w.db.kvAsked item (some ((1 : Nat) : Int)) = .error z :=
    kvAsked_no_row fun v hv => by
      rw [hnil] at hv
      cases hv
  rw [kvRead_call hp hd, kvRead_of_error hf hz] at hy
  cases hy

end Views

/-- In every state that the schema admits, with an unlocked vault and version rows that open: the
    views of an item agree exactly if it has a version row. -/
theorem kv_views_agree_iff {w : World T B} {dek : B} (hd : w.dek = some dek)
    (h : w.db.KvAdmitted) {item : KVSecret T} (hitem : item ∈ w.db.kvSecrets)
    (hp : P.validatePath item.path item.ownerEmail = .ok ())
    (hopens : ∀ v ∈ w.db.versionsOf item.id, ∃ x, v.Opens P dek item.path x) (e : Env P) :
    (∃ listed paths n x, w.ViewsAgree P e item listed paths n x) ↔
      w.db.versionsOf item.id ≠ [] :=
  ⟨fun hagree hnil => not_viewsAgree_of_nil hd h hitem hp hnil hagree,
    viewsAgree_of_rows hd h hitem hp hopens⟩

namespace Sample

/-- The numbers that a response to `versions` shows. -/
def shownVersions : Except Exc (Data Text (Json.Value Unit)) → Option (List Nat)
  | .ok (.kvVersions l) => some (l.map (·.version))
  | _ => none

theorem ok_of_toBool {α : Type} {r : Except Exc α} (h : r.toBool = true) : ∃ a, r = .ok a := by
  rcases r with x | a
  · cases h
  · exact ⟨a, rfl⟩

theorem written_valid : ∀ r ∈ written.db.kvSecrets,
    (concrete lib).validatePath r.path r.ownerEmail = .ok () := by
  intro r hr
  have hok : ((concrete lib).validatePath r.path r.ownerEmail).toBool = true := by
    revert r
    decide +kernel
  obtain ⟨u, hu⟩ := ok_of_toBool hok
  exact hu

end Sample

open Sample in
/-- Of a secret stored before there were versions, `versions` and `read` show version 1, and `read`
    of version 1 does not find it. -/
theorem unversioned_views_disagree :
    unversioned.db.KvAdmitted ∧
      shownVersions (unversioned.call ((env 5, .kvVersions path alice) : SampleCall)).1 =
        some [1] ∧
      (unversioned.call ((env 5, .kvRead path alice none) : SampleCall)).1 =
        .ok (.kvValue ⟨path, 1, secret 1⟩) ∧
      (unversioned.call ((env 5, .kvRead path alice (some 1)) : SampleCall)).1 =
        .error (appError .notFound "Secret version not found" 404) ∧
      ∀ item ∈ unversioned.db.kvSecrets,
        ¬ ∃ listed paths n x,
          unversioned.ViewsAgree (concrete lib) (env 5) item listed paths n x := by
  obtain ⟨hd, hshown, hread, hraised⟩ : unversioned.dek = some dataKey ∧
      shownVersions (unversioned.call ((env 5, .kvVersions path alice) : SampleCall)).1 =
        some [1] ∧
      readNumber unversioned none = some (1, 1) ∧
      raised (unversioned.call ((env 5, .kvRead path alice (some 1)) : SampleCall)).1 =
        some (appError .notFound "Secret version not found" 404) := by
    decide +kernel
  refine ⟨written_admitted.noVersions, hshown, read_call hread, raised_eq_some hraised,
    fun item hitem => ?_⟩
  have hnil : unversioned.db.versionsOf item.id = [] := by
    simp [unversioned, Database.versionsOf]
  have hwritten : item ∈ written.db.kvSecrets := by simpa only [unversioned] using hitem
  exact not_viewsAgree_of_nil hd written_admitted.noVersions hitem (written_valid item hwritten)
    hnil

open Sample in
/-- Of a secret that was written twice, the views agree. -/
theorem kv_views_agree_iff_sample :
    ∃ item ∈ (World.initial.after kvCalls).db.kvSecrets,
      ((World.initial.after kvCalls).db.versionsOf item.id).length = 2 ∧
        ∃ listed paths n x, (World.initial.after kvCalls).ViewsAgree (concrete lib) (env 5) item
          listed paths n x := by
  obtain ⟨hids, hpaths, hversions, hnumbers, hrows⟩ :
      ((World.initial.after kvCalls).db.kvSecrets.map (·.id)).Nodup ∧
        ((World.initial.after kvCalls).db.kvSecrets.map (·.path)).Nodup ∧
        ((World.initial.after kvCalls).db.kvSecretVersions.map fun v =>
          (v.kvSecretId, v.version)).Nodup ∧
        (∀ v ∈ (World.initial.after kvCalls).db.kvSecretVersions,
          1 ≤ v.version ∧ v.version < 2 ^ 63) ∧
        ∀ r ∈ (World.initial.after kvCalls).db.kvSecrets,
          ((concrete lib).validatePath r.path r.ownerEmail).toBool = true ∧
          ((World.initial.after kvCalls).db.versionsOf r.id).length = 2 ∧
          ∀ v ∈ (World.initial.after kvCalls).db.versionsOf r.id,
            (KVService.openSecret (concrete lib) dataKey v.nonceB64 v.ciphertextB64 r.path).toBool =
              true := by
    decide +kernel
  obtain ⟨item, hitem⟩ := kvCalls_secrets
  obtain ⟨hvalid, hlen, hopens⟩ := hrows item hitem
  obtain ⟨u, hu⟩ := ok_of_toBool hvalid
  have hne : (World.initial.after kvCalls).db.versionsOf item.id ≠ [] := by
    intro hnil
    rw [hnil] at hlen
    cases hlen
  exact ⟨item, hitem, hlen, (kv_views_agree_iff kvCalls_dek ⟨hids, hpaths, hversions, hnumbers⟩
    hitem hu (fun v hv => ok_of_toBool (hopens v hv)) (env 5)).2 hne⟩

end MiniVault
