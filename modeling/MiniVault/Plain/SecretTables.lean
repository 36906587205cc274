/-
  The KV tables hold the secrets in the clear, encrypted under the data key: an item row for each
  secret, and a version row for each value that was written. Every call moves both alike.
-/
import MiniVault.Kv.Contents
import MiniVault.Plain.Vault

namespace MiniVault

open Kit

variable {T B J : Type} {P : Prims T B J}

/-! ## Representation -/

/-- The rows of an item hold what was written, and when. -/
structure World.HoldsSecret (P : Prims T B J) (w : World T B) (row : KVSecret T)
    (s : PlainSecret T J) : Prop where
  path : row.path = s.path
  owner : row.ownerEmail = s.owner
  createdAt : row.createdAt = s.createdAt
  updatedAt : row.updatedAt = s.updatedAt
  values : w.Holds P row.id s.path (s.written.map (·.1))
  times : (w.db.versionsOf row.id).map (·.createdAt) = s.written.map (·.2)

/-- The tables hold the secrets. -/
def World.HoldsSecrets (P : Prims T B J) (w : World T B) (ss : PlainSecrets T J) : Prop :=
  List.Forall₂ (w.HoldsSecret P) w.db.kvSecrets ss.secrets

theorem holdsSecrets_initial : (World.initial : World T B).HoldsSecrets P .empty := .nil

section Frame

variable {w w' : World T B} {row : KVSecret T} {s : PlainSecret T J}

/-- A secret whose rows stay. -/
theorem World.HoldsSecret.frame (h : w.HoldsSecret P row s)
    (hmono : ∀ d, w.Keyed P d → w'.Keyed P d)
    (hrows : w'.db.versionsOf row.id = w.db.versionsOf row.id) : w'.HoldsSecret P row s where
  path := h.path
  owner := h.owner
  createdAt := h.createdAt
  updatedAt := h.updatedAt
  values := h.values.frame hmono hrows
  times := by rw [hrows, h.times]

/-- A call that leaves the KV tables. -/
theorem World.HoldsSecrets.frame {ss : PlainSecrets T J} (h : w.HoldsSecrets P ss)
    (hmono : ∀ d, w.Keyed P d → w'.Keyed P d) (hs : w'.db.kvSecrets = w.db.kvSecrets)
    (hv : w'.db.kvSecretVersions = w.db.kvSecretVersions) : w'.HoldsSecrets P ss := by
  unfold World.HoldsSecrets
  rw [hs]
  refine List.Forall₂.imp (fun row s hrow => hrow.frame hmono ?_) h
  unfold Database.versionsOf
  rw [hv]

end Frame

/-! ## Preservation -/

section Preserved

variable [DecidableEq T] {canon : J → J} {good : T → Prop} {w w' : World T B}
  {ss : PlainSecrets T J} {row item : KVSecret T} {s : PlainSecret T J} {e : Env P}
  {path email : T} {data : J} {dek raw : B}

/-- Items and secrets are found alike. -/
theorem World.HoldsSecrets.lookup (hold : w.HoldsSecrets P ss) (path : T) :
    (w.db.findPath path = none ∧ ss.lookup path = none) ∨
      ∃ row s, w.db.findPath path = some row ∧ ss.lookup path = some s ∧
        w.HoldsSecret P row s :=
  Table.forall₂_find? hold fun row s hrow => by rw [hrow.path]

theorem World.HoldsSecrets.create (hold : w.HoldsSecrets P ss) (ht : w.db.KvTables P good)
    (hmono : ∀ d, w.Keyed P d → w'.Keyed P d) (hk : w'.Keyed P dek)
    (hload : P.loads raw = .ok (canon data)) (hnone : ss.lookup path = none)
    (hdb : w'.db = w.db.kvCreate P e path email dek raw) :
    w'.HoldsSecrets P (ss.add (.fresh path email (canon data) e.now)) := by
  have habsent : (PlainSecret.fresh path email (canon data) e.now).path ∉
      ss.secrets.map (·.path) := by
    intro hmem
    obtain ⟨s, hs, hpath⟩ := List.mem_map.1 hmem
    exact List.find?_eq_none.1 hnone s hs (decide_eq_true hpath)
  have hsecrets : w'.db.kvSecrets = w.db.kvSecrets ++
      [newSecret P e (e.rowid (w.db.kvSecrets.map (·.id))) path email dek raw] := by
    rw [hdb]
    rfl
  have hversions : w'.db.versionsOf (e.rowid (w.db.kvSecrets.map (·.id))) =
      [newSecretVersion P e (e.rowid (w.db.kvSecrets.map (·.id))) 1 path dek raw] := by
    rw [hdb]
    exact versionsOf_kvCreate_self ht
  unfold World.HoldsSecrets PlainSecrets.add
  rw [dif_neg habsent, hsecrets]
  refine List.rel_append ?_ (.cons ?_ .nil)
  · have hframe : List.Forall₂ (w'.HoldsSecret P) (w.db.kvSecrets.map id) (ss.secrets.map id) :=
      Table.forall₂_map hold fun row hrow s hholds => hholds.frame hmono (by
        rw [hdb]
        exact versionsOf_kvCreate_of_mem hrow)
    rwa [List.map_id, List.map_id] at hframe
  · refine ⟨rfl, rfl, rfl, rfl, ⟨List.cons_ne_nil _ _, ?_, ?_, ?_⟩, ?_⟩
    · exact Nat.one_lt_two_pow (by decide)
    · exact hversions ▸ rfl
    · change List.Forall₂ _ (w'.db.versionsOf (e.rowid (w.db.kvSecrets.map (·.id)))) _
      rw [hversions]
      exact .cons (sealed_new hk hload e _ 1 path) .nil
    · change (w'.db.versionsOf (e.rowid (w.db.kvSecrets.map (·.id)))).map _ = _
      rw [hversions]
      rfl

theorem World.HoldsSecrets.append (hold : w.HoldsSecrets P ss) (ht : w.db.KvTables P good)
    (hmono : ∀ d, w.Keyed P d → w'.Keyed P d) (hk : w'.Keyed P dek)
    (hload : P.loads raw = .ok (canon data)) (hf : w.db.findPath path = some item)
    (hv : w.db.nextKvVersion item.id < 2 ^ 63)
    (hdb : w'.db = w.db.kvUpdate P e item path dek raw) :
    w'.HoldsSecrets P (ss.append path (canon data) e.now) := by
  obtain ⟨hitem, hpath⟩ := findPath_eq_some hf
  unfold World.HoldsSecrets
  rw [hdb, kvUpdate_secrets]
  refine Table.forall₂_map hold fun row hrow s hholds => ?_
  unfold Table.updated
  by_cases hid : row.id = item.id
  · obtain rfl := Table.eq_of_key ht.ids hrow hitem hid
    have hsame : s.path = path := hholds.path.symm.trans hpath
    rw [if_pos rfl, if_pos hsame]
    have hversions : w'.db.versionsOf row.id = w.db.versionsOf row.id ++
        [newSecretVersion P e row.id (w.db.nextKvVersion row.id) path dek raw] := by
      rw [hdb]
      exact versionsOf_kvUpdate_self
    refine ⟨hholds.path, hholds.owner, hholds.createdAt, rfl, ?_, ?_⟩
    · change w'.Holds P row.id s.path ((s.written ++ [(canon data, e.now)]).map (·.1))
      rw [List.map_append, hsame]
      exact (hsame ▸ hholds.values).kvUpdate hmono hk hload hv hdb
    · change (w'.db.versionsOf row.id).map _ = (s.written ++ [(canon data, e.now)]).map (·.2)
      rw [hversions, List.map_append, List.map_append, hholds.times]
      rfl
  · have hne : s.path ≠ path := fun heq =>
      hid (congrArg (·.id) (Table.eq_of_key ht.paths hrow hitem
        (hholds.path.trans (heq.trans hpath.symm))))
    rw [if_neg hid, if_neg hne]
    refine hholds.frame hmono ?_
    rw [hdb]
    exact versionsOf_kvUpdate_of_ne (Ne.symm hid)

theorem World.HoldsSecrets.remove (hold : w.HoldsSecrets P ss) (ht : w.db.KvTables P good)
    (hmono : ∀ d, w.Keyed P d → w'.Keyed P d) (hitem : item ∈ w.db.kvSecrets)
    (hdb : w'.db = w.db.deleteKvSecret item.id) : w'.HoldsSecrets P (ss.remove item.path) := by
  have hpath : ∀ row ∈ w.db.kvSecrets, row.id ≠ item.id ↔ row.path ≠ item.path := by
    intro row hrow
    rw [not_iff_not]
    constructor
    · intro hid
      rw [Table.eq_of_key ht.ids hrow hitem hid]
    · intro heq
      rw [Table.eq_of_key ht.paths hrow hitem heq]
  have hfilter : List.Forall₂ (w.HoldsSecret P)
      (w.db.kvSecrets.filter fun row => row.id ≠ item.id)
      (ss.secrets.filter fun s => s.path ≠ item.path) := by
    have hsame : w.db.kvSecrets.filter (fun row => row.id ≠ item.id) =
        w.db.kvSecrets.filter fun row => row.path ≠ item.path :=
      List.filter_congr fun row hrow => decide_eq_decide.2 (hpath row hrow)
    rw [hsame]
    refine List.rel_filter (fun row s hrow => ?_) hold
    simp only [decide_eq_true_eq]
    rw [hrow.path]
  have hframe : List.Forall₂ (w'.HoldsSecret P)
      ((w.db.kvSecrets.filter fun row => row.id ≠ item.id).map id)
      ((ss.secrets.filter fun s => s.path ≠ item.path).map id) :=
    Table.forall₂_map hfilter fun row hrow s hholds => hholds.frame hmono (by
      rw [hdb]
      exact versionsOf_deleteKvSecret (of_decide_eq_true (List.mem_filter.1 hrow).2))
  rw [List.map_id, List.map_id] at hframe
  unfold World.HoldsSecrets
  rw [hdb]
  exact hframe

theorem hearSecrets_error (ss : PlainSecrets T J) (i : Env P × Call T J) (x : Exc) :
    ss.hear canon (i, .error x) = ss := by
  obtain ⟨e, c⟩ := i
  cases c <;> rfl

theorem hearSecrets_view (ss : PlainSecrets T J) (e : Env P) {c : Call T J}
    (hc : c.isView = true) (d : Data T J) : ss.hear canon ((e, c), .ok d) = ss := by
  cases c with
  | kvWrite => cases hc
  | kvDelete => cases hc
  | _ => rfl

theorem hearSecrets_fresh (hnone : ss.lookup path = none) (d : Data T J) :
    ss.hear canon ((e, .kvWrite path email data), .ok d) =
      ss.add (.fresh path email (canon data) e.now) := by
  simp only [PlainSecrets.hear, hnone]

theorem hearSecrets_append (hsome : ss.lookup path = some s) (d : Data T J) :
    ss.hear canon ((e, .kvWrite path email data), .ok d) =
      ss.append path (canon data) e.now := by
  simp only [PlainSecrets.hear, hsome]

/-- Every call moves the tables and the secrets alike. -/
theorem World.HoldsSecrets.step (hP : P.Lawful)
    (hload : ∀ data raw, P.dumps data = .ok raw → P.loads raw = .ok (canon data))
    (hkeyed : w.Unkeyed ∨ ∃ d, w.Keyed P d) (ht : w.db.KvTables P good)
    (hold : w.HoldsSecrets P ss) {c : Call T J} {r : Except Exc (Data T J)}
    (hs : Step e w c r w') : w'.HoldsSecrets P (ss.hear canon ((e, c), r)) := by
  have hmono : ∀ d, w.Keyed P d → w'.Keyed P d := fun d hd => hd.step hP.unlocks hs
  have hdek : ∀ {dek}, w.dek = some dek → w'.Keyed P dek := fun hd =>
    hmono _ (World.keyed_of_loaded hkeyed hd)
  cases hs with
  | fail c x =>
    rw [hearSecrets_error]
    exact hold.frame hmono rfl rfl
  | view d hc =>
    rw [hearSecrets_view ss e hc]
    exact hold.frame hmono rfl rfl
  | @kvCreate path email data dek raw hw hf =>
    rcases hold.lookup path with ⟨-, hnone⟩ | ⟨row, s, hrow, -⟩
    · rw [hearSecrets_fresh hnone]
      exact hold.create ht hmono (hdek hw.unlocked) (hload _ _ hw.dumped) hnone rfl
    · cases hf.symm.trans hrow
  | @kvUpdate path email data dek raw item hw hf hv =>
    rcases hold.lookup path with ⟨hnone, -⟩ | ⟨row, s, -, hsome, -⟩
    · cases hf.symm.trans hnone
    · rw [hearSecrets_append hsome]
      exact hold.append ht hmono (hdek hw.unlocked) (hload _ _ hw.dumped) hf hv rfl
  | kvDelete hp hd hf =>
    obtain ⟨hitem, rfl, -⟩ := findOwned_eq_some hf
    exact hold.remove ht hmono hitem rfl
  | _ => exact hold.frame hmono rfl rfl

end Preserved

end MiniVault
