/-
  The KV service answers as the secrets in the clear that its tables hold, locked or not.
-/
import MiniVault.Kv.Refine
import MiniVault.Plain.SecretTables

namespace MiniVault

open Kit Imp

variable {T B J : Type} {P : Prims T B J} [DecidableEq T]

/-! ## Secrets -/

section Found

variable {w : World T B} {ss : PlainSecrets T J} {row : KVSecret T} {s : PlainSecret T J} {d : B}
  {path email : T} {unlocked : Bool} {x : Exc}

theorem findSecret_of_invalid (hp : P.validatePath path email = .error x) :
    ss.find P unlocked path email = .error x := by
  unfold PlainSecrets.find
  rw [hp]
  rfl

theorem findSecret_of_locked (hp : P.validatePath path email = .ok ()) :
    ss.find P false path email = .error (appError .vaultLocked "Vault is locked" 423) := by
  unfold PlainSecrets.find
  rw [hp]
  rfl

theorem findSecret_eq (hp : P.validatePath path email = .ok ()) :
    ss.find P true path email =
      match ss.lookup path with
      | none => .error secretNotFound
      | some s => if s.owner = email then .ok s else .error secretNotFound := by
  unfold PlainSecrets.find
  rw [hp]
  rfl

/-- Of the secrets of an unlocked service, a user finds the own ones. -/
theorem World.HoldsSecrets.find (hold : w.HoldsSecrets P ss)
    (hp : P.validatePath path email = .ok ()) :
    (ss.find P true path email = .error secretNotFound ∧ w.db.findOwned path email = none) ∨
      ∃ row s, ss.find P true path email = .ok s ∧ w.db.findOwned path email = some row ∧
        s.path = path ∧ w.HoldsSecret P row s := by
  have hboth := Table.forall₂_find? (p := fun r => r.path = path ∧ r.ownerEmail = email)
    (q := fun s => s.path = path ∧ s.owner = email) hold fun row s hrow => by
      rw [hrow.path, hrow.owner]
  rw [findSecret_eq hp]
  rcases hboth with ⟨hrows, hsecrets⟩ | ⟨row, s, hrow, hs, hholds⟩
  · refine .inl ⟨?_, hrows⟩
    rcases hl : ss.lookup path with _ | s
    · rfl
    · have hpath := List.find?_some hl
      refine if_neg fun howner => ?_
      exact List.find?_eq_none.1 hsecrets s (List.mem_of_find?_eq_some hl)
        (decide_eq_true ⟨of_decide_eq_true hpath, howner⟩)
  · have hboth := List.find?_some hs
    obtain ⟨hpath, howner⟩ := of_decide_eq_true hboth
    refine .inr ⟨row, s, ?_, hrow, hpath, hholds⟩
    have hl : ss.lookup path = some s := by
      rw [PlainSecrets.lookup, ← hpath]
      exact Table.find?_key ss.distinct (List.mem_of_find?_eq_some hs)
    rw [hl]
    exact if_pos howner

omit [DecidableEq T] in
/-- The current version of an item is the number of its values. -/
theorem World.HoldsSecret.current (hholds : w.HoldsSecret P row s) :
    ((w.db.currentKvVersion row.id).map (·.version)).getD 1 = s.written.length := by
  have hnext := hholds.values.next
  rw [List.length_map] at hnext
  exact Nat.succ.inj hnext

end Found

/-! ## Operations -/

section Operations

variable {w : World T B} {ss : PlainSecrets T J} (hold : w.HoldsSecrets P ss) (e : Env P)
  (path email : T)
include hold

/-- A write goes to the secret at the path, whoever asks. -/
theorem World.HoldsSecrets.write_answer (hk : ∀ d, w.dek = some d → w.Keyed P d) (data : J) :
    (KVService.write path email data e w.session).1 =
      ss.write w.dek.isSome path email e data := by
  unfold PlainSecrets.write
  rcases hp : P.validatePath path email with x | u
  · have hraise : KVService.write path email data e w.session = (.error x, w.session) := by
      simp [KVService.write, hp]
    rw [hraise]
    rfl
  rcases hd : w.dek with _ | d
  · have hd' : w.session.dek = none := hd
    have hraise : KVService.write path email data e w.session =
        (.error (appError .vaultLocked "Vault is locked" 423), w.session) := by
      simp [KVService.write, hp, requireDek_of_none hd']
    rw [hraise]
    rfl
  have hd' : w.session.dek = some d := hd
  rcases hj : P.dumps data with x | raw
  · have hraise : KVService.write path email data e w.session = (.error x, w.session) := by
      simp [KVService.write, hp, requireDek_of_some hd', hj]
    rw [hraise]
    rfl
  by_cases hs : 1048576 < P.len raw
  · have hraise : KVService.write path email data e w.session =
        (.error (appError .validationError "Secret is too large" 413), w.session) := by
      simp [KVService.write, hp, requireDek_of_some hd', hj, hs]
    rw [hraise]
    exact (if_pos hs).symm
  have hready : WriteReady P w.session path email data d raw :=
    ⟨hp, hd', hj, Nat.not_lt.1 hs, (hk d hd).keyOk⟩
  dsimp only [Option.isSome_some, requireUnlocked_bind, Bind.bind, Except.bind]
  rcases hold.lookup path with ⟨hf, hlookup⟩ | ⟨row, s, hf, hlookup, hholds⟩
  · rw [write_create hready e hf, hlookup]
    exact (if_neg hs).symm
  · rw [hlookup]
    have hnext : w.session.db.nextKvVersion row.id = s.written.length + 1 := by
      refine hholds.values.next.trans ?_
      rw [List.length_map]
    by_cases hv : s.written.length + 1 < 2 ^ 63
    · rw [write_update hready e hf (by rwa [hnext]), hnext, hholds.createdAt,
        (findPath_eq_some hf).2]
      refine Eq.trans ?_ (if_neg hs).symm
      exact (if_neg (Nat.not_le.2 hv)).symm
    · obtain ⟨db, hdb⟩ := write_overflow hready e hf (by rwa [hnext])
      rw [hdb]
      refine Eq.trans ?_ (if_neg hs).symm
      exact (if_pos (Nat.not_lt.1 hv)).symm

/-- A read opens the version that the secrets have. -/
theorem World.HoldsSecrets.read_answer (hP : P.Lawful) (version : Option Int) :
    (KVService.read path email version e w.session).1 =
      ss.read P w.dek.isSome path email version := by
  unfold PlainSecrets.read
  rcases hp : P.validatePath path email with x | u
  · rw [read_of_invalid hp, findSecret_of_invalid hp]
    rfl
  rcases hd : w.dek with _ | d
  · have hd' : w.session.dek = none := hd
    have hraise : KVService.read path email version e w.session =
        (.error (appError .vaultLocked "Vault is locked" 423), w.session) := by
      simp [KVService.read, hp, requireDek_of_none hd']
    rw [hraise, Option.isSome_none, findSecret_of_locked hp]
    rfl
  have hd' : w.session.dek = some d := hd
  rw [read_apply hp hd', Option.isSome_some]
  change w.db.kvRead P d path email version = _
  rcases hold.find hp with ⟨hfind, hf⟩ | ⟨row, s, hfind, hf, hpath, hholds⟩
  · rw [hfind, kvRead_of_absent hf]
    rfl
  rw [hfind]
  have hvalues := hpath ▸ hholds.values
  have hlen : (s.written.map (·.1)).length = s.written.length := List.length_map _
  dsimp only [Bind.bind, Except.bind]
  rcases version with _ | k
  · have hpos : 0 < s.written.length := List.length_pos_iff.2 s.written_ne
    have hlast : (s.written.map (·.1))[s.written.length - 1]? = some s.newest := by
      rw [List.getElem?_map, ← List.getLast?_eq_getElem?,
        List.getLast?_eq_some_getLast s.written_ne]
      rfl
    obtain ⟨v, hv, hversion, hopen⟩ := hvalues.row hP hd hlast
    have hasked := kvAsked_last hvalues
    rw [hlen, hv] at hasked
    rw [kvRead_of_asked hf hasked hopen, hversion, Nat.sub_add_cancel hpos]
    rfl
  by_cases hk : k < 1
  · rw [kvRead_of_error hf (kvAsked_below hk)]
    exact (if_pos hk).symm
  by_cases hbig : 2 ^ 63 ≤ k.toNat
  · have hasked : w.db.kvAsked row (some k) = .error .overflowError := by
      rw [Database.kvAsked, if_neg hk, if_pos hbig]
    rw [kvRead_of_error hf hasked]
    refine Eq.trans ?_ (if_neg hk).symm
    exact (if_pos hbig).symm
  refine Eq.trans ?_ (if_neg hk).symm
  refine Eq.trans ?_ (if_neg hbig).symm
  obtain ⟨n, rfl⟩ : ∃ n : Nat, k = (n + 1 : Nat) := ⟨k.toNat - 1, by omega⟩
  rw [Int.toNat_natCast] at hbig ⊢
  have hasked := kvAsked_at hvalues (k := n) (Nat.not_le.1 hbig)
  rw [Nat.add_sub_cancel]
  rcases hx : s.written[n]? with _ | x
  · have hnone : (w.db.versionsOf row.id)[n]? = none := by
      rw [List.getElem?_eq_none_iff, hvalues.values.length_eq, hlen]
      exact List.getElem?_eq_none_iff.1 hx
    rw [hnone] at hasked
    rw [kvRead_of_error hf hasked]
    rfl
  · have hx' : (s.written.map (·.1))[n]? = some x.1 := by
      rw [List.getElem?_map, hx]
      rfl
    obtain ⟨v, hv, hversion, hopen⟩ := hvalues.row hP hd hx'
    rw [hv] at hasked
    rw [kvRead_of_asked hf hasked hopen, hversion]
    rfl

/-- The versions are listed in the order in which they were written. -/
theorem World.HoldsSecrets.versions_answer :
    (KVService.versions path email e w.session).1 =
      (ss.find P w.dek.isSome path email).map (·.versions P) := by
  rcases hp : P.validatePath path email with x | u
  · have hraise : KVService.versions path email e w.session = (.error x, w.session) := by
      simp [KVService.versions, hp]
    rw [hraise, findSecret_of_invalid hp]
    rfl
  rcases hd : w.dek with _ | d
  · have hd' : w.session.dek = none := hd
    have hraise : KVService.versions path email e w.session =
        (.error (appError .vaultLocked "Vault is locked" 423), w.session) := by
      simp [KVService.versions, hp, requireDek_of_none hd']
    rw [hraise, Option.isSome_none, findSecret_of_locked hp]
    rfl
  have hd' : w.session.dek = some d := hd
  rw [versions_apply hp hd', Option.isSome_some]
  change w.db.kvVersions P path email = _
  unfold Database.kvVersions
  rcases hold.find hp with ⟨hfind, hf⟩ | ⟨row, s, hfind, hf, hpath, hholds⟩
  · rw [hfind, hf]
    rfl
  have hlen : (w.db.versionsOf row.id).length = s.written.length := by
    rw [hholds.values.values.length_eq, List.length_map]
  have hne : ¬ (w.db.versionsOf row.id).isEmpty = true := by
    rw [List.isEmpty_iff_length_eq_zero, hlen, List.length_eq_zero_iff]
    exact s.written_ne
  rw [hfind, hf]
  dsimp only
  rw [hholds.values.numbered.sorted.insertionSort_eq, if_neg hne]
  refine congrArg Except.ok (List.ext_getElem ?_ fun i hi hi' => ?_)
  · rw [List.length_map, hlen]
    exact List.length_mapIdx.symm
  · rw [List.length_map] at hi
    have hnumber := hholds.values.numbered.key_get hi
    have htime : ((w.db.versionsOf row.id).map (·.createdAt))[i]? =
        (s.written.map (·.2))[i]? := by rw [hholds.times]
    rw [List.getElem?_map, List.getElem?_map, List.getElem?_eq_getElem hi,
      List.getElem?_eq_getElem (hlen ▸ hi), Option.map_some, Option.map_some,
      Option.some.injEq] at htime
    simp only [PlainSecret.versions, List.getElem_map, List.getElem_mapIdx, hnumber, htime]

theorem World.HoldsSecrets.delete_answer :
    (KVService.delete path email e w.session).1 =
      (ss.find P w.dek.isSome path email).map fun _ => () := by
  rcases hp : P.validatePath path email with x | u
  · have hraise : KVService.delete path email e w.session = (.error x, w.session) := by
      simp [KVService.delete, hp]
    rw [hraise, findSecret_of_invalid hp]
    rfl
  rcases hd : w.dek with _ | d
  · have hd' : w.session.dek = none := hd
    have hraise : KVService.delete path email e w.session =
        (.error (appError .vaultLocked "Vault is locked" 423), w.session) := by
      simp [KVService.delete, hp, requireDek_of_none hd']
    rw [hraise, Option.isSome_none, findSecret_of_locked hp]
    rfl
  have hd' : w.session.dek = some d := hd
  rw [Option.isSome_some]
  rcases hold.find hp with ⟨hfind, hf⟩ | ⟨row, s, hfind, hf, -⟩
  · have hf' : w.session.db.findOwned path email = none := hf
    have hraise : KVService.delete path email e w.session =
        (.error secretNotFound, w.session) := by
      simp [KVService.delete, hp, requireDek_of_some hd', hf', secretNotFound]
    rw [hraise, hfind]
    rfl
  · have hf' : w.session.db.findOwned path email = some row := hf
    rw [hfind]
    simp [KVService.delete, hp, requireDek_of_some hd', hf', Except.map]

/-- The secrets of a user, sorted by their paths. -/
theorem World.HoldsSecrets.list_answer :
    (KVService.list email e w.session).1 = ss.list P w.dek.isSome email := by
  unfold PlainSecrets.list
  rcases hd : w.dek with _ | d
  · have hd' : w.session.dek = none := hd
    have hraise : KVService.list email e w.session =
        (.error (appError .vaultLocked "Vault is locked" 423), w.session) := by
      simp [KVService.list, requireDek_of_none hd']
    rw [hraise]
    rfl
  have hd' : w.session.dek = some d := hd
  rw [list_apply hd', Option.isSome_some, requireUnlocked_bind]
  have hfilter : List.Forall₂ (w.HoldsSecret P)
      (w.db.kvSecrets.filter fun row => row.ownerEmail = email)
      (ss.secrets.filter fun s => s.owner = email) := by
    refine List.rel_filter (fun row s hrow => ?_) hold
    simp only [decide_eq_true_eq]
    rw [hrow.owner]
  have hsorted : List.Forall₂ (w.HoldsSecret P)
      ((w.db.kvSecrets.filter fun row => row.ownerEmail = email).insertionSort
        fun a b => P.le a.path b.path)
      ((ss.secrets.filter fun s => s.owner = email).insertionSort fun s t => P.le s.path t.path) :=
    Table.forall₂_insertionSort hfilter fun row s row' s' h h' => by rw [h.path, h'.path]
  refine congrArg Except.ok (Table.map_eq_of_forall₂ hsorted fun row s hrow => ?_)
  have hcurrent : ((w.session.db.currentKvVersion row.id).map (·.version)).getD 1 =
      s.written.length := hrow.current
  rw [PlainSecret.listed, hcurrent, hrow.path, hrow.createdAt, hrow.updatedAt]

end Operations

end MiniVault
