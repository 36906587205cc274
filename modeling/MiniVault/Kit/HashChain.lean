/-
  Hash chains: a list of records, each holding the hash of the record before it and its own
  hash. `link h a` is the hash of a record `a` that follows the hash `h`.

  * `valid_append`: a chain is valid when its parts are, each from where the one before ends;
  * `valid_edit`: replacing a record that has a successor keeps the chain valid only if the new
    record has the old one's link;
  * `valid_sublist`: where links tell records apart, what is left of a valid chain after a
    removal is valid only if the removed records were its tail.
-/
import Mathlib.Data.List.Basic
import Mathlib.Tactic.Common

namespace Kit

/-- Where a record of type `α` keeps its hashes, and how a hash is computed. -/
structure HashChain (α H : Type) where
  prev : α → Option H
  hash : α → Option H
  link : H → α → H

namespace HashChain

variable {α H : Type} (C : HashChain α H)

/-- Every record holds the hash before it and the hash of itself after that one. -/
def Valid : H → List α → Prop
  | _, [] => True
  | h, a :: as => C.prev a = some h ∧ C.hash a = some (C.link h a) ∧ Valid (C.link h a) as

/-- The hash a chain ends in. -/
def tip (h : H) (as : List α) : H := as.foldl C.link h

variable {C}

@[simp] theorem tip_nil (h : H) : C.tip h [] = h := rfl

theorem tip_append (h : H) (as bs : List α) : C.tip h (as ++ bs) = C.tip (C.tip h as) bs :=
  List.foldl_append

theorem valid_append {h : H} {as bs : List α} :
    C.Valid h (as ++ bs) ↔ C.Valid h as ∧ C.Valid (C.tip h as) bs := by
  induction as generalizing h with
  | nil => simp [Valid]
  | cons a as ih =>
    simp only [List.cons_append, Valid, ih, and_assoc]
    rfl

theorem valid_singleton {h : H} {a : α} :
    C.Valid h [a] ↔ C.prev a = some h ∧ C.hash a = some (C.link h a) := by
  simp [Valid]

/-- The last record of a valid chain holds its tip. -/
theorem Valid.hash_last {h : H} {as : List α} {a : α} (hv : C.Valid h (as ++ [a])) :
    C.hash a = some (C.tip h (as ++ [a])) := by
  rw [tip_append]
  exact (valid_singleton.1 (valid_append.1 hv).2).2

/-- Every record of a valid chain is one after the start or after a link. -/
theorem Valid.exists_before {h : H} {as : List α} (hv : C.Valid h as) {a : α} (ha : a ∈ as) :
    ∃ g, C.Valid g [a] ∧ (g = h ∨ ∃ g' b, g = C.link g' b) := by
  induction as generalizing h with
  | nil => cases ha
  | cons b as ih =>
    rcases List.mem_cons.1 ha with rfl | ha
    · exact ⟨h, ⟨hv.1, hv.2.1, trivial⟩, .inl rfl⟩
    · obtain ⟨g, hg, hbefore⟩ := ih hv.2.2 ha
      refine ⟨g, hg, .inr ?_⟩
      rcases hbefore with rfl | hlink
      · exact ⟨h, b, rfl⟩
      · exact hlink

/-! ## Edits -/

/-- A valid chain stays valid under the replacement of one record only if the new record keeps
    the hash before it; and if it keeps its own hash or has a successor, only if its link is the
    old one's. -/
theorem valid_edit {h : H} {as bs : List α} {a b : α} (ha : C.Valid h (as ++ a :: bs))
    (hb : C.Valid h (as ++ b :: bs)) :
    C.prev b = C.prev a ∧
      (bs ≠ [] ∨ C.hash b = C.hash a →
        C.hash b = C.hash a ∧ C.link (C.tip h as) b = C.link (C.tip h as) a) := by
  obtain ⟨-, hpa, hha, hta⟩ := valid_append.1 ha
  obtain ⟨-, hpb, hhb, htb⟩ := valid_append.1 hb
  refine ⟨by rw [hpa, hpb], ?_⟩
  rintro (hne | heq)
  · obtain ⟨c, cs, rfl⟩ := List.exists_cons_of_ne_nil hne
    have hl : C.link (C.tip h as) b = C.link (C.tip h as) a :=
      Option.some.inj (htb.1.symm.trans hta.1)
    exact ⟨by rw [hha, hhb, hl], hl⟩
  · refine ⟨heq, ?_⟩
    rw [hha, hhb] at heq
    exact Option.some.inj heq

/-! ## Removals -/

/-- In a valid chain, a record after the first holds the link of some record before it. -/
theorem Valid.prev_mem {h : H} {a b : α} {as : List α} (hv : C.Valid h (a :: as))
    (hb : b ∈ as) : ∃ c ∈ a :: as, ∃ g, C.prev b = some (C.link g c) := by
  induction as generalizing h a with
  | nil => cases hb
  | cons c as ih =>
    obtain ⟨-, -, hv⟩ := hv
    rcases List.mem_cons.1 hb with rfl | hb
    · exact ⟨a, by simp, h, hv.1⟩
    · obtain ⟨d, hd, g, hg⟩ := ih hv hb
      exact ⟨d, List.mem_cons_of_mem _ hd, g, hg⟩

/-- Where equal links come from records with equal keys, keys are distinct, and no link is the
    starting hash, a valid sublist of a valid chain is a beginning of it. -/
theorem valid_sublist {K : Type} (key : α → K)
    (hkey : ∀ g g' a b, C.link g a = C.link g' b → key a = key b) {h : H} {as bs : List α}
    (hnodup : (as.map key).Nodup) (hstart : ∀ a ∈ as, ∀ g, C.link g a ≠ h)
    (ha : C.Valid h as) (hsub : bs.Sublist as) (hb : C.Valid h bs) : bs <+: as := by
  induction as generalizing h bs with
  | nil => exact (List.sublist_nil.1 hsub) ▸ List.prefix_rfl
  | cons a as ih =>
    rw [List.map_cons, List.nodup_cons] at hnodup
    cases hsub with
    | cons _ hsub =>
      -- `a` is removed: the first record that is left points past the start
      rcases bs with _ | ⟨b, bs⟩
      · exact List.nil_prefix
      · obtain ⟨c, hc, g, hg⟩ := ha.prev_mem (hsub.subset List.mem_cons_self)
        exact absurd (Option.some.inj (hg.symm.trans hb.1)) (hstart c hc g)
    | cons_cons _ hsub =>
      refine List.cons_prefix_cons.2 ⟨rfl, ih hnodup.2 ?_ ha.2.2 hsub hb.2.2⟩
      intro c hc g heq
      exact hnodup.1 (hkey _ _ _ _ heq ▸ List.mem_map_of_mem hc)

end HashChain

end Kit
