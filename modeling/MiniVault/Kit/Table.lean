/-
  Lists used as tables: rows with a key, the row a query picks, and how inserts and updates
  move it.
-/
import Mathlib.Data.List.MinMax
import Mathlib.Data.List.Sort
import Mathlib.Data.List.Nodup
import Mathlib.Data.List.Pairwise

namespace Kit.Table

variable {α β : Type}

/-- The row whose value is above all others is the one `ORDER BY … DESC` puts first. -/
theorem argmax_eq_some [LinearOrder β] {f : α → β} {l : List α} {m : α} (hm : m ∈ l)
    (hmax : ∀ a ∈ l, f m ≤ f a → a = m) : l.argmax f = some m := by
  rcases h : l.argmax f with _ | a
  · rw [List.argmax_eq_none.1 h] at hm
    cases hm
  · have ha : a ∈ l.argmax f := h
    rw [hmax a (List.argmax_mem ha) (List.le_of_mem_argmax hm ha)]

/-- Rows with distinct keys are told apart by them. -/
theorem eq_of_key {key : α → β} {l : List α} (h : (l.map key).Nodup) {a b : α}
    (ha : a ∈ l) (hb : b ∈ l) (heq : key a = key b) : a = b :=
  List.inj_on_of_nodup_map h ha hb heq

/-- Elements that map to one value are the same element of a list of distinct values. -/
theorem eq_of_filterMap {f : α → Option β} {l : List α} (h : (l.filterMap f).Nodup) {a b : α}
    {x : β} (ha : a ∈ l) (hb : b ∈ l) (hfa : f a = some x) (hfb : f b = some x) : a = b := by
  induction l with
  | nil => cases ha
  | cons c l ih =>
    have hx : ∀ y ∈ l, f y = some x → x ∈ l.filterMap f := fun y hy hfy =>
      List.mem_filterMap.2 ⟨y, hy, hfy⟩
    rcases List.mem_cons.1 ha with rfl | ha'
    · rcases List.mem_cons.1 hb with rfl | hb'
      · rfl
      · rw [List.filterMap_cons_some hfa] at h
        exact absurd (hx b hb' hfb) (List.nodup_cons.1 h).1
    · rcases List.mem_cons.1 hb with rfl | hb'
      · rw [List.filterMap_cons_some hfb] at h
        exact absurd (hx a ha' hfa) (List.nodup_cons.1 h).1
      · exact ih (h.sublist ((List.sublist_cons_self c l).filterMap f)) ha' hb'

/-- A member of the lists is in one of them. -/
theorem eq_of_flatMap {f : α → List β} {l : List α} (h : (l.flatMap f).Nodup) {a b : α}
    (ha : a ∈ l) (hb : b ∈ l) {x : β} (hxa : x ∈ f a) (hxb : x ∈ f b) : a = b := by
  have hsymm : Std.Symm fun a b => x ∈ f a → x ∈ f b → a = b :=
    ⟨fun _ _ hab hb ha => (hab ha hb).symm⟩
  have hpairs : l.Pairwise fun a b => x ∈ f a → x ∈ f b → a = b :=
    (List.nodup_flatMap.1 h).2.imp fun hd hc hc' => absurd hc' (hd hc)
  exact hpairs.forall_of_forall (fun _ _ _ _ => rfl) ha hb hxa hxb

/-- A lookup by a distinct key finds the row. -/
theorem find?_key [DecidableEq β] {key : α → β} {l : List α} (h : (l.map key).Nodup) {a : α}
    (ha : a ∈ l) : l.find? (fun x => key x = key a) = some a := by
  rcases hf : l.find? (fun x => key x = key a) with _ | b
  · exact absurd (decide_eq_true rfl) (List.find?_eq_none.1 hf a ha)
  · have hb := List.find?_some hf
    rw [decide_eq_true_eq] at hb
    rw [eq_of_key h (List.mem_of_find?_eq_some hf) ha hb]

/-- Changing the row with a given key, where the keys are distinct, changes one place. -/
theorem map_if_key [DecidableEq β] {key : α → β} {as bs : List α} {a : α} (f : α → α)
    (h : ((as ++ a :: bs).map key).Nodup) :
    (as ++ a :: bs).map (fun x => if key x = key a then f x else x) = as ++ f a :: bs := by
  rw [List.map_append, List.map_cons, List.nodup_append] at h
  obtain ⟨-, hb, hab⟩ := h
  have hleft : as.map (fun x => if key x = key a then f x else x) = as := by
    refine (List.map_congr_left fun x hx => ?_).trans (List.map_id as)
    rw [if_neg (hab _ (List.mem_map_of_mem hx) _ List.mem_cons_self), id]
  have hright : bs.map (fun x => if key x = key a then f x else x) = bs := by
    refine (List.map_congr_left fun x hx => ?_).trans (List.map_id bs)
    rw [if_neg, id]
    intro hx'
    exact (List.nodup_cons.1 hb).1 (hx' ▸ List.mem_map_of_mem hx)
  rw [List.map_append, List.map_cons, hleft, hright, if_pos rfl]

/-- Where two tables correspond row by row, a row of the second comes from one of the first. -/
theorem exists_of_forall₂ {R : α → β → Prop} {l : List α} {l' : List β} (h : List.Forall₂ R l l')
    {b : β} (hb : b ∈ l') : ∃ a ∈ l, R a b := by
  induction h with
  | nil => cases hb
  | cons hab _ ih =>
    rcases List.mem_cons.1 hb with rfl | hb
    · exact ⟨_, List.mem_cons_self, hab⟩
    · obtain ⟨a, ha, hR⟩ := ih hb
      exact ⟨a, List.mem_cons_of_mem _ ha, hR⟩

/-- A query on two tables that correspond row by row. -/
theorem forall₂_find? {R : α → β → Prop} {l : List α} {l' : List β} (h : List.Forall₂ R l l')
    {p : α → Bool} {q : β → Bool} (hpq : ∀ a b, R a b → p a = q b) :
    (l.find? p = none ∧ l'.find? q = none) ∨
      ∃ a b, l.find? p = some a ∧ l'.find? q = some b ∧ R a b := by
  induction h with
  | nil => exact .inl ⟨rfl, rfl⟩
  | @cons a b l l' hab _ ih =>
    rw [List.find?_cons, List.find?_cons, hpq a b hab]
    rcases q b with _ | _
    · exact ih
    · exact .inr ⟨a, b, rfl, rfl, hab⟩

/-- A change of two tables that correspond row by row. -/
theorem forall₂_map {α' β' : Type} {R : α → β → Prop} {R' : α' → β' → Prop} {l : List α}
    {l' : List β} (h : List.Forall₂ R l l') {f : α → α'} {g : β → β'}
    (hfg : ∀ a ∈ l, ∀ b, R a b → R' (f a) (g b)) : List.Forall₂ R' (l.map f) (l'.map g) := by
  induction h with
  | nil => exact .nil
  | cons hab _ ih =>
    exact .cons (hfg _ List.mem_cons_self _ hab) (ih fun a ha => hfg a (List.mem_cons_of_mem _ ha))

theorem map_eq_of_forall₂ {γ : Type} {R : α → β → Prop} {l : List α} {l' : List β}
    (h : List.Forall₂ R l l') {f : α → γ} {g : β → γ} (hfg : ∀ a b, R a b → f a = g b) :
    l.map f = l'.map g := by
  induction h with
  | nil => rfl
  | cons hab _ ih => rw [List.map_cons, List.map_cons, hfg _ _ hab, ih]

/-- Two tables that correspond row by row, sorted alike. -/
theorem forall₂_insertionSort {R : α → β → Prop} {r : α → α → Prop} {r' : β → β → Prop}
    [DecidableRel r] [DecidableRel r'] {l : List α} {l' : List β} (h : List.Forall₂ R l l')
    (hr : ∀ a b a' b', R a b → R a' b' → (r a a' ↔ r' b b')) :
    List.Forall₂ R (l.insertionSort r) (l'.insertionSort r') := by
  have hinsert : ∀ {a b l l'}, R a b → List.Forall₂ R l l' →
      List.Forall₂ R (l.orderedInsert r a) (l'.orderedInsert r' b) := by
    intro a b l l' hab h
    induction h with
    | nil => exact .cons hab .nil
    | @cons c d l l' hcd hl ih =>
      rw [List.orderedInsert_cons, List.orderedInsert_cons]
      by_cases hac : r a c
      · rw [if_pos hac, if_pos ((hr a b c d hab hcd).1 hac)]
        exact .cons hab (.cons hcd hl)
      · rw [if_neg hac, if_neg fun hbd => hac ((hr a b c d hab hcd).2 hbd)]
        exact .cons hcd ih
  induction h with
  | nil => exact .nil
  | cons hab _ ih => exact hinsert hab ih

/-! ## Inserts and updates -/

/-- An insert does not change what a query finds, if it found something. -/
theorem find?_concat {p : α → Bool} {l : List α} {a : α} (h : l.find? p = some a) (x : α) :
    (l ++ [x]).find? p = some a := by
  rw [List.find?_append, h, Option.some_or]

/-- A row with a fresh key keeps the keys distinct. -/
theorem nodup_concat {key : α → β} {l : List α} {x : α} (h : (l.map key).Nodup)
    (hx : key x ∉ l.map key) : ((l ++ [x]).map key).Nodup := by
  rw [List.map_append, List.map_singleton, List.nodup_append]
  refine ⟨h, List.nodup_singleton _, ?_⟩
  rintro a ha b hb rfl
  rw [List.mem_singleton] at hb
  exact hx (hb ▸ ha)

section Update

variable [DecidableEq β] {key : α → β} {k : β} {f : α → α} {l : List α}

/-- The row with a given key changed. -/
def updated (key : α → β) (k : β) (f : α → α) (x : α) : α := if key x = k then f x else x

theorem updated_eq {γ : Type} {g : α → γ} (hg : ∀ x, g (f x) = g x) (x : α) :
    g (updated key k f x) = g x := by
  unfold updated
  split
  · exact hg x
  · rfl

/-- An update of columns that a query does not look at changes its answer in place. -/
theorem find?_updated {p : α → Bool} (hp : ∀ x, p (f x) = p x) :
    (l.map (updated key k f)).find? p = (l.find? p).map (updated key k f) := by
  rw [List.find?_map]
  congr 2
  funext x
  exact updated_eq hp x

theorem map_updated {γ : Type} {g : α → γ} (hg : ∀ x, g (f x) = g x) :
    (l.map (updated key k f)).map g = l.map g := by
  rw [List.map_map]
  exact List.map_congr_left fun x _ => updated_eq hg x

end Update

/-! ## Sorting -/

section Sorting

variable {r : α → α → Prop} [DecidableRel r]

theorem orderedInsert_concat {l : List α} {a x : α} (h : r a x) :
    (l ++ [x]).orderedInsert r a = l.orderedInsert r a ++ [x] := by
  induction l with
  | nil => simp [h]
  | cons b l ih =>
    by_cases hb : r a b
    · simp [hb]
    · simp [hb, ih]

/-- A row above all others sorts last. -/
theorem insertionSort_concat {l : List α} {x : α} (h : ∀ a ∈ l, r a x) :
    (l ++ [x]).insertionSort r = l.insertionSort r ++ [x] := by
  induction l with
  | nil => simp
  | cons a l ih =>
    rw [List.cons_append, List.insertionSort_cons, ih fun b hb => h b (List.mem_cons_of_mem _ hb),
      orderedInsert_concat (h a List.mem_cons_self), List.insertionSort_cons]

end Sorting

/-! ## Numbered rows -/

/-- The rows of a table are numbered from one in insertion order. -/
def Numbered (key : α → Nat) (l : List α) : Prop := l.map key = List.range' 1 l.length

section Numbered

variable {key : α → Nat} {l : List α}

theorem Numbered.concat (h : Numbered key l) {x : α} (hx : key x = l.length + 1) :
    Numbered key (l ++ [x]) := by
  unfold Numbered at h ⊢
  rw [List.map_append, h, List.length_append, List.length_singleton, List.range'_1_concat,
    List.map_singleton, hx, Nat.add_comm 1]

theorem Numbered.key_get (h : Numbered key l) {i : Nat} (hi : i < l.length) :
    key l[i] = i + 1 := by
  have hkey : (l.map key)[i]? = some (key l[i]) := by
    rw [List.getElem?_map, List.getElem?_eq_getElem hi, Option.map_some]
  rw [show l.map key = List.range' 1 l.length from h, List.getElem?_range' hi] at hkey
  have := Option.some.inj hkey
  omega

/-- The row with a number is the one at its place. -/
theorem Numbered.find? (h : Numbered key l) (i : Nat) :
    l.find? (fun x => key x = i + 1) = l[i]? := by
  rcases hi : l[i]? with _ | x
  · rw [List.find?_eq_none]
    rintro y hy hkey
    obtain ⟨j, hj, rfl⟩ := List.getElem_of_mem hy
    rw [decide_eq_true_eq, h.key_get hj] at hkey
    rw [List.getElem?_eq_none_iff] at hi
    omega
  · obtain ⟨hlt, rfl⟩ := List.getElem?_eq_some_iff.1 hi
    rw [List.find?_eq_some_iff_getElem]
    refine ⟨by rw [h.key_get hlt, decide_eq_true_eq], i, hlt, rfl, fun j hj => ?_⟩
    rw [h.key_get (by omega)]
    simp only [Bool.not_eq_true', decide_eq_false_iff_not]
    omega

/-- The row with the largest number is the last. -/
theorem Numbered.argmax (h : Numbered key l) : l.argmax key = l.getLast? := by
  rcases List.eq_nil_or_concat l with rfl | ⟨as, a, rfl⟩
  · rfl
  · rw [List.concat_eq_append] at h ⊢
    rw [List.getLast?_concat]
    refine argmax_eq_some (List.mem_append_right _ List.mem_cons_self) fun x hx hle => ?_
    obtain ⟨j, hj, rfl⟩ := List.getElem_of_mem hx
    have hlast : key a = as.length + 1 := by
      have := h.key_get (i := as.length) (by simp)
      rwa [List.getElem_concat_length rfl] at this
    rw [h.key_get hj, hlast] at hle
    have hj' : j = as.length := by
      rw [List.length_append, List.length_singleton] at hj
      omega
    subst hj'
    exact List.getElem_concat_length rfl _

theorem Numbered.sorted (h : Numbered key l) : l.Pairwise fun a b => key a ≤ key b := by
  rw [← List.pairwise_map (f := key) (R := (· ≤ ·)), show l.map key = _ from h]
  exact List.pairwise_le_range' ..

theorem Numbered.nodup (h : Numbered key l) : (l.map key).Nodup := by
  rw [show l.map key = _ from h]
  exact List.nodup_range'

/-- Rows that are numbered within each parent are told apart by parent and number. -/
theorem nodup_pairs {parent : α → β} [DecidableEq β]
    (h : ∀ a ∈ l, Numbered key (l.filter fun b => parent b = parent a)) :
    (l.map fun a => (parent a, key a)).Nodup := by
  refine List.pairwise_map.2 (List.pairwise_iff_forall_sublist.2 fun {a b} hsub heq => ?_)
  have hparent : parent a = parent b := congrArg (·.1) heq
  have hsub' : [a, b].Sublist (l.filter fun c => parent c = parent a) := by
    have hfilter := hsub.filter fun c => decide (parent c = parent a)
    rwa [List.filter_cons_of_pos (by simp), List.filter_cons_of_pos (by simp [hparent]),
      List.filter_nil] at hfilter
  have hnodup := (h a (hsub.subset List.mem_cons_self)).nodup.sublist (hsub'.map key)
  exact (List.nodup_cons.1 hnodup).1 (List.mem_singleton.2 (congrArg (·.2) heq))

end Numbered

/-! ## Growth -/

/-- Every row of the first table is still at its place in the second, as `R` allows. -/
def Grows (R : α → α → Prop) (l l' : List α) : Prop :=
  ∀ (i : Nat) (a : α), l[i]? = some a → ∃ b, l'[i]? = some b ∧ R a b

section Growth

variable {R : α → α → Prop} {l l' l'' : List α}

theorem grows_refl (hR : ∀ a, R a a) (l : List α) : Grows R l l := fun _ a ha => ⟨a, ha, hR a⟩

theorem grows_of_eq (hR : ∀ a, R a a) (h : l' = l) : Grows R l l' := h ▸ grows_refl hR l

theorem Grows.trans (hR : ∀ a b c, R a b → R b c → R a c) (h : Grows R l l')
    (h' : Grows R l' l'') : Grows R l l'' := by
  intro i a ha
  obtain ⟨b, hb, hab⟩ := h i a ha
  obtain ⟨c, hc, hbc⟩ := h' i b hb
  exact ⟨c, hc, hR a b c hab hbc⟩

/-- An insert. -/
theorem grows_append (hR : ∀ a, R a a) (l m : List α) : Grows R l (l ++ m) := by
  intro i a ha
  have hi : i < l.length := (List.getElem?_eq_some_iff.1 ha).1
  exact ⟨a, by rw [List.getElem?_append_left hi, ha], hR a⟩

/-- An update. -/
theorem grows_map {f : α → α} (h : ∀ a ∈ l, R a (f a)) : Grows R l (l.map f) := by
  intro i a ha
  exact ⟨f a, by rw [List.getElem?_map, ha, Option.map_some], h a (List.mem_of_getElem? ha)⟩

/-- An update of the row with a given key, where the keys are distinct. -/
theorem grows_updated [DecidableEq β] {key : α → β} {f : α → α} {a : α} (hR : ∀ a, R a a)
    (hkeys : (l.map key).Nodup) (ha : a ∈ l) (hf : R a (f a)) :
    Grows R l (l.map (updated key (key a) f)) := by
  refine grows_map fun b hb => ?_
  unfold updated
  split
  · rename_i heq
    rw [eq_of_key hkeys hb ha heq]
    exact hf
  · exact hR b

end Growth

end Kit.Table
