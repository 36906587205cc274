/-
  Properties of JSON values as trees: what holds of every leaf and of the keys of every object,
  and equality of values as Python compares them, where the members of an object have no order
  and of members with one key the last stands.

  * `canon_canon`: the canonical form is canonical, so that it is equal to the value it is of;
  * `every_writableLeaf_iff`: a value is written without lone surrogates exactly if it has none.
-/
import MiniVault.Kit.Json
import Mathlib.Data.List.Induction

namespace Kit.Json

variable {F : Type}

/-! ## Trees -/

/-- Neither an array nor an object. -/
def Value.isLeaf : Value F → Bool
  | .arr _ => false
  | .obj _ => false
  | _ => true

/-- Induction over values: leaves, then arrays and objects of values that have the property. -/
@[elab_as_elim]
theorem Value.induction {motive : Value F → Prop} (v : Value F)
    (leaf : ∀ v, v.isLeaf = true → motive v)
    (arr : ∀ xs, (∀ x ∈ xs, motive x) → motive (.arr xs))
    (obj : ∀ ms, (∀ p ∈ ms, motive p.2) → motive (.obj ms)) : motive v :=
  match v with
  | .null => leaf .null rfl
  | .bool b => leaf (.bool b) rfl
  | .int n => leaf (.int n) rfl
  | .float x => leaf (.float x) rfl
  | .str s => leaf (.str s) rfl
  | .arr xs => arr xs fun x _ => Value.induction x leaf arr obj
  | .obj ms => obj ms fun p _ => Value.induction p.2 leaf arr obj
termination_by sizeOf v
decreasing_by
  · have := List.sizeOf_lt_of_mem ‹x ∈ xs›
    simp only [Value.arr.sizeOf_spec]
    omega
  · have := List.sizeOf_lt_of_mem ‹p ∈ ms›
    obtain ⟨k, v⟩ := p
    simp only [Value.obj.sizeOf_spec, Prod.mk.sizeOf_spec] at this ⊢
    omega

/-- The keys of some members. -/
def keysOf {α : Type} (ms : List (Str × α)) : List Str := ms.map (·.1)

mutual

/-- `leaf` holds of every leaf, and `keys` of the keys of every object. -/
def Value.Every (leaf : Value F → Prop) (keys : List Str → Prop) : Value F → Prop
  | .arr xs => EveryElems leaf keys xs
  | .obj ms => keys (keysOf ms) ∧ EveryMembers leaf keys ms
  | v => leaf v

def EveryElems (leaf : Value F → Prop) (keys : List Str → Prop) : List (Value F) → Prop
  | [] => True
  | x :: xs => x.Every leaf keys ∧ EveryElems leaf keys xs

def EveryMembers (leaf : Value F → Prop) (keys : List Str → Prop) : List (Str × Value F) → Prop
  | [] => True
  | (_, v) :: ms => v.Every leaf keys ∧ EveryMembers leaf keys ms

end

section Every

variable {leaf leaf' : Value F → Prop} {keys keys' : List Str → Prop}

theorem every_leaf {v : Value F} (h : v.isLeaf = true) : v.Every leaf keys ↔ leaf v := by
  cases v with
  | arr xs => cases h
  | obj ms => cases h
  | _ => exact Iff.rfl

theorem every_arr {xs : List (Value F)} :
    (Value.arr xs).Every leaf keys ↔ ∀ x ∈ xs, x.Every leaf keys := by
  show EveryElems leaf keys xs ↔ _
  induction xs with
  | nil => exact ⟨by rintro - _ ⟨⟩, fun _ => trivial⟩
  | cons x xs ih => rw [List.forall_mem_cons, ← ih]; rfl

theorem every_obj {ms : List (Str × Value F)} :
    (Value.obj ms).Every leaf keys ↔
      keys (keysOf ms) ∧ ∀ p ∈ ms, p.2.Every leaf keys := by
  show keys (keysOf ms) ∧ EveryMembers leaf keys ms ↔ _
  refine and_congr Iff.rfl ?_
  induction ms with
  | nil => exact ⟨by rintro - _ ⟨⟩, fun _ => trivial⟩
  | cons p ms ih => rw [List.forall_mem_cons, ← ih]; rfl

end Every

/-! ## Sorting and dicts, one level at a time -/

section Levels

theorem sortKeys_leaf {v : Value F} (h : v.isLeaf = true) : v.sortKeys = v := by
  cases v with
  | arr xs => cases h
  | obj ms => cases h
  | _ => rfl

theorem dicts_leaf {v : Value F} (h : v.isLeaf = true) : v.dicts = v := by
  cases v with
  | arr xs => cases h
  | obj ms => cases h
  | _ => rfl

theorem sortKeys_arr (xs : List (Value F)) :
    (Value.arr xs).sortKeys = .arr (xs.map Value.sortKeys) := by
  have helems : ∀ xs : List (Value F), sortKeysElems xs = xs.map Value.sortKeys := by
    intro xs
    induction xs with
    | nil => rfl
    | cons x xs ih => rw [sortKeysElems, ih, List.map_cons]
  exact congrArg Value.arr (helems xs)

theorem dicts_arr (xs : List (Value F)) : (Value.arr xs).dicts = .arr (xs.map Value.dicts) := by
  have helems : ∀ xs : List (Value F), dictsElems xs = xs.map Value.dicts := by
    intro xs
    induction xs with
    | nil => rfl
    | cons x xs ih => rw [dictsElems, ih, List.map_cons]
  exact congrArg Value.arr (helems xs)

theorem sortKeys_obj (ms : List (Str × Value F)) :
    (Value.obj ms).sortKeys = .obj (sortMembers (ms.map fun p => (p.1, p.2.sortKeys))) := by
  have hmembers : ∀ ms : List (Str × Value F),
      sortKeysMembers ms = ms.map fun p => (p.1, p.2.sortKeys) := by
    intro ms
    induction ms with
    | nil => rfl
    | cons p ms ih => rw [sortKeysMembers, ih, List.map_cons]
  rw [Value.sortKeys, hmembers]

theorem dicts_obj (ms : List (Str × Value F)) :
    (Value.obj ms).dicts = .obj (dict (ms.map fun p => (p.1, p.2.dicts))) := by
  have hmembers : ∀ ms : List (Str × Value F),
      dictsMembers ms = ms.map fun p => (p.1, p.2.dicts) := by
    intro ms
    induction ms with
    | nil => rfl
    | cons p ms ih => rw [dictsMembers, ih, List.map_cons]
  rw [Value.dicts, hmembers]

end Levels

/-! ## dict -/

section Dict

variable {α : Type} {ms : List (Str × α)} {k : Str} {v : α}

theorem keysOf_map {β : Type} (f : Str × α → β) (ms : List (Str × α)) :
    keysOf (ms.map fun p => (p.1, f p)) = keysOf ms := by
  unfold keysOf
  rw [List.map_map]
  rfl

/-- An item is set in its place, or at the end. -/
theorem keysOf_setItem :
    keysOf (setItem k v ms) = if k ∈ keysOf ms then keysOf ms else keysOf ms ++ [k] := by
  induction ms with
  | nil => rfl
  | cons p ms ih =>
    obtain ⟨k', v'⟩ := p
    by_cases hk : k' = k
    · subst hk
      simp [setItem, keysOf]
    · have hmem : k ∈ keysOf ((k', v') :: ms) ↔ k ∈ keysOf ms := by
        simp [keysOf, Ne.symm hk]
      rw [setItem, if_neg hk]
      show k' :: keysOf (setItem k v ms) = _
      rw [ih]
      simp only [hmem]
      split
      · rfl
      · rfl

theorem mem_setItem {p : Str × α} (h : p ∈ setItem k v ms) : p = (k, v) ∨ p ∈ ms := by
  induction ms with
  | nil => exact .inl (List.mem_singleton.1 h)
  | cons q ms ih =>
    obtain ⟨k', v'⟩ := q
    unfold setItem at h
    split at h
    · rcases List.mem_cons.1 h with rfl | h
      · exact .inl rfl
      · exact .inr (List.mem_cons_of_mem _ h)
    · rcases List.mem_cons.1 h with rfl | h
      · exact .inr List.mem_cons_self
      · exact (ih h).imp_right (List.mem_cons_of_mem _)

theorem setItem_of_not_mem (h : k ∉ keysOf ms) : setItem k v ms = ms ++ [(k, v)] := by
  induction ms with
  | nil => rfl
  | cons p ms ih =>
    obtain ⟨k', v'⟩ := p
    have hk : k ≠ k' := fun heq => h (heq ▸ List.mem_cons_self)
    have hms : k ∉ keysOf ms := fun hmem => h (List.mem_cons_of_mem _ hmem)
    rw [setItem, if_neg (Ne.symm hk), ih hms]
    rfl

/-- Adding items one by one: what holds of the empty dict and is kept by each item. -/
theorem foldl_setItem {I : List (Str × α) → Prop} (ps : List (Str × α)) (hms : I ms)
    (hstep : ∀ ms, ∀ p ∈ ps, I ms → I (setItem p.1 p.2 ms)) :
    I (ps.foldl (fun ms p => setItem p.1 p.2 ms) ms) := by
  induction ps generalizing ms with
  | nil => exact hms
  | cons p ps ih =>
    exact ih (hstep ms p List.mem_cons_self hms)
      fun ms q hq => hstep ms q (List.mem_cons_of_mem _ hq)

theorem mem_dict {p : Str × α} (h : p ∈ dict ms) : p ∈ ms := by
  have hall : ∀ q ∈ dict ms, q ∈ ms :=
    foldl_setItem (I := fun xs => ∀ q ∈ xs, q ∈ ms) ms (by rintro _ ⟨⟩) fun xs q hq hxs r hr =>
      (mem_setItem hr).elim (fun heq => heq ▸ hq) (hxs r)
  exact hall p h

theorem nodup_dict (ms : List (Str × α)) : (keysOf (dict ms)).Nodup := by
  refine foldl_setItem (I := fun xs => (keysOf xs).Nodup) ms List.nodup_nil fun xs q _ hxs => ?_
  rw [keysOf_setItem]
  split
  · exact hxs
  · rename_i hmem
    exact List.nodup_append.2 ⟨hxs, List.nodup_singleton _, fun a ha b hb heq =>
      hmem (List.mem_singleton.1 hb ▸ heq ▸ ha)⟩

/-- The order of the items is that in which their keys come first. -/
theorem keysOf_dict_sublist (ms : List (Str × α)) : (keysOf (dict ms)).Sublist (keysOf ms) := by
  induction ms using List.reverseRecOn with
  | nil => exact List.Sublist.refl _
  | append_singleton ms p ih =>
    have hdict : dict (ms ++ [p]) = setItem p.1 p.2 (dict ms) := List.foldl_append
    rw [hdict, keysOf_setItem, show keysOf (ms ++ [p]) = keysOf ms ++ [p.1] from List.map_append]
    split
    · exact ih.trans (List.sublist_append_left _ _)
    · exact ih.append (List.Sublist.refl _)

/-- Distinct keys are a dict already. -/
theorem dict_of_nodup (h : (keysOf ms).Nodup) : dict ms = ms := by
  induction ms using List.reverseRecOn with
  | nil => rfl
  | append_singleton ms p ih =>
    have hdict : dict (ms ++ [p]) = setItem p.1 p.2 (dict ms) := List.foldl_append
    rw [show keysOf (ms ++ [p]) = keysOf ms ++ [p.1] from List.map_append, List.nodup_append] at h
    rw [hdict, ih h.1]
    exact setItem_of_not_mem fun hmem => h.2.2 _ hmem _ List.mem_cons_self rfl

end Dict

/-! ## Canonical values -/

/-- The keys stand in order. -/
def KeysSorted (ks : List Str) : Prop := ks.Pairwise fun s t => strLe s t = true

section Sorting

variable {α : Type} {ms : List (Str × α)}

theorem strLe_total (s t : Str) : strLe s t = true ∨ strLe t s = true := by
  unfold strLe
  rw [decide_eq_true_eq, decide_eq_true_eq]
  exact le_total _ _

theorem strLe_trans {s t u : Str} (hst : strLe s t = true) (htu : strLe t u = true) :
    strLe s u = true := by
  unfold strLe at *
  rw [decide_eq_true_eq] at *
  exact hst.trans htu

theorem keysSorted_sortMembers (ms : List (Str × α)) : KeysSorted (keysOf (sortMembers ms)) := by
  let le : Str × α → Str × α → Prop := fun a b => strLe a.1 b.1 = true
  have htotal : Std.Total le := ⟨fun a b => strLe_total a.1 b.1⟩
  have htrans : IsTrans (Str × α) le := ⟨fun _ _ _ => strLe_trans⟩
  exact List.pairwise_map.2 (List.pairwise_insertionSort le ms)

theorem sortMembers_of_sorted (h : KeysSorted (keysOf ms)) : sortMembers ms = ms :=
  List.Pairwise.insertionSort_eq (List.pairwise_map.1 h)

theorem keysOf_sortMembers_perm (ms : List (Str × α)) :
    (keysOf (sortMembers ms)).Perm (keysOf ms) := (List.perm_insertionSort _ ms).map _

end Sorting

section Canon

variable {leaf leaf' : Value F → Prop} {keys keys' : List Str → Prop} {v : Value F}

theorem Value.Every.mono (h : v.Every leaf keys) (hl : ∀ u, leaf u → leaf' u)
    (hk : ∀ ks, keys ks → keys' ks) : v.Every leaf' keys' := by
  induction v using Value.induction with
  | leaf v hv => exact (every_leaf hv).2 (hl v ((every_leaf hv).1 h))
  | arr xs ih => exact every_arr.2 fun x hx => ih x hx (every_arr.1 h x hx)
  | obj ms ih =>
    obtain ⟨hkeys, hms⟩ := every_obj.1 h
    exact every_obj.2 ⟨hk _ hkeys, fun p hp => ih p hp (hms p hp)⟩

/-- Sorting moves members, so that the keys of an object are permuted into order. -/
theorem Value.Every.sortKeys (h : v.Every leaf keys)
    (hk : ∀ ks ks', keys ks → ks'.Perm ks → KeysSorted ks' → keys' ks') :
    v.sortKeys.Every leaf keys' := by
  induction v using Value.induction with
  | leaf v hv =>
    rw [sortKeys_leaf hv]
    exact (every_leaf hv).2 ((every_leaf hv).1 h)
  | arr xs ih =>
    rw [sortKeys_arr, every_arr]
    intro x hx
    obtain ⟨y, hy, rfl⟩ := List.mem_map.1 hx
    exact ih y hy (every_arr.1 h y hy)
  | obj ms ih =>
    obtain ⟨hkeys, hms⟩ := every_obj.1 h
    rw [sortKeys_obj, every_obj]
    refine ⟨hk _ _ hkeys ?_ (keysSorted_sortMembers _), fun p hp => ?_⟩
    · rw [← keysOf_map (fun p => p.2.sortKeys) ms]
      exact keysOf_sortMembers_perm _
    · obtain ⟨q, hq, rfl⟩ := List.mem_map.1 ((List.mem_insertionSort _).1 hp)
      exact ih q hq (hms q hq)

theorem Value.Every.of_sortKeys (h : v.sortKeys.Every leaf keys)
    (hk : ∀ ks ks', keys ks → ks'.Perm ks → keys' ks') : v.Every leaf keys' := by
  induction v using Value.induction with
  | leaf v hv =>
    rw [sortKeys_leaf hv] at h
    exact (every_leaf hv).2 ((every_leaf hv).1 h)
  | arr xs ih =>
    rw [sortKeys_arr, every_arr] at h
    exact every_arr.2 fun x hx => ih x hx (h _ (List.mem_map_of_mem hx))
  | obj ms ih =>
    rw [sortKeys_obj, every_obj] at h
    refine every_obj.2 ⟨hk _ _ h.1 ?_, fun p hp => ?_⟩
    · rw [← keysOf_map (fun p => p.2.sortKeys) ms]
      exact (keysOf_sortMembers_perm _).symm
    · exact ih p hp (h.2 _ ((List.mem_insertionSort _).2 (List.mem_map_of_mem hp)))

/-- A dict keeps some of the members, with distinct keys. -/
theorem Value.Every.dicts (h : v.Every leaf keys)
    (hk : ∀ ks ks', keys ks → ks'.Sublist ks → ks'.Nodup → keys' ks') :
    v.dicts.Every leaf keys' := by
  induction v using Value.induction with
  | leaf v hv =>
    rw [dicts_leaf hv]
    exact (every_leaf hv).2 ((every_leaf hv).1 h)
  | arr xs ih =>
    rw [dicts_arr, every_arr]
    intro x hx
    obtain ⟨y, hy, rfl⟩ := List.mem_map.1 hx
    exact ih y hy (every_arr.1 h y hy)
  | obj ms ih =>
    obtain ⟨hkeys, hms⟩ := every_obj.1 h
    rw [dicts_obj, every_obj]
    refine ⟨hk _ _ hkeys ?_ (nodup_dict _), fun p hp => ?_⟩
    · rw [← keysOf_map (fun p => p.2.dicts) ms]
      exact keysOf_dict_sublist _
    · obtain ⟨q, hq, rfl⟩ := List.mem_map.1 (mem_dict hp)
      exact ih q hq (hms q hq)

theorem sortKeys_of_sorted (h : v.Every leaf KeysSorted) : v.sortKeys = v := by
  induction v using Value.induction with
  | leaf v hv => exact sortKeys_leaf hv
  | arr xs ih =>
    have hxs : xs.map Value.sortKeys = xs :=
      (List.map_congr_left fun x hx => ih x hx (every_arr.1 h x hx)).trans (List.map_id xs)
    rw [sortKeys_arr, hxs]
  | obj ms ih =>
    obtain ⟨hkeys, hms⟩ := every_obj.1 h
    have hmap : (ms.map fun p => (p.1, p.2.sortKeys)) = ms := by
      refine (List.map_congr_left fun p hp => ?_).trans (List.map_id ms)
      rw [ih p hp (hms p hp), id]
    rw [sortKeys_obj, hmap, sortMembers_of_sorted hkeys]

theorem dicts_of_nodup (h : v.Every leaf List.Nodup) : v.dicts = v := by
  induction v using Value.induction with
  | leaf v hv => exact dicts_leaf hv
  | arr xs ih =>
    have hxs : xs.map Value.dicts = xs :=
      (List.map_congr_left fun x hx => ih x hx (every_arr.1 h x hx)).trans (List.map_id xs)
    rw [dicts_arr, hxs]
  | obj ms ih =>
    obtain ⟨hkeys, hms⟩ := every_obj.1 h
    have hmap : (ms.map fun p => (p.1, p.2.dicts)) = ms := by
      refine (List.map_congr_left fun p hp => ?_).trans (List.map_id ms)
      rw [ih p hp (hms p hp), id]
    rw [dicts_obj, hmap, dict_of_nodup hkeys]

theorem every_true (v : Value F) : v.Every (fun _ => True) fun _ => True := by
  induction v using Value.induction with
  | leaf v hv => exact (every_leaf hv).2 trivial
  | arr xs ih => exact every_arr.2 ih
  | obj ms ih => exact every_obj.2 ⟨trivial, ih⟩

/-- A canonical value is its own canonical form. -/
theorem canon_canon (v : Value F) : v.canon.canon = v.canon := by
  have hsorted : v.sortKeys.Every (fun _ => True) KeysSorted :=
    (every_true v).sortKeys fun _ _ _ _ hks => hks
  have hcanon : v.canon.Every (fun _ => True) fun ks => KeysSorted ks ∧ ks.Nodup :=
    hsorted.dicts fun _ _ hks hsub hnodup => ⟨List.Pairwise.sublist hsub hks, hnodup⟩
  have hkeys : v.canon.sortKeys = v.canon :=
    sortKeys_of_sorted (hcanon.mono (fun _ h => h) fun _ h => h.1)
  have hdicts : v.canon.dicts = v.canon :=
    dicts_of_nodup (hcanon.mono (fun _ h => h) fun _ h => h.2)
  rw [Value.canon, hkeys, hdicts]

/-- Equal as Python values: the members of an object have no order, and of members with one key
    the last stands. -/
def Value.Same (v w : Value F) : Prop := v.canon = w.canon

theorem canon_same (v : Value F) : v.canon.Same v := canon_canon v

/-- Two properties that agree wherever a third holds throughout. -/
theorem every_congr (h : v.Every leaf keys) {leaf₁ leaf₂ : Value F → Prop}
    {keys₁ keys₂ : List Str → Prop} (hl : ∀ u, u.isLeaf = true → leaf u → (leaf₁ u ↔ leaf₂ u))
    (hk : ∀ ks, keys ks → (keys₁ ks ↔ keys₂ ks)) :
    v.Every leaf₁ keys₁ ↔ v.Every leaf₂ keys₂ := by
  induction v using Value.induction with
  | leaf v hv =>
    rw [every_leaf hv, every_leaf hv]
    exact hl v hv ((every_leaf hv).1 h)
  | arr xs ih =>
    rw [every_arr, every_arr]
    exact forall₂_congr fun x hx => ih x hx (every_arr.1 h x hx)
  | obj ms ih =>
    obtain ⟨hkeys, hms⟩ := every_obj.1 h
    rw [every_obj, every_obj]
    exact and_congr (hk _ hkeys) (forall₂_congr fun p hp => ih p hp (hms p hp))

end Canon

/-! ## Finite numbers -/

def PyFloat.isFinite : PyFloat F → Bool
  | .fin _ => true
  | _ => false

mutual

/-- Is no number of the value NaN or infinite? -/
def Value.finite : Value F → Bool
  | .float x => x.isFinite
  | .arr xs => finiteElems xs
  | .obj ms => finiteMembers ms
  | _ => true

def finiteElems : List (Value F) → Bool
  | [] => true
  | x :: xs => x.finite && finiteElems xs

def finiteMembers : List (Str × Value F) → Bool
  | [] => true
  | (_, v) :: ms => v.finite && finiteMembers ms

end

theorem finite_iff (v : Value F) :
    v.finite = true ↔ v.Every (fun u => u.finite = true) fun _ => True := by
  induction v using Value.induction with
  | leaf v hv => rw [every_leaf hv]
  | arr xs ih =>
    rw [every_arr, ← forall₂_congr ih]
    show finiteElems xs = true ↔ _
    clear ih
    induction xs with
    | nil => exact ⟨by rintro - _ ⟨⟩, fun _ => rfl⟩
    | cons x xs ih => rw [finiteElems, Bool.and_eq_true, ih, List.forall_mem_cons]
  | obj ms ih =>
    rw [every_obj, true_and, ← forall₂_congr ih]
    show finiteMembers ms = true ↔ _
    clear ih
    induction ms with
    | nil => exact ⟨by rintro - _ ⟨⟩, fun _ => rfl⟩
    | cons p ms ih => rw [finiteMembers, Bool.and_eq_true, ih, List.forall_mem_cons]

/-! ## What a value that was written is made of -/

/-- No lone surrogates. -/
def Plain (s : Str) : Prop := ∀ c ∈ s, ∃ d, c = .char d

theorem encodeStr_isSome {s : Str} : (encodeStr s).isSome = true ↔ Plain s := by
  induction s with
  | nil => exact ⟨by rintro - _ ⟨⟩, fun _ => rfl⟩
  | cons c s ih =>
    cases c with
    | char d =>
      rw [encodeStr, Option.isSome_map, ih]
      exact ⟨fun h => List.forall_mem_cons.2 ⟨⟨d, rfl⟩, h⟩, fun h => (List.forall_mem_cons.1 h).2⟩
    | surrogate n =>
      refine ⟨by rintro ⟨⟩, fun h => ?_⟩
      obtain ⟨d, hd⟩ := h _ List.mem_cons_self
      cases hd

/-- A leaf that `json.dumps` and `encode` accept. -/
def Value.WritableLeaf (v : Value F) : Prop :=
  v.writable = true ∧ ∀ s, v = .str s → Plain s

theorem plain_chars (s : List Char) : Plain (chars s) := by
  intro c hc
  obtain ⟨d, -, rfl⟩ := List.mem_map.1 hc
  exact ⟨d, rfl⟩

@[simp] theorem plain_char_cons {c : Char} {s : Str} : Plain (.char c :: s) ↔ Plain s := by
  simp [Plain]

@[simp] theorem plain_append {s t : Str} : Plain (s ++ t) ↔ Plain s ∧ Plain t :=
  List.forall_mem_append

/-- Escaping leaves characters characters, and surrogates surrogates. -/
theorem plain_escape {c : CodePoint} : Plain (escape c) ↔ ∃ d, c = .char d := by
  cases c with
  | char d =>
    refine ⟨fun _ => ⟨d, rfl⟩, fun _ => ?_⟩
    unfold escape
    split_ifs <;> first | exact plain_chars _ | simp [Plain]
  | surrogate n =>
    have hcode : 0xD800 ≤ (CodePoint.surrogate n).code := Nat.le_add_right _ _
    unfold escape
    rw [if_neg (by rintro ⟨⟩), if_neg (by rintro ⟨⟩), if_neg (by omega), if_neg (by omega),
      if_neg (by omega), if_neg (by omega), if_neg (by omega), if_neg (by omega)]
    simp [Plain]

theorem plain_quote {s : Str} : Plain (quote s) ↔ Plain s := by
  have hflat : Plain (s.flatMap escape) ↔ Plain s := by
    induction s with
    | nil => exact Iff.rfl
    | cons c s ih =>
      rw [List.flatMap_cons, plain_append, plain_escape, ih]
      exact (List.forall_mem_cons (p := fun c => ∃ d, c = CodePoint.char d)).symm
  have hend : Plain [.char '"'] := plain_chars ['"']
  unfold quote
  rw [plain_char_cons, plain_append, hflat]
  exact and_iff_left hend

/-- No lone surrogates, in no string and no key. -/
def Value.Plain (v : Value F) : Prop :=
  v.Every (fun u => ∀ s, u = .str s → Json.Plain s) fun ks => ∀ k ∈ ks, Json.Plain k

section Render

variable {ff : FloatFormat F}

theorem plain_renderElems {xs : List (Value F)} :
    Plain (renderElems ff xs) ↔ ∀ x ∈ xs, Plain (render ff x) := by
  induction xs with
  | nil => exact ⟨by rintro - _ ⟨⟩, fun _ => plain_chars _⟩
  | cons x xs ih => rw [renderElems, plain_char_cons, plain_append, ih, List.forall_mem_cons]

theorem plain_renderMembers {ms : List (Str × Value F)} :
    Plain (renderMembers ff ms) ↔ ∀ p ∈ ms, Plain p.1 ∧ Plain (render ff p.2) := by
  induction ms with
  | nil => exact ⟨by rintro - _ ⟨⟩, fun _ => plain_chars _⟩
  | cons p ms ih =>
    rw [renderMembers, plain_char_cons, plain_append, plain_quote, plain_char_cons, plain_append,
      ih, List.forall_mem_cons, and_assoc]

theorem plain_render_arr {xs : List (Value F)} :
    Plain (render ff (.arr xs)) ↔ ∀ x ∈ xs, Plain (render ff x) := by
  rcases xs with _ | ⟨x, xs⟩
  · exact ⟨by rintro - _ ⟨⟩, fun _ => plain_chars _⟩
  · rw [render, plain_char_cons, plain_append, plain_renderElems, List.forall_mem_cons]

theorem plain_render_obj {ms : List (Str × Value F)} :
    Plain (render ff (.obj ms)) ↔ ∀ p ∈ ms, Plain p.1 ∧ Plain (render ff p.2) := by
  rcases ms with _ | ⟨⟨k, v⟩, ms⟩
  · exact ⟨by rintro - _ ⟨⟩, fun _ => plain_chars _⟩
  · rw [render, plain_char_cons, plain_append, plain_quote, plain_char_cons, plain_append,
      plain_renderMembers, List.forall_mem_cons, and_assoc]

theorem writable_arr {xs : List (Value F)} :
    (Value.arr xs).writable = true ↔ ∀ x ∈ xs, x.writable = true := by
  show writableElems xs = true ↔ _
  induction xs with
  | nil => exact ⟨by rintro - _ ⟨⟩, fun _ => rfl⟩
  | cons x xs ih => rw [writableElems, Bool.and_eq_true, ih, List.forall_mem_cons]

theorem writable_obj {ms : List (Str × Value F)} :
    (Value.obj ms).writable = true ↔ ∀ p ∈ ms, p.2.writable = true := by
  show writableMembers ms = true ↔ _
  induction ms with
  | nil => exact ⟨by rintro - _ ⟨⟩, fun _ => rfl⟩
  | cons p ms ih => rw [writableMembers, Bool.and_eq_true, ih, List.forall_mem_cons]

/-- What is written without surrogates has none, in its strings and its keys, and the other way
    round. -/
theorem every_writableLeaf_iff (v : Value F) :
    (v.Every Value.WritableLeaf fun ks => ∀ k ∈ ks, Plain k) ↔
      v.writable = true ∧ Plain (render ff v) := by
  induction v using Value.induction with
  | leaf v hv =>
    rw [every_leaf hv]
    refine and_congr_right fun _ => ?_
    cases v with
    | str s => exact ⟨fun h => plain_quote.2 (h s rfl), by rintro h _ ⟨⟩; exact plain_quote.1 h⟩
    | bool b => cases b <;> exact ⟨fun _ => plain_chars _, by rintro - _ ⟨⟩⟩
    | arr xs => cases hv
    | obj ms => cases hv
    | _ => exact ⟨fun _ => plain_chars _, by rintro - _ ⟨⟩⟩
  | arr xs ih =>
    rw [every_arr, writable_arr, plain_render_arr, forall₂_congr ih]
    exact forall₂_and
  | obj ms ih =>
    rw [every_obj, writable_obj, plain_render_obj, forall₂_congr ih]
    constructor
    · rintro ⟨hkeys, hms⟩
      exact ⟨fun p hp => (hms p hp).1,
        fun p hp => ⟨hkeys p.1 (List.mem_map_of_mem hp), (hms p hp).2⟩⟩
    · rintro ⟨hw, hp⟩
      refine ⟨fun k hk => ?_, fun p hpm => ⟨hw p hpm, (hp p hpm).2⟩⟩
      obtain ⟨p, hpm, rfl⟩ := List.mem_map.1 hk
      exact (hp p hpm).1

/-- Of a value without integers that are too long, lone surrogates alone cannot be written. -/
theorem every_writableLeaf_iff_plain {v : Value F} (hw : v.writable = true) :
    (v.Every Value.WritableLeaf fun ks => ∀ k ∈ ks, Plain k) ↔ v.Plain := by
  unfold Value.Plain
  induction v using Value.induction with
  | leaf v hv =>
    rw [every_leaf hv, every_leaf hv]
    exact and_iff_right hw
  | arr xs ih =>
    rw [every_arr, every_arr]
    exact forall₂_congr fun x hx => ih x hx (writable_arr.1 hw x hx)
  | obj ms ih =>
    rw [every_obj, every_obj]
    exact and_congr_right fun _ => forall₂_congr fun p hp => ih p hp (writable_obj.1 hw p hp)

end Render

end Kit.Json
