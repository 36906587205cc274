/-
  Lists with separators: where neither part holds the separator, the first separator, or the
  last one, tells where the parts end. Of several fields joined, the text tells the fields exactly
  if none of them holds the separator.
-/
import Mathlib.Data.List.Basic

namespace Kit.Separator

variable {α : Type}

theorem append_cons_inj {a b s t : List α} {sep : α} (ha : sep ∉ a) (hb : sep ∉ b)
    (h : a ++ sep :: s = b ++ sep :: t) : a = b ∧ s = t := by
  induction a generalizing b with
  | nil =>
    cases b with
    | nil => exact ⟨rfl, (List.cons.inj h).2⟩
    | cons y b => exact absurd ((List.cons.inj h).1 ▸ List.mem_cons_self) hb
  | cons x a ih =>
    cases b with
    | nil => exact absurd ((List.cons.inj h).1 ▸ List.mem_cons_self) ha
    | cons y b =>
      obtain ⟨hxy, hrest⟩ := List.cons.inj h
      obtain ⟨hab, hst⟩ := ih (fun hm => ha (List.mem_cons_of_mem _ hm))
        (fun hm => hb (List.mem_cons_of_mem _ hm)) hrest
      exact ⟨by rw [hxy, hab], hst⟩

/-- Where the parts after it do not hold the separator, the last one tells. -/
theorem append_cons_inj_right {a b s t : List α} {sep : α} (hs : sep ∉ s) (ht : sep ∉ t)
    (h : a ++ sep :: s = b ++ sep :: t) : a = b ∧ s = t := by
  have hrev : s.reverse ++ sep :: a.reverse = t.reverse ++ sep :: b.reverse := by
    simpa using congrArg List.reverse h
  obtain ⟨hst, hab⟩ := append_cons_inj (by simpa using hs) (by simpa using ht) hrev
  exact ⟨List.reverse_injective hab, List.reverse_injective hst⟩

/-! ## Joined fields -/

section Joined

variable {sep : α} {xs ys : List (List α)}

/-- There is one separator fewer than there are fields, and those that the fields hold. -/
theorem count_intercalate [DecidableEq α] (sep : α) (h : xs ≠ []) :
    ([sep].intercalate xs).count sep + 1 = xs.length + xs.flatten.count sep := by
  induction xs with
  | nil => exact absurd rfl h
  | cons x xs ih =>
    cases xs with
    | nil => simp [Nat.add_comm]
    | cons y ys =>
      have hrest := ih (List.cons_ne_nil y ys)
      rw [List.intercalate_cons_cons, List.count_append, List.count_append,
        List.count_singleton_self, List.flatten_cons, List.count_append, List.length_cons]
      omega

/-- Fields without separators are told by their text. -/
theorem eq_of_intercalate_eq (hxs : ∀ x ∈ xs, sep ∉ x) (hys : ∀ y ∈ ys, sep ∉ y)
    (hlen : ys.length = xs.length) (h : [sep].intercalate ys = [sep].intercalate xs) :
    ys = xs := by
  induction xs generalizing ys with
  | nil => exact List.length_eq_zero_iff.1 hlen
  | cons x xs ih =>
    obtain ⟨y, ys, rfl⟩ := List.exists_of_length_succ ys hlen
    rw [List.forall_mem_cons] at hxs hys
    have htail : ys.length = xs.length := Nat.succ.inj hlen
    rcases xs with _ | ⟨x', xs⟩
    · rw [List.length_eq_zero_iff.1 htail] at h ⊢
      simpa using h
    · obtain ⟨y', ys, rfl⟩ := List.exists_of_length_succ ys htail
      simp only [List.intercalate_cons_cons, List.append_assoc, List.singleton_append] at h
      obtain ⟨rfl, hrest⟩ := append_cons_inj hys.1 hxs.1 h
      rw [ih hxs.2 hys.2 htail hrest]

/-- A separator inside a field can be taken for one between fields: the fields beside it move. -/
theorem exists_moved (hlen : 2 ≤ xs.length) {x : List α} (hx : x ∈ xs) (hsep : sep ∈ x) :
    ∃ ys, ys.length = xs.length ∧ [sep].intercalate ys = [sep].intercalate xs ∧ ys ≠ xs := by
  induction xs with
  | nil => cases hx
  | cons x₁ xs ih =>
    rcases xs with _ | ⟨x₂, xs⟩
    · exact absurd hlen (by simp)
    rcases List.mem_cons.1 hx with rfl | hx
    · -- the end of the first field moves into the second one
      obtain ⟨a, b, rfl⟩ := List.append_of_mem hsep
      refine ⟨a :: (b ++ sep :: x₂) :: xs, rfl, ?_, fun heq => ?_⟩
      · cases xs <;> simp [List.intercalate_cons_cons]
      · have := congrArg List.length (List.cons.inj heq).1
        simp at this
    rcases List.mem_cons.1 hx with rfl | hmem
    · -- the start of the second field moves into the first one
      obtain ⟨a, b, rfl⟩ := List.append_of_mem hsep
      refine ⟨(x₁ ++ sep :: a) :: b :: xs, rfl, ?_, fun heq => ?_⟩
      · cases xs <;> simp [List.intercalate_cons_cons]
      · have := congrArg List.length (List.cons.inj heq).1
        simp at this
    · obtain ⟨ys, hys, htext, hne⟩ := ih
        (Nat.succ_le_succ (List.length_pos_of_mem hmem)) hx
      have hnil : ys ≠ [] := fun hnil => by
        rw [hnil] at hys
        cases hys
      refine ⟨x₁ :: ys, congrArg Nat.succ hys, ?_, fun heq => ?_⟩
      · rw [List.intercalate_cons_of_ne_nil hnil, htext, List.intercalate_cons_cons]
      · exact hne (List.cons.inj heq).2

/-- **Joined fields are determined exactly if none holds the separator.** -/
theorem determined_iff (hlen : 2 ≤ xs.length) :
    (∀ ys, ys.length = xs.length → [sep].intercalate ys = [sep].intercalate xs → ys = xs) ↔
      ∀ x ∈ xs, sep ∉ x := by
  classical
  constructor
  · intro h x hx hsep
    obtain ⟨ys, hys, htext, hne⟩ := exists_moved hlen hx hsep
    exact hne (h ys hys htext)
  · intro hx ys hys htext
    -- the text has no more separators than it needs, whatever fields it is read as
    have hpos : 0 < xs.length := Nat.lt_of_lt_of_le Nat.two_pos hlen
    have hxs := count_intercalate sep (List.ne_nil_of_length_pos hpos)
    have hcount := count_intercalate sep (List.ne_nil_of_length_pos (hys ▸ hpos))
    have hfree : xs.flatten.count sep = 0 := by
      rw [List.count_eq_zero, List.mem_flatten]
      rintro ⟨x, hmem, hsep⟩
      exact hx x hmem hsep
    rw [htext, hxs, hys, hfree] at hcount
    have hzero : ys.flatten.count sep = 0 := by omega
    rw [List.count_eq_zero, List.mem_flatten] at hzero
    exact eq_of_intercalate_eq hx (fun y hy hsep => hzero ⟨y, hy, hsep⟩) hys htext

end Joined

end Kit.Separator
