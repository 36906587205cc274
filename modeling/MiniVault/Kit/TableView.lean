/-
  Views of tables: the rows an observer may see, each with what hangs on it, in table order. A
  query for visible rows can be answered from the view, and inserts, updates and deletes move the
  view in the same way.
-/
import Mathlib.Data.List.Find
import MiniVault.Kit.Table

namespace Kit.Table

variable {α γ : Type}

/-- The visible rows, as `f` shows them. -/
def view (vis : α → Bool) (f : α → γ) (l : List α) : List γ := (l.filter vis).map f

section View

variable {vis : α → Bool} {f f' : α → γ} {l : List α}

theorem mem_view {x : γ} : x ∈ view vis f l ↔ ∃ a ∈ l, vis a = true ∧ f a = x := by
  unfold view
  rw [List.mem_map]
  constructor
  · rintro ⟨a, ha, rfl⟩
    obtain ⟨hmem, hvis⟩ := List.mem_filter.1 ha
    exact ⟨a, hmem, hvis, rfl⟩
  · rintro ⟨a, hmem, hvis, rfl⟩
    exact ⟨a, List.mem_filter.2 ⟨hmem, hvis⟩, rfl⟩

/-- A lookup that finds only visible rows is a lookup in the view. -/
theorem find?_view {p : α → Bool} {q : γ → Bool} (hvis : ∀ a ∈ l, p a = true → vis a = true)
    (hq : ∀ a, q (f a) = p a) : (l.find? p).map f = (view vis f l).find? q := by
  unfold view
  rw [List.find?_map, List.find?_filter]
  congr 1
  refine List.find?_congr fun a ha => ?_
  rcases hp : p a with _ | _
  · simp [hq, hp]
  · simp [hq, hp, hvis a ha hp]

/-- So is a query for all rows of a kind. -/
theorem filter_view {p : α → Bool} {q : γ → Bool} (hvis : ∀ a ∈ l, p a = true → vis a = true)
    (hq : ∀ a, q (f a) = p a) : (l.filter p).map f = (view vis f l).filter q := by
  unfold view
  rw [List.filter_map, List.filter_filter]
  congr 1
  refine List.filter_congr fun a ha => ?_
  rcases hp : p a with _ | _
  · simp [hq, hp]
  · simp [hq, hp, hvis a ha hp]

theorem view_concat (a : α) :
    view vis f (l ++ [a]) = view vis f l ++ if vis a then [f a] else [] := by
  unfold view
  rw [List.filter_append, List.map_append]
  rcases hv : vis a with _ | _
  · simp [hv]
  · simp [hv]

/-- What is shown of the rows may change with other tables, if not for these rows. -/
theorem view_congr (h : ∀ a ∈ l, f a = f' a) : view vis f l = view vis f' l :=
  List.map_congr_left fun a ha => h a (List.mem_of_mem_filter ha)

/-- An update of the rows is an update of the view. -/
theorem view_map {u : α → α} {g : γ → γ} (hvis : ∀ a, vis (u a) = vis a)
    (hu : ∀ a ∈ l, f' (u a) = g (f a)) : view vis f' (l.map u) = (view vis f l).map g := by
  unfold view
  rw [List.filter_map, List.map_map, List.map_map]
  have hfilter : l.filter (vis ∘ u) = l.filter vis := List.filter_congr fun a _ => hvis a
  rw [hfilter]
  exact List.map_congr_left fun a ha => hu a (List.mem_of_mem_filter ha)

/-- An update that the view does not show. -/
theorem map_eq_self {g : γ → γ} {xs : List γ} (h : ∀ x ∈ xs, g x = x) : xs.map g = xs :=
  (List.map_congr_left h).trans (List.map_id xs)

/-- A deletion from the rows is a deletion from the view. -/
theorem view_filter {p : α → Bool} {q : γ → Bool} (hp : ∀ a ∈ l, p a = q (f a))
    (hf : ∀ a ∈ l, p a = true → f' a = f a) :
    view vis f' (l.filter p) = (view vis f l).filter q := by
  unfold view
  rw [List.filter_map, List.filter_filter, List.filter_filter]
  have hcomm : l.filter (fun a => vis a && p a) = l.filter (fun a => (q ∘ f) a && vis a) := by
    refine List.filter_congr fun a ha => ?_
    rw [hp a ha, Bool.and_comm]
    rfl
  rw [hcomm]
  refine List.map_congr_left fun a ha => ?_
  obtain ⟨hmem, hboth⟩ := List.mem_filter.1 ha
  rw [Bool.and_eq_true] at hboth
  exact hf a hmem ((hp a hmem).trans hboth.1)

end View

/-- The row with the largest value, of rows shown with that value. -/
theorem argmax_map {f : α → γ} {g : α → Nat} {h : γ → Nat} (hg : ∀ a, h (f a) = g a)
    (l : List α) : (l.map f).argmax h = (l.argmax g).map f := by
  induction l using List.reverseRecOn with
  | nil => rfl
  | append_singleton l a ih =>
    rw [List.map_append, List.map_singleton, List.argmax_concat, List.argmax_concat, ih]
    rcases l.argmax g with _ | b
    · rfl
    · simp only [Option.map_some, hg]
      split <;> rfl

end Kit.Table
