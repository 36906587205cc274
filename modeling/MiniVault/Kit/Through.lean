/-
  Computations that work through a view of their state. Of two states with the same view such a
  computation returns or raises the same, and leaves two states with the same view, whatever the
  view leaves out. One rule for each way of building a computation.
-/
import MiniVault.Kit.Imp

namespace Kit.Imp

variable {ρ σ ε α β γ : Type}

/-- What `m` does depends on `view` of the state, and so does the view of what it leaves. -/
def Through (view : σ → γ) (m : Imp ρ σ ε α) : Prop :=
  ∀ r s s', view s = view s' →
    (m r s).1 = (m r s').1 ∧ view (m r s).2 = view (m r s').2

section Rules

variable {view : σ → γ} {m n : Imp ρ σ ε α}

theorem through_pure (a : α) : Through view (pure a : Imp ρ σ ε α) :=
  fun _ _ _ h => ⟨rfl, h⟩

theorem through_raise (x : ε) : Through view (raise x : Imp ρ σ ε α) :=
  fun _ _ _ h => ⟨rfl, h⟩

/-- What comes after an exception does not run. -/
theorem through_raise_bind (x : ε) (f : β → Imp ρ σ ε α) : Through view (raise x >>= f) :=
  fun _ _ _ h => ⟨rfl, h⟩

theorem through_ofExcept (x : Except ε α) : Through view (ofExcept x : Imp ρ σ ε α) :=
  fun _ _ _ h => ⟨rfl, h⟩

theorem through_environ : Through view (environ : Imp ρ σ ε ρ) :=
  fun _ _ _ h => ⟨rfl, h⟩

theorem through_gets {f : σ → α} (hf : ∀ s s', view s = view s' → f s = f s') :
    Through view (gets f : Imp ρ σ ε α) :=
  fun _ s s' h => ⟨congrArg Except.ok (hf s s' h), h⟩

theorem through_modify {f : σ → σ} (hf : ∀ s s', view s = view s' → view (f s) = view (f s')) :
    Through view (modify f : Imp ρ σ ε Unit) :=
  fun _ s s' h => ⟨rfl, hf s s' h⟩

/-- From two states with the same view it raises the same exception, or returns the same. -/
theorem Through.cases (hm : Through view m) (r : ρ) {s s' : σ} (h : view s = view s') :
    ∃ t t', view t = view t' ∧
      ((∃ x, m r s = (.error x, t) ∧ m r s' = (.error x, t')) ∨
        ∃ a, m r s = (.ok a, t) ∧ m r s' = (.ok a, t')) := by
  obtain ⟨hres, hview⟩ := hm r s s' h
  refine ⟨(m r s).2, (m r s').2, hview, ?_⟩
  rcases hs : (m r s).1 with x | a
  · exact .inl ⟨x, Prod.ext hs rfl, Prod.ext (hres.symm.trans hs) rfl⟩
  · exact .inr ⟨a, Prod.ext hs rfl, Prod.ext (hres.symm.trans hs) rfl⟩

/-- Sequencing. -/
theorem Through.bind {f : α → Imp ρ σ ε β} (hm : Through view m) (hf : ∀ a, Through view (f a)) :
    Through view (m >>= f) := by
  intro r s s' h
  obtain ⟨t, t', hview, ⟨x, hs, hs'⟩ | ⟨a, hs, hs'⟩⟩ := hm.cases r h
  · rw [bind_apply, bind_apply, hs, hs']
    exact ⟨rfl, hview⟩
  · rw [bind_apply, bind_apply, hs, hs']
    exact hf a r t t' hview

theorem Through.handle {h : ε → Imp ρ σ ε α} (hm : Through view m)
    (hh : ∀ x, Through view (h x)) : Through view (handle m h) := by
  intro r s s' hss
  obtain ⟨t, t', hview, ⟨x, hs, hs'⟩ | ⟨a, hs, hs'⟩⟩ := hm.cases r hss
  · rw [handle_apply, handle_apply, hs, hs']
    exact hh x r t t' hview
  · rw [handle_apply, handle_apply, hs, hs']
    exact ⟨rfl, hview⟩

theorem Through.ite {c : Prop} [Decidable c] (hm : Through view m) (hn : Through view n) :
    Through view (if c then m else n) := by
  by_cases hc : c
  · rw [if_pos hc]
    exact hm
  · rw [if_neg hc]
    exact hn

end Rules

end Kit.Imp
