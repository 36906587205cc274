/-
  Exceptions of imperative computations. `Raises E m r s` says that `m`, run in `r` from `s`, ends
  in an exception of `E`. One equivalence for each way of building a computation, so that the
  exceptions of a program are read off its text.
-/
import MiniVault.Kit.Imp

namespace Kit.Imp

variable {ρ σ ε α β γ : Type}

/-- Run in `r` from `s`, `m` raises an exception of `E`. -/
def Raises (E : ε → Prop) (m : Imp ρ σ ε α) (r : ρ) (s : σ) : Prop :=
  ∃ x, (m r s).1 = .error x ∧ E x

section Rules

variable {E : ε → Prop} {m n : Imp ρ σ ε α} {f : α → Imp ρ σ ε β} {r : ρ} {s : σ}

/-- A computation returns, or raises an exception of one kind or of the other. -/
theorem not_raises : ¬ Raises E m r s ↔
    (∃ a, (m r s).1 = .ok a) ∨ ∃ x, (m r s).1 = .error x ∧ ¬ E x := by
  unfold Raises
  rcases (m r s).1 with x | a
  · constructor
    · exact fun h => .inr ⟨x, rfl, fun hx => h ⟨x, rfl, hx⟩⟩
    · rintro (⟨_, ⟨⟩⟩ | ⟨_, ⟨⟩, hx⟩) ⟨_, ⟨⟩, hx'⟩
      exact hx hx'
  · constructor
    · exact fun _ => .inl ⟨a, rfl⟩
    · rintro - ⟨_, ⟨⟩, -⟩

@[simp] theorem raises_pure {a : α} : Raises E (pure a : Imp ρ σ ε α) r s ↔ False :=
  ⟨by rintro ⟨_, ⟨⟩, -⟩, False.elim⟩

@[simp] theorem raises_raise {x : ε} : Raises E (raise x : Imp ρ σ ε α) r s ↔ E x :=
  ⟨by rintro ⟨_, ⟨⟩, h⟩; exact h, fun h => ⟨x, rfl, h⟩⟩

@[simp] theorem raises_ofExcept {x : Except ε α} :
    Raises E (ofExcept x : Imp ρ σ ε α) r s ↔ ∃ y, x = .error y ∧ E y := Iff.rfl

/-- What comes after an exception does not run. -/
@[simp] theorem raises_raise_bind {x : ε} : Raises E (raise x >>= f) r s ↔ E x :=
  ⟨by rintro ⟨_, ⟨⟩, h⟩; exact h, fun h => ⟨x, rfl, h⟩⟩

@[simp] theorem raises_pure_bind {a : α} : Raises E (pure a >>= f) r s ↔ Raises E (f a) r s :=
  Iff.rfl

@[simp] theorem raises_gets_bind {g : σ → α} :
    Raises E (gets g >>= f) r s ↔ Raises E (f (g s)) r s := Iff.rfl

@[simp] theorem raises_environ_bind {f : ρ → Imp ρ σ ε β} :
    Raises E (environ >>= f) r s ↔ Raises E (f r) r s := Iff.rfl

@[simp] theorem raises_modify_bind {g : σ → σ} {f : Unit → Imp ρ σ ε β} :
    Raises E (modify g >>= f) r s ↔ Raises E (f ()) r (g s) := Iff.rfl

@[simp] theorem raises_modify {g : σ → σ} : Raises E (modify g : Imp ρ σ ε Unit) r s ↔ False :=
  ⟨by rintro ⟨_, ⟨⟩, -⟩, False.elim⟩

@[simp] theorem raises_gets {g : σ → α} : Raises E (gets g : Imp ρ σ ε α) r s ↔ False :=
  ⟨by rintro ⟨_, ⟨⟩, -⟩, False.elim⟩

theorem raises_ite {c : Prop} [Decidable c] :
    Raises E (if c then m else n) r s ↔ (c ∧ Raises E m r s) ∨ (¬ c ∧ Raises E n r s) := by
  by_cases hc : c
  · simp [hc]
  · simp [hc]

/-- Sequencing: the first part raises, or it returns and the second part raises. -/
theorem raises_bind : Raises E (m >>= f) r s ↔
    Raises E m r s ∨ ∃ a s', m r s = (.ok a, s') ∧ Raises E (f a) r s' := by
  unfold Raises
  rw [bind_apply]
  rcases m r s with ⟨x | a, s'⟩
  · simp
  · simp

theorem raises_ofExcept_bind {x : Except ε α} : Raises E (ofExcept x >>= f) r s ↔
    (∃ y, x = .error y ∧ E y) ∨ ∃ a, x = .ok a ∧ Raises E (f a) r s := by
  rw [raises_bind, raises_ofExcept]
  refine or_congr_right ⟨?_, ?_⟩
  · rintro ⟨a, s', heq, h⟩
    cases heq
    exact ⟨a, rfl, h⟩
  · rintro ⟨a, rfl, h⟩
    exact ⟨a, s, rfl, h⟩

/-- A result wrapped. -/
theorem raises_map {g : α → β} : Raises E (m >>= fun a => pure (g a)) r s ↔ Raises E m r s := by
  rw [raises_bind]
  simp

end Rules

end Kit.Imp
