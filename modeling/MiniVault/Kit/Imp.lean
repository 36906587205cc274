/-
  Imperative computations with exceptions: a computation reads an environment `ρ`, moves a
  state `σ`, and returns a value or raises an exception `ε`. The state reached so far
  survives an exception, as in a language with mutable objects, so a half-done change is
  visible to whoever handles the exception.

  * `except_bind_eq_ok`, `except_bind_eq_error`: one inversion lemma for sequencing without state,
    in each direction.
-/
import Mathlib.Tactic.Common

namespace Kit

/-- A computation reading `ρ`, moving `σ`, raising `ε` and returning `α`. -/
def Imp (ρ σ ε α : Type) : Type := ρ → σ → Except ε α × σ

namespace Imp

variable {ρ σ ε α β : Type}

/-- Sequencing: an exception stops the computation and keeps the state it was raised in. -/
def seq (m : Imp ρ σ ε α) (f : α → Imp ρ σ ε β) : Imp ρ σ ε β := fun r s =>
  match m r s with
  | (.ok a, s') => f a r s'
  | (.error x, s') => (.error x, s')

instance : Monad (Imp ρ σ ε) where
  pure a := fun _ s => (.ok a, s)
  bind := seq

def raise (x : ε) : Imp ρ σ ε α := fun _ s => (.error x, s)

def ofExcept (x : Except ε α) : Imp ρ σ ε α := fun _ s => (x, s)

def environ : Imp ρ σ ε ρ := fun r s => (.ok r, s)

def gets (f : σ → α) : Imp ρ σ ε α := fun _ s => (.ok (f s), s)

def modify (f : σ → σ) : Imp ρ σ ε Unit := fun _ s => (.ok (), f s)

/-- `try m except x: h x`. -/
def handle (m : Imp ρ σ ε α) (h : ε → Imp ρ σ ε α) : Imp ρ σ ε α := fun r s =>
  match m r s with
  | (.ok a, s') => (.ok a, s')
  | (.error x, s') => h x r s'

/-! ## What a computation returned or raised -/

@[simp] theorem pure_apply (a : α) (r : ρ) (s : σ) :
    (pure a : Imp ρ σ ε α) r s = (.ok a, s) := rfl

@[simp] theorem raise_apply (x : ε) (r : ρ) (s : σ) :
    (raise x : Imp ρ σ ε α) r s = (.error x, s) := rfl

@[simp] theorem ofExcept_apply (x : Except ε α) (r : ρ) (s : σ) :
    (ofExcept x : Imp ρ σ ε α) r s = (x, s) := rfl

@[simp] theorem environ_apply (r : ρ) (s : σ) :
    (environ : Imp ρ σ ε ρ) r s = (.ok r, s) := rfl

@[simp] theorem gets_apply (f : σ → α) (r : ρ) (s : σ) :
    (gets f : Imp ρ σ ε α) r s = (.ok (f s), s) := rfl

@[simp] theorem modify_apply (f : σ → σ) (r : ρ) (s : σ) :
    (modify f : Imp ρ σ ε Unit) r s = (.ok (), f s) := rfl

@[simp] theorem bind_apply (m : Imp ρ σ ε α) (f : α → Imp ρ σ ε β) (r : ρ) (s : σ) :
    (m >>= f) r s =
      match m r s with
      | (.ok a, s') => f a r s'
      | (.error x, s') => (.error x, s') := rfl

@[simp] theorem ite_run (c : Prop) [Decidable c] (m n : Imp ρ σ ε α) (r : ρ) (s : σ) :
    (if c then m else n) r s = if c then m r s else n r s := by
  split <;> rfl

@[simp] theorem handle_apply (m : Imp ρ σ ε α) (h : ε → Imp ρ σ ε α) (r : ρ) (s : σ) :
    handle m h r s =
      match m r s with
      | (.ok a, s') => (.ok a, s')
      | (.error x, s') => h x r s' := rfl

/-- A result wrapped on the way. -/
theorem bind_pure_bind {γ : Type} (m : Imp ρ σ ε α) (f : α → β) (g : β → Imp ρ σ ε γ) :
    ((m >>= fun a => pure (f a)) >>= g) = m >>= fun a => g (f a) := by
  funext r s
  rw [bind_apply, bind_apply, bind_apply]
  rcases m r s with ⟨x | a, s'⟩
  · rfl
  · rfl

/-- A sequence without state returned: both parts did, one after the other. -/
theorem except_bind_eq_ok {x : Except ε α} {f : α → Except ε β} {b : β} :
    (x >>= f) = .ok b ↔ ∃ a, x = .ok a ∧ f a = .ok b := by
  rcases x with e | a
  · exact ⟨by rintro ⟨⟩, by rintro ⟨_, ⟨⟩, _⟩⟩
  · exact ⟨fun h => ⟨a, rfl, h⟩, by rintro ⟨_, ⟨⟩, h⟩; exact h⟩

/-- It raised: in its first part, or in the second after the first returned. -/
theorem except_bind_eq_error {x : Except ε α} {f : α → Except ε β} {e : ε} :
    (x >>= f) = .error e ↔ x = .error e ∨ ∃ a, x = .ok a ∧ f a = .error e := by
  rcases x with e' | a
  · refine ⟨fun h => .inl (congrArg Except.error (Except.error.inj h)), ?_⟩
    rintro (⟨⟨⟩⟩ | ⟨_, ⟨⟩, _⟩)
    rfl
  · refine ⟨fun h => .inr ⟨a, rfl, h⟩, ?_⟩
    rintro (⟨⟨⟩⟩ | ⟨_, ⟨⟩, h⟩)
    exact h

end Imp

end Kit
