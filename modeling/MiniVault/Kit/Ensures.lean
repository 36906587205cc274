/-
  Triples for imperative computations: from every state that satisfies an invariant, a
  computation leaves such a state, whether it returns or raises, and what it returns satisfies
  its postcondition. One rule for each way of building a computation.
-/
import MiniVault.Kit.Imp

namespace Kit.Imp

variable {ρ σ ε α β : Type}

/-- In an environment of `G`, `m` keeps `I`, and what it returns satisfies `Q`. -/
def Ensures (G : ρ → Prop) (I : σ → Prop) (m : Imp ρ σ ε α) (Q : α → Prop) : Prop :=
  ∀ r s, G r → I s → I (m r s).2 ∧ ∀ a, (m r s).1 = .ok a → Q a

section Rules

variable {G : ρ → Prop} {I : σ → Prop} {m : Imp ρ σ ε α} {Q R : α → Prop}

theorem Ensures.mono (h : Ensures G I m Q) (hQ : ∀ a, Q a → R a) : Ensures G I m R :=
  fun r s hr hs => ⟨(h r s hr hs).1, fun a ha => hQ a ((h r s hr hs).2 a ha)⟩

theorem ensures_pure {a : α} (h : Q a) : Ensures G I (pure a : Imp ρ σ ε α) Q :=
  fun _ _ _ hs => ⟨hs, by rintro _ ⟨⟩; exact h⟩

theorem ensures_raise (x : ε) : Ensures G I (raise x : Imp ρ σ ε α) Q :=
  fun _ _ _ hs => ⟨hs, by rintro _ ⟨⟩⟩

/-- What comes after an exception does not run. -/
theorem ensures_raise_bind (x : ε) (f : β → Imp ρ σ ε α) : Ensures G I (raise x >>= f) Q :=
  fun _ _ _ hs => ⟨hs, by rintro _ ⟨⟩⟩

theorem ensures_ofExcept {x : Except ε α} (h : ∀ a, x = .ok a → Q a) :
    Ensures G I (ofExcept x : Imp ρ σ ε α) Q :=
  fun _ _ _ hs => ⟨hs, h⟩

theorem ensures_environ : Ensures G I (environ : Imp ρ σ ε ρ) G :=
  fun _ _ hr hs => ⟨hs, by rintro _ ⟨⟩; exact hr⟩

theorem ensures_gets {f : σ → α} (h : ∀ s, I s → Q (f s)) :
    Ensures G I (gets f : Imp ρ σ ε α) Q :=
  fun _ s _ hs => ⟨hs, by rintro _ ⟨⟩; exact h s hs⟩

theorem ensures_modify {f : σ → σ} (h : ∀ s, I s → I (f s)) :
    Ensures G I (modify f : Imp ρ σ ε Unit) fun _ => True :=
  fun _ s _ hs => ⟨h s hs, fun _ _ => trivial⟩

/-- Sequencing: the second part starts from what the first ensured. -/
theorem Ensures.bind {f : α → Imp ρ σ ε β} {R : β → Prop} (hm : Ensures G I m Q)
    (hf : ∀ a, Q a → Ensures G I (f a) R) : Ensures G I (m >>= f) R := by
  intro r s hr hs
  obtain ⟨hI, hQ⟩ := hm r s hr hs
  rw [bind_apply]
  rcases hms : m r s with ⟨x | a, s'⟩
  · rw [hms] at hI
    exact ⟨hI, by rintro _ ⟨⟩⟩
  · rw [hms] at hI hQ
    exact hf a (hQ a rfl) r s' hr hI

theorem Ensures.handle {h : ε → Imp ρ σ ε α} (hm : Ensures G I m Q)
    (hh : ∀ x, Ensures G I (h x) Q) : Ensures G I (handle m h) Q := by
  intro r s hr hs
  obtain ⟨hI, hQ⟩ := hm r s hr hs
  rw [handle_apply]
  rcases hms : m r s with ⟨x | a, s'⟩
  · rw [hms] at hI
    exact hh x r s' hr hI
  · rw [hms] at hI hQ
    exact ⟨hI, hQ⟩

theorem Ensures.ite {c : Prop} [Decidable c] {n : Imp ρ σ ε α} (hm : c → Ensures G I m Q)
    (hn : ¬ c → Ensures G I n Q) : Ensures G I (if c then m else n) Q := by
  by_cases hc : c
  · rw [if_pos hc]
    exact hm hc
  · rw [if_neg hc]
    exact hn hc

end Rules

end Kit.Imp
