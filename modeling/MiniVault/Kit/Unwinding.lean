/-
  Non-interference by unwinding. Some inputs of a run are hidden, judged when their turn comes; of
  the others an observer sees what `obs` shows of the answer. A relation between the states of two
  runs that hidden inputs of the first keep on their own, and that the other inputs keep together
  and answer alike, makes the observations of a run those of the run without the hidden inputs.

  Where nothing is hidden but some exchanges are idle, judged by input and answer, any of them may
  be struck out of a run: what is left is the run of the inputs that are left.
-/
import MiniVault.Kit.Run

namespace Kit.Run

variable {σ ι ω ω' : Type}

section Hidden

variable (step : σ → ι → ω × σ) (hidden : σ → ι → Bool) (obs : ι → ω → ω')

/-- The inputs of a run that are not hidden. -/
def purged (s : σ) : List ι → List ι
  | [] => []
  | i :: is =>
    if hidden s i then purged (step s i).2 is else i :: purged (step s i).2 is

/-- The inputs of a run that are not hidden, with what is seen of their answers. -/
def observed (s : σ) : List ι → List (ι × ω')
  | [] => []
  | i :: is =>
    if hidden s i then observed (step s i).2 is
    else (i, obs i (step s i).1) :: observed (step s i).2 is

/-- `R is s t`: with `is` still to come, the state `t` looks like `s`. -/
structure Unwinding (R : List ι → σ → σ → Prop) : Prop where
  absorb : ∀ i is s t, R (i :: is) s t → hidden s i = true → R is (step s i).2 t
  agree : ∀ i is s t, R (i :: is) s t → hidden s i = false →
    hidden t i = false ∧ obs i (step t i).1 = obs i (step s i).1
  keep : ∀ i is s t, R (i :: is) s t → hidden s i = false → R is (step s i).2 (step t i).2

end Hidden

variable {step : σ → ι → ω × σ} {hidden : σ → ι → Bool} {obs : ι → ω → ω'}

theorem Unwinding.observed_purged {R : List ι → σ → σ → Prop}
    (h : Unwinding step hidden obs R) {is : List ι} {s t : σ} (hR : R is s t) :
    observed step hidden obs t (purged step hidden s is) = observed step hidden obs s is := by
  induction is generalizing s t with
  | nil => rfl
  | cons i is ih =>
    rw [purged, observed]
    rcases hi : hidden s i with _ | _
    · obtain ⟨ht, hobs⟩ := h.agree i is s t hR hi
      rw [if_neg Bool.false_ne_true, if_neg Bool.false_ne_true, observed, ht,
        if_neg Bool.false_ne_true, hobs, ih (h.keep i is s t hR hi)]
    · rw [if_pos rfl, if_pos rfl]
      exact ih (h.absorb i is s t hR hi)

/-! ## Idle exchanges -/

/-- The second list is the first without some of its idle members. -/
inductive Pruned {α : Type} (idle : α → Bool) : List α → List α → Prop where
  | nil : Pruned idle [] []
  | keep (a : α) {as bs : List α} (h : Pruned idle as bs) : Pruned idle (a :: as) (a :: bs)
  | drop {a : α} {as bs : List α} (ha : idle a = true) (h : Pruned idle as bs) :
      Pruned idle (a :: as) bs

theorem Pruned.refl {α : Type} (idle : α → Bool) (as : List α) : Pruned idle as as := by
  induction as with
  | nil => exact .nil
  | cons a as ih => exact .keep a ih

/-- All idle members struck out. -/
theorem Pruned.filter {α : Type} (idle : α → Bool) (as : List α) :
    Pruned idle as (as.filter fun a => !idle a) := by
  induction as with
  | nil => exact .nil
  | cons a as ih =>
    rcases ha : idle a with _ | _
    · rw [List.filter_cons_of_pos (by rw [ha]; rfl)]
      exact .keep a ih
    · rw [List.filter_cons_of_neg (by rw [ha]; decide)]
      exact .drop ha ih

/-- Related states answer alike and stay related, also when one of them is idle alone. -/
structure Idling (step : σ → ι → ω × σ) (idle : ι × ω → Bool) (R : σ → σ → Prop) : Prop where
  absorb : ∀ i s t, R s t → idle (i, (step s i).1) = true → R (step s i).2 t
  agree : ∀ i s t, R s t → (step t i).1 = (step s i).1
  keep : ∀ i s t, R s t → R (step s i).2 (step t i).2

theorem Idling.trace_of_pruned {idle : ι × ω → Bool} {R : σ → σ → Prop}
    (h : Idling step idle R) {is : List ι} {tr : List (ι × ω)} {s t : σ} (hR : R s t)
    (hp : Pruned idle (trace step s is) tr) :
    trace step t (tr.map (·.1)) = tr ∧
      R (final step s is) (final step t (tr.map (·.1))) := by
  induction is generalizing s t tr with
  | nil =>
    cases hp
    exact ⟨rfl, hR⟩
  | cons i is ih =>
    rw [trace] at hp
    cases hp with
    | keep _ hp =>
      obtain ⟨htrace, hfinal⟩ := ih (h.keep i s t hR) hp
      rw [List.map_cons, trace, htrace, h.agree i s t hR]
      exact ⟨rfl, hfinal⟩
    | drop hidle hp => exact ih (h.absorb i s t hR hidle) hp

end Kit.Run
