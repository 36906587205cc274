/-
  Runs of a deterministic machine: a step answers an input and moves the state; a run feeds it a
  list of inputs. The trace of a run pairs every input with its answer.

  * `final_append`, `trace_append`: a run of two parts;
  * `run_induction`: what holds at the start, of the empty trace, and is kept by every step,
    holds of every trace and the state it ends in;
  * `invariant_final`: the same for a property of the state alone;
  * `trace_related`: two machines with related states give the same trace.
-/
import Mathlib.Data.List.Induction

namespace Kit.Run

variable {σ ι ω : Type} (step : σ → ι → ω × σ)

/-- The state after a list of inputs. -/
def final (s : σ) (is : List ι) : σ := is.foldl (fun s i => (step s i).2) s

/-- Every input of a run with its answer. -/
def trace (s : σ) : List ι → List (ι × ω)
  | [] => []
  | i :: is => (i, (step s i).1) :: trace (step s i).2 is

variable {step}

@[simp] theorem final_nil (s : σ) : final step s [] = s := rfl

theorem final_cons (s : σ) (i : ι) (is : List ι) :
    final step s (i :: is) = final step (step s i).2 is := rfl

theorem final_append (s : σ) (is js : List ι) :
    final step s (is ++ js) = final step (final step s is) js := List.foldl_append

theorem final_concat (s : σ) (is : List ι) (i : ι) :
    final step s (is ++ [i]) = (step (final step s is) i).2 := final_append s is [i]

theorem trace_append (s : σ) (is js : List ι) :
    trace step s (is ++ js) = trace step s is ++ trace step (final step s is) js := by
  induction is generalizing s with
  | nil => rfl
  | cons i is ih => rw [List.cons_append, trace, trace, ih, List.cons_append, final_cons]

theorem trace_concat (s : σ) (is : List ι) (i : ι) :
    trace step s (is ++ [i]) = trace step s is ++ [(i, (step (final step s is) i).1)] :=
  trace_append s is [i]

theorem trace_map_fst (s : σ) (is : List ι) : (trace step s is).map (·.1) = is := by
  induction is generalizing s with
  | nil => rfl
  | cons i is ih => rw [trace, List.map_cons, ih]

/-- The trace holds nothing but the inputs. -/
theorem mem_of_mem_trace {s : σ} {is : List ι} {i : ι} {r : ω} (h : (i, r) ∈ trace step s is) :
    i ∈ is := by
  rw [← trace_map_fst s is]
  exact List.mem_map_of_mem h

/-- An input of the trace, answered where the run had come to. -/
theorem exists_of_mem_trace {s : σ} {is : List ι} {i : ι} {r : ω} (h : (i, r) ∈ trace step s is) :
    ∃ is₁ is₂, is = is₁ ++ i :: is₂ ∧ (step (final step s is₁) i).1 = r := by
  induction is generalizing s with
  | nil => cases h
  | cons j is ih =>
    rcases List.mem_cons.1 h with h | h
    · cases h
      exact ⟨[], is, rfl, rfl⟩
    · obtain ⟨is₁, is₂, rfl, hr⟩ := ih h
      exact ⟨j :: is₁, is₂, rfl, hr⟩

/-- A trace cut at one of its inputs. -/
theorem trace_split {s : σ} {is : List ι} {before after : List (ι × ω)} {x : ι × ω}
    (h : trace step s is = before ++ x :: after) :
    ∃ is₁ is₂, is = is₁ ++ x.1 :: is₂ ∧ before = trace step s is₁ ∧
      (step (final step s is₁) x.1).1 = x.2 := by
  induction is generalizing s before with
  | nil => exact absurd h (by simp [trace])
  | cons i is ih =>
    rw [trace] at h
    cases before with
    | nil =>
      obtain ⟨rfl, -⟩ := List.cons.inj h
      exact ⟨[], is, rfl, rfl, rfl⟩
    | cons y before =>
      obtain ⟨rfl, htail⟩ := List.cons.inj h
      obtain ⟨is₁, is₂, rfl, rfl, hx⟩ := ih htail
      exact ⟨i :: is₁, is₂, rfl, rfl, hx⟩

theorem mem_trace_append (s : σ) (is₁ is₂ : List ι) (i : ι) :
    (i, (step (final step s is₁) i).1) ∈ trace step s (is₁ ++ i :: is₂) := by
  rw [trace_append, trace]
  exact List.mem_append_right _ List.mem_cons_self

/-- Induction over runs, with the trace at hand. -/
theorem run_induction {I : List (ι × ω) → σ → Prop} {s : σ} (h : I [] s)
    (hstep : ∀ tr s i, I tr s → I (tr ++ [(i, (step s i).1)]) (step s i).2) (is : List ι) :
    I (trace step s is) (final step s is) := by
  induction is using List.reverseRecOn with
  | nil => exact h
  | append_singleton is i ih =>
    rw [trace_concat, final_concat]
    exact hstep _ _ _ ih

/-- What every step keeps, every run keeps. -/
theorem invariant_final {I : σ → Prop} {s : σ} (h : I s) (hstep : ∀ s i, I s → I (step s i).2)
    (is : List ι) : I (final step s is) :=
  run_induction (I := fun _ s => I s) h (fun _ s i => hstep s i) is

/-- Two systems whose states stay related on the inputs of a run answer it alike. -/
theorem trace_related {τ : Type} {other : τ → ι → ω × τ} {R : σ → τ → Prop} {is : List ι}
    (hstep : ∀ i ∈ is, ∀ s t, R s t →
      (step s i).1 = (other t i).1 ∧ R (step s i).2 (other t i).2) {s : σ} {t : τ} (h : R s t) :
    trace step s is = trace other t is := by
  induction is generalizing s t with
  | nil => rfl
  | cons i is ih =>
    obtain ⟨hout, hnext⟩ := hstep i List.mem_cons_self s t h
    rw [trace, trace, hout, ih (fun j hj => hstep j (List.mem_cons_of_mem _ hj)) hnext]

end Kit.Run
