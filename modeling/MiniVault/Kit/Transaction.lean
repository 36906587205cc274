/-
  A connection that opens a transaction with the first statement that changes data. A statement
  that changes the schema takes effect at once while no transaction is open; changes of data take
  effect with the commit.

  * `completed_script`: what a script of schema changes, data changes and a commit does;
  * `stopped_script`: what is left of it when the process stops between two of its statements.
-/
import Mathlib.Data.List.Basic
import Mathlib.Tactic.Common

namespace Kit.Transaction

variable {σ : Type}

/-- The state on disk, and what the open transaction, if there is one, has made of it. -/
structure Connection (σ : Type) where
  durable : σ
  pending : Option σ

/-- A statement, as what it does to the state it sees. -/
inductive Statement (σ : Type) where
  | query
  | schema (f : σ → σ)
  | data (f : σ → σ)
  | commit

/-- A new connection. -/
def connect (s : σ) : Connection σ := ⟨s, none⟩

/-- The state that a statement sees. -/
def Connection.view (c : Connection σ) : σ := c.pending.getD c.durable

def Connection.execute (c : Connection σ) : Statement σ → Connection σ
  | .query => c
  | .schema f =>
    match c.pending with
    | none => { c with durable := f c.durable }
    | some s => { c with pending := some (f s) }
  | .data f => { c with pending := some (f c.view) }
  | .commit => connect c.view

def Connection.run (c : Connection σ) (script : List (Statement σ)) : Connection σ :=
  script.foldl Connection.execute c

/-- What is on disk after the whole script. -/
def completed (s : σ) (script : List (Statement σ)) : σ := ((connect s).run script).durable

/-- What is on disk when the process stops after `k` statements of the script. -/
def stopped (s : σ) (script : List (Statement σ)) (k : Nat) : σ := completed s (script.take k)

/-- The functions one after the other. -/
def applyAll (fs : List (σ → σ)) (s : σ) : σ := fs.foldl (fun s f => f s) s

/-- What every one of the functions keeps. -/
theorem applyAll_induction {I : σ → Prop} {fs : List (σ → σ)} {s : σ} (h : I s)
    (hstep : ∀ f ∈ fs, ∀ s, I s → I (f s)) : I (applyAll fs s) := by
  induction fs generalizing s with
  | nil => exact h
  | cons f fs ih =>
    exact ih (hstep f List.mem_cons_self s h) fun g hg => hstep g (List.mem_cons_of_mem _ hg)

/-! ## Runs -/

theorem run_append (c : Connection σ) (l l' : List (Statement σ)) :
    c.run (l ++ l') = (c.run l).run l' := List.foldl_append

/-- Schema changes outside a transaction take effect at once. -/
theorem run_schema (fs : List (σ → σ)) (s : σ) :
    (connect s).run (fs.map .schema) = connect (applyAll fs s) := by
  induction fs generalizing s with
  | nil => rfl
  | cons f fs ih => exact ih (f s)

/-- Nothing that changes data takes effect before the commit. -/
theorem durable_run_data (c : Connection σ) (fs : List (σ → σ)) :
    (c.run (fs.map .data)).durable = c.durable := by
  induction fs generalizing c with
  | nil => rfl
  | cons f fs ih => exact ih _

theorem view_run_data (c : Connection σ) (fs : List (σ → σ)) :
    (c.run (fs.map .data)).view = applyAll fs c.view := by
  induction fs generalizing c with
  | nil => rfl
  | cons f fs ih => exact ih _

/-! ## Scripts -/

/-- Schema changes, a query, data changes and a commit. -/
def script (schema data : List (σ → σ)) : List (Statement σ) :=
  schema.map .schema ++ (.query :: data.map .data ++ [.commit])

variable (schema data : List (σ → σ)) (s : σ)

theorem length_script : (script schema data).length = schema.length + data.length + 2 := by
  simp only [script, List.length_append, List.length_map, List.length_cons, List.length_nil]
  omega

theorem completed_script :
    completed s (script schema data) = applyAll data (applyAll schema s) := by
  rw [completed, script, run_append, run_schema]
  show (((connect (applyAll schema s)).run (data.map .data ++ [.commit])).durable) = _
  rw [run_append]
  exact view_run_data _ data

/-- A script takes effect in two steps: each schema change by itself, all data changes with the
    commit. -/
theorem stopped_script (k : Nat) :
    stopped s (script schema data) k =
      if k < schema.length then applyAll (schema.take k) s
      else if k < (script schema data).length then applyAll schema s
      else applyAll data (applyAll schema s) := by
  have hlen := length_script schema data
  rw [stopped]
  by_cases hk : k < schema.length
  · rw [if_pos hk, completed, script,
      List.take_append_of_le_length (by simpa using Nat.le_of_lt hk), ← List.map_take, run_schema]
    rfl
  rw [if_neg hk]
  by_cases hall : k < (script schema data).length
  · have hpre : (script schema data).take k = schema.map .schema ++
        (.query :: data.map .data).take (k - schema.length) := by
      rw [script, List.take_append, List.take_of_length_le (by simpa using hk), List.length_map,
        List.take_append_of_le_length (by simp only [List.length_cons, List.length_map]; omega)]
    rw [if_pos hall, hpre, completed, run_append, run_schema]
    rcases k - schema.length with _ | n
    · rfl
    · rw [List.take_succ_cons, ← List.map_take]
      exact durable_run_data _ _
  · rw [if_neg hall, List.take_of_length_le (Nat.not_lt.1 hall), completed_script]

end Kit.Transaction
