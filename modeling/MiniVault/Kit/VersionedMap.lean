/-
  Versioned maps: a finite map from keys to non-empty histories of values. A key that is absent
  has the empty history.
-/
import Mathlib.Data.Set.Finite.Lattice

namespace Kit

/-- A finite map from keys to histories. -/
@[ext] structure VersionedMap (K V : Type) where
  history : K → List V
  finite : {k | history k ≠ []}.Finite

namespace VersionedMap

variable {K V : Type}

/-- The keys of the map. -/
def keys (m : VersionedMap K V) : Set K := {k | m.history k ≠ []}

theorem mem_keys {m : VersionedMap K V} {k : K} : k ∈ m.keys ↔ m.history k ≠ [] := Iff.rfl

def empty : VersionedMap K V := ⟨fun _ => [], by simp⟩

@[simp] theorem history_empty (k : K) : (empty : VersionedMap K V).history k = [] := rfl

/-- The value at a version, counted from one, or the last. -/
def read (m : VersionedMap K V) (k : K) : Option Int → Option V
  | none => (m.history k).getLast?
  | some n => if 1 ≤ n then (m.history k)[n.toNat - 1]? else none

@[simp] theorem read_of_absent {m : VersionedMap K V} {k : K} (h : m.history k = [])
    (n : Option Int) : m.read k n = none := by
  rcases n with _ | n
  · simp [read, h]
  · simp [read, h]

variable [DecidableEq K]

/-- Append a value to the history of a key. -/
def write (m : VersionedMap K V) (k : K) (v : V) : VersionedMap K V where
  history := Function.update m.history k (m.history k ++ [v])
  finite := by
    refine (m.finite.insert k).subset fun j hj => or_iff_not_imp_left.2 fun hjk hempty => hj ?_
    rw [Function.update_of_ne hjk, hempty]

/-- Drop the history of a key. -/
def delete (m : VersionedMap K V) (k : K) : VersionedMap K V where
  history := Function.update m.history k []
  finite := by
    refine m.finite.subset fun j hj hempty => hj ?_
    by_cases hjk : j = k
    · rw [hjk, Function.update_self]
    · rw [Function.update_of_ne hjk, hempty]

variable (m : VersionedMap K V) {j k : K} (v : V)

@[simp] theorem history_write : (m.write k v).history k = m.history k ++ [v] :=
  Function.update_self ..

@[simp] theorem history_write_of_ne (h : j ≠ k) : (m.write k v).history j = m.history j :=
  Function.update_of_ne h ..

@[simp] theorem history_delete : (m.delete k).history k = [] := Function.update_self ..

@[simp] theorem history_delete_of_ne (h : j ≠ k) : (m.delete k).history j = m.history j :=
  Function.update_of_ne h ..

end VersionedMap

end Kit
