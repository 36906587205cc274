/-
  The associated data of the service. Everything but the data key and the envelopes is sealed
  under the one data key, so that only the associated data tells the records apart: the four
  kinds start differently, and that of a wrapped key spells out owner, name and version.
-/
import MiniVault.Kit.Separator
import MiniVault.Transit.Envelope

namespace MiniVault

open Kit

variable {F : Type} {L : Lib F}

/-! ## The four kinds -/

theorem keyAad_head (email name : Text) (n : Nat) :
    (keyAad (concrete L) email name n).head? = some 'k' := by
  unfold keyAad
  split <;> rfl

theorem transitAad_head (email name : Text) (n : Nat) :
    (transitAad (concrete L) email name n).head? = some 't' := rfl

theorem path_head {path email : Text} (h : validatePath path email = .ok ()) :
    path.head? = some 's' := by
  unfold validatePath at h
  split_ifs at h with h₁ h₂ h₃
  obtain ⟨rest, rfl⟩ := h₂
  rfl

/-- Associated data of different kinds is different. -/
theorem encode_ne_of_head {s t : Text} {a b : Char} (hs : s.head? = some a)
    (ht : t.head? = some b) (hab : a ≠ b) : (concrete L).encode s ≠ (concrete L).encode t := by
  intro h
  have heq : s = t := Utf8.encode_injective h
  rw [heq, ht] at hs
  exact hab (Option.some.inj hs).symm

/-! ## Wrapped keys -/

theorem keyAad_one (email name : Text) :
    keyAad (concrete L) email name 1 = "key:".toList ++ (email ++ ':' :: name) := by
  simp [keyAad, concrete]

theorem keyAad_version {n : Nat} (hn : n ≠ 1) (email name : Text) :
    keyAad (concrete L) email name n =
      "key:".toList ++ (email ++ ':' :: (name ++ ':' :: 'v' :: str n)) := by
  simp [keyAad, concrete, hn]

/-- Owner, name and version, in a text without other colons. -/
theorem versioned_inj {email email' name name' : Text} {n n' : Nat} (he : ':' ∉ email)
    (he' : ':' ∉ email') (hn : ':' ∉ name) (hn' : ':' ∉ name')
    (h : email ++ ':' :: (name ++ ':' :: 'v' :: str n) =
      email' ++ ':' :: (name' ++ ':' :: 'v' :: str n')) :
    email = email' ∧ name = name' ∧ n = n' := by
  obtain ⟨hemail, hrest⟩ := Separator.append_cons_inj he he' h
  obtain ⟨hname, hversion⟩ := Separator.append_cons_inj hn hn' hrest
  have hstr : str (n : Int) = str n' := (List.cons.inj hversion).2
  exact ⟨hemail, hname, Int.ofNat.inj (Json.intRepr_injective hstr)⟩

/-- The associated data of a wrapped key determines owner, name and version. -/
theorem keyAad_inj {email email' name name' : Text} {n n' : Nat} (he : ':' ∉ email)
    (he' : ':' ∉ email') (hn : ':' ∉ name) (hn' : ':' ∉ name')
    (h : keyAad (concrete L) email name n = keyAad (concrete L) email' name' n') :
    email = email' ∧ name = name' ∧ n = n' := by
  by_cases h1 : n = 1
  · by_cases h1' : n' = 1
    · subst h1 h1'
      rw [keyAad_one, keyAad_one] at h
      obtain ⟨hemail, hname⟩ := Separator.append_cons_inj he he' (List.append_cancel_left h)
      exact ⟨hemail, hname, rfl⟩
    · subst h1
      rw [keyAad_one, keyAad_version h1'] at h
      obtain ⟨-, hname⟩ := Separator.append_cons_inj he he' (List.append_cancel_left h)
      exact absurd (by rw [hname]; simp) hn
  · by_cases h1' : n' = 1
    · subst h1'
      rw [keyAad_one, keyAad_version h1] at h
      obtain ⟨-, hname⟩ := Separator.append_cons_inj he he' (List.append_cancel_left h)
      exact absurd (by rw [← hname]; simp) hn'
    · rw [keyAad_version h1, keyAad_version h1'] at h
      exact versioned_inj he he' hn hn' (List.append_cancel_left h)

/-! ## Envelopes -/

theorem transitAad_eq (email name : Text) (n : Nat) :
    transitAad (concrete L) email name n =
      "transit:".toList ++ (email ++ ':' :: (name ++ ':' :: 'v' :: str n)) := by
  simp [transitAad, concrete]

/-- The associated data of an envelope determines owner, name and version. -/
theorem transitAad_inj {email email' name name' : Text} {n n' : Nat} (he : ':' ∉ email)
    (he' : ':' ∉ email') (hn : ':' ∉ name) (hn' : ':' ∉ name')
    (h : transitAad (concrete L) email name n = transitAad (concrete L) email' name' n') :
    email = email' ∧ name = name' ∧ n = n' := by
  rw [transitAad_eq, transitAad_eq] at h
  exact versioned_inj he he' hn hn' (List.append_cancel_left h)

theorem colon_notMem_str (n : Int) : ':' ∉ str n := Json.notMem_intRepr rfl (by decide) n

/-- Read from its end, it does so for every email. -/
theorem transitAad_inj_right {email email' name name' : Text} {n n' : Nat} (hn : ':' ∉ name)
    (hn' : ':' ∉ name')
    (h : transitAad (concrete L) email name n = transitAad (concrete L) email' name' n') :
    email = email' ∧ name = name' ∧ n = n' := by
  have hversion : ∀ n : Nat, ':' ∉ 'v' :: str (n : Int) := by
    intro n hmem
    rcases List.mem_cons.1 hmem with hmem | hmem
    · exact absurd hmem (by decide)
    · exact colon_notMem_str _ hmem
  rw [transitAad_eq, transitAad_eq] at h
  have hparts := List.append_cancel_left h
  rw [← List.cons_append, ← List.append_assoc, ← List.cons_append, ← List.append_assoc] at hparts
  obtain ⟨hfront, hstr⟩ := Separator.append_cons_inj_right (hversion n) (hversion n') hparts
  obtain ⟨hemail, hname⟩ := Separator.append_cons_inj_right hn hn' hfront
  have hstr' : str (n : Int) = str n' := (List.cons.inj hstr).2
  exact ⟨hemail, hname, Int.ofNat.inj (Json.intRepr_injective hstr')⟩

end MiniVault
