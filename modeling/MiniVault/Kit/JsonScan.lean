/-
  What the parser returns, whatever it reads: values that can be written again.

  * `intValue_lt`: an integer literal has no more digits than `str` prints;
  * `writable_of_loads`: so has every integer of a value that `json.loads` returns.
-/
import MiniVault.Kit.JsonRoundTrip
import MiniVault.Kit.JsonValue

namespace Kit.Json

variable {F : Type} {ff : FloatFormat F}

theorem isDigit_of_mem_digits (s : Str) : ∀ c ∈ (digits s).1, c.isDigit = true := by
  fun_induction digits s with
  | case1 c s hc ih => exact List.forall_mem_cons.2 ⟨hc, ih⟩
  | case2 => rintro _ ⟨⟩
  | case3 => rintro _ ⟨⟩

theorem isDigit_of_intPart {s rest : Str} {ds : List Char} (h : intPart s = some (ds, rest)) :
    ∀ c ∈ ds, c.isDigit = true := by
  unfold intPart at h
  split at h
  · cases h
    exact List.forall_mem_singleton.2 rfl
  · unfold digits1 at h
    split_ifs at h
    rw [← (Prod.mk.inj (Option.some.inj h)).1]
    exact isDigit_of_mem_digits _

theorem ofDigitChars_lt {ds : List Char} (h : ∀ c ∈ ds, c.isDigit = true) (init : Nat) :
    Nat.ofDigitChars 10 ds init < 10 ^ ds.length * (init + 1) := by
  induction ds generalizing init with
  | nil => simp
  | cons c ds ih =>
    obtain ⟨hc, hds⟩ := List.forall_mem_cons.1 h
    have hdigit : c.toNat - '0'.toNat ≤ 9 := by
      have h57 := (isDigit_iff.1 hc).2
      have h48 : '0'.toNat = 48 := rfl
      omega
    rw [Nat.ofDigitChars_cons]
    calc Nat.ofDigitChars 10 ds (10 * init + (c.toNat - '0'.toNat))
        < 10 ^ ds.length * (10 * init + (c.toNat - '0'.toNat) + 1) := ih hds _
      _ ≤ 10 ^ ds.length * (10 * (init + 1)) := Nat.mul_le_mul_left _ (by omega)
      _ = 10 ^ (c :: ds).length * (init + 1) := by
        rw [List.length_cons, Nat.pow_succ, Nat.mul_assoc]

/-- `int` takes no literal that `str` could not write. -/
theorem intValue_lt {sgn ds : List Char} {n : Int} (hds : ∀ c ∈ ds, c.isDigit = true)
    (h : intValue sgn ds = some n) : n.natAbs < digitBound := by
  have hbound : ds.length ≤ maxDigits → Nat.ofDigitChars 10 ds 0 < digitBound := fun hlen => by
    have hlt := ofDigitChars_lt hds 0
    have hpow : 10 ^ ds.length ≤ 10 ^ maxDigits := Nat.pow_le_pow_right (by decide) hlen
    rw [digitBound]
    omega
  unfold intValue at h
  split_ifs at h with hlen hs
  · have hn := Option.some.inj h
    have hlt := hbound (Nat.not_lt.1 hlen)
    omega
  · have hn := Option.some.inj h
    have hlt := hbound (Nat.not_lt.1 hlen)
    omega

theorem writable_of_number {s rest : Str} {v : Value F} (h : number ff s = some (v, rest)) :
    v.writable = true := by
  unfold number at h
  obtain ⟨⟨ds, t⟩, hint, h⟩ := Option.bind_eq_some_iff.1 h
  dsimp only at h
  split_ifs at h
  · obtain ⟨n, hn, h⟩ := Option.bind_eq_some_iff.1 h
    cases h
    exact writable_int.2 (intValue_lt (isDigit_of_intPart hint) hn)
  · cases h
    rfl

theorem writable_of_constant {s rest : Str} {v : Value F} (h : constant s = some (v, rest)) :
    v.writable = true := by
  obtain ⟨p, hp, h⟩ := List.exists_of_findSome?_eq_some h
  obtain ⟨t, -, heq⟩ := Option.map_eq_some_iff.1 h
  rw [← (Prod.mk.inj heq).1]
  simp only [words, List.mem_cons, List.not_mem_nil, or_false] at hp
  rcases hp with rfl | rfl | rfl | rfl | rfl | rfl <;> rfl

/-- What the scanner returns can be written: it holds no integer with too many digits. -/
theorem writable_of_scan (n : Nat) :
    (∀ s v rest, scanOnce ff n s = some (v, rest) → v.writable = true) ∧
      (∀ s xs rest, scanElems ff n s = some (xs, rest) → ∀ x ∈ xs, x.writable = true) ∧
      ∀ s ms rest, scanMembers ff n s = some (ms, rest) → ∀ p ∈ ms, p.2.writable = true := by
  induction n with
  | zero => exact ⟨by rintro _ _ _ ⟨⟩, by rintro _ _ _ ⟨⟩, by rintro _ _ _ ⟨⟩⟩
  | succ n ih =>
    obtain ⟨honce, helems, hmembers⟩ := ih
    refine ⟨fun s v rest h => ?_, fun s xs rest h => ?_, fun s ms rest h => ?_⟩
    · unfold scanOnce at h
      split at h
      · obtain ⟨p, -, heq⟩ := Option.map_eq_some_iff.1 h
        cases heq
        rfl
      · split at h
        · cases h
          rfl
        · obtain ⟨p, hp, heq⟩ := Option.map_eq_some_iff.1 h
          cases heq
          exact writable_obj.2 fun q hq => hmembers _ _ _ hp q (mem_dict hq)
      · split at h
        · cases h
          rfl
        · obtain ⟨p, hp, heq⟩ := Option.map_eq_some_iff.1 h
          cases heq
          exact writable_arr.2 (helems _ _ _ hp)
      · rcases Option.or_eq_some_iff.1 h with h | ⟨-, h⟩
        · exact writable_of_constant h
        · exact writable_of_number h
    · unfold scanElems at h
      obtain ⟨⟨v, t⟩, hv, h⟩ := Option.bind_eq_some_iff.1 h
      dsimp only at h
      split at h
      · obtain ⟨p, hp, heq⟩ := Option.map_eq_some_iff.1 h
        cases heq
        exact List.forall_mem_cons.2 ⟨honce _ _ _ hv, helems _ _ _ hp⟩
      · cases h
        exact List.forall_mem_singleton.2 (honce _ _ _ hv)
      · cases h
    · unfold scanMembers at h
      obtain ⟨s₁, -, h⟩ := Option.bind_eq_some_iff.1 h
      obtain ⟨⟨k, s₂⟩, -, h⟩ := Option.bind_eq_some_iff.1 h
      obtain ⟨s₃, -, h⟩ := Option.bind_eq_some_iff.1 h
      obtain ⟨⟨v, s₄⟩, hv, h⟩ := Option.bind_eq_some_iff.1 h
      dsimp only at h
      split at h
      · obtain ⟨p, hp, heq⟩ := Option.map_eq_some_iff.1 h
        cases heq
        exact List.forall_mem_cons.2 ⟨honce _ _ _ hv, hmembers _ _ _ hp⟩
      · cases h
        exact List.forall_mem_singleton.2 (honce _ _ _ hv)
      · cases h

/-- **What `json.loads` returns, `json.dumps` writes.** -/
theorem writable_of_loads {b : List UInt8} {v : Value F} (h : loads ff b = some v) :
    v.writable = true := by
  obtain ⟨s, -, h⟩ := Option.bind_eq_some_iff.1 h
  obtain ⟨⟨u, rest⟩, hu, h⟩ := Option.bind_eq_some_iff.1 h
  dsimp only at h
  split_ifs at h
  cases h
  exact (writable_of_scan _).1 _ _ _ hu

end Kit.Json
