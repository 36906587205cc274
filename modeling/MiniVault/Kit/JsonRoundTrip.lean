/-
  Reading a rendered JSON value gives the value back: `scanOnce_render` for the scanner, and
  `loads_dumps` for `json.loads(json.dumps(v).encode())`.
-/
import MiniVault.Kit.Json

namespace Kit.Json

variable {F : Type} {ff : FloatFormat F}

/-! ## Numbers -/

/-- What may follow a value: nothing that would go on with a number. -/
def Stop (rest : Str) : Prop :=
  ∀ c s, rest = .char c :: s → c.isDigit = false ∧ c ≠ '.' ∧ c ≠ 'e' ∧ c ≠ 'E'

theorem stop_nil : Stop [] := by
  intro c s h
  cases h

theorem stop_cons {c : Char} {s : Str}
    (h : c.isDigit = false ∧ c ≠ '.' ∧ c ≠ 'e' ∧ c ≠ 'E') : Stop (.char c :: s) := by
  intro d t hd
  cases hd
  exact h

/-- The first character of `s`, if there is one, is no digit. -/
def NoDigit (s : Str) : Prop := ∀ c t, s = .char c :: t → c.isDigit = false

theorem Stop.noDigit {s : Str} (h : Stop s) : NoDigit s := fun c t hs => (h c t hs).1

theorem noDigit_cons {c : Char} {s : Str} (h : c.isDigit = false) : NoDigit (.char c :: s) := by
  intro d t hd
  cases hd
  exact h

theorem digits_append {ds : List Char} {s : Str} (hds : ∀ c ∈ ds, c.isDigit = true)
    (hs : NoDigit s) : digits (chars ds ++ s) = (ds, s) := by
  induction ds with
  | nil =>
    match s, hs with
    | [], _ => rfl
    | .char c :: t, hs => simp [chars, digits, hs c t rfl]
    | .surrogate n :: t, _ => rfl
  | cons d ds ih =>
    have hd := hds d (by simp)
    have ih := ih fun c hc => hds c (by simp [hc])
    simp only [chars, List.map_cons, List.cons_append, digits, hd, if_true]
    simp only [chars] at ih
    rw [ih]

theorem digits1_append {ds : List Char} {s : Str} (hne : ds ≠ [])
    (hds : ∀ c ∈ ds, c.isDigit = true) (hs : NoDigit s) :
    digits1 (chars ds ++ s) = some (ds, s) := by
  rw [digits1, digits_append hds hs, if_neg hne]

/-- The integer part of a number: `0`, or digits without a leading zero. -/
def IntLiteral (ds : List Char) : Prop :=
  ds = ['0'] ∨ (ds ≠ [] ∧ ds.head? ≠ some '0' ∧ ∀ c ∈ ds, c.isDigit = true)

theorem IntLiteral.isDigit {ds : List Char} (h : IntLiteral ds) : ∀ c ∈ ds, c.isDigit = true := by
  rcases h with rfl | ⟨-, -, h⟩
  · intro c hc
    rw [List.mem_singleton.1 hc]
    rfl
  · exact h

theorem IntLiteral.ne_nil {ds : List Char} (h : IntLiteral ds) : ds ≠ [] := by
  rcases h with rfl | ⟨h, -, -⟩
  · decide
  · exact h

theorem intPart_append {ds : List Char} {s : Str} (h : IntLiteral ds) (hs : NoDigit s) :
    intPart (chars ds ++ s) = some (ds, s) := by
  rcases h with rfl | ⟨hne, hz, hds⟩
  · rfl
  · rcases ds with _ | ⟨d, ds⟩
    · exact absurd rfl hne
    · have hd : d ≠ '0' := fun h0 => hz (by rw [h0]; rfl)
      have h1 := digits1_append hne hds hs
      simp only [chars, List.map_cons, List.cons_append] at h1 ⊢
      rw [intPart, h1]
      simpa using hd

theorem sign_append {sgn ds : List Char} {s : Str} (hs : sgn = [] ∨ sgn = ['-'])
    (hd : IntLiteral ds) : sign (chars (sgn ++ ds) ++ s) = (sgn, chars ds ++ s) := by
  rcases hs with rfl | rfl
  · rcases h : ds with _ | ⟨d, ds'⟩
    · exact absurd h hd.ne_nil
    · have hdig : d.isDigit = true := hd.isDigit d (by rw [h]; simp)
      have hne : d ≠ '-' := by
        rintro rfl
        revert hdig
        decide
      simp only [List.nil_append, chars, List.map_cons, List.cons_append, sign]
      split
      · next heq => simp only [List.cons.injEq, CodePoint.char.injEq] at heq; exact absurd heq.1 hne
      · rfl
  · rfl

theorem fracPart_of_stop {s : Str} (h : Stop s) : fracPart s = ([], s) := by
  unfold fracPart
  split
  · exact absurd rfl (h _ _ rfl).2.1
  · rfl

theorem expPart_of_stop {s : Str} (h : Stop s) : expPart s = ([], s) := by
  unfold expPart
  split
  · rw [if_neg]
    exact not_or.2 (h _ _ rfl).2.2
  · rfl

theorem intLiteral_toDigits (n : Nat) : IntLiteral (Nat.toDigits 10 n) := by
  have hds : ∀ c ∈ Nat.toDigits 10 n, c.isDigit = true := fun c hc =>
    Nat.isDigit_of_mem_toDigits (by decide) (by decide) hc
  by_cases h0 : n = 0
  · exact .inl (by rw [h0]; rfl)
  · refine .inr ⟨Nat.toDigits_ne_nil, ?_, hds⟩
    exact toDigits_head n (by omega)
where
  toDigits_head (n : Nat) (h : 0 < n) : (Nat.toDigits 10 n).head? ≠ some '0' := by
    induction n using Nat.strong_induction_on with
    | _ n ih =>
      by_cases hn : n < 10
      · rw [Nat.toDigits_of_lt_base hn]
        have : ∀ m < 10, 0 < m → ([Nat.digitChar m] : List Char).head? ≠ some '0' := by decide
        exact this n hn h
      · rw [Nat.toDigits_of_base_le (by decide) (by omega),
          List.head?_append_of_ne_nil _ Nat.toDigits_ne_nil]
        exact ih (n / 10) (by omega) (by omega)

theorem length_toDigits {n : Nat} (h : n < digitBound) :
    ¬ maxDigits < (Nat.toDigits 10 n).length := by
  have hpos : 0 < maxDigits := by
    rw [maxDigits]
    decide
  rw [digitBound] at h
  exact Nat.not_lt_of_ge ((Nat.length_toDigits_le_iff (by decide) hpos).2 h)

theorem intRepr_eq (n : Int) :
    ∃ sgn, (sgn = [] ∨ sgn = ['-']) ∧ intRepr n = sgn ++ Nat.toDigits 10 n.natAbs ∧
      (n.natAbs < digitBound → intValue sgn (Nat.toDigits 10 n.natAbs) = some n) := by
  unfold intRepr
  by_cases hn : n < 0
  · refine ⟨['-'], .inr rfl, by rw [if_pos hn]; rfl, fun h => ?_⟩
    rw [intValue, if_neg (length_toDigits h), if_neg (by simp), Nat.ofDigitChars_ten_toDigits]
    congr 1
    omega
  · refine ⟨[], .inl rfl, by rw [if_neg hn]; rfl, fun h => ?_⟩
    rw [intValue, if_neg (length_toDigits h), if_pos rfl, Nat.ofDigitChars_ten_toDigits]
    congr 1
    omega

theorem mem_intRepr {n : Int} {c : Char} (h : c ∈ intRepr n) : c.isDigit = true ∨ c = '-' := by
  obtain ⟨sgn, hsgn, hrepr, -⟩ := intRepr_eq n
  rw [hrepr, List.mem_append] at h
  rcases h with h | h
  · rcases hsgn with rfl | rfl
    · cases h
    · exact .inr (List.mem_singleton.1 h)
  · exact .inl ((intLiteral_toDigits _).isDigit c h)

theorem notMem_intRepr {c : Char} (hdigit : c.isDigit = false) (hminus : c ≠ '-') (n : Int) :
    c ∉ intRepr n := by
  intro h
  rcases mem_intRepr h with h | h
  · rw [hdigit] at h
    cases h
  · exact hminus h

theorem toDigits_injective : Function.Injective (Nat.toDigits 10) := by
  intro m n h
  rw [← Nat.ofDigitChars_ten_toDigits (n := m), h, Nat.ofDigitChars_ten_toDigits]

theorem intRepr_injective : Function.Injective intRepr := by
  have hminus : ∀ (m : Nat) (s : List Char), Nat.toDigits 10 m ≠ '-' :: s := by
    intro m s h
    have := (intLiteral_toDigits m).isDigit '-' (by rw [h]; exact List.mem_cons_self)
    revert this
    decide
  intro m n h
  unfold intRepr at h
  split_ifs at h with hm hn hn
  · have := toDigits_injective (List.cons.inj h).2
    omega
  · exact absurd h.symm (hminus _ _)
  · exact absurd h (hminus _ _)
  · have := toDigits_injective h
    omega

/-- The scanner reads back an integer. -/
theorem number_intRepr {n : Int} {rest : Str} (hn : n.natAbs < digitBound)
    (hr : Stop rest) : number ff (chars (intRepr n) ++ rest) = some (.int n, rest) := by
  obtain ⟨sgn, hsgn, hrepr, hval⟩ := intRepr_eq n
  have hlit := intLiteral_toDigits n.natAbs
  simp only [number, hrepr, sign_append hsgn hlit, intPart_append hlit hr.noDigit,
    Option.bind_eq_bind, Option.bind_some, fracPart_of_stop hr, expPart_of_stop hr, and_self,
    if_true, hval hn, Option.pure_def]

/-- What `repr` writes for a finite float: a fraction, an exponent or both. -/
structure FloatLiteral (sgn int frac exp : List Char) : Prop where
  sign : sgn = [] ∨ sgn = ['-']
  intLiteral : IntLiteral int
  fraction : frac = [] ∨ ∃ ds, ds ≠ [] ∧ (∀ c ∈ ds, c.isDigit = true) ∧ frac = '.' :: ds
  exponent : exp = [] ∨ ∃ sg ds, (sg = ['+'] ∨ sg = ['-']) ∧ ds ≠ [] ∧
    (∀ c ∈ ds, c.isDigit = true) ∧ exp = 'e' :: (sg ++ ds)
  inexact : ¬ (frac = [] ∧ exp = [])

/-- `repr` writes float literals and `float` reads them back. -/
def FloatFormat.Lawful (ff : FloatFormat F) : Prop :=
  ∀ x, ff.parse (ff.repr x) = .fin x ∧
    ∃ sgn int frac exp, FloatLiteral sgn int frac exp ∧ ff.repr x = sgn ++ int ++ frac ++ exp

theorem chars_append (s t : List Char) : chars (s ++ t) = chars s ++ chars t := List.map_append

theorem expPart_append {sgn int frac exp : List Char} (h : FloatLiteral sgn int frac exp)
    {rest : Str} (hr : Stop rest) : expPart (chars exp ++ rest) = (exp, rest) := by
  rcases h.exponent with rfl | ⟨sg, ds, hsg, hne, hds, rfl⟩
  · exact expPart_of_stop hr
  · have hd := digits1_append hne hds hr.noDigit
    have he : expSign (chars (sg ++ ds) ++ rest) = (sg, chars ds ++ rest) := by
      rcases hsg with rfl | rfl <;> rfl
    simp only [chars, List.map_cons, List.cons_append] at hd he ⊢
    simp only [expPart, true_or, if_true, he, hd, Option.map_some, Option.getD_some]

theorem noDigit_exp {sgn int frac exp : List Char} (h : FloatLiteral sgn int frac exp)
    {rest : Str} (hr : Stop rest) : NoDigit (chars exp ++ rest) := by
  rcases h.exponent with rfl | ⟨sg, ds, -, -, -, rfl⟩
  · exact hr.noDigit
  · exact noDigit_cons (by decide)

theorem fracPart_append {sgn int frac exp : List Char} (h : FloatLiteral sgn int frac exp)
    {rest : Str} (hr : Stop rest) :
    fracPart (chars frac ++ (chars exp ++ rest)) = (frac, chars exp ++ rest) := by
  rcases h.fraction with rfl | ⟨ds, hne, hds, rfl⟩
  · rcases h.exponent with rfl | ⟨sg, ds, -, -, -, rfl⟩
    · exact fracPart_of_stop hr
    · rfl
  · have hd := digits1_append hne hds (noDigit_exp h hr)
    simp only [chars, List.map_cons, List.cons_append] at hd ⊢
    simp only [fracPart, hd, Option.map_some, Option.getD_some]

theorem noDigit_frac {sgn int frac exp : List Char} (h : FloatLiteral sgn int frac exp)
    {rest : Str} (hr : Stop rest) : NoDigit (chars frac ++ (chars exp ++ rest)) := by
  rcases h.fraction with rfl | ⟨ds, -, -, rfl⟩
  · exact noDigit_exp h hr
  · exact noDigit_cons (by decide)

/-- The scanner reads back a finite float. -/
theorem number_repr (hff : ff.Lawful) (x : F) {rest : Str} (hr : Stop rest) :
    number ff (chars (ff.repr x) ++ rest) = some (.float (.fin x), rest) := by
  obtain ⟨hparse, sgn, int, frac, exp, hlit, hrepr⟩ := hff x
  have hs : sign (chars (ff.repr x) ++ rest)
      = (sgn, chars int ++ (chars frac ++ (chars exp ++ rest))) := by
    have h := sign_append (s := chars frac ++ (chars exp ++ rest)) hlit.sign hlit.intLiteral
    rw [hrepr]
    simpa only [chars_append, List.append_assoc] using h
  simp only [number, hs, intPart_append hlit.intLiteral (noDigit_frac hlit hr),
    Option.bind_eq_bind, Option.bind_some, fracPart_append hlit hr, expPart_append hlit hr,
    if_neg hlit.inexact, ← hrepr, hparse, Option.pure_def]

/-! ## Constants -/

theorem dropWord_append (w : List Char) (s : Str) : dropWord w (chars w ++ s) = some s := by
  rw [dropWord, if_pos (List.prefix_append _ _)]
  simp [chars]

/-- A text that starts with one of the constants reads as it. -/
theorem constant_word {p : List Char × Value F} (h : p ∈ words) (rest : Str) :
    constant (chars p.1 ++ rest) = some (p.2, rest) := by
  simp only [words, List.mem_cons, List.not_mem_nil, or_false] at h
  rcases h with rfl | rfl | rfl | rfl | rfl | rfl <;> rfl

/-- A text that starts with a digit reads as no constant. -/
theorem constant_digit {c : Char} (h : c.isDigit = true) (s : Str) :
    constant (F := F) (.char c :: s) = none := by
  have hw : ∀ w ∈ (words (F := F)).map (·.1), ∃ d t, w = d :: t ∧ d.isDigit = false := by
    intro w hw
    simp only [words, List.map_cons, List.map_nil, List.mem_cons, List.not_mem_nil, or_false] at hw
    rcases hw with rfl | rfl | rfl | rfl | rfl | rfl <;> exact ⟨_, _, rfl, rfl⟩
  rw [constant, List.findSome?_eq_none_iff]
  intro p hp
  obtain ⟨d, t, hd, hdig⟩ := hw p.1 (List.mem_map_of_mem hp)
  have hne : d ≠ c := by
    rintro rfl
    rw [h] at hdig
    cases hdig
  rw [hd, dropWord_of_ne hne, Option.map_none]
where
  dropWord_of_ne {c d : Char} {w : List Char} {s : Str} (h : c ≠ d) :
      dropWord (c :: w) (.char d :: s) = none := by
    rw [dropWord, if_neg]
    intro hp
    simp only [chars, List.map_cons, List.cons_prefix_cons, CodePoint.char.injEq] at hp
    exact h hp.1

/-- Nor does a text that starts with a minus sign and a digit. -/
theorem constant_minus {c : Char} (h : c.isDigit = true) (s : Str) :
    constant (F := F) (.char '-' :: .char c :: s) = none := by
  have hI : dropWord "-Infinity".toList (.char '-' :: .char c :: s) = none := by
    rw [dropWord, if_neg]
    intro hp
    have h2 : CodePoint.char 'I' = .char c :=
      (List.cons_prefix_cons.1 (List.cons_prefix_cons.1 hp).2).1
    cases h2
    revert h
    decide
  rw [constant, List.findSome?_eq_none_iff]
  intro p hp
  simp only [words, List.mem_cons, List.not_mem_nil, or_false] at hp
  rcases hp with rfl | rfl | rfl | rfl | rfl | rfl
  iterate 5 rfl
  simp only [hI, Option.map_none]

/-! ## Strings -/

theorem hexValue_hexDigit : ∀ n < 16, hexValue (.char (hexDigit n)) = some n := by decide

theorem ofCode_code {c : CodePoint} (h : c.code < 32) : CodePoint.ofCode c.code = c := by
  cases c with
  | char c =>
    have hc : c.toNat < 32 := h
    rw [CodePoint.code, CodePoint.ofCode, if_neg (by omega), Char.ofNat_toNat]
  | surrogate n => simp only [CodePoint.code] at h; omega

theorem code_inj_small {c : CodePoint} {d : Char} (h : c.code = d.toNat) (hd : d.toNat < 32) :
    c = .char d := by
  rw [← ofCode_code (show c.code < 32 by omega), h, CodePoint.ofCode, if_neg (by omega),
    Char.ofNat_toNat]

/-- The scanner reads back an escaped code point. -/
theorem scanChar_escape (c : CodePoint) (rest : Str) :
    scanChar (escape c ++ rest) = some (c, rest) := by
  unfold escape
  split_ifs with h1 h2 h3 h4 h5 h6 h7 h8
  · rw [h1]; rfl
  · rw [h2]; rfl
  · rw [code_inj_small (d := '\n') h3 (by decide)]; rfl
  · rw [code_inj_small (d := '\r') h4 (by decide)]; rfl
  · rw [code_inj_small (d := '\t') h5 (by decide)]; rfl
  · rw [code_inj_small (d := Char.ofNat 12) h6 (by decide)]; rfl
  · rw [code_inj_small (d := Char.ofNat 8) h7 (by decide)]; rfl
  · have hp := hexValue_hexDigit (c.code / 16) (by omega)
    have hq := hexValue_hexDigit (c.code % 16) (by omega)
    have h0 : hexValue (.char '0') = some 0 := by decide
    have hn : 4096 * 0 + 256 * 0 + 16 * (c.code / 16) + c.code % 16 = c.code := by omega
    simp only [chars, List.map_cons, List.map_nil, List.cons_append, List.nil_append, scanChar,
      unicodeEscape, hex4, h0, hp, hq, Option.bind_eq_bind, Option.bind_some, Option.pure_def, hn]
    rw [if_neg (by omega), ofCode_code h8]
  · cases c with
    | char d =>
      have hd : d ≠ '\\' := fun h => h2 (by rw [h])
      simp only [List.cons_append, List.nil_append]
      unfold scanChar
      split
      · next heq => simp only [List.cons.injEq, CodePoint.char.injEq] at heq; exact absurd heq.1 hd
      · next heq => simp only [List.cons.injEq, CodePoint.char.injEq] at heq; exact absurd heq.1 hd
      · next heq => simp only [List.cons.injEq, CodePoint.char.injEq] at heq; exact absurd heq.1 hd
      · next heq => cases heq; rw [if_neg h8]
      · next heq => cases heq
    | surrogate n =>
      simp only [List.cons_append, List.nil_append, scanChar]
      rw [if_neg h8]

/-- An escaped code point is not empty and does not start with a quote. -/
theorem escape_head (c : CodePoint) : ∃ d t, escape c = d :: t ∧ d ≠ .char '"' := by
  unfold escape
  split_ifs with h1
  all_goals first
    | exact ⟨_, _, rfl, by decide⟩
    | exact ⟨_, _, rfl, h1⟩

/-- The scanner reads back a string literal. -/
theorem scanString_quote {s : Str} {n : Nat} (hn : s.length < n) (rest : Str) :
    scanString n (s.flatMap escape ++ .char '"' :: rest) = some (s, rest) := by
  induction s generalizing n with
  | nil =>
    obtain ⟨n, rfl⟩ : ∃ m, n = m + 1 := ⟨n - 1, by simp at hn; omega⟩
    rfl
  | cons c s ih =>
    obtain ⟨n, rfl⟩ : ∃ m, n = m + 1 := ⟨n - 1, by simp at hn; omega⟩
    obtain ⟨d, t, he, hd⟩ := escape_head c
    have hc := scanChar_escape c (s.flatMap escape ++ .char '"' :: rest)
    have ih := ih (n := n) (by simpa using hn)
    rw [List.flatMap_cons, List.append_assoc]
    rw [he, List.cons_append] at hc ⊢
    rw [scanString.eq_3 _ _ (fun s h => hd (List.cons.inj h).1), hc]
    simp only [Option.bind_eq_bind, Option.bind_some, ih, Option.pure_def]

/-! ## Values -/

/-- What starts a numeral: a digit, or a minus sign and a digit. -/
theorem numeral_head {sgn ds : List Char} (hs : sgn = [] ∨ sgn = ['-']) (hd : IntLiteral ds)
    (s : Str) : ∃ c t, chars (sgn ++ ds) ++ s = .char c :: t ∧
      (c.isDigit = true ∨ c = '-' ∧ ∃ d u, t = .char d :: u ∧ d.isDigit = true) := by
  obtain ⟨d, u, rfl⟩ : ∃ d u, ds = d :: u := List.exists_cons_of_ne_nil hd.ne_nil
  have hdig : d.isDigit = true := hd.isDigit d (by simp)
  rcases hs with rfl | rfl
  · exact ⟨d, chars u ++ s, rfl, .inl hdig⟩
  · exact ⟨'-', .char d :: (chars u ++ s), rfl, .inr ⟨rfl, d, _, rfl, hdig⟩⟩

/-- The scanner takes a numeral for a number. -/
theorem scanOnce_numeral {c : Char} {t : Str} (n : Nat)
    (h : c.isDigit = true ∨ c = '-' ∧ ∃ d u, t = .char d :: u ∧ d.isDigit = true) :
    scanOnce ff (n + 1) (.char c :: t) = number ff (.char c :: t) := by
  have hconst : constant (F := F) (.char c :: t) = none := by
    rcases h with h | ⟨rfl, d, u, rfl, h⟩
    · exact constant_digit h t
    · exact constant_minus h u
  have hc : c ≠ '"' ∧ c ≠ '\x7b' ∧ c ≠ '[' := by
    rcases h with h | ⟨rfl, -⟩
    · refine ⟨?_, ?_, ?_⟩ <;> (rintro rfl; revert h; decide)
    · decide
  rw [scanOnce.eq_5 _ _ _ (fun s h => hc.1 (CodePoint.char.inj (List.cons.inj h).1))
    (fun s h => hc.2.1 (CodePoint.char.inj (List.cons.inj h).1))
    (fun s h => hc.2.2 (CodePoint.char.inj (List.cons.inj h).1)), hconst, Option.none_or]

/-- The scanner takes one of the constants for what it is. -/
theorem scanOnce_word {p : List Char × Value F} (h : p ∈ words) (n : Nat) (rest : Str) :
    scanOnce ff (n + 1) (chars p.1 ++ rest) = some (p.2, rest) := by
  have hconst := constant_word h rest
  simp only [words, List.mem_cons, List.not_mem_nil, or_false] at h
  rcases h with rfl | rfl | rfl | rfl | rfl | rfl
  all_goals
    rw [scanOnce.eq_5 _ _ _ (fun s h => by cases h) (fun s h => by cases h)
      (fun s h => by cases h), hconst, Option.some_or]

theorem render_fin (x : F) : render ff (.float (.fin x)) = chars (ff.repr x) := rfl

theorem isDigit_iff {c : Char} : c.isDigit = true ↔ 48 ≤ c.toNat ∧ c.toNat ≤ 57 := by
  simp only [Char.isDigit, Bool.and_eq_true, decide_eq_true_eq, UInt32.le_iff_toNat_le, ge_iff_le]
  exact Iff.rfl

/-- A rendered value starts with a visible ASCII character other than a closing bracket. -/
theorem render_head (hff : ff.Lawful) (v : Value F) (s : Str) :
    ∃ c t, render ff v ++ s = .char c :: t ∧ 32 < c.toNat ∧ c.toNat < 128 ∧ c ≠ ']' := by
  have hnum : ∀ c t, (c.isDigit = true ∨ c = '-' ∧ ∃ d u, t = CodePoint.char d :: u ∧
      d.isDigit = true) → 32 < c.toNat ∧ c.toNat < 128 ∧ c ≠ ']' := by
    rintro c t (h | ⟨rfl, -⟩)
    · rw [isDigit_iff] at h
      refine ⟨by omega, by omega, ?_⟩
      rintro rfl
      revert h
      decide
    · decide
  cases v with
  | null => exact ⟨'n', _, rfl, by decide⟩
  | bool b =>
    cases b
    · exact ⟨'f', _, rfl, by decide⟩
    · exact ⟨'t', _, rfl, by decide⟩
  | int n =>
    obtain ⟨sgn, hsgn, hrepr, -⟩ := intRepr_eq n
    obtain ⟨c, t, heq, hc⟩ := numeral_head hsgn (intLiteral_toDigits n.natAbs) s
    exact ⟨c, t, by rw [render, hrepr, heq], hnum c t hc⟩
  | float x =>
    rcases x with _ | b | x
    · exact ⟨'N', _, rfl, by decide⟩
    · cases b
      · exact ⟨'I', _, rfl, by decide⟩
      · exact ⟨'-', _, rfl, by decide⟩
    · obtain ⟨-, sgn, int, frac, exp, hlit, hrepr⟩ := hff x
      obtain ⟨c, t, heq, hc⟩ :=
        numeral_head hlit.sign hlit.intLiteral (chars frac ++ (chars exp ++ s))
      refine ⟨c, t, ?_, hnum c t hc⟩
      rw [render_fin, hrepr, ← heq]
      simp only [chars_append, List.append_assoc]
  | str t => exact ⟨'"', _, rfl, by decide⟩
  | arr xs => cases xs <;> exact ⟨'[', _, rfl, by decide⟩
  | obj ms => rcases ms with _ | ⟨⟨k, v⟩, ms⟩ <;> exact ⟨'\x7b', _, rfl, by decide⟩

theorem isSpace_of_lt {c : Char} (h : 32 < c.toNat) : isSpace (.char c) = false := by
  have : c ≠ ' ' ∧ c ≠ '\t' ∧ c ≠ '\n' ∧ c ≠ '\r' := by
    refine ⟨?_, ?_, ?_, ?_⟩ <;> (rintro rfl; revert h; decide)
  simp [isSpace, this]

theorem length_render_pos (hff : ff.Lawful) (v : Value F) : 0 < (render ff v).length := by
  obtain ⟨c, t, heq, -⟩ := render_head hff v []
  rw [List.append_nil] at heq
  rw [heq]
  exact Nat.succ_pos _

theorem skipSpace_render (hff : ff.Lawful) (v : Value F) (s : Str) :
    skipSpace (render ff v ++ s) = render ff v ++ s := by
  obtain ⟨c, t, heq, hc, -⟩ := render_head hff v s
  rw [heq, skipSpace, List.dropWhile_cons_of_neg (by simp [isSpace_of_lt hc])]

theorem skipSpace_cons {c : Char} (h : isSpace (.char c) = false) (s : Str) :
    skipSpace (.char c :: s) = .char c :: s := by
  rw [skipSpace, List.dropWhile_cons_of_neg (by simp [h])]

theorem stop_renderElems (xs : List (Value F)) (s : Str) : Stop (renderElems ff xs ++ s) := by
  cases xs <;> exact stop_cons (by decide)

theorem stop_renderMembers (ms : List (Str × Value F)) (s : Str) :
    Stop (renderMembers ff ms ++ s) := by
  rcases ms with _ | ⟨⟨k, v⟩, ms⟩ <;> exact stop_cons (by decide)

theorem length_flatMap_escape (s : Str) : s.length ≤ (s.flatMap escape).length := by
  induction s with
  | nil => simp
  | cons c s ih =>
    obtain ⟨d, t, he, -⟩ := escape_head c
    rw [List.flatMap_cons, List.length_append, he]
    simp only [List.length_cons]
    omega

theorem writable_int {n : Int} : (Value.int n : Value F).writable = true ↔
    n.natAbs < digitBound := by
  rw [Value.writable, decide_eq_true_eq]

theorem scanOnce_fin (hff : ff.Lawful) (x : F) (n : Nat) {rest : Str} (hr : Stop rest) :
    scanOnce ff (n + 1) (chars (ff.repr x) ++ rest) = some (.float (.fin x), rest) := by
  have hnum := number_repr hff x hr
  obtain ⟨-, sgn, int, frac, exp, hlit, hrepr⟩ := hff x
  obtain ⟨c, t, heq, hc⟩ :=
    numeral_head hlit.sign hlit.intLiteral (chars frac ++ (chars exp ++ rest))
  have h : chars (ff.repr x) ++ rest = .char c :: t := by
    rw [hrepr, ← heq]
    simp only [chars_append, List.append_assoc]
  rw [h] at hnum ⊢
  rw [scanOnce_numeral n hc, hnum]

theorem scanOnce_int {m : Int} (hm : m.natAbs < digitBound) (n : Nat) {rest : Str}
    (hr : Stop rest) :
    scanOnce ff (n + 1) (chars (intRepr m) ++ rest) = some (.int m, rest) := by
  have hnum : number ff (chars (intRepr m) ++ rest) = _ := number_intRepr hm hr
  obtain ⟨sgn, hsgn, hrepr, -⟩ := intRepr_eq m
  obtain ⟨c, t, heq, hc⟩ := numeral_head hsgn (intLiteral_toDigits m.natAbs) rest
  rw [hrepr, heq] at hnum ⊢
  rw [scanOnce_numeral n hc, hnum]

theorem scanOnce_arr {s : Str} (n : Nat) (hs : skipSpace s = s)
    (hne : ∀ t, s ≠ .char ']' :: t) :
    scanOnce ff (n + 1) (.char '[' :: s) =
      (scanElems ff n s).map fun p => (.arr p.1, p.2) := by
  rw [scanOnce.eq_4, hs]
  split
  · next t => exact absurd rfl (hne t)
  · rfl

theorem scanOnce_obj {s : Str} (n : Nat) (hs : skipSpace s = s)
    (hne : ∀ t, s ≠ .char '\x7d' :: t) :
    scanOnce ff (n + 1) (.char '\x7b' :: s) =
      (scanMembers ff n s).map fun p => (.obj (dict p.1), p.2) := by
  rw [scanOnce.eq_3, hs]
  split
  · next t => exact absurd rfl (hne t)
  · rfl

theorem quote_append (k s : Str) :
    quote k ++ s = .char '"' :: (k.flatMap escape ++ .char '"' :: s) := by
  simp [quote]

theorem length_quote (k : Str) : k.length + 2 ≤ (quote k).length := by
  have := length_flatMap_escape k
  simp only [quote, List.length_cons, List.length_append, List.length_nil]
  omega

/-- The scanner takes one member apart: its key, its value and what follows. -/
theorem scanMembers_step (k : Str) {v : Value F} {n : Nat} {s t : Str}
    (hk : k.length < n) (hs : skipSpace s = s) (hv : scanOnce ff n s = some (v, t)) :
    scanMembers ff (n + 1) (quote k ++ .char ':' :: s) =
      match skipSpace t with
      | .char ',' :: s => (scanMembers ff n (skipSpace s)).map fun p => ((k, v) :: p.1, p.2)
      | .char '\x7d' :: s => some ([(k, v)], s)
      | _ => none := by
  have hq : dropWord ['"'] (quote k ++ .char ':' :: s)
      = some (k.flatMap escape ++ .char '"' :: .char ':' :: s) := by
    rw [quote_append]
    exact dropWord_append ['"'] _
  have hcolon : dropWord [':'] (skipSpace (.char ':' :: s)) = some s := by
    rw [skipSpace_cons (by decide)]
    exact dropWord_append [':'] s
  rw [scanMembers.eq_2, hq, Option.bind_eq_bind, Option.bind_some, scanString_quote hk]
  simp only [Option.bind_eq_bind, Option.bind_some]
  rw [hcolon, Option.bind_some, hs, hv]
  rfl

/-- With fuel `n` the scanner reads back every value rendered in at most `n` characters. -/
def ReadsBack (ff : FloatFormat F) (n : Nat) : Prop :=
  ∀ (v : Value F) (rest : Str), v.writable = true → (render ff v).length ≤ n → Stop rest →
    scanOnce ff n (render ff v ++ rest) = some (v.dicts, rest)

theorem scanElems_render (hff : ff.Lawful) (xs : List (Value F)) :
    ∀ (x : Value F) (n : Nat) (rest : Str), (∀ m < n, ReadsBack ff m) →
      writableElems (x :: xs) = true →
      (render ff x).length + (renderElems ff xs).length ≤ n →
      scanElems ff n (render ff x ++ (renderElems ff xs ++ rest)) =
        some (dictsElems (x :: xs), rest) := by
  induction xs with
  | nil =>
    intro x n rest hread hw hn
    rw [writableElems, Bool.and_eq_true] at hw
    simp only [renderElems, chars, List.map_cons, List.map_nil, List.length_cons,
      List.length_nil] at hn
    obtain ⟨n, rfl⟩ : ∃ m, n = m + 1 := ⟨n - 1, by omega⟩
    rw [scanElems.eq_2, hread n (by omega) x _ hw.1 (by omega) (stop_renderElems [] rest)]
    rfl
  | cons y ys ih =>
    intro x n rest hread hw hn
    rw [writableElems, Bool.and_eq_true] at hw
    rw [renderElems, List.length_cons, List.length_append] at hn
    obtain ⟨n, rfl⟩ : ∃ m, n = m + 1 := ⟨n - 1, by omega⟩
    rw [scanElems.eq_2, hread n (by omega) x _ hw.1 (by omega) (stop_renderElems (y :: ys) rest)]
    simp only [Option.bind_eq_bind, Option.bind_some, renderElems, List.cons_append,
      List.append_assoc]
    rw [skipSpace_cons (by decide)]
    simp only [skipSpace_render hff y]
    rw [ih y n rest (fun m hm => hread m (by omega)) hw.2 (by omega)]
    rfl

theorem scanMembers_render (hff : ff.Lawful) (ms : List (Str × Value F)) :
    ∀ (k : Str) (v : Value F) (n : Nat) (rest : Str), (∀ m < n, ReadsBack ff m) →
      writableMembers ((k, v) :: ms) = true →
      (quote k).length + ((render ff v).length + (renderMembers ff ms).length) ≤ n →
      scanMembers ff n (quote k ++ .char ':' :: (render ff v ++ (renderMembers ff ms ++ rest))) =
        some (dictsMembers ((k, v) :: ms), rest) := by
  induction ms with
  | nil =>
    intro k v n rest hread hw hn
    rw [writableMembers, Bool.and_eq_true] at hw
    have hlen := length_quote k
    obtain ⟨n, rfl⟩ : ∃ m, n = m + 1 := ⟨n - 1, by omega⟩
    rw [scanMembers_step k (by omega) (skipSpace_render hff v _)
      (hread n (by omega) v _ hw.1 (by omega) (stop_renderMembers [] rest))]
    rfl
  | cons m ms ih =>
    intro k v n rest hread hw hn
    obtain ⟨k', v'⟩ := m
    rw [writableMembers, Bool.and_eq_true] at hw
    rw [renderMembers, List.length_cons, List.length_append, List.length_cons,
      List.length_append] at hn
    have hlen := length_quote k
    obtain ⟨n, rfl⟩ : ∃ m, n = m + 1 := ⟨n - 1, by omega⟩
    have hq : skipSpace (quote k' ++ .char ':' :: (render ff v' ++ (renderMembers ff ms ++ rest)))
        = quote k' ++ .char ':' :: (render ff v' ++ (renderMembers ff ms ++ rest)) := by
      rw [quote_append]
      exact skipSpace_cons (by decide) _
    rw [scanMembers_step k (by omega) (skipSpace_render hff v _)
      (hread n (by omega) v _ hw.1 (by omega) (stop_renderMembers ((k', v') :: ms) rest))]
    simp only [renderMembers, List.cons_append, List.append_assoc]
    rw [skipSpace_cons (by decide)]
    simp only [hq]
    rw [ih k' v' n rest (fun m hm => hread m (by omega)) hw.2 (by omega)]
    rfl

/-- **The scanner reads back a rendered value**, objects as dicts. -/
theorem scanOnce_render (hff : ff.Lawful) (n : Nat) : ReadsBack ff n := by
  induction n using Nat.strong_induction_on with
  | _ n ih =>
    intro v rest hw hn hr
    have hpos := length_render_pos hff v
    obtain ⟨n, rfl⟩ : ∃ m, n = m + 1 := ⟨n - 1, by omega⟩
    cases v with
    | null => exact scanOnce_word (p := ("null".toList, .null)) (by simp [words]) n rest
    | bool b =>
      cases b
      · exact scanOnce_word (p := ("false".toList, .bool false)) (by simp [words]) n rest
      · exact scanOnce_word (p := ("true".toList, .bool true)) (by simp [words]) n rest
    | int m => exact scanOnce_int (writable_int.1 hw) n hr
    | float x =>
      rcases x with _ | b | x
      · exact scanOnce_word (p := ("NaN".toList, .float .nan)) (by simp [words]) n rest
      · cases b
        · exact scanOnce_word (p := ("Infinity".toList, .float (.inf false))) (by simp [words])
            n rest
        · exact scanOnce_word (p := ("-Infinity".toList, .float (.inf true))) (by simp [words])
            n rest
      · exact scanOnce_fin hff x n hr
    | str s =>
      have hlen := length_quote s
      rw [render] at hn
      rw [render, quote_append, scanOnce.eq_2, scanString_quote (by omega)]
      rfl
    | arr xs =>
      rcases xs with _ | ⟨x, xs⟩
      · rfl
      · rw [render, List.length_cons, List.length_append] at hn
        have hne : ∀ t, render ff x ++ (renderElems ff xs ++ rest) ≠ .char ']' :: t := by
          intro t ht
          obtain ⟨c, u, heq, -, -, hc⟩ := render_head hff x (renderElems ff xs ++ rest)
          rw [heq] at ht
          cases ht
          exact hc rfl
        simp only [render, List.cons_append, List.append_assoc]
        rw [scanOnce_arr n (skipSpace_render hff x _) hne,
          scanElems_render hff xs x n rest (fun m hm => ih m (by omega))
            (by simpa [Value.writable] using hw) (by omega)]
        rfl
    | obj ms =>
      rcases ms with _ | ⟨⟨k, w⟩, ms⟩
      · rfl
      · rw [render, List.length_cons, List.length_append, List.length_cons,
          List.length_append] at hn
        simp only [render, List.cons_append, List.append_assoc]
        rw [scanOnce_obj n (by rw [quote_append]; exact skipSpace_cons (by decide) _)
            (by rw [quote_append]; intro t ht; cases ht),
          scanMembers_render hff ms k w n rest (fun m hm => ih m (by omega))
            (by simpa [Value.writable] using hw) (by omega)]
        rfl

/-! ## Texts and bytes -/

theorem parse_render (hff : ff.Lawful) {v : Value F} (hw : v.writable = true) :
    parse ff (render ff v) = some v.dicts := by
  have hskip := skipSpace_render hff v []
  have hread := scanOnce_render hff ((render ff v).length + 1) v [] hw (by omega) stop_nil
  rw [List.append_nil] at hskip hread
  simp only [parse, hskip, hread, Option.bind_eq_bind, Option.bind_some]
  rfl

theorem le_of_mem_escape {c d : CodePoint} (h : d ∈ escape c) : 32 ≤ d.code := by
  have hhex : ∀ n < 16, 32 ≤ (hexDigit n).toNat := by decide
  have key : ∀ l : List Char, (∀ e ∈ l, 32 ≤ e.toNat) → d ∈ chars l → 32 ≤ d.code := by
    intro l hl hd
    obtain ⟨e, he, rfl⟩ := List.mem_map.1 hd
    exact hl e he
  have pair : ∀ a b : Char, 32 ≤ a.toNat → 32 ≤ b.toNat → d ∈ chars [a, b] → 32 ≤ d.code := by
    intro a b ha hb
    exact key [a, b] (by simp [ha, hb])
  unfold escape at h
  split_ifs at h with h1 h2 h3 h4 h5 h6 h7 h8
  iterate 7 exact pair _ _ (by decide) (by decide) h
  · refine key _ ?_ h
    simp only [List.mem_cons, List.not_mem_nil, or_false, forall_eq_or_imp, forall_eq]
    exact ⟨by decide, by decide, by decide, by decide, hhex _ (by omega), hhex _ (by omega)⟩
  · rw [List.mem_singleton.1 h]
    omega

theorem le_of_mem_quote {k : Str} {d : CodePoint} (h : d ∈ quote k) : 32 ≤ d.code := by
  rw [quote, List.mem_cons, List.mem_append, List.mem_singleton, List.mem_flatMap] at h
  rcases h with rfl | ⟨c, -, hc⟩ | rfl
  · decide
  · exact le_of_mem_escape hc
  · decide

theorem le_of_isDigit {c : Char} (h : c.isDigit = true) : 32 ≤ c.toNat := by
  rw [isDigit_iff] at h
  omega

theorem le_of_mem_intRepr {n : Int} {c : Char} (h : c ∈ intRepr n) : 32 ≤ c.toNat := by
  rcases mem_intRepr h with h | rfl
  · exact le_of_isDigit h
  · decide

theorem FloatLiteral.le_of_mem {sgn int frac exp : List Char} (hlit : FloatLiteral sgn int frac exp)
    {c : Char} (h : c ∈ sgn ++ int ++ frac ++ exp) : 32 ≤ c.toNat := by
  simp only [List.mem_append] at h
  rcases h with ((h | h) | h) | h
  · rcases hlit.sign with rfl | rfl
    · cases h
    · rw [List.mem_singleton.1 h]
      decide
  · exact le_of_isDigit (hlit.intLiteral.isDigit c h)
  · rcases hlit.fraction with rfl | ⟨ds, -, hds, rfl⟩
    · cases h
    · rcases List.mem_cons.1 h with rfl | h
      · decide
      · exact le_of_isDigit (hds c h)
  · rcases hlit.exponent with rfl | ⟨sg, ds, hsg, -, hds, rfl⟩
    · cases h
    · rcases List.mem_cons.1 h with rfl | h
      · decide
      · rcases List.mem_append.1 h with h | h
        · rcases hsg with rfl | rfl <;> (rw [List.mem_singleton.1 h]; decide)
        · exact le_of_isDigit (hds c h)

/-- No control character comes second in a rendered value. -/
theorem render_second (hff : ff.Lawful) {v : Value F} {c d : CodePoint} {t : Str}
    (h : render ff v = c :: d :: t) : 32 ≤ d.code := by
  have hd : d ∈ render ff v := by
    rw [h]
    simp
  cases v with
  | null => cases h; decide
  | bool b => cases b <;> (cases h; decide)
  | int n =>
    obtain ⟨e, he, rfl⟩ := List.mem_map.1 hd
    exact le_of_mem_intRepr he
  | float x =>
    rcases x with _ | b | x
    · cases h; decide
    · cases b <;> (cases h; decide)
    · obtain ⟨-, sgn, int, frac, exp, hlit, hrepr⟩ := hff x
      rw [render_fin, hrepr] at hd
      obtain ⟨e, he, rfl⟩ := List.mem_map.1 hd
      exact hlit.le_of_mem he
  | str s => exact le_of_mem_quote hd
  | arr xs =>
    rcases xs with _ | ⟨x, xs⟩
    · cases h; decide
    · obtain ⟨e, u, heq, hle, -⟩ := render_head hff x (renderElems ff xs)
      rw [render, heq] at h
      cases h
      exact hle.le
  | obj ms =>
    rcases ms with _ | ⟨⟨k, v⟩, ms⟩
    · cases h; decide
    · rw [render, quote_append] at h
      cases h
      decide

theorem encodeStr_eq {s : Str} {b : List UInt8} (h : encodeStr s = some b) :
    ∃ l, s = chars l ∧ b = Utf8.encode l := by
  induction s generalizing b with
  | nil =>
    cases h
    exact ⟨[], rfl, rfl⟩
  | cons c s ih =>
    cases c with
    | surrogate n => cases h
    | char c =>
      rw [encodeStr, Option.map_eq_some_iff] at h
      obtain ⟨b', hb, rfl⟩ := h
      obtain ⟨l, rfl, rfl⟩ := ih hb
      exact ⟨c :: l, rfl, rfl⟩

/-- The first octet of an encoded character is null only for the null character. -/
theorem encodeChar_head {c : Char} (h : 32 ≤ c.toNat) :
    ∃ x t, String.utf8EncodeChar c = x :: t ∧ x ≠ 0 := by
  have hor : ∀ x y : UInt8, y ≠ 0 → x ||| y ≠ 0 := fun x y hy h => hy (UInt8.or_eq_zero_iff.1 h).2
  rcases Char.utf8Size_eq c with h1 | h2 | h3 | h4
  · by_cases hc : c.toNat < 128
    · refine ⟨_, _, Utf8.encodeChar_ascii hc, ?_⟩
      rw [Ne, ← UInt8.toNat_inj, UInt8.toNat_ofNat']
      show ¬ c.toNat % 256 = 0
      omega
    · rw [Char.utf8Size_eq_one_iff] at h1
      exact absurd (Nat.lt_succ_of_le h1) hc
  · exact ⟨_, _, String.utf8EncodeChar_eq_cons_cons h2, hor _ _ (by decide)⟩
  · exact ⟨_, _, String.utf8EncodeChar_eq_cons_cons_cons h3, hor _ _ (by decide)⟩
  · exact ⟨_, _, String.utf8EncodeChar_eq_cons_cons_cons_cons h4, hor _ _ (by decide)⟩

/-- Octets that start with an ASCII character other than null, and not with a null after it,
    are taken for UTF-8. -/
theorem decodeBytes_eq {x : UInt8} {b : List UInt8} (h0 : x ≠ 0) (hx : x.toNat < 128)
    (hb : b.head? ≠ some 0) : decodeBytes (x :: b) = decodeUtf8 (x :: b) := by
  have hbom : ∀ y : UInt8, 128 ≤ y.toNat → y ≠ x := by
    rintro y hy rfl
    omega
  have hpre : ∀ y w, y ≠ x → ¬ (y :: w <+: x :: b) := fun y w hy h =>
    hy (List.cons_prefix_cons.1 h).1
  unfold decodeBytes
  rw [if_neg (hpre _ _ h0.symm), if_neg (hpre _ _ (hbom _ (by decide))),
    if_neg (hpre _ _ (hbom _ (by decide))), if_neg (hpre _ _ (hbom _ (by decide))),
    if_neg (hpre _ _ (hbom _ (by decide)))]
  split
  · next heq =>
    cases heq
    rw [if_neg h0, if_neg (by simpa using hb)]
  · next heq =>
    cases heq
    rw [if_neg h0, if_neg (by simpa using hb)]
  · rfl

/-- **`json.loads(json.dumps(v).encode())` is `v`**, the members of its objects in key order. -/
theorem loads_dumps (hff : ff.Lawful) {v : Value F} {s : Str} {b : List UInt8}
    (hd : dumps ff v = some s) (he : encodeStr s = some b) : loads ff b = some v.canon := by
  unfold dumps at hd
  split_ifs at hd with hw
  cases hd
  obtain ⟨l, hl, rfl⟩ := encodeStr_eq he
  obtain ⟨c, t, heq, hc, hc', -⟩ := render_head hff v.sortKeys []
  rw [List.append_nil] at heq
  have hdec : decodeBytes (Utf8.encode l) = some (chars l) := by
    rw [hl] at heq
    obtain ⟨d, l, rfl⟩ : ∃ d l', l = d :: l' := by
      cases l with
      | nil => cases heq
      | cons d l' => exact ⟨d, l', rfl⟩
    cases heq
    have h0 : UInt8.ofNat c.toNat ≠ 0 ∧ (UInt8.ofNat c.toNat).toNat < 128 := by
      rw [Ne, ← UInt8.toNat_inj, UInt8.toNat_ofNat']
      show ¬ c.toNat % 256 = 0 ∧ c.toNat % 256 < 128
      omega
    have hb : (Utf8.encode l).head? ≠ some 0 := by
      cases l with
      | nil => simp
      | cons e l =>
        obtain ⟨x, u, hx, hne⟩ := encodeChar_head (c := e) (render_second hff hl)
        rw [Utf8.encode_cons, hx]
        simpa using hne
    have hutf := Utf8.decode_encode (c :: l)
    rw [Utf8.encode_cons, Utf8.encodeChar_ascii hc'] at hutf ⊢
    rw [List.singleton_append, decodeBytes_eq h0.1 h0.2 hb, decodeUtf8,
      ← List.singleton_append, hutf]
  rw [loads, hdec, Option.bind_some, ← hl, parse_render hff hw, Value.canon]

end Kit.Json
