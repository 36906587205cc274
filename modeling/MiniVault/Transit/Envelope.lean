/-
  Printing and reading: what `encrypt` prints into an envelope, `decrypt` reads back. What
  `decrypt` accepts beyond that is written out in `EnvelopeForm`: any text that `int` reads as the
  version, and any text that decodes to the nonce and the ciphertext. The head of `decrypt` is
  read over code points first, and on texts from there.
-/
import MiniVault.Kit.JsonRoundTrip
import MiniVault.Model.PyStr
import Mathlib.Data.List.TakeWhile

namespace MiniVault

open Kit

namespace Text

/-! ## split -/

section Split

variable {α : Type} [DecidableEq α] {sep : α}

theorem split_append {a : List α} (h : sep ∉ a) (n : Nat) (s : List α) :
    split sep (n + 1) (a ++ sep :: s) = a :: split sep n s := by
  have ha : ∀ c ∈ a, decide (c ≠ sep) = true := by
    intro c hc
    refine decide_eq_true ?_
    rintro rfl
    exact h hc
  rw [split, List.dropWhile_append_of_pos ha, List.dropWhile_cons_of_neg (by simp),
    List.takeWhile_append_of_pos ha, List.takeWhile_cons_of_neg (by simp), List.append_nil]

/-- A split of a string that has the separator. -/
theorem split_eq_cons_cons {n : Nat} {s x y : List α} {ys : List (List α)}
    (h : split sep (n + 1) s = x :: y :: ys) :
    ∃ t, s = x ++ sep :: t ∧ sep ∉ x ∧ split sep n t = y :: ys := by
  rw [split] at h
  split at h
  · cases h
  · rename_i c t hdrop
    obtain ⟨rfl, ht⟩ := List.cons.inj h
    have hc := List.head?_dropWhile_not (fun c => decide (c ≠ sep)) s
    rw [hdrop] at hc
    have hsep : c = sep := by simpa using hc
    subst hsep
    refine ⟨t, ?_, fun hmem => ?_, ht⟩
    · rw [← hdrop, List.takeWhile_append_dropWhile]
    · have hne := List.mem_takeWhile_imp hmem
      simp at hne

/-- The strings that split into four. -/
theorem split_eq_four {s a b c d : List α} :
    split sep 3 s = [a, b, c, d] ↔
      s = a ++ sep :: (b ++ sep :: (c ++ sep :: d)) ∧ sep ∉ a ∧ sep ∉ b ∧ sep ∉ c := by
  constructor
  · intro h
    obtain ⟨t, rfl, ha, h⟩ := split_eq_cons_cons h
    obtain ⟨u, rfl, hb, h⟩ := split_eq_cons_cons h
    obtain ⟨v, rfl, hc, h⟩ := split_eq_cons_cons h
    obtain ⟨rfl, -⟩ := List.cons.inj h
    exact ⟨rfl, ha, hb, hc⟩
  · rintro ⟨rfl, ha, hb, hc⟩
    rw [split_append ha, split_append hb, split_append hc, split]

theorem split_map {α β : Type} [DecidableEq α] [DecidableEq β] {f : α → β}
    (hf : Function.Injective f) (sep : α) (n : Nat) (s : List α) :
    split (f sep) n (s.map f) = (split sep n s).map (List.map f) := by
  have hpred : ((fun c => decide (c ≠ f sep)) ∘ f) = fun c => decide (c ≠ sep) := by
    funext c
    simp [hf.eq_iff]
  induction n generalizing s with
  | zero => rfl
  | succ n ih =>
    unfold split
    rw [List.dropWhile_map, List.takeWhile_map, hpred]
    rcases s.dropWhile fun c => decide (c ≠ sep) with _ | ⟨c, rest⟩
    · rfl
    · rw [List.map_cons]
      dsimp only
      rw [ih, List.map_cons]

end Split

/-! ## int -/

/-- `int` steps over nothing but digits and underscores. -/
theorem mem_of_digitGroups {s digits rest : Text} (h : digitGroups s = some (digits, rest)) :
    ∀ c ∈ s, c.isDigit = true ∨ c = '_' ∨ c ∈ rest := by
  fun_induction digitGroups s generalizing digits rest with
  | case2 c hc d s hd ih =>
    obtain ⟨p, hp, heq⟩ := Option.map_eq_some_iff.1 h
    cases heq
    intro x hx
    rcases List.mem_cons.1 hx with rfl | hx
    · exact .inl hc
    rcases List.mem_cons.1 hx with rfl | hx
    · exact .inr (.inl rfl)
    · exact ih hp x hx
  | case5 c hc d s _ _ hd ih =>
    obtain ⟨p, hp, heq⟩ := Option.map_eq_some_iff.1 h
    cases heq
    intro x hx
    rcases List.mem_cons.1 hx with rfl | hx
    · exact .inl hc
    · exact ih hp x hx
  | case6 c hc d s =>
    cases h
    intro x hx
    rcases List.mem_cons.1 hx with rfl | hx
    · exact .inl hc
    · exact .inr (.inr hx)
  | case7 c hc =>
    cases h
    intro x hx
    rw [List.mem_singleton.1 hx]
    exact .inl hc
  | case1 => cases h
  | case3 => cases h
  | case4 => cases h
  | case8 => cases h

theorem mem_dropWhile {p : Char → Bool} {c : Char} (hp : p c = false) {s : Text} (h : c ∈ s) :
    c ∈ s.dropWhile p := by
  rw [← List.takeWhile_append_dropWhile (p := p) (l := s)] at h
  rcases List.mem_append.1 h with h | h
  · rw [List.mem_takeWhile_imp h] at hp
    cases hp
  · exact h

theorem colon_mem_sign {s : Text} (h : ':' ∈ s) : ':' ∈ (sign s).2 := by
  unfold sign
  split
  · exact (List.mem_cons.1 h).resolve_left (by decide)
  · exact (List.mem_cons.1 h).resolve_left (by decide)
  · exact h

/-- What `int` accepts has no colon. -/
theorem colon_notMem_of_int {s : Text} {n : Int} (h : int s = some n) : ':' ∉ s := by
  intro hmem
  have hascii : ':' ∈ if s.all (·.toNat < 128) then s else s.map toAscii := by
    split
    · exact hmem
    · exact List.mem_map.2 ⟨':', hmem, by decide⟩
  unfold int at h
  generalize (if s.all (·.toNat < 128) then s else s.map toAscii) = t at h hascii
  have hsign := colon_mem_sign (mem_dropWhile (p := isAsciiSpace) (by decide) hascii)
  obtain ⟨⟨digits, rest⟩, hgroups, h⟩ := Option.bind_eq_some_iff.1 h
  have hgroups' : digitGroups (sign (t.dropWhile isAsciiSpace)).2 = some (digits, rest) := hgroups
  have hrest : rest.all isAsciiSpace = true := by
    by_contra hrest
    dsimp only at h
    rw [if_neg fun hand => hrest hand.1] at h
    cases h
  rcases mem_of_digitGroups hgroups' _ hsign with h | h | h
  · exact absurd h (by decide)
  · exact absurd h (by decide)
  · exact absurd (List.all_eq_true.1 hrest _ h) (by decide)

theorem digitGroups_digits {s : Text} (hne : s ≠ []) (h : ∀ c ∈ s, c.isDigit = true) :
    digitGroups s = some (s, []) := by
  induction s with
  | nil => exact absurd rfl hne
  | cons c s ih =>
    have hc := h c List.mem_cons_self
    cases s with
    | nil => simp [digitGroups, hc]
    | cons d s =>
      have hd := h d (List.mem_cons_of_mem _ List.mem_cons_self)
      have hs := ih (by simp) fun x hx => h x (List.mem_cons_of_mem _ hx)
      have hunderscore : d ≠ '_' := by rintro rfl; exact absurd hd (by decide)
      rw [digitGroups, if_pos hc, if_pos hd, hs]
      · rfl
      · exact fun _ _ heq => absurd heq hunderscore
      · exact fun heq => absurd heq hunderscore

theorem lt_digitBound {n : Nat} (h : n < 2 ^ 63) : n < Json.digitBound := by
  have hdigits : 19 ≤ Json.maxDigits := by
    rw [Json.maxDigits]
    decide
  have hpow : 10 ^ 19 ≤ Json.digitBound := by
    rw [Json.digitBound]
    exact Nat.pow_le_pow_right (by decide) hdigits
  exact lt_of_lt_of_le (h.trans (by decide)) hpow

/-- `int(str(n)) == n` -/
theorem int_str {n : Nat} (h : n < 2 ^ 63) : int (str n) = some (n : Int) := by
  have hds : ∀ c ∈ Nat.toDigits 10 n, c.isDigit = true := fun c hc =>
    Nat.isDigit_of_mem_toDigits (by decide) (by decide) hc
  have hstr : str n = Nat.toDigits 10 n := by
    rw [str, Json.intRepr, if_neg (by omega)]
    rfl
  obtain ⟨d, ds, hcons⟩ := List.exists_cons_of_ne_nil (Nat.toDigits_ne_nil (b := 10) (n := n))
  have hd : d.isDigit = true := hds d (by rw [hcons]; exact List.mem_cons_self)
  have hrange : ∀ c : Char, c.isDigit = true → c.toNat < 128 ∧ isAsciiSpace c = false := by
    intro c hc
    rw [Json.isDigit_iff] at hc
    simp only [isAsciiSpace, Bool.or_eq_false_iff, decide_eq_false_iff_not, Bool.and_eq_false_iff]
    omega
  have hascii : (str n).all (fun c => decide (c.toNat < 128)) = true := by
    rw [hstr, List.all_eq_true]
    exact fun c hc => decide_eq_true (hrange c (hds c hc)).1
  have hdrop : (str n).dropWhile isAsciiSpace = str n := by
    rw [hstr, hcons, List.dropWhile_cons_of_neg]
    rw [(hrange d hd).2]
    decide
  have hsign : sign (str n) = (false, str n) := by
    rw [hstr, hcons, sign]
    · rintro s ⟨⟩; exact absurd hd (by decide)
    · rintro s ⟨⟩; exact absurd hd (by decide)
  have hgroups : digitGroups (str n) = some (str n, []) :=
    digitGroups_digits (by rw [hstr]; exact Nat.toDigits_ne_nil) (by rwa [hstr])
  have hlen : (str n).length ≤ Json.maxDigits := by
    rw [hstr]
    exact Nat.not_lt.1 (Json.length_toDigits (lt_digitBound h))
  have hval : Nat.ofDigitChars 10 (str n) 0 = n := by
    rw [hstr, Nat.ofDigitChars_ten_toDigits]
  unfold int
  simp only [if_pos hascii, hdrop, hsign, hgroups]
  show (if List.all [] isAsciiSpace = true ∧ (str n).length ≤ Json.maxDigits
    then some ((Nat.ofDigitChars 10 (str n) 0 : Nat) : Int) else none) = _
  rw [if_pos ⟨rfl, hlen⟩, hval]

end Text

/-! ## Texts among the strings -/

namespace PyStr

theorem char_injective : Function.Injective Json.CodePoint.char := fun _ _ h =>
  Json.CodePoint.char.inj h

theorem chars_injective : Function.Injective Json.chars :=
  List.map_injective_iff.2 char_injective

theorem prefix_chars {t u : Text} : Json.chars t <+: Json.chars u ↔ t <+: u :=
  List.prefix_map_iff_of_injective char_injective

theorem char_mem_chars {c : Char} {t : Text} : .char c ∈ Json.chars t ↔ c ∈ t :=
  List.mem_map_of_injective char_injective

theorem chars_eq_nil {t : Text} : Json.chars t = [] ↔ t = [] := List.map_eq_nil_iff

theorem text?_chars (t : Text) : text? (Json.chars t) = some t := by
  induction t with
  | nil => rfl
  | cons c t ih =>
    show (text? (Json.chars t)).map (c :: ·) = some (c :: t)
    rw [ih]
    rfl

theorem text?_eq_some {s : PyStr} {t : Text} : text? s = some t ↔ s = Json.chars t := by
  constructor
  · intro h
    induction s generalizing t with
    | nil =>
      cases h
      rfl
    | cons c s ih =>
      cases c with
      | char c =>
        obtain ⟨t', ht', rfl⟩ := Option.map_eq_some_iff.1 h
        rw [ih ht']
        rfl
      | surrogate n => cases h
  · rintro rfl
    exact text?_chars t

theorem int_eq_some {s : PyStr} {n : Int} :
    int s = some n ↔ ∃ t, s = Json.chars t ∧ Text.int t = some n := by
  simp only [int, Option.bind_eq_some_iff, text?_eq_some]

theorem int_chars (t : Text) : int (Json.chars t) = Text.int t := by
  rw [int, text?_chars, Option.bind_some]

/-! ## Envelopes -/

theorem readEnvelope_chars (t : Text) :
    readEnvelope (Json.chars t) =
      (MiniVault.readEnvelope t).map fun p => (p.1, Json.chars p.2.1, Json.chars p.2.2) := by
  have hsplit : Text.split (.char ':') 3 (Json.chars t) =
      (Text.split ':' 3 t).map Json.chars :=
    Text.split_map char_injective ':' 3 t
  unfold readEnvelope MiniVault.readEnvelope
  rw [hsplit]
  rcases Text.split ':' 3 t with
    _ | ⟨scheme, _ | ⟨version, _ | ⟨name, _ | ⟨blob, _ | ⟨more, rest⟩⟩⟩⟩⟩
  · rfl
  · rfl
  · rfl
  · rfl
  · have hv : [.char 'v'] <+: Json.chars version ↔ ['v'] <+: version :=
      prefix_chars (t := ['v'])
    have hhead : (Json.chars scheme ≠ Json.chars "vault".toList ∨
        ¬ [.char 'v'] <+: Json.chars version ∨ Json.chars name = []) ↔
          (scheme ≠ "vault".toList ∨ ¬ ['v'] <+: version ∨ name = []) := by
      rw [hv, chars_injective.ne_iff, chars_eq_nil]
    have hint : int ((Json.chars version).drop 1) = Text.int (version.drop 1) := by
      rw [← int_chars, Json.chars, ← List.map_drop]
      rfl
    by_cases h : scheme ≠ "vault".toList ∨ ¬ ['v'] <+: version ∨ name = []
    · simp only [List.map_cons, List.map_nil, if_pos h, if_pos (hhead.2 h)]
      rfl
    simp only [List.map_cons, List.map_nil, if_neg h, if_neg (mt hhead.1 h), hint]
    rcases Text.int (version.drop 1) with _ | n
    · rfl
    · by_cases hn : n < 1
      · simp only [if_pos hn]
        rfl
      · simp only [if_neg hn]
        rfl
  · rfl

/-- The head of `decrypt` reads a version that `int` reads, a name without a colon, and the rest. -/
theorem readEnvelope_of_int {version : Text} {n : Nat} {name blobB64 : PyStr}
    (hint : Text.int version = some (n : Int)) (h1 : 1 ≤ n) (hne : name ≠ [])
    (hcolon : .char ':' ∉ name) :
    readEnvelope (Json.chars ("vault:v".toList ++ version) ++
        .char ':' :: (name ++ .char ':' :: blobB64)) = .ok (n, name, blobB64) := by
  have hversion : .char ':' ∉ Json.chars ('v' :: version) := by
    rw [char_mem_chars]
    intro h
    rcases List.mem_cons.1 h with h | h
    · exact absurd h (by decide)
    · exact Text.colon_notMem_of_int hint h
  have hsplit : Text.split (.char ':') 3 (Json.chars ("vault:v".toList ++ version) ++
      .char ':' :: (name ++ .char ':' :: blobB64)) =
        [Json.chars "vault".toList, Json.chars ('v' :: version), name, blobB64] :=
    Text.split_eq_four.2 ⟨by simp [Json.chars], by decide, hversion, hcolon⟩
  have hint' : int ((Json.chars ('v' :: version)).drop 1) = some (n : Int) :=
    (int_chars version).trans hint
  have hpos : ¬ (n : Int) < 1 := by omega
  unfold readEnvelope
  simp only [hsplit, hint']
  rw [if_neg, if_neg hpos]
  · rfl
  · simp [hne, Json.chars]

/-- And it reads nothing else: the name and the rest may still hold anything. -/
theorem readEnvelope_eq_ok {envelope : PyStr} {n : Nat} {name blobB64 : PyStr} :
    readEnvelope envelope = .ok (n, name, blobB64) ↔
      ∃ version : Text, envelope = Json.chars ("vault:v".toList ++ version) ++
          .char ':' :: (name ++ .char ':' :: blobB64) ∧
        Text.int version = some (n : Int) ∧ 1 ≤ n ∧ name ≠ [] ∧ .char ':' ∉ name := by
  constructor
  · intro h
    unfold readEnvelope at h
    dsimp only at h
    split at h
    · rename_i scheme version name' blob' hsplit
      obtain ⟨rfl, -, -, hcolon⟩ := Text.split_eq_four.1 hsplit
      split_ifs at h with hhead
      rcases hint : int (version.drop 1) with _ | k
      · rw [hint] at h
        cases h
      rw [hint] at h
      dsimp only at h
      split_ifs at h with hk
      cases h
      simp only [not_or, not_not, ne_eq] at hhead
      obtain ⟨rfl, ⟨digits, rfl⟩, hne⟩ := hhead
      obtain ⟨t, ht, ht'⟩ := int_eq_some.1 hint
      obtain rfl : digits = Json.chars t := ht
      have hcast : (k.toNat : Int) = k := Int.toNat_of_nonneg (by omega)
      refine ⟨t, by simp [Json.chars], ?_, by omega, hne, hcolon⟩
      rw [hcast]
      exact ht'
    · cases h
  · rintro ⟨version, rfl, hint, h1, hne, hcolon⟩
    exact readEnvelope_of_int hint h1 hne hcolon

end PyStr

theorem keyName_ne {name : Text} (h : validateKeyName name = .ok ()) :
    name ≠ [] ∧ ':' ∉ name := by
  unfold validateKeyName at h
  split_ifs at h with hname
  obtain ⟨h3, -, hall⟩ := hname
  refine ⟨?_, fun hmem => ?_⟩
  · rintro rfl
    exact absurd h3 (by decide)
  · exact absurd (List.all_eq_true.1 hall _ hmem) (by decide)

/-- `vault:v<version>:<name>:<Base64>`, where `int` reads the version as `n`, and the last part
    decodes to `blob`, a nonce and a tag at least. -/
def EnvelopeForm (envelope : Text) (n : Nat) (name : Text) (blob : Bytes) : Prop :=
  ∃ version blobB64, envelope = "vault:v".toList ++ version ++ ':' :: (name ++ ':' :: blobB64) ∧
    Text.int version = some (n : Int) ∧ 1 ≤ n ∧ name ≠ [] ∧ ':' ∉ name ∧
    Base64.decode blobB64 = some blob ∧ 28 ≤ blob.length

theorem readEnvelope_eq_ok {envelope : Text} {n : Nat} {name blobB64 : Text} :
    readEnvelope envelope = .ok (n, name, blobB64) ↔
      ∃ version, envelope = "vault:v".toList ++ version ++ ':' :: (name ++ ':' :: blobB64) ∧
        Text.int version = some (n : Int) ∧ 1 ≤ n ∧ name ≠ [] ∧ ':' ∉ name := by
  have hchars : readEnvelope envelope = .ok (n, name, blobB64) ↔
      PyStr.readEnvelope (Json.chars envelope) = .ok (n, Json.chars name, Json.chars blobB64) := by
    rw [PyStr.readEnvelope_chars]
    rcases readEnvelope envelope with x | ⟨n', name', blobB64'⟩
    · exact iff_of_false (by rintro ⟨⟩) (by rintro ⟨⟩)
    · simp [Except.map, PyStr.chars_injective.eq_iff]
  have hform : ∀ version : Text, Json.chars ("vault:v".toList ++ version ++
      ':' :: (name ++ ':' :: blobB64)) = Json.chars ("vault:v".toList ++ version) ++
        .char ':' :: (Json.chars name ++ .char ':' :: Json.chars blobB64) := by
    simp [Json.chars]
  rw [hchars, PyStr.readEnvelope_eq_ok]
  simp only [← hform, PyStr.chars_injective.eq_iff, PyStr.char_mem_chars, PyStr.chars_eq_nil, ne_eq]

/-- The envelopes that get as far as the key. -/
theorem envelopeForm_iff {envelope : Text} {n : Nat} {name : Text} {blob : Bytes} :
    EnvelopeForm envelope n name blob ↔
      ∃ blobB64, readEnvelope envelope = .ok (n, name, blobB64) ∧
        Base64.decode blobB64 = some blob ∧ 28 ≤ blob.length := by
  constructor
  · rintro ⟨version, blobB64, henv, hint, h1, hne, hcolon, hblob⟩
    exact ⟨blobB64, readEnvelope_eq_ok.2 ⟨version, henv, hint, h1, hne, hcolon⟩, hblob⟩
  · rintro ⟨blobB64, hread, hblob⟩
    obtain ⟨version, henv, hint, h1, hne, hcolon⟩ := readEnvelope_eq_ok.1 hread
    exact ⟨version, blobB64, henv, hint, h1, hne, hcolon, hblob⟩

theorem EnvelopeForm.unique {envelope : Text} {n n' : Nat} {name name' : Text} {blob blob' : Bytes}
    (h : EnvelopeForm envelope n name blob) (h' : EnvelopeForm envelope n' name' blob') :
    n' = n ∧ name' = name ∧ blob' = blob := by
  obtain ⟨blobB64, hread, hblob, -⟩ := envelopeForm_iff.1 h
  obtain ⟨blobB64', hread', hblob', -⟩ := envelopeForm_iff.1 h'
  cases hread.symm.trans hread'
  exact ⟨rfl, rfl, Option.some.inj (hblob'.symm.trans hblob)⟩

/-- The head of `decrypt` reads what the last line of `encrypt` printed. -/
theorem readEnvelope_envelope {F : Type} (L : Lib F) {version : Nat} {name : Text}
    (h1 : 1 ≤ version) (h63 : version < 2 ^ 63) (hname : validateKeyName name = .ok ())
    (blob : Bytes) :
    readEnvelope (envelope (concrete L) version name blob) =
      .ok (version, name, Base64.encode blob) := by
  obtain ⟨hne, hcolon⟩ := keyName_ne hname
  have hform : envelope (concrete L) version name blob =
      "vault:v".toList ++ str version ++ ':' :: (name ++ ':' :: Base64.encode blob) := by
    simp [envelope, concrete]
  exact readEnvelope_eq_ok.2 ⟨str version, hform, Text.int_str h63, h1, hne, hcolon⟩

end MiniVault
