/-
  Base64 over octets, with the strict decoder of CPython 3.11
  (`binascii.a2b_base64(s, strict_mode=True)`): only the alphabet, no leading padding, the
  leftover bits of the last symbol ignored, and any padding accepted after a full quad.

  * `decode_encode`: decoding inverts encoding;
  * `encode_injective`, and `length_encode`: an encoding is made of full quads.
-/
import Mathlib.Tactic.Common
import Mathlib.Data.List.Basic

namespace Kit.Base64

/-! ## Symbols -/

def alphabet : List Char :=
  "ABCDEFGHIJKLMNOPQRSTUVWXYZabcdefghijklmnopqrstuvwxyz0123456789+/".toList

/-- The symbol of a six-bit value. -/
def symbol (n : Nat) : Char := alphabet.getD n 'A'

/-- The value of a symbol. -/
def value (c : Char) : Option Nat := alphabet.idxOf? c

theorem value_symbol : ∀ n < 64, value (symbol n) = some n := by decide +kernel

theorem symbol_ne_pad : ∀ n < 64, symbol n ≠ '=' := by decide +kernel

/-! ## Coder and decoder -/

def encode : List UInt8 → List Char
  | [] => []
  | [a] => [symbol (a.toNat / 4), symbol (a.toNat % 4 * 16), '=', '=']
  | [a, b] =>
    [symbol (a.toNat / 4), symbol (a.toNat % 4 * 16 + b.toNat / 16), symbol (b.toNat % 16 * 4), '=']
  | a :: b :: c :: rest =>
    symbol (a.toNat / 4) :: symbol (a.toNat % 4 * 16 + b.toNat / 16) ::
      symbol (b.toNat % 16 * 4 + c.toNat / 64) :: symbol (c.toNat % 64) :: encode rest

/-- The octets of a full quad of six-bit values. -/
def quad (p q r s : Nat) : List UInt8 :=
  [UInt8.ofNat (p * 4 + q / 16), UInt8.ofNat (q % 16 * 16 + r / 4), UInt8.ofNat (r % 4 * 64 + s)]

/-- What may follow a full quad when no symbol does. -/
def padding (s : List Char) : Option (List UInt8) := if s.all (· = '=') then some [] else none

/-- Decode from a quad boundary on. -/
def decodeQuads : List Char → Option (List UInt8)
  | a :: b :: c :: d :: rest =>
    if a = '=' then padding (b :: c :: d :: rest)
    else if c = '=' ∧ d = '=' ∧ rest = [] then do
      let p ← value a
      let q ← value b
      return [UInt8.ofNat (p * 4 + q / 16)]
    else if d = '=' ∧ rest = [] then do
      let p ← value a
      let q ← value b
      let r ← value c
      return [UInt8.ofNat (p * 4 + q / 16), UInt8.ofNat (q % 16 * 16 + r / 4)]
    else do
      let p ← value a
      let q ← value b
      let r ← value c
      let s ← value d
      let bs ← decodeQuads rest
      return quad p q r s ++ bs
  | s => padding s

/-- `binascii.a2b_base64(s, strict_mode=True)`, `none` where it raises. -/
def decode (s : List Char) : Option (List UInt8) :=
  if s.head? = some '=' then none else decodeQuads s

/-! ## Round trip -/

theorem toNat_eq_ofNat {a : UInt8} {n : Nat} (h : n % 256 = a.toNat) : UInt8.ofNat n = a := by
  rw [← UInt8.toNat_inj, UInt8.toNat_ofNat']
  exact h

theorem decodeQuads_encode (bs : List UInt8) : decodeQuads (encode bs) = some bs := by
  induction bs using encode.induct with
  | case1 => rfl
  | case2 a =>
    have ha := a.toNat_lt
    simp only [encode, decodeQuads, symbol_ne_pad _ (show a.toNat / 4 < 64 by omega), if_false,
      and_self, if_true, value_symbol _ (show a.toNat / 4 < 64 by omega),
      value_symbol _ (show a.toNat % 4 * 16 < 64 by omega)]
    have h1 : UInt8.ofNat (a.toNat / 4 * 4 + a.toNat % 4 * 16 / 16) = a :=
      toNat_eq_ofNat (by omega)
    simp only [Option.bind_eq_bind, Option.bind_some, h1]
    rfl
  | case3 a b =>
    have ha := a.toNat_lt
    have hb := b.toNat_lt
    have hr : b.toNat % 16 * 4 < 64 := by omega
    simp only [encode, decodeQuads, symbol_ne_pad _ (show a.toNat / 4 < 64 by omega), if_false,
      symbol_ne_pad _ hr, false_and, and_self, if_true,
      value_symbol _ (show a.toNat / 4 < 64 by omega),
      value_symbol _ (show a.toNat % 4 * 16 + b.toNat / 16 < 64 by omega), value_symbol _ hr]
    have h1 : UInt8.ofNat (a.toNat / 4 * 4 + (a.toNat % 4 * 16 + b.toNat / 16) / 16) = a :=
      toNat_eq_ofNat (by omega)
    have h2 : UInt8.ofNat ((a.toNat % 4 * 16 + b.toNat / 16) % 16 * 16 + b.toNat % 16 * 4 / 4)
        = b := toNat_eq_ofNat (by omega)
    simp only [Option.bind_eq_bind, Option.bind_some, h1, h2]
    rfl
  | case4 a b c rest ih =>
    have ha := a.toNat_lt
    have hb := b.toNat_lt
    have hc := c.toNat_lt
    have hp : a.toNat / 4 < 64 := by omega
    have hq : a.toNat % 4 * 16 + b.toNat / 16 < 64 := by omega
    have hr : b.toNat % 16 * 4 + c.toNat / 64 < 64 := by omega
    have hs : c.toNat % 64 < 64 := by omega
    simp only [encode, decodeQuads, symbol_ne_pad _ hp, symbol_ne_pad _ hr, symbol_ne_pad _ hs,
      false_and, if_false, value_symbol _ hp, value_symbol _ hq, value_symbol _ hr,
      value_symbol _ hs, ih]
    have h1 : UInt8.ofNat (a.toNat / 4 * 4 + (a.toNat % 4 * 16 + b.toNat / 16) / 16) = a :=
      toNat_eq_ofNat (by omega)
    have h2 : UInt8.ofNat ((a.toNat % 4 * 16 + b.toNat / 16) % 16 * 16
        + (b.toNat % 16 * 4 + c.toNat / 64) / 4) = b := toNat_eq_ofNat (by omega)
    have h3 : UInt8.ofNat ((b.toNat % 16 * 4 + c.toNat / 64) % 4 * 64 + c.toNat % 64) = c :=
      toNat_eq_ofNat (by omega)
    simp only [Option.bind_eq_bind, Option.bind_some, quad, h1, h2, h3]
    rfl

theorem head_encode (bs : List UInt8) : (encode bs).head? ≠ some '=' := by
  have h : ∀ a : UInt8, symbol (a.toNat / 4) ≠ '=' := fun a =>
    symbol_ne_pad _ (by have := a.toNat_lt; omega)
  cases bs using encode.induct <;> simp [encode, h]

/-- **Decoding inverts encoding.** -/
theorem decode_encode (bs : List UInt8) : decode (encode bs) = some bs := by
  rw [decode, if_neg (head_encode bs), decodeQuads_encode]

theorem encode_injective : Function.Injective encode := by
  intro a b h
  have hd := decode_encode a
  rw [h, decode_encode] at hd
  exact (Option.some.inj hd).symm

/-! ## What the text of an encoding looks like -/

/-- A full quad for every three octets, and one for what is left. -/
theorem length_encode (bs : List UInt8) : (encode bs).length = 4 * ((bs.length + 2) / 3) := by
  induction bs using encode.induct with
  | case1 => rfl
  | case2 a => simp [encode]
  | case3 a b => simp [encode]
  | case4 a b c rest ih =>
    simp only [encode, List.length_cons, ih]
    omega

theorem mem_encode {bs : List UInt8} {c : Char} (h : c ∈ encode bs) : c ∈ '=' :: alphabet := by
  have hsymbol : ∀ n < 64, symbol n ∈ '=' :: alphabet := by decide +kernel
  have hpad : '=' ∈ '=' :: alphabet := List.mem_cons_self
  have hlt : ∀ x : UInt8, x.toNat < 256 := UInt8.toNat_lt
  induction bs using encode.induct with
  | case1 => cases h
  | case2 a =>
    have ha := hlt a
    simp only [encode, List.mem_cons, List.not_mem_nil, or_false] at h
    rcases h with rfl | rfl | rfl | rfl
    · exact hsymbol _ (by omega)
    · exact hsymbol _ (by omega)
    · exact hpad
    · exact hpad
  | case3 a b =>
    have ha := hlt a
    have hb := hlt b
    simp only [encode, List.mem_cons, List.not_mem_nil, or_false] at h
    rcases h with rfl | rfl | rfl | rfl
    · exact hsymbol _ (by omega)
    · exact hsymbol _ (by omega)
    · exact hsymbol _ (by omega)
    · exact hpad
  | case4 a b c rest ih =>
    have ha := hlt a
    have hb := hlt b
    have hc := hlt c
    simp only [encode, List.mem_cons] at h
    rcases h with rfl | rfl | rfl | rfl | h
    · exact hsymbol _ (by omega)
    · exact hsymbol _ (by omega)
    · exact hsymbol _ (by omega)
    · exact hsymbol _ (by omega)
    · exact ih h

end Kit.Base64
