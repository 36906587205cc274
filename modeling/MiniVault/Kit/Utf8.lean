/-
  UTF-8 on lists: the coder and decoder of the core library, seen from lists of characters and
  lists of octets.
-/
import Mathlib.Tactic.Common

namespace Kit.Utf8

/-- `s.encode()` -/
def encode (s : List Char) : List UInt8 := s.flatMap String.utf8EncodeChar

/-- `b.decode()`, `none` where it raises. -/
def decode (b : List UInt8) : Option (List Char) :=
  (ByteArray.mk b.toArray).utf8Decode?.map Array.toList

theorem decode_encode (s : List Char) : decode (encode s) = some s := by
  have h := List.utf8Decode?_utf8Encode (l := s)
  have hb : ByteArray.mk (encode s).toArray = s.utf8Encode := by
    rw [List.utf8Encode, encode]
    exact ByteArray.ext (List.data_toByteArray ..).symm
  rw [decode, hb, h]
  simp

theorem encode_injective : Function.Injective encode := by
  intro s t h
  have hd := decode_encode s
  rw [h, decode_encode] at hd
  exact (Option.some.inj hd).symm

@[simp] theorem encode_nil : encode [] = [] := rfl

theorem encode_cons (c : Char) (s : List Char) :
    encode (c :: s) = String.utf8EncodeChar c ++ encode s := rfl

/-- An ASCII character is its own single octet. -/
theorem encodeChar_ascii {c : Char} (h : c.toNat < 128) :
    String.utf8EncodeChar c = [UInt8.ofNat c.toNat] := by
  have hs : c.utf8Size = 1 := by
    rw [Char.utf8Size_eq_one_iff]
    exact Nat.lt_succ_iff.mp h
  rw [String.utf8EncodeChar_eq_singleton hs]
  rfl

end Kit.Utf8
