/-
  The Python string operations the source uses, on lists of characters: `split`, `strip`,
  `int`, `isoformat` and the checks of `app/utils/validation.py`.
-/
import MiniVault.Model.Basic
import MiniVault.Kit.Json
import Mathlib.Data.List.Infix

namespace MiniVault

/-- A Python string without lone surrogates; `PyStr` is one that may hold them. -/
abbrev Text : Type := List Char

/-- A Python `bytes`. -/
abbrev Bytes : Type := List UInt8

namespace Text

/-! ## str -/

/-- `s.split(sep, n)`, over the code points `α` of a string. -/
def split {α : Type} [DecidableEq α] (sep : α) : Nat → List α → List (List α)
  | 0, s => [s]
  | n + 1, s =>
    match s.dropWhile (· ≠ sep) with
    | [] => [s]
    | _ :: rest => s.takeWhile (· ≠ sep) :: split sep n rest

/-- `str.isspace` of one character. -/
def isSpace (c : Char) : Bool :=
  (9 ≤ c.toNat && c.toNat ≤ 13) || (28 ≤ c.toNat && c.toNat ≤ 32) ||
    (0x2000 ≤ c.toNat && c.toNat ≤ 0x200A) ||
    [0x85, 0xA0, 0x1680, 0x2028, 0x2029, 0x202F, 0x205F, 0x3000].contains c.toNat

/-- `s.strip()` -/
def strip (s : Text) : Text := ((s.dropWhile isSpace).reverse.dropWhile isSpace).reverse

/-- The zeros of the decimal digits of Unicode 14, each followed by its nine other digits. -/
def decimalZeros : List Nat :=
  [0x30, 0x660, 0x6F0, 0x7C0, 0x966, 0x9E6, 0xA66, 0xAE6, 0xB66, 0xBE6, 0xC66, 0xCE6, 0xD66,
    0xDE6, 0xE50, 0xED0, 0xF20, 0x1040, 0x1090, 0x17E0, 0x1810, 0x1946, 0x19D0, 0x1A80, 0x1A90,
    0x1B50, 0x1BB0, 0x1C40, 0x1C50, 0xA620, 0xA8D0, 0xA900, 0xA9D0, 0xA9F0, 0xAA50, 0xABF0,
    0xFF10, 0x104A0, 0x10D30, 0x11066, 0x110F0, 0x11136, 0x111D0, 0x112F0, 0x11450, 0x114D0,
    0x11650, 0x116C0, 0x11730, 0x118E0, 0x11950, 0x11C50, 0x11D50, 0x11DA0, 0x16A60, 0x16AC0,
    0x16B50, 0x1D7CE, 0x1D7D8, 0x1D7E2, 0x1D7EC, 0x1D7F6, 0x1E140, 0x1E2F0, 0x1E950, 0x1FBF0]

/-- `unicodedata.decimal(c)` -/
def decimal (c : Char) : Option Nat :=
  (decimalZeros.find? fun z => z ≤ c.toNat ∧ c.toNat < z + 10).map (c.toNat - ·)

/-! ## int -/

/-- What `int` makes of a character that is not ASCII. -/
def toAscii (c : Char) : Char :=
  if c.toNat < 127 then c
  else if isSpace c then ' '
  else match decimal c with
    | some d => Nat.digitChar d
    | none => '?'

def isAsciiSpace (c : Char) : Bool := c.toNat = 32 || (9 ≤ c.toNat && c.toNat ≤ 13)

/-- The digits of a number whose groups are separated by single underscores, and the rest. -/
def digitGroups : Text → Option (Text × Text)
  | [] => none
  | c :: s =>
    if c.isDigit then
      match s with
      | '_' :: d :: s' =>
        if d.isDigit then (digitGroups (d :: s')).map fun p => (c :: p.1, p.2) else none
      | ['_'] => none
      | d :: s' =>
        if d.isDigit then (digitGroups (d :: s')).map fun p => (c :: p.1, p.2)
        else some ([c], d :: s')
      | [] => some ([c], [])
    else none

def sign : Text → Bool × Text
  | '+' :: s => (false, s)
  | '-' :: s => (true, s)
  | s => (false, s)

/-- `int(s)`, `none` for `ValueError`. -/
def int (s : Text) : Option Int := do
  let s := if s.all (·.toNat < 128) then s else s.map toAscii
  let (negative, s) := sign (s.dropWhile isAsciiSpace)
  let (digits, rest) ← digitGroups s
  if rest.all isAsciiSpace ∧ digits.length ≤ Kit.Json.maxDigits then
    let n : Int := Nat.ofDigitChars 10 digits 0
    return if negative then -n else n
  else none

/-! ## datetime -/

/-- Year, month and day of the `z`-th day after 1970-01-01. -/
def civil (z : Nat) : Nat × Nat × Nat :=
  let z := z + 719468
  let era := z / 146097
  let doe := z % 146097
  let yoe := (doe - doe / 1460 + doe / 36524 - doe / 146096) / 365
  let doy := doe - (365 * yoe + yoe / 4 - yoe / 100)
  let mp := (5 * doy + 2) / 153
  let m := if mp < 10 then mp + 3 else mp - 9
  (yoe + era * 400 + if m ≤ 2 then 1 else 0, m, doy - (153 * mp + 2) / 5 + 1)

/-- `f"{n:0{width}}"` -/
def padded (width n : Nat) : Text :=
  let s := Nat.toDigits 10 n
  List.replicate (width - s.length) '0' ++ s

/-- `t.isoformat()`, with the zone if the value is aware. -/
def isoformat (aware : Bool) (t : Time) : Text :=
  let (y, m, d) := civil (t / 86400000000)
  let s := t / 1000000 % 86400
  let us := t % 1000000
  padded 4 y ++ ['-'] ++ padded 2 m ++ ['-'] ++ padded 2 d ++ ['T'] ++ padded 2 (s / 3600) ++
    [':'] ++ padded 2 (s / 60 % 60) ++ [':'] ++ padded 2 (s % 60) ++
    (if us = 0 then [] else '.' :: padded 6 us) ++ (if aware then "+00:00".toList else [])

end Text

/-! ## validation -/

def isUpper (c : Char) : Bool := 'A' ≤ c && c ≤ 'Z'

def isLower (c : Char) : Bool := 'a' ≤ c && c ≤ 'z'

/-- `validate_passphrase` -/
def validatePassphrase (value : Text) : Except Exc Unit :=
  if value.length < 12 ∨ ¬ value.any isUpper ∨ ¬ value.any isLower ∨
      ¬ value.any (fun c => (Text.decimal c).isSome) ∨
      ¬ value.any (fun c => !(isUpper c || isLower c || c.isDigit)) then
    .error (appError .weakPassphrase "Passphrase does not meet security requirements" 400)
  else .ok ()

def isKeyNameChar (c : Char) : Bool := isUpper c || isLower c || c.isDigit || c = '_' || c = '-'

/-- `validate_key_name` -/
def validateKeyName (value : Text) : Except Exc Unit :=
  if 3 ≤ value.length ∧ value.length ≤ 64 ∧ value.all isKeyNameChar then .ok ()
  else .error (appError .validationError "Invalid key name" 422)

/-- `f"secret/{email}/"` -/
def pathPrefix (email : Text) : Text := "secret/".toList ++ email ++ ['/']

/-- `validate_path` -/
def validatePath (path email : Text) : Except Exc Unit :=
  if 512 < path.length ∨ path = [] ∨ ['.', '.'] <:+: path ∨ '\\' ∈ path ∨ Char.ofNat 0 ∈ path then
    .error (appError .validationError "Invalid secret path" 422)
  else if ¬ "secret/".toList <+: path then
    .error (appError .validationError "Invalid secret path" 422)
  else if ¬ pathPrefix email <+: path ∨ path.length = (pathPrefix email).length then
    .error (appError .permissionDenied "Permission denied" 403)
  else .ok ()

/-! ## envelopes -/

/-- The head of `TransitService.decrypt`: the version, key name and Base64 part of an envelope. -/
def readEnvelope (envelope : Text) : Except Exc (Nat × Text × Text) :=
  let invalid := .error (appError .invalidCiphertext "Invalid ciphertext" 400)
  match Text.split ':' 3 envelope with
  | [scheme, version, name, blob] =>
    if scheme ≠ "vault".toList ∨ ¬ ['v'] <+: version ∨ name = [] then invalid
    else match Text.int (version.drop 1) with
      | none => invalid
      | some keyVersion => if keyVersion < 1 then invalid else .ok (keyVersion.toNat, name, blob)
  | _ => invalid

/-- The key name that `router.transit_decrypt` hands to the audit log. -/
def envelopeName (envelope : Text) : Text :=
  if 3 ≤ envelope.count ':' then (Text.split ':' 3 envelope).getD 2 [] else "malformed".toList

end MiniVault
