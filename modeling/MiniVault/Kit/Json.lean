/-
  JSON as Python's `json` module writes and reads it, over a type `F` of finite floats.

  A Python string may hold lone surrogates, so strings are lists of `CodePoint`. `render` is
  `json.dumps(v, ensure_ascii=False, separators=(",", ":"))` and `sortKeys` does what
  `sort_keys=True` adds; `parse` is the scanner behind `json.loads`. Nesting is not limited.
-/
import MiniVault.Kit.Utf8
import Mathlib.Algebra.Group.Nat.Defs
import Mathlib.Data.List.Lex
import Mathlib.Data.List.Sort

namespace Kit.Json

/-! ## Strings -/

/-- A code point of a Python string: a character, or a lone surrogate `0xD800 + n`. -/
inductive CodePoint where
  | char (c : Char)
  | surrogate (n : Fin 2048)
  deriving DecidableEq

abbrev Str : Type := List CodePoint

namespace CodePoint

def code : CodePoint → Nat
  | char c => c.toNat
  | surrogate n => 0xD800 + n

/-- `chr(n)`, for `n < 0x110000`. -/
def ofCode (n : Nat) : CodePoint :=
  if 0xD800 ≤ n ∧ n < 0xE000 then surrogate (Fin.ofNat 2048 (n - 0xD800)) else char (Char.ofNat n)

def isDigit : CodePoint → Bool
  | char c => c.isDigit
  | surrogate _ => false

end CodePoint

def chars (s : List Char) : Str := s.map .char

/-- `s.encode()`, `none` for `UnicodeEncodeError`. -/
def encodeStr : Str → Option (List UInt8)
  | [] => some []
  | .char c :: s => (encodeStr s).map (String.utf8EncodeChar c ++ ·)
  | .surrogate _ :: _ => none

/-! ## Values -/

/-- A Python float. -/
inductive PyFloat (F : Type) where
  | nan
  | inf (negative : Bool)
  | fin (x : F)
  deriving DecidableEq

/-- What `json` writes and reads. An object is the list of its members in dict order. -/
inductive Value (F : Type) where
  | null
  | bool (b : Bool)
  | int (n : Int)
  | float (x : PyFloat F)
  | str (s : Str)
  | arr (xs : List (Value F))
  | obj (ms : List (Str × Value F))

/-- `float.__repr__` of the finite floats, and `float(s)` on a float literal. -/
structure FloatFormat (F : Type) where
  repr : F → List Char
  parse : List Char → PyFloat F

variable {F : Type}

/-! ## Keys -/

/-- The order of Python strings. -/
def strLe (s t : Str) : Bool := decide (s.map (·.code) ≤ t.map (·.code))

/-- The members of a dict in key order. -/
def sortMembers {α : Type} (ms : List (Str × α)) : List (Str × α) :=
  ms.insertionSort fun a b => strLe a.1 b.1

/-- `d[k] = v` -/
def setItem {α : Type} (k : Str) (v : α) : List (Str × α) → List (Str × α)
  | [] => [(k, v)]
  | (k', v') :: ms => if k' = k then (k, v) :: ms else (k', v') :: setItem k v ms

/-- `dict(pairs)` -/
def dict {α : Type} (pairs : List (Str × α)) : List (Str × α) :=
  pairs.foldl (fun ms p => setItem p.1 p.2 ms) []

mutual

/-- Every object of a value with its members in key order. -/
def Value.sortKeys : Value F → Value F
  | .arr xs => .arr (sortKeysElems xs)
  | .obj ms => .obj (sortMembers (sortKeysMembers ms))
  | v => v

def sortKeysElems : List (Value F) → List (Value F)
  | [] => []
  | x :: xs => x.sortKeys :: sortKeysElems xs

def sortKeysMembers : List (Str × Value F) → List (Str × Value F)
  | [] => []
  | (k, v) :: ms => (k, v.sortKeys) :: sortKeysMembers ms

end

mutual

/-- Every object of a value made into a dict: of members with one key, the last stands. -/
def Value.dicts : Value F → Value F
  | .arr xs => .arr (dictsElems xs)
  | .obj ms => .obj (dict (dictsMembers ms))
  | v => v

def dictsElems : List (Value F) → List (Value F)
  | [] => []
  | x :: xs => x.dicts :: dictsElems xs

def dictsMembers : List (Str × Value F) → List (Str × Value F)
  | [] => []
  | (k, v) :: ms => (k, v.dicts) :: dictsMembers ms

end

/-- The value that reading back a dumped value gives: the same members in key order. -/
def Value.canon (v : Value F) : Value F := v.sortKeys.dicts

/-! ## Writing -/

def hexDigit (n : Nat) : Char := "0123456789abcdef".toList.getD n '0'

/-- `ESCAPE_DCT`, and the code point itself where nothing is escaped. -/
def escape (c : CodePoint) : Str :=
  if c = .char '"' then chars ['\\', '"']
  else if c = .char '\\' then chars ['\\', '\\']
  else if c.code = 10 then chars ['\\', 'n']
  else if c.code = 13 then chars ['\\', 'r']
  else if c.code = 9 then chars ['\\', 't']
  else if c.code = 12 then chars ['\\', 'f']
  else if c.code = 8 then chars ['\\', 'b']
  else if c.code < 32 then
    chars ['\\', 'u', '0', '0', hexDigit (c.code / 16), hexDigit (c.code % 16)]
  else [c]

/-- `encode_basestring` -/
def quote (s : Str) : Str := .char '"' :: (s.flatMap escape ++ [.char '"'])

/-- `str(n)` -/
def intRepr (n : Int) : List Char :=
  if n < 0 then '-' :: Nat.toDigits 10 n.natAbs else Nat.toDigits 10 n.natAbs

def floatRepr (ff : FloatFormat F) : PyFloat F → List Char
  | .nan => "NaN".toList
  | .inf false => "Infinity".toList
  | .inf true => "-Infinity".toList
  | .fin x => ff.repr x

mutual

/-- The text of a value, members in the order they stand. -/
def render (ff : FloatFormat F) : Value F → Str
  | .null => chars "null".toList
  | .bool true => chars "true".toList
  | .bool false => chars "false".toList
  | .int n => chars (intRepr n)
  | .float x => chars (floatRepr ff x)
  | .str s => quote s
  | .arr [] => chars ['[', ']']
  | .arr (x :: xs) => .char '[' :: (render ff x ++ renderElems ff xs)
  | .obj [] => chars ['\x7b', '\x7d']
  | .obj ((k, v) :: ms) =>
    .char '\x7b' :: (quote k ++ .char ':' :: (render ff v ++ renderMembers ff ms))

/-- The elements after the first, and the closing bracket. -/
def renderElems (ff : FloatFormat F) : List (Value F) → Str
  | [] => chars [']']
  | x :: xs => .char ',' :: (render ff x ++ renderElems ff xs)

/-- The members after the first, and the closing brace. -/
def renderMembers (ff : FloatFormat F) : List (Str × Value F) → Str
  | [] => chars ['\x7d']
  | (k, v) :: ms => .char ',' :: (quote k ++ .char ':' :: (render ff v ++ renderMembers ff ms))

end

/-- `str` and `int` refuse integers of more than 4300 digits. -/
@[irreducible] def maxDigits : Nat := 4300

/-- The least number with too many digits. -/
@[irreducible] def digitBound : Nat := 10 ^ maxDigits

mutual

/-- Can every integer of the value be written? -/
def Value.writable : Value F → Bool
  | .int n => decide (n.natAbs < digitBound)
  | .arr xs => writableElems xs
  | .obj ms => writableMembers ms
  | _ => true

def writableElems : List (Value F) → Bool
  | [] => true
  | x :: xs => x.writable && writableElems xs

def writableMembers : List (Str × Value F) → Bool
  | [] => true
  | (_, v) :: ms => v.writable && writableMembers ms

end

/-! ## Reading -/

/-- What is left of `s` after the word `w`, if it starts with it. -/
def dropWord (w : List Char) (s : Str) : Option Str :=
  if chars w <+: s then some (s.drop w.length) else none

def isSpace (c : CodePoint) : Bool :=
  c = .char ' ' || c = .char '\t' || c = .char '\n' || c = .char '\r'

def skipSpace (s : Str) : Str := s.dropWhile isSpace

/-- The digits `s` starts with, and the rest. -/
def digits : Str → List Char × Str
  | .char c :: s =>
    if c.isDigit then (c :: (digits s).1, (digits s).2) else ([], .char c :: s)
  | s => ([], s)

/-- A sequence of digits that must not be empty. -/
def digits1 (s : Str) : Option (List Char × Str) :=
  if (digits s).1 = [] then none else some (digits s)

def sign (s : Str) : List Char × Str :=
  match s with
  | .char '-' :: s => (['-'], s)
  | s => ([], s)

/-- `0`, or digits that do not start with `0`. -/
def intPart (s : Str) : Option (List Char × Str) :=
  match s with
  | .char '0' :: s => some (['0'], s)
  | s => digits1 s

def fracPart (s : Str) : List Char × Str :=
  match s with
  | .char '.' :: t => ((digits1 t).map fun p => ('.' :: p.1, p.2)).getD ([], s)
  | s => ([], s)

def expSign (s : Str) : List Char × Str :=
  match s with
  | .char '+' :: s => (['+'], s)
  | .char '-' :: s => (['-'], s)
  | s => ([], s)

def expPart (s : Str) : List Char × Str :=
  match s with
  | .char c :: t =>
    if c = 'e' ∨ c = 'E' then
      ((digits1 (expSign t).2).map fun p => (c :: ((expSign t).1 ++ p.1), p.2)).getD ([], s)
    else ([], s)
  | s => ([], s)

/-- `int(s)` on an integer literal, `none` where it has too many digits. -/
def intValue (sgn digits : List Char) : Option Int :=
  if maxDigits < digits.length then none
  else if sgn = [] then some (Nat.ofDigitChars 10 digits 0)
  else some (-Nat.ofDigitChars 10 digits 0)

/-- `_match_number_unicode` -/
def number (ff : FloatFormat F) (s : Str) : Option (Value F × Str) := do
  let (sgn, s) := sign s
  let (int, s) ← intPart s
  let (frac, s) := fracPart s
  let (exp, s) := expPart s
  if frac = [] ∧ exp = [] then
    let n ← intValue sgn int
    return (.int n, s)
  else return (.float (ff.parse (sgn ++ int ++ frac ++ exp)), s)

def hexValue (c : CodePoint) : Option Nat :=
  match c with
  | .char c => "0123456789abcdef".toList.idxOf? c.toLower
  | .surrogate _ => none

def hex4 : Str → Option (Nat × Str)
  | a :: b :: c :: d :: s => do
    let p ← hexValue a
    let q ← hexValue b
    let r ← hexValue c
    let t ← hexValue d
    return (4096 * p + 256 * q + 16 * r + t, s)
  | _ => none

/-- The code point of `\uXXXX`; an escaped surrogate pair is one code point. -/
def unicodeEscape (s : Str) : Option (CodePoint × Str) := do
  let (u, rest) ← hex4 s
  if 0xD800 ≤ u ∧ u < 0xDC00 then
    match (dropWord ['\\', 'u'] rest).bind hex4 with
    | some (l, rest') =>
      if 0xDC00 ≤ l ∧ l < 0xE000 then
        return (.ofCode (0x10000 + 1024 * (u - 0xD800) + (l - 0xDC00)), rest')
      else return (.ofCode u, rest)
    | none => return (.ofCode u, rest)
  else return (.ofCode u, rest)

/-- The character of a one-letter escape. -/
def backslash : Char → Option Char
  | '"' => some '"'
  | '\\' => some '\\'
  | '/' => some '/'
  | 'b' => some (Char.ofNat 8)
  | 'f' => some (Char.ofNat 12)
  | 'n' => some '\n'
  | 'r' => some '\r'
  | 't' => some '\t'
  | _ => none

/-- One code point of a string literal, `strict=True`. -/
def scanChar : Str → Option (CodePoint × Str)
  | .char '\\' :: .char 'u' :: s => unicodeEscape s
  | .char '\\' :: .char c :: s => (backslash c).map fun d => (.char d, s)
  | .char '\\' :: _ => none
  | c :: s => if c.code < 32 then none else some (c, s)
  | [] => none

/-- The rest of a string literal, after its opening quote. -/
def scanString : Nat → Str → Option (Str × Str)
  | 0, _ => none
  | n + 1, s =>
    match s with
    | .char '"' :: s => some ([], s)
    | s => do
      let (c, s) ← scanChar s
      let (cs, s) ← scanString n s
      return (c :: cs, s)

/-- The constants. -/
def words : List (List Char × Value F) :=
  [("null".toList, .null), ("true".toList, .bool true), ("false".toList, .bool false),
    ("NaN".toList, .float .nan), ("Infinity".toList, .float (.inf false)),
    ("-Infinity".toList, .float (.inf true))]

/-- The constant `s` starts with. -/
def constant (s : Str) : Option (Value F × Str) :=
  words.findSome? fun p => (dropWord p.1 s).map fun rest => (p.2, rest)

mutual

/-- `scan_once` -/
def scanOnce (ff : FloatFormat F) : Nat → Str → Option (Value F × Str)
  | 0, _ => none
  | n + 1, s =>
    match s with
    | .char '"' :: s => (scanString n s).map fun p => (.str p.1, p.2)
    | .char '\x7b' :: s =>
      match skipSpace s with
      | .char '\x7d' :: s => some (.obj [], s)
      | s => (scanMembers ff n s).map fun p => (.obj (dict p.1), p.2)
    | .char '[' :: s =>
      match skipSpace s with
      | .char ']' :: s => some (.arr [], s)
      | s => (scanElems ff n s).map fun p => (.arr p.1, p.2)
    | s => (constant s).or (number ff s)

/-- The elements of an array, from one of them on. -/
def scanElems (ff : FloatFormat F) : Nat → Str → Option (List (Value F) × Str)
  | 0, _ => none
  | n + 1, s => do
    let (v, s) ← scanOnce ff n s
    match skipSpace s with
    | .char ',' :: s => (scanElems ff n (skipSpace s)).map fun p => (v :: p.1, p.2)
    | .char ']' :: s => some ([v], s)
    | _ => none

/-- The members of an object, from one of them on. -/
def scanMembers (ff : FloatFormat F) : Nat → Str → Option (List (Str × Value F) × Str)
  | 0, _ => none
  | n + 1, s => do
    let s ← dropWord ['"'] s
    let (k, s) ← scanString n s
    let s ← dropWord [':'] (skipSpace s)
    let (v, s) ← scanOnce ff n (skipSpace s)
    match skipSpace s with
    | .char ',' :: s => (scanMembers ff n (skipSpace s)).map fun p => ((k, v) :: p.1, p.2)
    | .char '\x7d' :: s => some ([(k, v)], s)
    | _ => none

end

/-- `JSONDecoder.decode`, `none` for `JSONDecodeError` (or `ValueError` from `int`). -/
def parse (ff : FloatFormat F) (s : Str) : Option (Value F) := do
  let (v, rest) ← scanOnce ff (s.length + 1) (skipSpace s)
  if skipSpace rest = [] then some v else none

/-! ## Bytes -/

/-- `json.dumps(v, ensure_ascii=False, separators=(",", ":"), sort_keys=True)`, `none` for the
    `ValueError` of an integer with too many digits. -/
def dumps (ff : FloatFormat F) (v : Value F) : Option Str :=
  if v.sortKeys.writable then some (render ff v.sortKeys) else none

/-- UTF-8 with encoded surrogates let through. -/
def decodeSurrogates : Nat → List UInt8 → Option Str
  | _, [] => some []
  | 0, _ => none
  | n + 1, b =>
    match b.take 3 with
    | [0xED, x, y] =>
      if 0xA0 ≤ x.toNat ∧ x.toNat < 0xC0 ∧ 0x80 ≤ y.toNat ∧ y.toNat < 0xC0 then
        (decodeSurrogates n (b.drop 3)).map
          (.surrogate (Fin.ofNat 2048 ((x.toNat - 0xA0) * 64 + (y.toNat - 0x80))) :: ·)
      else (Utf8.decode [0xED, x, y]).bind fun cs =>
        (decodeSurrogates n (b.drop 3)).map (chars cs ++ ·)
    | _ => [1, 2, 3, 4].findSome? fun k =>
        (Utf8.decode (b.take k)).bind fun cs =>
          if cs.length = 1 then (decodeSurrogates n (b.drop k)).map (chars cs ++ ·) else none

/-- `b.decode("utf-8", "surrogatepass")` -/
def decodeUtf8 (b : List UInt8) : Option Str :=
  match Utf8.decode b with
  | some s => some (chars s)
  | none => decodeSurrogates b.length b

def codePoint? (n : Nat) : Option CodePoint := if n < 0x110000 then some (.ofCode n) else none

/-- UTF-32 with surrogates let through. -/
def decodeUtf32 (big : Bool) : List UInt8 → Option Str
  | [] => some []
  | a :: b :: c :: d :: rest => do
    let (w, x, y, z) := if big then (a, b, c, d) else (d, c, b, a)
    let p ← codePoint? (16777216 * w.toNat + 65536 * x.toNat + 256 * y.toNat + z.toNat)
    let s ← decodeUtf32 big rest
    return p :: s
  | _ => none

def units (big : Bool) : List UInt8 → Option (List Nat)
  | [] => some []
  | a :: b :: rest =>
    (units big rest).map ((if big then 256 * a.toNat + b.toNat else 256 * b.toNat + a.toNat) :: ·)
  | _ => none

/-- Surrogate pairs joined, lone surrogates let through. -/
def joinUnits : List Nat → Str
  | h :: l :: rest =>
    if 0xD800 ≤ h ∧ h < 0xDC00 ∧ 0xDC00 ≤ l ∧ l < 0xE000 then
      .ofCode (0x10000 + 1024 * (h - 0xD800) + (l - 0xDC00)) :: joinUnits rest
    else .ofCode h :: joinUnits (l :: rest)
  | [h] => [.ofCode h]
  | [] => []

def decodeUtf16 (big : Bool) (b : List UInt8) : Option Str := (units big b).map joinUnits

/-- `b.decode(detect_encoding(b), "surrogatepass")` -/
def decodeBytes (b : List UInt8) : Option Str :=
  if [0x00, 0x00, 0xFE, 0xFF] <+: b then decodeUtf32 true (b.drop 4)
  else if [0xFF, 0xFE, 0x00, 0x00] <+: b then decodeUtf32 false (b.drop 4)
  else if [0xFE, 0xFF] <+: b then decodeUtf16 true (b.drop 2)
  else if [0xFF, 0xFE] <+: b then decodeUtf16 false (b.drop 2)
  else if [0xEF, 0xBB, 0xBF] <+: b then decodeUtf8 (b.drop 3)
  else match b with
    | b0 :: b1 :: b2 :: b3 :: _ =>
      if b0 = 0 then if b1 = 0 then decodeUtf32 true b else decodeUtf16 true b
      else if b1 = 0 then
        if b2 = 0 ∧ b3 = 0 then decodeUtf32 false b else decodeUtf16 false b
      else decodeUtf8 b
    | [b0, b1] =>
      if b0 = 0 then decodeUtf16 true b
      else if b1 = 0 then decodeUtf16 false b
      else decodeUtf8 b
    | _ => decodeUtf8 b

/-- `json.loads(b)`, `none` for `ValueError`. -/
def loads (ff : FloatFormat F) (b : List UInt8) : Option (Value F) :=
  (decodeBytes b).bind (parse ff)

end Kit.Json
