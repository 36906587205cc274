/-
  `decrypt` on every string that a JSON body can carry. `DecryptRequest.ciphertext` is a plain
  `str` and may hold lone surrogates, which `Text` leaves out: the parser is written over code
  points here, and the query of `_find` has to encode the name that it binds.
-/
import MiniVault.Model.Concrete

namespace MiniVault

open Kit Imp

/-- A Python string. -/
abbrev PyStr : Type := Json.Str

namespace PyStr

/-- The characters of a string, `none` if it holds a lone surrogate. -/
def text? : PyStr → Option Text
  | [] => some []
  | .char c :: s => (text? s).map (c :: ·)
  | .surrogate _ :: _ => none

/-- `int(s)`; a lone surrogate is no digit. -/
def int (s : PyStr) : Option Int := (text? s).bind Text.int

/-- `b64d(value, code)`; a lone surrogate is not ASCII. -/
def b64d (value : PyStr) (code : ErrorCode := .validationError) : Except Exc Bytes :=
  match (text? value).bind Base64.decode with
  | some b => .ok b
  | none => .error (appError code "Invalid Base64 data" 400)

/-- The head of `TransitService.decrypt`. -/
def readEnvelope (envelope : PyStr) : Except Exc (Nat × PyStr × PyStr) :=
  let invalid := .error (appError .invalidCiphertext "Invalid ciphertext" 400)
  match Text.split (.char ':') 3 envelope with
  | [scheme, version, name, blob] =>
    if scheme ≠ Json.chars "vault".toList ∨ ¬ [.char 'v'] <+: version ∨ name = [] then invalid
    else match int (version.drop 1) with
      | none => invalid
      | some keyVersion => if keyVersion < 1 then invalid else .ok (keyVersion.toNat, name, blob)
  | _ => invalid

end PyStr

namespace TransitService

variable {F : Type} {L : Lib F}

/-- `_find`, and the name as the query found it: the driver encodes what it binds. -/
def findStr (email : Text) (name : PyStr) (usage : Option KeyUsage := none) :
    Py (concrete L) (TransitKey Text × Text) := do
  let _ ← requireDek
  match name.text? with
  | none => raise .unicodeEncodeError
  | some name => return (← find email name usage, name)

/-- `decrypt` -/
def decryptStr (email : Text) (ciphertext : PyStr) : Py (concrete L) Text := do
  let (keyVersion, name, blobB64) ← ofExcept (PyStr.readEnvelope ciphertext)
  let blob ← ofExcept (PyStr.b64d blobB64 .invalidCiphertext)
  if blob.length < 28 then
    raise (appError .invalidCiphertext "Invalid ciphertext" 400)
  let (key, name) ← findStr email name (some .encryptDecrypt)
  let raw ← handle
    (do
      let m ← material key (some keyVersion)
      ofExcept (MiniVault.decrypt (concrete L) m (blob.take 12) (blob.drop 12)
        (Utf8.encode (transitAad (concrete L) email name keyVersion))))
    fun x =>
      if x = .invalidTag then
        raise (appError .decryptionFailed "Ciphertext could not be decrypted" 400)
      else raise x
  return Base64.encode raw

end TransitService

end MiniVault
