/-
  Errors and clock of the service. `AppError` is `app.exceptions.AppError`; the other
  constructors of `Exc` are the library exceptions the services catch or let escape.
-/
import Mathlib.Tactic.TypeStar

namespace MiniVault

/-- The `code` strings of `AppError`. -/
inductive ErrorCode where
  | vaultLocked
  | vaultAlreadyInitialized
  | vaultNotInitialized
  | invalidMasterPassphrase
  | weakPassphrase
  | validationError
  | permissionDenied
  | unauthenticated
  | tokenExpired
  | emailAlreadyExists
  | accountLocked
  | invalidCredentials
  | notFound
  | decryptionFailed
  | keyAlreadyExists
  | keyNotFound
  | keyVersionNotFound
  | invalidKeyUsage
  | invalidCiphertext
  | invalidDigestLength
  | invalidSigningAlgorithm
  | internalError
  deriving DecidableEq, Repr

/-- `AppError(code, message, status_code)`. -/
structure AppError where
  code : ErrorCode
  message : String
  statusCode : Nat := 400
  deriving DecidableEq, Repr

/-- What a service call can raise. `binascii.Error` and `JSONDecodeError` are `ValueError`s
    and are not told apart here. -/
inductive Exc where
  | app (err : AppError)
  | invalidTag
  | valueError
  | unicodeEncodeError
  | overflowError
  | integrityError
  deriving DecidableEq, Repr

/-- `isinstance(exc, ValueError)`. -/
def Exc.isValueError : Exc → Bool
  | .valueError => true
  | .unicodeEncodeError => true
  | _ => false

/-- `raise AppError(code, message, status_code)`. -/
def appError (code : ErrorCode) (message : String) (statusCode : Nat) : Exc :=
  .app ⟨code, message, statusCode⟩

/-- `isinstance(exc, AppError)`. -/
def Exc.isAppError : Exc → Bool
  | .app _ => true
  | _ => false

/-- `datetime.now(timezone.utc)`, in microseconds. -/
abbrev Time := Nat

end MiniVault
