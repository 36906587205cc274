/-
  Authenticated encryption with associated data, as a pair of functions on bytes `B`.

  The laws are predicates, to be assumed of a particular scheme: `Correct` (decryption inverts
  encryption), `KeyBound` and `AadBound` (a ciphertext opens under no other key, and under no
  other associated data), `Bound` (nor under another pair of them). `Genuine` speaks of one
  ciphertext: it opens only if it was made by one of the encryptions of a log.
-/
import Mathlib.Tactic.TypeStar

namespace Kit

/-- An AEAD scheme; `decrypt` answers `none` where the tag does not match. -/
structure Aead (B : Type) where
  encrypt : (key nonce data aad : B) → B
  decrypt : (key nonce ciphertext aad : B) → Option B

/-- The arguments of one encryption. -/
structure Sealing (B : Type) where
  key : B
  nonce : B
  data : B
  aad : B
  deriving DecidableEq

namespace Aead

variable {B : Type} (A : Aead B)

/-- Decryption inverts encryption for equal key, nonce and associated data. -/
def Correct : Prop := ∀ k n p a, A.decrypt k n (A.encrypt k n p a) a = some p

/-- A ciphertext opens only under the key it was made with. -/
def KeyBound : Prop :=
  ∀ k n p a k' q, A.decrypt k' n (A.encrypt k n p a) a = some q → k' = k

/-- A ciphertext opens only under the associated data it was made with. -/
def AadBound : Prop :=
  ∀ k n p a a' q, A.decrypt k n (A.encrypt k n p a) a' = some q → a' = a

/-- A ciphertext opens only under the key and the associated data it was made with. -/
def Bound : Prop :=
  ∀ k n p a k' a' q, A.decrypt k' n (A.encrypt k n p a) a' = some q → k' = k ∧ a' = a

/-- The ciphertext `c` opens under `k`, `n` and `a` only if an encryption of the log made it. -/
def Genuine (log : List (Sealing B)) (k n c a : B) : Prop :=
  ∀ p, A.decrypt k n c a = some p → ⟨k, n, p, a⟩ ∈ log ∧ c = A.encrypt k n p a

variable {A}

theorem Bound.keyBound (hb : A.Bound) : A.KeyBound := fun _ _ _ _ _ _ h =>
  (hb _ _ _ _ _ _ _ h).1

/-- What opens a ciphertext opens it to the plaintext it was made of. -/
theorem Correct.decrypt_eq (hc : A.Correct) {k n p a q : B}
    (h : A.decrypt k n (A.encrypt k n p a) a = some q) : q = p := by
  rw [hc] at h
  exact (Option.some.inj h).symm

end Aead

end Kit
