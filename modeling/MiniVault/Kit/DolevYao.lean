/-
  Symbolic cryptography: terms over atoms, what an attacker derives from a set of terms, and the
  closed-set method for secrecy.

  Some atoms are secret; some of the secret ones are payload keys, whose ciphertexts never hold
  a secret. A term is `Exposable` if the attacker may hold it without harm. The exposable
  terms are closed under derivation (`Derives.exposable`), so that a system that shows nothing
  else keeps its secrets.
-/
import Mathlib.Data.Set.Basic

namespace Kit.DolevYao

/-- Terms over atoms. -/
inductive Term (A : Type) where
  /-- a random value, a secret, or data of a client -/
  | atom (a : A)
  /-- a public text -/
  | const (c : String)
  /-- a public number -/
  | num (n : Int)
  /-- concatenation -/
  | cat (s t : Term A)
  /-- an encoding that anyone can undo -/
  | code (name : String) (t : Term A)
  | hash (t : Term A)
  /-- a key derived from a passphrase, a salt and parameters -/
  | kdf (passphrase salt params : Term A)
  /-- an authenticated ciphertext -/
  | aead (key nonce data aad : Term A)
  /-- the public part of a private key -/
  | pub (key : Term A)
  | sig (key message : Term A)
  deriving DecidableEq

variable {A : Type}

/-- What an attacker who knows the terms of `K` can make. -/
inductive Derives (K : Set (Term A)) : Term A → Prop where
  | known {t} (h : t ∈ K) : Derives K t
  | const (c) : Derives K (.const c)
  | num (n) : Derives K (.num n)
  | cat {s t} (hs : Derives K s) (ht : Derives K t) : Derives K (.cat s t)
  | left {s t} (h : Derives K (.cat s t)) : Derives K s
  | right {s t} (h : Derives K (.cat s t)) : Derives K t
  | code {t} (name) (h : Derives K t) : Derives K (.code name t)
  | decode {name t} (h : Derives K (.code name t)) : Derives K t
  | hash {t} (h : Derives K t) : Derives K (.hash t)
  | kdf {p s q} (hp : Derives K p) (hs : Derives K s) (hq : Derives K q) : Derives K (.kdf p s q)
  | encrypt {k n p a} (hk : Derives K k) (hn : Derives K n) (hp : Derives K p) (ha : Derives K a) :
      Derives K (.aead k n p a)
  | decrypt {k n p a} (h : Derives K (.aead k n p a)) (hk : Derives K k) : Derives K p
  | pub {k} (h : Derives K k) : Derives K (.pub k)
  | sig {k m} (hk : Derives K k) (hm : Derives K m) : Derives K (.sig k m)
  | message {k m} (h : Derives K (.sig k m)) : Derives K m

theorem Derives.mono {K K' : Set (Term A)} {t : Term A} (h : Derives K t) (hK : K ⊆ K') :
    Derives K' t := by
  induction h with
  | known h => exact .known (hK h)
  | const c => exact .const c
  | num n => exact .num n
  | cat _ _ hs ht => exact .cat hs ht
  | left _ h => exact h.left
  | right _ h => exact h.right
  | code name _ h => exact .code name h
  | decode _ h => exact h.decode
  | hash _ h => exact .hash h
  | kdf _ _ _ hp hs hq => exact .kdf hp hs hq
  | encrypt _ _ _ _ hk hn hp ha => exact .encrypt hk hn hp ha
  | decrypt _ _ h hk => exact h.decrypt hk
  | pub _ h => exact .pub h
  | sig _ _ hk hm => exact .sig hk hm
  | message _ h => exact h.message

/-! ## The closed-set method -/

/-- Which atoms are secret, and which of them are keys of ciphertexts that hold no secret. -/
structure Secrets (A : Type) where
  secret : A → Prop
  payload : A → Prop

variable (S : Secrets A)

/-- `k` is the key of ciphertexts that hold no secret. -/
def Payload (k : Term A) : Prop := ∃ a, k = .atom a ∧ S.payload a

/-- The attacker may hold the term: no secret can be taken out of it. -/
def Exposable : Term A → Prop
  | .atom a => ¬ S.secret a
  | .const _ => True
  | .num _ => True
  | .cat s t => Exposable s ∧ Exposable t
  | .code _ t => Exposable t
  | .hash _ => True
  | .kdf p _ _ => Exposable p
  | .aead k _ p _ => Exposable k ∨ Payload S k → Exposable p
  | .pub _ => True
  | .sig _ m => Exposable m

variable {S}

/-- Whoever is shown exposable terms only can make exposable terms only. -/
theorem Derives.exposable {K : Set (Term A)} (hK : ∀ t ∈ K, Exposable S t) {t : Term A}
    (h : Derives K t) : Exposable S t := by
  induction h with
  | known h => exact hK _ h
  | const c => trivial
  | num n => trivial
  | cat _ _ hs ht => exact ⟨hs, ht⟩
  | left _ h => exact h.1
  | right _ h => exact h.2
  | code name _ h => exact h
  | decode _ h => exact h
  | hash _ _ => trivial
  | kdf _ _ _ hp _ _ => exact hp
  | encrypt _ _ _ _ _ _ hp _ => exact fun _ => hp
  | decrypt _ _ h hk => exact h (.inl hk)
  | pub _ _ => trivial
  | sig _ _ _ hm => exact hm
  | message _ h => exact h

/-- A secret atom is out of reach, and so is every key derived from one. -/
theorem not_derives_atom {K : Set (Term A)} (hK : ∀ t ∈ K, Exposable S t) {a : A}
    (ha : S.secret a) : ¬ Derives K (.atom a) := fun h => h.exposable hK ha

theorem not_derives_kdf {K : Set (Term A)} (hK : ∀ t ∈ K, Exposable S t) {a : A}
    (ha : S.secret a) (s q : Term A) : ¬ Derives K (.kdf (.atom a) s q) :=
  fun h => h.exposable hK ha

end Kit.DolevYao
