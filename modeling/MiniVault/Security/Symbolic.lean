/-
  The service over symbolic terms. Texts, octets and JSON values are all terms; cryptography is
  a constructor. Tests on texts and the cutting of texts into parts are left open: a `Reading`
  answers them in any way, as long as the parts are ones that any holder of the text can make.
-/
import MiniVault.Kit.DolevYao
import MiniVault.Model.Router

namespace MiniVault

open Kit DolevYao

/-- How the service tests and reads texts. -/
structure Reading (A : Type) where
  truthy : Term A → Bool
  le : Term A → Term A → Bool
  len : Term A → Nat
  validatePassphrase : Term A → Except Exc Unit
  validateKeyName : Term A → Except Exc Unit
  validatePath : (path email : Term A) → Except Exc Unit
  renders : Term A → Bool
  normalizeEmail : Term A → Term A
  normalizeEmail_derives : ∀ t, Derives {t} (normalizeEmail t)
  envelopeName : Term A → Term A
  envelopeName_derives : ∀ t, Derives {t} (envelopeName t)
  readEnvelope : Term A → Except Exc (Nat × Term A × Term A)
  readEnvelope_derives : ∀ {t n name blob}, readEnvelope t = .ok (n, name, blob) →
    Derives {t} name ∧ Derives {t} blob
  dumps : Term A → Except Exc (Term A)
  dumps_derives : ∀ {t raw}, dumps t = .ok raw → Derives {t} raw
  loads : Term A → Except Exc (Term A)
  loads_derives : ∀ {raw t}, loads raw = .ok t → Derives {raw} t

variable {A : Type} [DecidableEq A]

/-- The operations of the services over terms. -/
def symbolic (X : Reading A) : Prims (Term A) (Term A) (Term A) where
  lit := .const
  fstr := List.foldr .cat (.const "")
  str := .num
  truthy := X.truthy
  le := X.le
  encode := .code "utf-8"
  len := X.len
  append := .cat
  -- octets are cut where they were put together, and nowhere else
  take n
    | .cat s t => if X.len s = n then s else .cat s t
    | t => t
  drop n
    | .cat s t => if X.len s = n then t else .cat s t
    | t => t
  b64encode := .code "base64"
  b64decode
    | .code name t => if name = "base64" then some t else none
    | _ => none
  sha256 := .hash
  hex := .code "hex"
  isoformat aware t := .cat (.num t) (.const (if aware then "+00:00" else ""))
  normalizeEmail := X.normalizeEmail
  validatePassphrase := X.validatePassphrase
  validateKeyName := X.validateKeyName
  validatePath := X.validatePath
  readEnvelope := X.readEnvelope
  envelopeName := X.envelopeName
  dumps := X.dumps
  loads := X.loads
  renders := X.renders
  aesgcm :=
    { encrypt := .aead
      decrypt := fun key nonce ciphertext aad =>
        match ciphertext with
        | .aead k n p a => if k = key ∧ n = nonce ∧ a = aad then some p else none
        | _ => none }
  defaultParams :=
    .const "\x7b\"time_cost\": 3, \"memory_cost\": 65536, \"parallelism\": 2, \"hash_len\": 32\x7d"
  deriveKey := .kdf
  publicKey := .pub
  sign := .sig
  verify publicKey signature message :=
    match signature with
    | .sig k m => publicKey = .pub k ∧ m = message
    | _ => false
  hashPassword salt password := .cat salt (.kdf password salt (.const "$argon2id$"))
  verifyPassword hash password :=
    match hash with
    | .cat _ (.kdf p _ _) => p = password
    | _ => false

section Decoding

variable {X : Reading A}

theorem symbolic_b64decode {t u : Term A} (h : (symbolic X).b64decode t = some u) :
    t = .code "base64" u := by
  cases t with
  | code name t =>
    change (if name = "base64" then some t else none) = some u at h
    split_ifs at h with hname
    rw [hname, Option.some.inj h]
  | _ => cases h

theorem symbolic_decrypt {k n c a p : Term A} (h : (symbolic X).aesgcm.decrypt k n c a = some p) :
    c = .aead k n p a := by
  cases c with
  | aead k' n' p' a' =>
    change (if k' = k ∧ n' = n ∧ a' = a then some p' else none) = some p at h
    split_ifs at h with heq
    obtain ⟨rfl, rfl, rfl⟩ := heq
    rw [Option.some.inj h]
  | _ => cases h

theorem symbolic_drop_derives (n : Nat) (t : Term A) : Derives {t} ((symbolic X).drop n t) := by
  cases t with
  | cat s t =>
    show Derives _ (if X.len s = n then t else .cat s t)
    split
    · exact .right (.known rfl)
    · exact .known rfl
  | _ => exact .known rfl

end Decoding

end MiniVault
