/-
  Sample libraries: transparent functions that satisfy every law the results of this development
  assume of the real ones, so that the laws are seen to be consistent and runs can be evaluated.

  A sample ciphertext is the plaintext behind a header spelling out key, nonce and associated
  data in a prefix code, and sixteen null octets in place of the tag.
-/
import MiniVault.Kit.JsonRoundTrip
import MiniVault.Model.Concrete
import MiniVault.Model.Service

namespace MiniVault

open Kit

namespace Sample

/-! ## AES-GCM -/

/-- A prefix code: every octet behind a one, and a zero at the end. -/
def code (b : Bytes) : Bytes := b.flatMap (fun x => [1, x]) ++ [0]

theorem code_cons (x : UInt8) (b : Bytes) : code (x :: b) = 1 :: x :: code b := rfl

theorem code_inj {a b s t : Bytes} (h : code a ++ s <+: code b ++ t) : a = b ∧ s <+: t := by
  induction a generalizing b with
  | nil =>
    cases b with
    | nil => exact ⟨rfl, (List.cons_prefix_cons.1 h).2⟩
    | cons y b => exact absurd (List.cons_prefix_cons.1 h).1 (by decide)
  | cons x a ih =>
    cases b with
    | nil => exact absurd (List.cons_prefix_cons.1 h).1 (by decide)
    | cons y b =>
      simp only [code_cons, List.cons_append, List.cons_prefix_cons, true_and] at h
      obtain ⟨rfl, hst⟩ := ih h.2
      exact ⟨by rw [h.1], hst⟩

def header (key nonce aad : Bytes) : Bytes :=
  code key ++ (code nonce ++ (code aad ++ List.replicate 16 0))

def aesgcm : Aead Bytes where
  encrypt key nonce data aad := header key nonce aad ++ data
  decrypt key nonce ciphertext aad :=
    if header key nonce aad <+: ciphertext then
      some (ciphertext.drop (header key nonce aad).length)
    else none

theorem header_inj {k k' n n' a a' s : Bytes} (h : header k' n' a' <+: header k n a ++ s) :
    k' = k ∧ n' = n ∧ a' = a := by
  simp only [header, List.append_assoc] at h
  obtain ⟨hk, h⟩ := code_inj h
  obtain ⟨hn, h⟩ := code_inj h
  exact ⟨hk, hn, (code_inj h).1⟩

theorem aesgcm_correct : aesgcm.Correct := by
  intro k n p a
  simp [aesgcm]

theorem header_of_decrypt {k n c a q : Bytes} (h : aesgcm.decrypt k n c a = some q) :
    header k n a <+: c ∧ c = header k n a ++ q := by
  simp only [aesgcm] at h
  split_ifs at h with hp
  cases h
  obtain ⟨t, rfl⟩ := hp
  simp

theorem aesgcm_bound : aesgcm.Bound := fun _ _ _ _ _ _ _ h => by
  obtain ⟨hk, -, ha⟩ := header_inj (header_of_decrypt h).1
  exact ⟨hk, ha⟩

theorem aesgcm_keyBound : aesgcm.KeyBound := aesgcm_bound.keyBound

theorem aesgcm_aadBound : aesgcm.AadBound := fun _ _ _ _ _ _ h =>
  (header_inj (header_of_decrypt h).1).2.2

/-! ## The libraries -/

def floats : Json.FloatFormat Unit where
  repr _ := ['0', '.', '0']
  parse _ := .fin ()

theorem floats_lawful : floats.Lawful := fun _ => by
  refine ⟨rfl, [], ['0'], ['.', '0'], [],
    ⟨.inl rfl, .inl rfl, .inr ⟨['0'], List.cons_ne_nil _ _, ?_, rfl⟩, .inl rfl, ?_⟩, rfl⟩
  · intro c hc
    rw [List.mem_singleton.1 hc]
    rfl
  · decide

/-- The sample libraries. -/
def lib : Lib Unit where
  aesgcm := aesgcm
  sha256 := id
  argon2 secret _ _ := (secret ++ List.replicate 32 0).take 32
  publicKey := id
  sign privateKey message := privateKey ++ message
  verify publicKey signature message := signature == publicKey ++ message
  hashPassword _ password := password
  verifyPassword hash password := hash == password
  lower := List.map Char.toLower
  floats := floats

/-! ## Environments -/

theorem rowid_fresh (ids : List Nat) : ids.foldr max 0 + 1 ∉ ids := fun hmem =>
  absurd (List.le_max_of_le' 0 hmem le_rfl) (by omega)

theorem auditId_gt (ids : List Int) : ∀ i ∈ ids, i < ids.foldr max 0 + 1 := fun _ hi =>
  lt_of_le_of_lt (List.le_max_of_le' 0 hi le_rfl) (by omega)

/-- The draws of one request, all made from one octet; ids are one more than the largest. -/
def env (seed : UInt8) : Env (concrete lib) where
  now := 1700000000000000
  nonce := List.replicate 12 seed
  nonce_len := rfl
  salt := List.replicate 16 seed
  salt_len := rfl
  dek := List.replicate 32 seed
  dek_len := rfl
  key := List.replicate 32 seed
  key_len := rfl
  passwordSalt := []
  token := ['t', Char.ofNat (48 + seed.toNat)]
  rowid ids := ids.foldr max 0 + 1
  rowid_fresh := rowid_fresh
  auditId ids := ids.foldr max 0 + 1
  auditId_gt := auditId_gt
  clientIp := none

/-- The same draws, for other libraries. -/
def withLib {F : Type} {L : Lib F} (L' : Lib F) (e : Env (concrete L)) : Env (concrete L') where
  now := e.now
  nonce := e.nonce
  nonce_len := e.nonce_len
  salt := e.salt
  salt_len := e.salt_len
  dek := e.dek
  dek_len := e.dek_len
  key := e.key
  key_len := e.key_len
  passwordSalt := e.passwordSalt
  token := e.token
  rowid := e.rowid
  rowid_fresh := e.rowid_fresh
  auditId := e.auditId
  auditId_gt := e.auditId_gt
  clientIp := e.clientIp

/-! ## Calls -/

abbrev SampleCall : Type := Env (concrete lib) × Call Text (Json.Value Unit)

/-- The same calls, for other libraries. -/
def forLib (L : Lib Unit) (is : List SampleCall) :
    List (Env (concrete L) × Call Text (Json.Value Unit)) :=
  is.map fun i => (withLib L i.1, i.2)

def passphrase : Text := "Correct-Horse-1".toList

def alice : Text := "alice@x.org".toList

def keyName : Text := "key_1".toList

/-- The calls that make a vault and open it. -/
def opening : List SampleCall :=
  [(env 1, .vaultInit passphrase passphrase), (env 2, .vaultUnlock passphrase)]

/-- The data key of that vault. -/
def dataKey : Bytes := List.replicate 32 1

def path : Text := "secret/alice@x.org/db".toList

/-- A secret with one number in it. -/
def secret (n : Int) : Json.Value Unit := .obj [(Json.chars ['v'], .int n)]

/-- The number in such a secret. -/
def numberOf : Json.Value Unit → Option Int
  | .obj [(k, .int n)] => if k = Json.chars ['v'] then some n else none
  | _ => none

theorem secret_of_numberOf {v : Json.Value Unit} {n : Int} (h : numberOf v = some n) :
    v = secret n := by
  unfold numberOf at h
  split at h
  · split_ifs at h with hk
    rw [hk, Option.some.inj h, secret]
  · cases h

/-- A path written twice. -/
def kvCalls : List SampleCall :=
  opening ++ [(env 3, .kvWrite path alice (secret 1)), (env 4, .kvWrite path alice (secret 2))]

theorem kvCalls_dek : (World.initial.after kvCalls).dek = some dataKey := by decide +kernel

theorem kvCalls_secrets : ∃ item, item ∈ (World.initial.after kvCalls).db.kvSecrets :=
  List.exists_mem_of_ne_nil _ (by decide +kernel)

/-- What `read` of a version answers, in numbers. -/
def readNumber (w : World Text Bytes) (version : Option Int) : Option (Nat × Int) :=
  ((KVService.read path alice version (env 5 : Env (concrete lib)) w.session).1.toOption.bind
    fun v => (numberOf v.value).map fun n => (v.version, n))

theorem read_of_readNumber {w : World Text Bytes} {version : Option Int} {k : Nat} {n : Int}
    (h : readNumber w version = some (k, n)) :
    ∃ v, (KVService.read path alice version (env 5 : Env (concrete lib)) w.session).1 = .ok v ∧
      v.version = k ∧ v.value = secret n := by
  unfold readNumber at h
  rcases hr : (KVService.read path alice version (env 5 : Env (concrete lib)) w.session).1
    with x | v
  · rw [hr] at h
    cases h
  · rw [hr] at h
    rcases hn : numberOf v.value with _ | m
    · simp [Except.toOption, hn] at h
    · simp only [Except.toOption, Option.bind_some, hn, Option.map_some, Option.some.injEq,
        Prod.mk.injEq] at h
      exact ⟨v, rfl, h.1, secret_of_numberOf (hn.trans (by rw [h.2]))⟩

/-- The exception that ended a computation. -/
def raised {α : Type} : Except Exc α → Option Exc
  | .error x => some x
  | .ok _ => none

theorem raised_eq_some {α : Type} {r : Except Exc α} {x : Exc} (h : raised r = some x) :
    r = .error x := by
  rcases r with y | a
  · rw [Option.some.inj h]
  · cases h

/-- A key is made. -/
def oneKeyCalls : List SampleCall := opening ++ [(env 3, .createAes alice keyName)]

/-! ## Requests -/

abbrev SampleRequest : Type := Env (concrete lib) × Request Text (Json.Value Unit)

/-- A vault is opened, a user registers and logs in. -/
def signedIn : List SampleRequest :=
  [(env 1, .vaultInit passphrase passphrase), (env 2, .vaultUnlock passphrase),
    (env 3, .register alice passphrase passphrase), (env 4, .login alice passphrase)]

/-- The token of that session. -/
def token : Text := (env 4).token

end Sample

end MiniVault
