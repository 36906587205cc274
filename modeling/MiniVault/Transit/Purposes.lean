/-
  Every key has one purpose. What `init` derives wraps the data key, the data key encrypts secrets
  and key material, the material of an encryption key makes the envelopes of its own version, and
  the material of a signing key encrypts nothing at all.
-/
import MiniVault.Plain.KeyAnswers
import MiniVault.Transit.Signatures

namespace MiniVault

open Kit

variable {T B J : Type} {P : Prims T B J}

/-! ## Purposes -/

/-- What a key is for. -/
inductive Purpose (T : Type) where
  | wrap
  | store
  | envelopes (email name : T) (version : Nat)
  | signatures (email name : T)

/-- The call drew or derived the key for the purpose. -/
inductive Introduces : (Env P × Call T J) × Except Exc (Data T J) → B → Purpose T → Prop
  | wrap (e p d) :
      Introduces ((e, .vaultInit p p), .ok d) (P.deriveKey p e.salt P.defaultParams) .wrap
  | store (e p d) : Introduces ((e, .vaultInit p p), .ok d) e.dek .store
  | createAes (e email name d) :
      Introduces ((e, .createAes email name), .ok d) e.key (.envelopes email name 1)
  | rotate (e email name m) :
      Introduces ((e, .rotate email name), .ok (.key m)) e.key
        (.envelopes email name m.currentVersion)
  | createSigning (e email name d) :
      Introduces ((e, .createSigning email name), .ok d) e.key (.signatures email name)

/-- A call of the history introduced the key for the purpose. -/
def KeyFor (h : History P) (m : B) (p : Purpose T) : Prop := ∃ x ∈ h, Introduces x m p

/-- The owner and the name of the key that a call draws material for. -/
def Call.drawsFor : Call T J → Option (T × T)
  | .createAes email name | .createSigning email name | .rotate email name => some (email, name)
  | _ => none

/-- What is encrypted under a key with the purpose: the data key, the value of a write, the
    material that a call drew, or the plaintext of a call that returned the envelope. -/
inductive Covers (h : History P) (x : Sealing B) : Purpose T → Prop
  | dataKey (haad : x.aad = dekAad P) (hdata : KeyFor h x.data .store) : Covers h x .wrap
  | secret {e path email data r} (hcall : ((e, .kvWrite path email data), r) ∈ h)
      (hdata : P.dumps data = .ok x.data) (haad : x.aad = P.encode path) : Covers h x .store
  | material {i r email name n} (hcall : (i, r) ∈ h) (hname : i.2.drawsFor = some (email, name))
      (hdata : x.data = i.1.key) (haad : x.aad = P.encode (keyAad P email name n)) :
      Covers h x .store
  | envelope {e email name plaintextB64 n}
      (hcall : ((e, .encrypt email name plaintextB64), .ok (.ciphertext (envelope P n name
        (P.append x.nonce (P.aesgcm.encrypt x.key x.nonce x.data x.aad))))) ∈ h)
      (hdata : P.b64decode plaintextB64 = some x.data)
      (haad : x.aad = P.encode (transitAad P email name n)) : Covers h x (.envelopes email name n)

section History

variable {h : History P} {m : B} {p q : Purpose T}

theorem KeyFor.concat (hm : KeyFor h m p) (x) : KeyFor (h ++ [x]) m p := by
  obtain ⟨y, hy, hyp⟩ := hm
  exact ⟨y, List.mem_append_left _ hy, hyp⟩

theorem keyFor_self {x : (Env P × Call T J) × Except Exc (Data T J)} (hx : Introduces x m p) :
    KeyFor (h ++ [x]) m p := ⟨x, List.mem_append_right _ List.mem_cons_self, hx⟩

theorem Covers.concat {x : Sealing B} (hx : Covers h x p) (y) : Covers (h ++ [y]) x p := by
  cases hx with
  | dataKey haad hdata => exact .dataKey haad (hdata.concat y)
  | secret hcall hdata haad => exact .secret (List.mem_append_left _ hcall) hdata haad
  | material hcall hname hdata haad =>
    exact .material (List.mem_append_left _ hcall) hname hdata haad
  | envelope hcall hdata haad => exact .envelope (List.mem_append_left _ hcall) hdata haad

end History

/-! ## Draws -/

/-- The keys that a call draws or derives. -/
def Call.draws (e : Env P) : Call T J → List B
  | .vaultInit p _ => [P.deriveKey p e.salt P.defaultParams, e.dek]
  | .createAes _ _ | .createSigning _ _ | .rotate _ _ => [e.key]
  | _ => []

/-- The keys that a run draws or derives are distinct. -/
def DistinctDraws (is : List (Env P × Call T J)) : Prop :=
  (is.flatMap fun i => i.2.draws i.1).Nodup

section Draws

variable {h : History P} {m : B} {p q : Purpose T}

theorem Introduces.draws {x : (Env P × Call T J) × Except Exc (Data T J)}
    (hx : Introduces x m p) : m ∈ x.1.2.draws x.1.1 := by
  cases hx with
  | wrap => exact List.mem_cons_self
  | store => exact List.mem_cons_of_mem _ List.mem_cons_self
  | _ => exact List.mem_cons_self

/-- One call introduces a key for one purpose. -/
theorem Introduces.unique {x : (Env P × Call T J) × Except Exc (Data T J)}
    (hx : Introduces x m p) (hx' : Introduces x m q) (hdistinct : (x.1.2.draws x.1.1).Nodup) :
    p = q := by
  cases hx with
  | wrap e p d =>
    generalize hm : P.deriveKey p e.salt P.defaultParams = m at hx'
    cases hx' with
    | wrap => rfl
    | store =>
      rw [Call.draws, hm, List.nodup_cons] at hdistinct
      exact absurd List.mem_cons_self hdistinct.1
  | store e p d =>
    generalize hm : e.dek = m at hx'
    cases hx' with
    | wrap =>
      rw [Call.draws, hm, List.nodup_cons] at hdistinct
      exact absurd List.mem_cons_self hdistinct.1
    | store => rfl
  | createAes => cases hx'; rfl
  | createSigning => cases hx'; rfl
  | rotate => cases hx'; rfl

/-- Where the draws are distinct, a key has one purpose. -/
theorem KeyFor.unique (hm : KeyFor h m p) (hm' : KeyFor h m q)
    (hdistinct : DistinctDraws (h.map (·.1))) : p = q := by
  obtain ⟨x, hx, hxp⟩ := hm
  obtain ⟨y, hy, hyq⟩ := hm'
  rw [DistinctDraws, List.flatMap_map] at hdistinct
  obtain rfl := Table.eq_of_flatMap hdistinct hx hy hxp.draws hyq.draws
  exact hxp.unique hyq ((List.nodup_flatMap.1 hdistinct).1 x hx)

end Draws

/-! ## The keys of the ring -/

namespace PlainKey

/-- What a version of the key is for. -/
def purpose (k : PlainKey T B) (n : Nat) : Purpose T :=
  match k.usage with
  | .encryptDecrypt => .envelopes k.owner k.name n
  | .signVerify => .signatures k.owner k.name

theorem version_fresh {e : Env P} {owner name : T} {usage : KeyUsage} {n : Nat} {m : B}
    (h : (fresh e owner name usage).version n = some m) : n = 1 ∧ m = e.key := by
  rcases n with _ | _ | n
  · cases h
  · exact ⟨rfl, (Option.some.inj h).symm⟩
  · cases h

theorem version_rotate {k : PlainKey T B} {n : Nat} {m m' : B}
    (h : (k.rotate m).version n = some m') :
    k.version n = some m' ∨ (n = k.drawn.length + 1 ∧ m' = m) := by
  rcases n with _ | n
  · cases h
  · change (k.drawn ++ [m])[n]? = some m' at h
    rcases Nat.lt_trichotomy n k.drawn.length with hlt | rfl | hgt
    · rw [List.getElem?_append_left hlt] at h
      exact .inl h
    · rw [List.getElem?_concat_length] at h
      exact .inr ⟨rfl, (Option.some.inj h).symm⟩
    · rw [List.getElem?_eq_none (by rw [List.length_append, List.length_singleton]; omega)] at h
      cases h

end PlainKey

section Ring

variable [DecidableEq T] {h : History P} {w w' : World T B} {ks : PlainKeys T B}
  {row : TransitKey T} {k : PlainKey T B} {e : Env P} {email name : T} {usage : KeyUsage} {m : B}

theorem mem_add (hk : k ∈ (ks.add (.fresh e email name usage)).keys) :
    k ∈ ks.keys ∨ k = .fresh e email name usage := by
  unfold PlainKeys.add at hk
  split at hk
  · exact .inl hk
  · rcases List.mem_append.1 hk with hk | hk
    · exact .inl hk
    · exact .inr (List.mem_singleton.1 hk)

theorem mem_change {f : PlainKey T B → PlainKey T B} (hf : ∀ k, (f k).label = k.label)
    (hk : k ∈ (ks.change email name f hf).keys) :
    k ∈ ks.keys ∨ ∃ k₀ ∈ ks.keys, k₀.label = (email, name) ∧ k = f k₀ := by
  obtain ⟨k₀, hk₀, rfl⟩ := List.mem_map.1 hk
  unfold Table.updated
  by_cases hlabel : k₀.label = (email, name)
  · rw [if_pos hlabel]
    exact .inr ⟨k₀, hk₀, hlabel, rfl⟩
  · rw [if_neg hlabel]
    exact .inl hk₀

/-- The key that `_find` returns is in the ring. -/
theorem World.HoldsKeys.ready {u : KeyUsage} (hold : w.HoldsKeys P ks)
    (hf : FindReady w.session email name (some u) row) :
    ∃ k ∈ ks.keys, k.owner = email ∧ k.name = name ∧ k.usage = u ∧ w.HoldsKey P row k := by
  have hfound : w.db.findKey email name = some row := hf.found
  rcases hold.lookup email name with ⟨hnone, -⟩ | ⟨row', k, hrow, hlookup, hholds⟩
  · cases hfound.symm.trans hnone
  obtain rfl := Option.some.inj (hfound.symm.trans hrow)
  have hlabel : k.label = (email, name) := by
    unfold PlainKeys.lookup at hlookup
    have hfirst := List.find?_some hlookup
    exact of_decide_eq_true hfirst
  obtain ⟨howner, hname⟩ := Prod.mk.inj hlabel
  exact ⟨k, List.mem_of_find?_eq_some hlookup, howner, hname,
    hholds.usage.symm.trans (hf.usageOk _ rfl), hholds⟩

/-- Every version in the ring was introduced for what it is for. -/
def RingIntroduced (h : History P) : Prop :=
  ∀ k ∈ (plainKeys h).keys, ∀ n m, k.version n = some m → KeyFor h m (k.purpose n)

theorem plainKeys_concat (h : History P) (x : (Env P × Call T J) × Except Exc (Data T J)) :
    plainKeys (h ++ [x]) = (plainKeys h).hear x := List.foldl_append

/-- A new key is introduced by its creation, a new version by its rotation. -/
theorem RingIntroduced.step (hring : RingIntroduced h) (hold : w.HoldsKeys P (plainKeys h))
    {c : Call T J} {r : Except Exc (Data T J)} (hs : Step e w c r w') :
    RingIntroduced (h ++ [((e, c), r)]) := by
  intro k hk n m hm
  rw [plainKeys_concat] at hk
  have hold' : ∀ k ∈ (plainKeys h).keys, k.version n = some m →
      KeyFor (h ++ [((e, c), r)]) m (k.purpose n) := fun k hk hm =>
    (hring k hk n m hm).concat _
  cases hs with
  | createAes =>
    rcases mem_add hk with hk | rfl
    · exact hold' k hk hm
    · obtain ⟨rfl, rfl⟩ := PlainKey.version_fresh hm
      exact keyFor_self (.createAes ..)
  | createSigning =>
    rcases mem_add hk with hk | rfl
    · exact hold' k hk hm
    · obtain ⟨rfl, rfl⟩ := PlainKey.version_fresh hm
      exact keyFor_self (.createSigning ..)
  | revoke =>
    rcases mem_change (f := .revoke) (fun _ => rfl) hk with hk | ⟨k₀, hk₀, -, rfl⟩
    · exact hold' k hk hm
    · exact hold' k₀ hk₀ hm
  | @rotate email name key dek hf hd hv =>
    rcases mem_change (f := .rotate e.key) (fun _ => rfl) hk with hk | ⟨k₀, hk₀, hlabel, rfl⟩
    · exact hold' k hk hm
    rcases PlainKey.version_rotate hm with hm | ⟨rfl, rfl⟩
    · exact hold' k₀ hk₀ hm
    obtain ⟨k₁, hk₁, rfl, rfl, husage, hholds⟩ := hold.ready hf
    obtain rfl := Table.eq_of_key (plainKeys h).distinct hk₀ hk₁ hlabel
    have hversion : (w.db.keyRotate P e key k₀.owner k₀.name dek).currentKeyNumber key.id =
        k₀.drawn.length + 1 := by
      rw [currentKeyNumber_keyRotate, hholds.current]
    have hpurpose : (k₀.rotate e.key).purpose (k₀.drawn.length + 1) =
        .envelopes k₀.owner k₀.name (k₀.drawn.length + 1) := by
      unfold PlainKey.purpose
      rw [show (k₀.rotate e.key).usage = .encryptDecrypt from husage]
      rfl
    rw [hpurpose, ← hversion]
    exact keyFor_self (.rotate e k₀.owner k₀.name _)
  | fail c x =>
    rw [hear_error] at hk
    exact hold' k hk hm
  | view d hc =>
    rw [hear_view _ e hc] at hk
    exact hold' k hk hm
  | _ => exact hold' k hk hm

end Ring

/-! ## What is encrypted -/

section Sealings

variable [DecidableEq T] {h : History P} {w w' : World T B} {e : Env P} {c : Call T J}
  {r : Except Exc (Data T J)}

/-- A call encrypts at most once, under the nonce that it draws. -/
theorem Step.sealings (hs : Step e w c r w') :
    w'.sealings = w.sealings ∨ ∃ x, w'.sealings = w.sealings ++ [x] ∧ x.nonce = e.nonce := by
  cases hs with
  | vaultInit => exact .inr ⟨_, rfl, rfl⟩
  | kvOverflow => exact .inr ⟨_, rfl, rfl⟩
  | kvCreate => exact .inr ⟨_, rfl, rfl⟩
  | kvUpdate => exact .inr ⟨_, rfl, rfl⟩
  | createAes => exact .inr ⟨_, rfl, rfl⟩
  | createSigning => exact .inr ⟨_, rfl, rfl⟩
  | rotateOverflow => exact .inr ⟨_, rfl, rfl⟩
  | rotate => exact .inr ⟨_, rfl, rfl⟩
  | encrypt => exact .inr ⟨_, rfl, rfl⟩
  | _ => exact .inl rfl

theorem nonces_sublist (w : World T B) (is : List (Env P × Call T J)) :
    List.Sublist ((w.after is).sealings.map (·.nonce))
      (w.sealings.map (·.nonce) ++ is.map (·.1.nonce)) := by
  induction is generalizing w with
  | nil =>
    rw [List.map_nil, List.append_nil]
    exact List.Sublist.refl _
  | cons i is ih =>
    refine (ih (w.call i).2).trans ?_
    rw [List.map_cons]
    rcases (step_of_call i.1 w i.2).sealings with hsame | ⟨x, hnew, hnonce⟩
    · rw [hsame]
      exact (List.Sublist.refl _).append (List.sublist_cons_self _ _)
    · rw [hnew, List.map_append, List.map_singleton, hnonce, List.append_assoc,
        List.singleton_append]

/-- What an `encrypt` call hands to the cipher is the newest version of the key. -/
theorem World.HoldsKeys.encrypts (hP : P.Lawful) {ks : PlainKeys T B}
    (hold : w.HoldsKeys P ks) {email name plaintextB64 : T}
    (hr : EncryptReady P w.session email name plaintextB64) :
    ∃ k ∈ ks.keys, k.purpose k.drawn.length = .envelopes email name k.drawn.length ∧
      k.version k.drawn.length = some hr.material ∧
      w.db.currentKeyNumber hr.key.id = k.drawn.length := by
  obtain ⟨k, hk, rfl, rfl, husage, hholds⟩ := hold.ready hr.ready
  refine ⟨k, hk, ?_, ?_, hholds.current⟩
  · unfold PlainKey.purpose
    rw [husage]
  · have hopened : w.db.material P hr.dek hr.key (some (w.db.currentKeyNumber hr.key.id)) =
        .ok hr.material := hr.opened
    rw [hholds.current, hholds.material hP husage hr.unlocked, k.version_newest] at hopened
    by_cases hn : 2 ^ 63 ≤ k.drawn.length
    · rw [if_pos hn] at hopened
      cases hopened
    · rw [if_neg hn] at hopened
      rw [k.version_newest, ← Except.ok.inj hopened]

/-- What the history says of the keys of the world it ends in. -/
structure KeysUsed (h : History P) (w : World T B) : Prop where
  loaded : w.Unkeyed ∨ ∃ d, w.Keyed P d ∧ KeyFor h d .store
  ring : RingIntroduced h
  sealings : ∀ x ∈ w.sealings, ∃ p, KeyFor h x.key p ∧ Covers h x p

theorem keysUsed_initial : KeysUsed (P := P) [] World.initial where
  loaded := .inl ⟨rfl, rfl⟩
  ring _ hk := by cases hk
  sealings _ hx := by cases hx

theorem KeysUsed.store (hu : KeysUsed h w) {d : B} (hd : w.dek = some d) : KeyFor h d .store := by
  rcases hu.loaded with hunkeyed | ⟨k, hk, hfor⟩
  · rw [hunkeyed.2] at hd
    cases hd
  · rwa [hk.loaded d hd]

theorem KeysUsed.step (hP : P.Lawful) (hold : w.HoldsKeys P (plainKeys h)) (hu : KeysUsed h w)
    (hs : Step e w c r w') : KeysUsed (h ++ [((e, c), r)]) w' := by
  refine ⟨?_, hu.ring.step hold hs, ?_⟩
  · rcases hu.loaded with hunkeyed | ⟨d, hd, hfor⟩
    · cases hs with
      | vaultInit p =>
        exact .inr ⟨e.dek, ⟨⟨e, p, rfl, rfl⟩, by rintro _ ⟨⟩⟩, keyFor_self (.store e p _)⟩
      | vaultUnlock p hc => rw [hunkeyed.1] at hc; cases hc
      | vaultLock => exact .inl ⟨hunkeyed.1, rfl⟩
      | restart => exact .inl ⟨hunkeyed.1, rfl⟩
      | _ => exact .inl hunkeyed
    · exact .inr ⟨d, hd.step hP.unlocks hs, hfor.concat _⟩
  have hkept : ∀ x ∈ w.sealings, ∃ p, KeyFor (h ++ [((e, c), r)]) x.key p ∧
      Covers (h ++ [((e, c), r)]) x p := fun x hx => by
    obtain ⟨p, hfor, hcovers⟩ := hu.sealings x hx
    exact ⟨p, hfor.concat _, hcovers.concat _⟩
  have hnew : ∀ {y : Sealing B} {p : Purpose T}, KeyFor (h ++ [((e, c), r)]) y.key p →
      Covers (h ++ [((e, c), r)]) y p → ∀ x ∈ w.sealings ++ [y],
        ∃ p, KeyFor (h ++ [((e, c), r)]) x.key p ∧ Covers (h ++ [((e, c), r)]) x p := by
    intro y p hfor hcovers x hx
    rcases List.mem_append.1 hx with hx | hx
    · exact hkept x hx
    · rw [List.mem_singleton] at hx
      exact hx ▸ ⟨p, hfor, hcovers⟩
  have hself : ((e, c), r) ∈ h ++ [((e, c), r)] := List.mem_append_right _ List.mem_cons_self
  cases hs with
  | vaultInit p =>
    exact hnew (keyFor_self (.wrap e p _)) (.dataKey rfl (keyFor_self (.store e p _)))
  | kvOverflow hw => exact hnew ((hu.store hw.unlocked).concat _) (.secret hself hw.dumped rfl)
  | kvCreate hw => exact hnew ((hu.store hw.unlocked).concat _) (.secret hself hw.dumped rfl)
  | kvUpdate hw => exact hnew ((hu.store hw.unlocked).concat _) (.secret hself hw.dumped rfl)
  | createAes hc => exact hnew ((hu.store hc.unlocked).concat _) (.material hself rfl rfl rfl)
  | createSigning hc => exact hnew ((hu.store hc.unlocked).concat _) (.material hself rfl rfl rfl)
  | rotateOverflow _ hd => exact hnew ((hu.store hd).concat _) (.material hself rfl rfl rfl)
  | rotate _ hd => exact hnew ((hu.store hd).concat _) (.material hself rfl rfl rfl)
  | encrypt hr =>
    obtain ⟨k, hk, hpurpose, hversion, hcurrent⟩ := hold.encrypts hP hr
    have hfor := hu.ring k hk _ _ hversion
    rw [hpurpose, ← hcurrent] at hfor
    exact hnew (hfor.concat _) (.envelope hself hr.decoded rfl)
  | _ => exact hkept

/-- Along every run, what is encrypted is what its key is for. -/
theorem keysUsed_run (hP : P.Lawful) (is : List (Env P × Call T J)) :
    KeysUsed (World.initial.trace is) (World.initial.after is) := by
  induction is using List.reverseRecOn with
  | nil => exact keysUsed_initial
  | append_singleton is i ih =>
    rw [show World.initial.trace (is ++ [i]) = _ from Run.trace_concat _ is i,
      show World.initial.after (is ++ [i]) = _ from Run.final_concat _ is i]
    exact ih.step hP (holdsKeys_run hP is) (step_of_call i.1 _ i.2)

end Sealings

/-! ## Main theorem -/

section Main

variable [DecidableEq T]

/-- What a `sign` call hands to Ed25519 is the material of a signing key. -/
theorem keyFor_signing (hP : P.Lawful) {is : List (Env P × Call T J)} {x : B × B}
    (hx : x ∈ (World.initial : World T B).signings is) :
    ∃ email name, KeyFor (World.initial.trace is) x.1 (.signatures email name) := by
  obtain ⟨before, i, after, rfl, hi⟩ := mem_signings hx
  obtain ⟨email, name, _, _, -, hr, hmaterial, -⟩ := signing_eq_some hi
  obtain ⟨k, hk, rfl, rfl, husage, hholds⟩ := (holdsKeys_run hP before).ready hr.ready
  have hnewest : k.newest = hr.material :=
    Except.ok.inj ((hholds.signing_material hP husage hr.unlocked).symm.trans hr.opened)
  obtain ⟨y, hy, hyp⟩ := (keysUsed_run hP before).ring k hk _ _ k.version_newest
  refine ⟨k.owner, k.name, y, ?_, ?_⟩
  · rw [show World.initial.trace (before ++ i :: after) = _ from Run.trace_append _ before _]
    exact List.mem_append_left _ hy
  · rw [← hmaterial, ← hnewest]
    have hpurpose : k.purpose k.drawn.length = .signatures k.owner k.name := by
      unfold PlainKey.purpose
      rw [husage]
    rwa [hpurpose] at hyp

end Main

/-- **One key, one purpose.** In a run whose draws are distinct, every key that encrypted
    something was introduced for exactly one purpose, and what it encrypted is of that purpose;
    what signed is the material of a signing key and encrypted nothing; and no key encrypted twice
    under one nonce. -/
theorem one_purpose {F : Type} (L : Lib F) (hcorrect : L.aesgcm.Correct)
    (hkey : L.aesgcm.KeyBound) (is : List (Env (concrete L) × Call Text (Json.Value F)))
    (hdraws : DistinctDraws is) (hnonces : (is.map (·.1.nonce)).Nodup) :
    (∀ x ∈ (World.initial.after is).sealings, ∃ p, Covers (World.initial.trace is) x p ∧
        ∀ q, KeyFor (World.initial.trace is) x.key q ↔ q = p) ∧
      (∀ s ∈ World.initial.signings is,
        (∃ email name, KeyFor (World.initial.trace is) s.1 (.signatures email name)) ∧
          ∀ x ∈ (World.initial.after is).sealings, x.key ≠ s.1) ∧
      ((World.initial.after is).sealings.map fun x => (x.key, x.nonce)).Nodup := by
  have hP := concrete_lawful hcorrect hkey
  have hused := keysUsed_run hP is
  have hdistinct : DistinctDraws ((World.initial.trace is).map (·.1)) := by
    rwa [show (World.initial.trace is).map (·.1) = is from Run.trace_map_fst _ is]
  refine ⟨fun x hx => ?_, fun s hs => ?_, ?_⟩
  · obtain ⟨p, hfor, hcovers⟩ := hused.sealings x hx
    refine ⟨p, hcovers, fun q => ⟨fun hq => hq.unique hfor hdistinct, ?_⟩⟩
    rintro rfl
    exact hfor
  · obtain ⟨email, name, hsigns⟩ := keyFor_signing hP hs
    refine ⟨⟨email, name, hsigns⟩, fun x hx heq => ?_⟩
    obtain ⟨p, hfor, hcovers⟩ := hused.sealings x hx
    rw [heq] at hfor
    obtain rfl := hfor.unique hsigns hdistinct
    cases hcovers
  · have hdrawn : ((World.initial.after is).sealings.map (·.nonce)).Nodup :=
      hnonces.sublist (nonces_sublist World.initial is)
    rw [show (fun x : Sealing Bytes => x.nonce) = Prod.snd ∘ fun x => (x.key, x.nonce) from rfl,
      ← List.map_map] at hdrawn
    exact hdrawn.of_map _

namespace Sample

/-- A vault is opened, and a key of each kind is used. -/
def bothKinds : List SampleCall :=
  opening ++ [(env 3, .createAes alice keyName), (env 4, .encrypt alice keyName "aGk=".toList),
    (env 5, .createSigning alice "key_2".toList),
    (env 6, .sign alice "key_2".toList "aGk=".toList .raw)]

end Sample

open Sample in
theorem one_purpose_sample :
    ((World.initial.after bothKinds).sealings.map (·.key)).length = 4 ∧
      (World.initial.signings bothKinds).map (·.1) = [(env 5).key] ∧
      ∀ x ∈ (World.initial.after bothKinds).sealings, x.key ≠ (env 5).key := by
  have hlength : ((World.initial.after bothKinds).sealings.map (·.key)).length = 4 := by
    decide +kernel
  have hsigned : (World.initial.signings bothKinds).map (·.1) = [(env 5).key] := by
    decide +kernel
  refine ⟨hlength, hsigned, ?_⟩
  obtain ⟨s, hs, hkey⟩ := List.mem_map.1 (hsigned ▸ List.mem_cons_self :
    (env 5).key ∈ (World.initial.signings bothKinds).map (·.1))
  rw [← hkey]
  exact ((one_purpose lib aesgcm_correct aesgcm_keyBound bothKinds (by
    unfold DistinctDraws
    decide +kernel) (by decide +kernel)).2.1 s hs).2

end MiniVault
