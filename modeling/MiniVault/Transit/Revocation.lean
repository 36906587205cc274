/-
  Revocation is for good. From the revocation of a key on, no later call revives its name or
  changes its rows, and every operation on it raises; whatever is not about this key goes on as
  if it had not been revoked.
-/
import MiniVault.Isolation.Calls

namespace MiniVault

open Kit Imp

variable {T B J : Type} {P : Prims T B J} [DecidableEq T]

/-! ## A retired key -/

/-- The key row under a name is revoked, with these version rows. -/
structure Database.Retired (db : Database T) (email name : T) (key : TransitKey T)
    (rows : List (TransitKeyVersion T)) : Prop where
  found : db.findKey email name = some key
  revoked : key.revokedAt.isSome = true
  rows : db.keyRows key.id = rows

section Retired

variable {email name : T} {key : TransitKey T} {rows : List (TransitKeyVersion T)} {e : Env P}
  {w w' : World T B} {c : Call T J} {r : Except Exc (Data T J)}

/-- A key that may be used is another one. -/
theorem Database.Retired.id_ne (h : w.db.Retired email name key rows) (hring : w.db.KeyRing P)
    {email' name' : T} {usage : Option KeyUsage} {k : TransitKey T}
    (hk : FindReady w.session email' name' usage k) : key.id ≠ k.id := by
  intro hid
  obtain ⟨hmem, -⟩ := findKey_eq_some h.found
  obtain ⟨hmem', -⟩ := findKey_eq_some hk.found
  have hrevoked := h.revoked
  rw [Table.eq_of_key hring.ids hmem hmem' hid, hk.live] at hrevoked
  cases hrevoked

/-- A new key has another id. -/
theorem Database.Retired.keyCreate (h : w.db.Retired email name key rows) (email' name' : T)
    (usage : KeyUsage) (dek : B) :
    (w.db.keyCreate P e email' name' usage dek).Retired email name key rows := by
  obtain ⟨hmem, -⟩ := findKey_eq_some h.found
  refine ⟨?_, h.revoked, ?_⟩
  · unfold Database.findKey
    rw [keyCreate_keys]
    exact Table.find?_concat h.found _
  · rw [keyRows_keyCreate e email' name' usage dek hmem]
    exact h.rows

/-- **No call touches a retired key.** -/
theorem Database.Retired.step (h : w.db.Retired email name key rows) (hring : w.db.KeyRing P)
    (hs : Step e w c r w') : w'.db.Retired email name key rows := by
  cases hs with
  | createAes =>
    rw [wrote_db]
    exact h.keyCreate _ _ _ _
  | createSigning =>
    rw [wrote_db]
    exact h.keyCreate _ _ _ _
  | revoke hk =>
    refine ⟨?_, h.revoked, h.rows⟩
    rw [findKey_keyRevoke, h.found, Option.map_some, Table.updated, if_neg (h.id_ne hring hk)]
  | rotate hk =>
    have hid := h.id_ne hring hk
    refine ⟨?_, h.revoked, ?_⟩
    · rw [wrote_db, findKey_keyRotate, h.found, Option.map_some, Table.updated, if_neg hid]
    · exact (keyRows_add_other (w.db.updateKey _ _) (Ne.symm hid)).trans h.rows
  | _ => exact ⟨h.found, h.revoked, h.rows⟩

theorem Database.Retired.after (h : w.db.Retired email name key rows) (hring : w.db.KeyRing P)
    (is : List (Env P × Call T J)) : (w.after is).db.Retired email name key rows :=
  (Run.invariant_final (I := fun w : World T B => w.db.Retired email name key rows ∧ w.db.KeyRing P)
    ⟨h, hring⟩ (fun w i h =>
      have hs := step_of_call i.1 w i.2
      ⟨h.1.step h.2 hs, h.2.step hs⟩) is).1

/-- A revocation that goes through retires the key. -/
theorem retired_of_revoke {d : Data T J}
    (h : w.call (e, .revoke email name) = (.ok d, w')) :
    ∃ key, w'.db.Retired email name key (w'.db.keyRows key.id) := by
  have hs := step_of_call e w (.revoke email name : Call T J)
  rw [h] at hs
  cases hs with
  | view _ hc => cases hc
  | @revoke _ _ k hk =>
    refine ⟨{ k with revokedAt := some e.now }, ?_, rfl, rfl⟩
    rw [findKey_keyRevoke, show w.db.findKey email name = some k from hk.found, Option.map_some,
      Table.updated, if_pos rfl]

end Retired

/-! ## Refusals -/

/-- The operation raises an `AppError`. -/
def Raises {α : Type} (m : Py P α) (e : Env P) (s : Proc T B) : Prop :=
  ∃ err, (m e s).1 = .error (.app err)

section Refusals

variable {email name : T} {key : TransitKey T} {rows : List (TransitKeyVersion T)} {e : Env P}
  {s : Proc T B} {w : World T B} {c : Call T J}

omit [DecidableEq T] in
theorem Raises.bind {α β : Type} {m : Py P α} (h : Raises m e s) (f : α → Py P β) :
    Raises (m >>= f) e s := by
  obtain ⟨err, herr⟩ := h
  refine ⟨err, ?_⟩
  rw [bind_apply]
  rcases hm : m e s with ⟨x | a, s'⟩
  · rw [hm] at herr
    exact congrArg Except.error (Except.error.inj herr)
  · rw [hm] at herr
    cases herr

/-- `_find` does not hand out a retired key. -/
theorem find_retired (h : s.db.Retired email name key rows) (usage : Option KeyUsage) :
    Raises (TransitService.find email name usage) e s := by
  unfold Raises TransitService.find
  rcases hd : s.dek with _ | dek
  · simp [requireDek_of_none hd, appError]
  · have hsome : key.revokedAt.isSome = true := h.revoked
    simp [requireDek_of_some hd, h.found, hsome, appError]

/-- Nor can a key of that name be created. -/
theorem create_retired (h : s.db.Retired email name key rows) (hring : s.db.KeyRing P) :
    Raises (TransitService.createAes email name) e s ∧
      Raises (TransitService.createSigning email name) e s := by
  obtain ⟨hmem, -, hname⟩ := findKey_eq_some h.found
  have hvalid := hring.named key hmem
  rw [hname] at hvalid
  unfold Raises TransitService.createAes TransitService.createSigning
  rcases hd : s.dek with _ | dek
  · simp [hvalid, requireDek_of_none hd, appError]
  · simp [hvalid, requireDek_of_some hd, h.found, appError]

/-- An envelope is read before the key is looked up. -/
theorem decrypt_retired (h : s.db.Retired email name key rows) {ciphertext blobB64 : T}
    {version : Nat} (hread : P.readEnvelope ciphertext = .ok (version, name, blobB64)) :
    Raises (TransitService.decrypt email ciphertext) e s := by
  obtain ⟨err, hfind⟩ := find_retired (e := e) h (some .encryptDecrypt)
  unfold Raises TransitService.decrypt
  rcases hb : P.b64decode blobB64 with _ | blob
  · simp [hread, b64d, hb, appError]
  by_cases hl : P.len blob < 28
  · simp [hread, b64d, hb, hl, appError]
  rcases hm : TransitService.find (P := P) email name (some .encryptDecrypt) e s with ⟨x | k, s'⟩
  · rw [hm] at hfind
    simp [hread, b64d, hb, hl, hm, Except.error.inj hfind]
  · rw [hm] at hfind
    cases hfind

/-- **Every call on a retired key raises.** -/
theorem call_retired (h : w.db.Retired email name key rows) (hring : w.db.KeyRing P) (e : Env P)
    (hc : c.key? P = some (email, name)) : ∃ err, (w.call (e, c)).1 = .error (.app err) := by
  have hcreate := create_retired (s := w.session) (e := e) h hring
  have hfind := find_retired (s := w.session) (e := e) h
  show Raises c.run e w.session
  cases c with
  | createAes =>
    cases hc
    exact hcreate.1.bind _
  | createSigning =>
    cases hc
    exact hcreate.2.bind _
  | keyGet =>
    cases hc
    exact ((hfind none).bind _).bind _
  | revoke =>
    cases hc
    exact ((hfind none).bind _).bind _
  | rotate =>
    cases hc
    exact ((hfind _).bind _).bind _
  | encrypt =>
    cases hc
    exact ((hfind _).bind _).bind _
  | decrypt email' ciphertext =>
    rw [Call.key?_decrypt] at hc
    rcases hread : P.readEnvelope ciphertext with x | ⟨version, name', blobB64⟩
    · rw [hread] at hc
      cases hc
    · rw [hread] at hc
      cases hc
      exact (decrypt_retired (s := w.session) h hread).bind _
  | sign =>
    cases hc
    exact ((hfind _).bind _).bind _
  | verify =>
    cases hc
    exact ((hfind _).bind _).bind _
  | _ => cases hc

end Refusals

/-! ## Everything else -/

/-- All but one key. -/
def Scope.without (email name : T) : Scope T where
  users _ := true
  keys owner name' := !decide (owner = email ∧ name' = name)

/-- A listing without a name; any other answer as it is. -/
def Data.without (name : T) : Data T J → Data T J
  | .keys ms => .keys (ms.filter fun m => m.keyName ≠ name)
  | d => d

/-- The answers of two runs to the same call, with the key `name` of `email` revoked in the first:
    calls about that key aside, they are equal, up to its name in the listing of its owner. -/
def Unaffected (P : Prims T B J) (email name : T)
    (x y : (Env P × Call T J) × Except Exc (Data T J)) : Prop :=
  x.1 = y.1 ∧
    (x.1.2.key? P ≠ some (email, name) → x.1.2 ≠ .keyList email → x.2 = y.2) ∧
    (x.1.2 = .keyList email → x.2 = y.2.map (Data.without name))

section Unaffected

variable {email name : T} {key : TransitKey T} {rows : List (TransitKeyVersion T)} {e : Env P}
  {w w' : World T B} {c : Call T J}

theorem without_keys {owner name' : T} (h : (owner, name') ≠ (email, name)) :
    (Scope.without email name).keys owner name' = true := by
  have hne : ¬ (owner = email ∧ name' = name) := fun heq => h (Prod.ext heq.1 heq.2)
  exact congrArg not (decide_eq_false hne)

theorem without_self : (Scope.without email name).keys email name = false :=
  congrArg not (decide_eq_true ⟨rfl, rfl⟩)

theorem without_closed {good : T → Prop} : (Scope.without email name).Closed P good :=
  fun _ _ _ _ _ _ _ => rfl

/-- Only its owner could miss the key in a listing. -/
theorem hide_without (h : c ≠ .keyList email) (r : Except Exc (Data T J)) :
    c.hide (Scope.without email name) r = r := by
  unfold Call.hide
  split
  · rename_i owner ms
    have hne : owner ≠ email := fun heq => h (by rw [heq])
    have hall : ∀ m ∈ ms, (Scope.without email name).keys owner m.keyName = true :=
      fun m _ => without_keys fun heq => hne (congrArg Prod.fst heq)
    rw [List.filter_eq_self.2 hall]
  · rfl

theorem hide_keyList (r : Except Exc (Data T J)) :
    (Call.keyList email).hide (Scope.without email name) r = r.map (Data.without name) := by
  have hfilter : ∀ ms : List (KeyMetadata T),
      (ms.filter fun m => (Scope.without email name).keys email m.keyName) =
        ms.filter fun m => m.keyName ≠ name := by
    intro ms
    refine List.filter_congr fun m _ => ?_
    show (!decide (email = email ∧ m.keyName = name)) = _
    simp
  rcases r with x | d
  · rfl
  · cases d with
    | keys ms => exact congrArg (fun ms => Except.ok (Data.keys ms)) (hfilter ms)
    | _ => rfl

/-- A listing never shows a retired key. -/
theorem keyList_retired (h : w.db.Retired email name key rows)
    (hnames : (w.db.transitKeys.map fun k => (k.ownerEmail, k.keyName)).Nodup)
    {ms : List (KeyMetadata T)} (hm : (w.call (e, .keyList email)).1 = .ok (.keys ms)) :
    ∀ m ∈ ms, m.keyName ≠ name := by
  obtain ⟨hmem, howner, hname⟩ := findKey_eq_some h.found
  rcases hd : w.dek with _ | dek
  · have hlocked : TransitService.list email e w.session =
        (.error (appError .vaultLocked "Vault is locked" 423), w.session) := by
      simp [TransitService.list, requireDek_of_none (show w.session.dek = none from hd)]
    rw [call_eq (c := Call.keyList email) rfl hlocked] at hm
    cases hm
  · rw [call_eq (c := Call.keyList email) rfl
      (keyList_apply (show w.session.dek = some dek from hd) email e)] at hm
    cases hm
    rintro m hm rfl
    obtain ⟨k, hk, rfl⟩ := List.mem_map.1 hm
    obtain ⟨hk, hlive⟩ := List.mem_filter.1 hk
    rw [decide_eq_true_eq] at hlive
    have heq : k = key := Table.eq_of_key hnames hk hmem
      (Prod.ext (hlive.1.trans howner.symm) hname.symm)
    have hrevoked := h.revoked
    rw [← heq, hlive.2] at hrevoked
    cases hrevoked

/-- One call in two runs that differ in the state of one key. -/
theorem twins_call (h : w.Twins (Scope.without email name) w')
    (hw : w.Sound P fun _ => True) (hw' : w'.Sound P fun _ => True) (i : Env P × Call T J) :
    (i.2.key? P ≠ some (email, name) →
        i.2.hide (Scope.without email name) (w.call i).1 =
          i.2.hide (Scope.without email name) (w'.call i).1) ∧
      (w.call i).2.Twins (Scope.without email name) (w'.call i).2 := by
  obtain ⟨e, c⟩ := i
  by_cases hc : c.key? P = some (email, name)
  · have hhidden : c.Hidden P (Scope.without email name) := Call.hidden_of_key hc without_self
    have hleft := (step_of_call e w c).hidden hhidden hw.shaped without_closed fun _ _ => trivial
    have hright := (step_of_call e w' c).hidden hhidden hw'.shaped without_closed
      fun _ _ => trivial
    exact ⟨fun hne => (hne hc).elim, (hleft.symm.trans h).trans hright⟩
  · have hvis : c.Visible P (Scope.without email name) :=
      ⟨fun _ _ => rfl, fun owner name' hkey => without_keys fun heq => hc (by rw [hkey, heq])⟩
    obtain ⟨hsame, htwins⟩ := call_sameSeen h hw.shaped hw'.shaped without_closed e c hvis
      fun _ _ => trivial
    exact ⟨fun _ => hsame, htwins⟩

/-- Two runs of the same calls, from worlds that differ in one key, retired in the first. -/
theorem twins_run (js : List (Env P × Call T J)) (h : w.Twins (Scope.without email name) w')
    (hw : w.Sound P fun _ => True) (hw' : w'.Sound P fun _ => True)
    (hretired : w.db.Retired email name key rows) :
    List.Forall₂ (Unaffected P email name) (w.trace js) (w'.trace js) := by
  induction js generalizing w w' with
  | nil => exact .nil
  | cons i js ih =>
    obtain ⟨hsame, htwins⟩ := twins_call h hw hw' i
    obtain ⟨tr, htr⟩ := hw.keys
    have hs := step_of_call i.1 w i.2
    refine .cons ⟨rfl, fun hkey hlist => ?_, fun hlist => ?_⟩
      (ih htwins (hw.call i fun _ _ => trivial) (hw'.call i fun _ _ => trivial)
        (hretired.step htr.ring hs))
    · have heq := hsame hkey
      rwa [hide_without hlist, hide_without hlist] at heq
    · obtain ⟨e, c⟩ := i
      cases hlist
      have heq := hsame (by rintro ⟨⟩)
      rw [hide_keyList, hide_keyList] at heq
      show (w.call (e, .keyList email)).1 = (w'.call (e, .keyList email)).1.map _
      rw [← heq]
      rcases hr : (w.call (e, .keyList email)).1 with x | d
      · rfl
      · cases d with
        | keys ms =>
          have hall : ∀ m ∈ ms, decide (m.keyName ≠ name) = true :=
            fun m hm => decide_eq_true (keyList_retired hretired htr.names hr m hm)
          show Except.ok (Data.keys ms) = Except.ok (Data.keys (ms.filter _))
          rw [List.filter_eq_self.2 hall]
        | _ => rfl

end Unaffected

/-! ## Runs -/

/-- **Revocation is permanent.** After `revoke email name` went through, and any further calls:
    the key's row and its version rows are as they were right after it; every call on the key
    raises an `AppError`, creating one of that name included; no listing shows it; and the further
    calls that are not about this key were answered as in the run without the revocation. -/
theorem revocation_permanent (is js : List (Env P × Call T J)) (e : Env P) (email name : T)
    (d : Data T J) (w : World T B)
    (h : (World.initial.after is).call (e, .revoke email name) = (.ok d, w)) :
    (∃ key, w.db.findKey email name = some key ∧ (w.after js).db.findKey email name = some key ∧
        (w.after js).db.keyRows key.id = w.db.keyRows key.id) ∧
      (∀ (e' : Env P) (c : Call T J), c.key? P = some (email, name) →
        ∃ err, ((w.after js).call (e', c)).1 = .error (.app err)) ∧
      (∀ (e' : Env P) (ms : List (KeyMetadata T)),
        ((w.after js).call (e', (.keyList email : Call T J))).1 = .ok (.keys ms) →
          ∀ m ∈ ms, m.keyName ≠ name) ∧
      List.Forall₂ (Unaffected P email name) (w.trace js)
        ((World.initial.after is : World T B).trace js) := by
  have hsound : (World.initial.after is : World T B).Sound P fun _ => True :=
    sound_initial.after is fun _ _ _ _ => trivial
  have hw : w.Sound P fun _ => True := by
    have hcall := hsound.call (e, .revoke email name) fun _ _ => trivial
    rwa [h] at hcall
  obtain ⟨key, hkey⟩ := retired_of_revoke h
  obtain ⟨tr, htr⟩ := hw.keys
  have hafter := hkey.after htr.ring js
  obtain ⟨tr', htr'⟩ := (hw.after js fun _ _ _ _ => trivial).keys
  have htwins : (World.initial.after is).Twins (Scope.without email name) w := by
    have hs := step_of_call e (World.initial.after is : World T B) (.revoke email name : Call T J)
    rw [h] at hs
    exact hs.hidden (Call.hidden_of_key rfl without_self) hsound.shaped without_closed
      fun _ _ => trivial
  exact ⟨⟨key, hkey.found, hafter.found, hafter.rows⟩,
    fun e' c hc => call_retired hafter htr'.ring e' hc,
    fun e' ms hms => keyList_retired hafter htr'.names hms,
    twins_run js htwins.symm hw hsound hkey⟩

namespace Sample

/-- A key is made and rotated. -/
def ringed : List SampleCall :=
  opening ++ [(env 3, .createAes alice keyName), (env 4, .rotate alice keyName)]

/-- The process is restarted, the vault unlocked, and the key asked for again. -/
def reopened : List SampleCall :=
  [(env 6, .restart), (env 7, .vaultUnlock passphrase), (env 8, .createSigning alice keyName)]

end Sample

open Sample in
theorem revocation_permanent_sample :
    ∃ d w, (World.initial.after ringed).call (env 5, .revoke alice keyName) = (.ok d, w) ∧
      ∃ err, ((w.after reopened).call (env 9, (.rotate alice keyName :
        Call Text (Json.Value Unit)))).1 = .error (.app err) := by
  have hok : ((World.initial.after ringed : World Text Bytes).call
      (env 5, (.revoke alice keyName : Call Text (Json.Value Unit)))).1.toBool = true := by
    decide +kernel
  rcases hcall : (World.initial.after ringed : World Text Bytes).call
      (env 5, (.revoke alice keyName : Call Text (Json.Value Unit))) with ⟨x | d, w⟩
  · rw [hcall] at hok
    cases hok
  · obtain ⟨-, hraises, -⟩ := revocation_permanent ringed reopened (env 5) alice keyName d w hcall
    exact ⟨d, w, rfl, hraises (env 9) (.rotate alice keyName) rfl⟩

end MiniVault
