/-
  Corruption of the current ciphertext. `write` stores it twice, in the item's own row and in the
  newest version row, and `read` opens the version row alone: corruption of the other copy goes
  undetected.
-/
import MiniVault.Kv.Views
import MiniVault.Service.Exceptions
import MiniVault.Tamper.Kv

namespace MiniVault

open Kit

variable {T B J : Type} {P : Prims T B J}

/-! ## The corruption -/

/-- The row with other texts, if any are given. -/
def KVSecret.withTexts (texts : Option (T × T)) (r : KVSecret T) : KVSecret T :=
  match texts with
  | some t => { r with nonceB64 := t.1, ciphertextB64 := t.2 }
  | none => r

/-- The row with other texts, if any are given. -/
def KVSecretVersion.withTexts (texts : Option (T × T)) (v : KVSecretVersion T) :
    KVSecretVersion T :=
  match texts with
  | some t => { v with nonceB64 := t.1, ciphertextB64 := t.2 }
  | none => v

/-- Other texts in the item's own row, in its newest version row, or in both. -/
def Database.corrupt [DecidableEq T] (db : Database T) (id : Nat)
    (inItem inNewest : Option (T × T)) : Database T :=
  { db with
    kvSecrets := db.kvSecrets.map (Table.updated (·.id) id (KVSecret.withTexts inItem))
    kvSecretVersions := db.kvSecretVersions.map fun v =>
      if db.currentKvVersion id = some v then v.withTexts inNewest else v }

/-- A nonce text and a ciphertext text that both decode, to what no encryption of the log under `d`
    made. -/
def Unmade (P : Prims T B J) (log : List (Sealing B)) (d : B) (texts : T × T) : Prop :=
  ∃ n c, P.b64decode texts.1 = some n ∧ P.b64decode texts.2 = some c ∧
    ∀ x ∈ log, x.key = d → x.nonce = n → P.aesgcm.encrypt d n x.data x.aad ≠ c

/-- Texts that are neither made by an encryption nor forged are reported. -/
theorem hideUnreadable_unmade {log : List (Sealing B)} {d : B} {texts : T × T}
    (hd : aesKeyOk P d = true) (h : Unmade P log d texts)
    (hunforged : Unforged P log d texts.1 texts.2) (path : T) :
    hideUnreadable (KVService.openSecret P d texts.1 texts.2 path) =
      .error (appError .decryptionFailed "Secret could not be decrypted" 400) := by
  obtain ⟨n, c, hn, hc, hnot⟩ := h
  have hopen : KVService.openSecret P d texts.1 texts.2 path =
      decrypt P d n c (P.encode path) >>= P.loads := by
    unfold KVService.openSecret
    rw [b64d_eq_ok.2 hn, b64d_eq_ok.2 hc]
    rfl
  rw [hopen]
  rcases hr : decrypt P d n c (P.encode path) with x | raw
  · rcases (decrypt_error_iff hd).1 hr with ⟨-, rfl⟩ | ⟨-, -, rfl⟩
    · rfl
    · rfl
  · obtain ⟨hmem, hmade⟩ := hunforged n c _ hn hc raw (decrypt_eq_ok.1 hr).2.2
    exact absurd hmade.symm (hnot _ hmem rfl rfl)

/-! ## What is read -/

section Read

variable [DecidableEq T] {db : Database T} {item : KVSecret T} {inItem inNewest : Option (T × T)}

omit [DecidableEq T] in
theorem withTexts_key (texts : Option (T × T)) (r : KVSecret T) :
    (r.withTexts texts).id = r.id ∧ (r.withTexts texts).path = r.path ∧
      (r.withTexts texts).ownerEmail = r.ownerEmail := by
  rcases texts with _ | t <;> exact ⟨rfl, rfl, rfl⟩

omit [DecidableEq T] in
theorem withTexts_version (texts : Option (T × T)) (v : KVSecretVersion T) :
    (v.withTexts texts).kvSecretId = v.kvSecretId ∧ (v.withTexts texts).version = v.version := by
  rcases texts with _ | t <;> exact ⟨rfl, rfl⟩

theorem findOwned_corrupt (hpaths : (db.kvSecrets.map (·.path)).Nodup)
    (hitem : item ∈ db.kvSecrets) :
    (db.corrupt item.id inItem inNewest).findOwned item.path item.ownerEmail =
      some (item.withTexts inItem) := by
  have hmem : item.withTexts inItem ∈ (db.corrupt item.id inItem inNewest).kvSecrets :=
    List.mem_map.2 ⟨item, hitem, if_pos rfl⟩
  have hnodup : ((db.corrupt item.id inItem inNewest).kvSecrets.map (·.path)).Nodup := by
    rw [show (db.corrupt item.id inItem inNewest).kvSecrets.map (·.path) =
      db.kvSecrets.map (·.path) from Table.map_updated fun r => (withTexts_key inItem r).2.1]
    exact hpaths
  obtain ⟨-, hpath, howner⟩ := withTexts_key inItem item
  have hf := findOwned_of_mem hnodup hmem
  rwa [hpath, howner] at hf

/-- The corrupted row is still the newest. -/
theorem currentKvVersion_corrupt {id : Nat} {c : KVSecretVersion T}
    (hn : Table.Numbered (·.version) (db.versionsOf id)) (hc : db.currentKvVersion id = some c) :
    (db.corrupt id inItem inNewest).currentKvVersion id = some (c.withTexts inNewest) := by
  let g : KVSecretVersion T → KVSecretVersion T := fun v =>
    if db.currentKvVersion id = some v then v.withTexts inNewest else v
  have hg : ∀ v, (g v).kvSecretId = v.kvSecretId ∧ (g v).version = v.version := by
    intro v
    by_cases hv : db.currentKvVersion id = some v
    · simp only [g, if_pos hv]
      exact withTexts_version inNewest v
    · simp only [g, if_neg hv, and_self]
  have hrows : (db.corrupt id inItem inNewest).versionsOf id = (db.versionsOf id).map g := by
    show (db.kvSecretVersions.map g).filter (·.kvSecretId = id) = _
    rw [List.filter_map]
    congr 2
    funext v
    exact congrArg (fun i => decide (i = id)) (hg v).1
  have hnum : Table.Numbered (·.version) ((db.versionsOf id).map g) := by
    unfold Table.Numbered at hn ⊢
    rw [List.length_map, ← hn, List.map_map]
    exact List.map_congr_left fun v _ => (hg v).2
  have hlast : (db.versionsOf id).getLast? = some c := by
    rw [← hn.argmax]
    exact hc
  rw [Database.currentKvVersion, hrows, hnum.argmax, List.getLast?_map, hlast, Option.map_some]
  exact congrArg some (if_pos hc)

end Read

/-! ## The result -/

section Detection

variable [DecidableEq T] {w : World T B} {d : B} {item : KVSecret T} {xs : List J}
  {inItem inNewest : Option (T × T)} {e : Env P}

/-- `read` of an item with corrupted copies opens the newest version row. -/
theorem kvRead_corrupt (hd : w.dek = some d) (hpaths : (w.db.kvSecrets.map (·.path)).Nodup)
    (hitem : item ∈ w.db.kvSecrets) (hp : P.validatePath item.path item.ownerEmail = .ok ())
    (hn : Table.Numbered (·.version) (w.db.versionsOf item.id)) {c : KVSecretVersion T}
    (hc : w.db.currentKvVersion item.id = some c) :
    (({ w with db := w.db.corrupt item.id inItem inNewest } : World T B).call
        (e, .kvRead item.path item.ownerEmail none)).1 =
      (hideUnreadable (KVService.openSecret P d (c.withTexts inNewest).nonceB64
        (c.withTexts inNewest).ciphertextB64 item.path)).map fun x =>
          .kvValue ⟨item.path, c.version, x⟩ := by
  obtain ⟨hid, -⟩ := withTexts_key inItem item
  have hasked : (w.db.corrupt item.id inItem inNewest).kvAsked (item.withTexts inItem) none =
      .ok (some (c.withTexts inNewest)) := by
    rw [Database.kvAsked, hid, currentKvVersion_corrupt hn hc]
  rw [kvRead_call (w := { w with db := w.db.corrupt item.id inItem inNewest }) hp hd,
    Database.kvRead, findOwned_corrupt hpaths hitem]
  dsimp only
  rw [hasked]
  dsimp only
  simp only [openItem, Option.map_some, Option.getD_some, (withTexts_version inNewest c).2]
  rcases hideUnreadable _ with x | value <;> rfl

/-- Of an item that holds its history: the current value reads back exactly if the newest version
    row is not corrupted. -/
theorem World.Holds.detects (h : w.Holds P item.id item.path xs) (hP : P.Lawful)
    (hd : w.dek = some d) (hkey : aesKeyOk P d = true)
    (hpaths : (w.db.kvSecrets.map (·.path)).Nodup) (hitem : item ∈ w.db.kvSecrets)
    (hp : P.validatePath item.path item.ownerEmail = .ok ())
    (hunmade : ∀ texts, inNewest = some texts →
      Unmade P w.sealings d texts ∧ Unforged P w.sealings d texts.1 texts.2) :
    (({ w with db := w.db.corrupt item.id inItem inNewest } : World T B).call
        (e, .kvRead item.path item.ownerEmail none)).1 =
      .error (appError .decryptionFailed "Secret could not be decrypted" 400) ↔
        inNewest ≠ none := by
  have hpos := List.length_pos_iff.2 h.written
  obtain ⟨c, hrow, -, hopen⟩ := h.row hP hd (List.getElem?_eq_getElem (Nat.sub_lt hpos Nat.one_pos))
  have hc : w.db.currentKvVersion item.id = some c := by
    rw [← hrow]
    exact Except.ok.inj (kvAsked_last h)
  rw [kvRead_corrupt hd hpaths hitem hp h.numbered hc]
  rcases inNewest with _ | texts
  · have hopen' : KVService.openSecret P d c.nonceB64 c.ciphertextB64 item.path = .ok _ := hopen
    rw [show c.withTexts none = c from rfl, hopen']
    exact ⟨fun heq => (by cases heq), fun hne => absurd rfl hne⟩
  · obtain ⟨hun, hunforged⟩ := hunmade texts rfl
    have hhide := hideUnreadable_unmade hkey hun hunforged item.path
    refine ⟨fun _ => Option.some_ne_none texts, fun _ => ?_⟩
    rw [show hideUnreadable (KVService.openSecret P d (c.withTexts (some texts)).nonceB64
      (c.withTexts (some texts)).ciphertextB64 item.path) = _ from hhide]
    rfl

end Detection

/-- **Corruption of the current ciphertext** is detected exactly if it is in the newest version
    row: in every reachable state with an unlocked vault, for texts in the item's own row, in its
    newest version row or in both that decode to what no encryption made and are no forgery. -/
theorem corruption_detected_iff {F : Type} (L : Lib F) (hcorrect : L.aesgcm.Correct)
    (hkey : L.aesgcm.KeyBound) (hff : L.floats.Lawful)
    (is : List (Env (concrete L) × Call Text (Json.Value F))) (d : Bytes)
    (hd : (World.initial.after is).dek = some d) (item : KVSecret Text)
    (hitem : item ∈ (World.initial.after is).db.kvSecrets) (inItem inNewest : Option (Text × Text))
    (hunmade : ∀ texts, inItem = some texts ∨ inNewest = some texts →
      Unmade (concrete L) (World.initial.after is).sealings d texts)
    (hunforged : ∀ texts, inItem = some texts ∨ inNewest = some texts →
      Unforged (concrete L) (World.initial.after is).sealings d texts.1 texts.2)
    (e : Env (concrete L)) :
    (({ World.initial.after is with
          db := (World.initial.after is).db.corrupt item.id inItem inNewest } : World _ _).call
        (e, .kvRead item.path item.ownerEmail none)).1 =
      .error (appError .decryptionFailed "Secret could not be decrypted" 400) ↔
        inNewest ≠ none := by
  have hP := concrete_lawful hcorrect hkey
  obtain ⟨ht, hstores⟩ : (World.initial.after is).db.KvTables (concrete L) (fun _ => True) ∧ _ :=
    stores_run hP (fun _ _ => concrete_loads hff) is fun _ _ _ _ => trivial
  exact (hstores.holds item hitem).detects hP hd (keyed_of_unlocked hP.unlocks hd).keyOk ht.paths
    hitem (ht.owned item hitem).2 fun texts htexts =>
      ⟨hunmade texts (.inr htexts), hunforged texts (.inr htexts)⟩

namespace Sample

/-- The texts of an item with the first character of the ciphertext replaced, as `test_kv.py`
    replaces it. -/
def edited (r : KVSecret Text) : Text × Text :=
  (r.nonceB64, (if r.ciphertextB64.head? = some 'A' then 'B' else 'A') :: r.ciphertextB64.tail)

/-- Every sample ciphertext under the data key starts with a one. -/
theorem damaged (log : List (Sealing Bytes)) {texts : Text × Text} {n c : Bytes}
    (hn : Base64.decode texts.1 = some n) (hc : Base64.decode texts.2 = some c)
    (hhead : c.head? ≠ some 1) :
    Unmade (concrete lib) log dataKey texts ∧
      Unforged (concrete lib) log dataKey texts.1 texts.2 := by
  have hheader : ∀ n a, ∃ t, header dataKey n a = 1 :: t := fun n a => ⟨_, rfl⟩
  constructor
  · refine ⟨n, c, hn, hc, fun x _ _ _ heq => ?_⟩
    obtain ⟨t, ht⟩ := hheader n x.aad
    rw [show c = header dataKey n x.aad ++ x.data from heq.symm, ht] at hhead
    exact hhead rfl
  · intro n' c' a _ hc' p hp
    rw [Option.some.inj (hc'.symm.trans hc)] at hp
    obtain ⟨t, ht⟩ := hheader n' a
    rw [(header_of_decrypt hp).2, ht] at hhead
    exact absurd rfl hhead

theorem edited_damaged {item : KVSecret Text}
    (hitem : item ∈ (World.initial.after kvCalls).db.kvSecrets) :
    Unmade (concrete lib) (World.initial.after kvCalls).sealings dataKey (edited item) ∧
      Unforged (concrete lib) (World.initial.after kvCalls).sealings dataKey (edited item).1
        (edited item).2 := by
  have hall : ∀ r ∈ (World.initial.after kvCalls).db.kvSecrets,
      (Base64.decode (edited r).1).isSome = true ∧
        (Base64.decode (edited r).2).any (fun c => decide (c.head? ≠ some 1)) = true := by
    decide +kernel
  obtain ⟨hn, hc⟩ := hall item hitem
  obtain ⟨n, hn⟩ := Option.isSome_iff_exists.1 hn
  obtain ⟨c, hc, hhead⟩ := (Option.any_eq_true _ _).1 hc
  exact damaged _ hn hc (of_decide_eq_true hhead)

end Sample

open Sample in
/-- A character replaced in `kv_secrets`: the secret reads as if nothing had happened. -/
theorem corruption_undetected :
    (World.initial.after kvCalls).dek = some dataKey ∧
      ∃ item ∈ (World.initial.after kvCalls).db.kvSecrets,
        Unmade (concrete lib) (World.initial.after kvCalls).sealings dataKey (edited item) ∧
        Unforged (concrete lib) (World.initial.after kvCalls).sealings dataKey (edited item).1
          (edited item).2 ∧
        (edited item).2 ≠ item.ciphertextB64 ∧
        (({ World.initial.after kvCalls with
              db := (World.initial.after kvCalls).db.corrupt item.id (some (edited item)) none } :
            World Text Bytes).call ((env 5, .kvRead path alice none) : SampleCall)).1 =
          .ok (.kvValue ⟨path, 2, secret 2⟩) := by
  obtain ⟨item, hitem⟩ := kvCalls_secrets
  have hall : ∀ r ∈ (World.initial.after kvCalls).db.kvSecrets,
      (edited r).2 ≠ r.ciphertextB64 ∧
        readNumber { World.initial.after kvCalls with
          db := (World.initial.after kvCalls).db.corrupt r.id (some (edited r)) none } none =
            some (2, 2) := by
    decide +kernel
  obtain ⟨hedited, hread⟩ := hall item hitem
  obtain ⟨hun, hunforged⟩ := edited_damaged hitem
  exact ⟨kvCalls_dek, item, hitem, hun, hunforged, hedited, read_call hread⟩

open Sample in
theorem corruption_detected_iff_sample :
    ∃ item ∈ (World.initial.after kvCalls).db.kvSecrets,
      (({ World.initial.after kvCalls with
            db := (World.initial.after kvCalls).db.corrupt item.id none (some (edited item)) } :
          World Text Bytes).call
          ((env 5, .kvRead item.path item.ownerEmail none) : SampleCall)).1 =
        .error (appError .decryptionFailed "Secret could not be decrypted" 400) := by
  obtain ⟨item, hitem⟩ := kvCalls_secrets
  obtain ⟨hun, hunforged⟩ := edited_damaged hitem
  refine ⟨item, hitem, (corruption_detected_iff lib aesgcm_correct aesgcm_keyBound floats_lawful
    kvCalls dataKey kvCalls_dek item hitem none (some (edited item)) ?_ ?_ (env 5)).2
      (Option.some_ne_none _)⟩
  · rintro texts (h | h)
    · cases h
    · exact Option.some.inj h ▸ hun
  · rintro texts (h | h)
    · cases h
    · exact Option.some.inj h ▸ hunforged

end MiniVault
