/-
  The KV calls over whatever a client sends. `json.loads` reads lone surrogates that `encode`
  refuses, and the router's `version` has no upper bound while the driver binds 64 signed bits;
  beside these, every call returns or raises an `AppError`.
-/
import MiniVault.Kit.JsonScan
import MiniVault.Kv.PutGet
import MiniVault.Service.Exceptions

namespace MiniVault

open Kit Imp

variable {F : Type} {L : Lib F}

/-! ## What is sent -/

/-- The value that a request body holds under `data`. -/
def Requested (L : Lib F) (data : Json.Value F) : Prop :=
  ∃ body members, Json.loads L.floats body = some (.obj members) ∧
    (Json.chars "data".toList, data) ∈ members

/-- The calls of the KV routes. -/
inductive KvRequest (L : Lib F) : Call Text (Json.Value F) → Prop where
  | write {path email data} : Requested L data → KvRequest L (.kvWrite path email data)
  | read {path email version} : KvRequest L (.kvRead path email version)
  | versions {path email} : KvRequest L (.kvVersions path email)
  | delete {path email} : KvRequest L (.kvDelete path email)
  | list {email} : KvRequest L (.kvList email)

/-- Of what the parser returns, values without lone surrogates can be written. -/
theorem dumps_requested {data : Json.Value F} (h : Requested L data) :
    (∃ x, (concrete L).dumps data = .error x) ↔ ¬ data.Plain := by
  obtain ⟨body, members, hloads, hmem⟩ := h
  have hw : data.writable = true :=
    Json.writable_obj.1 (Json.writable_of_loads hloads) _ hmem
  rw [← Json.every_writableLeaf_iff_plain hw, ← dumps_eq_ok_iff (L := L)]
  rcases (concrete L).dumps data with x | raw
  · simp
  · simp

/-! ## The result -/

/-- What the KV routes do not handle: a write of a value with a lone surrogate, or to a path whose
    next version does not fit in 64 signed bits; and a read of such a version. -/
def World.Unhandled (L : Lib F) (w : World Text Bytes) : Call Text (Json.Value F) → Prop
  | .kvWrite path email data =>
    validatePath path email = .ok () ∧ w.dek ≠ none ∧
      (¬ data.Plain ∨ ∃ raw item, dumps L data = .ok raw ∧ raw.length ≤ 1048576 ∧
        w.db.findPath path = some item ∧ 2 ^ 63 ≤ w.db.nextKvVersion item.id)
  | .kvRead path email version =>
    validatePath path email = .ok () ∧ w.dek ≠ none ∧
      (∃ item, w.db.findOwned path email = some item) ∧ ∃ k : Int, version = some k ∧ 2 ^ 63 ≤ k
  | _ => False

/-- In every reachable state, a KV call returns or raises an `AppError` exactly if it is none of
    those that the routes do not handle. -/
theorem kv_total_iff {F : Type} (L : Lib F) (hcorrect : L.aesgcm.Correct)
    (hkey : L.aesgcm.KeyBound) (is : List (Env (concrete L) × Call Text (Json.Value F)))
    (e : Env (concrete L)) (c : Call Text (Json.Value F)) (hc : KvRequest L c) :
    (World.initial.after is).Handles (e, c) ↔ ¬ (World.initial.after is).Unhandled L c := by
  have hP := concrete_lawful hcorrect hkey
  have hchecked := concrete_checked L
  have hjson := concrete_jsonRaises L
  cases hc with
  | @write path email data hdata =>
    rw [handles_iff (c := Call.kvWrite path email data) (f := Data.kvWritten) rfl, not_iff_not,
      write_escapes hchecked hjson, dumps_requested hdata]
    refine and_congr_right fun _ => ?_
    constructor
    · rintro ⟨d, hd, h⟩
      have hk : aesKeyOk (concrete L) d = true := (keyed_of_unlocked hP.unlocks hd).keyOk
      refine ⟨Option.ne_none_iff_exists'.2 ⟨d, hd⟩, h.imp id ?_⟩
      rintro ⟨raw, hraw, hsize, hbad | ⟨item, hf, hv⟩⟩
      · cases hk.symm.trans hbad
      · exact ⟨raw, item, hraw, hsize, hf, hv⟩
    · rintro ⟨hd, h⟩
      obtain ⟨d, hd⟩ := Option.ne_none_iff_exists'.1 hd
      refine ⟨d, hd, h.imp id ?_⟩
      rintro ⟨raw, item, hraw, hsize, hf, hv⟩
      exact ⟨raw, hraw, hsize, .inr ⟨item, hf, hv⟩⟩
  | @read path email version =>
    rw [handles_iff (c := Call.kvRead path email version) (f := Data.kvValue) rfl, not_iff_not]
    exact read_escapes hchecked hjson
  | @versions path email =>
    rw [handles_iff (c := Call.kvVersions path email) (f := Data.kvVersions) rfl]
    exact iff_of_true (versions_not_escapes hchecked) id
  | @delete path email =>
    rw [handles_iff (c := Call.kvDelete path email) (f := fun _ => Data.deleted) rfl]
    exact iff_of_true (delete_not_escapes hchecked) id
  | @list email =>
    rw [handles_iff (c := Call.kvList email) (f := Data.kvListed) rfl]
    exact iff_of_true list_not_escapes id

namespace Sample

/-- `{"data": {"v": "<value>"}}`, in ASCII. -/
def bodyOf (value : String) : Bytes :=
  ("\x7b\"data\":\x7b\"v\":\"" ++ value ++ "\"\x7d\x7d").toList.map fun c =>
    UInt8.ofNat c.toNat

/-- `{"v": s}` -/
def textSecret (s : Json.Str) : Json.Value Unit := .obj [(Json.chars ['v'], .str s)]

/-- The string in such a body. -/
def textOf : Json.Value Unit → Option Json.Str
  | .obj [(k, .obj [(k', .str s)])] =>
    if k = Json.chars "data".toList ∧ k' = Json.chars ['v'] then some s else none
  | _ => none

theorem requested_of_textOf {body : Bytes} {s : Json.Str}
    (h : (Json.loads floats body).bind textOf = some s) : Requested lib (textSecret s) := by
  obtain ⟨v, hv, hs⟩ := Option.bind_eq_some_iff.1 h
  unfold textOf at hs
  split at hs
  · split_ifs at hs with hk
    obtain ⟨rfl, rfl⟩ := hk
    cases hs
    exact ⟨body, _, hv, List.mem_singleton_self _⟩
  · cases hs

theorem requested_surrogate : Requested lib (textSecret [.surrogate 0]) :=
  requested_of_textOf
    (show (Json.loads floats (bodyOf "\\ud800")).bind textOf = _ by decide +kernel)

theorem requested_text : Requested lib (textSecret (Json.chars ['x'])) :=
  requested_of_textOf (show (Json.loads floats (bodyOf "x")).bind textOf = _ by decide +kernel)

end Sample

open Sample in
/-- A value with a lone surrogate, as the parser reads it from a body, ends a write with the
    exception of `encode`, and version 2^63 ends a read with that of the driver. -/
theorem kv_not_total :
    (KvRequest lib (.kvWrite path alice (textSecret [.surrogate 0])) ∧
      ((World.initial.after opening).call
        (env 3, .kvWrite path alice (textSecret [.surrogate 0]))).1 = .error .unicodeEncodeError ∧
      ¬ (World.initial.after opening).Handles
        (env 3, .kvWrite path alice (textSecret [.surrogate 0]))) ∧
      ((World.initial.after kvCalls).call (env 5, .kvRead path alice (some 9223372036854775808))).1 =
        .error .overflowError := by
  have hcall : ((World.initial.after opening).call
      (env 3, .kvWrite path alice (textSecret [.surrogate 0]))).1 = .error .unicodeEncodeError :=
    raised_eq_some (by decide +kernel)
  refine ⟨⟨.write requested_surrogate, hcall, ?_⟩, raised_eq_some (by decide +kernel)⟩
  unfold World.Handles
  rw [hcall]
  rintro (⟨_, ⟨⟩⟩ | ⟨_, ⟨⟩⟩)

open Sample in
theorem kv_total_iff_sample :
    (World.initial.after opening).Handles
      (env 3, .kvWrite path alice (textSecret (Json.chars ['x']))) := by
  refine (kv_total_iff lib aesgcm_correct aesgcm_keyBound opening (env 3) _
    (.write requested_text)).2 ?_
  rintro ⟨-, -, hnot | ⟨raw, item, -, -, hf, -⟩⟩
  · refine hnot (Json.every_obj.2 ⟨?_, ?_⟩)
    · rintro k hk
      rw [List.mem_singleton.1 hk]
      exact Json.plain_chars _
    · intro p hp
      rw [List.mem_singleton.1 hp]
      exact (Json.every_leaf rfl).2 (by rintro _ ⟨⟩; exact Json.plain_chars _)
  · have hnone : (World.initial.after opening : World Text Bytes).db.findPath path = none := by
      decide +kernel
    cases hnone.symm.trans hf

end MiniVault
