/-
  What PUT stores, GET reads, as long as it can be rendered. A write puts its value into the
  newest version row of the path, and the next read opens that row. The response to the read is
  strict JSON, which has no NaN and no infinite numbers; the request parser, `json.dumps` and
  `json.loads` have them.
-/
import MiniVault.Http.Sound
import MiniVault.Kit.JsonValue
import MiniVault.Kv.History

namespace MiniVault

open Kit

variable {T B J : Type} {P : Prims T B J}

/-! ## Reading what was written -/

section Written

variable [DecidableEq T] {good : T → Prop} {canon : J → J} {w w' : World T B} {path email : T}
  {data : J} {d : Data T J} {dek raw : B} {e : Env P} {db : Database T}

theorem findOwned_kvCreate (hf : db.findPath path = none) :
    (db.kvCreate P e path email dek raw).findOwned path email =
      some (newSecret P e (e.rowid (db.kvSecrets.map (·.id))) path email dek raw) := by
  have hnone : db.findOwned path email = none := by
    refine List.find?_eq_none.2 fun r hr hkey => ?_
    exact findPath_eq_none.1 hf r hr (of_decide_eq_true hkey).1
  unfold Database.findOwned at hnone ⊢
  show List.find? _ (db.kvSecrets ++ [newSecret P e _ path email dek raw]) = _
  rw [List.find?_append, hnone]
  simp [newSecret]

omit [DecidableEq T] in
/-- A new item has one version row. -/
theorem currentKvVersion_kvCreate (hkv : db.KvTables P good) :
    (db.kvCreate P e path email dek raw).currentKvVersion (e.rowid (db.kvSecrets.map (·.id))) =
      some (newSecretVersion P e (e.rowid (db.kvSecrets.map (·.id))) 1 path dek raw) := by
  rw [Database.currentKvVersion, versionsOf_kvCreate_self hkv]
  rfl

/-- **A write that goes through is read back.** -/
theorem read_written (hP : P.RoundTrips canon) (hkv : w.db.KvTables P good)
    (hone : P.OneOwner good) (hgood : good email)
    (hs : Step e w (.kvWrite path email data) (.ok d) w') (e' : Env P) :
    ∃ n, (w'.call (e', .kvRead path email none)).1 = .ok (.kvValue ⟨path, n, canon data⟩) := by
  have hopens : ∀ {dek raw : B}, WriteReady P w.session path email data dek raw →
      ∀ id n, (newSecretVersion P e id n path dek raw).Opens P dek path (canon data) := by
    intro dek raw hw id n
    unfold KVSecretVersion.Opens newSecretVersion
    rw [openSecret_sealed hP.b64decode_b64encode hP.correct hw.keyOk]
    exact hP.loads _ _ hw.dumped
  cases hs with
  | view _ hc => cases hc
  | kvCreate hw hf =>
    exact ⟨1, kvRead_newest (w := w.wrote _ _) hw.valid hw.unlocked (findOwned_kvCreate hf)
      (currentKvVersion_kvCreate hkv) (hopens hw _ 1)⟩
  | @kvUpdate _ _ _ dek raw item hw hf hv =>
    obtain ⟨f, hid, hfound⟩ := findOwned_kvUpdate path email w.db e item path
      dek raw
    rw [findOwned_eq hkv hone hgood hw.valid, hf] at hfound
    have hcurrent : (w.db.kvUpdate P e item path dek raw).currentKvVersion (f item).id =
        some (newSecretVersion P e item.id (w.db.nextKvVersion item.id) path dek raw) := by
      rw [hid]
      exact currentKvVersion_concat versionsOf_kvUpdate_self rfl
    exact ⟨_, kvRead_newest (w := w.wrote _ _) hw.valid hw.unlocked hfound hcurrent (hopens hw _ _)⟩

end Written

/-! ## Rendering -/

section Rendering

variable {F : Type} {L : Lib F}

/-- A value renders if its leaves and its keys do. -/
theorem renders_iff (v : Json.Value F) :
    renders v = true ↔
      v.Every (fun u => renders u = true) fun ks => ∀ k ∈ ks, (Json.encodeStr k).isSome = true := by
  induction v using Json.Value.induction with
  | leaf v hv => rw [Json.every_leaf hv]
  | arr xs ih =>
    rw [Json.every_arr, ← forall₂_congr ih]
    show rendersElems xs = true ↔ _
    clear ih
    induction xs with
    | nil => exact ⟨by rintro - _ ⟨⟩, fun _ => rfl⟩
    | cons x xs ih => rw [rendersElems, Bool.and_eq_true, ih, List.forall_mem_cons]
  | obj ms ih =>
    rw [Json.every_obj, ← forall₂_congr ih]
    show rendersMembers ms = true ↔ _
    clear ih
    induction ms with
    | nil => exact ⟨fun _ => ⟨by rintro _ ⟨⟩, by rintro _ ⟨⟩⟩, fun _ => rfl⟩
    | cons p ms ih =>
      rw [rendersMembers, Bool.and_eq_true, Bool.and_eq_true, ih, List.forall_mem_cons,
        show Json.keysOf (p :: ms) = p.1 :: Json.keysOf ms from rfl, List.forall_mem_cons]
      exact ⟨fun ⟨⟨hk, hv⟩, hks, hvs⟩ => ⟨⟨hk, hks⟩, hv, hvs⟩,
        fun ⟨⟨hk, hks⟩, hv, hvs⟩ => ⟨⟨hk, hv⟩, hks, hvs⟩⟩

/-- Of the leaves that are written, those render that are not NaN or infinite. -/
theorem renders_leaf {v : Json.Value F} (hv : v.isLeaf = true) (hw : v.WritableLeaf) :
    renders v = true ↔ v.finite = true := by
  cases v with
  | null => exact Iff.rfl
  | bool b => exact Iff.rfl
  | int n => exact ⟨fun _ => rfl, fun _ => hw.1⟩
  | float x =>
    cases x with
    | fin y => exact Iff.rfl
    | _ => exact Iff.rfl
  | str s => exact ⟨fun _ => rfl, fun _ => Json.encodeStr_isSome.2 (hw.2 s rfl)⟩
  | arr xs => cases hv
  | obj ms => cases hv

/-- What `json.dumps` and `encode` accept. -/
theorem dumps_eq_ok_iff (data : Json.Value F) :
    (∃ raw, (concrete L).dumps data = .ok raw) ↔
      data.Every Json.Value.WritableLeaf fun ks => ∀ k ∈ ks, Json.Plain k := by
  have hkeys : ∀ ks ks' : List Json.Str, (∀ k ∈ ks, Json.Plain k) → ks'.Perm ks →
      ∀ k ∈ ks', Json.Plain k := fun ks ks' hks hperm k hk => hks k (hperm.mem_iff.1 hk)
  have hsorted : (data.Every Json.Value.WritableLeaf fun ks => ∀ k ∈ ks, Json.Plain k) ↔
      data.sortKeys.writable = true ∧ Json.Plain (Json.render L.floats data.sortKeys) := by
    rw [← Json.every_writableLeaf_iff]
    exact ⟨fun h => h.sortKeys fun ks ks' hks hperm _ => hkeys ks ks' hks hperm,
      fun h => h.of_sortKeys hkeys⟩
  rw [hsorted, ← Json.encodeStr_isSome]
  show (∃ raw, dumps L data = .ok raw) ↔ _
  unfold dumps Json.dumps
  by_cases hw : data.sortKeys.writable = true
  · rcases he : Json.encodeStr (Json.render L.floats data.sortKeys) with _ | raw
    · simp [hw, he]
    · simp [hw, he]
  · simp [hw]

/-- **What was written renders if it has no NaN and no infinite number.** -/
theorem renders_canon_iff {data : Json.Value F} {raw : Bytes}
    (hd : (concrete L).dumps data = .ok raw) :
    renders data.canon = true ↔ data.canon.finite = true := by
  have hwritten := (dumps_eq_ok_iff data).1 ⟨raw, hd⟩
  have hsorted : data.sortKeys.Every Json.Value.WritableLeaf fun ks => ∀ k ∈ ks, Json.Plain k :=
    hwritten.sortKeys fun ks ks' hks hperm _ k hk => hks k (hperm.mem_iff.1 hk)
  have hcanon : data.canon.Every Json.Value.WritableLeaf fun ks => ∀ k ∈ ks, Json.Plain k :=
    hsorted.dicts fun ks ks' hks hsub _ k hk => hks k (hsub.subset hk)
  rw [renders_iff, Json.finite_iff]
  refine Json.every_congr hcanon (fun u hu hw => renders_leaf hu hw) fun ks hks => ?_
  exact ⟨fun _ => trivial, fun _ k hk => Json.encodeStr_isSome.2 (hks k hk)⟩

end Rendering

/-! ## PUT and GET -/

section Requests

variable [DecidableEq T] {settings : Settings} {w w' : World T B} {e : Env P}
  {credentials : Option T} {path : T} {data : J} {d : Data T J} {n : Nat}

omit [DecidableEq T] in
theorem ofExc_ne_ok (x : Exc) : (Response.ofExc x : Response T J) ≠ .ok d n := by
  cases x <;> rintro ⟨⟩

/-- Behind a PUT that is answered with success are a principal and a write. -/
theorem put_eq_ok
    (h : w.request settings e (.user credentials (.kvWrite path data)) = (.ok d n, w')) :
    ∃ p d', w.db.principal P e.now credentials = .ok p ∧
      Step e w (.kvWrite path p.user.email data) (.ok d') w' := by
  rcases hp : w.db.principal P e.now credentials with x | p
  · rw [request_unauthenticated hp] at h
    exact absurd (Prod.mk.inj h).1 (ofExc_ne_ok x)
  rw [request_user hp (c := .kvWrite path p.user.email data) rfl] at h
  have hs := step_of_call e w (.kvWrite path p.user.email data)
  rcases hcall : w.call (e, .kvWrite path p.user.email data) with ⟨x | d', w₁⟩
  · rw [hcall] at h
    exact absurd (Prod.mk.inj h).1 (ofExc_ne_ok x)
  · rw [hcall] at h hs
    have hw : w₁ = w' := (Prod.mk.inj h).2
    exact ⟨p, d', rfl, hw ▸ hs⟩

/-- The credentials of a user are those of the same user until the accounts change. -/
theorem principal_unique {db db' : Database T} {now now' : Time} {p p' : Principal T}
    (h : db.principal P now credentials = .ok p) (h' : db'.principal P now' credentials = .ok p')
    (hu : db'.users = db.users) (hs : db'.sessions = db.sessions) : p' = p := by
  obtain ⟨token, htoken, -, hsession, -, -, huser⟩ := principal_eq_ok.1 h
  obtain ⟨token', htoken', -, hsession', -, -, huser'⟩ := principal_eq_ok.1 h'
  cases htoken.symm.trans htoken'
  rw [Database.findSession, hs] at hsession'
  have hsame : p'.session = p.session := Option.some.inj (hsession'.symm.trans hsession)
  rw [hu, hsame] at huser'
  have husame : p'.user = p.user := Option.some.inj (huser'.symm.trans huser)
  cases p
  cases p'
  cases hsame
  cases husame
  rfl

end Requests

/-- **What PUT accepts, GET returns, if it has no NaN and no infinite number.** In every state
    reached by requests in which whoever registered had an address that `EmailStr` lets through:
    if a PUT is answered with success, the next GET of the same user is answered with an equal
    value exactly if all numbers of the value are finite. -/
theorem put_get_iff {F : Type} {L : Lib F} (hcorrect : L.aesgcm.Correct) (hff : L.floats.Lawful)
    (settings : Settings) (is : List (Env (concrete L) × Request Text (Json.Value F)))
    (hreg : ∀ i ∈ is, i.2.Registers (concrete L) EmailOk)
    {e e' : Env (concrete L)} {credentials : Option Text} {path : Text} {data : Json.Value F}
    {d : Data Text (Json.Value F)} {n : Nat} {w' : World Text Bytes}
    (hput : (World.initial.served settings is).request settings e
      (.user credentials (.kvWrite path data)) = (.ok d n, w'))
    {p : Principal Text} (hget : w'.db.principal (concrete L) e'.now credentials = .ok p) :
    (∃ v, (w'.request settings e' (.user credentials (.kvRead path none))).1 =
        .ok (.kvValue v) 200 ∧ v.value.Same data) ↔ data.canon.finite = true := by
  have hserving := serving_run settings is hreg
  obtain ⟨p', d', hp', hs⟩ := put_eq_ok hput
  have hpp : p = p' := principal_unique hp' hget hs.accounts.1 hs.accounts.2
  subst hpp
  obtain ⟨k, hread⟩ := read_written (concrete_roundTrips hcorrect hff) hserving.sound.kv
    (concrete_oneOwner L) (hserving.principal hp') hs e'
  have hdumps : ∃ raw, (concrete L).dumps data = .ok raw := by
    cases hs with
    | view _ hc => cases hc
    | kvCreate hw => exact ⟨_, hw.dumped⟩
    | kvUpdate hw => exact ⟨_, hw.dumped⟩
  obtain ⟨raw, hraw⟩ := hdumps
  have hrenders : (concrete L).renders data.canon = true ↔ data.canon.finite = true :=
    renders_canon_iff hraw
  rw [request_user hget (c := .kvRead path p.user.email none) rfl, hread, ← hrenders]
  show (∃ v, Response.ofOutcome (rendering (concrete L) (.kvValue ⟨path, k, data.canon⟩) 200) =
    _ ∧ _) ↔ _
  unfold rendering
  dsimp only
  by_cases hr : (concrete L).renders data.canon = true
  · rw [if_pos hr]
    exact ⟨fun _ => hr, fun _ => ⟨_, rfl, Json.canon_same data⟩⟩
  · rw [if_neg hr]
    exact ⟨by rintro ⟨v, ⟨⟩, -⟩, fun h => absurd h hr⟩

namespace Sample

/-- The response to a PUT, and the world after it. -/
def put (data : Json.Value Unit) : Response Text (Json.Value Unit) × World Text Bytes :=
  (World.initial.served {} signedIn).request {} (env 5) (.user (some token) (.kvWrite path data))

/-- The response to a GET. -/
def get (w : World Text Bytes) : Response Text (Json.Value Unit) :=
  (w.request {} (env 6) (.user (some token) (.kvRead path none))).1

/-- `{"v": NaN}` -/
def notANumber : Json.Value Unit := .obj [(Json.chars ['v'], .float .nan)]

/-- What a response says went wrong. -/
def failure : Response Text (Json.Value Unit) → Option AppError
  | .ok _ _ => none
  | .error err => some err

theorem signedIn_registers : ∀ i ∈ signedIn, i.2.Registers (concrete lib) EmailOk := by
  intro i hi email password confirmation hr
  simp only [signedIn, List.mem_cons, List.not_mem_nil, or_false] at hi
  rcases hi with rfl | rfl | rfl | rfl
  · cases hr
  · cases hr
  · cases hr
    exact ⟨"alice".toList, "x.org".toList, by decide⟩
  · cases hr

end Sample

open Sample in
/-- A PUT of NaN is answered with success, and the GET after it with an internal error. -/
theorem put_get_not_a_number :
    ∃ d n w', put notANumber = (.ok d n, w') ∧
      get w' = .error ⟨.internalError, "Internal error", 500⟩ ∧
      ¬ ∃ v, get w' = .ok (.kvValue v) 200 ∧ v.value.Same notANumber := by
  have hput : (put notANumber).1.isOk = true := by decide +kernel
  have hget : failure (get (put notANumber).2) = some ⟨.internalError, "Internal error", 500⟩ := by
    decide +kernel
  rcases hp : put notANumber with ⟨⟨d, n⟩ | err, w'⟩
  · rw [hp] at hget
    have herr : get w' = .error ⟨.internalError, "Internal error", 500⟩ := by
      rcases hresp : get w' with ⟨d, n⟩ | err
      · rw [hresp] at hget
        cases hget
      · rw [hresp] at hget
        rw [Option.some.inj hget]
    refine ⟨d, n, w', rfl, herr, ?_⟩
    rintro ⟨v, hv, -⟩
    rw [herr] at hv
    cases hv
  · rw [hp] at hput
    cases hput

open Sample in
theorem put_get_iff_sample :
    ∃ d n w', put (secret 7) = (.ok d n, w') ∧
      ∃ v, get w' = .ok (.kvValue v) 200 ∧ v.value.Same (secret 7) := by
  have hput : (put (secret 7)).1.isOk = true := by decide +kernel
  have hget : ((put (secret 7)).2.db.principal (concrete lib) (env 6).now (some token)).toBool =
      true := by decide +kernel
  rcases hp : put (secret 7) with ⟨⟨d, n⟩ | err, w'⟩
  · rw [hp] at hget
    rcases hprincipal : w'.db.principal (concrete lib) (env 6).now (some token) with x | p
    · rw [hprincipal] at hget
      cases hget
    · exact ⟨d, n, w', rfl, (put_get_iff aesgcm_correct floats_lawful {} signedIn
        signedIn_registers hp hprincipal).2 (by decide +kernel)⟩
  · rw [hp] at hput
    cases hput

end MiniVault
