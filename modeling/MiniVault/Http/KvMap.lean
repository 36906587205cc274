/-
  The KV endpoints refine a versioned map. The map is read off what the clients of a run saw: a
  PUT that was answered with success appends its value, a DELETE drops the history. An unlocked
  vault answers every further KV request of a user whose credentials are accepted as that map
  says, whoever else sent what before.
-/
import MiniVault.Http.Simulation
import MiniVault.Isolation.NonInterference
import MiniVault.Kv.Refine

namespace MiniVault

open Kit

variable {T B J : Type} {P : Prims T B J} [DecidableEq T]

/-! ## The map of a run -/

section Map

variable (canon : J → J)

/-- What an exchange does to the map. -/
def kvHear (m : VersionedMap T J) :
    (Env P × Request T J) × Response T J → VersionedMap T J
  | ((_, .user _ (.kvWrite path data)), .ok _ _) => m.write path (canon data)
  | ((_, .user _ (.kvDelete path)), .ok _ _) => m.delete path
  | _ => m

/-- The map that the exchanges of a run leave. -/
def kvHeard (tr : Exchanges P) : VersionedMap T J := tr.foldl (kvHear canon) .empty

theorem kvHeard_concat (tr : Exchanges P) (x : (Env P × Request T J) × Response T J) :
    kvHeard canon (tr ++ [x]) = kvHear canon (kvHeard canon tr) x := List.foldl_append

theorem kvHear_error (m : VersionedMap T J) (i : Env P × Request T J) (x : Exc) :
    kvHear canon m (i, .ofExc x) = m := by
  obtain ⟨e, r⟩ := i
  cases x <;> cases r with
  | user credentials u => cases u <;> rfl
  | _ => rfl

theorem kvHear_vault (m : VersionedMap T J) (e : Env P) {r : Request T J} {c : Call T J}
    (hc : r.vaultCall = some c) (resp : Response T J) : kvHear canon m ((e, r), resp) = m := by
  cases r <;> cases hc <;> rfl

theorem kvApply_vault (m : VersionedMap T J) (e : Env P) {r : Request T J} {c : Call T J}
    (hc : r.vaultCall = some c) (res : Except Exc (Data T J)) :
    kvApply canon m ((e, c), res) = m := by
  cases r <;> cases hc <;> rfl

/-- A request tells the client what its call did to the map. -/
theorem kvHear_user (m : VersionedMap T J) {e : Env P} {w w' : World T B} {r : UserRequest T J}
    {c : Call T J} {email : T} {res : Except Exc (Data T J)} (credentials : Option T)
    (hc : r.call email = some c) (hs : Step e w c res w') :
    kvHear canon m ((e, .user credentials r), answer P res r.status) =
      kvApply canon m ((e, c), res) := by
  rcases res with x | d
  · rw [kvApply_error]
    exact kvHear_error canon m _ x
  obtain ⟨-, hc⟩ := UserRequest.call_eq_some.1 hc
  cases r with
  | kvWrite path data =>
    cases hc
    cases hs with
    | view d hc => cases hc
    | kvCreate => rfl
    | kvUpdate => rfl
  | kvDelete path =>
    cases hc
    cases hs with
    | view d hc => cases hc
    | kvDelete => rfl
  | _ => cases hc <;> rfl

/-- A request without a call behind it leaves the map. -/
theorem Served.kvHear_eq {settings : Settings} {e : Env P} {w w' : World T B} {r : Request T J}
    {resp : Response T J} (hs : Served settings e w r resp w') (h : w.behind (e, r) = none)
    (m : VersionedMap T J) : kvHear canon m ((e, r), resp) = m := by
  cases hs with
  | raised _ x => exact kvHear_error canon m _ x
  | vault hc =>
    rw [behind_vault hc] at h
    cases h
  | service hp hc =>
    rw [behind_user hp, hc] at h
    cases h
  | _ => rfl

/-- A request with a call behind it does to the map what the call does. -/
theorem kvHear_behind (settings : Settings) {e : Env P} {w : World T B} {r : Request T J}
    {x : Env P × Call T J} (h : w.behind (e, r) = some x) (m : VersionedMap T J) :
    kvHear canon m ((e, r), (w.serve settings (e, r)).1) = kvApply canon m (x, (w.call x).1) := by
  rw [serve_behind h]
  rcases behind_cases h with ⟨c, hc, rfl⟩ | ⟨credentials, u, p, c, rfl, -, hc, rfl⟩
  · rw [kvHear_vault canon m e hc, kvApply_vault canon m e hc]
  · exact kvHear_user canon m credentials hc (step_of_call e w c)

/-- What the clients saw is what the calls behind their requests did. -/
theorem kvHeard_eq (settings : Settings) (w : World T B) (is : List (Env P × Request T J)) :
    kvHeard canon (w.exchanges settings is) =
      kvMap canon (w.trace (w.calls settings is)) := by
  induction is using List.reverseRecOn with
  | nil => rfl
  | append_singleton is i ih =>
    rw [World.exchanges_concat, kvHeard_concat, ih, calls_concat]
    rcases hb : (w.served settings is).behind i with _ | x
    · rw [Option.toList_none, List.append_nil]
      exact (served_of_request settings i.1 _ i.2).kvHear_eq canon hb _
    · rw [Option.toList_some, World.trace_concat, kvMap_concat, kvHear_behind canon settings hb,
        (call_held (served_held settings w is) x).1]

end Map

/-! ## The answers -/

/-- `raise AppError("VALIDATION_ERROR", "Secret is too large", 413)` -/
def secretTooLarge : Exc := appError .validationError "Secret is too large" 413

/-- `ask` answers the KV requests of the user `email` as the map says. -/
structure KvServed (P : Prims T B J) (email : T) (m : VersionedMap T J)
    (ask : UserRequest T J → Response T J) : Prop where
  invalid : ∀ path (k : Int), k < 1 → ask (.kvRead path (some k)) = .ofExc invalidRequest
  refused : ∀ path x, P.validatePath path email = .error x →
    (∀ data, ask (.kvWrite path data) = .ofExc x) ∧
      (∀ k, (∀ n, k = some n → 1 ≤ n) → ask (.kvRead path k) = .ofExc x) ∧
      ask (.kvVersions path) = .ofExc x ∧ ask (.kvDelete path) = .ofExc x
  write : ∀ path data raw, P.validatePath path email = .ok () → P.dumps data = .ok raw →
    P.len raw ≤ 1048576 → (m.history path).length + 1 < 2 ^ 63 →
      ∃ r, ask (.kvWrite path data) = .ok (.kvWritten r) 200 ∧ r.path = path ∧
        r.version = (m.history path).length + 1
  tooLarge : ∀ path data raw, P.validatePath path email = .ok () → P.dumps data = .ok raw →
    1048576 < P.len raw → ask (.kvWrite path data) = .ofExc secretTooLarge
  absent : ∀ path, P.validatePath path email = .ok () → m.history path = [] →
    (∀ k, (∀ n, k = some n → 1 ≤ n) → ask (.kvRead path k) = .ofExc secretNotFound) ∧
      ask (.kvVersions path) = .ofExc secretNotFound ∧
      ask (.kvDelete path) = .ofExc secretNotFound
  readLast : ∀ path x, P.validatePath path email = .ok () →
    (m.history path).getLast? = some x →
      ask (.kvRead path none) = answer P (.ok (.kvValue ⟨path, (m.history path).length, x⟩)) 200
  readAt : ∀ path (k : Nat) x, P.validatePath path email = .ok () →
    (m.history path)[k]? = some x →
      ask (.kvRead path (some (k + 1))) = answer P (.ok (.kvValue ⟨path, k + 1, x⟩)) 200
  readAbove : ∀ path (k : Int), P.validatePath path email = .ok () → m.history path ≠ [] →
    (m.history path).length < k → k < 2 ^ 63 →
      ask (.kvRead path (some k)) = .ofExc versionNotFound
  versions : ∀ path, P.validatePath path email = .ok () → m.history path ≠ [] →
    ∃ l, ask (.kvVersions path) = .ok (.kvVersions l) 200 ∧
      l.map (·.version) = List.range' 1 (m.history path).length
  delete : ∀ path, P.validatePath path email = .ok () → m.history path ≠ [] →
    ask (.kvDelete path) = .ok .deleted 200
  list : ∃ l, ask .kvList = .ok (.kvListed l) 200 ∧
    (l.map (·.path)).Pairwise (fun s t => P.le s t = true) ∧ (l.map (·.path)).Nodup ∧
    (∀ path, path ∈ l.map (·.path) ↔
      m.history path ≠ [] ∧ P.validatePath path email = .ok ()) ∧
    ∀ x ∈ l, x.currentVersion = (m.history x.path).length

section Answers

variable {good : T → Prop} {canon : J → J} {w : World T B} {m : VersionedMap T J} {d : B}
  {path email : T} {x : Exc}

theorem kvWrite_of_invalid (hp : P.validatePath path email = .error x) (e : Env P) (data : J) :
    (w.call (e, .kvWrite path email data)).1 = .error x := by
  have happly : KVService.write path email data e w.session = (.error x, w.session) := by
    simp [KVService.write, hp]
  rw [call_eq (c := Call.kvWrite path email data) rfl happly]
  rfl

theorem kvRead_of_invalid (hp : P.validatePath path email = .error x) (e : Env P)
    (k : Option Int) : (w.call (e, .kvRead path email k)).1 = .error x := by
  rw [call_eq (c := Call.kvRead path email k) rfl (read_of_invalid hp k e w.session)]
  rfl

theorem kvVersions_of_invalid (hp : P.validatePath path email = .error x) (e : Env P) :
    (w.call (e, .kvVersions path email)).1 = .error x := by
  have happly : KVService.versions path email e w.session = (.error x, w.session) := by
    simp [KVService.versions, hp]
  rw [call_eq (c := Call.kvVersions path email) rfl happly]
  rfl

theorem kvDelete_of_invalid (hp : P.validatePath path email = .error x) (e : Env P) :
    (w.call (e, .kvDelete path email)).1 = .error x := by
  have happly : KVService.delete path email e w.session = (.error x, w.session) := by
    simp [KVService.delete, hp]
  rw [call_eq (c := Call.kvDelete path email) rfl happly]
  rfl

theorem kvWrite_tooLarge (hp : P.validatePath path email = .ok ()) (hd : w.dek = some d)
    {data : J} {raw : B} (hj : P.dumps data = .ok raw) (hs : 1048576 < P.len raw) (e : Env P) :
    (w.call (e, .kvWrite path email data)).1 = .error secretTooLarge := by
  have hd' : w.session.dek = some d := hd
  have happly : KVService.write path email data e w.session =
      (.error secretTooLarge, w.session) := by
    simp [KVService.write, hp, requireDek_of_some hd', hj, hs, secretTooLarge]
  rw [call_eq (c := Call.kvWrite path email data) rfl happly]
  rfl

/-- A write of an admissible value on a path of the user is not refused. -/
theorem World.Stores.write (h : w.Stores P m) (ht : w.db.KvTables P good)
    (hone : P.OneOwner good) (hgood : good email) (hk : w.Keyed P d) (hd : w.dek = some d)
    (hp : P.validatePath path email = .ok ()) {data : J} {raw : B}
    (hj : P.dumps data = .ok raw) (hs : P.len raw ≤ 1048576)
    (hlen : (m.history path).length + 1 < 2 ^ 63) (e : Env P) :
    ∃ r, (w.call (e, .kvWrite path email data)).1 = .ok (.kvWritten r) := by
  have hready : WriteReady P w.session path email data d raw := ⟨hp, hd, hj, hs, hk.keyOk⟩
  rcases h.lookup ht hone hgood hp with ⟨-, hf⟩ | ⟨item, hf, -, hholds⟩
  · rw [findOwned_eq ht hone hgood hp] at hf
    rw [call_eq (c := Call.kvWrite path email data) rfl (write_create hready e hf)]
    exact ⟨_, rfl⟩
  · rw [findOwned_eq ht hone hgood hp] at hf
    have hv : w.session.db.nextKvVersion item.id < 2 ^ 63 := by
      show w.db.nextKvVersion item.id < 2 ^ 63
      rw [hholds.next]
      exact hlen
    rw [call_eq (c := Call.kvWrite path email data) rfl (write_update hready e hf hv)]
    exact ⟨_, rfl⟩

omit [DecidableEq T] in
/-- The call of a read: the router lets no version below 1 through. -/
theorem call_kvRead {k : Option Int} (hk : ∀ n, k = some n → 1 ≤ n) :
    (UserRequest.kvRead path k : UserRequest T J).call email = some (.kvRead path email k) := by
  refine UserRequest.call_eq_some.2 ⟨?_, rfl⟩
  cases k with
  | none => rfl
  | some n => exact decide_eq_true (hk n rfl)

/-- The calls of a user whose requests are answered from what the calls return. -/
theorem World.Stores.served (h : w.Stores P m) (ht : w.db.KvTables P good)
    (hlaws : KvLaws P good canon) (hgood : good email) (hk : w.Keyed P d) (hd : w.dek = some d)
    (e : Env P) {ask : UserRequest T J → Response T J}
    (hinvalid : ∀ r : UserRequest T J, r.valid = false → ask r = .ofExc invalidRequest)
    (hask : ∀ (r : UserRequest T J) c, r.call email = some c →
      ask r = answer P (w.call (e, c)).1 r.status) : KvServed P email m ask := by
  have hanswers := h.answers ht hlaws hd
  refine {
    invalid := fun path k hk => hinvalid _ (decide_eq_false (Int.not_le.2 hk))
    refused := fun path x hp => ⟨fun data => ?_, fun k hk => ?_, ?_, ?_⟩
    write := fun path data raw hp hj hs hlen => ?_
    tooLarge := fun path data raw hp hj hs => ?_
    absent := fun path hp hnil => ?_
    readLast := fun path x hp hx => ?_
    readAt := fun path k x hp hx => ?_
    readAbove := fun path k hp hne hk hk' => ?_
    versions := fun path hp hne => ?_
    delete := fun path hp hne => ?_
    list := ?_ }
  · rw [hask _ _ rfl, kvWrite_of_invalid hp]
    rfl
  · rw [hask _ _ (call_kvRead hk), kvRead_of_invalid hp]
    rfl
  · rw [hask _ _ rfl, kvVersions_of_invalid hp]
    rfl
  · rw [hask _ _ rfl, kvDelete_of_invalid hp]
    rfl
  · obtain ⟨r, hr⟩ := h.write ht hlaws.oneOwner hgood hk hd hp hj hs hlen e
    obtain ⟨r', hrr, hpath, hversion⟩ := hanswers.write e path email data _ hgood hr
    cases hrr
    refine ⟨r, ?_, hpath, hversion⟩
    rw [hask _ _ rfl, hr]
    rfl
  · rw [hask _ _ rfl, kvWrite_tooLarge hp hd hj hs]
    rfl
  · obtain ⟨hread, hversions, hdelete⟩ := hanswers.absent e path email hgood hp hnil
    refine ⟨fun k hk => ?_, ?_, ?_⟩
    · rw [hask _ _ (call_kvRead hk), hread]
      rfl
    · rw [hask _ _ rfl, hversions]
      rfl
    · rw [hask _ _ rfl, hdelete]
      rfl
  · rw [hask _ _ rfl, hanswers.readLast e path email x hgood hp hx]
    rfl
  · have hk : ∀ n, some (k + 1 : Int) = some n → 1 ≤ n := by
      rintro _ ⟨⟩
      omega
    rw [hask _ _ (call_kvRead hk), hanswers.readAt e path email k x hgood hp hx]
    rfl
  · have hk₁ : ∀ n, some k = some n → 1 ≤ n := by
      rintro _ ⟨⟩
      omega
    rw [hask _ _ (call_kvRead hk₁), hanswers.readAbove e path email k hgood hp hne hk hk']
    rfl
  · obtain ⟨l, hl, hnumbers⟩ := hanswers.versions e path email hgood hp hne
    refine ⟨l, ?_, hnumbers⟩
    rw [hask _ _ rfl, hl]
    rfl
  · rw [hask _ _ rfl, hanswers.delete e path email hgood hp hne]
    rfl
  · obtain ⟨l, hl, hrest⟩ := hanswers.list e email hgood
    refine ⟨l, ?_, hrest⟩
    rw [hask _ _ rfl, hl]
    rfl

end Answers

/-! ## The refinement -/

section Refinement

variable {good : T → Prop} {settings : Settings}

/-- Calls are made for users who registered. -/
theorem calls_good (settings : Settings) (is : List (Env P × Request T J))
    (hreg : ∀ i ∈ is, i.2.Registers P good) :
    ∀ x ∈ (World.initial : World T B).calls settings is, ∀ email, x.2.email? = some email →
      good email := by
  induction is using List.reverseRecOn with
  | nil => rintro x ⟨⟩
  | append_singleton is i ih =>
    intro x hx email hemail
    rw [calls_concat] at hx
    have hbefore : ∀ j ∈ is, j.2.Registers P good := fun j hj =>
      hreg j (List.mem_append_left _ hj)
    rcases List.mem_append.1 hx with hx | hx
    · exact ih hbefore x hx email hemail
    · obtain ⟨e, r⟩ := i
      rcases behind_cases (Option.mem_toList.1 hx) with
        ⟨c, hc, rfl⟩ | ⟨credentials, u, p, c, rfl, hp, hc, rfl⟩
      · cases r <;> cases hc <;> cases hemail
      · rw [UserRequest.call_email hc] at hemail
        cases hemail
        exact (serving_run settings is hbefore).principal hp

end Refinement

/-- **The KV endpoints refine a versioned map.** After any run of requests from an empty database
    in which whoever registered had an address that `EmailStr` lets through, an unlocked vault
    answers the KV requests of any user whose credentials are accepted as the map of the
    exchanges so far says. -/
theorem kv_endpoints_refine {F : Type} (L : Lib F) (hcorrect : L.aesgcm.Correct)
    (hkey : L.aesgcm.KeyBound) (hff : L.floats.Lawful) (settings : Settings)
    (is : List (Env (concrete L) × Request Text (Json.Value F)))
    (hreg : ∀ i ∈ is, i.2.Registers (concrete L) EmailOk) (d : Bytes)
    (hd : (World.initial.served settings is).dek = some d) (e : Env (concrete L))
    (credentials : Option Text) (p : Principal Text)
    (hp : (World.initial.served settings is).db.principal (concrete L) e.now credentials =
      .ok p) :
    KvServed (concrete L) p.user.email
      (kvHeard Json.Value.canon (World.initial.exchanges settings is)) fun r =>
        ((World.initial.served settings is).serve settings (e, .user credentials r)).1 := by
  have hlaws := concrete_kvLaws hcorrect hkey hff
  have hheld := served_held settings World.initial is
  have hd' : (World.initial.after (World.initial.calls settings is)).dek = some d := by
    rw [← hd]
    exact (congrArg (·.2) hheld).symm
  obtain ⟨ht, hstores⟩ := stores_run hlaws.lawful hlaws.loads _ (calls_good settings is hreg)
  rw [kvHeard_eq]
  refine hstores.served ht hlaws ((serving_run settings is hreg).principal hp)
    (keyed_of_unlocked hlaws.lawful.unlocks hd') hd' e (fun r hv => ?_) fun r c hc => ?_
  · rw [World.serve, request_invalid hp hv]
  rw [serve_behind (x := (e, c)) ((behind_user hp).trans (by rw [hc]; rfl)),
    (call_held hheld (e, c)).1]
  rfl

namespace Sample

/-- A path is written twice over HTTP. -/
def kvRequests : List SampleRequest :=
  signedIn ++ [(env 5, .user (some token) (.kvWrite path (secret 1))),
    (env 6, .user (some token) (.kvWrite path (secret 2)))]

end Sample

open Sample in
theorem kv_endpoints_refine_sample :
    ((kvHeard Json.Value.canon (World.initial.exchanges {} kvRequests)).history path).length = 2 ∧
      ∃ p, (World.initial.served {} kvRequests).db.principal (concrete lib) (env 7).now
          (some token) = .ok p ∧
        KvServed (concrete lib) p.user.email
          (kvHeard Json.Value.canon (World.initial.exchanges {} kvRequests)) fun r =>
            ((World.initial.served {} kvRequests).serve {} (env 7, .user (some token) r)).1 := by
  obtain ⟨hlen, hd, hsome⟩ :
      ((kvHeard Json.Value.canon (World.initial.exchanges {} kvRequests)).history path).length =
          2 ∧
        (World.initial.served {} kvRequests).dek = some dataKey ∧
        ((World.initial.served {} kvRequests).db.principal (concrete lib) (env 7).now
          (some token)).toOption.isSome = true := by
    decide +kernel
  refine ⟨hlen, ?_⟩
  rcases hp : (World.initial.served {} kvRequests).db.principal (concrete lib) (env 7).now
    (some token) with x | p
  · rw [hp] at hsome
    cases hsome
  · exact ⟨p, rfl, kv_endpoints_refine lib aesgcm_correct aesgcm_keyBound floats_lawful {}
      kvRequests (registers_of_registering (by decide)) dataKey hd (env 7) (some token) p hp⟩

end MiniVault
