/-
  Outages. A vault that is locked, restarted or asked for with wrong passphrases loses its key and
  nothing else; the passphrase that made it brings back the service as it was before, so that no
  later answer tells that there was an outage.
-/
import MiniVault.Http.DataKey
import MiniVault.Http.Idle
import MiniVault.Http.KvMap

namespace MiniVault

open Kit

variable {T B J : Type} {P : Prims T B J} [DecidableEq T]

/-- Requests that may lock or unlock the vault, and restarts of the process. -/
def Request.interrupts : Request T J → Bool
  | .vaultUnlock _ | .vaultLock | .vaultStatus | .restart => true
  | _ => false

section Outage

variable {settings : Settings} {e : Env P} {w w' : World T B} {r : Request T J}
  {resp : Response T J}

/-- An interruption leaves the tables, but for the audit log. -/
theorem Served.interrupts (hs : Served settings e w r resp w') (h : r.interrupts = true) :
    w'.db.unlogged = w.db.unlogged := by
  cases hs with
  | raised => rfl
  | @vault r c res w' hc hs =>
    cases hs with
    | vaultInit =>
      cases r with
      | vaultInit => cases h
      | _ => cases hc
    | fail => rfl
    | view => rfl
    | vaultUnlock => rfl
    | vaultLock => rfl
    | restart => rfl
    | _ => cases r <;> cases hc
  | _ => cases h

/-- An outage is made of interruptions and idle exchanges. -/
theorem outage_unlogged {is : List (Env P × Request T J)}
    (h : ∀ x ∈ w.exchanges settings is, x.1.2.interrupts = true ∨ idle x = true) :
    (w.served settings is).db.unlogged = w.db.unlogged := by
  induction is generalizing w with
  | nil => rfl
  | cons i is ih =>
    have hs : Served settings i.1 w i.2 (w.serve settings i).1 (w.serve settings i).2 :=
      served_of_request settings i.1 w i.2
    have hone : (w.serve settings i).2.db.unlogged = w.db.unlogged := by
      rcases h (i, (w.serve settings i).1) List.mem_cons_self with hi | hi
      · exact hs.interrupts hi
      · exact congrArg (·.1) (hs.idle hi)
    exact (ih fun x hx => h x (List.mem_cons_of_mem _ hx)).trans hone

/-- Worlds that differ in a valid log go through the same exchanges. -/
theorem exchanges_alike (settings : Settings) (h : w.AlikeButLog P w')
    (is : List (Env P × Request T J)) :
    w'.exchanges settings is = w.exchanges settings is := by
  have htrace := ((idling settings).trace_of_pruned h
    (.refl MiniVault.idle (w.exchanges settings is))).1
  rw [World.exchanges, Run.trace_map_fst] at htrace
  exact htrace

theorem unlock_serve {config : VaultConfig T} {p : T} {dek : B}
    (hc : w.db.vaultConfig.head? = some config)
    (hu : VaultService.unwrapDek P config p = .ok dek) :
    w.serve settings (e, (.vaultUnlock p : Request T J)) =
      (.ok (.vaultStatus true true) 200, { w with dek := some dek }) := by
  have hunlock := unlock_of_unwrap (e := e) (s := w.session) hc hu
  rw [World.serve, request_vault (r := .vaultUnlock p) rfl,
    call_eq (c := Call.vaultUnlock p) rfl hunlock]
  rfl

end Outage

/-- **Recovery.** Let a run leave the vault unlocked, and let nothing follow but locks, unlocks,
    status requests, restarts, and requests that only look or fail. The passphrase of the one
    successful `init` is then accepted, and from there on every run of requests is answered as it
    would have been answered before the outage. -/
theorem outage_recovered {F : Type} (L : Lib F) (hcorrect : L.aesgcm.Correct)
    (hkey : L.aesgcm.KeyBound) (settings : Settings)
    (pre outage : List (Env (concrete L) × Request Text (Json.Value F))) (d : Bytes)
    (hd : (World.initial.served settings pre).dek = some d) (e₀ : Env (concrete L)) (p : Text)
    (hinit : (e₀, p) ∈ inits (World.initial.exchanges settings pre))
    (houtage : ∀ x ∈ (World.initial.served settings pre).exchanges settings outage,
      x.1.2.interrupts = true ∨ idle x = true) (e : Env (concrete L)) :
    ((World.initial.served settings (pre ++ outage)).serve settings (e, .vaultUnlock p)).1 =
        .ok (.vaultStatus true true) 200 ∧
      ∀ post : List (Env (concrete L) × Request Text (Json.Value F)),
        ((World.initial.served settings (pre ++ outage)).serve settings
            (e, .vaultUnlock p)).2.exchanges settings post =
          (World.initial.served settings pre).exchanges settings post := by
  have hP := concrete_lawful (F := F) hcorrect hkey
  have hchained : ∀ is : List (Env (concrete L) × Request Text (Json.Value F)),
      Chained (concrete L) (World.initial.served settings is : World Text Bytes).db.auditLogs :=
    served_chained settings ⟨⟨rfl, rfl⟩, List.nodup_nil, trivial⟩
  have hdb : (World.initial.served settings (pre ++ outage)).db.unlogged =
      (World.initial.served settings pre).db.unlogged := by
    rw [World.served, Run.final_append]
    exact outage_unlogged houtage
  obtain ⟨hconfig, hk, hdek⟩ : (World.initial.served settings pre).db.vaultConfig =
        [newConfig (concrete L) e₀ p] ∧
      aesKeyOk (concrete L)
        ((concrete L).deriveKey p e₀.salt (concrete L).defaultParams) = true ∧ d = e₀.dek := by
    have hlife := vaultLife_run hP settings pre
    generalize inits (World.initial.exchanges settings pre) = made at hlife hinit
    cases hlife with
    | unmade => cases hinit
    | made e p hconfig hk hdek =>
      cases List.mem_singleton.1 hinit
      exact ⟨hconfig, hk, hdek d hd⟩
  have hconfig' : (World.initial.served settings (pre ++ outage)).db.vaultConfig.head? =
      some (newConfig (concrete L) e₀ p) := by
    have h : (World.initial.served settings (pre ++ outage)).db.vaultConfig =
        (World.initial.served settings pre).db.vaultConfig := congrArg (·.vaultConfig) hdb
    rw [h, hconfig]
    rfl
  rw [unlock_serve hconfig' (unwrapDek_self hP hk)]
  have hopened : (World.initial.served settings pre).unlogged =
      ((World.initial.served settings (pre ++ outage)).db.unlogged, some e₀.dek) := by
    rw [World.unlogged, hdb, hd, hdek]
  have halike : (World.initial.served settings pre).AlikeButLog (concrete L)
      { World.initial.served settings (pre ++ outage) with dek := some e₀.dek } :=
    ⟨hopened, hchained pre, hchained (pre ++ outage)⟩
  exact ⟨rfl, fun post => exchanges_alike settings halike post⟩

namespace Sample

/-- A vault in use is restarted, asked for with a wrong passphrase, and refuses to write. -/
def outage : List SampleRequest :=
  [(env 7, .restart), (env 8, .vaultUnlock path),
    (env 9, .user (some token) (.kvWrite path (secret 3)))]

end Sample

open Sample in
theorem outage_recovered_sample :
    ((World.initial.served {} (kvRequests ++ outage)).serve {} (env 10, .vaultUnlock passphrase)).1 =
        .ok (.vaultStatus true true) 200 ∧
      ∀ post : List SampleRequest,
        ((World.initial.served {} (kvRequests ++ outage)).serve {}
            (env 10, .vaultUnlock passphrase)).2.exchanges {} post =
          (World.initial.served {} kvRequests).exchanges {} post := by
  have hinit : (World.serve {} World.initial
      ((env 1, .vaultInit passphrase passphrase) : SampleRequest)).1 =
        .ok (.vaultStatus true false) 201 := rfl
  obtain ⟨hd, hout⟩ : (World.initial.served {} kvRequests).dek = some dataKey ∧
      ∀ x ∈ (World.initial.served {} kvRequests).exchanges {} outage,
        x.1.2.interrupts = true ∨ idle x = true := by
    decide +kernel
  refine outage_recovered lib aesgcm_correct aesgcm_keyBound {} kvRequests outage dataKey hd
    (env 1) passphrase ?_ hout (env 10)
  refine List.mem_filterMap.2 ⟨_, List.mem_cons_self, ?_⟩
  rw [hinit]

end MiniVault
