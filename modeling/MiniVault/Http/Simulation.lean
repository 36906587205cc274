/-
  The HTTP layer over the services. Behind a request stands at most one service call, made for the
  user whose credentials it carries; a run of requests leaves the vault, KV and key tables and the
  loaded key as the run of the calls behind it does, and answers with what those calls return.
-/
import MiniVault.Http.Step
import MiniVault.Service.Held

namespace MiniVault

open Kit

variable {T B J : Type} {P : Prims T B J} [DecidableEq T]

/-- The call behind a request. -/
def World.behind (w : World T B) : Env P × Request T J → Option (Env P × Call T J)
  | (e, .user credentials r) =>
    match w.db.principal P e.now credentials with
    | .ok p => (r.call p.user.email).map ((e, ·))
    | .error _ => none
  | (e, r) => r.vaultCall.map ((e, ·))

/-- The calls behind a run of requests. -/
def World.calls (settings : Settings) (w : World T B) :
    List (Env P × Request T J) → List (Env P × Call T J)
  | [] => []
  | i :: is => (w.behind i).toList ++ (w.serve settings i).2.calls settings is

section Steps

variable {settings : Settings} {e : Env P} {w w' : World T B} {r : Request T J}
  {resp : Response T J}

theorem calls_append (w : World T B) (is js : List (Env P × Request T J)) :
    w.calls settings (is ++ js) =
      w.calls settings is ++ (w.served settings is).calls settings js := by
  induction is generalizing w with
  | nil => rfl
  | cons i is ih =>
    rw [List.cons_append, World.calls, World.calls, ih, List.append_assoc]
    rfl

theorem calls_concat (w : World T B) (is : List (Env P × Request T J))
    (i : Env P × Request T J) :
    w.calls settings (is ++ [i]) =
      w.calls settings is ++ ((w.served settings is).behind i).toList := by
  rw [calls_append, World.calls, World.calls, List.append_nil]

theorem behind_vault {c : Call T J} (hc : r.vaultCall = some c) :
    w.behind (e, r) = some (e, c) := by
  cases r <;> cases hc <;> rfl

theorem behind_user {credentials : Option T} {p : Principal T} {r : UserRequest T J}
    (hp : w.db.principal P e.now credentials = .ok p) :
    w.behind (e, .user credentials r) = (r.call p.user.email).map ((e, ·)) := by
  unfold World.behind
  dsimp only
  rw [hp]

/-- A call is behind the requests of the vault, and behind those of a user whose credentials are
    accepted. -/
theorem behind_cases {x : Env P × Call T J} (h : w.behind (e, r) = some x) :
    (∃ c, r.vaultCall = some c ∧ x = (e, c)) ∨
      ∃ credentials u p c, r = .user credentials u ∧
        w.db.principal P e.now credentials = .ok p ∧ u.call p.user.email = some c ∧
          x = (e, c) := by
  cases r with
  | user credentials u =>
    rcases hp : w.db.principal P e.now credentials with y | p
    · unfold World.behind at h
      dsimp only at h
      rw [hp] at h
      cases h
    · rw [behind_user hp] at h
      obtain ⟨c, hc, rfl⟩ := Option.map_eq_some_iff.1 h
      exact .inr ⟨credentials, u, p, c, rfl, hp, hc, rfl⟩
  | register => cases h
  | login => cases h
  | _ => exact .inl ⟨_, rfl, (Option.some.inj h).symm⟩

/-- A request is answered with what the call behind it returns. -/
theorem serve_behind {x : Env P × Call T J} (h : w.behind (e, r) = some x) :
    (w.serve settings (e, r)).1 = answer P (w.call x).1 r.status := by
  rcases behind_cases h with ⟨c, hc, rfl⟩ | ⟨credentials, u, p, c, rfl, hp, hc, rfl⟩
  · rw [World.serve, request_vault hc]
  · rw [World.serve, request_user hp hc]
    rfl

omit [DecidableEq T] in
/-- The row that a handler adds is not held. -/
theorem audited_held (w : World T B) (e : Env P) (email : T) (row : Option (String × String × T))
    (res : Except Exc (Data T J)) : (w.audited P e email row res).held = w.held := by
  obtain ⟨logs, hlogs⟩ := audited_db w e email row res
  rw [World.held, World.held, hlogs, audited_dek]
  rfl

/-- A request without a call behind it leaves what is held. -/
theorem Served.held (hs : Served settings e w r resp w') (h : w.behind (e, r) = none) :
    w'.held = w.held := by
  cases hs with
  | vault hc hs =>
    rw [behind_vault hc] at h
    cases h
  | service hp hc hs =>
    rw [behind_user hp, hc] at h
    cases h
  | _ => exact rfl

theorem serve_held_of_some {x : Env P × Call T J} (h : w.behind (e, r) = some x) :
    (w.serve settings (e, r)).2.held = (w.call x).2.held := by
  rcases behind_cases h with ⟨c, hc, rfl⟩ | ⟨credentials, u, p, c, rfl, hp, hc, rfl⟩
  · rw [World.serve, request_vault hc]
  · rw [World.serve, request_user hp hc]
    exact audited_held _ e _ _ _

/-- What one request leaves held, the call behind it leaves held in any world that holds the
    same. -/
theorem serve_held (h : w.held = w'.held) (i : Env P × Request T J) :
    (w.serve settings i).2.held = (w'.after (w.behind i).toList).held := by
  rcases hb : w.behind i with _ | x
  · exact (Served.held (served_of_request settings i.1 w i.2) hb).trans h
  · rw [serve_held_of_some hb]
    exact (call_held h x).2

end Steps

/-! ## Runs -/

theorem World.trace_concat (w : World T B) (is : List (Env P × Call T J)) (i : Env P × Call T J) :
    w.trace (is ++ [i]) = w.trace is ++ [(i, ((w.after is).call i).1)] :=
  Run.trace_concat w is i

theorem World.exchanges_concat (settings : Settings) (w : World T B)
    (is : List (Env P × Request T J)) (i : Env P × Request T J) :
    w.exchanges settings (is ++ [i]) =
      w.exchanges settings is ++ [(i, ((w.served settings is).serve settings i).1)] :=
  Run.trace_concat w is i

theorem served_held (settings : Settings) (w : World T B) (is : List (Env P × Request T J)) :
    (w.served settings is).held = (w.after (w.calls settings is)).held := by
  induction is using List.reverseRecOn with
  | nil => rfl
  | append_singleton is i ih =>
    rw [calls_concat, World.after, Run.final_append, World.served, Run.final_concat]
    exact serve_held ih i

/-- **The requests of a run are answered as the calls behind them.** Whatever came before, users
    and sessions decide which call a request makes, and the calls alone decide its answer and what
    the vault, KV and key tables hold. -/
theorem requests_simulate_calls (settings : Settings) (w : World T B)
    (is : List (Env P × Request T J)) :
    (w.served settings is).held = (w.after (w.calls settings is)).held ∧
      ∀ (i : Env P × Request T J) x, (w.served settings is).behind i = some x →
        ((w.served settings is).serve settings i).1 =
          answer P ((w.after (w.calls settings is)).call x).1 i.2.status := by
  have hheld := served_held settings w is
  refine ⟨hheld, fun i x hx => ?_⟩
  rw [serve_behind hx, (call_held hheld x).1]

end MiniVault
