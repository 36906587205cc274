/-
  Guessing a password over the network. However many clients guess, and however their guesses
  are spread over the requests of others, a registered account has room for a full count of
  wrong passwords for every lock that fits into the time they took, one more, and one for each
  time that its owner logs in.
-/
import MiniVault.Auth.Lockout

namespace MiniVault

open Kit Lockout

variable {T B J : Type} {P : Prims T B J} [DecidableEq T]

/-- Is it a login to the account, between two times, that was given the answer? -/
def isAttempt (P : Prims T B J) (account : T) (answer : Answer) (start finish : Time) :
    (Env P × Request T J) × Response T J → Bool
  | ((e, .login email _), resp) =>
    decide (P.normalizeEmail email = account ∧ resp.answer? = some answer ∧ start ≤ e.now ∧
      e.now ≤ finish)
  | _ => false

section Attempts

variable {account : T} {answer : Answer} {start finish : Time}
  {y : (Env P × Request T J) × Response T J}

/-- An exchange adds the attempt that it is. -/
theorem answered_attempted (as : List Attempt)
    (h : y.1.2.isLogin = true ∨ attempted P account as y = as) :
    answered answer start finish (attempted P account as y) =
      answered answer start finish as +
        if isAttempt P account answer start finish y = true then 1 else 0 := by
  obtain ⟨⟨e, r⟩, resp⟩ := y
  cases r with
  | login email password =>
    unfold attempted isAttempt
    by_cases hemail : P.normalizeEmail email = account
    · rcases ha : resp.answer? with _ | a
      · simp [hemail, ha]
      · simp [hemail, ha, answered_cons]
    · simp [hemail]
  | _ =>
    rcases h with h | h
    · cases h
    · rw [h]
      rfl

/-- Once the account is there, only logins are attempts on it, and nothing starts them again. -/
theorem attempted_of_found {settings : Settings} {e : Env P} {w w' : World T B} {r : Request T J}
    {resp : Response T J} (hs : Served settings e w r resp w')
    (hfound : w.db.findUser account ≠ none) (as : List Attempt) :
    r.isLogin = true ∨ attempted P account as ((e, r), resp) = as := by
  cases r with
  | login => exact .inl rfl
  | register email password confirmation =>
    right
    cases hs with
    | raised _ x => cases x <;> rfl
    | vault hc => cases hc
    | registered hf =>
      refine if_neg fun hemail => hfound ?_
      rw [← hemail]
      exact hf
  | _ => exact .inr rfl

/-- The attempts after the registration are those of the exchanges that followed it. -/
theorem answered_attempts {settings : Settings} {is : List (Env P × Request T J)}
    {before after : Exchanges P} {x : (Env P × Request T J) × Response T J} {registered : T}
    (htr : (World.initial : World T B).exchanges settings is = before ++ x :: after)
    (hreg : Registers x account registered) :
    answered answer start finish
        (attempts P account ((World.initial : World T B).exchanges settings is)) =
      after.countP (isAttempt P account answer start finish) := by
  induction after using List.reverseRecOn generalizing is with
  | nil =>
    rw [htr, attempts_concat]
    cases hreg
    show answered answer start finish (if _ then [] else _) = 0
    rw [if_pos rfl]
    rfl
  | append_singleton after y ih =>
    rw [show before ++ x :: (after ++ [y]) = (before ++ x :: after) ++ [y] by simp] at htr
    obtain ⟨is₁, is₂, -, hbefore, hy⟩ := Run.trace_split htr
    have hfound : (World.initial.served settings is₁ : World T B).db.findUser account ≠ none := by
      obtain ⟨u, hu, hemail, -⟩ := (lockoutRecorded_run settings is₁).registered x
        (by rw [World.exchanges, ← hbefore]; simp) account registered hreg
      intro hnone
      exact findUser_eq_none hnone hu hemail
    have hs := served_of_request settings y.1.1 (World.initial.served settings is₁ : World T B)
      y.1.2
    have hresp : ((World.initial.served settings is₁ : World T B).request settings y.1.1
        y.1.2).1 = y.2 := hy
    rw [hresp] at hs
    rw [htr, attempts_concat, answered_attempted _ (attempted_of_found hs hfound _), hbefore,
      List.countP_append, List.countP_singleton]
    exact congrArg (· + _) (ih hbefore.symm)

end Attempts

/-- **Online guessing is slow.** In any run of requests whose logins come in order of time, after
    an account was registered: the wrong passwords that were tried on it within a stretch of time
    are at most five for each five minutes of the stretch, five more, and five for each login
    with the right one in it. -/
theorem guesses_bounded (settings : Settings) (is : List (Env P × Request T J))
    (hordered : ((is.filter (·.2.isLogin)).map (·.1.now)).Pairwise (· ≤ ·))
    {before after : Exchanges P} {x : (Env P × Request T J) × Response T J} {account registered : T}
    (htr : (World.initial : World T B).exchanges settings is = before ++ x :: after)
    (hreg : Registers x account registered) (start length : Time) :
    after.countP (isAttempt P account .wrong start (start + length)) ≤
      5 * (length / minutes 5 + 1 +
        after.countP (isAttempt P account .right start (start + length))) := by
  have hrec : LockoutRecorded ((World.initial : World T B).exchanges settings is) _ :=
    lockoutRecorded_run settings is
  obtain ⟨u, hu, hemail, -⟩ := hrec.registered x (by rw [htr]; simp) account registered hreg
  have hlaw := hrec.lawful (loginsOrdered_exchanges hordered) u hu
  rw [hemail] at hlaw
  rw [← answered_attempts htr hreg, ← answered_attempts htr hreg]
  exact wrong_le (by decide) (by decide) hlaw start length

open Sample in
/-- The bound is met: five guesses in four seconds. -/
theorem guesses_bounded_sample :
    let after := ((World.initial : World Text Bytes).exchanges {} attacked).tail
    let guesses := fun answer => after.countP (isAttempt (concrete lib) alice answer
      (envAt 2 2).now ((envAt 2 2).now + seconds 4))
    guesses .wrong = 5 ∧ guesses .right = 0 ∧
      guesses .wrong ≤ 5 * (seconds 4 / minutes 5 + 1 + guesses .right) := by
  intro after guesses
  have htr : (World.initial : World Text Bytes).exchanges {} attacked =
      [] ++ ((env 1, .register alice passphrase passphrase),
        (World.initial.request {} (env 1) (.register alice passphrase passphrase)).1) :: after := rfl
  have hreg : Registers ((env 1, .register alice passphrase passphrase),
      (World.initial.request {} (env 1) (.register alice passphrase passphrase)).1)
      alice passphrase := registers_of_isOk (served_of_request {} _ _ _) (by decide +kernel)
  obtain ⟨hwrong, hright⟩ : guesses .wrong = 5 ∧ guesses .right = 0 := by decide +kernel
  exact ⟨hwrong, hright, guesses_bounded {} attacked (by decide) htr hreg _ _⟩

end MiniVault
