/-
  Account lockout over whole histories: the two lockout columns of a user row are the count and
  the lock that the attempts on the account specify, so `login` refuses exactly the attempts that
  the history locks out.
-/
import MiniVault.Auth.Accounts
import MiniVault.Kit.Lockout
import MiniVault.Model.Sample

namespace MiniVault

open Kit Lockout

variable {T B J : Type} {P : Prims T B J}

/-! ## Histories -/

/-- The exchange registered the account with the password. -/
inductive Registers : (Env P × Request T J) × Response T J → T → T → Prop
  | mk (e : Env P) (email password : T) (n : Nat) :
      Registers
        ((e, .register email password password), .ok (.registered (P.normalizeEmail email)) n)
        (P.normalizeEmail email) password

/-- What a login was told; a request that died on the server was told nothing. -/
def Response.answer? : Response T J → Option Answer
  | .ok _ _ => some .right
  | .error err =>
    match err.code with
    | .accountLocked => some .locked
    | .invalidCredentials => some .wrong
    | _ => none

/-- The logins of a history come at times that do not go back. -/
def LoginsOrdered (tr : Exchanges P) : Prop :=
  (tr.filter (·.1.2.isLogin)).Pairwise fun x y => x.1.1.now ≤ y.1.1.now

theorem LoginsOrdered.concat {tr : Exchanges P} {x : (Env P × Request T J) × Response T J}
    (h : LoginsOrdered (tr ++ [x])) : LoginsOrdered tr ∧
      (x.1.2.isLogin = true → ∀ y ∈ tr, y.1.2.isLogin = true → y.1.1.now ≤ x.1.1.now) := by
  unfold LoginsOrdered at h
  rw [List.filter_append, List.pairwise_append] at h
  obtain ⟨htr, -, hx⟩ := h
  refine ⟨htr, fun hlogin y hy hy' => hx y (List.mem_filter.2 ⟨hy, hy'⟩) x ?_⟩
  exact List.mem_filter.2 ⟨List.mem_singleton_self x, hlogin⟩

/-- The logins of a run are those of its requests. -/
theorem loginsOrdered_exchanges [DecidableEq T] {settings : Settings}
    {is : List (Env P × Request T J)} {w : World T B}
    (h : ((is.filter (·.2.isLogin)).map (·.1.now)).Pairwise (· ≤ ·)) :
    LoginsOrdered (w.exchanges settings is) := by
  rw [List.pairwise_map] at h
  unfold LoginsOrdered
  have hmap : ((w.exchanges settings is).filter (·.1.2.isLogin)).map (·.1) =
      is.filter (·.2.isLogin) := by
    have hfst : (w.exchanges settings is).map (·.1) = is := Run.trace_map_fst w is
    calc ((w.exchanges settings is).filter (·.1.2.isLogin)).map (·.1)
        = ((w.exchanges settings is).map (·.1)).filter (·.2.isLogin) := by
          rw [List.filter_map]
          rfl
      _ = is.filter (·.2.isLogin) := by rw [hfst]
  rw [← hmap, List.pairwise_map] at h
  exact h

section Attempts

variable [DecidableEq T]

/-- The attempts on an account after one more exchange; a registration starts them. -/
def attempted (P : Prims T B J) (account : T) (as : List Attempt) :
    (Env P × Request T J) × Response T J → List Attempt
  | ((e, .login email _), resp) =>
    if P.normalizeEmail email = account then
      match resp.answer? with
      | some answer => ⟨e.now, answer⟩ :: as
      | none => as
    else as
  | ((_, .register email _ _), .ok _ _) => if P.normalizeEmail email = account then [] else as
  | _ => as

/-- The attempts on an account since its registration, newest first. -/
def attempts (P : Prims T B J) (account : T) (tr : Exchanges P) : List Attempt :=
  tr.foldl (attempted P account) []

theorem attempts_concat (account : T) (tr : Exchanges P)
    (x : (Env P × Request T J) × Response T J) :
    attempts P account (tr ++ [x]) = attempted P account (attempts P account tr) x :=
  List.foldl_append

theorem attempted_login {e : Env P} {email password : T} {resp : Response T J} {answer : Answer}
    (h : resp.answer? = some answer) (as : List Attempt) :
    attempted P (P.normalizeEmail email) as ((e, .login email password), resp) =
      ⟨e.now, answer⟩ :: as := by
  unfold attempted
  simp only [if_true, h]

theorem attempted_other {e : Env P} {account email password : T} {resp : Response T J}
    (h : P.normalizeEmail email ≠ account) (as : List Attempt) :
    attempted P account as ((e, .login email password), resp) = as := by
  unfold attempted
  exact if_neg h

/-- Only logins are attempts. -/
theorem mem_attempts {account : T} {tr : Exchanges P} :
    ∀ a ∈ attempts P account tr, ∃ x ∈ tr, x.1.2.isLogin = true ∧ x.1.1.now = a.time := by
  induction tr using List.reverseRecOn with
  | nil => rintro a ⟨⟩
  | append_singleton tr x ih =>
    have hold : ∀ a ∈ attempts P account tr,
        ∃ y ∈ tr ++ [x], y.1.2.isLogin = true ∧ y.1.1.now = a.time := by
      intro a ha
      obtain ⟨y, hy, h⟩ := ih a ha
      exact ⟨y, List.mem_append_left _ hy, h⟩
    intro a ha
    rw [attempts_concat] at ha
    unfold attempted at ha
    split at ha
    · split_ifs at ha
      · split at ha
        · rcases List.mem_cons.1 ha with rfl | ha
          · exact ⟨_, List.mem_append_right _ List.mem_cons_self, rfl, rfl⟩
          · exact hold a ha
        · exact hold a ha
      · exact hold a ha
    · split_ifs at ha
      · cases ha
      · exact hold a ha
    · exact hold a ha

end Attempts

/-! ## The columns of a user row -/

/-- The lockout columns are those the attempts specify. -/
structure User.Tracks (u : User T) (as : List Attempt) : Prop where
  count : u.failedLoginAttempts = strikes 5 as
  lock : u.lockedUntil = lockEnd 5 (minutes 5) as

section Tracks

variable {u : User T} {as : List Attempt} {now : Time}

theorem User.Tracks.columns (h : u.Tracks as) :
    (u.failedLoginAttempts ≤ 4 ∧ u.lockedUntil = none) ∨
      (u.failedLoginAttempts = 5 ∧ u.lockedUntil.isSome = true) := by
  have hle := strikes_le (by decide : 0 < 5) as
  have hnone : lockEnd 5 (minutes 5) as = none ↔ strikes 5 as ≠ 5 :=
    lockEnd_eq_none (by decide) as
  rw [← h.count] at hle hnone
  rw [← h.lock] at hnone
  rcases hl : u.lockedUntil with _ | l
  · have hne := hnone.1 hl
    exact .inl ⟨by omega, rfl⟩
  · refine .inr ⟨?_, rfl⟩
    by_contra hne
    rw [hnone.2 hne] at hl
    cases hl

theorem User.Tracks.lockedAt_iff (h : u.Tracks as) (hlaw : Lawful 5 (minutes 5) as)
    (hnow : ∀ a ∈ as, a.time ≤ now) : u.lockedAt now ↔ LockedOut 5 (minutes 5) as now := by
  rw [lockedOut_iff hlaw hnow, ← h.lock]
  rfl

/-- A refused attempt moves nothing. -/
theorem User.Tracks.refused (h : u.Tracks as) : u.Tracks (⟨now, .locked⟩ :: as) :=
  ⟨h.count, h.lock⟩

theorem User.Tracks.right : (u.withLockout 0 none).Tracks (⟨now, .right⟩ :: as) := ⟨rfl, rfl⟩

/-- The count starts again after a lock. -/
theorem User.Tracks.unlocked_count (h : u.Tracks as) :
    u.unlocked.failedLoginAttempts = strikes 5 as % 5 := by
  unfold User.unlocked
  rcases h.columns with ⟨hle, hnone⟩ | ⟨hfive, hsome⟩
  · rw [hnone, ← h.count]
    show u.failedLoginAttempts = u.failedLoginAttempts % 5
    omega
  · obtain ⟨l, hl⟩ := Option.isSome_iff_exists.1 hsome
    rw [hl, ← h.count, hfive]

theorem User.Tracks.wrong (h : u.Tracks as) :
    (u.withLockout (u.missed now).1 (u.missed now).2).Tracks (⟨now, .wrong⟩ :: as) := by
  have hcount : u.unlocked.failedLoginAttempts + 1 = strikes 5 (⟨now, .wrong⟩ :: as) := by
    rw [h.unlocked_count, strikes_wrong rfl]
  refine ⟨hcount, ?_⟩
  have hle := strikes_le (by decide : 0 < 5) (⟨now, .wrong⟩ :: as)
  show (if 5 ≤ u.unlocked.failedLoginAttempts + 1 then some (now + minutes 5) else none) =
    if strikes 5 (⟨now, .wrong⟩ :: as) = 5 then some (now + minutes 5) else none
  rw [hcount]
  by_cases hfive : strikes 5 (⟨now, .wrong⟩ :: as) = 5
  · rw [if_pos hfive.ge, if_pos hfive]
  · rw [if_neg (by omega), if_neg hfive]

end Tracks

/-! ## Every run -/

/-- What a history says of the lockout columns. -/
structure LockoutRecorded [DecidableEq T] (tr : Exchanges P) (w : World T B) : Prop where
  accounts : w.db.Accounts
  tracked : ∀ u ∈ w.db.users, u.Tracks (attempts P u.email tr)
  lawful : LoginsOrdered tr → ∀ u ∈ w.db.users, Lawful 5 (minutes 5) (attempts P u.email tr)
  registered : ∀ x ∈ tr, ∀ email password, Registers x email password →
    ∃ u ∈ w.db.users, u.email = email ∧ u.passwordHash = P.hashPassword x.1.1.passwordSalt password
  drawn : ∀ s ∈ w.db.sessions, ∃ x ∈ tr, s.tokenHash = tokenDigest P x.1.1.token

section Steps

variable [DecidableEq T] {settings : Settings} {tr : Exchanges P} {e : Env P} {w w' : World T B}
  {x : (Env P × Request T J) × Response T J}

theorem lockoutRecorded_initial : LockoutRecorded (P := P) [] World.initial where
  accounts := accounts_initial
  tracked _ hu := by cases hu
  lawful _ _ hu := by cases hu
  registered _ hx := by cases hx
  drawn _ hs := by cases hs

/-- The rows of registered accounts stay, with their password hashes. -/
theorem LockoutRecorded.registered_concat (h : LockoutRecorded tr w)
    (hx : ∀ email password, ¬ Registers x email password)
    (hu : ∀ u ∈ w.db.users, ∃ u' ∈ w'.db.users,
      u'.email = u.email ∧ u'.passwordHash = u.passwordHash) :
    ∀ y ∈ tr ++ [x], ∀ email password, Registers y email password →
      ∃ u ∈ w'.db.users, u.email = email ∧
        u.passwordHash = P.hashPassword y.1.1.passwordSalt password := by
  intro y hy email password hreg
  rcases List.mem_append.1 hy with hy | hy
  · obtain ⟨u, hmem, rfl, hhash⟩ := h.registered y hy email password hreg
    obtain ⟨u', hmem', hemail, hhash'⟩ := hu u hmem
    exact ⟨u', hmem', hemail, hhash'.trans hhash⟩
  · rw [List.mem_singleton.1 hy] at hreg
    exact absurd hreg (hx email password)

theorem LockoutRecorded.drawn_concat (h : LockoutRecorded tr w) {s : Session T}
    (hs : s ∈ w.db.sessions) : ∃ y ∈ tr ++ [x], s.tokenHash = tokenDigest P y.1.1.token := by
  obtain ⟨y, hy, htoken⟩ := h.drawn s hs
  exact ⟨y, List.mem_append_left _ hy, htoken⟩

/-- An exchange that leaves the users and is an attempt on none of them. -/
theorem LockoutRecorded.frame (h : LockoutRecorded tr w) (ha : w'.db.Accounts)
    (hu : w'.db.users = w.db.users)
    (hs : ∀ s ∈ w'.db.sessions, ∃ s' ∈ w.db.sessions, s.tokenHash = s'.tokenHash)
    (hx : ∀ u ∈ w.db.users, ∀ as, attempted P u.email as x = as)
    (hreg : ∀ email password, ¬ Registers x email password) :
    LockoutRecorded (tr ++ [x]) w' := by
  have hsame : ∀ u ∈ w.db.users, attempts P u.email (tr ++ [x]) = attempts P u.email tr := by
    intro u hmem
    rw [attempts_concat, hx u hmem]
  refine ⟨ha, fun u hmem => ?_, fun hord u hmem => ?_, ?_, fun s hmem => ?_⟩
  · rw [hu] at hmem
    rw [hsame u hmem]
    exact h.tracked u hmem
  · rw [hu] at hmem
    rw [hsame u hmem]
    exact h.lawful hord.concat.1 u hmem
  · refine h.registered_concat hreg fun u hmem => ⟨u, ?_, rfl, rfl⟩
    rw [hu]
    exact hmem
  · obtain ⟨s', hmem', htoken⟩ := hs s hmem
    rw [htoken]
    exact h.drawn_concat hmem'

/-- A login that answers an attempt on a registered account. -/
theorem LockoutRecorded.answered {email password : T} {resp : Response T J} {user : User T}
    {answer : Answer} (h : LockoutRecorded tr w) (ha : w'.db.Accounts)
    (hf : w.db.findUser (P.normalizeEmail email) = some user)
    (hr : resp.answer? = some answer) (hl : answer = .locked ↔ user.lockedAt e.now)
    (hu : ∀ u ∈ w'.db.users, (u ∈ w.db.users ∧ u.email ≠ P.normalizeEmail email) ∨
      (u.email = P.normalizeEmail email ∧
        u.Tracks (⟨e.now, answer⟩ :: attempts P (P.normalizeEmail email) tr)))
    (hkept : ∀ u ∈ w.db.users, ∃ u' ∈ w'.db.users,
      u'.email = u.email ∧ u'.passwordHash = u.passwordHash)
    (hs : ∀ s ∈ w'.db.sessions, s ∈ w.db.sessions ∨ s.tokenHash = tokenDigest P e.token) :
    LockoutRecorded (tr ++ [((e, .login email password), resp)]) w' := by
  obtain ⟨huser, hemail⟩ := findUser_eq_some hf
  refine ⟨ha, fun u hmem => ?_, fun hord u hmem => ?_, ?_, fun s hmem => ?_⟩
  · rw [attempts_concat]
    rcases hu u hmem with ⟨hmem, hne⟩ | ⟨heq, htracks⟩
    · rw [attempted_other (Ne.symm hne)]
      exact h.tracked u hmem
    · rw [heq, attempted_login hr]
      exact htracks
  · obtain ⟨hord, hlast⟩ := hord.concat
    rw [attempts_concat]
    rcases hu u hmem with ⟨hmem, hne⟩ | ⟨heq, -⟩
    · rw [attempted_other (Ne.symm hne)]
      exact h.lawful hord u hmem
    · have htimes : ∀ a ∈ attempts P (P.normalizeEmail email) tr, a.time ≤ e.now := by
        intro a hmem
        obtain ⟨y, hy, hlogin, hnow⟩ := mem_attempts a hmem
        rw [← hnow]
        exact hlast rfl y hy hlogin
      have hlaw := h.lawful hord user huser
      have htracks := h.tracked user huser
      rw [hemail] at hlaw htracks
      rw [heq, attempted_login hr]
      exact ⟨hlaw, htimes, hl.trans (htracks.lockedAt_iff hlaw htimes)⟩
  · exact h.registered_concat (by rintro _ _ ⟨⟩) hkept
  · rcases hs s hmem with hmem | htoken
    · exact h.drawn_concat hmem
    · exact ⟨_, List.mem_append_right _ List.mem_cons_self, htoken⟩

theorem findUser_eq_none {db : Database T} {email : T} (h : db.findUser email = none) {u : User T}
    (hu : u ∈ db.users) : u.email ≠ email := by
  have hne := List.find?_eq_none.1 h u hu
  rwa [decide_eq_true_eq] at hne

/-- A registration starts the history of its account. -/
theorem LockoutRecorded.register {email password : T} (h : LockoutRecorded tr w)
    (hf : w.db.findUser (P.normalizeEmail email) = none)
    (hdb : w'.db = w.db.registerUser P e email password) :
    LockoutRecorded (tr ++ [((e, .register email password password),
      .ok (.registered (P.normalizeEmail email)) 201)]) w' := by
  have hnew : ∀ as, attempted P (P.normalizeEmail email) as
      ((e, .register email password password), .ok (.registered (P.normalizeEmail email)) 201) =
        [] := by
    intro as
    unfold attempted
    exact if_pos rfl
  have hold : ∀ u ∈ w.db.users, attempted P u.email (attempts P u.email tr)
      ((e, .register email password password), .ok (.registered (P.normalizeEmail email)) 201) =
        attempts P u.email tr := by
    intro u hu
    unfold attempted
    exact if_neg (Ne.symm (findUser_eq_none hf hu))
  have husers : w'.db.users = w.db.users ++
      [newUser P e (e.rowid (w.db.users.map (·.id))) email password] := by
    rw [hdb]
    rfl
  refine ⟨by rw [hdb]; exact h.accounts.registerUser e password hf, fun u hu => ?_,
    fun hord u hu => ?_, fun y hy email' password' hreg => ?_, fun s hs => ?_⟩
  · rw [husers] at hu
    rw [attempts_concat]
    rcases List.mem_append.1 hu with hu | hu
    · rw [hold u hu]
      exact h.tracked u hu
    · rw [List.mem_singleton.1 hu]
      show User.Tracks _ (attempted P (P.normalizeEmail email) _ _)
      rw [hnew]
      exact ⟨rfl, rfl⟩
  · rw [husers] at hu
    rw [attempts_concat]
    rcases List.mem_append.1 hu with hu | hu
    · rw [hold u hu]
      exact h.lawful hord.concat.1 u hu
    · rw [List.mem_singleton.1 hu]
      show Lawful 5 (minutes 5) (attempted P (P.normalizeEmail email) _ _)
      rw [hnew]
      trivial
  · rw [husers]
    rcases List.mem_append.1 hy with hy | hy
    · obtain ⟨u, hu, hcolumns⟩ := h.registered y hy email' password' hreg
      exact ⟨u, List.mem_append_left _ hu, hcolumns⟩
    · rw [List.mem_singleton.1 hy] at hreg ⊢
      cases hreg
      exact ⟨_, List.mem_append_right _ List.mem_cons_self, rfl, rfl⟩
  · rw [hdb] at hs
    exact h.drawn_concat hs

/-- The rows after an update of the lockout columns of one user. -/
theorem LockoutRecorded.updated {user : User T} (h : LockoutRecorded tr w)
    (huser : user ∈ w.db.users) (n : Nat) (l : Option Time) :
    (∀ u ∈ (w.db.setLockout user.id n l).users,
      (u ∈ w.db.users ∧ u.email ≠ user.email) ∨ u = user.withLockout n l) ∧
      ∀ u ∈ w.db.users, ∃ u' ∈ (w.db.setLockout user.id n l).users,
        u'.email = u.email ∧ u'.passwordHash = u.passwordHash := by
  rw [setLockout_users]
  constructor
  · intro u hu
    obtain ⟨u₀, hu₀, rfl⟩ := List.mem_map.1 hu
    by_cases hid : u₀.id = user.id
    · rw [Table.updated, if_pos hid, Table.eq_of_key h.accounts.ids hu₀ huser hid]
      exact .inr rfl
    · rw [Table.updated, if_neg hid]
      refine .inl ⟨hu₀, fun hemail => hid ?_⟩
      rw [Table.eq_of_key h.accounts.emails hu₀ huser hemail]
  · intro u hu
    exact ⟨_, List.mem_map_of_mem hu,
      Table.updated_eq (f := User.withLockout n l) (g := fun u => u.email) (fun _ => rfl) u,
      Table.updated_eq (f := User.withLockout n l) (g := fun u => u.passwordHash) (fun _ => rfl) u⟩

/-- Every request keeps the columns and the history together. -/
theorem LockoutRecorded.served (h : LockoutRecorded tr w) {r : Request T J} {resp : Response T J}
    (hs : Served settings e w r resp w') : LockoutRecorded (tr ++ [((e, r), resp)]) w' := by
  have ha := h.accounts.served hs
  have hkept : ∀ s ∈ w.db.sessions, ∃ s' ∈ w.db.sessions, s.tokenHash = s'.tokenHash :=
    fun s hs => ⟨s, hs, rfl⟩
  cases hs with
  | raised r y hr =>
    refine h.frame ha rfl hkept (fun u hu as => ?_) (fun email password hreg => ?_)
    · cases r with
      | login => cases hr
      | register => cases y <;> rfl
      | _ => rfl
    · cases y <;> cases hreg
  | vault hc hs =>
    obtain ⟨husers, hsessions⟩ := hs.accounts
    refine h.frame ha husers (by rw [hsessions]; exact hkept) (fun u hu as => ?_)
      (fun email password hreg => ?_)
    · cases r with
      | login => cases hc
      | register => cases hc
      | _ => rfl
    · cases r with
      | register => cases hc
      | _ => cases hreg
  | service hp hc hs =>
    obtain ⟨husers, hsessions⟩ := service_accounts hs _ _
    exact h.frame ha husers (by rw [hsessions]; exact hkept) (fun _ _ _ => rfl) (by rintro _ _ ⟨⟩)
  | me => exact h.frame ha rfl hkept (fun _ _ _ => rfl) (by rintro _ _ ⟨⟩)
  | auditVerify => exact h.frame ha rfl hkept (fun _ _ _ => rfl) (by rintro _ _ ⟨⟩)
  | registered hf => exact h.register hf rfl
  | unknownUser hf =>
    refine h.frame ha rfl hkept (fun u hu as => ?_) (by rintro _ _ ⟨⟩)
    exact attempted_other (Ne.symm (findUser_eq_none hf hu)) as
  | @lockedOut email password user hf hl =>
    obtain ⟨huser, hemail⟩ := findUser_eq_some hf
    refine h.answered ha hf rfl (iff_of_true rfl hl) (fun u hu => ?_)
      (fun u hu => ⟨u, hu, rfl, rfl⟩) (fun s hs => .inl hs)
    by_cases heq : u.email = P.normalizeEmail email
    · refine .inr ⟨heq, ?_⟩
      rw [← heq]
      exact (h.tracked u hu).refused
    · exact .inl ⟨hu, heq⟩
  | @tokenClash email =>
    refine h.frame ha rfl hkept (fun u hu as => ?_) (by rintro _ _ ⟨⟩)
    show (if P.normalizeEmail email = u.email then as else as) = as
    exact ite_self as
  | @wrongPassword email password user hf hl hp =>
    obtain ⟨huser, hemail⟩ := findUser_eq_some hf
    obtain ⟨hrows, hkept⟩ := h.updated huser (user.missed e.now).1 (user.missed e.now).2
    refine h.answered ha hf rfl (iff_of_false (by decide) hl) (fun u hu => ?_) hkept
      (fun s hs => .inl hs)
    rw [← hemail]
    rcases hrows u hu with hother | rfl
    · exact .inl hother
    · exact .inr ⟨rfl, (h.tracked user huser).wrong⟩
  | @loggedIn email password user hf hl hp hc =>
    obtain ⟨huser, hemail⟩ := findUser_eq_some hf
    obtain ⟨hrows, hkept⟩ := h.updated huser 0 none
    refine h.answered ha hf rfl (iff_of_false (by decide) hl) (fun u hu => ?_) hkept
      (fun s hs => ?_)
    · rw [← hemail]
      rcases hrows u hu with hother | rfl
      · exact .inl hother
      · exact .inr ⟨rfl, User.Tracks.right⟩
    · rcases List.mem_append.1 hs with hs | hs
      · exact .inl hs
      · rw [List.mem_singleton.1 hs]
        exact .inr rfl
  | loggedOut =>
    refine h.frame ha rfl (fun s hs => ?_) (fun _ _ _ => rfl) (by rintro _ _ ⟨⟩)
    rw [revokeSession_sessions] at hs
    obtain ⟨s₀, hs₀, rfl⟩ := List.mem_map.1 hs
    exact ⟨s₀, hs₀, Table.updated_eq (f := fun s => { s with revokedAt := some e.now })
      (g := fun s : Session T => s.tokenHash) (fun _ => rfl) s₀⟩

/-- Along every run. -/
theorem lockoutRecorded_run (settings : Settings) (is : List (Env P × Request T J)) :
    LockoutRecorded (World.initial.exchanges settings is) (World.initial.served settings is) :=
  serve_induction settings World.initial (I := LockoutRecorded) lockoutRecorded_initial
    (fun _ _ _ _ _ _ h hs => h.served hs) is

end Steps

/-! ## Account lockout -/

section Login

variable [DecidableEq T] {settings : Settings} {tr : Exchanges P} {e : Env P} {w w' : World T B}
  {email password : T} {resp : Response T J}

/-- A login leaves the row of every other account. -/
theorem login_other (h : w.db.Accounts)
    (hs : Served settings e w (.login email password) resp w') {account : T}
    (hne : P.normalizeEmail email ≠ account) : w'.db.findUser account = w.db.findUser account := by
  cases hs with
  | raised => rfl
  | vault hc => cases hc
  | unknownUser => rfl
  | lockedOut => rfl
  | tokenClash => rfl
  | wrongPassword hf =>
    obtain ⟨huser, hemail⟩ := findUser_eq_some hf
    rw [← hemail] at hne
    exact findUser_setLockout_other h huser hne _ _
  | loggedIn hf =>
    obtain ⟨huser, hemail⟩ := findUser_eq_some hf
    rw [← hemail] at hne
    exact findUser_setLockout_other h huser hne _ _

/-- A registration that succeeds registers. -/
theorem registers_of_isOk {confirmation : T}
    (hs : Served settings e w (.register email password confirmation) resp w')
    (hok : resp.isOk = true) : Registers ((e, .register email password confirmation), resp)
      (P.normalizeEmail email) password := by
  cases hs with
  | raised _ y => cases y <;> cases hok
  | vault hc => cases hc
  | registered => exact .mk e email password 201

/-- What a login answers to an account that the history knows. -/
theorem LockoutRecorded.login (h : LockoutRecorded tr w)
    (hs : Served settings e w (.login email password) resp w') {user : User T}
    (hf : w.db.findUser (P.normalizeEmail email) = some user)
    (hlocked : user.lockedAt e.now ↔
      LockedOut 5 (minutes 5) (attempts P (P.normalizeEmail email) tr) e.now) :
    (resp = .ofExc accountLocked ↔
        LockedOut 5 (minutes 5) (attempts P (P.normalizeEmail email) tr) e.now) ∧
      (¬ LockedOut 5 (minutes 5) (attempts P (P.normalizeEmail email) tr) e.now →
        (resp = .ofExc invalidCredentials ↔ P.verifyPassword user.passwordHash password = false) ∧
          ((∀ x ∈ tr, tokenDigest P x.1.1.token ≠ tokenDigest P e.token) →
            (resp.isOk = true ↔ P.verifyPassword user.passwordHash password = true))) := by
  rw [← hlocked]
  cases hs with
  | raised _ _ hr => cases hr
  | vault hc => cases hc
  | unknownUser hf' =>
    rw [hf] at hf'
    cases hf'
  | lockedOut hf' hl =>
    rw [hf] at hf'
    cases hf'
    exact ⟨iff_of_true rfl hl, fun hnot => absurd hl hnot⟩
  | tokenClash hf' hl hp hc =>
    rw [hf] at hf'
    cases hf'
    refine ⟨iff_of_false (by rintro ⟨⟩) hl, fun _ => ⟨iff_of_false (by rintro ⟨⟩) (by simp [hp]),
      fun hfresh => absurd ?_ hc⟩⟩
    rw [findSession_eq_none]
    intro s hs
    obtain ⟨x, hx, htoken⟩ := h.drawn s hs
    rw [htoken]
    exact hfresh x hx
  | wrongPassword hf' hl hp =>
    rw [hf] at hf'
    cases hf'
    exact ⟨iff_of_false (by rintro ⟨⟩) hl, fun _ => ⟨iff_of_true rfl hp,
      fun _ => iff_of_false Bool.false_ne_true (by simp [hp])⟩⟩
  | loggedIn hf' hl hp hc =>
    rw [hf] at hf'
    cases hf'
    exact ⟨iff_of_false (by rintro ⟨⟩) hl, fun _ => ⟨iff_of_false (by rintro ⟨⟩) (by simp [hp]),
      fun _ => iff_of_true rfl hp⟩⟩

/-- **Account lockout.** After any run whose logins come in order of time: the lockout columns of
    every user row are those of an account that is not locked, or of one that is; a login leaves
    the row of every other account; and a login to a registered account is refused exactly if the
    attempts on it since its registration lock it out, else it is told of a wrong password
    exactly if the password is not the registered one, and it succeeds, with a token that was not
    drawn before, exactly if it is. -/
theorem account_lockout
    (hverify : ∀ salt password candidate,
      P.verifyPassword (P.hashPassword salt password) candidate = true ↔ candidate = password)
    (settings : Settings) (is : List (Env P × Request T J))
    (hordered : ((is.filter (·.2.isLogin)).map (·.1.now)).Pairwise (· ≤ ·)) :
    (∀ u ∈ (World.initial.served settings is : World T B).db.users,
      (u.failedLoginAttempts ≤ 4 ∧ u.lockedUntil = none) ∨
        (u.failedLoginAttempts = 5 ∧ u.lockedUntil.isSome = true)) ∧
      (∀ (e : Env P) email password account, P.normalizeEmail email ≠ account →
        ((World.initial.served settings is : World T B).request settings e
            (.login email password : Request T J)).2.db.findUser account =
          (World.initial.served settings is : World T B).db.findUser account) ∧
      ∀ x ∈ (World.initial : World T B).exchanges settings is, ∀ account registered,
        Registers x account registered → ∀ (e : Env P) email password,
          P.normalizeEmail email = account →
          (∀ i ∈ is, i.2.isLogin = true → i.1.now ≤ e.now) →
          let as := attempts P account ((World.initial : World T B).exchanges settings is)
          let resp := ((World.initial.served settings is : World T B).request settings e
            (.login email password : Request T J)).1
          (resp = .ofExc accountLocked ↔ LockedOut 5 (minutes 5) as e.now) ∧
            (¬ LockedOut 5 (minutes 5) as e.now →
              (resp = .ofExc invalidCredentials ↔ password ≠ registered) ∧
                ((∀ i ∈ is, tokenDigest P i.1.token ≠ tokenDigest P e.token) →
                  (resp.isOk = true ↔ password = registered))) := by
  have hrec : LockoutRecorded ((World.initial : World T B).exchanges settings is) _ :=
    lockoutRecorded_run settings is
  refine ⟨fun u hu => (hrec.tracked u hu).columns, fun e email password account hne =>
    login_other hrec.accounts (served_of_request settings e _ _) hne, ?_⟩
  rintro x hx account registered hreg e email password rfl hnow
  obtain ⟨user, huser, hemail, hhash⟩ := hrec.registered x hx _ _ hreg
  have hf := findUser_of_mem hrec.accounts huser
  rw [hemail] at hf
  -- the columns of the row are those of the history
  have htimes : ∀ a ∈ attempts P (P.normalizeEmail email)
      ((World.initial : World T B).exchanges settings is), a.time ≤ e.now := by
    intro a ha
    obtain ⟨y, hy, hlogin, htime⟩ := mem_attempts a ha
    rw [← htime]
    exact hnow y.1 (Run.mem_of_mem_trace hy) hlogin
  have hlaw := hrec.lawful (loginsOrdered_exchanges hordered) user huser
  have htracks := hrec.tracked user huser
  rw [hemail] at hlaw htracks
  have hlogin := hrec.login (served_of_request settings e _ (.login email password)) hf
    (htracks.lockedAt_iff hlaw htimes)
  -- the hash of the row is that of the registered password
  have hright : P.verifyPassword user.passwordHash password = true ↔ password = registered := by
    rw [hhash]
    exact hverify _ _ _
  have hwrong : P.verifyPassword user.passwordHash password = false ↔ password ≠ registered := by
    rw [Ne, ← hright, Bool.not_eq_true]
  obtain ⟨hrefused, hother⟩ := hlogin
  refine ⟨hrefused, fun hnot => ?_⟩
  obtain ⟨hinvalid, hsuccess⟩ := hother hnot
  refine ⟨hinvalid.trans hwrong, fun hfresh => (hsuccess fun y hy => ?_).trans hright⟩
  exact hfresh y.1 (Run.mem_of_mem_trace hy)

end Login

namespace Sample

/-- Draws some seconds after the others. -/
def envAt (seed : UInt8) (s : Nat) : Env (concrete lib) :=
  { env seed with now := (env seed).now + seconds s }

/-- An account is registered and attacked with five wrong passwords, a second apart. -/
def attacked : List SampleRequest :=
  (env 1, .register alice passphrase passphrase) ::
    [2, 3, 4, 5, 6].map fun i => (envAt (.ofNat i) i, .login alice ['?'])

end Sample

open Sample in
theorem account_lockout_sample :
    let w : World Text Bytes := World.initial.served {} attacked
    let as := attempts (concrete lib) alice (World.initial.exchanges {} attacked)
    (LockedOut 5 (minutes 5) as (envAt 7 305).now ∧
        (w.request {} (envAt 7 305) (.login alice passphrase)).1 = .ofExc accountLocked) ∧
      ¬ LockedOut 5 (minutes 5) as (envAt 7 306).now ∧
        (w.request {} (envAt 7 306) (.login alice passphrase)).1.isOk = true := by
  intro w as
  have hverify : ∀ salt password candidate, (concrete lib).verifyPassword
      ((concrete lib).hashPassword salt password) candidate = true ↔ candidate = password := by
    intro salt password candidate
    show (password == candidate) = true ↔ _
    rw [beq_iff_eq]
    exact eq_comm
  have hreg : Registers ((env 1, .register alice passphrase passphrase),
      (World.initial.request {} (env 1) (.register alice passphrase passphrase)).1)
      alice passphrase := registers_of_isOk (served_of_request {} _ _ _) (by decide +kernel)
  have hlogin := fun s => (account_lockout hverify {} attacked (by decide)).2.2 _
    List.mem_cons_self alice passphrase hreg (envAt 7 s) alice passphrase (by decide)
  obtain ⟨hrefused, hother⟩ := hlogin 305 (by decide)
  obtain ⟨hrefused', -⟩ := hlogin 306 (by decide)
  have hok : (w.request {} (envAt 7 306) (.login alice passphrase)).1.isOk = true := by
    decide +kernel
  have hlocked : LockedOut 5 (minutes 5) as (envAt 7 305).now := by
    by_contra hnot
    have hright := ((hother hnot).2 (by decide)).2 rfl
    exact absurd hright (by decide +kernel)
  refine ⟨⟨hlocked, hrefused.2 hlocked⟩, fun h => ?_, hok⟩
  rw [hrefused'.2 h] at hok
  cases hok

end MiniVault
