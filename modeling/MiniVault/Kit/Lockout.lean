/-
  Lockout as a property of a history of attempts: `limit` wrong answers in a row lock an account
  for `span`, and the count starts again after the lock.

  * `LockedOut`: the specification, on the attempts of one account, newest first;
  * `strikes`, `lockEnd`: the two values an implementation keeps of the history;
  * `lockedOut_iff`: in a history answered as specified, the kept values decide;
  * `wrong_le`: how many wrong answers a window of time has room for.
-/
import Mathlib.Tactic.Cases

namespace Kit.Lockout

inductive Answer
  | locked
  | wrong
  | right
  deriving DecidableEq

structure Attempt where
  time : Nat
  answer : Answer

/-! ## The specification -/

/-- Wrong attempts in a row since the start, the last right one or the last lock. Attempts
    answered with `locked` are not counted. -/
def strikes (limit : Nat) : List Attempt → Nat
  | [] => 0
  | a :: as =>
    match a.answer with
    | .locked => strikes limit as
    | .wrong => strikes limit as % limit + 1
    | .right => 0

/-- An attempt in the past was the one that completed the count, and its lock lasts at `t`. -/
def LockedOut (limit span : Nat) (as : List Attempt) (t : Nat) : Prop :=
  ∃ later a earlier, as = later ++ a :: earlier ∧ a.answer = .wrong ∧
    strikes limit (a :: earlier) = limit ∧ t < a.time + span

/-- Every attempt was refused exactly when it was locked out, and time did not go back. -/
def Lawful (limit span : Nat) : List Attempt → Prop
  | [] => True
  | a :: as =>
    Lawful limit span as ∧ (∀ b ∈ as, b.time ≤ a.time) ∧
      (a.answer = .locked ↔ LockedOut limit span as a.time)

/-! ## What an implementation keeps -/

/-- The end of the last lock, if the last counted attempt set one. -/
def lockEnd (limit span : Nat) : List Attempt → Option Nat
  | [] => none
  | a :: as =>
    match a.answer with
    | .locked => lockEnd limit span as
    | .wrong => if strikes limit (a :: as) = limit then some (a.time + span) else none
    | .right => none

section Laws

variable {limit span : Nat} {as : List Attempt} {a : Attempt} {t : Nat}

theorem strikes_wrong (h : a.answer = .wrong) :
    strikes limit (a :: as) = strikes limit as % limit + 1 := by
  rw [strikes, h]

theorem strikes_le (hlimit : 0 < limit) (as : List Attempt) : strikes limit as ≤ limit := by
  induction as with
  | nil => exact Nat.zero_le limit
  | cons a as ih =>
    unfold strikes
    rcases a.answer
    · exact ih
    · exact Nat.mod_lt _ hlimit
    · exact Nat.zero_le limit

/-- A lock is kept exactly while the count is complete. -/
theorem lockEnd_eq_none (hlimit : 0 < limit) (as : List Attempt) :
    lockEnd limit span as = none ↔ strikes limit as ≠ limit := by
  induction as with
  | nil => simp [lockEnd, strikes, Nat.ne_of_lt hlimit]
  | cons a as ih =>
    unfold lockEnd
    rcases ha : a.answer
    · rw [ih, show strikes limit (a :: as) = strikes limit as by rw [strikes, ha]]
    · by_cases hs : strikes limit (a :: as) = limit
      · simp [hs]
      · simp [hs]
    · simp [strikes, ha, Nat.ne_of_lt hlimit]

theorem lockedOut_nil : ¬ LockedOut limit span [] t := by
  rintro ⟨later, a, earlier, h, -⟩
  simp at h

theorem lockedOut_cons : LockedOut limit span (a :: as) t ↔
    (a.answer = .wrong ∧ strikes limit (a :: as) = limit ∧ t < a.time + span) ∨
      LockedOut limit span as t := by
  constructor
  · rintro ⟨later, b, earlier, h, hb⟩
    cases later with
    | nil =>
      obtain ⟨rfl, rfl⟩ := List.cons.inj h
      exact .inl hb
    | cons c later =>
      obtain ⟨rfl, rfl⟩ := List.cons.inj h
      exact .inr ⟨later, b, earlier, rfl, hb⟩
  · rintro (ha | ⟨later, b, earlier, rfl, hb⟩)
    · exact ⟨[], a, as, rfl, ha⟩
    · exact ⟨a :: later, b, earlier, rfl, hb⟩

/-- A lock that lasts at a time lasted before. -/
theorem LockedOut.earlier {s : Nat} (h : LockedOut limit span as t) (hst : s ≤ t) :
    LockedOut limit span as s := by
  obtain ⟨later, a, earlier, has, ha, hs, ht⟩ := h
  exact ⟨later, a, earlier, has, ha, hs, by omega⟩

/-- The kept lock is the only one that can last: an attempt that changes what is kept was not
    locked out, so that every earlier lock has expired by its time. -/
theorem lockedOut_iff (h : Lawful limit span as) (ht : ∀ a ∈ as, a.time ≤ t) :
    LockedOut limit span as t ↔ ∃ l, lockEnd limit span as = some l ∧ t < l := by
  induction as with
  | nil =>
    refine ⟨fun hl => absurd hl lockedOut_nil, ?_⟩
    rintro ⟨l, hl, -⟩
    cases hl
  | cons a as ih =>
    obtain ⟨has, -, hanswer⟩ := h
    have hat : a.time ≤ t := ht a List.mem_cons_self
    have hexpired : a.answer ≠ .locked → ¬ LockedOut limit span as t := fun hne hl =>
      hne (hanswer.2 (hl.earlier hat))
    have hih := ih has fun b hb => ht b (List.mem_cons_of_mem _ hb)
    rw [lockedOut_cons]
    unfold lockEnd
    rcases ha : a.answer
    · rw [← hih]
      simp
    · have hnot := hexpired (by rw [ha]; decide)
      by_cases hs : strikes limit (a :: as) = limit
      · simp [hs, hnot]
      · simp [hs, hnot]
    · have hnot := hexpired (by rw [ha]; decide)
      simp [hnot]

/-! ## Windows of time -/

/-- The attempts with an answer between two times. -/
def answered (answer : Answer) (start finish : Nat) (as : List Attempt) : Nat :=
  as.countP fun a => a.answer = answer ∧ start ≤ a.time ∧ a.time ≤ finish

theorem answered_cons (answer : Answer) (start finish : Nat) (a : Attempt) (as : List Attempt) :
    answered answer start finish (a :: as) = answered answer start finish as +
      if a.answer = answer ∧ start ≤ a.time ∧ a.time ≤ finish then 1 else 0 := by
  simp only [answered, List.countP_cons, decide_eq_true_eq]

theorem answered_eq_zero {answer : Answer} {start finish : Nat}
    (h : ∀ a ∈ as, a.time < start ∨ finish < a.time) : answered answer start finish as = 0 := by
  refine List.countP_eq_zero.2 fun a ha => ?_
  have htime := h a ha
  simp only [decide_eq_true_eq, not_and]
  omega

/-- An attempt that was let through came when the account was open. -/
theorem Lawful.open (h : Lawful limit span (a :: as)) (ha : a.answer ≠ .locked) :
    ¬ LockedOut limit span as a.time := fun hl => ha (h.2.2.2 hl)

variable (limit span) in
theorem room_mono {s t : Nat} (h : s ≤ t) (n : Nat) :
    limit * (s / span + n) ≤ limit * (t / span + n) :=
  Nat.mul_le_mul_left limit (Nat.add_le_add_right (Nat.div_le_div_right h) n)

variable (limit) in
/-- A lock that has been sat out makes room for a full count. -/
theorem room_lock (hspan : 0 < span) {s t : Nat} (h : s + span ≤ t) (n : Nat) :
    limit * (s / span + n) + limit ≤ limit * (t / span + n) := by
  have hroom := room_mono limit span h n
  rw [Nat.add_div_right s hspan, Nat.succ_add, Nat.mul_succ] at hroom
  exact hroom

/-- Between two times, seen from a moment at which the account is open: every full count but the
    one under way had its lock to sit out, or was cut short by a right answer. -/
theorem wrong_le_of_open (hspan : 0 < span) (hlimit : 0 < limit) {start finish : Nat}
    (h : Lawful limit span as) (hfinish : ∀ a ∈ as, a.time ≤ finish) (hst : start ≤ t)
    (ht : ∀ a ∈ as, a.time ≤ t) (hopen : ¬ LockedOut limit span as t) :
    answered .wrong start finish as ≤
      limit * ((t - start) / span + answered .right start finish as) + strikes limit as % limit := by
  induction as generalizing t with
  | nil => exact Nat.zero_le _
  | cons a as ih =>
    have hlaw := h
    obtain ⟨has, htimes, -⟩ := h
    have hat : a.time ≤ t := ht a List.mem_cons_self
    have haf : a.time ≤ finish := hfinish a List.mem_cons_self
    have hih := fun {t : Nat} => ih (t := t) has fun b hb => hfinish b (List.mem_cons_of_mem _ hb)
    rw [lockedOut_cons, not_or] at hopen
    rcases Nat.lt_or_ge a.time start with hbefore | hstart
    · -- the history ends before the window begins
      have hzero : answered .wrong start finish (a :: as) = 0 := by
        refine answered_eq_zero fun b hb => .inl ?_
        rcases List.mem_cons.1 hb with rfl | hb
        · exact hbefore
        · exact Nat.lt_of_le_of_lt (htimes b hb) hbefore
      rw [hzero]
      exact Nat.zero_le _
    have hmod := Nat.mod_lt (strikes limit as) hlimit
    rw [answered_cons, answered_cons]
    rcases ha : a.answer
    · -- refused
      have hs : strikes limit (a :: as) = strikes limit as := by rw [strikes, ha]
      have hsame := hih hst (fun b hb => ht b (List.mem_cons_of_mem _ hb)) hopen.2
      rw [hs]
      simpa using hsame
    · -- one more strike; the lock of a full count is over at the open moment
      have hold := hih hstart htimes (hlaw.open (by simp [ha]))
      have hs : strikes limit (a :: as) = strikes limit as % limit + 1 := strikes_wrong ha
      simp only [hstart, haf, and_self, if_true, reduceCtorEq, false_and, if_false, Nat.add_zero]
      by_cases hfull : strikes limit (a :: as) = limit
      · have hlock : a.time + span ≤ t :=
          Nat.le_of_not_lt fun hlt => hopen.1 ⟨ha, hfull, hlt⟩
        have hroom := room_lock limit hspan (s := a.time - start) (t := t - start) (by omega)
          (answered .right start finish as)
        rw [hfull, Nat.mod_self]
        omega
      · have hroom := room_mono limit span (Nat.sub_le_sub_right hat start)
          (answered .right start finish as)
        rw [hs, Nat.mod_eq_of_lt (by omega)]
        omega
    · -- a right answer pays for the count that it ends
      have hold := hih hstart htimes (hlaw.open (by simp [ha]))
      have hroom := room_mono limit span (Nat.sub_le_sub_right hat start)
        (answered .right start finish as)
      simp only [hstart, haf, and_self, if_true, reduceCtorEq, false_and, if_false, Nat.add_zero]
      rw [← Nat.add_assoc, Nat.mul_succ]
      omega

/-- **A window of time has room for so many wrong answers**: a full count for each lock that fits
    in, one more, and one for each right answer. -/
theorem wrong_le (hspan : 0 < span) (hlimit : 0 < limit) (h : Lawful limit span as)
    (start length : Nat) :
    answered .wrong start (start + length) as ≤
      limit * (length / span + 1 + answered .right start (start + length) as) := by
  induction as with
  | nil => exact Nat.zero_le _
  | cons a as ih =>
    have hlaw := h
    obtain ⟨has, htimes, -⟩ := h
    have hold := ih has
    rw [answered_cons, answered_cons]
    by_cases hout : ¬ (start ≤ a.time ∧ a.time ≤ start + length)
    · simpa [hout] using hold
    have hin := Decidable.not_not.1 hout
    rcases ha : a.answer
    · simpa using hold
    · have hopen := wrong_le_of_open hspan hlimit has
        (fun b hb => Nat.le_trans (htimes b hb) hin.2) hin.1 htimes (hlaw.open (by simp [ha]))
      have hmod := Nat.mod_lt (strikes limit as) hlimit
      have hroom := room_mono limit span (s := a.time - start) (t := length)
        (by omega) (answered .right start (start + length) as)
      simp only [hin, and_self, if_true, reduceCtorEq, false_and, if_false, Nat.add_zero]
      rw [Nat.add_right_comm, Nat.mul_succ]
      omega
    · simp only [hin, reduceCtorEq, false_and, if_false, Nat.add_zero, and_self, if_true]
      exact Nat.le_trans hold (Nat.mul_le_mul_left limit (Nat.le_succ _))

end Laws

end Kit.Lockout
