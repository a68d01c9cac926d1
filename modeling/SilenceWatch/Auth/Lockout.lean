import Mathlib.Data.Nat.Notation
import Mathlib.Data.Int.Notation
import Mathlib.Data.List.Basic
import SilenceWatch.Library.Run

/-!
# Counting failed logins

Attempts that fail on one account at the same time. Each reads the user, computes the
new count and the lock from what it read, and writes both; nothing keeps the others
away in between.
-/

namespace SilenceWatch

open Transition

/-- `MAX_FAILED_LOGINS`. -/
def maxFailedLogins : ℕ := 10

/-- `LOCKOUT_MS`. -/
def lockoutMs : ℤ := 15 * 60000

/-- The columns of a user that count failed logins. -/
structure LoginRow where
  failedLoginCount : ℕ
  lockedUntil : Option ℤ
  deriving DecidableEq

/-- `LoginLockoutService.isLocked`. -/
def LoginRow.isLocked (row : LoginRow) (now : ℤ) : Bool := row.lockedUntil.any (now < ·)

/-- What `recordFailure` writes for the count it was given. -/
def recordFailure (failedLoginCount : ℕ) (now : ℤ) : LoginRow :=
  let failures := failedLoginCount + 1
  { failedLoginCount := failures
    lockedUntil := if failures ≥ maxFailedLogins then some (now + lockoutMs) else none }

/-- How far an attempt to sign in has come. -/
inductive AttemptPhase where
  | begun
  /-- The account is locked: the attempt ends here and is not counted. -/
  | turnedAway
  /-- The password was wrong. -/
  | failed
  /-- The user was read again. -/
  | read (failedLoginCount : ℕ)
  /-- The update is sent. -/
  | computed (row : LoginRow)
  | recorded
  deriving DecidableEq

/-- The account, the clock and the attempts on it. -/
structure LockoutState where
  clock : ℤ
  row : LoginRow
  attempts : List AttemptPhase
  deriving DecidableEq

/-- What happens. -/
inductive LockoutEvent where
  /-- An attempt takes its next step. -/
  | advance (n : ℕ)
  | elapse (ms : ℕ)
  deriving DecidableEq

namespace LockoutState

/-- The next step of an attempt: the row, and how far it has come then. -/
def proceed (s : LockoutState) : AttemptPhase → LoginRow × AttemptPhase
  | .begun => (s.row, if s.row.isLocked s.clock then .turnedAway else .failed)
  | .turnedAway => (s.row, .turnedAway)
  | .failed => (s.row, .read s.row.failedLoginCount)
  | .read failedLoginCount => (s.row, .computed (recordFailure failedLoginCount s.clock))
  | .computed row => (row, .recorded)
  | .recorded => (s.row, .recorded)

/-- The account after one event. -/
def step (s : LockoutState) : LockoutEvent → LockoutState
  | .advance n =>
    match s.attempts[n]? with
    | none => s
    | some phase =>
      { s with
        row := (s.proceed phase).1
        attempts := s.attempts.set n (s.proceed phase).2 }
  | .elapse ms => { s with clock := s.clock + ms }

/-- Attempts on an account that have not read it yet. -/
def start (clock : ℤ) (row : LoginRow) (k : ℕ) : LockoutState :=
  ⟨clock, row, List.replicate k .begun⟩

end LockoutState

/-- The count that an attempt under way is going to write. -/
def AttemptPhase.failures? : AttemptPhase → Option ℕ
  | .read failedLoginCount => some (failedLoginCount + 1)
  | .computed row => some row.failedLoginCount
  | _ => none

namespace LockoutState

/-- The counts that are going to be written. -/
def pending (s : LockoutState) : List ℕ := s.attempts.filterMap AttemptPhase.failures?

/-- The failures recorded. -/
def recorded (s : LockoutState) : ℕ := s.attempts.countP (· = .recorded)

/-- An attempt reads the user when no other is about to write it. -/
def ReadsAlone (s : LockoutState) : LockoutEvent → Prop
  | .advance n => s.attempts[n]? = some .failed → s.pending = []
  | .elapse _ => True

/-- The lock, once set, is neither cleared nor moved earlier. -/
def LockKept (row row' : LoginRow) : Prop :=
  ∀ t ∈ row.lockedUntil, ∃ t' ∈ row'.lockedUntil, t ≤ t'

/-- Every recorded failure is counted, and the one that is about to be written comes next. -/
structure Counts (initial : ℕ) (s : LockoutState) : Prop where
  count : s.row.failedLoginCount = initial + s.recorded
  pending : s.pending = [] ∨ s.pending = [initial + s.recorded + 1]

/-- No count runs ahead of the failures recorded, and one that keeps up with them was read
from the row as it is. -/
structure Bounded (initial : ℕ) (s : LockoutState) : Prop where
  count : s.row.failedLoginCount ≤ initial + s.recorded
  pending : ∀ v ∈ s.pending, v ≤ initial + s.recorded + 1 ∧
    (v = initial + s.recorded + 1 → s.row.failedLoginCount = initial + s.recorded)

variable {s : LockoutState} {n initial : ℕ} {phase : AttemptPhase}

/-- The attempts around the one that takes a step. -/
theorem attempts_set (h : s.attempts[n]? = some phase) (phase' : AttemptPhase) :
    ∃ l r, s.attempts = l ++ phase :: r ∧ s.attempts.set n phase' = l ++ phase' :: r := by
  obtain ⟨hlt, hphase⟩ := List.getElem?_eq_some_iff.mp h
  refine ⟨s.attempts.take n, s.attempts.drop (n + 1), ?_, ?_⟩
  · rw [← hphase, List.getElem_cons_drop, List.take_append_drop]
  · rw [List.set_eq_take_append_cons_drop, if_pos hlt]

/-- **What a step does** to the counts: it changes none, it reads the row, or it writes a
count that was pending. -/
theorem step_cases (s : LockoutState) (e : LockoutEvent) :
    (s.ReadsAlone e ∧ (s.step e).row = s.row ∧ (s.step e).pending = s.pending ∧
        (s.step e).recorded = s.recorded) ∨
      (∃ n l r, e = .advance n ∧ s.attempts[n]? = some .failed ∧ (s.step e).row = s.row ∧
        s.pending = l ++ r ∧ (s.step e).pending = l ++ (s.row.failedLoginCount + 1) :: r ∧
        (s.step e).recorded = s.recorded) ∨
      ∃ l r, s.ReadsAlone e ∧ s.pending = l ++ (s.step e).row.failedLoginCount :: r ∧
        (s.step e).pending = l ++ r ∧ (s.step e).recorded = s.recorded + 1 := by
  cases e with
  | elapse ms => exact Or.inl ⟨trivial, rfl, rfl, rfl⟩
  | advance n =>
    cases hphase : s.attempts[n]? with
    | none =>
      left
      simp [step, ReadsAlone, hphase]
    | some phase =>
      obtain ⟨l, r, hold, hnew⟩ := attempts_set hphase (s.proceed phase).2
      have hstep : s.step (.advance n) =
          ⟨s.clock, (s.proceed phase).1, l ++ (s.proceed phase).2 :: r⟩ := by
        simp only [step, hphase, hnew]
      have hother : phase ≠ .failed → s.ReadsAlone (.advance n) :=
        fun hne hread => absurd (Option.some.inj (hphase.symm.trans hread)) hne
      rw [hstep]
      simp only [pending, recorded, hold]
      cases phase with
      | begun =>
        left
        simp only [proceed]
        split
        · simp [AttemptPhase.failures?, List.filterMap_cons, hother]
        · simp [AttemptPhase.failures?, List.filterMap_cons, hother]
      | turnedAway =>
        left
        simp [proceed, hother]
      | failed =>
        right
        left
        refine ⟨n, l.filterMap AttemptPhase.failures?, r.filterMap AttemptPhase.failures?, rfl,
          by rw [← hold]; exact hphase, rfl, ?_, ?_, ?_⟩
        · simp [AttemptPhase.failures?, List.filterMap_cons]
        · simp [proceed, AttemptPhase.failures?]
        · simp [proceed]
      | read failedLoginCount =>
        left
        simp [proceed, AttemptPhase.failures?, recordFailure, hother]
      | computed row =>
        right
        right
        refine ⟨l.filterMap AttemptPhase.failures?, r.filterMap AttemptPhase.failures?,
          hother (by simp), ?_, ?_, ?_⟩
        · simp [proceed, AttemptPhase.failures?]
        · simp [proceed, AttemptPhase.failures?, List.filterMap_cons]
        · simp [proceed]
          omega
      | recorded =>
        left
        simp [proceed, hother]

/-- Every step keeps the bound. -/
theorem Bounded.step (h : s.Bounded initial) (e : LockoutEvent) :
    (s.step e).Bounded initial := by
  rcases step_cases s e with ⟨_, hrow, hpending, hrecorded⟩ |
    ⟨_, l, r, _, _, hrow, hold, hnew, hrecorded⟩ | ⟨l, r, _, hold, hnew, hrecorded⟩
  · constructor
    · rw [hrow, hrecorded]
      exact h.count
    · rw [hrow, hpending, hrecorded]
      exact h.pending
  · have hcount := h.count
    constructor
    · rw [hrow, hrecorded]
      exact hcount
    · intro v hv
      rw [hrow, hrecorded]
      rw [hnew, List.mem_append, List.mem_cons] at hv
      have hcases : v = s.row.failedLoginCount + 1 ∨ v ∈ s.pending := by
        rw [hold, List.mem_append]
        tauto
      rcases hcases with rfl | hv
      · exact ⟨by omega, fun heq => by omega⟩
      · exact h.pending v hv
  · have hwritten := h.pending (s.step e).row.failedLoginCount (by rw [hold]; simp)
    constructor
    · rw [hrecorded]
      omega
    · intro v hv
      rw [hrecorded]
      have hbound := h.pending v (by
        rw [hnew] at hv
        rw [hold]
        simp only [List.mem_append, List.mem_cons] at hv ⊢
        tauto)
      exact ⟨by omega, fun heq => by omega⟩

/-- A failure that was not counted stays so. -/
theorem Counts.of_step {e : LockoutEvent} (hbounded : s.Bounded initial)
    (h : (s.step e).Counts initial) : s.Counts initial := by
  rcases step_cases s e with ⟨_, hrow, hpending, hrecorded⟩ |
    ⟨_, l, r, _, _, hrow, hold, hnew, hrecorded⟩ | ⟨l, r, _, hold, hnew, hrecorded⟩
  · refine ⟨?_, ?_⟩
    · rw [← hrow, ← hrecorded]
      exact h.count
    · rw [← hpending, ← hrecorded]
      exact h.pending
  · have hempty : l = [] ∧ r = [] := by
      rcases h.pending with hnone | hone
      · rw [hnew] at hnone
        simp at hnone
      · rw [hnew, List.append_eq_singleton_iff] at hone
        simp at hone
        exact ⟨hone.1, hone.2.2⟩
    refine ⟨?_, Or.inl ?_⟩
    · rw [← hrow, ← hrecorded]
      exact h.count
    · rw [hold, hempty.1, hempty.2]
      rfl
  · have hcount := h.count
    have hwritten := hbounded.pending (s.step e).row.failedLoginCount (by rw [hold]; simp)
    rw [hrecorded] at hcount
    have hempty : l ++ r = [] := by
      rcases h.pending with hnone | hone
      · exact hnew.symm.trans hnone
      · have hover := hbounded.pending (initial + (s.step e).recorded + 1) (by
          rw [hnew] at hone
          rw [hold, List.mem_append, List.mem_cons]
          have hmem : initial + (s.step e).recorded + 1 ∈ l ++ r := by simp [hone]
          rw [List.mem_append] at hmem
          tauto)
        rw [hrecorded] at hover
        omega
    obtain ⟨hl, hr⟩ := List.append_eq_nil_iff.mp hempty
    refine ⟨hwritten.2 (by omega), Or.inr ?_⟩
    rw [hold, hl, hr, hcount]
    rfl

/-- From a state in which all failures are counted, a step counts them if and only if it
does not read the user while another attempt is about to write it. -/
theorem Counts.step_iff {e : LockoutEvent} (h : s.Counts initial) :
    (s.step e).Counts initial ↔ s.ReadsAlone e := by
  rcases step_cases s e with ⟨halone, hrow, hpending, hrecorded⟩ |
    ⟨n, l, r, rfl, hphase, hrow, hold, hnew, hrecorded⟩ | ⟨l, r, halone, hold, hnew, hrecorded⟩
  · refine iff_of_true ⟨?_, ?_⟩ halone
    · rw [hrow, hrecorded]
      exact h.count
    · rw [hpending, hrecorded]
      exact h.pending
  · constructor
    · intro hcounts _
      rcases hcounts.pending with hnone | hone
      · rw [hnew] at hnone
        simp at hnone
      · rw [hnew, List.append_eq_singleton_iff] at hone
        simp at hone
        rw [hold, hone.1, hone.2.2]
        rfl
    · intro halone
      have hempty := halone hphase
      rw [hold, List.append_eq_nil_iff] at hempty
      refine ⟨?_, Or.inr ?_⟩
      · rw [hrow, hrecorded]
        exact h.count
      · rw [hnew, hempty.1, hempty.2, hrecorded, h.count]
        rfl
  · refine iff_of_true ⟨?_, Or.inl ?_⟩ halone
    · rcases h.pending with hnone | hone
      · rw [hold] at hnone
        simp at hnone
      · rw [hold, List.append_eq_singleton_iff] at hone
        simp at hone
        rw [hone.2.1, hrecorded]
        rfl
    · rcases h.pending with hnone | hone
      · rw [hold] at hnone
        simp at hnone
      · rw [hold, List.append_eq_singleton_iff] at hone
        simp at hone
        rw [hnew, hone.1, hone.2.2]
        rfl

end LockoutState

/-- A lock follows ten failures, and lies no further ahead than one lasts. Whatever writes
these columns leaves them so: a failure, and a sign-in or a new password, which clear them. -/
def LoginRow.Settled (row : LoginRow) (now : ℤ) : Prop :=
  ∀ t ∈ row.lockedUntil, maxFailedLogins ≤ row.failedLoginCount ∧ t ≤ now + lockoutMs

/-- A recorded failure does. -/
theorem settled_recordFailure (failedLoginCount : ℕ) (now : ℤ) :
    (recordFailure failedLoginCount now).Settled now := by
  intro t ht
  simp only [recordFailure, Option.mem_def, Option.ite_none_right_eq_some, Option.some.injEq] at ht
  obtain ⟨hmax, rfl⟩ := ht
  exact ⟨hmax, Int.le_refl _⟩

namespace LockoutState

variable {s : LockoutState} {initial : ℕ}

/-- The row and the updates that are sent are settled, and none of these takes back the
lock of the row. -/
structure Guards (s : LockoutState) : Prop where
  row : s.row.Settled s.clock
  computed : ∀ row, .computed row ∈ s.attempts → row.Settled s.clock ∧ LockKept s.row row

theorem LockKept.refl (row : LoginRow) : LockKept row row :=
  fun t ht => ⟨t, ht, Int.le_refl t⟩

/-- Where every failure is counted, the guards hold on, and a step keeps the lock. -/
theorem Guards.step (h : s.Guards) (hcounts : s.Counts initial) (e : LockoutEvent) :
    (s.step e).Guards ∧ LockKept s.row (s.step e).row := by
  cases e with
  | elapse ms =>
    have hlater : ∀ row : LoginRow, row.Settled s.clock → row.Settled (s.clock + ms) := by
      intro row hrow t ht
      have hsettled := hrow t ht
      exact ⟨hsettled.1, by omega⟩
    exact ⟨⟨hlater _ h.row, fun row hrow => ⟨hlater _ (h.computed row hrow).1,
      (h.computed row hrow).2⟩⟩, LockKept.refl _⟩
  | advance n =>
    cases hphase : s.attempts[n]? with
    | none =>
      have hsame : s.step (.advance n) = s := by simp only [LockoutState.step, hphase]
      rw [hsame]
      exact ⟨h, LockKept.refl _⟩
    | some phase =>
      obtain ⟨l, r, hold, hnew⟩ := attempts_set hphase (s.proceed phase).2
      have hstep : s.step (.advance n) =
          ⟨s.clock, (s.proceed phase).1, l ++ (s.proceed phase).2 :: r⟩ := by
        simp only [LockoutState.step, hphase, hnew]
      have hothers : ∀ row, .computed row ∈ l ++ (s.proceed phase).2 :: r →
          .computed row = (s.proceed phase).2 ∨ .computed row ∈ s.attempts := by
        intro row hrow
        rw [hold]
        simp only [List.mem_append, List.mem_cons] at hrow ⊢
        tauto
      -- Most steps write nothing and send no update.
      have hidle : (s.proceed phase).1 = s.row → (∀ row, (s.proceed phase).2 ≠ .computed row) →
          (s.step (.advance n)).Guards ∧ LockKept s.row (s.step (.advance n)).row := by
        intro hrow hnone
        rw [hstep, hrow]
        exact ⟨⟨h.row, fun row hmem => (hothers row hmem).elim
          (fun heq => absurd heq.symm (hnone row)) (h.computed row)⟩, LockKept.refl _⟩
      cases phase with
      | begun =>
        refine hidle rfl fun row => ?_
        simp only [proceed]
        split <;> simp
      | turnedAway => exact hidle rfl (by simp [proceed])
      | failed => exact hidle rfl (by simp [proceed])
      | recorded => exact hidle rfl (by simp [proceed])
      | read failedLoginCount =>
        rw [hstep]
        refine ⟨⟨h.row, fun row hmem => ?_⟩, LockKept.refl _⟩
        rcases hothers row hmem with heq | hsent
        · cases heq
          refine ⟨settled_recordFailure _ _, fun t ht => ?_⟩
          have hread : failedLoginCount + 1 ∈ s.pending :=
            List.mem_filterMap.mpr ⟨_, List.mem_of_getElem? hphase, rfl⟩
          have hlocked := h.row t ht
          have hcount := hcounts.count
          have hmax : failedLoginCount + 1 ≥ maxFailedLogins := by
            rcases hcounts.pending with hnone | hone
            · rw [hnone] at hread
              exact absurd hread List.not_mem_nil
            · rw [hone, List.mem_singleton] at hread
              omega
          exact ⟨s.clock + lockoutMs, by simp [recordFailure, hmax], hlocked.2⟩
        · exact h.computed row hsent
      | computed row =>
        rw [hstep]
        have hmem : .computed row ∈ s.attempts := List.mem_of_getElem? hphase
        obtain ⟨hsettled, hkept⟩ := h.computed row hmem
        refine ⟨⟨hsettled, fun row' hmem' => ?_⟩, hkept⟩
        -- The one pending failure has just been written.
        have hpending : s.pending = l.filterMap AttemptPhase.failures? ++
            row.failedLoginCount :: r.filterMap AttemptPhase.failures? := by
          simp [pending, hold, AttemptPhase.failures?]
        have hempty : l.filterMap AttemptPhase.failures? = [] ∧
            r.filterMap AttemptPhase.failures? = [] := by
          rcases hcounts.pending with hnone | hone
          · rw [hpending] at hnone
            simp at hnone
          · rw [hpending, List.append_eq_singleton_iff] at hone
            simp only [List.cons_ne_nil, and_false, or_false, List.cons.injEq] at hone
            exact ⟨hone.1, hone.2.2⟩
        have hnone : ∀ as : List AttemptPhase, as.filterMap AttemptPhase.failures? = [] →
            .computed row' ∉ as := by
          intro as has hin
          have hpend : row'.failedLoginCount ∈ as.filterMap AttemptPhase.failures? :=
            List.mem_filterMap.mpr ⟨_, hin, rfl⟩
          rw [has] at hpend
          exact absurd hpend List.not_mem_nil
        simp only [proceed, List.mem_append, List.mem_cons, reduceCtorEq, false_or] at hmem'
        exact (hmem'.elim (hnone l hempty.1) (hnone r hempty.2)).elim

/-- **Every failure counts, and a lock stays**, if and only if no attempt reads the user while
another one is about to write it. -/
theorem every_failure_counts_iff {clock : ℤ} {row : LoginRow} {total k : ℕ}
    {es : List LockoutEvent} (hrow : row.Settled clock)
    (hover : ∀ phase ∈ (run step (start clock row total) es).attempts,
      phase = .recorded ∨ phase = .turnedAway)
    (hk : (run step (start clock row total) es).recorded = k) :
    ((run step (start clock row total) es).row.failedLoginCount = row.failedLoginCount + k ∧
        Along step (fun s e => LockKept s.row (s.step e).row) (start clock row total) es) ↔
      Along step ReadsAlone (start clock row total) es := by
  have hrecorded : (start clock row total).recorded = 0 := by
    simp [start, recorded, List.countP_replicate]
  have hpending : (start clock row total).pending = [] := by
    simp [start, pending, List.filterMap_eq_nil_iff, List.mem_replicate, AttemptPhase.failures?]
  have hstart : (start clock row total).Counts row.failedLoginCount :=
    ⟨by rw [hrecorded]; rfl, Or.inl hpending⟩
  have hguards : (start clock row total).Guards := by
    refine ⟨hrow, fun row' hmem => ?_⟩
    have hbegun := List.eq_of_mem_replicate hmem
    cases hbegun
  have hbounded : Throughout step (Bounded row.failedLoginCount) (start clock row total) es := by
    refine throughout_of_step (P := fun _ _ => True) (fun s e h _ => h.step e) ⟨?_, ?_⟩
      (along_of_forall fun _ _ => trivial)
    · rw [hrecorded]
      exact Nat.le_refl _
    · rw [hpending]
      exact fun v hv => absurd hv List.not_mem_nil
  have hserial : Throughout step (Counts row.failedLoginCount) (start clock row total) es ↔
      Along step ReadsAlone (start clock row total) es :=
    throughout_iff_along (P := fun _ _ => True) (fun s e h _ => h.step_iff) hstart
      (along_of_forall fun _ _ => trivial)
  constructor
  · rintro ⟨hcount, _⟩
    refine hserial.mp (throughout_of_last (fun s e => Counts.of_step) hbounded ⟨?_, Or.inl ?_⟩)
    · rw [hcount, hk]
    · refine List.filterMap_eq_nil_iff.mpr fun phase hphase => ?_
      rcases hover phase hphase with rfl | rfl
      · rfl
      · rfl
  · intro halone
    have hcounts := (hserial.mpr halone).last
    refine ⟨by rw [hcounts.count, hk], ?_⟩
    refine along_of_step (I := fun s => s.Counts row.failedLoginCount ∧ s.Guards)
      (fun s e h hP => ⟨h.1.step_iff.mpr hP, (h.2.step h.1 e).1⟩)
      (fun s e h _ => (h.2.step h.1 e).2) ⟨hstart, hguards⟩ halone

/-- Two attempts one after the other, and a third that finds the account locked. -/
theorem every_failure_counts_sample :
    ((run step (start 0 ⟨8, none⟩ 3) [.advance 0, .advance 0, .advance 0, .advance 0,
            .elapse 1000, .advance 1, .advance 1, .advance 1, .advance 1,
            .advance 2]).row.failedLoginCount = 8 + 2 ∧
        Along step (fun s e => LockKept s.row (s.step e).row) (start 0 ⟨8, none⟩ 3)
          [.advance 0, .advance 0, .advance 0, .advance 0, .elapse 1000, .advance 1,
            .advance 1, .advance 1, .advance 1, .advance 2]) ↔
      Along step ReadsAlone (start 0 ⟨8, none⟩ 3) [.advance 0, .advance 0, .advance 0,
        .advance 0, .elapse 1000, .advance 1, .advance 1, .advance 1, .advance 1, .advance 2] :=
  every_failure_counts_iff (by simp [LoginRow.Settled]) (by decide) (by decide)

/-- An attempt that read the user before two others failed takes back one of their failures
and the lock that follows the tenth. -/
theorem stale_failure_clears_lock :
    let es : List LockoutEvent := [.advance 0, .advance 0, .advance 1, .advance 1, .advance 1,
      .advance 1, .advance 2, .advance 2, .advance 2, .advance 2]
    (run step (start 0 ⟨8, none⟩ 3) es).row = ⟨10, some 900000⟩ ∧
      run step (start 0 ⟨8, none⟩ 3) (es ++ [.advance 0, .advance 0]) =
        ⟨0, ⟨9, none⟩, [.recorded, .recorded, .recorded]⟩ := by
  decide

end LockoutState

end SilenceWatch
