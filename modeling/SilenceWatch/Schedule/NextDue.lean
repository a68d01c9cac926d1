import Mathlib.Data.Int.Notation
import Mathlib.Tactic.Common

/-!
# When the next heartbeat is expected

`computeNextDueAt` is evaluated on every path that writes a deadline: creation,
synchronisation, schedule edits, resumption and ingestion. The cron evaluator is
a third-party library and stays a parameter. Instants are integers: milliseconds
since the epoch, the resolution of `TIMESTAMPTZ(3)`.
-/

namespace SilenceWatch

/-- The two ways to say when a job runs. -/
inductive ScheduleType where
  | interval
  | cron
  deriving DecidableEq

/-- The subset of a check needed to know when the next heartbeat is expected. -/
structure Schedule where
  /-- Which of the two columns below is meant. -/
  scheduleType : ScheduleType
  /-- Seconds between two runs of an interval check. -/
  periodSeconds : Option ℤ
  /-- The expression of a cron check. -/
  cronExpression : Option String
  /-- The time zone a cron expression is read in. -/
  timezone : String
  deriving DecidableEq

/-- A schedule whose next occurrence cannot be computed. -/
structure InvalidScheduleError where
  /-- What is wrong with it. -/
  message : String
  deriving DecidableEq

/-- The first occurrence of an expression in a time zone after an instant, or the
message of the exception that evaluating it raises. -/
abbrev CronParser := String → String → ℤ → Except String ℤ

/-- Instant by which the next heartbeat must have arrived, grace excluded. -/
def computeNextDueAt (cron : CronParser) (schedule : Schedule) (fromInstant : ℤ) :
    Except InvalidScheduleError ℤ :=
  match schedule.scheduleType with
  | .interval =>
    match schedule.periodSeconds with
    | none => .error ⟨"interval check without a usable period_seconds"⟩
    | some period =>
      if period ≤ 0 then .error ⟨"interval check without a usable period_seconds"⟩
      else .ok (fromInstant + period * 1000)
  | .cron =>
    match schedule.cronExpression with
    | none => .error ⟨"cron check without a cron_expression"⟩
    | some expression =>
      if expression = "" then .error ⟨"cron check without a cron_expression"⟩
      else
        match cron expression schedule.timezone fromInstant with
        | .ok due => .ok due
        | .error message =>
          .error ⟨"cannot evaluate cron expression \"" ++ expression ++ "\" in " ++
            schedule.timezone ++ ": " ++ message⟩

/-- The deadline of an interval schedule is one period after the instant it is
computed from, whatever the cron evaluator does. -/
theorem computeNextDueAt_interval {cron : CronParser} {schedule : Schedule} {fromInstant due : ℤ}
    (htype : schedule.scheduleType = .interval)
    (h : computeNextDueAt cron schedule fromInstant = .ok due) :
    ∃ period, schedule.periodSeconds = some period ∧ due = fromInstant + period * 1000 := by
  unfold computeNextDueAt at h
  rw [htype] at h
  cases hperiod : schedule.periodSeconds with
  | none => simp [hperiod] at h
  | some period =>
    rw [hperiod] at h
    dsimp only at h
    split at h
    · cases h
    · cases h
      exact ⟨period, rfl, rfl⟩

end SilenceWatch
