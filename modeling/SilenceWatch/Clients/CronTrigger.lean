import SilenceWatch.Schedule.CronSyntax

/-!
# Cron triggers of APScheduler

The fields of a `CronTrigger`, the expressions that they consist of, their texts, and the
moments at which the trigger fires. Monday is zero, and all fields have to admit a moment.
-/

namespace SilenceWatch

open Cron

namespace APScheduler

/-- The names of the fields. -/
inductive FieldName where
  | year | month | day | week | dayOfWeek | hour | minute | second
  deriving DecidableEq

namespace FieldName

/-- `MIN_VALUES`. -/
def min : FieldName → ℕ
  | year => 1970
  | month | day | week => 1
  | dayOfWeek | hour | minute | second => 0

/-- `MAX_VALUES`. -/
def max : FieldName → ℕ
  | year => 9999
  | month => 12
  | day => 31
  | week => 53
  | dayOfWeek => 6
  | hour => 23
  | minute | second => 59

end FieldName

/-- The expressions of a field. -/
inductive Expression where
  /-- `AllExpression`: every value, or every so many. -/
  | all (step : Option ℕ)
  /-- `RangeExpression`: without a last value it goes on to the end of the field. -/
  | range (first : ℕ) (last step : Option ℕ)
  /-- `MonthRangeExpression`, of names. -/
  | monthRange (first last : ℕ)
  /-- `WeekdayRangeExpression`, of names. -/
  | weekdayRange (first last : ℕ)
  /-- `WeekdayPositionExpression`: one of `options` and a weekday. -/
  | weekdayPosition (option weekday : ℕ)
  /-- `LastDayOfMonthExpression`. -/
  | lastDayOfMonth
  deriving DecidableEq

/-- `WEEKDAYS`. -/
def weekdayNames : List (List Char) :=
  [['m', 'o', 'n'], ['t', 'u', 'e'], ['w', 'e', 'd'], ['t', 'h', 'u'], ['f', 'r', 'i'],
    ['s', 'a', 't'], ['s', 'u', 'n']]

/-- `WeekdayPositionExpression.options`. -/
def positionOptions : List (List Char) :=
  [['1', 's', 't'], ['2', 'n', 'd'], ['3', 'r', 'd'], ['4', 't', 'h'], ['5', 't', 'h'],
    ['l', 'a', 's', 't']]

namespace Expression

/-- What the field accepts. -/
def Valid (name : FieldName) : Expression → Prop
  | all step => ∀ s ∈ step, 1 ≤ s ∧ s ≤ name.max - name.min
  | range first last step =>
    -- a number alone is its own last value
    (last = none → step.isSome = true) ∧ name.min ≤ first ∧
      (∀ l ∈ last, first ≤ l ∧ l ≤ name.max) ∧
      ∀ s ∈ step, 1 ≤ s ∧ s ≤ last.getD name.max - first
  | monthRange first last => name = .month ∧ 1 ≤ first ∧ first ≤ last ∧ last ≤ 12
  | weekdayRange first last => name = .dayOfWeek ∧ first ≤ last ∧ last ≤ 6
  | weekdayPosition option weekday => name = .day ∧ option < 6 ∧ weekday ≤ 6
  | lastDayOfMonth => name = .day

instance (name : FieldName) (e : Expression) : Decidable (e.Valid name) :=
  match e with
  | all step => inferInstanceAs (Decidable (∀ s ∈ step, 1 ≤ s ∧ s ≤ name.max - name.min))
  | range first last step =>
    inferInstanceAs (Decidable ((last = none → step.isSome = true) ∧ name.min ≤ first ∧
      (∀ l ∈ last, first ≤ l ∧ l ≤ name.max) ∧
      ∀ s ∈ step, 1 ≤ s ∧ s ≤ last.getD name.max - first))
  | monthRange first last =>
    inferInstanceAs (Decidable (name = .month ∧ 1 ≤ first ∧ first ≤ last ∧ last ≤ 12))
  | weekdayRange first last =>
    inferInstanceAs (Decidable (name = .dayOfWeek ∧ first ≤ last ∧ last ≤ 6))
  | weekdayPosition option weekday =>
    inferInstanceAs (Decidable (name = .day ∧ option < 6 ∧ weekday ≤ 6))
  | lastDayOfMonth => inferInstanceAs (Decidable (name = .day))

/-- The text of a number. -/
def natText (n : ℕ) : List Char := Nat.toDigits 10 n

/-- The name of a month. -/
def monthText (month : ℕ) : List Char := monthNames.getD (month - 1) []

/-- The name of a weekday. -/
def weekdayText (weekday : ℕ) : List Char := weekdayNames.getD weekday []

/-- The text of a range, or of its only value. -/
def rangeText (text : ℕ → List Char) (first last : ℕ) : List Char :=
  if last = first then text first else text first ++ '-' :: text last

/-- The text of a step. -/
def stepText : Option ℕ → List Char
  | none => []
  | some step => '/' :: natText step

/-- `__str__`. -/
def str : Expression → List Char
  | all step => '*' :: stepText step
  | range first last step => rangeText natText first (last.getD first) ++ stepText step
  | monthRange first last => rangeText monthText first last
  | weekdayRange first last => rangeText weekdayText first last
  | weekdayPosition option weekday =>
    positionOptions.getD option [] ++ ' ' :: weekdayText weekday
  | lastDayOfMonth => ['l', 'a', 's', 't']

/-- The entry of a field that admits the values of the expression. -/
def entry (name : FieldName) : Expression → Entry
  | all step => .run name.min name.max (step.getD 1)
  | range first last step => .run first (last.getD name.max) (step.getD 1)
  | monthRange first last | weekdayRange first last => .run first last 1
  | weekdayPosition option weekday =>
    if option = 5 then .lastOf weekday else .nth weekday (option + 1)
  | lastDayOfMonth => .last

/-- The expression, of the days of a month, admits a date. -/
def OnDay (e : Expression) (date : Date) : Prop :=
  match e with
  | weekdayPosition option weekday =>
    ((weekdayPosition option weekday).entry .day).OnWeekday 6 date
  | e => (e.entry .day).OnDay date

/-- The expression admits a value of a field that every value is one of. -/
def Admits (name : FieldName) (e : Expression) (v : ℕ) : Prop :=
  e = all none ∨ (e.entry name).Matches v

end Expression

/-- A field: the expressions that one of them admits the value. -/
structure CronField (name : FieldName) where
  expressions : List Expression
  ne : expressions ≠ []
  valid : ∀ e ∈ expressions, e.Valid name

/-- `__str__`. -/
def CronField.str {name : FieldName} (field : CronField name) : List Char :=
  [','].intercalate (field.expressions.map Expression.str)

/-- The entries of a field. -/
def CronField.entries {name : FieldName} (field : CronField name) : List Entry :=
  field.expressions.map (Expression.entry name)

/-- `CronTrigger`, without the jitter. -/
structure CronTrigger where
  year : CronField .year
  month : CronField .month
  day : CronField .day
  week : CronField .week
  dayOfWeek : CronField .dayOfWeek
  hour : CronField .hour
  minute : CronField .minute
  second : CronField .second
  startDate : Option Moment
  endDate : Option Moment

namespace CronTrigger

/-- Every field of the trigger admits a moment. The number of the week is of the calendar. -/
def FieldsFire (weekOf : Date → ℕ) (trigger : CronTrigger) (m : Moment) : Prop :=
  (∃ e ∈ trigger.year.expressions, e.Admits .year m.year) ∧
    (∃ e ∈ trigger.week.expressions, e.Admits .week (weekOf m.toDate)) ∧
    Listed trigger.second.entries m.second ∧ Listed trigger.minute.entries m.minute ∧
    Listed trigger.hour.entries m.hour ∧ Listed trigger.month.entries m.month ∧
    (∃ e ∈ trigger.day.expressions, e.OnDay m.toDate) ∧
    ∃ e ∈ trigger.dayOfWeek.entries, e.OnWeekday 6 m.toDate

/-- A moment is neither before the first date of the trigger nor after its last one. -/
def InDates (trigger : CronTrigger) (m : Moment) : Prop :=
  (∀ start ∈ trigger.startDate, start.clock ≤ m.clock) ∧
    ∀ last ∈ trigger.endDate, m.clock ≤ last.clock

/-- When a trigger fires. -/
def Fires (weekOf : Date → ℕ) (trigger : CronTrigger) (m : Moment) : Prop :=
  trigger.FieldsFire weekOf m ∧ trigger.InDates m

end CronTrigger

end APScheduler

end SilenceWatch
