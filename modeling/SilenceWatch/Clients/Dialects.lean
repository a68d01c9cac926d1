import SilenceWatch.Clients.Discovery

/-!
# Documented cron dialects

The expressions that Spring, Quartz and Laravel document, as trees with their texts, and
which entries of them the server refuses.
-/

namespace SilenceWatch

namespace Dialect

/-- What a field counts. -/
inductive TimeUnit where
  | second | minute | hour | dayOfMonth | month | dayOfWeek | year
  deriving DecidableEq

/-- The names of its values. -/
def TimeUnit.names : TimeUnit → List (List Char)
  | month => monthNames
  | dayOfWeek => dayNames
  | _ => []

/-- A field of an expression. -/
structure Field where
  unit : TimeUnit
  min : ℕ
  max : ℕ
  /-- The largest step, if there is one. -/
  maxStep : Option ℕ := none
  /-- Nothing may stand before a step. -/
  omitsStart : Bool := false

/-- Digits. -/
def IsNumeral (text : List Char) : Prop := text ≠ [] ∧ ∀ c ∈ text, c.isDigit = true

instance (text : List Char) : Decidable (IsNumeral text) :=
  decidable_of_iff (text ≠ [] ∧ text.all Char.isDigit = true) (by rw [List.all_eq_true, IsNumeral])

/-- The letter of the last day, and the one of the nearest working day. -/
def IsMark (letter mark : Char) : Prop := mark = letter ∨ mark = letter.toLower

instance (letter mark : Char) : Decidable (IsMark letter mark) :=
  inferInstanceAs (Decidable (_ ∨ _))

/-- A value as it is written: digits, or a name in any letter case. -/
inductive Point where
  | number (digits : List Char)
  | name (letters : List Char)

namespace Point

def text : Point → List Char
  | number digits => digits
  | name letters => letters

def Valid (field : Field) : Point → Prop
  | number digits =>
    IsNumeral digits ∧ field.min ≤ digitsValue digits ∧ digitsValue digits ≤ field.max
  | name letters => letters.map Char.toLower ∈ field.unit.names

instance (field : Field) (p : Point) : Decidable (p.Valid field) :=
  match p with
  | number digits => inferInstanceAs (Decidable (IsNumeral digits ∧ _ ∧ _))
  | name letters => inferInstanceAs (Decidable (letters.map Char.toLower ∈ _))

/-- A number with leading zeros, of more than two digits. -/
def IsLong : Point → Prop
  | number digits => 2 < digits.length
  | name _ => False

instance (p : Point) : Decidable p.IsLong :=
  match p with
  | number digits => inferInstanceAs (Decidable (2 < digits.length))
  | name _ => inferInstanceAs (Decidable False)

/-- The name of July, which ends like a last day. -/
def IsJuly : Point → Prop
  | number _ => False
  | name letters => letters.map Char.toLower = ['j', 'u', 'l']

instance (p : Point) : Decidable p.IsJuly :=
  match p with
  | number _ => inferInstanceAs (Decidable False)
  | name letters => inferInstanceAs (Decidable (letters.map Char.toLower = _))

end Point

/-- What stands before the step of an entry. -/
inductive Span where
  | star
  | omitted
  | one (value : Point)
  | between (first last : Point)

namespace Span

def text : Span → List Char
  | star => ['*']
  | omitted => []
  | one value => value.text
  | between first last => first.text ++ '-' :: last.text

/-- Its values. -/
def points : Span → List Point
  | star | omitted => []
  | one value => [value]
  | between first last => [first, last]

/-- The value that it ends with. -/
def end? : Span → Option Point
  | star | omitted => none
  | one value => some value
  | between _ last => some last

end Span

/-- An entry of the list of a field. -/
inductive Entry where
  | plain (range : Span) (step : Option (List Char))
  /-- `L`. -/
  | last (mark : Char)
  /-- `L-3`. -/
  | beforeLast (mark : Char) (days : List Char)
  /-- `5L` and `FRIL`. -/
  | lastOf (value : Point) (mark : Char)
  /-- `5#2` and `FRI#2`. -/
  | nth (value : Point) (count : List Char)
  /-- `15W`. -/
  | nearest (day : List Char) (mark : Char)
  /-- `LW`. -/
  | nearestLast (mark workday : Char)
  /-- `L-3W`. -/
  | nearestBeforeLast (mark : Char) (days : List Char) (workday : Char)

namespace Entry

/-- The text of a step. -/
def stepText : Option (List Char) → List Char
  | none => []
  | some step => '/' :: step

def text : Entry → List Char
  | plain range step => range.text ++ stepText step
  | last mark => [mark]
  | beforeLast mark days => mark :: '-' :: days
  | lastOf value mark => value.text ++ [mark]
  | nth value count => value.text ++ '#' :: count
  | nearest day mark => day ++ [mark]
  | nearestLast mark workday => [mark, workday]
  | nearestBeforeLast mark days workday => mark :: '-' :: days ++ [workday]

def Valid (field : Field) : Entry → Prop
  | plain range step =>
    (∀ p ∈ range.points, p.Valid field) ∧
      (range.text = [] → field.omitsStart = true ∧ step.isSome = true) ∧
      ∀ digits ∈ step, IsNumeral digits ∧ 1 ≤ digitsValue digits ∧
        ∀ most ∈ field.maxStep, digitsValue digits ≤ most
  | last mark => (field.unit = .dayOfMonth ∨ field.unit = .dayOfWeek) ∧ IsMark 'L' mark
  | beforeLast mark days => field.unit = .dayOfMonth ∧ IsMark 'L' mark ∧ IsNumeral days
  | lastOf value mark => field.unit = .dayOfWeek ∧ value.Valid field ∧ IsMark 'L' mark
  | nth value count =>
    field.unit = .dayOfWeek ∧ value.Valid field ∧ IsNumeral count ∧ 1 ≤ digitsValue count ∧
      digitsValue count ≤ 5
  | nearest day mark => field.unit = .dayOfMonth ∧ IsNumeral day ∧ IsMark 'W' mark
  | nearestLast mark workday => field.unit = .dayOfMonth ∧ IsMark 'L' mark ∧ IsMark 'W' workday
  | nearestBeforeLast mark days workday =>
    field.unit = .dayOfMonth ∧ IsMark 'L' mark ∧ IsNumeral days ∧ IsMark 'W' workday

instance (field : Field) (e : Entry) : Decidable (e.Valid field) := by
  cases e with
  | _ => unfold Valid; infer_instance

/-- The entry is a working day near another day. -/
def IsNearest : Entry → Prop
  | nearest _ _ | nearestLast _ _ | nearestBeforeLast _ _ _ => True
  | _ => False

/-- The server refuses the entry, and nothing keeps it back: nothing before its step, numbers
with more digits than it reads, July at the end, or days before the last one. -/
def Drifts : Entry → Prop
  | plain range step =>
    range.text = [] ∨ (∃ p ∈ range.points, p.IsLong) ∨ (∃ digits ∈ step, 3 < digits.length) ∨
      step = none ∧ ∃ p ∈ range.end?, p.IsJuly
  | beforeLast _ _ => True
  | lastOf value _ => value.IsLong
  | nth value count => value.IsLong ∨ 1 < count.length
  | last _ | nearest _ _ | nearestLast _ _ | nearestBeforeLast _ _ _ => False

instance (e : Entry) : Decidable e.Drifts := by
  cases e with
  | _ => unfold Drifts; infer_instance

end Entry

/-- A field as it is written. -/
inductive FieldText where
  | question
  | list (entries : List Entry)

namespace FieldText

def text : FieldText → List Char
  | question => ['?']
  | list entries => [','].intercalate (entries.map Entry.text)

def entries : FieldText → List Entry
  | question => []
  | list entries => entries

def Valid (field : Field) : FieldText → Prop
  | question => field.unit = .dayOfMonth ∨ field.unit = .dayOfWeek
  | list entries => entries ≠ [] ∧ ∀ e ∈ entries, e.Valid field

instance (field : Field) (text : FieldText) : Decidable (text.Valid field) := by
  cases text with
  | _ => unfold Valid; infer_instance

end FieldText

/-- What an expression is read as. -/
inductive Reading where
  | descriptor (name : List Char)
  | fields (texts : List FieldText)

/-- Some entry of the expression is one that the server refuses. -/
def Reading.Drifts : Reading → Prop
  | .descriptor _ => False
  | .fields texts => ∃ text ∈ texts, ∃ e ∈ text.entries, e.Drifts

instance (reading : Reading) : Decidable reading.Drifts := by
  cases reading with
  | _ => unfold Reading.Drifts; infer_instance

end Dialect

/-- The expressions of a scheduler: what separates fields, and which fields there are. -/
structure SchedulerDialect where
  isSeparator : Char → Bool
  fields : List (List Dialect.Field)
  macros : List (List Char)

namespace SchedulerDialect

open Dialect

/-- The dialect has the reading for an expression. -/
def Reads (dialect : SchedulerDialect) (expression : List Char) : Reading → Prop
  | .descriptor name =>
    strip dialect.isSeparator expression = name ∧ name.map Char.toLower ∈ dialect.macros
  | .fields texts =>
    words dialect.isSeparator expression = texts.map FieldText.text ∧
      ∃ fields ∈ dialect.fields, List.Forall₂ FieldText.Valid fields texts

/-- The expressions of `@Scheduled`. -/
def spring : SchedulerDialect where
  isSeparator c := c = ' '
  fields := [[⟨.second, 0, 59, none, false⟩, ⟨.minute, 0, 59, none, false⟩,
    ⟨.hour, 0, 23, none, false⟩, ⟨.dayOfMonth, 1, 31, none, false⟩, ⟨.month, 1, 12, none, false⟩,
    ⟨.dayOfWeek, 0, 7, none, false⟩]]
  macros := cronMacros

/-- The fields of Quartz, of which the last may be left out. -/
def quartzFields : List Field :=
  [⟨.second, 0, 59, some 59, true⟩, ⟨.minute, 0, 59, some 59, true⟩, ⟨.hour, 0, 23, some 23, true⟩,
    ⟨.dayOfMonth, 1, 31, some 31, true⟩, ⟨.month, 1, 12, some 12, true⟩,
    ⟨.dayOfWeek, 1, 7, some 7, true⟩, ⟨.year, 1970, 2099, none, true⟩]

/-- The expressions of `CronTrigger`. -/
def quartz : SchedulerDialect where
  isSeparator c := c = ' ' || c = '\t'
  fields := [quartzFields, quartzFields.dropLast]
  macros := []

/-- The expressions of Laravel's scheduler. -/
def laravel : SchedulerDialect where
  isSeparator c := [9, 10, 11, 12, 13, 32].contains c.toNat
  fields := [[⟨.minute, 0, 59, none, false⟩, ⟨.hour, 0, 23, none, false⟩,
    ⟨.dayOfMonth, 1, 31, none, false⟩, ⟨.month, 1, 12, none, false⟩,
    ⟨.dayOfWeek, 0, 7, none, false⟩]]
  macros := cronMacros

end SchedulerDialect

end SilenceWatch
