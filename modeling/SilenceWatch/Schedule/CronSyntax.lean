import Mathlib.Data.List.DropRight
import SilenceWatch.Library.Cron

/-!
# The cron dialect of the server

`isValidCronExpression` of the shared package, which the API, the web UI and the client
libraries rely on, and what the server takes an expression for that it can evaluate. An
expression is the list of its characters.
-/

namespace SilenceWatch

open Cron

/-- White space, for `trim` and for the pattern that fields are split on. -/
def isSpace (c : Char) : Bool :=
  [9, 10, 11, 12, 13, 32, 160, 0x1680, 0x2028, 0x2029, 0x202f, 0x205f, 0x3000, 0xfeff].contains
      c.toNat ||
    (0x2000 ≤ c.toNat && c.toNat ≤ 0x200a)

/-- The text without the separators at its ends. -/
def strip (isSeparator : Char → Bool) (text : List Char) : List Char :=
  (text.dropWhile isSeparator).rdropWhile isSeparator

/-- The text up to its first separator, and the words after it. -/
def splitWord (isSeparator : Char → Bool) : List Char → List Char × List (List Char)
  | [] => ([], [])
  | c :: text =>
    let (word, words) := splitWord isSeparator text
    if isSeparator c then ([], if word = [] then words else word :: words) else (c :: word, words)

/-- What a text without separators at its ends is split into, where any number of them is
one. -/
def words (isSeparator : Char → Bool) (text : List Char) : List (List Char) :=
  let (word, words) := splitWord isSeparator text
  if word = [] then words else word :: words

/-- The value of a text of digits. -/
def digitsValue (digits : List Char) : ℕ :=
  digits.foldl (fun n c => 10 * n + (c.toNat - 48)) 0

/-- The text has digits only, and no more than so many. -/
def isNumber (most : ℕ) (text : List Char) : Bool :=
  text.length ≠ 0 && text.length ≤ most && text.all Char.isDigit

/-- `MACROS`. -/
def cronMacros : List (List Char) :=
  ["@yearly", "@annually", "@monthly", "@weekly", "@daily", "@midnight", "@hourly"].map
    String.toList

/-- `MONTH_NAMES`. -/
def monthNames : List (List Char) :=
  [['j', 'a', 'n'], ['f', 'e', 'b'], ['m', 'a', 'r'], ['a', 'p', 'r'], ['m', 'a', 'y'],
    ['j', 'u', 'n'], ['j', 'u', 'l'], ['a', 'u', 'g'], ['s', 'e', 'p'], ['o', 'c', 't'],
    ['n', 'o', 'v'], ['d', 'e', 'c']]

/-- `DAY_NAMES`. -/
def dayNames : List (List Char) :=
  [['s', 'u', 'n'], ['m', 'o', 'n'], ['t', 'u', 'e'], ['w', 'e', 'd'], ['t', 'h', 'u'],
    ['f', 'r', 'i'], ['s', 'a', 't']]

/-- `FieldSpec`. -/
structure FieldSpec where
  min : ℕ
  max : ℕ
  names : Option (List (List Char)) := none
  allowQuestionMark : Bool := false
  /-- The last day of the month, or the last given weekday of the month. -/
  allowLast : Bool := false
  /-- The nth given weekday of the month. -/
  allowNth : Bool := false
  deriving DecidableEq

namespace FieldSpec

def second : FieldSpec := { min := 0, max := 59 }
def minute : FieldSpec := { min := 0, max := 59 }
def hour : FieldSpec := { min := 0, max := 23 }

def dayOfMonth : FieldSpec :=
  { min := 1, max := 31, allowQuestionMark := true, allowLast := true }

def month : FieldSpec := { min := 1, max := 12, names := some monthNames }

def dayOfWeek : FieldSpec :=
  { min := 0, max := 7, names := some dayNames, allowQuestionMark := true, allowLast := true,
    allowNth := true }

end FieldSpec

/-- `FIVE_FIELDS`. -/
def fiveFields : List FieldSpec := [.minute, .hour, .dayOfMonth, .month, .dayOfWeek]

/-- `SIX_FIELDS`. -/
def sixFields : List FieldSpec := .second :: fiveFields

/-- `parseValue`. -/
def parseValue (token : List Char) (spec : FieldSpec) : Option ℕ :=
  let lowered := token.map Char.toLower
  match spec.names.bind fun names => names.idxOf? lowered with
  | some index => some (if spec.names = some monthNames then index + 1 else index)
  | none =>
    if isNumber 2 token then
      let value := digitsValue token
      if spec.min ≤ value ∧ value ≤ spec.max then some value else none
    else none

/-- What stands before the `L` of `5L` and `friL`. -/
def beforeLetterL? (entry : List Char) : Option (List Char) :=
  match entry.reverse with
  | c :: value => if (c = 'L' ∨ c = 'l') ∧ value ≠ [] then some value.reverse else none
  | [] => none

/-- What stands before and after the `#` of `MON#2`, which is at most five. -/
def aroundHash? (entry : List Char) : Option (List Char × ℕ) :=
  match entry.reverse with
  | n :: c :: value =>
    if c = '#' ∧ '1' ≤ n ∧ n ≤ '5' ∧ value ≠ [] then some (value.reverse, digitsValue [n])
    else none
  | _ => none

/-- A step is a number of at most three digits that is not zero. -/
def isValidStep (step : List Char) : Bool := isNumber 3 step && 1 ≤ digitsValue step

/-- `isValidField`, of what stands before the step of an entry. -/
def isValidRange (spec : FieldSpec) (range : List Char) : Bool :=
  if range = ['*'] then true
  else
    match range.splitOn '-' with
    | [value] => (parseValue value spec).isSome
    | [low, high] => (parseValue low spec).isSome && (parseValue high spec).isSome
    | _ => false

/-- `isValidField`, of one of the entries. -/
def isValidEntry (spec : FieldSpec) (entry : List Char) : Bool :=
  if entry.length = 0 then false
  else if entry.map Char.toUpper = ['L'] then spec.allowLast
  else
    match beforeLetterL? entry with
    | some value => spec.allowLast && (parseValue value spec).isSome
    | none =>
      match aroundHash? entry with
      | some (value, _) => spec.allowNth && (parseValue value spec).isSome
      | none =>
        match entry.splitOn '/' with
        | [] => false
        | range :: steps =>
          if 1 < steps.length then false
          else if ¬ steps.all isValidStep then false
          else isValidRange spec range

/-- `isValidField`. -/
def isValidField (field : List Char) (spec : FieldSpec) : Bool :=
  if field.length = 0 then false
  else if field = ['?'] then spec.allowQuestionMark
  else (field.splitOn ',').all (isValidEntry spec)

/-- `isValidCronExpression`. -/
def isValidCronExpression (expression : List Char) : Bool :=
  let trimmed := strip isSpace expression
  if trimmed.length = 0 ∨ 200 < trimmed.length then false
  else if trimmed.head? = some '@' then cronMacros.contains (trimmed.map Char.toLower)
  else
    let fields := words isSpace trimmed
    let specs :=
      if fields.length = 6 then sixFields else if fields.length = 5 then fiveFields else []
    specs ≠ [] && (fields.zip specs).all fun pair => isValidField pair.1 pair.2

/-- What the server takes a range for, with the step behind it. -/
def readRange (spec : FieldSpec) (range : List Char) (step : Option ℕ) : Option Entry :=
  if range = ['*'] then some (.run spec.min spec.max (step.getD 1))
  else
    match range.splitOn '-' with
    | [value] =>
      (parseValue value spec).map fun v =>
        .run v (if step = none then v else spec.max) (step.getD 1)
    | [low, high] =>
      match parseValue low spec, parseValue high spec with
      | some a, some b => if a ≤ b then some (.run a b (step.getD 1)) else none
      | _, _ => none
    | _ => none

/-- What the server takes an entry for. Ranges that run backwards and the last fifth of a month
have no meaning. -/
def readEntry (spec : FieldSpec) (entry : List Char) : Option Entry :=
  if entry.map Char.toUpper = ['L'] then if spec.allowLast then some .last else none
  else
    match beforeLetterL? entry with
    | some value => if spec.allowNth then (parseValue value spec).map .lastOf else none
    | none =>
      match aroundHash? entry with
      | some (value, n) => if spec.allowNth then (parseValue value spec).map (.nth · n) else none
      | none =>
        match entry.splitOn '/' with
        | [range] => readRange spec range none
        | [range, step] =>
          if isValidStep step then readRange spec range (some (digitsValue step)) else none
        | _ => none

/-- What the server takes the entries of a field for. -/
def readEntries (spec : FieldSpec) : List (List Char) → Option (List Entry)
  | [] => some []
  | entry :: entries =>
    match readEntry spec entry, readEntries spec entries with
    | some e, some es => some (e :: es)
    | _, _ => none

/-- What the server takes a field of days for, which may admit all of them. -/
def readDays (spec : FieldSpec) (field : List Char) : Option (Option (List Entry)) :=
  if field = ['?'] ∨ field = ['*'] then some none
  else (readEntries spec (field.splitOn ',')).map some

/-- What the server takes the fields of an expression for. -/
def readFields (second minute hour dayOfMonth month dayOfWeek : List Char) : Option Table :=
  match readEntries .second (second.splitOn ','), readEntries .minute (minute.splitOn ','),
      readEntries .hour (hour.splitOn ','), readDays .dayOfMonth dayOfMonth,
      readEntries .month (month.splitOn ','), readDays .dayOfWeek dayOfWeek with
  | some second, some minute, some hour, some dayOfMonth, some month, some dayOfWeek =>
    some { second, minute, hour, dayOfMonth, month, dayOfWeek }
  | _, _, _, _, _, _ => none

/-- What the server takes an expression for, if it can evaluate it. Macros are left out. -/
def readTable (expression : List Char) : Option Table :=
  let trimmed := strip isSpace expression
  if 200 < trimmed.length then none
  else
    match words isSpace trimmed with
    | [minute, hour, dayOfMonth, month, dayOfWeek] =>
      readFields ['0'] minute hour dayOfMonth month dayOfWeek
    | [second, minute, hour, dayOfMonth, month, dayOfWeek] =>
      readFields second minute hour dayOfMonth month dayOfWeek
    | _ => none

/-- When a schedule of the server fires: Sunday is zero, and a day of the month and a weekday
that are both restricted are alternatives. -/
abbrev ServerFires (t : Table) (m : Moment) : Prop := t.Fires 0 Or m

/-- The two ends of a range, if it has two, are in order. -/
def RunsForwards (spec : FieldSpec) : List (List Char) → Prop
  | [low, high] => ∀ a ∈ parseValue low spec, ∀ b ∈ parseValue high spec, a ≤ b
  | _ => True

instance (spec : FieldSpec) (ends : List (List Char)) : Decidable (RunsForwards spec ends) :=
  match ends with
  | [low, high] =>
    inferInstanceAs (Decidable (∀ a ∈ parseValue low spec, ∀ b ∈ parseValue high spec, a ≤ b))
  | [] | [_] | _ :: _ :: _ :: _ => inferInstanceAs (Decidable True)

/-- The ranges of an entry run forwards, and it is no weekday's last one unless it is one of
weekdays. -/
def IsEvaluable (spec : FieldSpec) (entry : List Char) : Prop :=
  (spec.allowNth = false → beforeLetterL? entry = none) ∧
    (beforeLetterL? entry = none → aroundHash? entry = none →
      ∀ range ∈ (entry.splitOn '/').head?, RunsForwards spec (range.splitOn '-'))

instance (spec : FieldSpec) (entry : List Char) : Decidable (IsEvaluable spec entry) :=
  inferInstanceAs (Decidable (_ ∧ _))

/-- A full hour of January 2024, which begins on a Monday. -/
def january2024 (day hour : ℕ) (hday : 1 ≤ day ∧ day ≤ 31) (hhour : hour < 24) : Moment :=
  { year := 2024, month := 1, day, hour, minute := 0, second := 0
    month_mem := by decide, day_mem := hday
    hour_lt := hhour, minute_lt := by decide, second_lt := by decide }

variable {spec : FieldSpec} {entry range : List Char} {step : Option ℕ}

/-- Only an L has the upper case L. -/
theorem eq_letterL {c : Char} (h : c.toUpper = 'L') : c = 'L' ∨ c = 'l' := by
  unfold Char.toUpper at h
  split at h
  · next hlower =>
    right
    have hval := congrArg (fun c : Char => c.val.toNat) h
    simp only [UInt32.toNat_add, UInt32.le_iff_toNat_le] at hval hlower
    have hshift : ('A'.val - 'a'.val).toNat = 4294967264 := by decide
    have ha : 'a'.val.toNat = 97 := by decide
    have hz : 'z'.val.toNat = 122 := by decide
    have hL : 'L'.val.toNat = 76 := by decide
    have hl : 'l'.val.toNat = 108 := by decide
    refine Char.ext (UInt32.toNat_inj.mp ?_)
    omega
  · exact Or.inl h

/-- What ends with the letter of the last weekday. -/
theorem eq_of_beforeLetterL? {value : List Char} (h : beforeLetterL? entry = some value) :
    ∃ c, (c = 'L' ∨ c = 'l') ∧ entry = value ++ [c] := by
  unfold beforeLetterL? at h
  split at h
  · next c rest hreverse =>
    split at h
    · next hc =>
      cases h
      refine ⟨c, hc.1, ?_⟩
      rw [← List.reverse_reverse entry, hreverse, List.reverse_cons]
    · cases h
  · cases h

/-- What ends with the hash and the number of an nth weekday. -/
theorem eq_of_aroundHash? {value : List Char} {n : ℕ} (h : aroundHash? entry = some (value, n)) :
    (1 ≤ n ∧ n ≤ 5) ∧ ∃ c, c ≠ ',' ∧ entry = value ++ ['#', c] := by
  unfold aroundHash? at h
  split at h
  · next c hash rest hreverse =>
    split at h
    · next hc =>
      obtain ⟨rfl, hone, hfive, -⟩ := hc
      cases h
      have hvalue : digitsValue [c] = 10 * 0 + (c.val.toNat - 48) := rfl
      have hone' : '1'.val.toNat ≤ c.val.toNat := UInt32.le_iff_toNat_le.mp hone
      have hfive' : c.val.toNat ≤ '5'.val.toNat := UInt32.le_iff_toNat_le.mp hfive
      have hcode : '1'.val.toNat = 49 ∧ '5'.val.toNat = 53 := by decide
      refine ⟨by omega, c, ?_, ?_⟩
      · rintro rfl
        revert hone
        decide
      · rw [← List.reverse_reverse entry, hreverse]
        simp
    · cases h
  · cases h

/-- An entry without the letters and signs of days in the month is a range with or without a
step. -/
theorem readEntry_of_notMem (hL : 'L' ∉ entry) (hl : 'l' ∉ entry) (hhash : '#' ∉ entry) :
    readEntry spec entry =
      match entry.splitOn '/' with
      | [range] => readRange spec range none
      | [range, step] =>
        if isValidStep step then readRange spec range (some (digitsValue step)) else none
      | _ => none := by
  have hupper : entry.map Char.toUpper ≠ ['L'] := by
    intro hupper
    obtain ⟨c, rfl⟩ : ∃ c, entry = [c] :=
      List.length_eq_one_iff.mp (by simpa using congrArg List.length hupper)
    rcases eq_letterL (by simpa using hupper) with rfl | rfl
    · exact hL List.mem_cons_self
    · exact hl List.mem_cons_self
  have hletter : beforeLetterL? entry = none := by
    rw [Option.eq_none_iff_forall_ne_some]
    intro value hvalue
    obtain ⟨c, rfl | rfl, rfl⟩ := eq_of_beforeLetterL? hvalue
    · exact hL (by simp)
    · exact hl (by simp)
  have hnth : aroundHash? entry = none := by
    rw [Option.eq_none_iff_forall_ne_some]
    rintro ⟨value, n⟩ hvalue
    obtain ⟨-, c, -, rfl⟩ := eq_of_aroundHash? hvalue
    exact hhash (by simp)
  simp only [readEntry, if_neg hupper, hletter, hnth]

/-- A range is read exactly if the validator accepts it and it runs forwards. -/
theorem readRange_isSome :
    (readRange spec range step).isSome = true ↔
      isValidRange spec range = true ∧ RunsForwards spec (range.splitOn '-') := by
  unfold readRange isValidRange
  by_cases hstar : range = ['*']
  · subst hstar
    have hsplit : List.splitOn '-' ['*'] = [['*']] := by decide
    simp [hsplit, RunsForwards]
  · rw [if_neg hstar, if_neg hstar]
    rcases range.splitOn '-' with _ | ⟨low, _ | ⟨high, _ | ⟨more, rest⟩⟩⟩
    · simp
    · simp [RunsForwards]
    · cases hlow : parseValue low spec with
      | none => simp [hlow]
      | some a =>
        cases hhigh : parseValue high spec with
        | none => simp [hlow, hhigh]
        | some b => simp [hlow, hhigh, RunsForwards]
    · simp

/-- Only the field of weekdays has nth weekdays, and it has last ones as well. No field has an
empty name. -/
theorem sixFields_spec (hspec : spec ∈ sixFields) :
    (spec.allowNth = true → spec.allowLast = true) ∧ parseValue [] spec = none := by
  revert spec
  decide

/-- The letter of the last day has no other reading. -/
theorem isEvaluable_letterL (hL : entry.map Char.toUpper = ['L']) : IsEvaluable spec entry := by
  obtain ⟨c, rfl⟩ : ∃ c, entry = [c] :=
    List.length_eq_one_iff.mp (by simpa using congrArg List.length hL)
  have hslash : c ≠ '/' := by
    rintro rfl
    revert hL
    decide
  have hdash : c ≠ '-' := by
    rintro rfl
    revert hL
    decide
  have hslash' : [c].splitOn '/' = [[c]] := by
    simp [List.splitOn, List.splitOnP_cons_eq_if_modifyHead, hslash]
  have hdash' : [c].splitOn '-' = [[c]] := by
    simp [List.splitOn, List.splitOnP_cons_eq_if_modifyHead, hdash]
  refine ⟨fun _ => by simp [beforeLetterL?], fun _ _ range hrange => ?_⟩
  rw [hslash'] at hrange
  cases hrange
  rw [hdash']
  trivial

/-- **An entry is read** exactly if the validator accepts it and it can be evaluated. -/
theorem readEntry_isSome (hspec : spec ∈ sixFields) :
    (readEntry spec entry).isSome = true ↔
      isValidEntry spec entry = true ∧ IsEvaluable spec entry := by
  obtain ⟨hlast, hempty⟩ := sixFields_spec hspec
  unfold readEntry isValidEntry
  by_cases hnil : entry = []
  · subst hnil
    simp [beforeLetterL?, aroundHash?, readRange, hempty]
  · have hlength : ¬ entry.length = 0 := by simpa using hnil
    rw [if_neg hlength]
    by_cases hL : entry.map Char.toUpper = ['L']
    · rw [if_pos hL, if_pos hL]
      have hevaluable : IsEvaluable spec entry := isEvaluable_letterL hL
      cases spec.allowLast with
      | true => simp [hevaluable]
      | false => simp
    · rw [if_neg hL, if_neg hL]
      unfold IsEvaluable
      cases hletter : beforeLetterL? entry with
      | some value =>
        cases hnth : spec.allowNth with
        | true => simp [hlast hnth]
        | false => simp
      | none =>
        cases hhash : aroundHash? entry with
        | some pair =>
          obtain ⟨value, n⟩ := pair
          cases hnth : spec.allowNth with
          | true => simp
          | false => simp
        | none =>
          simp only [forall_const, implies_true, true_and]
          rcases entry.splitOn '/' with _ | ⟨range, _ | ⟨step, _ | ⟨more, rest⟩⟩⟩
          · simp
          · simp [readRange_isSome]
          · by_cases hstep : isValidStep step = true
            · simp [hstep, readRange_isSome]
            · simp [hstep]
          · simp

/-- Entries are read exactly if each is. -/
theorem readEntries_isSome {entries : List (List Char)} :
    (readEntries spec entries).isSome = true ↔
      ∀ entry ∈ entries, (readEntry spec entry).isSome = true := by
  induction entries with
  | nil => simp [readEntries]
  | cons entry entries ih =>
    rw [List.forall_mem_cons, ← ih, readEntries]
    cases readEntry spec entry with
    | none => simp
    | some e =>
      cases readEntries spec entries with
      | none => simp
      | some es => simp

/-- What is read of entries is read of one of them. -/
theorem mem_of_readEntries {entries : List (List Char)} {es : List Entry} {e : Entry}
    (hes : readEntries spec entries = some es) (he : e ∈ es) :
    ∃ entry ∈ entries, readEntry spec entry = some e := by
  induction entries generalizing es with
  | nil =>
    cases hes
    cases he
  | cons entry entries ih =>
    simp only [readEntries] at hes
    split at hes
    · next e' es' he' hrest =>
      cases hes
      rcases List.mem_cons.mp he with rfl | hlater
      · exact ⟨entry, List.mem_cons_self, he'⟩
      · obtain ⟨entry', hentry', hread⟩ := ih hrest hlater
        exact ⟨entry', List.mem_cons_of_mem entry hentry', hread⟩
    · cases hes

/-- The entries of a field can be evaluated. -/
def FieldEvaluable (field : List Char) (spec : FieldSpec) : Prop :=
  ∀ entry ∈ field.splitOn ',', IsEvaluable spec entry

instance (field : List Char) (spec : FieldSpec) : Decidable (FieldEvaluable field spec) :=
  inferInstanceAs (Decidable (∀ entry ∈ field.splitOn ',', IsEvaluable spec entry))

/-- The entry of a field without a question mark refuses it. -/
theorem readEntry_questionMark (hspec : spec ∈ sixFields) :
    readEntry spec ['?'] = none := by
  revert spec
  decide

/-- A field is read entry by entry exactly if the validator accepts it and its entries can be
evaluated, the question mark apart. -/
theorem readEntries_field_isSome {field : List Char} (hspec : spec ∈ sixFields)
    (hfield : field ≠ ['?']) :
    (readEntries spec (field.splitOn ',')).isSome = true ↔
      isValidField field spec = true ∧ FieldEvaluable field spec := by
  simp only [readEntries_isSome, readEntry_isSome hspec, FieldEvaluable, isValidField,
    if_neg hfield]
  by_cases hempty : field.length = 0
  · rw [if_pos hempty]
    obtain rfl := List.length_eq_zero_iff.mp hempty
    simp [isValidEntry]
  · rw [if_neg hempty, List.all_eq_true, ← forall₂_and]

/-- A field of the clock, or of months, is read exactly if the validator accepts it and its
entries can be evaluated. -/
theorem readClock_isSome {field : List Char} (hspec : spec ∈ sixFields)
    (hclock : spec.allowQuestionMark = false) :
    (readEntries spec (field.splitOn ',')).isSome = true ↔
      isValidField field spec = true ∧ FieldEvaluable field spec := by
  by_cases hfield : field = ['?']
  · subst hfield
    have hsplit : List.splitOn ',' ['?'] = [['?']] := by decide
    simp [hsplit, readEntries, readEntry_questionMark hspec, isValidField, hclock]
  · exact readEntries_field_isSome hspec hfield

/-- A field of days is read exactly if the validator accepts it and its entries can be
evaluated. -/
theorem readDays_isSome {field : List Char} (hspec : spec ∈ sixFields)
    (hdays : spec.allowQuestionMark = true) :
    (readDays spec field).isSome = true ↔
      isValidField field spec = true ∧ FieldEvaluable field spec := by
  unfold readDays
  by_cases hmark : field = ['?']
  · subst hmark
    have hsplit : List.splitOn ',' ['?'] = [['?']] := by decide
    have hevaluable : IsEvaluable spec ['?'] := by
      revert spec
      decide
    simp [isValidField, hdays, FieldEvaluable, hsplit, hevaluable]
  · by_cases hstar : field = ['*']
    · subst hstar
      rw [if_pos (Or.inr rfl)]
      rw [← readEntries_field_isSome hspec hmark]
      revert spec
      decide
    · rw [if_neg (by simp [hmark, hstar]), Option.isSome_map]
      exact readEntries_field_isSome hspec hmark

/-- Six fields are read exactly if the validator accepts each and its entries can be
evaluated. -/
theorem readFields_isSome {second minute hour dayOfMonth month dayOfWeek : List Char} :
    (readFields second minute hour dayOfMonth month dayOfWeek).isSome = true ↔
      ∀ pair ∈ [second, minute, hour, dayOfMonth, month, dayOfWeek].zip sixFields,
        isValidField pair.1 pair.2 = true ∧ FieldEvaluable pair.1 pair.2 := by
  have hsome : (readFields second minute hour dayOfMonth month dayOfWeek).isSome = true ↔
      (readEntries .second (second.splitOn ',')).isSome = true ∧
        (readEntries .minute (minute.splitOn ',')).isSome = true ∧
        (readEntries .hour (hour.splitOn ',')).isSome = true ∧
        (readDays .dayOfMonth dayOfMonth).isSome = true ∧
        (readEntries .month (month.splitOn ',')).isSome = true ∧
        (readDays .dayOfWeek dayOfWeek).isSome = true := by
    unfold readFields
    cases readEntries .second (second.splitOn ',') with
    | none => simp
    | some second =>
      cases readEntries .minute (minute.splitOn ',') with
      | none => simp
      | some minute =>
        cases readEntries .hour (hour.splitOn ',') with
        | none => simp
        | some hour =>
          cases readDays .dayOfMonth dayOfMonth with
          | none => simp
          | some dayOfMonth =>
            cases readEntries .month (month.splitOn ',') with
            | none => simp
            | some month =>
              cases readDays .dayOfWeek dayOfWeek with
              | none => simp
              | some dayOfWeek => simp
  rw [hsome, readClock_isSome (by decide) rfl, readClock_isSome (by decide) rfl,
    readClock_isSome (by decide) rfl, readDays_isSome (by decide) rfl,
    readClock_isSome (by decide) rfl, readDays_isSome (by decide) rfl]
  simp [sixFields, fiveFields]

/-- What the server takes six fields for is what it takes each for. -/
theorem readFields_eq_some {second minute hour dayOfMonth month dayOfWeek : List Char} {t : Table}
    (h : readFields second minute hour dayOfMonth month dayOfWeek = some t) :
    (readEntries .second (second.splitOn ',') = some t.second ∧
      readEntries .minute (minute.splitOn ',') = some t.minute ∧
      readEntries .hour (hour.splitOn ',') = some t.hour ∧
      readEntries .month (month.splitOn ',') = some t.month) ∧
      readDays .dayOfMonth dayOfMonth = some t.dayOfMonth ∧
      readDays .dayOfWeek dayOfWeek = some t.dayOfWeek := by
  unfold readFields at h
  split at h
  · next hsecond hminute hhour hdayOfMonth hmonth hdayOfWeek =>
    cases h
    exact ⟨⟨hsecond, hminute, hhour, hmonth⟩, hdayOfMonth, hdayOfWeek⟩
  · cases h

/-- Separators at the ends are no words. -/
theorem words_strip (isSeparator : Char → Bool) (text : List Char) :
    words isSeparator (strip isSeparator text) = words isSeparator text := by
  have hdrop : ∀ text : List Char,
      words isSeparator (text.dropWhile isSeparator) = words isSeparator text := by
    intro text
    induction text with
    | nil => rfl
    | cons c text ih =>
      rw [List.dropWhile_cons]
      split
      · next hc =>
        rw [ih]
        simp [words, splitWord, hc]
      · rfl
  have hsplit : ∀ (text : List Char) (c : Char), isSeparator c = true →
      splitWord isSeparator (text ++ [c]) = splitWord isSeparator text := by
    intro text c hc
    induction text with
    | nil => simp [splitWord, hc]
    | cons d text ih => simp only [List.cons_append, splitWord, ih]
  have hrdrop : ∀ text : List Char,
      words isSeparator (text.rdropWhile isSeparator) = words isSeparator text := by
    intro text
    induction text using List.reverseRecOn with
    | nil => rfl
    | append_singleton text c ih =>
      rw [List.rdropWhile_concat]
      split
      · next hc =>
        rw [ih]
        simp only [words, hsplit text c hc]
      · rfl
  rw [strip, hrdrop, hdrop]

/-- Only the separators of a text decide its words. -/
theorem words_congr {isSeparator isSeparator' : Char → Bool} {text : List Char}
    (h : ∀ c ∈ text, isSeparator c = isSeparator' c) :
    words isSeparator text = words isSeparator' text := by
  have hsplit : splitWord isSeparator text = splitWord isSeparator' text := by
    induction text with
    | nil => rfl
    | cons c text ih =>
      simp only [splitWord, h c List.mem_cons_self,
        ih fun d hd => h d (List.mem_cons_of_mem c hd)]
  simp only [words, hsplit]

/-- The words of a text are what it begins with, unless it begins with a separator, and the
later ones. -/
theorem mem_words_iff {isSeparator : Char → Bool} {text word : List Char} :
    word ∈ words isSeparator text ↔
      word ≠ [] ∧ word = (splitWord isSeparator text).1 ∨
        word ∈ (splitWord isSeparator text).2 := by
  unfold words
  dsimp only
  split
  · next h => simp +contextual [h]
  · next h =>
    rw [List.mem_cons]
    constructor
    · rintro (rfl | hmem)
      · exact Or.inl ⟨h, rfl⟩
      · exact Or.inr hmem
    · rintro (⟨-, rfl⟩ | hmem)
      · exact Or.inl rfl
      · exact Or.inr hmem

/-- A character is a separator or in a word. -/
theorem mem_words {isSeparator : Char → Bool} {text : List Char} {c : Char} (hc : c ∈ text) :
    isSeparator c = true ∨ ∃ word ∈ words isSeparator text, c ∈ word := by
  have hsplit : isSeparator c = true ∨ c ∈ (splitWord isSeparator text).1 ∨
      ∃ word ∈ (splitWord isSeparator text).2, c ∈ word := by
    induction text with
    | nil => cases hc
    | cons d text ih =>
      by_cases hd : isSeparator d = true
      · rcases List.mem_cons.mp hc with rfl | hc
        · exact Or.inl hd
        · refine (ih hc).imp_right fun hmem => Or.inr ?_
          rw [splitWord]
          simp only [hd, if_true]
          rcases hmem with hmem | ⟨word, hword, hmem⟩
          · rw [if_neg (List.ne_nil_of_mem hmem)]
            exact ⟨_, List.mem_cons_self, hmem⟩
          · refine ⟨word, ?_, hmem⟩
            split
            · exact hword
            · exact List.mem_cons_of_mem _ hword
      · rw [splitWord]
        simp only [if_neg hd]
        rcases List.mem_cons.mp hc with rfl | hc
        · exact Or.inr (Or.inl List.mem_cons_self)
        · exact (ih hc).imp_right (Or.imp_left (List.mem_cons_of_mem _))
  rcases hsplit with hc | hc | ⟨word, hword, hmem⟩
  · exact Or.inl hc
  · exact Or.inr ⟨_, mem_words_iff.mpr (Or.inl ⟨List.ne_nil_of_mem hc, rfl⟩), hc⟩
  · exact Or.inr ⟨word, mem_words_iff.mpr (Or.inr hword), hmem⟩

/-- A word is a part of its text. -/
theorem isInfix_of_mem_words {isSeparator : Char → Bool} {text word : List Char}
    (h : word ∈ words isSeparator text) : word <:+: text := by
  have hsplit : (splitWord isSeparator text).1 <+: text ∧
      ∀ word ∈ (splitWord isSeparator text).2, word <:+: text := by
    clear h
    induction text with
    | nil => exact ⟨List.nil_prefix, fun _ h => by cases h⟩
    | cons d text ih =>
      obtain ⟨hfirst, hlater⟩ := ih
      have hcons : ∀ word ∈ (splitWord isSeparator text).2, word <:+: d :: text :=
        fun word hword => List.infix_cons (hlater word hword)
      rw [splitWord]
      dsimp only
      split
      · refine ⟨List.nil_prefix, ?_⟩
        split
        · exact hcons
        · intro word hword
          rcases List.mem_cons.mp hword with rfl | hword
          · exact List.infix_cons hfirst.isInfix
          · exact hcons word hword
      · exact ⟨List.cons_prefix_cons.mpr ⟨rfl, hfirst⟩, hcons⟩
  rcases mem_words_iff.mp h with ⟨-, rfl⟩ | hmem
  · exact hsplit.1.isInfix
  · exact hsplit.2 word hmem

/-- Only the separators of a text decide what stands at its ends. -/
theorem strip_congr {isSeparator isSeparator' : Char → Bool} {text : List Char}
    (h : ∀ c ∈ text, isSeparator c = isSeparator' c) :
    strip isSeparator text = strip isSeparator' text := by
  have hdrop : ∀ text : List Char, (∀ c ∈ text, isSeparator c = isSeparator' c) →
      text.dropWhile isSeparator = text.dropWhile isSeparator' := by
    intro text h
    induction text with
    | nil => rfl
    | cons c text ih =>
      rw [List.dropWhile_cons, List.dropWhile_cons, h c List.mem_cons_self,
        ih fun d hd => h d (List.mem_cons_of_mem c hd)]
  unfold strip List.rdropWhile
  rw [hdrop text h, hdrop _ fun c hc => h c ?_]
  exact (List.dropWhile_sublist _).subset (List.mem_reverse.mp hc)

/-- A text without separators is its own and only word. -/
theorem splitWord_of_forall {isSeparator : Char → Bool} {text : List Char}
    (h : ∀ c ∈ text, isSeparator c = false) :
    splitWord isSeparator text = (text, []) := by
  induction text with
  | nil => rfl
  | cons c text ih =>
    rw [splitWord, ih fun d hd => h d (List.mem_cons_of_mem c hd)]
    simp [h c List.mem_cons_self]

theorem words_of_forall {isSeparator : Char → Bool} {text : List Char} (hne : text ≠ [])
    (h : ∀ c ∈ text, isSeparator c = false) :
    words isSeparator text = [text] := by
  simp [words, splitWord_of_forall h, hne]

/-- The words before a separator and after it. -/
theorem words_append_cons {isSeparator : Char → Bool} {text more : List Char} {c : Char}
    (hc : isSeparator c = true) :
    words isSeparator (text ++ c :: more) = words isSeparator text ++ words isSeparator more := by
  have hsplit : splitWord isSeparator (text ++ c :: more) =
      ((splitWord isSeparator text).1, (splitWord isSeparator text).2 ++
        words isSeparator more) := by
    induction text with
    | nil => simp [splitWord, hc, words]
    | cons d text ih =>
      simp only [List.cons_append, splitWord, ih]
      split
      · split
        · rfl
        · rfl
      · rfl
  simp only [words, hsplit]
  split
  · rfl
  · rfl

/-- The characters of a joined text are the separator and those of its parts. -/
theorem mem_intercalate {texts : List (List Char)} {separator c : Char}
    (hc : c ∈ [separator].intercalate texts) : c = separator ∨ ∃ text ∈ texts, c ∈ text := by
  induction texts with
  | nil => cases hc
  | cons text texts ih =>
    cases texts with
    | nil => exact Or.inr ⟨text, by simp, by simpa using hc⟩
    | cons next texts =>
      rw [List.intercalate_cons_cons, List.append_assoc, List.mem_append, List.mem_append] at hc
      rcases hc with hc | hc | hc
      · exact Or.inr ⟨text, List.mem_cons_self, hc⟩
      · exact Or.inl (List.mem_singleton.mp hc)
      · refine (ih hc).imp_right ?_
        rintro ⟨later, hlater, hmem⟩
        exact ⟨later, List.mem_cons_of_mem text hlater, hmem⟩

/-- A joined text has the words of its parts. -/
theorem words_intercalate {isSeparator : Char → Bool} {c : Char} {texts : List (List Char)}
    (hc : isSeparator c = true) :
    words isSeparator ([c].intercalate texts) = texts.flatMap (words isSeparator) := by
  induction texts with
  | nil => rfl
  | cons text texts ih =>
    cases texts with
    | nil => simp
    | cons next texts =>
      rw [List.intercalate_cons_cons, List.append_assoc, List.singleton_append,
        words_append_cons hc, ih]
      rfl

/-- The fields of a text that is joined of them. -/
theorem words_intercalate_fields {isSeparator : Char → Bool} {c : Char}
    {fields : List (List Char)} (hc : isSeparator c = true)
    (hfields : ∀ field ∈ fields, field ≠ [] ∧ ∀ d ∈ field, isSeparator d = false) :
    words isSeparator ([c].intercalate fields) = fields := by
  have hsingle : ∀ field ∈ fields, words isSeparator field = [field] := fun field hfield =>
    words_of_forall (hfields field hfield).1 (hfields field hfield).2
  rw [words_intercalate hc, List.flatMap_congr hsingle, List.flatMap_singleton']

/-- A text that is joined of fields neither begins nor ends with a separator. -/
theorem strip_intercalate {isSeparator : Char → Bool} {c : Char} {fields : List (List Char)}
    (hfields : ∀ field ∈ fields, field ≠ [] ∧ ∀ d ∈ field, isSeparator d = false) :
    strip isSeparator ([c].intercalate fields) = [c].intercalate fields := by
  have hlast : fields ≠ [] → ∃ front d,
      [c].intercalate fields = front ++ [d] ∧ isSeparator d = false := by
    induction fields with
    | nil => exact fun hne => absurd rfl hne
    | cons field fields ih =>
      obtain ⟨⟨hne, hfield⟩, hrest⟩ := List.forall_mem_cons.mp hfields
      intro _
      cases fields with
      | nil =>
        refine ⟨field.dropLast, field.getLast hne, ?_, hfield _ (List.getLast_mem hne)⟩
        rw [List.intercalate_singleton, List.dropLast_append_getLast]
      | cons next fields =>
        obtain ⟨front, d, hjoined, hd⟩ := ih hrest (by simp)
        refine ⟨field ++ [c] ++ front, d, ?_, hd⟩
        rw [List.intercalate_cons_cons, hjoined, ← List.append_assoc]
  cases fields with
  | nil => rfl
  | cons field fields =>
    obtain ⟨front, d, hjoined, hd⟩ := hlast (by simp)
    obtain ⟨hne, hfield⟩ := hfields field List.mem_cons_self
    have hdrop : ([c].intercalate (field :: fields)).dropWhile isSeparator =
        [c].intercalate (field :: fields) := by
      obtain ⟨first, rest, rfl⟩ := List.exists_cons_of_ne_nil hne
      rw [List.intercalate_cons_cons_left,
        List.dropWhile_cons_of_neg (by simp [hfield first List.mem_cons_self])]
    rw [strip, hdrop, hjoined, List.rdropWhile_concat_neg _ _ _ (by simp [hd])]

/-- A text without separators. -/
theorem strip_of_forall {isSeparator : Char → Bool} {text : List Char}
    (htext : ∀ c ∈ text, isSeparator c = false) :
    strip isSeparator text = text := by
  by_cases hne : text = []
  · subst hne
    rfl
  · have hfields : ∀ field ∈ [text], field ≠ [] ∧ ∀ c ∈ field, isSeparator c = false := by
      simpa using ⟨hne, htext⟩
    have hjoined := strip_intercalate (c := ',') hfields
    rwa [List.intercalate_singleton] at hjoined

/-- What holds of the first characters holds of each of them. -/
theorem forall_ascii {P : Char → Prop} (h : ∀ code ∈ List.range 128, P (Char.ofNat code)) {c : Char}
    (hc : c.toNat < 128) : P c := by
  have hcode := h c.toNat (List.mem_range.mpr hc)
  rwa [Char.ofNat_toNat] at hcode

theorem toNat_lt_of_isAlphanum {c : Char} (h : c.isAlphanum = true) : c.toNat < 128 := by
  change ((decide ('A'.val ≤ c.val ∧ c.val ≤ 'Z'.val) ||
    (decide ('a'.val ≤ c.val) && decide (c.val ≤ 'z'.val))) ||
    (decide ('0'.val ≤ c.val) && decide (c.val ≤ '9'.val))) = true at h
  simp only [Bool.or_eq_true, Bool.and_eq_true, decide_eq_true_eq,
    UInt32.le_iff_toNat_le] at h
  have hcode : c.toNat = c.val.toNat := rfl
  have hbounds : 'Z'.val.toNat = 90 ∧ 'z'.val.toNat = 122 ∧ '9'.val.toNat = 57 := by decide
  omega

/-- White space is no letter or digit, and what macros begin with is none. -/
theorem isSpace_of_isAlphanum {c : Char} (h : c.isAlphanum = true) :
    isSpace c = false ∧ c ≠ '@' :=
  forall_ascii (P := fun c => c.isAlphanum = true → isSpace c = false ∧ c ≠ '@')
    (by decide +kernel) (toNat_lt_of_isAlphanum h) h

/-- What is left of a text is a part of it. -/
theorem strip_isInfix (isSeparator : Char → Bool) (text : List Char) :
    strip isSeparator text <:+: text :=
  (List.rdropWhile_prefix _ _).isInfix.trans (List.dropWhile_suffix _).isInfix

theorem mem_of_mem_strip {isSeparator : Char → Bool} {text : List Char} {c : Char}
    (h : c ∈ strip isSeparator text) : c ∈ text :=
  (strip_isInfix isSeparator text).subset h

/-- The validator looks at the length of an expression and at its fields. -/
theorem isValidCronExpression_iff {expression : List Char} (hat : '@' ∉ expression)
    (hwords : words isSpace expression ≠ []) :
    isValidCronExpression expression = true ↔
      ¬ 200 < (strip isSpace expression).length ∧
        ∃ specs : List FieldSpec, (specs = sixFields ∨ specs = fiveFields) ∧
          (words isSpace expression).length = specs.length ∧
          ∀ pair ∈ (words isSpace expression).zip specs, isValidField pair.1 pair.2 = true := by
  have hstripped := words_strip isSpace expression
  have hlength : (strip isSpace expression).length ≠ 0 := by
    intro hempty
    rw [List.length_eq_zero_iff.mp hempty] at hstripped
    exact hwords hstripped.symm
  have hhead : (strip isSpace expression).head? ≠ some '@' := fun hhead =>
    hat (mem_of_mem_strip (List.mem_of_mem_head? hhead))
  unfold isValidCronExpression
  simp only [hstripped, hlength, hhead, false_or, if_false]
  by_cases hlong : 200 < (strip isSpace expression).length
  · simp [hlong]
  · have hcounts : sixFields.length = 6 ∧ fiveFields.length = 5 := by decide
    rw [if_neg hlong, and_iff_right hlong]
    by_cases hsix : (words isSpace expression).length = 6
    · simp [hsix, hcounts, sixFields]
    · by_cases hfive : (words isSpace expression).length = 5
      · simp [hfive, hcounts, fiveFields]
      · simp [hsix, hfive, hcounts]

/-- **An expression of six fields is read** exactly if the validator accepts it and its entries
can be evaluated. -/
theorem readTable_isSome {expression second minute hour dayOfMonth month dayOfWeek : List Char}
    (hwords : words isSpace expression = [second, minute, hour, dayOfMonth, month, dayOfWeek])
    (hat : '@' ∉ expression) :
    (readTable expression).isSome = true ↔
      isValidCronExpression expression = true ∧
        ∀ pair ∈ [second, minute, hour, dayOfMonth, month, dayOfWeek].zip sixFields,
          FieldEvaluable pair.1 pair.2 := by
  have hstripped := (words_strip isSpace expression).trans hwords
  rw [isValidCronExpression_iff hat (by simp [hwords])]
  unfold readTable
  simp only [hstripped]
  by_cases hlong : 200 < (strip isSpace expression).length
  · simp [hlong]
  · rw [if_neg hlong, readFields_isSome, forall₂_and, and_iff_right hlong, hwords]
    refine and_congr_left fun _ => ⟨fun hvalid => ⟨sixFields, Or.inl rfl, rfl, hvalid⟩, ?_⟩
    rintro ⟨specs, rfl | rfl, hlength, hvalid⟩
    · exact hvalid
    · cases hlength

/-- What the server can evaluate, the validator accepts. -/
theorem isValid_of_readTable {expression : List Char} {t : Table} (hat : '@' ∉ expression)
    (ht : readTable expression = some t) : isValidCronExpression expression = true := by
  unfold readTable at ht
  simp only [words_strip] at ht
  split at ht
  · cases ht
  · next hlong =>
    split at ht
    · next minute hour dayOfMonth month dayOfWeek hwords =>
      have hfields := readFields_isSome.mp (Option.isSome_iff_exists.mpr ⟨t, ht⟩)
      rw [isValidCronExpression_iff hat (by simp [hwords])]
      refine ⟨hlong, fiveFields, Or.inr rfl, by rw [hwords]; rfl, fun pair hpair => ?_⟩
      rw [hwords] at hpair
      exact (hfields pair (List.mem_cons_of_mem _ hpair)).1
    · next second minute hour dayOfMonth month dayOfWeek hwords =>
      have hfields := readFields_isSome.mp (Option.isSome_iff_exists.mpr ⟨t, ht⟩)
      rw [isValidCronExpression_iff hat (by simp [hwords])]
      refine ⟨hlong, sixFields, Or.inl rfl, by rw [hwords]; rfl, fun pair hpair => ?_⟩
      rw [hwords] at hpair
      exact (hfields pair hpair).1
    · cases ht

end SilenceWatch
