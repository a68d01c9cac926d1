import SilenceWatch.Clients.APScheduler

/-!
# Triggers that cron can express

Exactly when the expression that `cron_expression` writes fires with the trigger: it has to be
short enough, weekdays must have neither steps nor ranges up to Sunday, no range of months may
end with the name of July, and days of the month and of the week may not both be restricted.
-/

namespace SilenceWatch

open Cron

namespace APScheduler

open Expression (natText rangeText)

/-- The weekdays that the text of an expression has as numbers. -/
def Expression.numerals : Expression → List ℕ
  | range first last _ => if last.getD first = first then [first] else [first, last.getD first]
  | _ => []

namespace CronTrigger

/-- The text of the seconds, which an expression of five fields leaves out. -/
def OnTheMinute (trigger : CronTrigger) : Prop :=
  trigger.second.str = ['0'] ∨ trigger.second.str = ['0', '0']

instance (trigger : CronTrigger) : Decidable trigger.OnTheMinute :=
  inferInstanceAs (Decidable (_ ∨ _))

/-- The length of the fields with blanks between them and with names for the numbers of
weekdays, which are longer by two. -/
def width (trigger : CronTrigger) : ℕ :=
  (if trigger.OnTheMinute then 0 else trigger.second.str.length + 1) +
    trigger.minute.str.length + trigger.hour.str.length + trigger.day.str.length +
    trigger.month.str.length + trigger.dayOfWeek.str.length +
    2 * (trigger.dayOfWeek.expressions.flatMap Expression.numerals).length + 4

/-- A trigger has a day of the month. -/
def OnDay (trigger : CronTrigger) (day : ℕ) : Prop := Listed trigger.day.entries day

/-- A trigger has a weekday, from Sunday = 0. -/
def NamesDay (trigger : CronTrigger) (d : ℕ) : Prop :=
  ∃ e ∈ trigger.dayOfWeek.entries, e.NamesDay 6 d

/-- Neither field of days is a star, and one of them leaves out a day. -/
def BothRestricted (trigger : CronTrigger) : Prop :=
  ¬ (trigger.day.expressions = [.all none] ∨ trigger.dayOfWeek.expressions = [.all none]) ∧
    ¬ ((∀ date : Date, Listed trigger.month.entries date.month → trigger.OnDay date.day) ∧
        ∀ d < 7, trigger.NamesDay d)

/-- What cron can express of a trigger. -/
structure Expressible (weekOf : Date → ℕ) (trigger : CronTrigger) : Prop where
  width : trigger.width ≤ 200
  months : ∀ e ∈ trigger.month.expressions, e.AvoidsJuly
  weekdays : ∀ e ∈ trigger.dayOfWeek.expressions, e.IsSpelled
  days : ¬ trigger.BothRestricted
  dates : ∀ m, trigger.FieldsFire weekOf m → trigger.InDates m

/-- The trigger as a schedule. -/
def table (trigger : CronTrigger) : Table :=
  { second := trigger.second.entries, minute := trigger.minute.entries
    hour := trigger.hour.entries, dayOfMonth := some trigger.day.entries
    month := trigger.month.entries, dayOfWeek := some trigger.dayOfWeek.entries }

/-- What the server takes the fields of a trigger for. -/
def serverTable (trigger : CronTrigger) : Table :=
  { second := trigger.second.entries, minute := trigger.minute.entries
    hour := trigger.hour.entries
    dayOfMonth := if trigger.day.expressions = [.all none] then none else some trigger.day.entries
    month := trigger.month.entries
    dayOfWeek := if trigger.dayOfWeek.expressions = [.all none] then none
      else some (trigger.dayOfWeek.expressions.map Expression.weekdayEntry) }

variable {trigger : CronTrigger} {sent : List Char} {weekOf : Date → ℕ}

/-- What an expression is written from. -/
theorem cronExpression_eq_some (hsent : cronExpression trigger = some sent) :
    trigger.year.expressions = [.all none] ∧ trigger.week.expressions = [.all none] ∧
      (∀ e ∈ trigger.day.expressions, ¬ e.IsPosition) ∧
      sent = [' '].intercalate ((if trigger.OnTheMinute then [] else [trigger.second.str]) ++
        [trigger.minute.str, trigger.hour.str, trigger.day.str, trigger.month.str,
          weekday trigger.dayOfWeek.str]) := by
  unfold cronExpression at hsent
  split at hsent
  · cases hsent
  · next hyear =>
    split at hsent
    · cases hsent
    · next hweek =>
      split at hsent
      · cases hsent
      · next hposition =>
        simp only [not_or, Bool.not_eq_true] at hposition
        refine ⟨(CronField.str_eq_star (trigger.year.not_isPosition_of_ne (by decide))).mp
            (not_not.mp hyear),
          (CronField.str_eq_star (trigger.week.not_isPosition_of_ne (by decide))).mp
            (not_not.mp hweek), CronField.not_isPosition hposition.1, ?_⟩
        split at hsent
        · next hseconds =>
          rw [if_neg (fun h => h.elim hseconds.1 hseconds.2)]
          exact (Option.some.inj hsent).symm
        · next hseconds =>
          rw [if_pos (by unfold OnTheMinute; tauto)]
          exact (Option.some.inj hsent).symm

/-- The characters of the text of a field. -/
theorem mem_field_str {name : FieldName} {field : CronField name} {c : Char}
    (hposition : ∀ e ∈ field.expressions, ¬ e.IsPosition) (hc : c ∈ field.str) :
    c.isAlphanum = true ∨ c ∈ [',', '*', '/', '-'] := by
  rcases mem_intercalate hc with rfl | ⟨text, htext, hmem⟩
  · simp
  · obtain ⟨e, he, rfl⟩ := List.mem_map.mp htext
    exact (Expression.mem_str (hposition e he) hmem).imp_right (List.mem_cons_of_mem ',')

/-- The texts of fields have no white space, and nothing that macros begin with. -/
theorem isSpace_of_mem_str {name : FieldName} {field : CronField name} {c : Char}
    (hposition : ∀ e ∈ field.expressions, ¬ e.IsPosition) (hc : c ∈ field.str) :
    isSpace c = false ∧ c ≠ '@' := by
  have hsign : [',', '*', '/', '-'].all (fun c => !isSpace c && c ≠ '@') = true := by decide
  rcases mem_field_str hposition hc with halphanum | hmem
  · exact isSpace_of_isAlphanum halphanum
  · simpa using List.all_eq_true.mp hsign c hmem

/-- Numbers have digits. -/
theorem rangeText_ne_nil {text : ℕ → List Char} {first last : ℕ} (hfirst : text first ≠ []) :
    rangeText text first last ≠ [] := by
  unfold rangeText
  split
  · exact hfirst
  · simp

/-- An expression has a text. -/
theorem str_expression_ne_nil {name : FieldName} {e : Expression} (hvalid : e.Valid name) :
    e.str ≠ [] := by
  cases e with
  | all step => simp [Expression.str]
  | range first last step =>
    have hdigits : natText first ≠ [] :=
      List.ne_nil_of_length_pos Nat.length_toDigits_pos
    simp [Expression.str, rangeText_ne_nil hdigits]
  | monthRange first last =>
    have hall : ∀ month < 13, 1 ≤ month → Expression.monthText month ≠ [] := by decide
    have hrange := hvalid.2
    exact rangeText_ne_nil (hall first (by omega) hrange.1)
  | weekdayRange first last =>
    have hall : ∀ weekday < 7, Expression.weekdayText weekday ≠ [] := by decide
    have hrange := hvalid.2
    exact rangeText_ne_nil (hall first (by omega))
  | weekdayPosition option weekday => simp [Expression.str]
  | lastDayOfMonth => simp [Expression.str]

/-- A field has a text. -/
theorem str_ne_nil {name : FieldName} (field : CronField name) : field.str ≠ [] := by
  obtain ⟨e, rest, hexpressions⟩ := List.exists_cons_of_ne_nil field.ne
  have he := str_expression_ne_nil (field.valid e (by simp [hexpressions]))
  rw [CronField.str, hexpressions, List.map_cons]
  cases rest with
  | nil => simpa using he
  | cons next rest => simp

/-- Conversion leaves a text. -/
theorem weekday_ne_nil {text : List Char} (htext : text ≠ []) : weekday text ≠ [] := by
  have hconvert : ∀ token, convert token = [] → token = [] := by
    intro token hnil
    unfold convert at hnil
    split at hnil
    · next h =>
      have hall : ∀ n < 7, weekdayNames.getD n [] ≠ [] := by decide
      exact absurd hnil (hall _ h.2.2)
    · exact hnil
  obtain ⟨c, rest, rfl⟩ := List.exists_cons_of_ne_nil htext
  intro hnil
  simp only [weekday, splitToken, List.append_eq_nil_iff] at hnil
  obtain ⟨htoken, hrest⟩ := hnil
  split at htoken
  · cases hconvert _ htoken
  · next hc =>
    rw [if_neg hc] at hrest
    cases hrest

/-- The texts of an expression are fields without white space. -/
theorem fields_spec (hposition : ∀ e ∈ trigger.day.expressions, ¬ e.IsPosition) :
    ∀ field ∈ [trigger.second.str, trigger.minute.str, trigger.hour.str, trigger.day.str,
        trigger.month.str, weekday trigger.dayOfWeek.str],
      field ≠ [] ∧ ∀ c ∈ field, isSpace c = false ∧ c ≠ '@' := by
  have hstr {name : FieldName} (field : CronField name)
      (hposition : ∀ e ∈ field.expressions, ¬ e.IsPosition) :
      field.str ≠ [] ∧ ∀ c ∈ field.str, isSpace c = false ∧ c ≠ '@' :=
    ⟨str_ne_nil field, fun c hc => isSpace_of_mem_str hposition hc⟩
  have hweekday := trigger.dayOfWeek.not_isPosition_of_ne (by decide)
  simp only [List.forall_mem_cons, List.not_mem_nil, false_imp_iff, implies_true, and_true]
  refine ⟨hstr _ (trigger.second.not_isPosition_of_ne (by decide)),
    hstr _ (trigger.minute.not_isPosition_of_ne (by decide)),
    hstr _ (trigger.hour.not_isPosition_of_ne (by decide)), hstr _ hposition,
    hstr _ (trigger.month.not_isPosition_of_ne (by decide)),
    weekday_ne_nil (str_ne_nil _), fun c hc => ?_⟩
  rcases mem_weekday hc with halphanum | hmem
  · exact isSpace_of_isAlphanum halphanum
  · exact isSpace_of_mem_str hweekday hmem

/-- The server reads the fields that the expression is written from, if it is not too long. -/
theorem readTable_sent (hsent : cronExpression trigger = some sent) :
    '@' ∉ sent ∧ readTable sent = if 200 < sent.length then none else
      readFields (if trigger.OnTheMinute then ['0'] else trigger.second.str) trigger.minute.str
        trigger.hour.str trigger.day.str trigger.month.str (weekday trigger.dayOfWeek.str) := by
  obtain ⟨-, -, hposition, rfl⟩ := cronExpression_eq_some hsent
  have hfields := fields_spec hposition
  set fields := (if trigger.OnTheMinute then [] else [trigger.second.str]) ++
    [trigger.minute.str, trigger.hour.str, trigger.day.str, trigger.month.str,
      weekday trigger.dayOfWeek.str] with hdef
  have hsub : ∀ field ∈ fields, field ≠ [] ∧ ∀ c ∈ field, isSpace c = false ∧ c ≠ '@' := by
    intro field hfield
    refine hfields field ?_
    rw [hdef] at hfield
    split at hfield
    · exact List.mem_cons_of_mem _ hfield
    · exact hfield
  have hspace : ∀ field ∈ fields, field ≠ [] ∧ ∀ c ∈ field, isSpace c = false :=
    fun field hfield => ⟨(hsub field hfield).1, fun c hc => ((hsub field hfield).2 c hc).1⟩
  refine ⟨fun hat => ?_, ?_⟩
  · rcases mem_intercalate hat with h | ⟨field, hfield, hmem⟩
    · revert h
      decide
    · exact ((hsub field hfield).2 '@' hmem).2 rfl
  · unfold readTable
    simp only [strip_intercalate hspace,
      words_intercalate_fields (show isSpace ' ' = true by decide) hspace]
    rw [hdef]
    by_cases hseconds : trigger.OnTheMinute
    · simp only [if_pos hseconds, List.nil_append]
    · simp only [if_neg hseconds, List.singleton_append]

/-- The seconds are the same to the server. -/
theorem readEntries_second :
    readEntries .second ((if trigger.OnTheMinute then ['0'] else trigger.second.str).splitOn ',') =
      some trigger.second.entries := by
  have hstr : readEntries .second (trigger.second.str.splitOn ',') = some trigger.second.entries :=
    readEntries_numbers ⟨by decide, rfl, rfl, by decide⟩ (by decide)
      (trigger.second.not_isPosition_of_ne (by decide))
  split
  · next hseconds =>
    rcases hseconds with h | h
    · rwa [h] at hstr
    · rw [h] at hstr
      rw [← hstr]
      decide
  · exact hstr

/-- Days of the month are the same to the server. -/
theorem readDays_day (hposition : ∀ e ∈ trigger.day.expressions, ¬ e.IsPosition) :
    readDays .dayOfMonth trigger.day.str = some trigger.serverTable.dayOfMonth := by
  have hmark : trigger.day.str ≠ ['?'] := fun h =>
    absurd (mem_field_str hposition (show '?' ∈ trigger.day.str by simp [h])) (by decide)
  have hread : readEntries .dayOfMonth (trigger.day.str.splitOn ',') = some trigger.day.entries :=
    readEntries_numbers ⟨by decide, rfl, rfl, by decide⟩ (by decide) hposition
  unfold readDays serverTable
  by_cases hstar : trigger.day.expressions = [.all none]
  · rw [if_pos (Or.inr ((CronField.str_eq_star hposition).mpr hstar)), if_pos hstar]
  · rw [if_neg (by simp [hmark, CronField.str_eq_star hposition, hstar]), if_neg hstar, hread]
    rfl

/-- Weekdays are read if none has a step and no range goes up to Sunday. -/
theorem readDays_weekday (trigger : CronTrigger) :
    readDays .dayOfWeek (weekday trigger.dayOfWeek.str) = some trigger.serverTable.dayOfWeek ∧
        (∀ e ∈ trigger.dayOfWeek.expressions, e.IsSpelled) ∨
      readDays .dayOfWeek (weekday trigger.dayOfWeek.str) = none ∧
        ¬ ∀ e ∈ trigger.dayOfWeek.expressions, e.IsSpelled := by
  have hmark : weekday trigger.dayOfWeek.str ≠ ['?'] := by
    intro h
    have hmem : '?' ∈ weekday trigger.dayOfWeek.str := by simp [h]
    exact absurd (mem_field_str (trigger.dayOfWeek.not_isPosition_of_ne (by decide))
      ((mem_weekday hmem).resolve_left (by decide))) (by decide)
  unfold readDays serverTable
  by_cases hstar : trigger.dayOfWeek.expressions = [.all none]
  · left
    rw [if_pos (Or.inr (weekday_str_eq_star.mpr hstar)), if_pos hstar, hstar]
    exact ⟨rfl, by simp [Expression.IsSpelled]⟩
  · rw [if_neg (by simp [hmark, weekday_str_eq_star, hstar]), if_neg hstar]
    rcases readEntries_weekday trigger.dayOfWeek with ⟨hread, hall⟩ | ⟨hread, hall⟩
    · exact Or.inl ⟨by rw [hread]; rfl, hall⟩
    · exact Or.inr ⟨by rw [hread]; rfl, hall⟩

/-- **The fields of a trigger** are read exactly if months and weekdays can be written. -/
theorem readFields_eq_some_iff {t' : Table}
    (hposition : ∀ e ∈ trigger.day.expressions, ¬ e.IsPosition) :
    readFields (if trigger.OnTheMinute then ['0'] else trigger.second.str) trigger.minute.str
        trigger.hour.str trigger.day.str trigger.month.str (weekday trigger.dayOfWeek.str) =
          some t' ↔
      (∀ e ∈ trigger.month.expressions, e.AvoidsJuly) ∧
        (∀ e ∈ trigger.dayOfWeek.expressions, e.IsSpelled) ∧ t' = trigger.serverTable := by
  have hminute : readEntries .minute (trigger.minute.str.splitOn ',') =
      some trigger.minute.entries :=
    readEntries_numbers ⟨by decide, rfl, rfl, by decide⟩ (by decide)
      (trigger.minute.not_isPosition_of_ne (by decide))
  have hhour : readEntries .hour (trigger.hour.str.splitOn ',') = some trigger.hour.entries :=
    readEntries_numbers ⟨by decide, rfl, rfl, by decide⟩ (by decide)
      (trigger.hour.not_isPosition_of_ne (by decide))
  unfold readFields
  rw [readEntries_second, hminute, hhour, readDays_day hposition]
  rcases readEntries_month trigger.month with ⟨hmonth, hmonths⟩ | ⟨hmonth, hmonths⟩
  · rcases readDays_weekday trigger with ⟨hdays, hall⟩ | ⟨hdays, hall⟩
    · rw [hmonth, hdays, and_iff_right hmonths, and_iff_right hall, Option.some_inj]
      exact eq_comm
    · rw [hmonth, hdays]
      simp [hall]
  · rw [hmonth]
    simp [hmonths]

/-- The length of a joined text. -/
theorem length_intercalate_map {expressions : List Expression} {separator : Char}
    {text text' : Expression → List Char} {numerals : Expression → List ℕ}
    (h : ∀ e ∈ expressions, (text' e).length = (text e).length + 2 * (numerals e).length) :
    ([separator].intercalate (expressions.map text')).length =
      ([separator].intercalate (expressions.map text)).length +
        2 * (expressions.flatMap numerals).length := by
  induction expressions with
  | nil => rfl
  | cons e expressions ih =>
    obtain ⟨he, hrest⟩ := List.forall_mem_cons.mp h
    cases expressions with
    | nil => simpa using he
    | cons next expressions =>
      have hlater := ih hrest
      simp only [List.map_cons, List.intercalate_cons_cons, List.length_append,
        List.length_singleton, List.flatMap_cons] at hlater ⊢
      omega

/-- The converted text of an expression is longer by the numbers that it had. -/
theorem length_weekday_str {e : Expression} (hvalid : e.Valid .dayOfWeek) (hspelled : e.IsSpelled) :
    (weekday e.str).length = e.str.length + 2 * e.numerals.length := by
  cases e with
  | all step =>
    obtain rfl : step = none := hspelled
    decide
  | range first last step =>
    obtain ⟨rfl, -⟩ := hspelled
    obtain ⟨halone, -, hlast, -⟩ := hvalid
    have hall : ∀ first < 7, ∀ last < 7,
        (weekday (Expression.range first (some last) none).str).length =
          (Expression.range first (some last) none).str.length +
            2 * (Expression.range first (some last) none).numerals.length := by
      decide
    cases last with
    | none => cases halone rfl
    | some last =>
      obtain ⟨hle, hmax⟩ := hlast last rfl
      have hsix : FieldName.dayOfWeek.max = 6 := rfl
      exact hall first (by omega) last (by omega)
  | weekdayRange first last =>
    have hall : ∀ first < 7, ∀ last < 7,
        (weekday (Expression.weekdayRange first last).str).length =
          (Expression.weekdayRange first last).str.length := by
      decide
    obtain ⟨-, hle, hmax⟩ := hvalid
    exact hall first (by omega) last (by omega)
  | monthRange first last => cases hvalid.1
  | weekdayPosition option weekday => cases hvalid.1
  | lastDayOfMonth => cases hvalid

/-- The converted texts of weekdays are longer by the numbers that they had. -/
theorem length_weekday (hspelled : ∀ e ∈ trigger.dayOfWeek.expressions, e.IsSpelled) :
    (weekday trigger.dayOfWeek.str).length = trigger.dayOfWeek.str.length +
      2 * (trigger.dayOfWeek.expressions.flatMap Expression.numerals).length := by
  rw [CronField.str, weekday_intercalate (by decide), List.map_map]
  exact length_intercalate_map fun e he =>
    length_weekday_str (trigger.dayOfWeek.valid e he) (hspelled e he)

/-- The length of an expression. -/
theorem length_sent (hsent : cronExpression trigger = some sent)
    (hspelled : ∀ e ∈ trigger.dayOfWeek.expressions, e.IsSpelled) :
    sent.length = trigger.width := by
  obtain ⟨-, -, -, rfl⟩ := cronExpression_eq_some hsent
  have hlength := length_weekday hspelled
  unfold width
  split
  · simp only [List.nil_append, List.intercalate_cons_cons, List.intercalate_singleton,
      List.length_append, List.length_singleton]
    omega
  · simp only [List.singleton_append, List.intercalate_cons_cons, List.intercalate_singleton,
      List.length_append, List.length_singleton]
    omega

/-- An expression without a position admits a value of its field. -/
theorem exists_matches {name : FieldName} {e : Expression} (hvalid : e.Valid name)
    (hposition : ¬ e.IsPosition) (hname : name.min ≤ name.max) :
    ∃ v, (name.min ≤ v ∧ v ≤ name.max) ∧ (e.entry name).Matches v := by
  have hrun {low high step : ℕ} (hle : low ≤ high) : (Entry.run low high step).Matches low :=
    ⟨Nat.le_refl low, hle, by simp⟩
  cases e with
  | all step => exact ⟨name.min, ⟨Nat.le_refl _, hname⟩, hrun hname⟩
  | range first last step =>
    obtain ⟨halone, hfirst, hlast, hstep⟩ := hvalid
    have hle : first ≤ last.getD name.max ∧ first ≤ name.max := by
      cases last with
      | none =>
        obtain ⟨s, hs⟩ := Option.isSome_iff_exists.mp (halone rfl)
        have := hstep s hs
        simp only [Option.getD_none] at *
        omega
      | some l =>
        obtain ⟨hle, hmax⟩ := hlast l rfl
        exact ⟨hle, Nat.le_trans hle hmax⟩
    exact ⟨first, ⟨hfirst, hle.2⟩, hrun hle.1⟩
  | monthRange first last =>
    obtain ⟨rfl, hone, hle, hlast⟩ := hvalid
    exact ⟨first, ⟨hone, Nat.le_trans hle hlast⟩, hrun hle⟩
  | weekdayRange first last =>
    obtain ⟨rfl, hle, hlast⟩ := hvalid
    exact ⟨first, ⟨Nat.zero_le first, Nat.le_trans hle hlast⟩, hrun hle⟩
  | weekdayPosition option weekday => exact absurd trivial hposition
  | lastDayOfMonth => exact absurd trivial hposition

/-- A field without positions lists a value. -/
theorem exists_listed {name : FieldName} {field : CronField name}
    (hposition : ∀ e ∈ field.expressions, ¬ e.IsPosition) (hname : name.min ≤ name.max) :
    ∃ v, (name.min ≤ v ∧ v ≤ name.max) ∧ Listed field.entries v := by
  obtain ⟨e, he⟩ := List.exists_mem_of_ne_nil _ field.ne
  obtain ⟨v, hrange, hmatches⟩ := exists_matches (field.valid e he) (hposition e he) hname
  exact ⟨v, hrange, e.entry name, List.mem_map_of_mem he, hmatches⟩

/-- Days of the month without positions are numbers. -/
theorem onDay_iff {e : Expression} {date : Date} (hvalid : e.Valid .day)
    (hposition : ¬ e.IsPosition) :
    ((e.entry .day).OnDay date ↔ (e.entry .day).Matches date.day) ∧
      (e.OnDay date ↔ (e.entry .day).Matches date.day) := by
  rcases hvalid.numbers hposition (by decide) with ⟨step, rfl⟩ | ⟨first, last, step, rfl⟩
  · exact ⟨Iff.rfl, Iff.rfl⟩
  · exact ⟨Iff.rfl, Iff.rfl⟩

/-- Weekdays are those of every week. -/
theorem onWeekday_iff_namesDay {e : Expression} {date : Date} (hvalid : e.Valid .dayOfWeek) :
    ((e.entry .dayOfWeek).OnWeekday 6 date ↔ (e.entry .dayOfWeek).NamesDay 6 date.weekday) ∧
      (e.weekdayEntry.OnWeekday 0 date ↔ e.weekdayEntry.NamesDay 0 date.weekday) := by
  cases e with
  | all step => exact ⟨and_iff_left trivial, and_iff_left trivial⟩
  | range first last step => exact ⟨and_iff_left trivial, and_iff_left trivial⟩
  | weekdayRange first last => exact ⟨and_iff_left trivial, and_iff_left trivial⟩
  | monthRange first last => cases hvalid.1
  | weekdayPosition option weekday => cases hvalid.1
  | lastDayOfMonth => cases hvalid

/-- The entries of the days of the month are read by their number. -/
theorem exists_onDay {date : Date} (hposition : ∀ e ∈ trigger.day.expressions, ¬ e.IsPosition) :
    (∃ e ∈ trigger.day.entries, e.OnDay date) ↔ trigger.OnDay date.day := by
  simp only [OnDay, Listed, CronField.entries, List.mem_map, exists_exists_and_eq_and]
  exact exists_congr fun e => and_congr_right fun he =>
    (onDay_iff (trigger.day.valid e he) (hposition e he)).1

/-- The entries of weekdays are those of every week. -/
theorem exists_onWeekday_trigger {date : Date} :
    (∃ e ∈ trigger.dayOfWeek.entries, e.OnWeekday 6 date) ↔ trigger.NamesDay date.weekday := by
  simp only [NamesDay, CronField.entries, List.mem_map, exists_exists_and_eq_and]
  exact exists_congr fun e => and_congr_right fun he =>
    (onWeekday_iff_namesDay (trigger.dayOfWeek.valid e he)).1

/-- Weekdays that are spelled out are the same to the server. -/
theorem exists_onWeekday_server {date : Date}
    (hspelled : ∀ e ∈ trigger.dayOfWeek.expressions, e.IsSpelled) :
    (∃ e ∈ trigger.dayOfWeek.expressions.map Expression.weekdayEntry, e.OnWeekday 0 date) ↔
      trigger.NamesDay date.weekday := by
  simp only [NamesDay, CronField.entries, List.mem_map, exists_exists_and_eq_and]
  refine exists_congr fun e => and_congr_right fun he => ?_
  rw [(onWeekday_iff_namesDay (trigger.dayOfWeek.valid e he)).2]
  rcases readsWeekday (trigger.dayOfWeek.valid e he) with ⟨-, -, hdays⟩ | ⟨-, hnot⟩
  · exact hdays date.weekday date.weekday_lt
  · exact absurd (hspelled e he) hnot

/-- A trigger has the dates that both fields admit. -/
theorem table_onDate {date : Date} (hposition : ∀ e ∈ trigger.day.expressions, ¬ e.IsPosition) :
    trigger.table.OnDate 6 And date ↔
      trigger.OnDay date.day ∧ trigger.NamesDay date.weekday :=
  and_congr (exists_onDay hposition) exists_onWeekday_trigger

/-- The server has the dates that one of the fields admits, if both are restricted. -/
theorem serverTable_onDate {date : Date}
    (hposition : ∀ e ∈ trigger.day.expressions, ¬ e.IsPosition)
    (hspelled : ∀ e ∈ trigger.dayOfWeek.expressions, e.IsSpelled) :
    trigger.serverTable.OnDate 0 Or date ↔
      if trigger.day.expressions = [.all none] ∨ trigger.dayOfWeek.expressions = [.all none] then
        trigger.OnDay date.day ∧ trigger.NamesDay date.weekday
      else trigger.OnDay date.day ∨ trigger.NamesDay date.weekday := by
  have hnames (hdow : trigger.dayOfWeek.expressions = [.all none]) :
      trigger.NamesDay date.weekday := by
    have hall : ∀ d < 7, (Entry.run 0 6 1).NamesDay 6 d := by decide
    exact ⟨.run 0 6 1, by simp [CronField.entries, hdow, Expression.entry, FieldName.min,
      FieldName.max], hall date.weekday date.weekday_lt⟩
  by_cases hday : trigger.day.expressions = [.all none]
  · have hall : trigger.OnDay date.day := by
      have hmem := date.day_mem
      have hlast := daysInMonth_le date.year date.month
      simp [OnDay, Listed, CronField.entries, hday, Expression.entry, Entry.Matches,
        FieldName.min, FieldName.max, Nat.mod_one]
      omega
    rw [if_pos (Or.inl hday), and_iff_right hall,
      Table.onDate_of_dayOfMonth_none (by simp [serverTable, hday])]
    by_cases hdow : trigger.dayOfWeek.expressions = [.all none]
    · simp [serverTable, hdow, hnames hdow]
    · rw [← exists_onWeekday_server hspelled]
      simp [serverTable, hdow]
  · by_cases hdow : trigger.dayOfWeek.expressions = [.all none]
    · rw [if_pos (Or.inr hdow), and_iff_left (hnames hdow),
        Table.onDate_of_dayOfWeek_none (by simp [serverTable, hdow]), ← exists_onDay hposition]
      simp [serverTable, hday]
    · rw [if_neg (by simp [hday, hdow]), ← exists_onDay hposition,
        ← exists_onWeekday_server hspelled]
      simp [Table.OnDate, serverTable, hday, hdow]

/-- A trigger has weekdays. -/
theorem exists_namesDay (trigger : CronTrigger) : ∃ d < 7, trigger.NamesDay d := by
  obtain ⟨e, he⟩ := List.exists_mem_of_ne_nil _ trigger.dayOfWeek.ne
  have hvalid := trigger.dayOfWeek.valid e he
  obtain ⟨v, hrange, hv⟩ :=
    exists_matches hvalid (trigger.dayOfWeek.not_isPosition_of_ne (by decide) e he) (by decide)
  have hmax : FieldName.dayOfWeek.max = 6 := rfl
  have hnamed : (e.entry .dayOfWeek).NamesDay 6 ((v + 7 - 6) % 7) := by
    have hmem : v ∈ List.range 8 := List.mem_range.mpr (by omega)
    cases e with
    | all step => exact ⟨v, hmem, hv, rfl⟩
    | range first last step => exact ⟨v, hmem, hv, rfl⟩
    | weekdayRange first last => exact ⟨v, hmem, hv, rfl⟩
    | monthRange first last => cases hvalid.1
    | weekdayPosition option weekday => cases hvalid.1
    | lastDayOfMonth => cases hvalid
  exact ⟨(v + 7 - 6) % 7, Nat.mod_lt _ (by omega), e.entry .dayOfWeek, List.mem_map_of_mem he,
    hnamed⟩

/-- A trigger without years, weeks and positions is its schedule. -/
theorem fieldsFire_iff {m : Moment} (hyear : trigger.year.expressions = [.all none])
    (hweek : trigger.week.expressions = [.all none])
    (hposition : ∀ e ∈ trigger.day.expressions, ¬ e.IsPosition) :
    trigger.FieldsFire weekOf m ↔ trigger.table.Fires 6 And m := by
  have hday : (∃ e ∈ trigger.day.expressions, e.OnDay m.toDate) ↔
      ∃ e ∈ trigger.day.entries, e.OnDay m.toDate := by
    simp only [CronField.entries, List.mem_map, exists_exists_and_eq_and]
    exact exists_congr fun e => and_congr_right fun he => by
      rw [(onDay_iff (trigger.day.valid e he) (hposition e he)).1,
        (onDay_iff (trigger.day.valid e he) (hposition e he)).2]
  unfold FieldsFire
  rw [hday]
  simp [hyear, hweek, Expression.Admits, Table.Fires, Table.OnDate, table]

/-- A trigger has times of day. -/
theorem hasTimes_table (trigger : CronTrigger) : trigger.table.HasTimes := by
  have hlisted {name : FieldName} (field : CronField name) (hday : name ≠ .day)
      (hname : name.min ≤ name.max) : ∃ v < name.max + 1, Listed field.entries v := by
    obtain ⟨v, hrange, hv⟩ := exists_listed (field.not_isPosition_of_ne hday) hname
    exact ⟨v, Nat.lt_succ_of_le hrange.2, hv⟩
  exact ⟨hlisted trigger.second (by decide) (by decide),
    hlisted trigger.minute (by decide) (by decide), hlisted trigger.hour (by decide) (by decide)⟩

/-- **The schedule of the server** is the one of the trigger exactly if not both fields of days
are restricted. -/
theorem serverFires_iff (hposition : ∀ e ∈ trigger.day.expressions, ¬ e.IsPosition)
    (hspelled : ∀ e ∈ trigger.dayOfWeek.expressions, e.IsSpelled) :
    (∀ m, ServerFires trigger.serverTable m ↔ trigger.table.Fires 6 And m) ↔
      ¬ trigger.BothRestricted := by
  have hfires : (∀ m, ServerFires trigger.serverTable m ↔ trigger.table.Fires 6 And m) ↔
      ∀ date : Date, Listed trigger.month.entries date.month →
        (trigger.serverTable.OnDate 0 Or date ↔ trigger.table.OnDate 6 And date) :=
    Table.fires_iff trigger.hasTimes_table rfl rfl rfl rfl
  simp only [hfires, table_onDate hposition, serverTable_onDate hposition hspelled]
  by_cases hstar : trigger.day.expressions = [.all none] ∨
      trigger.dayOfWeek.expressions = [.all none]
  · simp [BothRestricted, hstar]
  · simp only [if_neg hstar]
    rw [BothRestricted, and_iff_right hstar, not_not]
    exact alternatives_iff
      (exists_listed (trigger.month.not_isPosition_of_ne (by decide)) (by decide))
      trigger.exists_namesDay

/-- The server expects every run of a trigger that it can read. -/
theorem serverFires_of_fires {m : Moment}
    (hposition : ∀ e ∈ trigger.day.expressions, ¬ e.IsPosition)
    (hspelled : ∀ e ∈ trigger.dayOfWeek.expressions, e.IsSpelled)
    (hm : trigger.table.Fires 6 And m) : ServerFires trigger.serverTable m := by
  obtain ⟨hsecond, hminute, hhour, hmonth, hdate⟩ := hm
  refine ⟨hsecond, hminute, hhour, hmonth, ?_⟩
  rw [table_onDate hposition] at hdate
  rw [serverTable_onDate hposition hspelled]
  split
  · exact hdate
  · exact Or.inl hdate.1

end CronTrigger

/-- **APScheduler schedules.** The expression of a trigger is valid and fires with it exactly if
cron can express the trigger. -/
theorem cronExpression_kept_iff {trigger : CronTrigger} {sent : List Char} {weekOf : Date → ℕ}
    (hsent : cronExpression trigger = some sent) :
    (isValidCronExpression sent = true ∧
        ∃ t', readTable sent = some t' ∧ ∀ m, ServerFires t' m ↔ trigger.Fires weekOf m) ↔
      trigger.Expressible weekOf := by
  obtain ⟨hyear, hweek, hposition, -⟩ := CronTrigger.cronExpression_eq_some hsent
  obtain ⟨hat, hread⟩ := CronTrigger.readTable_sent hsent
  have hfields (m : Moment) : trigger.FieldsFire weekOf m ↔ trigger.table.Fires 6 And m :=
    CronTrigger.fieldsFire_iff hyear hweek hposition
  constructor
  · rintro ⟨-, t', ht', hfires⟩
    rw [hread] at ht'
    split at ht'
    · cases ht'
    · next hlength =>
      obtain ⟨hmonths, hspelled, rfl⟩ := (CronTrigger.readFields_eq_some_iff hposition).mp ht'
      have hserver (m : Moment) (hm : trigger.table.Fires 6 And m) :
          ServerFires trigger.serverTable m :=
        CronTrigger.serverFires_of_fires hposition hspelled hm
      refine ⟨?_, hmonths, hspelled, ?_, fun m hm => ?_⟩
      · rw [← CronTrigger.length_sent hsent hspelled]
        omega
      · refine (CronTrigger.serverFires_iff hposition hspelled).mp fun m => ?_
        exact ⟨fun hm => (hfields m).mp ((hfires m).mp hm).1, hserver m⟩
      · exact ((hfires m).mp (hserver m ((hfields m).mp hm))).2
  · intro h
    have ht : readTable sent = some trigger.serverTable := by
      rw [hread, if_neg (by rw [CronTrigger.length_sent hsent h.weekdays]; have := h.width; omega)]
      exact (CronTrigger.readFields_eq_some_iff hposition).mpr ⟨h.months, h.weekdays, rfl⟩
    refine ⟨isValid_of_readTable hat ht, trigger.serverTable, ht, fun m => ?_⟩
    rw [(CronTrigger.serverFires_iff hposition h.weekdays).mpr h.days, ← hfields]
    exact (and_iff_left_of_imp (h.dates m)).symm

/-- A field of one expression. -/
def single (name : FieldName) (e : Expression) (h : e.Valid name := by decide) : CronField name :=
  { expressions := [e], ne := by simp, valid := by simpa using h }

/-- A trigger at midnight on some days and weekdays. -/
def midnightOn (day : CronField .day) (dayOfWeek : CronField .dayOfWeek) : CronTrigger :=
  { year := single .year (.all none), month := single .month (.all none), day
    week := single .week (.all none), dayOfWeek
    hour := single .hour (.range 0 (some 0) none), minute := single .minute (.range 0 (some 0) none)
    second := single .second (.range 0 (some 0) none), startDate := none, endDate := none }

/-- From Monday to Friday. -/
def workdays : CronTrigger :=
  midnightOn (single .day (.all none)) (single .dayOfWeek (.weekdayRange 0 4))

/-- Weekdays that are spelled out keep their meaning. -/
theorem cronExpression_kept_workdays :
    ∃ sent, cronExpression workdays = some sent ∧ isValidCronExpression sent = true ∧
      ∃ t', readTable sent = some t' ∧
        ∀ m, ServerFires t' m ↔ workdays.Fires (fun _ => 1) m := by
  have hsome : (cronExpression workdays).isSome = true := by decide
  obtain ⟨sent, hsent⟩ := Option.isSome_iff_exists.mp hsome
  refine ⟨sent, hsent, (cronExpression_kept_iff hsent).mpr ⟨by decide, ?_, ?_, ?_, ?_⟩⟩
  · simp [workdays, midnightOn, single, Expression.AvoidsJuly]
  · simp [workdays, midnightOn, single, Expression.IsSpelled]
  · simp [CronTrigger.BothRestricted, workdays, midnightOn, single]
  · simp [CronTrigger.InDates, workdays, midnightOn]

/-- On every Friday the thirteenth. -/
def fridaysThirteenth : CronTrigger :=
  midnightOn (single .day (.range 13 (some 13) none)) (single .dayOfWeek (.weekdayRange 4 4))

/-- A Friday that is no thirteenth. -/
def friday : Moment := january2024 5 0 (by decide) (by decide)

/-- Both fields of days do not: a trigger for every Friday the thirteenth is one for every Friday
to the server. -/
theorem thirteenth_or_friday :
    cronExpression fridaysThirteenth = some "0 0 13 * fri".toList ∧
      isValidCronExpression "0 0 13 * fri".toList = true ∧
      (∃ t' ∈ readTable "0 0 13 * fri".toList, ServerFires t' friday) ∧
      ∀ weekOf, ¬ fridaysThirteenth.Fires weekOf friday := by
  refine ⟨by decide, by decide, by decide, ?_⟩
  rintro weekOf ⟨⟨-, -, -, -, -, -, ⟨e, he, hday⟩, -⟩, -⟩
  obtain rfl := List.mem_singleton.mp he
  have hnot : ¬ (Expression.entry .day (.range 13 (some 13) none)).OnDay friday.toDate := by
    decide
  exact hnot hday

end APScheduler

end SilenceWatch
