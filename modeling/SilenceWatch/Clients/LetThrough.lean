import SilenceWatch.Clients.Celery

/-!
# Filters and validator

The filters of the client libraries against the validator of the server, for the five
schedulers whose jobs are declared.
-/

namespace SilenceWatch

open Dialect

namespace APScheduler

/-- The step of an expression. -/
def Expression.step? : Expression → Option ℕ
  | all step | range _ _ step => step
  | _ => none

variable {trigger : CronTrigger} {sent : List Char} {name : FieldName} {spec : FieldSpec}

/-- A field without a question mark is valid if its entries are. -/
theorem isValidField_iff {field : List Char} (hne : field ≠ []) (hquestion : '?' ∉ field) :
    isValidField field spec = true ↔
      ∀ entry ∈ field.splitOn ',', isValidEntry spec entry = true := by
  have hnot : field ≠ ['?'] := by
    rintro rfl
    exact hquestion List.mem_cons_self
  rw [isValidField, if_neg (by simpa using hne), if_neg hnot, List.all_eq_true]

theorem questionMark_notMem {field : CronField name}
    (hposition : ∀ e ∈ field.expressions, ¬ e.IsPosition) : '?' ∉ field.str := fun h =>
  absurd (CronTrigger.mem_field_str hposition h) (by decide)

/-- Fields of numbers are valid. -/
theorem isValidField_numbers (h : Serves name spec) (hname : name ≠ .month ∧ name ≠ .dayOfWeek)
    {field : CronField name} (hposition : ∀ e ∈ field.expressions, ¬ e.IsPosition) :
    isValidField field.str spec = true := by
  have hread := readEntries_numbers h hname hposition
  have hentries := readEntries_isSome.mp (Option.isSome_iff_exists.mpr ⟨_, hread⟩)
  rw [isValidField_iff (CronTrigger.str_ne_nil field) (questionMark_notMem hposition)]
  exact fun entry hentry => ((readEntry_isSome h.mem).mp (hentries entry hentry)).1

/-- Months are valid unless July ends one. -/
theorem isValidField_month (field : CronField .month) :
    isValidField field.str .month = true ↔ ∀ e ∈ field.expressions, e.AvoidsJuly := by
  have hposition := field.not_isPosition_of_ne (by decide)
  have hjuly : ∀ first < 13, ∀ last < 13, 1 ≤ first → first ≤ last →
      (isValidEntry .month (Expression.monthRange first last).str = true ↔ last ≠ 7) := by
    decide
  rw [isValidField_iff (CronTrigger.str_ne_nil field) (questionMark_notMem hposition),
    CronField.splitOn_str hposition, List.forall_mem_map]
  refine forall₂_congr fun e he => ?_
  have hvalid := field.valid e he
  have hserves : Serves .month .month := ⟨by decide, rfl, rfl, by decide⟩
  cases e with
  | all step =>
    have hread := readEntry_str hserves hvalid (Or.inl ⟨step, rfl⟩)
    refine iff_of_true ?_ (by simp [Expression.AvoidsJuly])
    exact ((readEntry_isSome hserves.mem).mp (Option.isSome_iff_exists.mpr ⟨_, hread⟩)).1
  | range first last step =>
    have hread := readEntry_str hserves hvalid (Or.inr ⟨first, last, step, rfl⟩)
    refine iff_of_true ?_ (by simp [Expression.AvoidsJuly])
    exact ((readEntry_isSome hserves.mem).mp (Option.isSome_iff_exists.mpr ⟨_, hread⟩)).1
  | monthRange first last =>
    obtain ⟨-, hone, hle, hlast⟩ := hvalid
    rw [hjuly first (by omega) last (by omega) hone hle]
    simp [Expression.AvoidsJuly]
  | weekdayRange first last => cases hvalid.1
  | weekdayPosition option weekday => cases hvalid.1
  | lastDayOfMonth => cases hvalid

/-- An expression of weekdays is valid without a step. -/
def SpellsWeekday (e : Expression) : Prop :=
  isValidEntry .dayOfWeek (weekday e.str) = true ↔ e.step? = none

instance (e : Expression) : Decidable (SpellsWeekday e) := inferInstanceAs (Decidable (_ ↔ _))

theorem spellsWeekday {e : Expression} (hvalid : e.Valid .dayOfWeek) : SpellsWeekday e := by
  cases e with
  | all step =>
    have hall : SpellsWeekday (.all none) ∧ ∀ s < 7, 1 ≤ s → SpellsWeekday (.all (some s)) := by
      decide
    cases step with
    | none => exact hall.1
    | some s => exact hall.2 s (Nat.lt_succ_of_le (hvalid s rfl).2) (hvalid s rfl).1
  | range first last step =>
    have hopen : ∀ first < 7, ∀ s < 7, 1 ≤ s → SpellsWeekday (.range first none (some s)) := by
      decide
    have hclosed : ∀ first < 7, ∀ last < 7, first ≤ last →
        SpellsWeekday (.range first (some last) none) ∧
          ∀ s < 7, 1 ≤ s → SpellsWeekday (.range first (some last) (some s)) := by
      decide
    obtain ⟨halone, -, hlast, hstep⟩ := hvalid
    have hmax : FieldName.dayOfWeek.max = 6 := rfl
    cases last with
    | none =>
      obtain ⟨s, rfl⟩ := Option.isSome_iff_exists.mp (halone rfl)
      have hs := hstep s rfl
      simp only [Option.getD_none, hmax] at hs
      exact hopen first (by omega) s (by omega) hs.1
    | some l =>
      have hl := hlast l rfl
      rw [hmax] at hl
      have hends := hclosed first (by omega) l (by omega) hl.1
      cases step with
      | none => exact hends.1
      | some s =>
        have hs := hstep s rfl
        simp only [Option.getD_some] at hs
        exact hends.2 s (by omega) hs.1
  | weekdayRange first last =>
    have hall : ∀ first < 7, ∀ last < 7, first ≤ last →
        SpellsWeekday (.weekdayRange first last) := by
      decide
    obtain ⟨-, hle, hlast⟩ := hvalid
    exact hall first (by omega) last (by omega) hle
  | monthRange first last => cases hvalid.1
  | weekdayPosition option weekday => cases hvalid.1
  | lastDayOfMonth => cases hvalid

/-- Weekdays are valid unless one has a step, whose number becomes a name. -/
theorem isValidField_weekday (field : CronField .dayOfWeek) :
    isValidField (weekday field.str) .dayOfWeek = true ↔
      ∀ e ∈ field.expressions, e.step? = none := by
  have hquestion : '?' ∉ weekday field.str := fun h =>
    questionMark_notMem (field.not_isPosition_of_ne (by decide))
      ((mem_weekday h).resolve_left (by decide))
  rw [isValidField_iff (CronTrigger.weekday_ne_nil (CronTrigger.str_ne_nil field)) hquestion,
    splitOn_weekday, List.forall_mem_map]
  exact forall₂_congr fun e he => spellsWeekday (field.valid e he)

/-- **APScheduler**: what is written of a trigger is accepted unless it is too long, July ends a
month, or a weekday has a step. -/
theorem cronExpression_accepted_iff (hsent : cronExpression trigger = some sent) :
    isValidCronExpression sent = true ↔ sent.length ≤ 200 ∧
      (∀ e ∈ trigger.month.expressions, e.AvoidsJuly) ∧
      ∀ e ∈ trigger.dayOfWeek.expressions, e.step? = none := by
  obtain ⟨-, -, hposition, hfields⟩ := CronTrigger.cronExpression_eq_some hsent
  obtain ⟨hat, -⟩ := CronTrigger.readTable_sent hsent
  have hspec := CronTrigger.fields_spec hposition
  set fields := (if trigger.OnTheMinute then [] else [trigger.second.str]) ++
    [trigger.minute.str, trigger.hour.str, trigger.day.str, trigger.month.str,
      weekday trigger.dayOfWeek.str] with hdef
  have hspace : ∀ field ∈ fields, field ≠ [] ∧ ∀ c ∈ field, isSpace c = false := by
    intro field hfield
    have hmem : field ∈ [trigger.second.str, trigger.minute.str, trigger.hour.str,
        trigger.day.str, trigger.month.str, weekday trigger.dayOfWeek.str] := by
      rw [hdef] at hfield
      split at hfield
      · exact List.mem_cons_of_mem _ hfield
      · exact hfield
    exact ⟨(hspec field hmem).1, fun c hc => ((hspec field hmem).2 c hc).1⟩
  have hwords : words isSpace sent = fields := by
    rw [hfields]
    exact words_intercalate_fields (by decide) hspace
  have hstrip : strip isSpace sent = sent := by
    rw [hfields]
    exact strip_intercalate hspace
  have hclock := isValidField_numbers
    (show Serves .second .second from ⟨by decide, rfl, rfl, by decide⟩) (by decide)
    (trigger.second.not_isPosition_of_ne (by decide))
  have hminute := isValidField_numbers
    (show Serves .minute .minute from ⟨by decide, rfl, rfl, by decide⟩) (by decide)
    (trigger.minute.not_isPosition_of_ne (by decide))
  have hhour := isValidField_numbers
    (show Serves .hour .hour from ⟨by decide, rfl, rfl, by decide⟩) (by decide)
    (trigger.hour.not_isPosition_of_ne (by decide))
  have hday := isValidField_numbers
    (show Serves .day .dayOfMonth from ⟨by decide, rfl, rfl, by decide⟩) (by decide) hposition
  rw [isValidCronExpression_iff hat (by rw [hwords, hdef]; simp), hwords, hstrip, not_lt,
    ← isValidField_month, ← isValidField_weekday]
  refine and_congr_right fun _ => ?_
  by_cases hminutely : trigger.OnTheMinute
  · rw [hdef, if_pos hminutely, List.nil_append]
    constructor
    · rintro ⟨specs, rfl | rfl, hlength, hvalid⟩
      · cases hlength
      · exact ⟨hvalid (trigger.month.str, .month) (by simp [fiveFields]),
          hvalid (weekday trigger.dayOfWeek.str, .dayOfWeek) (by simp [fiveFields])⟩
    · rintro ⟨hmonth, hweekday⟩
      refine ⟨fiveFields, Or.inr rfl, rfl, ?_⟩
      simp [fiveFields, hminute, hhour, hday, hmonth, hweekday]
  · rw [hdef, if_neg hminutely, List.singleton_append]
    constructor
    · rintro ⟨specs, rfl | rfl, hlength, hvalid⟩
      · exact ⟨hvalid (trigger.month.str, .month) (by simp [sixFields, fiveFields]),
          hvalid (weekday trigger.dayOfWeek.str, .dayOfWeek) (by simp [sixFields, fiveFields])⟩
      · cases hlength
    · rintro ⟨hmonth, hweekday⟩
      refine ⟨sixFields, Or.inl rfl, rfl, ?_⟩
      simp [sixFields, fiveFields, hclock, hminute, hhour, hday, hmonth, hweekday]

end APScheduler

/-- **Filters.** Of the expressions that a filter lets through, the server accepts those that
are not too long and have no entry that drifts. -/
theorem let_through_iff (expression : List Char) :
    (∀ reading, SchedulerDialect.spring.Reads expression reading →
      CronSupport.isSupported expression = true →
        (isValidCronExpression expression = true ↔
          (strip isSpace expression).length ≤ 200 ∧ ¬ reading.Drifts)) ∧
    (∀ reading, SchedulerDialect.quartz.Reads expression reading →
      CronSupport.isSupported expression = true →
        (isValidCronExpression expression = true ↔
          (strip isSpace expression).length ≤ 200 ∧ ¬ reading.Drifts)) ∧
    (∀ reading, SchedulerDialect.laravel.Reads expression reading →
      ScheduleReader.isSupported expression = true →
        (isValidCronExpression expression = true ↔
          (strip isSpace expression).length ≤ 200 ∧ ¬ reading.Drifts)) ∧
    (∀ entry, Celery.crontabExpression entry = some expression →
      isSupported (some expression) = true →
        (isValidCronExpression expression = true ↔ expression.length ≤ 200)) ∧
    ∀ trigger, APScheduler.cronExpression trigger = some expression →
      isSupported (some expression) = true →
        (isValidCronExpression expression = true ↔ expression.length ≤ 200 ∧
          (∀ e ∈ trigger.month.expressions, e.AvoidsJuly) ∧
          ∀ e ∈ trigger.dayOfWeek.expressions, e.step? = none) :=
  ⟨fun _ => SchedulerDialect.spring_accepted_iff, fun _ => SchedulerDialect.quartz_accepted_iff,
    fun _ => SchedulerDialect.laravel_accepted_iff,
    fun _ hsent _ => Celery.crontabExpression_accepted_iff hsent,
    fun _ hsent _ => APScheduler.cronExpression_accepted_iff hsent⟩

/-- A clock field with one number. -/
def clockText (digits : List Char) : FieldText := .list [.plain (.one (.number digits)) none]

/-- What is read of a job that runs at midnight. -/
def midnightReading (dayOfMonth month dayOfWeek : FieldText) : Reading :=
  .fields [clockText ['0'], clockText ['0'], clockText ['0'], dayOfMonth, month, dayOfWeek]

/-- Workdays are accepted. -/
theorem let_through_workdays :
    isValidCronExpression "0 0 0 ? * MON-FRI".toList = true :=
  ((let_through_iff _).1 (midnightReading .question (.list [.plain .star none])
      (.list [.plain (.between (.name ['M', 'O', 'N']) (.name ['F', 'R', 'I'])) none]))
    ⟨by decide, _, List.mem_singleton.mpr rfl, by decide⟩ (by decide)).mpr
      ⟨by decide, by decide⟩

/-- The first of July is let through and refused. -/
theorem not_let_through_july :
    ¬ ∀ expression reading, SchedulerDialect.spring.Reads expression reading →
      CronSupport.isSupported expression = true → isValidCronExpression expression = true := by
  intro h
  have hvalid := h "0 0 0 1 JUL ?".toList (midnightReading (clockText ['1'])
      (.list [.plain (.one (.name ['J', 'U', 'L'])) none]) .question)
    ⟨by decide, _, List.mem_singleton.mpr rfl, by decide⟩ (by decide)
  revert hvalid
  decide

end SilenceWatch
