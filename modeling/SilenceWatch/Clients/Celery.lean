import Mathlib.Data.List.Dedup
import Mathlib.Data.List.Sort
import SilenceWatch.Clients.CronFilters

/-!
# Celery crontabs

`crontab_expression` writes the five sets of numbers of a `crontab` as a cron expression.
-/

namespace SilenceWatch

open Dialect

namespace Celery

open APScheduler.Expression (natText)

/-- Add a number to the runs of neighbours, of which the newest comes first. -/
def addRun (runs : List (ℕ × ℕ)) (value : ℕ) : List (ℕ × ℕ) :=
  match runs with
  | (first, last) :: earlier =>
    if value = last + 1 then (first, value) :: earlier else (value, value) :: runs
  | [] => [(value, value)]

/-- `write`: two neighbours read better as "5,6" than as "5-6". -/
def write (run : ℕ × ℕ) : List Char :=
  if run.1 = run.2 then natText run.1
  else if 2 ≤ run.2 - run.1 then natText run.1 ++ '-' :: natText run.2
  else natText run.1 ++ ',' :: natText run.2

/-- `compact`: a set of numbers as one cron field. An empty field is an error. -/
def compact (values : List ℕ) (low high : ℕ) : Option (List Char) :=
  let ordered := values.dedup.insertionSort (· ≤ ·)
  if ordered = [] then none
  else if ordered = List.range' low (high + 1 - low) then some ['*']
  else
    let step := ordered.getD 1 0 - ordered.getD 0 0
    if 2 < ordered.length ∧ ordered.getD 0 0 = low ∧ 1 < step ∧
        ordered = List.range' low ((high - low) / step + 1) step then
      some ('*' :: '/' :: natText step)
    else some ([','].intercalate ((ordered.foldl addRun []).reverse.map write))

/-- The numbers of a field. -/
structure NumberSet (low high : ℕ) where
  values : List ℕ
  ne_nil : values ≠ []
  bounds : ∀ v ∈ values, low ≤ v ∧ v ≤ high

/-- A `crontab`: numbers of each of its fields. -/
structure Crontab where
  minute : NumberSet 0 59
  hour : NumberSet 0 23
  dayOfMonth : NumberSet 1 31
  monthOfYear : NumberSet 1 12
  dayOfWeek : NumberSet 0 6

/-- `crontab_expression`, with `_CRONTAB_FIELDS`. -/
def crontabExpression (entry : Crontab) : Option (List Char) :=
  match compact entry.minute.values 0 59, compact entry.hour.values 0 23,
      compact entry.dayOfMonth.values 1 31, compact entry.monthOfYear.values 1 12,
      compact entry.dayOfWeek.values 0 6 with
  | some minute, some hour, some dayOfMonth, some monthOfYear, some dayOfWeek =>
    some ([' '].intercalate [minute, hour, dayOfMonth, monthOfYear, dayOfWeek])
  | _, _, _, _, _ => none

example : compact [9, 8, 7, 5, 3, 1] 0 59 =
    some ['1', ',', '3', ',', '5', ',', '7', '-', '9'] := by
  decide

/-- The entries that a run is written as. -/
def runEntries (run : ℕ × ℕ) : List Entry :=
  if run.1 = run.2 then [.plain (.one (.number (natText run.1))) none]
  else if 2 ≤ run.2 - run.1 then
    [.plain (.between (.number (natText run.1)) (.number (natText run.2))) none]
  else
    [.plain (.one (.number (natText run.1))) none, .plain (.one (.number (natText run.2))) none]

/-- A run is written as its entries are. -/
theorem write_eq (run : ℕ × ℕ) :
    write run = [','].intercalate ((runEntries run).map Entry.text) := by
  unfold write runEntries
  split
  · simp [Entry.text, Entry.stepText, Span.text, Point.text]
  · split
    · simp [Entry.text, Entry.stepText, Span.text, Point.text]
    · simp [Entry.text, Entry.stepText, Span.text, Point.text, List.intercalate_cons_cons]

theorem runEntries_ne_nil (run : ℕ × ℕ) : runEntries run ≠ [] := by
  unfold runEntries
  split
  · exact List.cons_ne_nil _ _
  · split
    · exact List.cons_ne_nil _ _
    · exact List.cons_ne_nil _ _

/-- Numbers have runs. -/
theorem foldl_addRun_ne_nil {values : List ℕ} (h : values ≠ []) :
    values.foldl addRun [] ≠ [] := by
  have hadd : ∀ (runs : List (ℕ × ℕ)) (value : ℕ), addRun runs value ≠ [] := by
    intro runs value
    unfold addRun
    split
    · split
      · exact List.cons_ne_nil _ _
      · exact List.cons_ne_nil _ _
    · exact List.cons_ne_nil _ _
  have hfold : ∀ (values : List ℕ) (runs : List (ℕ × ℕ)), runs ≠ [] →
      values.foldl addRun runs ≠ [] := by
    intro values
    induction values with
    | nil => exact fun runs hruns => hruns
    | cons value values ih => exact fun runs _ => ih _ (hadd runs value)
  obtain ⟨value, rest, rfl⟩ := List.exists_cons_of_ne_nil h
  exact hfold rest _ (hadd [] value)

/-- The ends of runs are of the numbers. -/
theorem mem_foldl_addRun {values : List ℕ} {runs : List (ℕ × ℕ)} {P : ℕ → Prop}
    (hruns : ∀ run ∈ runs, P run.1 ∧ P run.2) (hvalues : ∀ v ∈ values, P v) :
    ∀ run ∈ values.foldl addRun runs, P run.1 ∧ P run.2 := by
  induction values generalizing runs with
  | nil => exact hruns
  | cons value values ih =>
    obtain ⟨hvalue, hrest⟩ := List.forall_mem_cons.mp hvalues
    refine ih ?_ hrest
    intro run hrun
    unfold addRun at hrun
    split at hrun
    · next first last earlier =>
      obtain ⟨hfirst, hearlier⟩ := List.forall_mem_cons.mp hruns
      split at hrun
      · rcases List.mem_cons.mp hrun with rfl | hrun
        · exact ⟨hfirst.1, hvalue⟩
        · exact hearlier run hrun
      · rcases List.mem_cons.mp hrun with rfl | hrun
        · exact ⟨hvalue, hvalue⟩
        · exact hruns run hrun
    · obtain rfl := List.mem_singleton.mp hrun
      exact ⟨hvalue, hvalue⟩

/-- Parts of a joined text may be joined of parts. -/
theorem intercalate_flatMap {α : Type*} {separator : List Char} {parts : α → List (List Char)}
    {l : List α} (h : ∀ x ∈ l, parts x ≠ []) :
    separator.intercalate (l.map fun x => separator.intercalate (parts x)) =
      separator.intercalate (l.flatMap parts) := by
  have happend : ∀ {first second : List (List Char)}, first ≠ [] → second ≠ [] →
      separator.intercalate (first ++ second) =
        separator.intercalate first ++ separator ++ separator.intercalate second := by
    intro first second hfirst hsecond
    induction first with
    | nil => exact absurd rfl hfirst
    | cons part first ih =>
      cases first with
      | nil =>
        rw [List.singleton_append, List.intercalate_cons_of_ne_nil hsecond,
          List.intercalate_singleton]
      | cons next first =>
        rw [List.cons_append, List.cons_append, List.intercalate_cons_cons, ← List.cons_append,
          ih (List.cons_ne_nil _ _), List.intercalate_cons_cons]
        simp only [List.append_assoc]
  induction l with
  | nil => rfl
  | cons x l ih =>
    obtain ⟨hx, hrest⟩ := List.forall_mem_cons.mp h
    cases l with
    | nil => simp
    | cons y l =>
      have hne : (y :: l).flatMap parts ≠ [] := by
        simp [hrest y List.mem_cons_self]
      have hflat : (x :: y :: l).flatMap parts = parts x ++ (y :: l).flatMap parts :=
        List.flatMap_cons
      rw [hflat, happend hx hne, ← ih hrest, List.map_cons, List.map_cons,
        List.intercalate_cons_cons]

variable {low high : ℕ} {field : Field}

theorem length_natText {v : ℕ} (hv : v < 100) : (natText v).length ≤ 2 := by
  revert v
  decide +kernel

/-- A number is written with at most two digits. -/
theorem number_spec {v : ℕ} (hfield : field.min = low ∧ field.max = high) (hhigh : high < 100)
    (hv : low ≤ v ∧ v ≤ high) :
    (Point.number (natText v)).Valid field ∧ ¬ (Point.number (natText v)).IsLong := by
  have hlt : v < 100 := by omega
  obtain ⟨-, hvalue, hne, -⟩ := APScheduler.natText_spec hlt
  have hnumeral : IsNumeral (natText v) :=
    ⟨hne, fun _ hc => APScheduler.Expression.isDigit_of_mem_natText hc⟩
  refine ⟨⟨hnumeral, ?_⟩, Nat.not_lt_of_le (length_natText hlt)⟩
  rw [hvalue, hfield.1, hfield.2]
  exact hv

/-- The entries of a run are of the field, and none drifts. -/
theorem runEntries_spec {run : ℕ × ℕ} (hfield : field.min = low ∧ field.max = high)
    (hhigh : high < 100) (hfirst : low ≤ run.1 ∧ run.1 ≤ high)
    (hlast : low ≤ run.2 ∧ run.2 ≤ high) :
    ∀ e ∈ runEntries run, e.Valid field ∧ ¬ e.IsNearest ∧ ¬ e.Drifts := by
  obtain ⟨hvalid, hshort⟩ := number_spec hfield hhigh hfirst
  obtain ⟨hvalid', hshort'⟩ := number_spec hfield hhigh hlast
  have hone {p : Point} (hp : p.Valid field) (hlong : ¬ p.IsLong) (hnumber : ¬ p.IsJuly) :
      (Entry.plain (.one p) none).Valid field ∧ ¬ (Entry.plain (.one p) none).IsNearest ∧
        ¬ (Entry.plain (.one p) none).Drifts := by
    have hne := (Point.text_spec hp).1
    refine ⟨⟨by simpa [Span.points] using hp, fun h => absurd h hne, by simp⟩, not_false, ?_⟩
    simp [Entry.Drifts, Span.points, Span.text, Span.end?, hne, hlong, hnumber]
  unfold runEntries
  split
  · simpa using hone hvalid hshort not_false
  · split
    · have hbetween : (Entry.plain (.between (.number (natText run.1)) (.number (natText run.2)))
          none).Drifts ↔ False := by
        simp [Entry.Drifts, Span.points, Span.text, Span.end?, hshort, hshort', Point.IsJuly]
      rw [List.forall_mem_singleton, hbetween]
      exact ⟨⟨by simpa [Span.points] using ⟨hvalid, hvalid'⟩, by simp [Span.text], by simp⟩,
        not_false, not_false⟩
    · simpa using ⟨hone hvalid hshort not_false, hone hvalid' hshort' not_false⟩

/-- **What `compact` writes** is a field whose entries do not drift. -/
theorem compact_text (numbers : NumberSet low high) (field : Field)
    (hfield : field.min = low ∧ field.max = high) (hstep : field.maxStep = none)
    (hhigh : high < 100) :
    ∃ text : FieldText, compact numbers.values low high = some text.text ∧ text.Valid field ∧
      ∀ e ∈ text.entries, ¬ e.IsNearest ∧ ¬ e.Drifts := by
  set ordered := numbers.values.dedup.insertionSort (· ≤ ·) with hordered
  have hmem : ∀ v, v ∈ ordered ↔ v ∈ numbers.values := fun v => by
    rw [hordered, List.mem_insertionSort, List.mem_dedup]
  have hne : ordered ≠ [] := by
    obtain ⟨v, hv⟩ := List.exists_mem_of_ne_nil _ numbers.ne_nil
    exact List.ne_nil_of_mem ((hmem v).mpr hv)
  have hbounds : ∀ v ∈ ordered, low ≤ v ∧ v ≤ high := fun v hv => numbers.bounds v ((hmem v).mp hv)
  unfold compact
  simp only [← hordered, if_neg hne]
  split
  · refine ⟨.list [.plain .star none], rfl, ⟨List.cons_ne_nil _ _, ?_⟩, ?_⟩
    · simp [Entry.Valid, Span.points, Span.text]
    · simp [FieldText.entries, Entry.IsNearest, Entry.Drifts, Span.points, Span.text, Span.end?]
  · split
    · next h =>
      obtain ⟨hlength, -, hone, -⟩ := h
      set step := ordered.getD 1 0 - ordered.getD 0 0
      have hsecond : ordered.getD 1 0 ∈ ordered := by
        rw [List.getD_eq_getElem _ _ (by omega)]
        exact List.getElem_mem _
      have hlt : step < 100 := by
        have := (hbounds _ hsecond).2
        omega
      obtain ⟨-, hvalue, hdigits, -⟩ := APScheduler.natText_spec hlt
      have hnumeral : IsNumeral (natText step) :=
        ⟨hdigits, fun _ hc => APScheduler.Expression.isDigit_of_mem_natText hc⟩
      have hshort : (natText step).length ≤ 2 := length_natText hlt
      refine ⟨.list [.plain .star (some (natText step))],
        by simp [FieldText.text, Entry.text, Entry.stepText, Span.text],
        ⟨List.cons_ne_nil _ _, ?_⟩, ?_⟩
      · rw [List.forall_mem_singleton]
        refine ⟨by simp [Span.points], by simp [Span.text], fun digits hdigits => ?_⟩
        obtain rfl : natText step = digits := by simpa using hdigits
        rw [hvalue, hstep]
        exact ⟨hnumeral, by omega, fun _ h => by cases h⟩
      · simp [FieldText.entries, Entry.IsNearest, Entry.Drifts, Span.points, Span.text]
        omega
    · have hruns : ∀ run ∈ ordered.foldl addRun [],
          (low ≤ run.1 ∧ run.1 ≤ high) ∧ low ≤ run.2 ∧ run.2 ≤ high :=
        mem_foldl_addRun (fun _ h => by cases h) hbounds
      have hentries : ∀ e ∈ (ordered.foldl addRun []).reverse.flatMap runEntries,
          e.Valid field ∧ ¬ e.IsNearest ∧ ¬ e.Drifts := by
        intro e he
        obtain ⟨run, hrun, he⟩ := List.mem_flatMap.mp he
        have hends := hruns run (List.mem_reverse.mp hrun)
        exact runEntries_spec hfield hhigh hends.1 hends.2 e he
      refine ⟨.list ((ordered.foldl addRun []).reverse.flatMap runEntries), ?_, ⟨?_, ?_⟩, ?_⟩
      · rw [FieldText.text, List.map_flatMap, ← intercalate_flatMap, funext write_eq]
        intro run _
        simpa using runEntries_ne_nil run
      · obtain ⟨run, hrun⟩ := List.exists_mem_of_ne_nil _ (foldl_addRun_ne_nil hne)
        obtain ⟨e, he⟩ := List.exists_mem_of_ne_nil _ (runEntries_ne_nil run)
        exact List.ne_nil_of_mem (List.mem_flatMap.mpr ⟨run, List.mem_reverse.mpr hrun, he⟩)
      · exact fun e he => (hentries e he).1
      · exact fun e he => (hentries e he).2

/-- The fields of a crontab. -/
def crontabFields : List Field :=
  [⟨.minute, 0, 59, none, false⟩, ⟨.hour, 0, 23, none, false⟩, ⟨.dayOfMonth, 1, 31, none, false⟩,
    ⟨.month, 1, 12, none, false⟩, ⟨.dayOfWeek, 0, 6, none, false⟩]

/-- What a crontab is written as. -/
theorem exists_texts (entry : Crontab) : ∃ texts : List FieldText,
    crontabExpression entry = some ([' '].intercalate (texts.map FieldText.text)) ∧
      List.Forall₂ FieldText.Valid crontabFields texts ∧
      ∀ text ∈ texts, ∀ e ∈ text.entries, ¬ e.IsNearest ∧ ¬ e.Drifts := by
  obtain ⟨minute, hminute, hminute', hminuteKept⟩ := compact_text entry.minute
    ⟨.minute, 0, 59, none, false⟩ ⟨rfl, rfl⟩ rfl (by decide)
  obtain ⟨hour, hhour, hhour', hhourKept⟩ := compact_text entry.hour
    ⟨.hour, 0, 23, none, false⟩ ⟨rfl, rfl⟩ rfl (by decide)
  obtain ⟨day, hday, hday', hdayKept⟩ := compact_text entry.dayOfMonth
    ⟨.dayOfMonth, 1, 31, none, false⟩ ⟨rfl, rfl⟩ rfl (by decide)
  obtain ⟨month, hmonth, hmonth', hmonthKept⟩ := compact_text entry.monthOfYear
    ⟨.month, 1, 12, none, false⟩ ⟨rfl, rfl⟩ rfl (by decide)
  obtain ⟨weekday, hweekday, hweekday', hweekdayKept⟩ := compact_text entry.dayOfWeek
    ⟨.dayOfWeek, 0, 6, none, false⟩ ⟨rfl, rfl⟩ rfl (by decide)
  refine ⟨[minute, hour, day, month, weekday], ?_, ?_, ?_⟩
  · simp only [crontabExpression, hminute, hhour, hday, hmonth, hweekday, List.map_cons,
      List.map_nil]
  · exact .cons hminute' (.cons hhour' (.cons hday' (.cons hmonth' (.cons hweekday' .nil))))
  · simp only [List.forall_mem_cons]
    exact ⟨hminuteKept, hhourKept, hdayKept, hmonthKept, hweekdayKept, fun _ h => by cases h⟩

/-- **Celery**: what is written of a crontab is accepted unless it is too long. -/
theorem crontabExpression_accepted_iff {entry : Crontab} {sent : List Char}
    (hsent : crontabExpression entry = some sent) :
    isValidCronExpression sent = true ↔ sent.length ≤ 200 := by
  obtain ⟨texts, htexts, hfields, hkept⟩ := exists_texts entry
  obtain rfl : [' '].intercalate (texts.map FieldText.text) = sent :=
    Option.some.inj (htexts.symm.trans hsent)
  have hspace : ∀ word ∈ texts.map FieldText.text, word ≠ [] ∧ ∀ c ∈ word, isSpace c = false := by
    intro word hword
    obtain ⟨text, htext, rfl⟩ := List.mem_map.mp hword
    obtain ⟨field, -, hvalid⟩ := exists_field hfields htext
    exact ⟨FieldText.text_ne_nil hvalid,
      fun c hc => (IsToken.isSpace (FieldText.mem_text hvalid hc)).1⟩
  have hblank : isSpace ' ' = true := by decide
  have hserves : List.Forall₂ Field.Serves crontabFields fiveFields := by decide
  have hdrifts : ¬ (Reading.fields texts).Drifts := by
    rintro ⟨text, htext, e, he, hdrifts⟩
    exact (hkept text htext e he).2 hdrifts
  have hseparator : ∀ c, isSpace c = true → isSpace c = true ∧ c ≠ '@' := by
    rintro c hc
    refine ⟨hc, ?_⟩
    rintro rfl
    revert hc
    decide
  rw [isValidCronExpression_fields hseparator (words_intercalate_fields hblank hspace) hfields
    hserves (Or.inr rfl) fun text htext e he => (hkept text htext e he).1,
    strip_intercalate hspace, and_iff_left hdrifts]

end Celery

end SilenceWatch
