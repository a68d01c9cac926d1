import Mathlib.Data.List.GetD
import SilenceWatch.Clients.CronTrigger

/-!
# APScheduler jobs

`cron_expression` writes the fields of a `CronTrigger` as a cron expression, with weekdays
spelled out. The moments at which the trigger fires are compared with those at which the
server expects a run.
-/

namespace SilenceWatch

open Cron

namespace APScheduler

open Expression (natText stepText rangeText)

/-- What a word of a Python pattern consists of. -/
def isWordChar (c : Char) : Bool := c.isAlphanum || c = '_'

/-- `_POSITIONAL`, of a word: `last`, or a number with the ending of an ordinal. -/
def isPositionalWord (word : List Char) : Bool :=
  let lowered := word.map Char.toLower
  let ending := lowered.dropWhile Char.isDigit
  lowered = ['l', 'a', 's', 't'] ||
    (ending.length < lowered.length &&
      [['s', 't'], ['n', 'd'], ['r', 'd'], ['t', 'h']].contains ending)

/-- `_POSITIONAL`: some word of the text is positional. -/
def isPositional (text : List Char) : Bool :=
  (words (fun c => !isWordChar c) text).any isPositionalWord

/-- `convert`: the number of a weekday becomes its name. -/
def convert (token : List Char) : List Char :=
  if token ≠ [] ∧ token.all Char.isDigit ∧ digitsValue token < 7 then
    weekdayNames.getD (digitsValue token) []
  else token

/-- The letters and digits that a text begins with, and what is left with every later token
converted. -/
def splitToken : List Char → List Char × List Char
  | [] => ([], [])
  | c :: text =>
    let (token, rest) := splitToken text
    if c.isAlphanum then (c :: token, rest) else ([], c :: (convert token ++ rest))

/-- `_weekday`. -/
def weekday (expression : List Char) : List Char :=
  let (token, rest) := splitToken expression
  convert token ++ rest

/-- `cron_expression`. -/
def cronExpression (trigger : CronTrigger) : Option (List Char) :=
  if trigger.year.str ≠ ['*'] then none
  else if trigger.week.str ≠ ['*'] then none
  -- "last fri", "3rd mon" and "last" (the last day)
  else if isPositional trigger.day.str ∨ isPositional trigger.dayOfWeek.str then none
  else
    let five := [trigger.minute.str, trigger.hour.str, trigger.day.str, trigger.month.str,
      weekday trigger.dayOfWeek.str]
    if trigger.second.str ≠ ['0'] ∧ trigger.second.str ≠ ['0', '0'] then
      some ([' '].intercalate (trigger.second.str :: five))
    else some ([' '].intercalate five)

namespace Expression

variable {name : FieldName} {e : Expression}

/-- The expression stands for days by their position in the month. -/
def IsPosition : Expression → Prop
  | weekdayPosition _ _ | lastDayOfMonth => True
  | _ => False

/-- The characters of a number. -/
theorem isDigit_of_mem_natText {n : ℕ} {c : Char} (hc : c ∈ natText n) : c.isDigit = true :=
  Nat.isDigit_of_mem_toDigits (by omega) (by omega) hc

/-- The characters of a step. -/
theorem mem_stepText {step : Option ℕ} {c : Char} (hc : c ∈ stepText step) :
    c.isAlphanum = true ∨ c = '/' := by
  cases step with
  | none => cases hc
  | some s =>
    rcases List.mem_cons.mp hc with rfl | hc
    · exact Or.inr rfl
    · exact Or.inl (by simp [Char.isAlphanum, isDigit_of_mem_natText hc])

/-- The characters of a range are those of its ends, and the dash. -/
theorem mem_rangeText {text : ℕ → List Char} {first last : ℕ} {c : Char}
    (hc : c ∈ rangeText text first last) : (∃ v, c ∈ text v) ∨ c = '-' := by
  unfold rangeText at hc
  split at hc
  · exact Or.inl ⟨first, hc⟩
  · rcases List.mem_append.mp hc with hc | hc
    · exact Or.inl ⟨first, hc⟩
    · rcases List.mem_cons.mp hc with rfl | hc
      · exact Or.inr rfl
      · exact Or.inl ⟨last, hc⟩

/-- The characters of a name. -/
theorem isAlphanum_of_mem_name {names : List (List Char)} {index : ℕ} {c : Char}
    (hnames : names = monthNames ∨ names = weekdayNames) (hc : c ∈ names.getD index []) :
    c.isAlphanum = true := by
  have hletters : ∀ name ∈ names, name.all Char.isAlphanum = true := by
    rcases hnames with rfl | rfl
    · decide
    · decide
  by_cases hindex : index < names.length
  · rw [List.getD_eq_getElem _ _ hindex] at hc
    exact List.all_eq_true.mp (hletters _ (List.getElem_mem hindex)) c hc
  · rw [List.getD_eq_default _ _ (by omega)] at hc
    cases hc

/-- The characters of the text of an expression. -/
theorem mem_str {c : Char} (hposition : ¬ e.IsPosition) (hc : c ∈ e.str) :
    c.isAlphanum = true ∨ c ∈ ['*', '/', '-'] := by
  have hstep {step : Option ℕ} (hc : c ∈ stepText step) :
      c.isAlphanum = true ∨ c ∈ ['*', '/', '-'] :=
    (mem_stepText hc).imp_right fun h => by simp [h]
  have hrange (text : ℕ → List Char) {first last : ℕ}
      (htext : ∀ v, c ∈ text v → c.isAlphanum = true) (hc : c ∈ rangeText text first last) :
      c.isAlphanum = true ∨ c ∈ ['*', '/', '-'] := by
    rcases mem_rangeText hc with ⟨v, hv⟩ | rfl
    · exact Or.inl (htext v hv)
    · simp
  cases e with
  | all step =>
    rcases List.mem_cons.mp hc with rfl | hc
    · simp
    · exact hstep hc
  | range first last step =>
    rcases List.mem_append.mp hc with hc | hc
    · refine hrange natText (fun v hc => ?_) hc
      simp [Char.isAlphanum, isDigit_of_mem_natText hc]
    · exact hstep hc
  | monthRange first last =>
    refine hrange monthText (fun v hc => ?_) hc
    exact isAlphanum_of_mem_name (Or.inl rfl) hc
  | weekdayRange first last =>
    refine hrange weekdayText (fun v hc => ?_) hc
    exact isAlphanum_of_mem_name (Or.inr rfl) hc
  | weekdayPosition option weekday => exact absurd trivial hposition
  | lastDayOfMonth => exact absurd trivial hposition

/-- A positional expression is found by the pattern. -/
theorem any_isPositionalWord (hvalid : e.Valid name) (hposition : e.IsPosition) :
    (words (fun c => !isWordChar c) e.str).any isPositionalWord = true := by
  cases e with
  | weekdayPosition option weekday =>
    have hall : ∀ option < 6, ∀ weekday < 7,
        (words (fun c => !isWordChar c) (weekdayPosition option weekday).str).any
          isPositionalWord = true := by
      decide
    exact hall option hvalid.2.1 weekday (by have := hvalid.2.2; omega)
  | lastDayOfMonth => decide
  | all => cases hposition
  | range => cases hposition
  | monthRange => cases hposition
  | weekdayRange => cases hposition

end Expression

namespace CronField

variable {name : FieldName} {field : CronField name}

/-- No expression of a field that the pattern does not find is positional. -/
theorem not_isPosition (h : isPositional field.str = false) :
    ∀ e ∈ field.expressions, ¬ e.IsPosition := by
  intro e he hposition
  have hword := Expression.any_isPositionalWord (field.valid e he) hposition
  rw [isPositional, CronField.str, words_intercalate (by decide), List.any_flatMap,
    List.any_map] at h
  rw [List.any_eq_false] at h
  exact h e he hword

/-- The texts of the expressions of a field are what it is split into. -/
theorem splitOn_str (h : ∀ e ∈ field.expressions, ¬ e.IsPosition) :
    field.str.splitOn ',' = field.expressions.map Expression.str := by
  refine List.splitOn_intercalate ',' (fun text htext hcomma => ?_) (by simpa using field.ne)
  obtain ⟨e, he, rfl⟩ := List.mem_map.mp htext
  exact absurd (Expression.mem_str (h e he) hcomma) (by decide)

end CronField

/-- A token is converted alone. -/
theorem splitToken_append_cons {text more : List Char} {c : Char} (hc : c.isAlphanum = false) :
    splitToken (text ++ c :: more) =
      ((splitToken text).1, (splitToken text).2 ++ c :: weekday more) := by
  induction text with
  | nil => simp [splitToken, hc, weekday]
  | cons d text ih =>
    simp only [List.cons_append, splitToken, ih]
    split
    · rfl
    · simp

/-- The tokens before a separator and after it are converted apart. -/
theorem weekday_append_cons {text more : List Char} {c : Char} (hc : c.isAlphanum = false) :
    weekday (text ++ c :: more) = weekday text ++ c :: weekday more := by
  simp only [weekday, splitToken_append_cons hc]
  simp

/-- The parts of a joined text are converted apart. -/
theorem weekday_intercalate {texts : List (List Char)} {c : Char} (hc : c.isAlphanum = false) :
    weekday ([c].intercalate texts) = [c].intercalate (texts.map weekday) := by
  induction texts with
  | nil => rfl
  | cons text texts ih =>
    cases texts with
    | nil => simp
    | cons next texts =>
      rw [List.intercalate_cons_cons, List.append_assoc, List.singleton_append,
        weekday_append_cons hc, ih]
      simp

/-- Conversion brings letters only. -/
theorem mem_weekday {text : List Char} {c : Char} (hc : c ∈ weekday text) :
    c.isAlphanum = true ∨ c ∈ text := by
  have hconvert : ∀ token, c ∈ convert token → c.isAlphanum = true ∨ c ∈ token := by
    intro token hc
    unfold convert at hc
    split at hc
    · exact Or.inl (Expression.isAlphanum_of_mem_name (Or.inr rfl) hc)
    · exact Or.inr hc
  have hsplit : ∀ text : List Char,
      (c ∈ (splitToken text).1 → c ∈ text) ∧
        (c ∈ (splitToken text).2 → c.isAlphanum = true ∨ c ∈ text) := by
    intro text
    induction text with
    | nil => simp [splitToken]
    | cons d text ih =>
      obtain ⟨htoken, hrest⟩ := ih
      have hlater : c.isAlphanum = true ∨ c ∈ text → c.isAlphanum = true ∨ c ∈ d :: text :=
        fun h => h.imp_right (List.mem_cons_of_mem d)
      simp only [splitToken]
      split
      · refine ⟨fun h => ?_, fun h => hlater (hrest h)⟩
        rcases List.mem_cons.mp h with rfl | h
        · exact List.mem_cons_self
        · exact List.mem_cons_of_mem d (htoken h)
      · refine ⟨fun h => by simp at h, fun h => ?_⟩
        rcases List.mem_cons.mp h with rfl | h
        · exact Or.inr List.mem_cons_self
        · rcases List.mem_append.mp h with h | h
          · exact hlater ((hconvert _ h).imp_right htoken)
          · exact hlater (hrest h)
  rcases List.mem_append.mp hc with hc | hc
  · exact (hconvert _ hc).imp_right (hsplit text).1
  · exact (hsplit text).2 hc

/-- Numbers of two digits are written and read back. -/
theorem natText_spec {n : ℕ} (hn : n < 100) :
    (1 ≤ n → isValidStep (natText n) = true) ∧ digitsValue (natText n) = n ∧
      natText n ≠ [] ∧ natText n ≠ ['*'] := by
  revert n
  decide

/-- A number of a field is one to the server. -/
theorem parseValue_natText {spec : FieldSpec} {n : ℕ} (hspec : spec ∈ sixFields)
    (hn : spec.min ≤ n ∧ n ≤ spec.max) : parseValue (natText n) spec = some n := by
  have hall : ∀ spec ∈ sixFields, spec.max < 100 ∧ ∀ n < 100, spec.min ≤ n → n ≤ spec.max →
      parseValue (natText n) spec = some n := by
    decide
  obtain ⟨hmax, hparse⟩ := hall spec hspec
  exact hparse n (Nat.lt_of_le_of_lt hn.2 hmax) hn.1 hn.2

/-- A number has no other signs. -/
theorem notMem_natText {n : ℕ} {c : Char} (hc : c.isDigit = false) : c ∉ natText n := by
  intro hmem
  rw [Expression.isDigit_of_mem_natText hmem] at hc
  cases hc

/-- A range with a step is one to the server. -/
theorem readEntry_stepText {spec : FieldSpec} {range : List Char} {step : Option ℕ}
    (hrange : ∀ c ∈ range, c.isDigit = true ∨ c = '*' ∨ c = '-')
    (hstep : ∀ s ∈ step, 1 ≤ s ∧ s < 100) :
    readEntry spec (range ++ stepText step) = readRange spec range step := by
  have hnot {c : Char} (hc : c.isDigit = false ∧ c ≠ '*' ∧ c ≠ '-') : c ∉ range := by
    intro hmem
    rcases hrange c hmem with h | h | h
    · rw [hc.1] at h
      cases h
    · exact hc.2.1 h
    · exact hc.2.2 h
  have hslash : '/' ∉ range := hnot (by decide)
  cases step with
  | none =>
    have htext : range ++ stepText none = range := List.append_nil range
    rw [htext, readEntry_of_notMem (hnot (by decide)) (hnot (by decide)) (hnot (by decide)),
      List.splitOn_eq_singleton hslash]
  | some s =>
    obtain ⟨hone, hlt⟩ := hstep s rfl
    obtain ⟨hvalid, hvalue, -, -⟩ := natText_spec hlt
    have hnot' {c : Char} (hc : c.isDigit = false ∧ c ≠ '*' ∧ c ≠ '-') (hslash : c ≠ '/') :
        c ∉ range ++ stepText (some s) := by
      simp [stepText, hnot hc, hslash, notMem_natText hc.1]
    rw [readEntry_of_notMem (hnot' (by decide) (by decide)) (hnot' (by decide) (by decide))
      (hnot' (by decide) (by decide)), stepText,
      List.splitOn_append_cons_self_of_not_mem hslash,
      List.splitOn_eq_singleton (notMem_natText (by decide))]
    simp only [if_pos (hvalid hone), hvalue]

/-- The values of a field have the same numbers to the server. -/
structure Serves (name : FieldName) (spec : FieldSpec) : Prop where
  mem : spec ∈ sixFields
  min : spec.min = name.min
  max : spec.max = name.max
  lt : name.max < 100

/-- A range of numbers is one to the server. -/
theorem readRange_rangeText {name : FieldName} {spec : FieldSpec} {first last : ℕ}
    {step : Option ℕ} (h : Serves name spec) (hfirst : name.min ≤ first)
    (hle : first ≤ last) (hlast : last ≤ name.max) :
    readRange spec (rangeText natText first last) step =
      some (.run first (if last = first then if step = none then first else name.max else last)
        (step.getD 1)) := by
  have hparse {n : ℕ} (hn : name.min ≤ n ∧ n ≤ name.max) : parseValue (natText n) spec = some n :=
    parseValue_natText h.mem (by rw [h.min, h.max]; exact hn)
  have hdash {n : ℕ} : '-' ∉ natText n := notMem_natText (by decide)
  unfold readRange rangeText
  by_cases heq : last = first
  · obtain ⟨-, -, -, hstar⟩ := natText_spec (n := first) (by have := h.lt; omega)
    rw [if_pos heq, if_neg hstar, List.splitOn_eq_singleton hdash]
    simp only [hparse ⟨hfirst, by omega⟩, if_pos heq, Option.map_some, h.max]
  · have hstar : natText first ++ '-' :: natText last ≠ ['*'] := by
      intro hstar
      have hmem : '-' ∈ natText first ++ '-' :: natText last := by simp
      rw [hstar] at hmem
      revert hmem
      decide
    rw [if_neg heq, if_neg hstar, List.splitOn_append_cons_self_of_not_mem hdash,
      List.splitOn_eq_singleton hdash]
    simp only [hparse ⟨hfirst, by omega⟩, hparse (n := last) ⟨by omega, hlast⟩, if_pos hle,
      if_neg heq]

/-- **An expression of numbers** is one to the server. -/
theorem readEntry_str {name : FieldName} {spec : FieldSpec} {e : Expression} (h : Serves name spec)
    (hvalid : e.Valid name)
    (hnumbers : (∃ step, e = .all step) ∨ ∃ first last step, e = .range first last step) :
    readEntry spec e.str = some (e.entry name) := by
  have hlt := h.lt
  rcases hnumbers with ⟨step, rfl⟩ | ⟨first, last, step, rfl⟩
  · have hstep : ∀ s ∈ step, 1 ≤ s ∧ s < 100 := fun s hs => by
      have := hvalid s hs
      omega
    have hstar : readEntry spec (['*'] ++ stepText step) = readRange spec ['*'] step :=
      readEntry_stepText (by simp) hstep
    rw [Expression.str, ← List.singleton_append, hstar, readRange, if_pos rfl, h.min, h.max]
    rfl
  · obtain ⟨halone, hfirst, hlast, hstep⟩ := hvalid
    have hends : first ≤ last.getD first ∧ last.getD first ≤ name.max := by
      cases last with
      | none =>
        obtain ⟨s, hs⟩ := Option.isSome_iff_exists.mp (halone rfl)
        have := hstep s hs
        simp only [Option.getD_none] at *
        omega
      | some l => exact hlast l rfl
    have hstep' : ∀ s ∈ step, 1 ≤ s ∧ s < 100 := fun s hs => by
      have hbound := hstep s hs
      have hmax : last.getD name.max ≤ name.max := by
        cases last with
        | none => exact Nat.le_refl _
        | some l => exact (hlast l rfl).2
      omega
    have hchars : ∀ c ∈ rangeText natText first (last.getD first),
        c.isDigit = true ∨ c = '*' ∨ c = '-' := by
      intro c hc
      rcases Expression.mem_rangeText hc with ⟨v, hv⟩ | rfl
      · exact Or.inl (Expression.isDigit_of_mem_natText hv)
      · simp
    rw [Expression.str, readEntry_stepText hchars hstep',
      readRange_rangeText h hfirst hends.1 hends.2]
    cases last with
    | none =>
      obtain ⟨s, rfl⟩ := Option.isSome_iff_exists.mp (halone rfl)
      simp [Expression.entry]
    | some l =>
      by_cases heq : l = first
      · have hnone : step = none := by
          rw [Option.eq_none_iff_forall_ne_some]
          intro s hs
          have := hstep s hs
          simp only [Option.getD_some] at this
          omega
        simp [Expression.entry, heq, hnone]
      · simp [Expression.entry, heq]

/-- Names belong to months and weekdays. -/
theorem Expression.Valid.numbers {name : FieldName} {e : Expression} (hvalid : e.Valid name)
    (hposition : ¬ e.IsPosition) (hname : name ≠ .month ∧ name ≠ .dayOfWeek) :
    (∃ step, e = .all step) ∨ ∃ first last step, e = .range first last step := by
  cases e with
  | all step => exact Or.inl ⟨step, rfl⟩
  | range first last step => exact Or.inr ⟨first, last, step, rfl⟩
  | monthRange first last => exact absurd hvalid.1 hname.1
  | weekdayRange first last => exact absurd hvalid.1 hname.2
  | weekdayPosition option weekday => exact absurd trivial hposition
  | lastDayOfMonth => exact absurd trivial hposition

/-- What the server takes texts for is what it takes each for. -/
theorem readEntries_map {spec : FieldSpec} {expressions : List Expression}
    {text : Expression → List Char} {entry : Expression → Entry}
    (h : ∀ e ∈ expressions, readEntry spec (text e) = some (entry e)) :
    readEntries spec (expressions.map text) = some (expressions.map entry) := by
  induction expressions with
  | nil => rfl
  | cons e expressions ih =>
    obtain ⟨he, hrest⟩ := List.forall_mem_cons.mp h
    simp only [List.map_cons, readEntries, he, ih hrest]

/-- **A field of numbers** is the same to the server. -/
theorem readEntries_numbers {name : FieldName} {spec : FieldSpec} (h : Serves name spec)
    (hname : name ≠ .month ∧ name ≠ .dayOfWeek) {field : CronField name}
    (hposition : ∀ e ∈ field.expressions, ¬ e.IsPosition) :
    readEntries spec (field.str.splitOn ',') = some field.entries := by
  rw [CronField.splitOn_str hposition]
  exact readEntries_map fun e he =>
    readEntry_str h (field.valid e he) ((field.valid e he).numbers (hposition e he) hname)

/-- Texts that have a meaning for the server exactly if a property holds are read exactly if it
holds of each. -/
theorem readEntries_map_iff {spec : FieldSpec} {expressions : List Expression}
    {text : Expression → List Char} {entry : Expression → Entry} {P : Expression → Prop}
    (h : ∀ e ∈ expressions, readEntry spec (text e) = some (entry e) ∧ P e ∨
      readEntry spec (text e) = none ∧ ¬ P e) :
    readEntries spec (expressions.map text) = some (expressions.map entry) ∧
        (∀ e ∈ expressions, P e) ∨
      readEntries spec (expressions.map text) = none ∧ ¬ ∀ e ∈ expressions, P e := by
  by_cases hall : ∀ e ∈ expressions, P e
  · left
    refine ⟨readEntries_map fun e he => ?_, hall⟩
    rcases h e he with ⟨hread, -⟩ | ⟨-, hnot⟩
    · exact hread
    · exact absurd (hall e he) hnot
  · right
    refine ⟨?_, hall⟩
    simp only [not_forall] at hall
    obtain ⟨e, he, hnot⟩ := hall
    rw [← Option.not_isSome_iff_eq_none, readEntries_isSome]
    intro hsome
    have hread := hsome (text e) (List.mem_map_of_mem he)
    rcases h e he with ⟨-, hholds⟩ | ⟨hnone, -⟩
    · exact hnot hholds
    · rw [hnone] at hread
      cases hread

/-- The text of the expression does not end with the name of July. -/
def Expression.AvoidsJuly (e : Expression) : Prop := ∀ first, e ≠ .monthRange first 7

/-- What ends with the name of July is a last day to the server, which months do not have.
Other months are the same. -/
theorem readEntry_month {e : Expression} (hvalid : e.Valid .month) :
    readEntry .month e.str = some (e.entry .month) ∧ e.AvoidsJuly ∨
      readEntry .month e.str = none ∧ ¬ e.AvoidsJuly := by
  have hserves : Serves .month .month := ⟨by decide, rfl, rfl, by decide⟩
  cases e with
  | all step =>
    exact Or.inl ⟨readEntry_str hserves hvalid (Or.inl ⟨step, rfl⟩),
      by simp [Expression.AvoidsJuly]⟩
  | range first last step =>
    exact Or.inl ⟨readEntry_str hserves hvalid (Or.inr ⟨first, last, step, rfl⟩),
      by simp [Expression.AvoidsJuly]⟩
  | monthRange first last =>
    have hall : ∀ last < 13, ∀ first < 13, 1 ≤ first → first ≤ last →
        readEntry .month (Expression.monthRange first last).str =
          if last = 7 then none else some (.run first last 1) := by
      decide
    obtain ⟨-, hone, hle, hlast⟩ := hvalid
    rw [hall last (by omega) first (by omega) hone hle]
    by_cases hjuly : last = 7
    · exact Or.inr ⟨if_pos hjuly, fun h => h first (by rw [hjuly])⟩
    · exact Or.inl ⟨if_neg hjuly, fun first' h => hjuly (by cases h; rfl)⟩
  | weekdayRange first last => cases hvalid.1
  | weekdayPosition option weekday => cases hvalid.1
  | lastDayOfMonth => cases hvalid

/-- Only days of the month have positions. -/
theorem CronField.not_isPosition_of_ne {name : FieldName} (hname : name ≠ .day)
    (field : CronField name) : ∀ e ∈ field.expressions, ¬ e.IsPosition := by
  intro e he hposition
  have hvalid := field.valid e he
  cases e with
  | weekdayPosition option weekday => exact hname hvalid.1
  | lastDayOfMonth => exact hname hvalid
  | all | range | monthRange | weekdayRange => cases hposition

/-- A field of months is the same to the server, or has no meaning if the text of an expression
ends with the name of July. -/
theorem readEntries_month (field : CronField .month) :
    readEntries .month (field.str.splitOn ',') = some field.entries ∧
        (∀ e ∈ field.expressions, e.AvoidsJuly) ∨
      readEntries .month (field.str.splitOn ',') = none ∧
        ¬ ∀ e ∈ field.expressions, e.AvoidsJuly := by
  rw [CronField.splitOn_str (field.not_isPosition_of_ne (by decide))]
  exact readEntries_map_iff fun e he => readEntry_month (field.valid e he)

/-- The expression is no range of weekdays up to Sunday, and has no step. -/
def Expression.IsSpelled : Expression → Prop
  | all step => step = none
  | range first last step => step = none ∧ (last = some 6 → first = 6)
  | weekdayRange first last => last = 6 → first = 6
  | _ => True

instance (e : Expression) : Decidable e.IsSpelled :=
  match e with
  | .all step => inferInstanceAs (Decidable (step = none))
  | .range first last step =>
    inferInstanceAs (Decidable (step = none ∧ (last = some 6 → first = 6)))
  | .weekdayRange first last => inferInstanceAs (Decidable (last = 6 → first = 6))
  | .monthRange _ _ | .weekdayPosition _ _ | .lastDayOfMonth => inferInstanceAs (Decidable True)

/-- What the server takes an expression of weekdays for. -/
def Expression.weekdayEntry : Expression → Entry
  | range first last _ => .run ((first + 1) % 7) ((last.getD first + 1) % 7) 1
  | weekdayRange first last => .run ((first + 1) % 7) ((last + 1) % 7) 1
  | _ => .run 0 7 1

/-- The server reads an expression of weekdays as the same days if it is spelled out, and has no
meaning for it otherwise. -/
def ReadsWeekday (e : Expression) : Prop :=
  readEntry .dayOfWeek (weekday e.str) = some e.weekdayEntry ∧ e.IsSpelled ∧
      (∀ d < 7, e.weekdayEntry.NamesDay 0 d ↔ (e.entry .dayOfWeek).NamesDay 6 d) ∨
    readEntry .dayOfWeek (weekday e.str) = none ∧ ¬ e.IsSpelled

instance (e : Expression) : Decidable (ReadsWeekday e) := inferInstanceAs (Decidable (_ ∨ _))

/-- **An expression of weekdays** names the same days to the server, or has no meaning. -/
theorem readsWeekday {e : Expression} (hvalid : e.Valid .dayOfWeek) : ReadsWeekday e := by
  cases e with
  | all step =>
    have hall : ReadsWeekday (.all none) ∧ ∀ s < 7, 1 ≤ s → ReadsWeekday (.all (some s)) := by
      decide
    cases step with
    | none => exact hall.1
    | some s => exact hall.2 s (Nat.lt_succ_of_le (hvalid s rfl).2) (hvalid s rfl).1
  | range first last step =>
    have hopen : ∀ first < 7, ∀ s < 7, 1 ≤ s → ReadsWeekday (.range first none (some s)) := by
      decide
    have hclosed : ∀ first < 7, ∀ last < 7, first ≤ last →
        ReadsWeekday (.range first (some last) none) ∧
          ∀ s < 7, 1 ≤ s → ReadsWeekday (.range first (some last) (some s)) := by
      decide
    obtain ⟨halone, -, hlast, hstep⟩ := hvalid
    have hmax : FieldName.dayOfWeek.max = 6 := rfl
    cases last with
    | none =>
      obtain ⟨s, rfl⟩ := Option.isSome_iff_exists.mp (halone rfl)
      have hs := hstep s rfl
      simp only [Option.getD_none, hmax] at hs
      exact hopen first (by omega) s (by omega) hs.1
    | some l =>
      have hl := hlast l rfl
      rw [hmax] at hl
      have hends := hclosed first (by omega) l (by omega) hl.1
      cases step with
      | none => exact hends.1
      | some s =>
        have hs := hstep s rfl
        simp only [Option.getD_some] at hs
        exact hends.2 s (by omega) hs.1
  | weekdayRange first last =>
    have hall : ∀ first < 7, ∀ last < 7, first ≤ last →
        ReadsWeekday (.weekdayRange first last) := by
      decide
    obtain ⟨-, hle, hlast⟩ := hvalid
    exact hall first (by omega) last (by omega) hle
  | monthRange first last => cases hvalid.1
  | weekdayPosition option weekday => cases hvalid.1
  | lastDayOfMonth => cases hvalid

/-- The converted texts of the expressions of a field are what it is split into. -/
theorem splitOn_weekday (field : CronField .dayOfWeek) :
    (weekday field.str).splitOn ',' = field.expressions.map fun e => weekday e.str := by
  rw [CronField.str, weekday_intercalate (by decide), List.map_map]
  refine List.splitOn_intercalate ',' (fun text htext hcomma => ?_) (by simpa using field.ne)
  obtain ⟨e, he, rfl⟩ := List.mem_map.mp htext
  have hcomma' : ',' ∈ e.str := (mem_weekday hcomma).resolve_left (by decide)
  exact absurd (Expression.mem_str (field.not_isPosition_of_ne (by decide) e he) hcomma')
    (by decide)

/-- A field of weekdays names the same days to the server, or has no meaning if it has a step or
a range up to Sunday. -/
theorem readEntries_weekday (field : CronField .dayOfWeek) :
    readEntries .dayOfWeek ((weekday field.str).splitOn ',') =
          some (field.expressions.map Expression.weekdayEntry) ∧
        (∀ e ∈ field.expressions, e.IsSpelled) ∨
      readEntries .dayOfWeek ((weekday field.str).splitOn ',') = none ∧
        ¬ ∀ e ∈ field.expressions, e.IsSpelled := by
  rw [splitOn_weekday]
  refine readEntries_map_iff fun e he => ?_
  exact (readsWeekday (field.valid e he)).imp_left fun h => ⟨h.1, h.2.1⟩

/-- Only a star has one in its text. -/
theorem Expression.eq_all {e : Expression} (hposition : ¬ e.IsPosition) (hstar : '*' ∈ e.str) :
    ∃ step, e = .all step := by
  have hname {names : List (List Char)} {index : ℕ}
      (hnames : names = monthNames ∨ names = weekdayNames) : '*' ∉ names.getD index [] :=
    fun hmem => absurd (isAlphanum_of_mem_name hnames hmem) (by decide)
  cases e with
  | all step => exact ⟨step, rfl⟩
  | range first last step =>
    rcases List.mem_append.mp hstar with hmem | hmem
    · rcases mem_rangeText hmem with ⟨v, hv⟩ | heq
      · exact absurd hv (notMem_natText (by decide))
      · exact absurd heq (by decide)
    · exact absurd (mem_stepText hmem) (by decide)
  | monthRange first last =>
    rcases mem_rangeText hstar with ⟨v, hv⟩ | heq
    · exact absurd hv (hname (Or.inl rfl))
    · exact absurd heq (by decide)
  | weekdayRange first last =>
    rcases mem_rangeText hstar with ⟨v, hv⟩ | heq
    · exact absurd hv (hname (Or.inr rfl))
    · exact absurd heq (by decide)
  | weekdayPosition option weekday => exact absurd trivial hposition
  | lastDayOfMonth => exact absurd trivial hposition

/-- Only the star alone is written as a star. -/
theorem CronField.str_eq_star {name : FieldName} {field : CronField name}
    (hposition : ∀ e ∈ field.expressions, ¬ e.IsPosition) :
    field.str = ['*'] ↔ field.expressions = [.all none] := by
  constructor
  · intro hstr
    have hsplit := splitOn_str hposition
    rw [hstr] at hsplit
    have hsingle : field.expressions.map Expression.str = [['*']] := hsplit.symm
    obtain ⟨e, hexpressions, hstar⟩ := List.map_eq_singleton_iff.mp hsingle
    obtain ⟨step, rfl⟩ := Expression.eq_all (hposition e (by simp [hexpressions]))
      (by simp [hstar])
    cases step with
    | none => exact hexpressions
    | some s => simp [Expression.str, stepText] at hstar
  · intro hexpressions
    simp [CronField.str, hexpressions, Expression.str, stepText]

/-- Conversion keeps a star, and brings none. -/
theorem weekday_str_eq_star {field : CronField .dayOfWeek} :
    weekday field.str = ['*'] ↔ field.expressions = [.all none] := by
  have hposition := field.not_isPosition_of_ne (by decide)
  constructor
  · intro hstr
    have hsplit := splitOn_weekday field
    rw [hstr] at hsplit
    have hsingle : (field.expressions.map fun e => weekday e.str) = [['*']] := hsplit.symm
    obtain ⟨e, hexpressions, hstar⟩ := List.map_eq_singleton_iff.mp hsingle
    have hmem : '*' ∈ weekday e.str := by simp [hstar]
    obtain ⟨step, rfl⟩ := Expression.eq_all (hposition e (by simp [hexpressions]))
      ((mem_weekday hmem).resolve_left (by decide))
    cases step with
    | none => exact hexpressions
    | some s =>
      have htext : weekday (Expression.all (some s)).str = '*' :: '/' :: weekday (natText s) := by
        have hstar : weekday ([] ++ '*' :: '/' :: natText s) =
            weekday [] ++ '*' :: weekday ('/' :: natText s) := weekday_append_cons (by decide)
        have hslash : weekday ([] ++ '/' :: natText s) = weekday [] ++ '/' :: weekday (natText s) :=
          weekday_append_cons (by decide)
        rw [List.nil_append] at hstar hslash
        rw [Expression.str, stepText, hstar, hslash]
        rfl
      simp [htext] at hstar
  · intro hexpressions
    simp [CronField.str, hexpressions]
    decide

end APScheduler

end SilenceWatch
