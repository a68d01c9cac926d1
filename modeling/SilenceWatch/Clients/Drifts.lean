import Mathlib.Data.List.Forall2
import SilenceWatch.Clients.Dialects

/-!
# Documented expressions and the validator

An entry of a documented expression is one to the validator of the server unless it drifts:
the parts of an entry first, then its kinds, then fields.
-/

namespace SilenceWatch

namespace Dialect

variable {field : Field} {spec : FieldSpec} {p : Point} {e : Entry}

/-- What the server takes a field for. -/
def TimeUnit.spec? : TimeUnit → Option FieldSpec
  | second => some .second
  | minute => some .minute
  | hour => some .hour
  | dayOfMonth => some .dayOfMonth
  | month => some .month
  | dayOfWeek => some .dayOfWeek
  | year => none

/-- The server has the field, and its values. -/
structure Field.Serves (field : Field) (spec : FieldSpec) : Prop where
  unit : field.unit.spec? = some spec
  min : spec.min ≤ field.min
  max : field.max ≤ spec.max

instance (field : Field) (spec : FieldSpec) : Decidable (field.Serves spec) :=
  decidable_of_iff (field.unit.spec? = some spec ∧ spec.min ≤ field.min ∧ field.max ≤ spec.max)
    ⟨fun h => ⟨h.1, h.2.1, h.2.2⟩, fun h => ⟨h.unit, h.min, h.max⟩⟩

/-- Names are three letters. -/
theorem names_spec {unit : TimeUnit} {name : List Char} (h : name ∈ unit.names) :
    name.length = 3 ∧ ∀ c ∈ name, c.isLower = true := by
  have hall : ∀ name ∈ monthNames ++ dayNames, name.length = 3 ∧ name.all Char.isLower = true := by
    decide
  have hmem : name ∈ monthNames ++ dayNames := by
    cases unit with
    | month => exact List.mem_append_left _ h
    | dayOfWeek => exact List.mem_append_right _ h
    | second | minute | hour | dayOfMonth | year => cases h
  exact (hall name hmem).imp_right List.all_eq_true.mp

/-- What has a letter for its lower case is one. -/
theorem isAlpha_of_toLower {c : Char} (h : c.toLower.isLower = true) : c.isAlpha = true := by
  unfold Char.toLower at h
  split at h
  · next hupper =>
    have hc : c.isUpper = true := decide_eq_true hupper
    change (c.isUpper || c.isLower) = true
    rw [hc, Bool.true_or]
  · change (c.isUpper || c.isLower) = true
    rw [h, Bool.or_true]

/-- A value is written with letters and digits. -/
theorem Point.text_spec (h : p.Valid field) :
    p.text ≠ [] ∧ ∀ c ∈ p.text, c.isAlphanum = true := by
  cases p with
  | number digits =>
    refine ⟨h.1.1, fun c hc => ?_⟩
    rw [Char.isAlphanum, h.1.2 c hc, Bool.or_true]
  | name letters =>
    obtain ⟨hlength, hlower⟩ := names_spec h
    rw [List.length_map] at hlength
    refine ⟨List.ne_nil_of_length_pos (by rw [text]; omega), fun c hc => ?_⟩
    rw [Char.isAlphanum, isAlpha_of_toLower (hlower _ (List.mem_map_of_mem hc)), Bool.true_or]

/-- Digits name nothing. -/
theorem numeral_notMem_names {unit : TimeUnit} {digits : List Char} (h : IsNumeral digits) :
    digits.map Char.toLower ∉ unit.names := by
  intro hmem
  obtain ⟨c, hc⟩ := List.exists_mem_of_ne_nil _ h.1
  have hlower := (names_spec hmem).2 _ (List.mem_map_of_mem hc)
  rw [Quartz.toLower_of_isDigit (h.2 c hc)] at hlower
  have hdigit := h.2 c hc
  change (decide ('a'.val ≤ c.val) && decide (c.val ≤ 'z'.val)) = true at hlower
  simp only [Char.isDigit, Bool.and_eq_true, decide_eq_true_eq, ge_iff_le,
    UInt32.le_iff_toNat_le] at hdigit hlower
  have hcodes : '9'.val.toNat = 57 ∧ 'a'.val.toNat = 97 := by decide
  omega

/-- The server has the names of a field. -/
theorem Field.Serves.names (h : field.Serves spec) :
    spec.names = none ∧ field.unit.names = [] ∨ spec.names = some field.unit.names := by
  have hunit := h.unit
  cases hfield : field.unit with
  | second | minute | hour | dayOfMonth =>
    rw [hfield] at hunit
    cases hunit
    exact Or.inl ⟨rfl, rfl⟩
  | month | dayOfWeek =>
    rw [hfield] at hunit
    cases hunit
    exact Or.inr rfl
  | year =>
    rw [hfield] at hunit
    cases hunit

/-- What is neither a name of the field nor a number is no value. -/
theorem parseValue_isSome (h : field.Serves spec) (token : List Char) :
    (parseValue token spec).isSome = true ↔ token.map Char.toLower ∈ field.unit.names ∨
      isNumber 2 token = true ∧ spec.min ≤ digitsValue token ∧ digitsValue token ≤ spec.max := by
  have hnames : (spec.names.bind fun names => names.idxOf? (token.map Char.toLower)).isSome = true ↔
      token.map Char.toLower ∈ field.unit.names := by
    rcases h.names with ⟨hnone, hempty⟩ | hsome
    · rw [hnone, hempty]
      simp
    · rw [hsome, Option.bind_some, List.isSome_idxOf?]
  unfold parseValue
  dsimp only
  cases hlookup : spec.names.bind fun names => names.idxOf? (token.map Char.toLower) with
  | some index =>
    rw [hlookup] at hnames
    simp [hnames.mp rfl]
  | none =>
    rw [hlookup] at hnames
    have hnot : token.map Char.toLower ∉ field.unit.names := fun hmem => by cases hnames.mpr hmem
    by_cases hnumber : isNumber 2 token = true
    · by_cases hbounds : spec.min ≤ digitsValue token ∧ digitsValue token ≤ spec.max
      · simp [hnumber, hbounds]
      · simp [hnot, hnumber, hbounds]
    · simp [hnot, hnumber]

/-- A value is one to the server unless it is written with more than two digits. -/
theorem parseValue_text (h : field.Serves spec) (hvalid : p.Valid field) :
    (parseValue p.text spec).isSome = true ↔ ¬ p.IsLong := by
  rw [parseValue_isSome h]
  cases p with
  | number digits =>
    obtain ⟨hnumeral, hmin, hmax⟩ := hvalid
    have hmin' := h.min
    have hmax' := h.max
    have hbounds : spec.min ≤ digitsValue digits ∧ digitsValue digits ≤ spec.max := by omega
    have hnumber : isNumber 2 digits = true ↔ digits.length ≤ 2 := by
      simp [isNumber, hnumeral.1, List.all_eq_true.mpr hnumeral.2]
    rw [Point.text, or_iff_right (numeral_notMem_names hnumeral), hnumber, and_iff_left hbounds,
      Point.IsLong, not_lt]
  | name letters => exact iff_of_true (Or.inl hvalid) not_false

/-- Only an L has the lower case l. -/
theorem toLower_eq_l {c : Char} : c.toLower = 'l' ↔ c = 'L' ∨ c = 'l' := by
  constructor
  · intro h
    unfold Char.toLower at h
    split at h
    · next hupper =>
      left
      have hval := congrArg (fun c : Char => c.val.toNat) h
      simp only [UInt32.toNat_add, UInt32.le_iff_toNat_le, ge_iff_le] at hval hupper
      have hshift : ('a'.val - 'A'.val).toNat = 32 := by decide
      have hA : 'A'.val.toNat = 65 := by decide
      have hZ : 'Z'.val.toNat = 90 := by decide
      have hL : 'L'.val.toNat = 76 := by decide
      have hl : 'l'.val.toNat = 108 := by decide
      refine Char.ext (UInt32.toNat_inj.mp ?_)
      omega
    · exact Or.inr h
  · rintro (rfl | rfl)
    · decide
    · decide

/-- Of the values, the name of July alone ends with the letter of a last day. -/
theorem Point.ends_iff (h : p.Valid field) :
    (∃ c ∈ p.text.getLast?, c = 'L' ∨ c = 'l') ↔ p.IsJuly := by
  cases p with
  | number digits =>
    refine iff_of_false ?_ not_false
    rintro ⟨c, hc, hmark⟩
    have hdigit := h.1.2 c (List.mem_of_getLast? hc)
    rcases hmark with rfl | rfl
    · cases hdigit
    · cases hdigit
  | name letters =>
    have hall : ∀ name ∈ monthNames ++ dayNames,
        name.getLast? = some 'l' ↔ name = ['j', 'u', 'l'] := by
      decide
    have hmem : letters.map Char.toLower ∈ monthNames ++ dayNames := by
      have hname : letters.map Char.toLower ∈ field.unit.names := h
      cases hunit : field.unit with
      | month =>
        rw [hunit] at hname
        exact List.mem_append_left _ hname
      | dayOfWeek =>
        rw [hunit] at hname
        exact List.mem_append_right _ hname
      | second | minute | hour | dayOfMonth | year =>
        rw [hunit] at hname
        cases hname
    rw [IsJuly, ← hall _ hmem, List.getLast?_map, text]
    simp only [Option.mem_def, Option.map_eq_some_iff, toLower_eq_l]

/-- July is a month. -/
theorem Point.unit_of_isJuly (h : p.Valid field) (hjuly : p.IsJuly) : field.unit = .month := by
  cases p with
  | number digits => cases hjuly
  | name letters =>
    have hname : letters.map Char.toLower ∈ field.unit.names := h
    rw [show letters.map Char.toLower = _ from hjuly] at hname
    cases hunit : field.unit with
    | month => rfl
    | dayOfWeek =>
      rw [hunit] at hname
      revert hname
      decide
    | second | minute | hour | dayOfMonth | year =>
      rw [hunit] at hname
      cases hname

/-- An entry that ends with the letter of a last day. -/
theorem isValidEntry_append_mark {value : List Char} {mark : Char} (hne : value ≠ [])
    (hmark : mark = 'L' ∨ mark = 'l') :
    isValidEntry spec (value ++ [mark]) = (spec.allowLast && (parseValue value spec).isSome) := by
  have hupper : (value ++ [mark]).map Char.toUpper ≠ ['L'] := by
    intro hupper
    have hlength := congrArg List.length hupper
    simp only [List.length_map, List.length_append, List.length_singleton] at hlength
    exact hne (List.length_eq_zero_iff.mp (by omega))
  have hbefore : beforeLetterL? (value ++ [mark]) = some value := by
    simp [beforeLetterL?, hmark, hne]
  unfold isValidEntry
  rw [if_neg (by simp), if_neg hupper, hbefore]

/-- An entry without the marks of days in the month. -/
theorem isValidEntry_of_unmarked {entry : List Char} (hne : entry ≠ [])
    (hlast : ∀ c ∈ entry.getLast?, c ≠ 'L' ∧ c ≠ 'l') (hhash : aroundHash? entry = none) :
    isValidEntry spec entry =
      match entry.splitOn '/' with
      | [] => false
      | range :: steps =>
        if 1 < steps.length then false
        else if ¬ steps.all isValidStep then false
        else isValidRange spec range := by
  have hupper : entry.map Char.toUpper ≠ ['L'] := by
    intro hupper
    obtain ⟨c, rfl⟩ : ∃ c, entry = [c] :=
      List.length_eq_one_iff.mp (by simpa using congrArg List.length hupper)
    have hc := hlast c rfl
    rcases eq_letterL (by simpa using hupper) with h | h
    · exact hc.1 h
    · exact hc.2 h
  have hbefore : beforeLetterL? entry = none := by
    rw [Option.eq_none_iff_forall_ne_some]
    intro value hvalue
    obtain ⟨c, hmark, rfl⟩ := eq_of_beforeLetterL? hvalue
    have hc := hlast c List.getLast?_concat
    exact hmark.elim hc.1 hc.2
  unfold isValidEntry
  rw [if_neg (by rwa [List.length_eq_zero_iff]), if_neg hupper]
  cases entry.splitOn '/' with
  | nil => simp only [hbefore, hhash]
  | cons range steps => simp only [hbefore, hhash]

/-- The signs of an entry. -/
def signs : List Char := ['*', '-', '/', '#']

/-- A text of letters and digits has no signs. -/
theorem notMem_of_isAlphanum {text : List Char} {c : Char}
    (h : ∀ d ∈ text, d.isAlphanum = true) (hc : c.isAlphanum = false) : c ∉ text := by
  intro hmem
  rw [h c hmem] at hc
  cases hc

theorem IsNumeral.isAlphanum {text : List Char} (h : IsNumeral text) :
    ∀ c ∈ text, c.isAlphanum = true := by
  intro c hc
  rw [Char.isAlphanum, h.2 c hc, Bool.or_true]

/-- A range is written with its values, a star and a dash. -/
theorem Span.notMem_text {range : Span} {c : Char} (h : ∀ p ∈ range.points, p.Valid field)
    (hc : c.isAlphanum = false ∧ c ≠ '*' ∧ c ≠ '-') : c ∉ range.text := by
  have hpoint : ∀ p ∈ range.points, c ∉ p.text := fun p hp =>
    notMem_of_isAlphanum (Point.text_spec (h p hp)).2 hc.1
  cases range with
  | star => simpa [text] using hc.2.1
  | omitted => exact List.not_mem_nil
  | one value => exact hpoint value (by simp [points])
  | between first last =>
    have hfirst := hpoint first (by simp [points])
    have hlast := hpoint last (by simp [points])
    simp [text, hfirst, hlast, hc.2.2]

/-- A range is one to the server unless a number is too long, or nothing is there. -/
theorem isValidRange_text {range : Span} (hserves : field.Serves spec)
    (h : ∀ p ∈ range.points, p.Valid field) :
    isValidRange spec range.text = true ↔ range.text ≠ [] ∧ ∀ p ∈ range.points, ¬ p.IsLong := by
  have hdash : ∀ p ∈ range.points, '-' ∉ p.text := fun p hp =>
    notMem_of_isAlphanum (Point.text_spec (h p hp)).2 (by decide)
  have hstar : ∀ p ∈ range.points, '*' ∉ p.text := fun p hp =>
    notMem_of_isAlphanum (Point.text_spec (h p hp)).2 (by decide)
  cases range with
  | star => simp [isValidRange, Span.text, Span.points]
  | omitted =>
    have hnone : (parseValue [] spec).isSome = false := by
      rw [Bool.eq_false_iff]
      intro hsome
      rcases (parseValue_isSome hserves []).mp hsome with hname | ⟨hnumber, -⟩
      · have hlength := (names_spec hname).1
        cases hlength
      · cases hnumber
    simp [isValidRange, Span.text, hnone]
  | one value =>
    have hvalue := h value (by simp [Span.points])
    have hne := (Point.text_spec hvalue).1
    have hnot : value.text ≠ ['*'] := by
      intro heq
      exact hstar value (by simp [Span.points]) (by rw [heq]; exact List.mem_cons_self)
    rw [Span.text, isValidRange, if_neg hnot,
      List.splitOn_eq_singleton (hdash value (by simp [Span.points]))]
    simp [parseValue_text hserves hvalue, hne, Span.points]
  | between first last =>
    have hfirst := h first (by simp [Span.points])
    have hlast := h last (by simp [Span.points])
    have hnot : first.text ++ '-' :: last.text ≠ ['*'] := by
      intro heq
      have hmem : '-' ∈ first.text ++ '-' :: last.text := by simp
      rw [heq] at hmem
      revert hmem
      decide
    rw [Span.text, isValidRange, if_neg hnot,
      List.splitOn_append_cons_self_of_not_mem (hdash first (by simp [Span.points])),
      List.splitOn_eq_singleton (hdash last (by simp [Span.points]))]
    simp [parseValue_text hserves hfirst, parseValue_text hserves hlast, Span.points]

/-- A range ends with the letter of a last day if July ends it. -/
theorem Span.ends_iff {range : Span} (h : ∀ p ∈ range.points, p.Valid field) :
    (∃ c ∈ range.text.getLast?, c = 'L' ∨ c = 'l') ↔ ∃ p ∈ range.end?, p.IsJuly := by
  cases range with
  | star =>
    refine iff_of_false ?_ (by simp [end?])
    rintro ⟨c, ⟨⟩, hletter⟩
    revert hletter
    decide
  | omitted => simp [text, end?]
  | one value => simpa [text, end?] using Point.ends_iff (h value (by simp [points]))
  | between first last =>
    have hlast := h last (by simp [points])
    have hne := (Point.text_spec hlast).1
    obtain ⟨front, c, htext⟩ : ∃ front c, last.text = front ++ [c] :=
      ⟨_, _, (List.dropLast_append_getLast hne).symm⟩
    have hends := Point.ends_iff hlast
    rw [text, htext, ← List.cons_append, ← List.append_assoc, List.getLast?_concat]
    rw [htext, List.getLast?_concat] at hends
    simpa [end?] using hends

/-- A step is one to the server if it has at most three digits. -/
theorem isValidStep_iff {digits : List Char} (h : IsNumeral digits)
    (hone : 1 ≤ digitsValue digits) : isValidStep digits = true ↔ ¬ 3 < digits.length := by
  simp [isValidStep, isNumber, h.1, List.all_eq_true.mpr h.2, hone]

/-- What ends like a last day is none where days of the month are not counted. -/
theorem isValidEntry_of_mark {entry : List Char} {mark : Char} (hlast : mark ∈ entry.getLast?)
    (hmark : mark = 'L' ∨ mark = 'l') (hnot : spec.allowLast = false) :
    isValidEntry spec entry = false := by
  obtain ⟨value, rfl⟩ : ∃ value, entry = value ++ [mark] := by
    have hne : entry ≠ [] := by
      rintro rfl
      cases hlast
    rw [List.getLast?_eq_getLast_of_ne_nil hne, Option.mem_some_iff] at hlast
    exact ⟨entry.dropLast, by rw [← hlast, List.dropLast_append_getLast hne]⟩
  by_cases hvalue : value = []
  · have hupper : ([] ++ [mark]).map Char.toUpper = ['L'] := by
      rcases hmark with rfl | rfl
      · rfl
      · rfl
    rw [hvalue, isValidEntry, if_neg (by simp), if_pos hupper, hnot]
  · rw [isValidEntry_append_mark hvalue hmark, hnot, Bool.false_and]

/-- Without a hash there is no nth weekday. -/
theorem aroundHash?_eq_none {entry : List Char} (h : '#' ∉ entry) : aroundHash? entry = none := by
  rw [Option.eq_none_iff_forall_ne_some]
  rintro ⟨value, n⟩ hvalue
  obtain ⟨-, c, -, rfl⟩ := eq_of_aroundHash? hvalue
  exact h (by simp)

/-- What ends with a digit does not end like a last day. -/
theorem IsNumeral.unmarked {digits text : List Char} (h : IsNumeral digits) :
    ∀ c ∈ (text ++ digits).getLast?, c ≠ 'L' ∧ c ≠ 'l' := by
  intro c hc
  rw [List.getLast?_append_of_ne_nil _ h.1] at hc
  have hdigit := h.2 c (List.mem_of_getLast? hc)
  constructor
  · rintro rfl
    cases hdigit
  · rintro rfl
    cases hdigit

/-- An entry of values, with a step or without. -/
theorem isValidEntry_plain {range : Span} {step : Option (List Char)}
    (hserves : field.Serves spec) (hvalid : (Entry.plain range step).Valid field) :
    isValidEntry spec (Entry.plain range step).text = true ↔ ¬ (Entry.plain range step).Drifts := by
  obtain ⟨hpoints, homitted, hstep⟩ := hvalid
  have hhash : '#' ∉ range.text := Span.notMem_text hpoints (by decide)
  have hslash : '/' ∉ range.text := Span.notMem_text hpoints (by decide)
  have hrange := isValidRange_text hserves hpoints
  cases step with
  | none =>
    have htext : (Entry.plain range none).text = range.text := List.append_nil _
    have hne : range.text ≠ [] := fun h => by cases (homitted h).2
    rw [htext]
    by_cases hjuly : ∃ p ∈ range.end?, p.IsJuly
    · obtain ⟨c, hc, hmark⟩ := (Span.ends_iff hpoints).mpr hjuly
      have hmonth : field.unit = .month := by
        obtain ⟨p, hp, hisJuly⟩ := hjuly
        have hmem : p ∈ range.points := by
          cases range with
          | star | omitted => cases hp
          | one value | between first last =>
            cases hp
            simp [Span.points]
        exact Point.unit_of_isJuly (hpoints p hmem) hisJuly
      have hnot : spec.allowLast = false := by
        have hunit := hserves.unit
        rw [hmonth] at hunit
        cases hunit
        rfl
      rw [isValidEntry_of_mark hc hmark hnot]
      refine iff_of_false Bool.false_ne_true (not_not.mpr ?_)
      exact Or.inr (Or.inr (Or.inr ⟨rfl, hjuly⟩))
    · have hlast : ∀ c ∈ range.text.getLast?, c ≠ 'L' ∧ c ≠ 'l' := fun c hc =>
        not_or.mp fun hmark => hjuly ((Span.ends_iff hpoints).mp ⟨c, hc, hmark⟩)
      rw [isValidEntry_of_unmarked hne hlast (aroundHash?_eq_none hhash),
        List.splitOn_eq_singleton hslash]
      have hdrifts : (Entry.plain range none).Drifts ↔ ∃ p ∈ range.points, p.IsLong := by
        rw [Entry.Drifts, or_iff_right hne]
        constructor
        · rintro (hlong | ⟨_, hnone, _⟩ | ⟨_, hisJuly⟩)
          · exact hlong
          · cases hnone
          · exact absurd hisJuly hjuly
        · exact Or.inl
      rw [hdrifts]
      simpa [hne] using hrange
  | some digits =>
    obtain ⟨hnumeral, hone, -⟩ := hstep digits rfl
    have hdigits {c : Char} (hc : c.isAlphanum = false) : c ∉ digits :=
      notMem_of_isAlphanum hnumeral.isAlphanum hc
    have htext : (Entry.plain range (some digits)).text = range.text ++ '/' :: digits := rfl
    have hlast : ∀ c ∈ (range.text ++ '/' :: digits).getLast?, c ≠ 'L' ∧ c ≠ 'l' := by
      rw [← List.singleton_append, ← List.append_assoc]
      exact hnumeral.unmarked
    rw [htext, isValidEntry_of_unmarked (by simp) hlast
        (aroundHash?_eq_none (by simp [hhash, hdigits (show '#'.isAlphanum = false by decide)])),
      List.splitOn_append_cons_self_of_not_mem hslash,
      List.splitOn_eq_singleton (hdigits (by decide))]
    have hvalidStep := isValidStep_iff hnumeral hone
    by_cases hlong : 3 < digits.length
    · simp [hvalidStep.not.mpr (not_not.mpr hlong), Entry.Drifts, hlong]
    · simpa [hvalidStep.mpr hlong, Entry.Drifts, hlong] using hrange

/-- The last day of the month, or of the week. -/
theorem isValidEntry_last {mark : Char} (hserves : field.Serves spec)
    (hvalid : (Entry.last mark).Valid field) : isValidEntry spec (Entry.last mark).text = true := by
  have hunit := hserves.unit
  obtain ⟨hdays, hmark⟩ := hvalid
  have hupper : (Entry.last mark).text.map Char.toUpper = ['L'] := by
    rcases hmark with rfl | rfl
    · rfl
    · rfl
  have hallow : spec.allowLast = true := by
    rcases hdays with h | h
    · rw [h] at hunit
      cases hunit
      rfl
    · rw [h] at hunit
      cases hunit
      rfl
  rw [isValidEntry, if_neg (by simp [Entry.text]), if_pos hupper]
  exact hallow

/-- Days before the last one of a month are no entry. -/
theorem isValidEntry_beforeLast {mark : Char} {days : List Char} (hserves : field.Serves spec)
    (hvalid : (Entry.beforeLast mark days).Valid field) :
    isValidEntry spec (Entry.beforeLast mark days).text = false := by
  have hunit := hserves.unit
  obtain ⟨hday, hmark, hdays⟩ := hvalid
  rw [hday] at hunit
  cases hunit
  have hsigns {c : Char} (hc : c.isAlphanum = false) (hdash : c ≠ '-') :
      c ∉ (Entry.beforeLast mark days).text := by
    have hdigits := notMem_of_isAlphanum hdays.isAlphanum hc
    have hletter : c ≠ mark := by
      rintro rfl
      rcases hmark with rfl | rfl
      · cases hc
      · cases hc
    simp [Entry.text, hletter, hdash, hdigits]
  have hmarkDash : '-' ∉ [mark] := by
    rcases hmark with rfl | rfl
    · decide
    · decide
  have hnone : (parseValue [mark] .dayOfMonth).isSome = false := by
    rcases hmark with rfl | rfl
    · decide
    · decide
  have hlast : ∀ c ∈ (Entry.beforeLast mark days).text.getLast?, c ≠ 'L' ∧ c ≠ 'l' := by
    have htext : (Entry.beforeLast mark days).text = [mark, '-'] ++ days := rfl
    rw [htext]
    exact hdays.unmarked
  have hnotStar : (Entry.beforeLast mark days).text ≠ ['*'] := by
    intro heq
    cases congrArg List.length heq
  rw [isValidEntry_of_unmarked (by simp [Entry.text]) hlast
      (aroundHash?_eq_none (hsigns (by decide) (by decide))),
    List.splitOn_eq_singleton (hsigns (by decide) (by decide))]
  have hsplit : (Entry.beforeLast mark days).text.splitOn '-' = [[mark], days] := by
    rw [Entry.text, ← List.singleton_append,
      List.splitOn_append_cons_self_of_not_mem hmarkDash,
      List.splitOn_eq_singleton (notMem_of_isAlphanum hdays.isAlphanum (by decide))]
  simp [isValidRange, hsplit, hnone, hnotStar]

theorem unmarked_nth {value : Point} {count : List Char} (hcount : IsNumeral count) :
    ∀ c ∈ (Entry.nth value count).text.getLast?, c ≠ 'L' ∧ c ≠ 'l' := by
  rw [Entry.text, ← List.singleton_append, ← List.append_assoc]
  exact hcount.unmarked

/-- Where a number of two digits follows the hash, no single digit does. -/
theorem aroundHash?_nth_eq_none (value : Point) {count : List Char} (hcount : IsNumeral count)
    (hlength : 1 < count.length) : aroundHash? (Entry.nth value count).text = none := by
  rw [Option.eq_none_iff_forall_ne_some]
  rintro ⟨before, n⟩ hsome
  obtain ⟨-, c, -, htext⟩ := eq_of_aroundHash? hsome
  obtain ⟨front, a, b, rfl⟩ : ∃ front a b, count = front ++ [a, b] := by
    have hrest : count.dropLast ≠ [] := by
      refine List.ne_nil_of_length_pos ?_
      rw [List.length_dropLast]
      omega
    refine ⟨count.dropLast.dropLast, count.dropLast.getLast hrest,
      count.getLast hcount.1, ?_⟩
    rw [← List.singleton_append, ← List.append_assoc, List.dropLast_append_getLast,
      List.dropLast_append_getLast]
  have hends : (value.text ++ '#' :: front) ++ [a, b] = before ++ ['#', c] := by
    rw [← htext, Entry.text]
    simp
  have hhash := (List.append_inj' hends rfl).2
  simp only [List.cons.injEq, and_true] at hhash
  have hdigit := hcount.2 a (by simp)
  rw [hhash.1] at hdigit
  cases hdigit

/-- The number of a weekday in the month has one digit to the server. -/
theorem isValidEntry_nth_of_long {value : Point} {count : List Char} (hserves : field.Serves spec)
    (hvalid : (Entry.nth value count).Valid field) (hlength : 1 < count.length) :
    isValidEntry spec (Entry.nth value count).text = false := by
  have hunit := hserves.unit
  obtain ⟨hweek, hvalue, hcount, -, -⟩ := hvalid
  rw [hweek] at hunit
  cases hunit
  obtain ⟨-, hvalueText⟩ := Point.text_spec hvalue
  have hsigns {c : Char} (hc : c.isAlphanum = false) (hhash : c ≠ '#') :
      c ∉ (Entry.nth value count).text := by
    have hdigits := notMem_of_isAlphanum hcount.isAlphanum hc
    simp [Entry.text, notMem_of_isAlphanum hvalueText hc, hhash, hdigits]
  have haround := aroundHash?_nth_eq_none value hcount hlength
  have hnone : (parseValue (Entry.nth value count).text .dayOfWeek).isSome = false := by
    rw [Bool.eq_false_iff]
    intro hsome
    have hmem : '#' ∈ (Entry.nth value count).text := by simp [Entry.text]
    rcases (parseValue_isSome hserves _).mp hsome with hname | ⟨hnumber, -⟩
    · cases (names_spec hname).2 _ (List.mem_map_of_mem hmem)
    · simp only [isNumber, Bool.and_eq_true] at hnumber
      cases List.all_eq_true.mp hnumber.2 _ hmem
  have hnotStar : (Entry.nth value count).text ≠ ['*'] := by
    intro heq
    have hmem : '#' ∈ (Entry.nth value count).text := by simp [Entry.text]
    rw [heq] at hmem
    revert hmem
    decide
  rw [isValidEntry_of_unmarked (by simp [Entry.text]) (unmarked_nth hcount) haround,
    List.splitOn_eq_singleton (hsigns (by decide) (by decide))]
  have hsplit : (Entry.nth value count).text.splitOn '-' = [(Entry.nth value count).text] :=
    List.splitOn_eq_singleton (hsigns (by decide) (by decide))
  simp [isValidRange, hsplit, hnone, hnotStar]

theorem isValidEntry_nth_digit {value : Point} {n : Char} (hserves : field.Serves spec)
    (hvalid : (Entry.nth value [n]).Valid field) :
    isValidEntry spec (Entry.nth value [n]).text = true ↔ ¬ value.IsLong := by
  have hunit := hserves.unit
  obtain ⟨hweek, hvalue, hcount, hone, hfive⟩ := hvalid
  rw [hweek] at hunit
  cases hunit
  obtain ⟨hvalueNe, -⟩ := Point.text_spec hvalue
  have hcodes : '1' ≤ n ∧ n ≤ '5' := by
    have hvalue : digitsValue [n] = 10 * 0 + (n.val.toNat - 48) := rfl
    have hone' : '1'.val.toNat = 49 ∧ '5'.val.toNat = 53 := by decide
    refine ⟨UInt32.le_iff_toNat_le.mpr ?_, UInt32.le_iff_toNat_le.mpr ?_⟩
    · omega
    · omega
  have haround : aroundHash? (Entry.nth value [n]).text =
      some (value.text, digitsValue [n]) := by
    simp [aroundHash?, Entry.text, hcodes, hvalueNe]
  have hbefore : beforeLetterL? (Entry.nth value [n]).text = none := by
    rw [Option.eq_none_iff_forall_ne_some]
    intro before hsome
    obtain ⟨c, hmark, htext⟩ := eq_of_beforeLetterL? hsome
    have hc := unmarked_nth hcount c (by rw [htext, List.getLast?_concat]; rfl)
    exact hmark.elim hc.1 hc.2
  have hupper : (Entry.nth value [n]).text.map Char.toUpper ≠ ['L'] := by
    intro hupper
    have hcount := congrArg List.length hupper
    simp [Entry.text] at hcount
  rw [isValidEntry, if_neg (by simp [Entry.text]), if_neg hupper, hbefore, haround]
  exact parseValue_text hserves hvalue

/-- **An entry that is documented** is one to the server unless it drifts. -/
theorem isValidEntry_text (hserves : field.Serves spec) (hvalid : e.Valid field)
    (hkept : ¬ e.IsNearest) : isValidEntry spec e.text = true ↔ ¬ e.Drifts := by
  cases e with
  | plain range step => exact isValidEntry_plain hserves hvalid
  | last mark => exact iff_of_true (isValidEntry_last hserves hvalid) not_false
  | beforeLast mark days =>
    have hrefused := isValidEntry_beforeLast hserves hvalid
    exact iff_of_false (Bool.eq_false_iff.mp hrefused) (not_not.mpr trivial)
  | lastOf value mark =>
    have hunit := hserves.unit
    obtain ⟨hweek, hvalue, hmark⟩ := hvalid
    rw [hweek] at hunit
    cases hunit
    rw [Entry.text, isValidEntry_append_mark (Point.text_spec hvalue).1 hmark]
    exact parseValue_text hserves hvalue
  | nth value count =>
    by_cases hlength : 1 < count.length
    · have hrefused := isValidEntry_nth_of_long hserves hvalid hlength
      exact iff_of_false (Bool.eq_false_iff.mp hrefused) (not_not.mpr (Or.inr hlength))
    · obtain ⟨n, rfl⟩ : ∃ n, count = [n] := by
        have hpos := List.length_pos_iff.mpr hvalid.2.2.1.1
        exact List.length_eq_one_iff.mp (by omega)
      have hdrifts : (Entry.nth value [n]).Drifts ↔ value.IsLong := or_iff_left (Nat.lt_irrefl 1)
      rw [hdrifts]
      exact isValidEntry_nth_digit hserves hvalid
  | nearest day mark => exact absurd trivial hkept
  | nearestLast mark workday => exact absurd trivial hkept
  | nearestBeforeLast mark days workday => exact absurd trivial hkept

/-- What entries are written with. -/
theorem Entry.mem_text {c : Char} (h : e.Valid field) (hc : c ∈ e.text) :
    c.isAlphanum = true ∨ c ∈ signs := by
  have hmark {letter mark : Char} (hletter : letter = 'L' ∨ letter = 'W')
      (hmark : IsMark letter mark) : mark.isAlphanum = true := by
    rcases hletter with rfl | rfl
    · rcases hmark with rfl | rfl
      · decide
      · decide
    · rcases hmark with rfl | rfl
      · decide
      · decide
  cases e with
  | plain range step =>
    obtain ⟨hpoints, -, hstep⟩ := h
    rcases List.mem_append.mp hc with hc | hc
    · by_contra hnot
      simp only [signs, List.mem_cons, List.not_mem_nil, not_or, Bool.not_eq_true] at hnot
      exact Span.notMem_text hpoints ⟨hnot.1, hnot.2.1, hnot.2.2.1⟩ hc
    · cases step with
      | none => cases hc
      | some digits =>
        rcases List.mem_cons.mp hc with rfl | hc
        · exact Or.inr (by decide)
        · exact Or.inl ((hstep digits rfl).1.isAlphanum c hc)
  | last mark =>
    obtain rfl := List.mem_singleton.mp hc
    exact Or.inl (hmark (Or.inl rfl) h.2)
  | beforeLast mark days =>
    rcases List.mem_cons.mp hc with rfl | hc
    · exact Or.inl (hmark (Or.inl rfl) h.2.1)
    · rcases List.mem_cons.mp hc with rfl | hc
      · exact Or.inr (by decide)
      · exact Or.inl (h.2.2.isAlphanum c hc)
  | lastOf value mark =>
    rcases List.mem_append.mp hc with hc | hc
    · exact Or.inl ((Point.text_spec h.2.1).2 c hc)
    · obtain rfl := List.mem_singleton.mp hc
      exact Or.inl (hmark (Or.inl rfl) h.2.2)
  | nth value count =>
    rcases List.mem_append.mp hc with hc | hc
    · exact Or.inl ((Point.text_spec h.2.1).2 c hc)
    · rcases List.mem_cons.mp hc with rfl | hc
      · exact Or.inr (by decide)
      · exact Or.inl (h.2.2.1.isAlphanum c hc)
  | nearest day mark =>
    rcases List.mem_append.mp hc with hc | hc
    · exact Or.inl (h.2.1.isAlphanum c hc)
    · obtain rfl := List.mem_singleton.mp hc
      exact Or.inl (hmark (Or.inr rfl) h.2.2)
  | nearestLast mark workday =>
    rcases List.mem_cons.mp hc with rfl | hc
    · exact Or.inl (hmark (Or.inl rfl) h.2.1)
    · obtain rfl := List.mem_singleton.mp hc
      exact Or.inl (hmark (Or.inr rfl) h.2.2)
  | nearestBeforeLast mark days workday =>
    rcases List.mem_cons.mp hc with rfl | hc
    · exact Or.inl (hmark (Or.inl rfl) h.2.1)
    · rcases List.mem_cons.mp hc with rfl | hc
      · exact Or.inr (by decide)
      · rcases List.mem_append.mp hc with hc | hc
        · exact Or.inl (h.2.2.1.isAlphanum c hc)
        · obtain rfl := List.mem_singleton.mp hc
          exact Or.inl (hmark (Or.inr rfl) h.2.2.2)

/-- An entry has a text. -/
theorem Entry.text_ne_nil (h : e.Valid field) : e.text ≠ [] := by
  cases e with
  | plain range step =>
    intro hnil
    obtain ⟨hrange, hstep⟩ := List.append_eq_nil_iff.mp hnil
    have hsome := (h.2.1 hrange).2
    cases step with
    | none => cases hsome
    | some digits => cases hstep
  | last mark | beforeLast mark days | nearestLast mark workday
  | nearestBeforeLast mark days workday => exact List.cons_ne_nil _ _
  | lastOf value mark | nth value count | nearest day mark => simp [text]

namespace FieldText

variable {text : FieldText}

/-- What fields are written with. -/
theorem mem_text {c : Char} (h : text.Valid field) (hc : c ∈ text.text) :
    c.isAlphanum = true ∨ c ∈ ',' :: '?' :: signs := by
  cases text with
  | question =>
    obtain rfl := List.mem_singleton.mp hc
    exact Or.inr (by decide)
  | list entries =>
    rcases mem_intercalate hc with rfl | ⟨entry, hentry, hmem⟩
    · exact Or.inr List.mem_cons_self
    · obtain ⟨e, he, rfl⟩ := List.mem_map.mp hentry
      exact (Entry.mem_text (h.2 e he) hmem).imp_right fun hsign =>
        List.mem_cons_of_mem _ (List.mem_cons_of_mem _ hsign)

/-- The entries of a list are what it is split into. -/
theorem splitOn_text {entries : List Entry} (h : (list entries).Valid field) :
    (list entries).text.splitOn ',' = entries.map Entry.text := by
  refine List.splitOn_intercalate ',' (fun entry hentry hcomma => ?_) (by simpa using h.1)
  obtain ⟨e, he, rfl⟩ := List.mem_map.mp hentry
  rcases Entry.mem_text (h.2 e he) hcomma with hcomma | hcomma
  · cases hcomma
  · revert hcomma
    decide

/-- A field has a text. -/
theorem text_ne_nil (h : text.Valid field) : text.text ≠ [] := by
  cases text with
  | question => exact List.cons_ne_nil _ _
  | list entries =>
    obtain ⟨e, rest, rfl⟩ := List.exists_cons_of_ne_nil h.1
    have he := Entry.text_ne_nil (h.2 e List.mem_cons_self)
    cases rest with
    | nil => simpa [FieldText.text] using he
    | cons next rest => simp [FieldText.text]

/-- **A field that is documented** is one to the server unless an entry drifts. -/
theorem isValidField_text (hserves : field.Serves spec) (hvalid : text.Valid field)
    (hkept : ∀ e ∈ text.entries, ¬ e.IsNearest) :
    isValidField text.text spec = true ↔ ∀ e ∈ text.entries, ¬ e.Drifts := by
  cases text with
  | question =>
    have hallow : spec.allowQuestionMark = true := by
      have hunit := hserves.unit
      rcases hvalid with h | h
      · rw [h] at hunit
        cases hunit
        rfl
      · rw [h] at hunit
        cases hunit
        rfl
    simp [isValidField, FieldText.text, entries, hallow]
  | list entries =>
    have hquestion : (list entries).text ≠ ['?'] := by
      intro heq
      have hsplit := splitOn_text hvalid
      rw [heq] at hsplit
      have hmem : ['?'] ∈ entries.map Entry.text := by
        rw [← hsplit]
        decide
      obtain ⟨e, he, htext⟩ := List.mem_map.mp hmem
      rcases Entry.mem_text (hvalid.2 e he) (c := '?') (by simp [htext]) with h | h
      · cases h
      · revert h
        decide
    rw [isValidField, if_neg (by simpa using text_ne_nil hvalid), if_neg hquestion,
      splitOn_text hvalid, List.all_map, List.all_eq_true]
    exact forall₂_congr fun e he => isValidEntry_text hserves (hvalid.2 e he) (hkept e he)

end FieldText

/-- The characters of fields. -/
def IsToken (c : Char) : Prop := c.isAlphanum = true ∨ c ∈ ',' :: '?' :: signs

/-- Fields have no white space. -/
theorem IsToken.isSpace {c : Char} (h : IsToken c) : isSpace c = false ∧ c ≠ '@' := by
  have hsigns : (',' :: '?' :: signs).all (fun c => !SilenceWatch.isSpace c && c ≠ '@') = true := by
    decide
  rcases h with halphanum | hmem
  · exact isSpace_of_isAlphanum halphanum
  · simpa using List.all_eq_true.mp hsigns c hmem

section Expressions

variable {isSeparator : Char → Bool} {expression : List Char} {fields : List Field}
  {specs : List FieldSpec} {texts : List FieldText}

/-- Every field is one of the dialect. -/
theorem exists_field (hfields : List.Forall₂ FieldText.Valid fields texts) {text : FieldText}
    (htext : text ∈ texts) : ∃ field ∈ fields, text.Valid field := by
  induction hfields with
  | nil => cases htext
  | cons hvalid _ ih =>
    rcases List.mem_cons.mp htext with rfl | htext
    · exact ⟨_, List.mem_cons_self, hvalid⟩
    · obtain ⟨field, hfield, hlater⟩ := ih htext
      exact ⟨field, List.mem_cons_of_mem _ hfield, hlater⟩

/-- What an expression is written with. -/
theorem mem_expression (hwords : words isSeparator expression = texts.map FieldText.text)
    (hfields : List.Forall₂ FieldText.Valid fields texts) :
    ∀ c ∈ expression, isSeparator c = true ∨ IsToken c := by
  intro c hc
  refine (mem_words hc).imp_right ?_
  rintro ⟨word, hword, hmem⟩
  rw [hwords] at hword
  obtain ⟨text, htext, rfl⟩ := List.mem_map.mp hword
  obtain ⟨field, -, hvalid⟩ := exists_field hfields htext
  exact FieldText.mem_text hvalid hmem

/-- The validator looks at each field. -/
theorem isValidField_texts (hfields : List.Forall₂ FieldText.Valid fields texts)
    (hserves : List.Forall₂ Field.Serves fields specs)
    (hkept : ∀ text ∈ texts, ∀ e ∈ text.entries, ¬ e.IsNearest) :
    (∀ pair ∈ (texts.map FieldText.text).zip specs, isValidField pair.1 pair.2 = true) ↔
      ∀ text ∈ texts, ∀ e ∈ text.entries, ¬ e.Drifts := by
  induction hfields generalizing specs with
  | nil => simp
  | cons hvalid _ ih =>
    cases hserves with
    | cons hserves hrest =>
      obtain ⟨hfirst, hlater⟩ := List.forall_mem_cons.mp hkept
      rw [List.map_cons, List.zip_cons_cons, List.forall_mem_cons, List.forall_mem_cons,
        FieldText.isValidField_text hserves hvalid hfirst, ih hrest hlater]

/-- **An expression that is documented** is one to the server unless it is too long or drifts. -/
theorem isValidCronExpression_fields
    (hseparator : ∀ c, isSeparator c = true → isSpace c = true ∧ c ≠ '@')
    (hwords : words isSeparator expression = texts.map FieldText.text)
    (hfields : List.Forall₂ FieldText.Valid fields texts)
    (hserves : List.Forall₂ Field.Serves fields specs)
    (hspecs : specs = sixFields ∨ specs = fiveFields)
    (hkept : ∀ text ∈ texts, ∀ e ∈ text.entries, ¬ e.IsNearest) :
    isValidCronExpression expression = true ↔
      (strip isSpace expression).length ≤ 200 ∧ ¬ (Reading.fields texts).Drifts := by
  have hchars := mem_expression hwords hfields
  have hat : '@' ∉ expression := by
    intro hmem
    rcases hchars '@' hmem with h | h
    · exact (hseparator _ h).2 rfl
    · exact h.isSpace.2 rfl
  have hspaces : words isSpace expression = texts.map FieldText.text := by
    rw [← hwords]
    refine words_congr fun c hc => ?_
    rcases hchars c hc with h | h
    · rw [h, (hseparator c h).1]
    · rw [h.isSpace.1, eq_comm, Bool.eq_false_iff]
      intro hsep
      have hspace := h.isSpace.1
      rw [(hseparator c hsep).1] at hspace
      cases hspace
  have hlength : texts.length = specs.length := hfields.length_eq.symm.trans hserves.length_eq
  have hne : texts.map FieldText.text ≠ [] := by
    refine List.ne_nil_of_length_pos ?_
    rw [List.length_map, hlength]
    rcases hspecs with rfl | rfl
    · decide
    · decide
  have hdrifts : ¬ (Reading.fields texts).Drifts ↔
      ∀ text ∈ texts, ∀ e ∈ text.entries, ¬ e.Drifts := by
    simp [Reading.Drifts]
  rw [isValidCronExpression_iff hat (by rwa [hspaces]), hspaces, not_lt, hdrifts,
    ← isValidField_texts hfields hserves hkept]
  refine and_congr_right fun _ => ⟨?_, fun hvalid => ⟨specs, hspecs, ?_, hvalid⟩⟩
  · rintro ⟨specs', hspecs', hlength', hvalid⟩
    obtain rfl : specs' = specs := by
      rw [List.length_map, hlength] at hlength'
      rcases hspecs with rfl | rfl
      · rcases hspecs' with rfl | rfl
        · rfl
        · cases hlength'
      · rcases hspecs' with rfl | rfl
        · cases hlength'
        · rfl
    exact hvalid
  · rw [List.length_map, hlength]

end Expressions

end Dialect

end SilenceWatch
