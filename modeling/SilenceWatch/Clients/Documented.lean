import SilenceWatch.Clients.Drifts

/-!
# The documented dialect of the validator

Five or six fields of lists: stars, numbers, names of months and weekdays in any letter case,
and ranges of these, with a step from 1 to 999 or without.
-/

namespace SilenceWatch

open Dialect

/-- The fields of a crontab. -/
def documentedFive : List Field :=
  [⟨.minute, 0, 59, some 999, false⟩, ⟨.hour, 0, 23, some 999, false⟩,
    ⟨.dayOfMonth, 1, 31, some 999, false⟩, ⟨.month, 1, 12, some 999, false⟩,
    ⟨.dayOfWeek, 0, 7, some 999, false⟩]

/-- The same with seconds before them. -/
def documentedSix : List Field := ⟨.second, 0, 59, some 999, false⟩ :: documentedFive

/-- A star, a value or a range of two, which the validator does not compare, with or without
a step. -/
def Dialect.Entry.IsPlain : Entry → Prop
  | plain _ _ => True
  | _ => False

instance (e : Dialect.Entry) : Decidable e.IsPlain :=
  match e with
  | .plain _ _ => .isTrue trivial
  | .last _ | .beforeLast _ _ | .lastOf _ _ | .nth _ _ | .nearest _ _ | .nearestLast _ _
  | .nearestBeforeLast _ _ _ => .isFalse id

/-- A list of such entries. -/
def Dialect.FieldText.IsPlain : FieldText → Prop
  | question => False
  | list entries => ∀ e ∈ entries, e.IsPlain

instance (text : FieldText) : Decidable text.IsPlain :=
  match text with
  | .question => .isFalse id
  | .list entries => inferInstanceAs (Decidable (∀ e ∈ entries, e.IsPlain))

/-- The expression is one of the dialect, with the fields as they are written. -/
structure IsDocumented (expression : List Char) (texts : List FieldText) : Prop where
  fields : words isSpace expression = texts.map FieldText.text
  valid : List.Forall₂ FieldText.Valid documentedFive texts ∨
    List.Forall₂ FieldText.Valid documentedSix texts
  /-- No field is a question mark, and no entry a last day or a numbered weekday. -/
  plain : ∀ text ∈ texts, text.IsPlain
  length_le : expression.length ≤ 200

variable {expression : List Char} {texts : List FieldText}

/-- **The validator accepts the documented dialect** but for July's name where it ends an entry
of months without a step, and for numbers with more digits than it reads. -/
theorem documented_accepted_iff (h : IsDocumented expression texts) :
    isValidCronExpression expression = true ↔ ¬ (Reading.fields texts).Drifts := by
  have hspace : ∀ c, isSpace c = true → isSpace c = true ∧ c ≠ '@' := by
    intro c hc
    refine ⟨hc, ?_⟩
    rintro rfl
    revert hc
    decide
  have hkept : ∀ text ∈ texts, ∀ e ∈ text.entries, ¬ e.IsNearest := by
    intro text htext e he hnearest
    have hplain := h.plain text htext
    cases text with
    | question => exact hplain
    | list entries =>
      have hentry := hplain e he
      cases e with
      | plain => exact hnearest
      | _ => exact hentry
  have hshort : (strip isSpace expression).length ≤ 200 :=
    (strip_isInfix isSpace expression).length_le.trans h.length_le
  rcases h.valid with hfive | hsix
  · rw [isValidCronExpression_fields hspace h.fields hfive (by decide) (Or.inr rfl) hkept]
    exact and_iff_right hshort
  · rw [isValidCronExpression_fields hspace h.fields hsix (by decide) (Or.inl rfl) hkept]
    exact and_iff_right hshort

/-- Every quarter of an hour on working days in the first half of the year. -/
def workingHours : List FieldText :=
  [.list [.plain .star (some ['1', '5'])], .list [.plain .star none], .list [.plain .star none],
    .list [.plain (.between (.name "JAN".toList) (.number ['6'])) none],
    .list [.plain (.between (.name "mon".toList) (.name "Fri".toList)) none]]

/-- These are accepted. -/
theorem documented_accepted_workingHours :
    isValidCronExpression "*/15 * * JAN-6 mon-Fri".toList = true := by
  have hdocumented : IsDocumented "*/15 * * JAN-6 mon-Fri".toList workingHours :=
    ⟨by decide, Or.inl (by decide), by decide, by decide⟩
  exact (documented_accepted_iff hdocumented).mpr (by decide)

/-- The first of July. -/
def firstOfJuly : List FieldText :=
  [.list [.plain (.one (.number ['0'])) none], .list [.plain (.one (.number ['0'])) none],
    .list [.plain (.one (.number ['1'])) none], .list [.plain (.one (.name "JUL".toList)) none],
    .list [.plain .star none]]

/-- July is refused. -/
theorem not_documented_accepted_july :
    ¬ ∀ expression texts, IsDocumented expression texts →
      isValidCronExpression expression = true := by
  intro h
  have haccepted := h "0 0 1 JUL *".toList firstOfJuly ⟨by decide,
      Or.inl (by decide),
    by decide, by decide⟩
  revert haccepted
  decide

end SilenceWatch
