import SilenceWatch.Schedule.CronSyntax

/-!
# What accepted fields denote

The values that the fields of an expression stand for, under the usual meaning of cron, and
which of the fields that the validator accepts stand for none.
-/

namespace SilenceWatch

open Cron

/-- The entry stands for a value of its field. The last day of a month is one of four, the last
one of a week is Saturday. -/
def EntryDenotes (spec : FieldSpec) (e : Entry) (v : ℕ) : Prop :=
  match e with
  | .run low high step => (Entry.run low high step).Matches v
  | .last => if spec.allowNth then v = 6 else 28 ≤ v ∧ v ≤ 31
  | .lastOf day => v = day
  | .nth day _ => v = day
  | .around _ _ _ _ | .beforeLast _ => False

/-- The values that an entry stands for, of which there are some, are all in the range of the
field. -/
structure DenotesWithin (spec : FieldSpec) (e : Entry) : Prop where
  nonempty : ∃ v, EntryDenotes spec e v
  within : ∀ v, EntryDenotes spec e v → spec.min ≤ v ∧ v ≤ spec.max

/-- The field leaves the day to the other one, or each of its entries has a meaning and stands
for values in its range. -/
def FieldDenotes (field : List Char) (spec : FieldSpec) : Prop :=
  (field = ['?'] ∧ spec.allowQuestionMark = true) ∨
    ∀ entry ∈ field.splitOn ',', ∃ e, readEntry spec entry = some e ∧ DenotesWithin spec e

/-- The fields of an expression, each with what it may hold. -/
def fieldsOf (expression : List Char) : List (List Char × FieldSpec) :=
  let fields := words isSpace (strip isSpace expression)
  fields.zip (if fields.length = 6 then sixFields else fiveFields)

/-- The expression is a macro. -/
def IsMacro (expression : List Char) : Prop := (strip isSpace expression).head? = some '@'

variable {spec : FieldSpec} {entry field token range expression : List Char} {e : Entry} {v : ℕ}
  {step : Option ℕ}

/-- A value is in the range of its field. -/
theorem parseValue_within (hspec : spec ∈ sixFields) (hv : parseValue token spec = some v) :
    spec.min ≤ v ∧ v ≤ spec.max := by
  have hnames : ∀ spec ∈ sixFields, ∀ names ∈ spec.names, ∀ index < names.length,
      spec.min ≤ (if spec.names = some monthNames then index + 1 else index) ∧
        (if spec.names = some monthNames then index + 1 else index) ≤ spec.max := by
    decide
  unfold parseValue at hv
  dsimp only at hv
  split at hv
  · next index hindex =>
    obtain ⟨names, hsome, hlookup⟩ := Option.bind_eq_some_iff.mp hindex
    cases hv
    exact hnames spec hspec names hsome index (List.idxOf?_eq_some_iff.mp hlookup).1
  · split at hv
    · split at hv
      · next hbounds =>
        cases hv
        exact hbounds
      · cases hv
    · cases hv

/-- A range from one value to a later one stands for values between them. -/
theorem denotesWithin_run {low high n : ℕ} (hmin : spec.min ≤ low) (hle : low ≤ high)
    (hmax : high ≤ spec.max) : DenotesWithin spec (.run low high n) := by
  constructor
  · exact ⟨low, Nat.le_refl low, hle, by simp⟩
  · rintro v ⟨hlow, hhigh, -⟩
    omega

/-- What is read of a range stands for values. -/
theorem readRange_denotes (hspec : spec ∈ sixFields) (hread : readRange spec range step = some e) :
    DenotesWithin spec e := by
  have hbounds : ∀ spec ∈ sixFields, spec.min ≤ spec.max := by decide
  unfold readRange at hread
  split at hread
  · cases hread
    exact denotesWithin_run (Nat.le_refl _) (hbounds spec hspec) (Nat.le_refl _)
  · split at hread
    · obtain ⟨v, hv, rfl⟩ := Option.map_eq_some_iff.mp hread
      obtain ⟨hmin, hmax⟩ := parseValue_within hspec hv
      split
      · exact denotesWithin_run hmin (Nat.le_refl v) hmax
      · exact denotesWithin_run hmin hmax (Nat.le_refl _)
    · split at hread
      · next a b ha hb =>
        split at hread
        · next hle =>
          cases hread
          exact denotesWithin_run (parseValue_within hspec ha).1 hle (parseValue_within hspec hb).2
        · cases hread
      · cases hread
    · cases hread

/-- **What is read of an entry** stands for values in the range of its field. -/
theorem readEntry_denotes (hspec : spec ∈ sixFields) (hread : readEntry spec entry = some e) :
    DenotesWithin spec e := by
  have hlast : ∀ spec ∈ sixFields, spec.allowLast = true →
      if spec.allowNth then spec.min ≤ 6 ∧ 6 ≤ spec.max else spec.min ≤ 28 ∧ spec.max = 31 := by
    decide
  unfold readEntry at hread
  split at hread
  · split at hread
    · next hallow =>
      cases hread
      have hrange := hlast spec hspec hallow
      cases hnth : spec.allowNth with
      | true =>
        rw [hnth] at hrange
        refine ⟨⟨6, by simp [EntryDenotes, hnth]⟩, fun v hv => ?_⟩
        simp only [EntryDenotes, hnth, if_true] at hv
        rw [hv]
        exact hrange
      | false =>
        rw [hnth] at hrange
        obtain ⟨hmin, hmax⟩ : spec.min ≤ 28 ∧ spec.max = 31 := hrange
        refine ⟨⟨28, by simp [EntryDenotes, hnth]⟩, fun v hv => ?_⟩
        simp only [EntryDenotes, hnth, Bool.false_eq_true, if_false] at hv
        omega
    · cases hread
  · split at hread
    · split at hread
      · obtain ⟨day, hday, rfl⟩ := Option.map_eq_some_iff.mp hread
        refine ⟨⟨day, rfl⟩, fun v hv => ?_⟩
        obtain rfl : v = day := hv
        exact parseValue_within hspec hday
      · cases hread
    · split at hread
      · split at hread
        · obtain ⟨day, hday, rfl⟩ := Option.map_eq_some_iff.mp hread
          refine ⟨⟨day, rfl⟩, fun v hv => ?_⟩
          obtain rfl : v = day := hv
          exact parseValue_within hspec hday
        · cases hread
      · split at hread
        · exact readRange_denotes hspec hread
        · split at hread
          · exact readRange_denotes hspec hread
          · cases hread
        · cases hread

/-- **A field that the validator accepts** stands for values exactly if its entries can be
evaluated. -/
theorem fieldDenotes_iff (hspec : spec ∈ sixFields) (hvalid : isValidField field spec = true) :
    FieldDenotes field spec ↔ FieldEvaluable field spec := by
  unfold FieldDenotes
  by_cases hmark : field = ['?']
  · subst hmark
    refine iff_of_true (Or.inl ⟨rfl, hvalid⟩) ?_
    have hevaluable : ∀ spec ∈ sixFields, FieldEvaluable ['?'] spec := by decide
    exact hevaluable spec hspec
  · have hread := (readEntries_field_isSome hspec hmark).trans (and_iff_right hvalid)
    rw [or_iff_right fun h => hmark h.1, ← hread, readEntries_isSome]
    refine forall₂_congr fun entry _ => ?_
    constructor
    · rintro ⟨e, hread, -⟩
      rw [hread]
      rfl
    · intro hsome
      obtain ⟨e, hread⟩ := Option.isSome_iff_exists.mp hsome
      exact ⟨e, hread, readEntry_denotes hspec hread⟩

/-- The validator accepts every field of an expression that it accepts. -/
theorem isValidField_of_mem_fieldsOf (hvalid : isValidCronExpression expression = true)
    (hplain : ¬ IsMacro expression) :
    ∀ pair ∈ fieldsOf expression, pair.2 ∈ sixFields ∧ isValidField pair.1 pair.2 = true := by
  have hfive : ∀ spec ∈ fiveFields, spec ∈ sixFields := fun spec h => List.mem_cons_of_mem _ h
  unfold isValidCronExpression at hvalid
  unfold fieldsOf
  unfold IsMacro at hplain
  dsimp only at hvalid ⊢
  rw [if_neg hplain] at hvalid
  split at hvalid
  · cases hvalid
  · obtain ⟨hspecs, hfields⟩ := Bool.and_eq_true_iff.mp hvalid
    by_cases hsix : (words isSpace (strip isSpace expression)).length = 6
    · rw [if_pos hsix] at hfields ⊢
      intro pair hpair
      exact ⟨(List.of_mem_zip hpair).2, List.all_eq_true.mp hfields pair hpair⟩
    · rw [if_neg hsix] at hspecs hfields ⊢
      have hcount : (words isSpace (strip isSpace expression)).length = 5 := by
        by_contra hother
        rw [if_neg hother] at hspecs
        simp at hspecs
      rw [if_pos hcount] at hfields
      intro pair hpair
      exact ⟨hfive _ (List.of_mem_zip hpair).2, List.all_eq_true.mp hfields pair hpair⟩

/-- **An accepted expression can be evaluated**, every field of it standing for values in its
range, exactly if no range runs backwards and no last weekday is one of a day of the month. -/
theorem accepted_denotes_iff (hvalid : isValidCronExpression expression = true)
    (hplain : ¬ IsMacro expression) :
    (∀ pair ∈ fieldsOf expression, FieldDenotes pair.1 pair.2) ↔
      ∀ pair ∈ fieldsOf expression, FieldEvaluable pair.1 pair.2 := by
  refine forall₂_congr fun pair hpair => ?_
  obtain ⟨hspec, hfield⟩ := isValidField_of_mem_fieldsOf hvalid hplain pair hpair
  exact fieldDenotes_iff hspec hfield

/-- The last Friday at two. -/
theorem accepted_denotes_lastFriday : FieldDenotes "5L".toList .dayOfWeek :=
  (accepted_denotes_iff (by decide) (by unfold IsMacro; decide)).mpr
    (by decide) ("5L".toList, .dayOfWeek)
    (show _ ∈ fieldsOf "0 0 2 ? * 5L".toList by decide)

/-- A range that runs backwards is accepted. -/
theorem not_accepted_denotes_backwards :
    ¬ ∀ expression, isValidCronExpression expression = true → ¬ IsMacro expression →
      ∀ pair ∈ fieldsOf expression, FieldDenotes pair.1 pair.2 := by
  intro h
  have hdenotes := h "0 22-6 * * *".toList (by decide) (by unfold IsMacro; decide)
    ("22-6".toList, .hour) (by decide)
  rcases hdenotes with hmark | hentries
  · exact absurd hmark.1 (by decide)
  · obtain ⟨e, hread, -⟩ := hentries "22-6".toList (by decide)
    have hnone : readEntry .hour "22-6".toList = none := by decide
    rw [hnone] at hread
    cases hread

end SilenceWatch
