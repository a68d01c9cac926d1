import SilenceWatch.Schedule.CronSyntax

/-!
# The cron dialect of Quartz

Quartz counts the days of the week from Sunday = 1, and has a question mark for one of the
two fields of days. An expression of Quartz is compared with what the server takes the same
text for.
-/

namespace SilenceWatch

open Cron

namespace Quartz

/-- A field of a Quartz expression. Its names begin with the number one. -/
structure Field where
  min : ℕ
  max : ℕ
  maxStep : ℕ
  names : List (List Char) := []

namespace Field

def second : Field := { min := 0, max := 59, maxStep := 59 }
def minute : Field := { min := 0, max := 59, maxStep := 59 }
def hour : Field := { min := 0, max := 23, maxStep := 23 }
def dayOfMonth : Field := { min := 1, max := 31, maxStep := 31 }
def month : Field := { min := 1, max := 12, maxStep := 12, names := monthNames }
def dayOfWeek : Field := { min := 1, max := 7, maxStep := 7, names := dayNames }

end Field

/-- A number of a field. -/
def number? (field : Field) (token : List Char) : Option ℕ :=
  if token ≠ [] ∧ token.all Char.isDigit ∧ field.min ≤ digitsValue token ∧
      digitsValue token ≤ field.max then
    some (digitsValue token)
  else none

/-- The number of a name of a field, in any letter case. -/
def name? (field : Field) (token : List Char) : Option ℕ :=
  (field.names.idxOf? (token.map Char.toLower)).map (· + 1)

/-- A name or a number of a field. -/
def value? (field : Field) (token : List Char) : Option ℕ :=
  (name? field token).or (number? field token)

/-- A range, which may pass the end of its field: `22-2`, `NOV-FEB`. -/
def rangeEntry (field : Field) (low high step : ℕ) : Entry :=
  if low ≤ high then .run low high step
  else .around low high step (field.max + 1 - field.min)

/-- An entry of a list, with an increment or without. -/
def readListed (field : Field) (entry : List Char) : Option Entry :=
  match entry.splitOn '/' with
  | [range] =>
    if range = ['*'] then some (.run field.min field.max 1)
    else
      match range.splitOn '-' with
      | [value] => (value? field value).map fun v => .run v v 1
      | [low, high] =>
        match name? field low, name? field high, number? field low, number? field high with
        | some a, some b, _, _ => some (rangeEntry field a b 1)
        | _, _, some a, some b => some (rangeEntry field a b 1)
        | _, _, _, _ => none
      | _ => none
  | [range, step] =>
    if step ≠ [] ∧ step.all Char.isDigit ∧ 1 ≤ digitsValue step ∧
        digitsValue step ≤ field.maxStep then
      -- nothing before the increment is every value, as a star is
      if range = ['*'] ∨ range = [] then some (.run field.min field.max (digitsValue step))
      else
        match range.splitOn '-' with
        | [value] => (number? field value).map fun v => .run v field.max (digitsValue step)
        | [low, high] =>
          match number? field low, number? field high with
          | some a, some b => some (rangeEntry field a b (digitsValue step))
          | _, _ => none
        | _ => none
    else none
  | _ => none

/-- The entries of a list. -/
def readList (field : Field) : List (List Char) → Option (List Entry)
  | [] => some []
  | entry :: entries =>
    match readListed field entry, readList field entries with
    | some e, some es => some (e :: es)
    | _, _ => none

/-- The field of days of the month: the last day, one some days before it, or a list. The
nearest weekday is left out, which is never sent. -/
def readDayOfMonth (field : List Char) : Option (List Entry) :=
  if field = ['L'] then some [.last]
  else
    match field with
    | 'L' :: '-' :: days =>
      if isNumber 2 days ∧ digitsValue days ≤ 30 then some [.beforeLast (digitsValue days)]
      else none
    | _ => readList .dayOfMonth (field.splitOn ',')

/-- The entry is one that no list may have. -/
def isSpecial (entry : List Char) : Bool :=
  entry.map Char.toUpper = ['L'] || (beforeLetterL? entry).isSome || (aroundHash? entry).isSome

/-- The field of weekdays: Saturday, the last or nth given weekday of the month, or a list. -/
def readDayOfWeek (field : List Char) : Option (List Entry) :=
  if field.map Char.toUpper = ['L'] then some [.last]
  else
    match beforeLetterL? field with
    | some value => (value? .dayOfWeek value).map fun v => [.lastOf v]
    | none =>
      match aroundHash? field with
      | some (value, n) => (value? .dayOfWeek value).map fun v => [.nth v n]
      | none =>
        if (field.splitOn ',').any isSpecial then none
        else readList .dayOfWeek (field.splitOn ',')

/-- The characters of an expression. -/
def isLegal (c : Char) : Bool :=
  c.isAlphanum || ['*', '?', ',', '-', '/', '#', ' ', '\t'].contains c

/-- The schedule of a trigger, from the six fields of its expression. Exactly one of the two
fields of days is a question mark. -/
def readTable (expression : List Char) : Option Table :=
  if expression.all isLegal then
    match words (fun c => c = ' ' || c = '\t') expression with
    | [second, minute, hour, dayOfMonth, month, dayOfWeek] =>
      match readList .second (second.splitOn ','), readList .minute (minute.splitOn ','),
          readList .hour (hour.splitOn ','), readList .month (month.splitOn ',') with
      | some second, some minute, some hour, some month =>
        if dayOfMonth = ['?'] then
          (readDayOfWeek dayOfWeek).map fun days =>
            { second, minute, hour, dayOfMonth := none, month, dayOfWeek := some days }
        else if dayOfWeek = ['?'] then
          (readDayOfMonth dayOfMonth).map fun days =>
            { second, minute, hour, dayOfMonth := some days, month, dayOfWeek := none }
        else none
      | _, _, _, _ => none
    | _ => none
  else none

/-- When a trigger fires: Sunday is one. -/
abbrev Fires (t : Table) (m : Moment) : Prop := t.Fires 1 And m

variable {field : Field} {spec : FieldSpec} {token entry : List Char} {v w low high step : ℕ}
  {e e' : Entry}

/-- The field has the values of a field of the server under the same numbers. -/
structure Field.Agrees (field : Field) (spec : FieldSpec) : Prop where
  min : field.min = spec.min
  max : field.max = spec.max
  names : (field.names = [] ∧ spec.names = none) ∨
    (field.names = monthNames ∧ spec.names = some monthNames)

/-- A name has the same number for the server. -/
theorem parseValue_of_name? (h : field.Agrees spec) (hv : name? field token = some v) :
    parseValue token spec = some v := by
  obtain ⟨-, -, ⟨hnames, -⟩ | ⟨hnames, hnames'⟩⟩ := h
  · simp [name?, hnames] at hv
  · rw [name?, hnames] at hv
    obtain ⟨index, hindex, rfl⟩ := Option.map_eq_some_iff.mp hv
    simp [parseValue, hnames', hindex]

/-- What is no name has the same number for the server, if it has one. -/
theorem parseValue_of_number? (h : field.Agrees spec) (hname : name? field token = none)
    (hv : number? field token = some v) (hw : parseValue token spec = some w) : w = v := by
  have hnone : (spec.names.bind fun names => names.idxOf? (token.map Char.toLower)) = none := by
    obtain ⟨-, -, ⟨-, hnames⟩ | ⟨hnames, hnames'⟩⟩ := h
    · rw [hnames]
      rfl
    · rw [name?, hnames, Option.map_eq_none_iff] at hname
      rw [hnames']
      exact hname
  have hvalue : v = digitsValue token := by
    unfold number? at hv
    split at hv
    · exact (Option.some.inj hv).symm
    · cases hv
  simp only [parseValue, hnone] at hw
  split at hw
  · split at hw
    · rw [hvalue]
      exact (Option.some.inj hw).symm
    · cases hw
  · cases hw

/-- A value has the same number for the server, if it has one. -/
theorem parseValue_of_value? (h : field.Agrees spec) (hv : value? field token = some v)
    (hw : parseValue token spec = some w) : w = v := by
  unfold value? at hv
  cases hname : name? field token with
  | some v' =>
    rw [hname, Option.some_or] at hv
    rw [parseValue_of_name? h hname] at hw
    exact (Option.some.inj hw).symm.trans (Option.some.inj hv)
  | none =>
    rw [hname, Option.none_or] at hv
    exact parseValue_of_number? h hname hv hw

/-- A digit has no other case. -/
theorem toLower_of_isDigit {c : Char} (h : c.isDigit = true) : c.toLower = c := by
  unfold Char.toLower
  refine dif_neg fun hupper => ?_
  simp only [Char.isDigit, Bool.and_eq_true, decide_eq_true_eq, ge_iff_le,
    UInt32.le_iff_toNat_le] at h hupper
  have hnine : '9'.val.toNat < 'A'.val.toNat := by decide
  omega

/-- A text of digits is no name. -/
theorem name?_of_digits
    (hnames : field.names = [] ∨ field.names = monthNames ∨ field.names = dayNames)
    (hdigits : token.all Char.isDigit = true) : name? field token = none := by
  have hlower : token.map Char.toLower = token := by
    rw [List.all_eq_true] at hdigits
    exact (List.map_congr_left fun c hc => toLower_of_isDigit (hdigits c hc)).trans
      (List.map_id' token)
  rw [name?, hlower, Option.map_eq_none_iff, List.idxOf?_eq_none_iff]
  intro hmem
  have hletters : ∀ name ∈ field.names, name.all Char.isDigit = false := by
    rcases hnames with hnames | hnames | hnames
    · simp [hnames]
    · rw [hnames]
      decide
    · rw [hnames]
      decide
  rw [hletters token hmem] at hdigits
  cases hdigits

/-- A number is a text of digits in the field. -/
theorem number?_eq_some (hv : number? field token = some v) :
    token.all Char.isDigit = true ∧ field.min ≤ v ∧ v ≤ field.max := by
  unfold number? at hv
  split at hv
  · next h =>
    cases hv
    exact h.2
  · cases hv

/-- A number has the same number for the server, if it has one. -/
theorem parseValue_of_digits (h : field.Agrees spec) (hv : number? field token = some v)
    (hw : parseValue token spec = some w) : w = v := by
  have hname : name? field token = none := by
    refine name?_of_digits ?_ (number?_eq_some hv).1
    rcases h.names with ⟨hnames, -⟩ | ⟨hnames, -⟩
    · exact Or.inl hnames
    · exact Or.inr (Or.inl hnames)
  exact parseValue_of_number? h hname hv hw

/-- The letter of the last day is no entry of a list. -/
theorem readListed_letterL
    (hnames : field.names = [] ∨ field.names = monthNames ∨ field.names = dayNames)
    (hL : entry.map Char.toUpper = ['L']) : readListed field entry = none := by
  obtain ⟨c, rfl⟩ : ∃ c, entry = [c] :=
    List.length_eq_one_iff.mp (by simpa using congrArg List.length hL)
  have hvalue : c.isDigit = false → [c].map Char.toLower = ['l'] → value? field [c] = none := by
    intro hdigit hlower
    have hname : name? field [c] = none := by
      rw [name?, hlower, Option.map_eq_none_iff]
      rcases hnames with hnames | hnames | hnames
      · rw [hnames, List.idxOf?_nil]
      · rw [hnames]
        decide
      · rw [hnames]
        decide
    simp [value?, hname, number?, hdigit]
  rcases eq_letterL (by simpa using hL) with rfl | rfl
  · have hslash : List.splitOn '/' ['L'] = [['L']] ∧ List.splitOn '-' ['L'] = [['L']] := by decide
    simp [readListed, hslash, hvalue (by decide) (by decide)]
  · have hslash : List.splitOn '/' ['l'] = [['l']] ∧ List.splitOn '-' ['l'] = [['l']] := by decide
    simp [readListed, hslash, hvalue (by decide) (by decide)]

/-- A range is the same to the server, if it can evaluate it, where its ends are. -/
theorem readRange_of_rangeEntry {ends : List Char} {stepValue : Option ℕ} {first last : List Char}
    (hstar : ends ≠ ['*']) (hends : ends.splitOn '-' = [first, last])
    (hlow : ∀ w, parseValue first spec = some w → w = low)
    (hhigh : ∀ w, parseValue last spec = some w → w = high)
    (he' : readRange spec ends stepValue = some e') :
    e' = rangeEntry field low high (stepValue.getD 1) := by
  unfold readRange at he'
  rw [if_neg hstar, hends] at he'
  cases hfirst : parseValue first spec with
  | none => simp [hfirst] at he'
  | some a =>
    cases hlast : parseValue last spec with
    | none => simp [hfirst, hlast] at he'
    | some b =>
      obtain rfl := hlow a hfirst
      obtain rfl := hhigh b hlast
      simp only [hfirst, hlast, Option.ite_none_right_eq_some, Option.some.injEq] at he'
      rw [rangeEntry, if_pos he'.1, ← he'.2]

/-- An entry without an increment is the same to the server, if it can evaluate it. -/
theorem readRange_of_readListed (h : field.Agrees spec) (hsplit : entry.splitOn '/' = [entry])
    (he : readListed field entry = some e)
    (he' : readRange spec entry none = some e') : e' = e := by
  simp only [readListed, hsplit] at he
  by_cases hstar : entry = ['*']
  · rw [if_pos hstar] at he
    rw [readRange, if_pos hstar] at he'
    cases he
    cases he'
    rw [h.min, h.max]
    rfl
  · rw [if_neg hstar] at he
    rcases hends : entry.splitOn '-' with _ | ⟨first, _ | ⟨last, _ | ⟨more, rest⟩⟩⟩
    · rw [hends] at he
      cases he
    · rw [hends] at he
      rw [readRange, if_neg hstar, hends] at he'
      obtain ⟨v, hv, rfl⟩ := Option.map_eq_some_iff.mp he
      obtain ⟨w, hw, rfl⟩ := Option.map_eq_some_iff.mp he'
      obtain rfl := parseValue_of_value? h hv hw
      rfl
    · rw [hends] at he
      dsimp only at he
      split at he
      · next a b hfirst hlast =>
        cases he
        exact readRange_of_rangeEntry hstar hends
          (fun w hw => Option.some.inj (hw.symm.trans (parseValue_of_name? h hfirst)))
          (fun w hw => Option.some.inj (hw.symm.trans (parseValue_of_name? h hlast))) he'
      · next a b hfirst hlast _ =>
        cases he
        exact readRange_of_rangeEntry hstar hends
          (fun w hw => parseValue_of_digits h hfirst hw)
          (fun w hw => parseValue_of_digits h hlast hw) he'
      · cases he
    · rw [hends] at he
      cases he

/-- An entry with an increment is the same to the server, if it can evaluate it. -/
theorem readRange_of_increment {range stepText : List Char} (h : field.Agrees spec)
    (hspec : parseValue [] spec = none)
    (hsplit : entry.splitOn '/' = [range, stepText]) (he : readListed field entry = some e)
    (he' : readRange spec range (some (digitsValue stepText)) = some e') : e' = e := by
  simp only [readListed, hsplit] at he
  split at he
  · by_cases hstar : range = ['*']
    · rw [if_pos (Or.inl hstar)] at he
      rw [readRange, if_pos hstar] at he'
      cases he
      cases he'
      rw [h.min, h.max]
      rfl
    · have hnil : range ≠ [] := by
        rintro rfl
        simp [readRange, hspec] at he'
      rw [if_neg (by simp [hstar, hnil])] at he
      rcases hends : range.splitOn '-' with _ | ⟨first, _ | ⟨last, _ | ⟨more, rest⟩⟩⟩
      · rw [hends] at he
        cases he
      · rw [hends] at he
        rw [readRange, if_neg hstar, hends] at he'
        obtain ⟨v, hv, rfl⟩ := Option.map_eq_some_iff.mp he
        obtain ⟨w, hw, rfl⟩ := Option.map_eq_some_iff.mp he'
        obtain rfl := parseValue_of_digits h hv hw
        rw [h.max]
        rfl
      · rw [hends] at he
        dsimp only at he
        split at he
        · next a b hfirst hlast =>
          cases he
          exact readRange_of_rangeEntry hstar hends
            (fun w hw => parseValue_of_digits h hfirst hw)
            (fun w hw => parseValue_of_digits h hlast hw) he'
        · cases he
      · rw [hends] at he
        cases he
  · cases he

/-- **An entry of a list** is the same to the server, if it can evaluate it, where the values
have the same numbers. -/
theorem readEntry_of_readListed (h : field.Agrees spec) (hspec : spec ∈ sixFields)
    (hnth : spec.allowNth = false) (he : readListed field entry = some e)
    (he' : readEntry spec entry = some e') : e' = e := by
  have hnames : field.names = [] ∨ field.names = monthNames ∨ field.names = dayNames := by
    rcases h.names with ⟨hnames, -⟩ | ⟨hnames, -⟩
    · exact Or.inl hnames
    · exact Or.inr (Or.inl hnames)
  have hL : entry.map Char.toUpper ≠ ['L'] := by
    intro hL
    rw [readListed_letterL hnames hL] at he
    cases he
  unfold readEntry at he'
  rw [if_neg hL] at he'
  cases hletter : beforeLetterL? entry with
  | some value => simp [hletter, hnth] at he'
  | none =>
    cases hhash : aroundHash? entry with
    | some pair => simp [hletter, hhash, hnth] at he'
    | none =>
      simp only [hletter, hhash] at he'
      rcases hsplit : entry.splitOn '/' with _ | ⟨range, _ | ⟨stepText, _ | ⟨more, rest⟩⟩⟩
      · simp [hsplit] at he'
      · obtain rfl : range = entry := by
          have hjoin := congrArg ['/'].intercalate hsplit
          rw [List.intercalate_splitOn] at hjoin
          simpa using hjoin.symm
        simp only [hsplit] at he'
        exact readRange_of_readListed h hsplit he he'
      · simp only [hsplit, Option.ite_none_right_eq_some] at he'
        exact readRange_of_increment h (sixFields_spec hspec).2 hsplit he he'.2
      · simp [hsplit] at he'

/-- A list is the same to the server, if it can evaluate it, where the values have the same
numbers. -/
theorem readEntries_of_readList {entries : List (List Char)} {es es' : List Entry}
    (h : field.Agrees spec) (hspec : spec ∈ sixFields) (hnth : spec.allowNth = false)
    (hes : readList field entries = some es) (hes' : readEntries spec entries = some es') :
    es' = es := by
  induction entries generalizing es es' with
  | nil =>
    cases hes
    cases hes'
    rfl
  | cons entry entries ih =>
    simp only [readList] at hes
    simp only [readEntries] at hes'
    split at hes
    · next e es he hrest =>
      split at hes'
      · next e' es' he' hrest' =>
        cases hes
        cases hes'
        rw [readEntry_of_readListed h hspec hnth he he', ih hrest hrest']
      · cases hes'
    · cases hes

/-- The names of a field are numbers of it. -/
structure Field.Sound (field : Field) : Prop where
  min_le : field.min ≤ field.max
  names : field.names = [] ∨ (field.min = 1 ∧ field.names.length ≤ field.max)

/-- A name is a number of its field. -/
theorem name?_mem (h : field.Sound) (hv : name? field token = some v) :
    field.min ≤ v ∧ v ≤ field.max := by
  obtain ⟨index, hindex, rfl⟩ := Option.map_eq_some_iff.mp hv
  rcases h.names with hnames | ⟨hmin, hlength⟩
  · rw [hnames, List.idxOf?_nil] at hindex
    cases hindex
  · have hlt : index < field.names.length := (List.idxOf?_eq_some_iff.mp hindex).1
    omega

/-- A value is a number of its field. -/
theorem value?_mem (h : field.Sound) (hv : value? field token = some v) :
    field.min ≤ v ∧ v ≤ field.max := by
  unfold value? at hv
  cases hname : name? field token with
  | some w =>
    rw [hname, Option.some_or] at hv
    cases hv
    exact name?_mem h hname
  | none =>
    rw [hname, Option.none_or] at hv
    exact (number?_eq_some hv).2

/-- An entry that admits some value of the field, at all times of the month. -/
structure Plain (field : Field) (e : Entry) : Prop where
  within : ∀ date, e.Within date
  admits : ∃ v, field.min ≤ v ∧ v ≤ field.max ∧ e.Matches v

/-- A run admits its first value. -/
theorem plain_run (hlow : field.min ≤ low ∧ low ≤ field.max) (hle : low ≤ high) :
    Plain field (.run low high step) :=
  ⟨fun _ => trivial, low, hlow.1, hlow.2, Nat.le_refl low, hle, by simp⟩

/-- A range admits its first value. -/
theorem plain_rangeEntry (hlow : field.min ≤ low ∧ low ≤ field.max) :
    Plain field (rangeEntry field low high step) := by
  unfold rangeEntry
  split
  · next hle => exact plain_run hlow hle
  · refine ⟨fun _ => trivial, low, hlow.1, hlow.2, ?_⟩
    simp [Entry.Matches]

/-- The entries of a list admit values of their field. -/
theorem plain_of_readListed (h : field.Sound) (he : readListed field entry = some e) :
    Plain field e := by
  have hstar (step : ℕ) : Plain field (.run field.min field.max step) :=
    plain_run ⟨Nat.le_refl _, h.min_le⟩ h.min_le
  unfold readListed at he
  split at he
  · split at he
    · cases he
      exact hstar 1
    · split at he
      · obtain ⟨v, hv, rfl⟩ := Option.map_eq_some_iff.mp he
        exact plain_run (value?_mem h hv) (Nat.le_refl v)
      · split at he
        · next a b hfirst _ =>
          cases he
          exact plain_rangeEntry (name?_mem h hfirst)
        · next a b hfirst _ _ =>
          cases he
          exact plain_rangeEntry (number?_eq_some hfirst).2
        · cases he
      · cases he
  · split at he
    · split at he
      · cases he
        exact hstar _
      · split at he
        · obtain ⟨v, hv, rfl⟩ := Option.map_eq_some_iff.mp he
          exact plain_run (number?_eq_some hv).2 (number?_eq_some hv).2.2
        · split at he
          · next a b hfirst _ =>
            cases he
            exact plain_rangeEntry (number?_eq_some hfirst).2
          · cases he
        · cases he
    · cases he
  · cases he

/-- So does every list, which has entries. -/
theorem plain_of_readList {entries : List (List Char)} {es : List Entry} (h : field.Sound)
    (hes : readList field entries = some es) :
    (∀ e ∈ es, Plain field e) ∧ (entries ≠ [] → es ≠ []) := by
  induction entries generalizing es with
  | nil =>
    cases hes
    simp
  | cons entry entries ih =>
    simp only [readList] at hes
    split at hes
    · next e es he hrest =>
      cases hes
      refine ⟨fun e' he' => ?_, fun _ => by simp⟩
      rcases List.mem_cons.mp he' with rfl | hlater
      · exact plain_of_readListed h he
      · exact (ih hrest).1 e' hlater
    · cases hes

/-- What the server takes a range for is at all times of the month. -/
theorem within_of_readRange {ends : List Char} {stepValue : Option ℕ}
    (he' : readRange spec ends stepValue = some e') (date : Date) : e'.Within date := by
  unfold readRange at he'
  split at he'
  · cases he'
    trivial
  · split at he'
    · obtain ⟨v, -, rfl⟩ := Option.map_eq_some_iff.mp he'
      trivial
    · split at he'
      · split at he'
        · cases he'
          trivial
        · cases he'
      · cases he'
    · cases he'

/-- An entry that is not special is one at all times of the month to the server. -/
theorem within_of_readEntry (hspecial : isSpecial entry = false)
    (he' : readEntry spec entry = some e') (date : Date) : e'.Within date := by
  simp only [isSpecial, Bool.or_eq_false_iff, decide_eq_false_iff_not, Option.isSome_eq_false_iff,
    Option.isNone_iff_eq_none] at hspecial
  obtain ⟨⟨hL, hletter⟩, hhash⟩ := hspecial
  simp only [readEntry, if_neg hL, hletter, hhash] at he'
  split at he'
  · exact within_of_readRange he' date
  · split at he'
    · exact within_of_readRange he' date
    · cases he'
  · cases he'

/-- Names and numbers have no commas. -/
theorem comma_notMem_of_value?
    (hnames : field.names = [] ∨ field.names = monthNames ∨ field.names = dayNames)
    (hv : value? field token = some v) : ',' ∉ token := by
  intro hmem
  unfold value? at hv
  cases hname : name? field token with
  | some w =>
    obtain ⟨index, hindex, -⟩ := Option.map_eq_some_iff.mp hname
    have hlowered : token.map Char.toLower ∈ field.names :=
      List.isSome_idxOf?.mp (by rw [hindex]; rfl)
    have hcomma : ',' ∈ token.map Char.toLower := List.mem_map.mpr ⟨',', hmem, by decide⟩
    have hletters : ∀ name ∈ field.names, ',' ∉ name := by
      rcases hnames with hnames | hnames | hnames
      · simp [hnames]
      · rw [hnames]
        decide
      · rw [hnames]
        decide
    exact hletters _ hlowered hcomma
  | none =>
    rw [hname, Option.none_or] at hv
    have hdigits := List.all_eq_true.mp (number?_eq_some hv).1 ',' hmem
    revert hdigits
    decide

/-- The six fields. -/
theorem fields_sound :
    Field.second.Sound ∧ Field.minute.Sound ∧ Field.hour.Sound ∧ Field.dayOfMonth.Sound ∧
      Field.month.Sound ∧ Field.dayOfWeek.Sound :=
  ⟨⟨by decide, Or.inl rfl⟩, ⟨by decide, Or.inl rfl⟩, ⟨by decide, Or.inl rfl⟩,
    ⟨by decide, Or.inl rfl⟩, ⟨by decide, Or.inr (by decide)⟩, ⟨by decide, Or.inr (by decide)⟩⟩

/-- The days of the month, which the server counts as well. -/
theorem agrees_dayOfMonth : Field.Agrees .dayOfMonth .dayOfMonth := ⟨rfl, rfl, Or.inl ⟨rfl, rfl⟩⟩

/-- A text of digits has digits only. -/
theorem notMem_of_digits {c : Char} (hdigits : token.all Char.isDigit = true)
    (hc : c.isDigit = false) : c ∉ token := by
  intro hmem
  rw [List.all_eq_true.mp hdigits c hmem] at hc
  cases hc

/-- The server refuses to count back from the last day of the month. -/
theorem readEntry_beforeLast {days : List Char} (hdays : isNumber 2 days = true) :
    readEntry .dayOfMonth ('L' :: '-' :: days) = none := by
  have hdigits : days.all Char.isDigit = true := by
    simp only [isNumber, Bool.and_eq_true] at hdays
    exact hdays.2
  have hslash : List.splitOn '/' ('L' :: '-' :: days) = ['L' :: '-' :: days] := by
    refine List.splitOn_eq_singleton ?_
    simp [notMem_of_digits hdigits (show '/'.isDigit = false by decide)]
  have hdash : List.splitOn '-' ('L' :: '-' :: days) = ['L'] :: [days] := by
    have happend := List.splitOn_append_cons_self (a := '-') ['L'] days
    rw [List.splitOn_eq_singleton (notMem_of_digits hdigits (by decide))] at happend
    exact happend
  have hletter : parseValue ['L'] .dayOfMonth = none := by decide
  unfold readEntry
  rw [if_neg (by simp)]
  cases beforeLetterL? ('L' :: '-' :: days) with
  | some value => rfl
  | none =>
    cases aroundHash? ('L' :: '-' :: days) with
    | some pair => rfl
    | none => simp [hslash, readRange, hdash, hletter]

/-- **Days of the month** are the same to the server, if it can evaluate them. -/
theorem onDay_of_readDayOfMonth {text : List Char} {es : List Entry} {days : Option (List Entry)}
    (hes : readDayOfMonth text = some es) (hdays : readDays .dayOfMonth text = some days)
    (date : Date) :
    (∃ e ∈ es, e.OnDay date) ↔ ∀ es' ∈ days, ∃ e ∈ es', e.OnDay date := by
  have hlist : readList .dayOfMonth (text.splitOn ',') = some es →
      ((∃ e ∈ es, e.OnDay date) ↔ ∀ es' ∈ days, ∃ e ∈ es', e.OnDay date) := by
    intro hlist
    unfold readDays at hdays
    split at hdays
    · next hall =>
      cases hdays
      rcases hall with rfl | rfl
      · have hnone : readList .dayOfMonth (List.splitOn ',' ['?']) = none := by decide
        rw [hnone] at hlist
        cases hlist
      · have hstar : readList .dayOfMonth (List.splitOn ',' ['*']) = some [.run 1 31 1] := by
          decide
        rw [hstar] at hlist
        cases hlist
        have hday := date.day_mem
        have hlast := daysInMonth_le date.year date.month
        simp [Entry.OnDay, Entry.Matches, Nat.mod_one]
        omega
    · obtain ⟨es', hes', rfl⟩ := Option.map_eq_some_iff.mp hdays
      obtain rfl := readEntries_of_readList agrees_dayOfMonth (by decide) rfl hlist hes'
      simp
  unfold readDayOfMonth at hes
  split at hes
  · next hL =>
    cases hes
    subst hL
    have hlast : readDays .dayOfMonth ['L'] = some (some [.last]) := by decide
    rw [hlast] at hdays
    cases hdays
    simp
  · split at hes
    · next _ back _ =>
      simp only [Option.ite_none_right_eq_some] at hes
      have hcomma : List.splitOn ',' ('L' :: '-' :: back) = ['L' :: '-' :: back] := by
        refine List.splitOn_eq_singleton ?_
        have hdigits := hes.1.1
        simp only [isNumber, Bool.and_eq_true] at hdigits
        simp [notMem_of_digits hdigits.2 (show ','.isDigit = false by decide)]
      simp [readDays, hcomma, readEntries, readEntry_beforeLast hes.1.1] at hdays
    · exact hlist hes

/-- Names and numbers of weekdays have no commas. -/
theorem splitOn_weekday {value : List Char} {v : ℕ} (rest : List Char)
    (hv : value? .dayOfWeek value = some v) (hrest : ',' ∉ rest) :
    (value ++ rest).splitOn ',' = [value ++ rest] := by
  refine List.splitOn_eq_singleton fun hmem => ?_
  rcases List.mem_append.mp hmem with hmem | hmem
  · exact comma_notMem_of_value? (Or.inr (Or.inr rfl)) hv hmem
  · exact hrest hmem

/-- An entry without commas is read alone. -/
theorem readEntry_of_readEntries {text : List Char} {es' : List Entry}
    (hsplit : text.splitOn ',' = [text]) (hes' : readEntries spec (text.splitOn ',') = some es') :
    ∃ e', readEntry spec text = some e' ∧ es' = [e'] := by
  rw [hsplit] at hes'
  simp only [readEntries] at hes'
  cases he' : readEntry spec text with
  | none => simp [he'] at hes'
  | some e' =>
    rw [he'] at hes'
    exact ⟨e', rfl, (Option.some.inj hes').symm⟩

/-- The last weekday of the month is one to the server. -/
theorem readEntry_of_beforeLetterL? {value : List Char} (hspec : spec.allowNth = true)
    (hletter : beforeLetterL? entry = some value) (he' : readEntry spec entry = some e') :
    ∃ w, e' = .lastOf w := by
  have hL : entry.map Char.toUpper ≠ ['L'] := by
    intro hL
    obtain ⟨c, rfl⟩ : ∃ c, entry = [c] :=
      List.length_eq_one_iff.mp (by simpa using congrArg List.length hL)
    simp [beforeLetterL?] at hletter
  simp only [readEntry, if_neg hL, hletter, if_pos hspec] at he'
  obtain ⟨w, -, rfl⟩ := Option.map_eq_some_iff.mp he'
  exact ⟨w, rfl⟩

/-- So is the nth weekday of the month. -/
theorem readEntry_of_aroundHash? {value : List Char} {n : ℕ} (hspec : spec.allowNth = true)
    (hletter : beforeLetterL? entry = none) (hhash : aroundHash? entry = some (value, n))
    (he' : readEntry spec entry = some e') : ∃ w, e' = .nth w n := by
  have hL : entry.map Char.toUpper ≠ ['L'] := by
    intro hL
    obtain ⟨c, rfl⟩ : ∃ c, entry = [c] :=
      List.length_eq_one_iff.mp (by simpa using congrArg List.length hL)
    simp [aroundHash?] at hhash
  simp only [readEntry, if_neg hL, hletter, hhash, if_pos hspec] at he'
  obtain ⟨w, -, rfl⟩ := Option.map_eq_some_iff.mp he'
  exact ⟨w, rfl⟩

/-- **Weekdays** are read for the same times of the month by the server. -/
theorem within_of_readDayOfWeek {text : List Char} {es es' : List Entry}
    (hes : readDayOfWeek text = some es)
    (hes' : readEntries .dayOfWeek (text.splitOn ',') = some es') :
    ∃ k : Entry, (∀ v n, k = .nth v n → 1 ≤ n ∧ n ≤ 5) ∧
      (∀ e ∈ es, ∀ date, e.Within date ↔ k.Within date) ∧
      ∀ e ∈ es', ∀ date, e.Within date ↔ k.Within date := by
  unfold readDayOfWeek at hes
  split at hes
  · next hL =>
    cases hes
    obtain ⟨c, rfl⟩ : ∃ c, text = [c] :=
      List.length_eq_one_iff.mp (by simpa using congrArg List.length hL)
    have hcomma : ',' ∉ [c] := by
      rintro hmem
      obtain rfl := List.mem_singleton.mp hmem
      revert hL
      decide
    obtain ⟨e', he', rfl⟩ := readEntry_of_readEntries (List.splitOn_eq_singleton hcomma) hes'
    have hlast : readEntry .dayOfWeek [c] = some .last := by
      simp [readEntry, hL, FieldSpec.dayOfWeek]
    obtain rfl := Option.some.inj (hlast.symm.trans he')
    exact ⟨.last, by simp, by simp, by simp⟩
  · split at hes
    · next value hletter =>
      obtain ⟨c, hc, rfl⟩ := eq_of_beforeLetterL? hletter
      obtain ⟨v, hv, rfl⟩ := Option.map_eq_some_iff.mp hes
      have hsplit := splitOn_weekday [c] hv (by rcases hc with rfl | rfl <;> decide)
      obtain ⟨e', he', rfl⟩ := readEntry_of_readEntries hsplit hes'
      obtain ⟨w, rfl⟩ := readEntry_of_beforeLetterL? rfl hletter he'
      refine ⟨.lastOf v, by simp, by simp, ?_⟩
      simp [Entry.Within]
    · next hletter =>
      split at hes
      · next value n hhash =>
        obtain ⟨hn, c, hc, rfl⟩ := eq_of_aroundHash? hhash
        obtain ⟨v, hv, rfl⟩ := Option.map_eq_some_iff.mp hes
        have hsplit := splitOn_weekday ['#', c] hv (by simpa using Ne.symm hc)
        obtain ⟨e', he', rfl⟩ := readEntry_of_readEntries hsplit hes'
        obtain ⟨w, rfl⟩ := readEntry_of_aroundHash? rfl hletter hhash he'
        refine ⟨.nth v n, ?_, by simp, by simp [Entry.Within]⟩
        intro v' n' heq
        cases heq
        exact hn
      · split at hes
        · cases hes
        · next hspecial =>
          refine ⟨.last, by simp, fun e he date => ?_, fun e' he' date => ?_⟩
          · exact iff_of_true (((plain_of_readList fields_sound.2.2.2.2.2 hes).1 e he).within date)
              trivial
          · obtain ⟨entry, hentry, hread⟩ := mem_of_readEntries hes' he'
            have hplain : isSpecial entry = false := by
              simpa using fun h => hspecial (List.any_eq_true.mpr ⟨entry, hentry, h⟩)
            exact iff_of_true (within_of_readEntry hplain hread date) trivial

/-- What a trigger's expression is read from. -/
theorem readTable_eq_some {expression : List Char} {t : Table}
    (ht : readTable expression = some t) :
    (∀ c ∈ expression, isLegal c = true) ∧
      ∃ second minute hour dayOfMonth month dayOfWeek,
        words (fun c => c = ' ' || c = '\t') expression =
          [second, minute, hour, dayOfMonth, month, dayOfWeek] ∧
        (readList .second (second.splitOn ',') = some t.second ∧
          readList .minute (minute.splitOn ',') = some t.minute ∧
          readList .hour (hour.splitOn ',') = some t.hour ∧
          readList .month (month.splitOn ',') = some t.month) ∧
        (dayOfMonth = ['?'] ∧ t.dayOfMonth = none ∧
            (∃ days, readDayOfWeek dayOfWeek = some days ∧ t.dayOfWeek = some days) ∨
          dayOfWeek = ['?'] ∧ t.dayOfWeek = none ∧
            ∃ days, readDayOfMonth dayOfMonth = some days ∧ t.dayOfMonth = some days) := by
  unfold readTable at ht
  split at ht
  · next hlegal =>
    refine ⟨List.all_eq_true.mp hlegal, ?_⟩
    split at ht
    · next second minute hour dayOfMonth month dayOfWeek hwords =>
      refine ⟨second, minute, hour, dayOfMonth, month, dayOfWeek, hwords, ?_⟩
      split at ht
      · next hsecond hminute hhour hmonth =>
        split at ht
        · next hmark =>
          obtain ⟨days, hdays, rfl⟩ := Option.map_eq_some_iff.mp ht
          exact ⟨⟨hsecond, hminute, hhour, hmonth⟩, Or.inl ⟨hmark, rfl, days, hdays, rfl⟩⟩
        · split at ht
          · next hmark =>
            obtain ⟨days, hdays, rfl⟩ := Option.map_eq_some_iff.mp ht
            exact ⟨⟨hsecond, hminute, hhour, hmonth⟩, Or.inr ⟨hmark, rfl, days, hdays, rfl⟩⟩
          · cases ht
      · cases ht
    · cases ht
  · cases ht

/-- Only the characters of expressions that separate their fields are white space. -/
theorem isSpace_of_isLegal {c : Char} (h : isLegal c = true) :
    isSpace c = (c = ' ' || c = '\t') ∧ c ≠ '@' := by
  simp only [isLegal, Bool.or_eq_true, List.contains_iff_mem] at h
  rcases h with h | h
  · obtain ⟨hspace, hat⟩ := isSpace_of_isAlphanum h
    refine ⟨?_, hat⟩
    have hblank : c ≠ ' ' ∧ c ≠ '\t' := by
      refine ⟨?_, ?_⟩
      · rintro rfl
        revert hspace
        decide
      · rintro rfl
        revert hspace
        decide
    simp [hspace, hblank]
  · have hall : ['*', '?', ',', '-', '/', '#', ' ', '\t'].all (fun c =>
        isSpace c = (c = ' ' || c = '\t') && c ≠ '@') = true := by
      decide
    simpa using List.all_eq_true.mp hall c h

/-- A trigger has times of day, and months. -/
theorem listed_of_readList {text : List Char} {es : List Entry} (h : field.Sound)
    (hes : readList field (text.splitOn ',') = some es) :
    ∃ v, field.min ≤ v ∧ v ≤ field.max ∧ Listed es v := by
  obtain ⟨hplain, hne⟩ := plain_of_readList h hes
  obtain ⟨e, he⟩ := List.exists_mem_of_ne_nil es (hne (List.splitOn_ne_nil ',' text))
  obtain ⟨v, hmin, hmax, hmatches⟩ := (hplain e he).admits
  exact ⟨v, hmin, hmax, e, he, hmatches⟩

/-- The weekday field names the same days whether its numbers count Sunday as zero or as
one. -/
def WeekdaysAgree (text : List Char) : Prop :=
  text = ['?'] ∨ ∀ d < 7,
    (∃ e ∈ (SilenceWatch.readEntries .dayOfWeek (text.splitOn ',')).getD [], e.NamesDay 0 d) ↔
      ∃ e ∈ (readDayOfWeek text).getD [], e.NamesDay 1 d

instance (text : List Char) : Decidable (WeekdaysAgree text) := inferInstanceAs (Decidable (_ ∨ _))

/-- **Weekdays** are the same to the server in some month exactly if its numbers name the same
days. -/
theorem onWeekday_of_readDayOfWeek {text : List Char} {es : List Entry}
    {days : Option (List Entry)} {month : ℕ} (hmonth : 1 ≤ month ∧ month ≤ 12)
    (hes : readDayOfWeek text = some es) (hdays : readDays .dayOfWeek text = some days) :
    (∀ date : Date, date.month = month →
        ((∀ es' ∈ days, ∃ e ∈ es', e.OnWeekday 0 date) ↔ ∃ e ∈ es, e.OnWeekday 1 date)) ↔
      WeekdaysAgree text := by
  have hmark : text ≠ ['?'] := by
    rintro rfl
    have hnone : readDayOfWeek ['?'] = none := by decide
    rw [hnone] at hes
    cases hes
  rw [WeekdaysAgree, or_iff_right hmark, hes, Option.getD_some]
  by_cases hstar : text = ['*']
  · subst hstar
    have hstar : readDayOfWeek ['*'] = some [.run 1 7 1] := by decide
    have hfree : readDays .dayOfWeek ['*'] = some none := by decide
    have hall : ∀ d < 7, (Entry.run 1 7 1).NamesDay 1 d := by decide
    rw [hstar] at hes
    rw [hfree] at hdays
    cases hes
    cases hdays
    refine iff_of_true (fun date _ => ?_) (by decide)
    simp [Entry.OnWeekday, Entry.Within, hall date.weekday date.weekday_lt]
  · unfold readDays at hdays
    rw [if_neg (by simp [hmark, hstar])] at hdays
    obtain ⟨es', hes', rfl⟩ := Option.map_eq_some_iff.mp hdays
    obtain ⟨k, hk, hwithin, hwithin'⟩ := within_of_readDayOfWeek hes hes'
    rw [hes', Option.getD_some, ← onWeekday_iff k hk hmonth hwithin hwithin']
    simp

/-- A trigger has times of day. -/
theorem hasTimes_of_readList {second minute hour : List Char} {t : Table}
    (hsecond : readList .second (second.splitOn ',') = some t.second)
    (hminute : readList .minute (minute.splitOn ',') = some t.minute)
    (hhour : readList .hour (hour.splitOn ',') = some t.hour) : t.HasTimes := by
  obtain ⟨s, -, hs, hlisted⟩ := listed_of_readList fields_sound.1 hsecond
  obtain ⟨m, -, hm, hlisted'⟩ := listed_of_readList fields_sound.2.1 hminute
  obtain ⟨h, -, hh, hlisted''⟩ := listed_of_readList fields_sound.2.2.1 hhour
  exact ⟨⟨s, Nat.lt_succ_of_le hs, hlisted⟩, ⟨m, Nat.lt_succ_of_le hm, hlisted'⟩,
    ⟨h, Nat.lt_succ_of_le hh, hlisted''⟩⟩

/-- The expression that the server reads has the schedule of the trigger exactly if the
weekdays are the same. -/
theorem serverFires_iff {expression : List Char} {t t' : Table}
    (ht : Quartz.readTable expression = some t)
    (ht' : SilenceWatch.readTable expression = some t') :
    (∀ m, ServerFires t' m ↔ Fires t m) ↔
      ∀ text ∈ (words isSpace expression)[5]?, WeekdaysAgree text := by
  obtain ⟨hlegal, second, minute, hour, dayOfMonth, month, dayOfWeek, hwords,
    ⟨hsecond, hminute, hhour, hmonth⟩, hdays⟩ := readTable_eq_some ht
  have hwords' := (words_congr fun c hc => (isSpace_of_isLegal (hlegal c hc)).1).trans hwords
  have hfields : readFields second minute hour dayOfMonth month dayOfWeek = some t' := by
    unfold SilenceWatch.readTable at ht'
    simp only [words_strip, hwords'] at ht'
    split at ht'
    · cases ht'
    · exact ht'
  obtain ⟨⟨hsecond', hminute', hhour', hmonth'⟩, hdom', hdow'⟩ := readFields_eq_some hfields
  have hfires : (∀ m, ServerFires t' m ↔ Fires t m) ↔ ∀ date : Date, Listed t.month date.month →
      (t'.OnDate 0 Or date ↔ t.OnDate 1 And date) :=
    Table.fires_iff (hasTimes_of_readList hsecond hminute hhour)
    (readEntries_of_readList ⟨rfl, rfl, Or.inl ⟨rfl, rfl⟩⟩ (by decide) rfl hsecond hsecond')
    (readEntries_of_readList ⟨rfl, rfl, Or.inl ⟨rfl, rfl⟩⟩ (by decide) rfl hminute hminute')
    (readEntries_of_readList ⟨rfl, rfl, Or.inl ⟨rfl, rfl⟩⟩ (by decide) rfl hhour hhour')
    (readEntries_of_readList ⟨rfl, rfl, Or.inr ⟨rfl, rfl⟩⟩ (by decide) rfl hmonth hmonth')
  have hfifth : (∀ text ∈ (words isSpace expression)[5]?, WeekdaysAgree text) ↔
      WeekdaysAgree dayOfWeek := by
    simp [hwords']
  rw [hfires, hfifth]
  rcases hdays with ⟨rfl, hnone, es, hes, hdow⟩ | ⟨rfl, hnone, es, hes, hdom⟩
  · have hnone' : t'.dayOfMonth = none := by
      have hmark : readDays .dayOfMonth ['?'] = some none := by decide
      exact Option.some.inj (hdom'.symm.trans hmark)
    simp only [Table.onDate_of_dayOfMonth_none hnone, Table.onDate_of_dayOfMonth_none hnone',
      hdow, Option.mem_some_iff, forall_eq']
    obtain ⟨v, hv⟩ := listed_of_readList fields_sound.2.2.2.2.1 hmonth
    constructor
    · intro h
      refine (onWeekday_of_readDayOfWeek ⟨hv.1, hv.2.1⟩ hes hdow').mp fun date hdate => ?_
      exact h date (hdate ▸ hv.2.2)
    · intro hagree date _
      exact (onWeekday_of_readDayOfWeek date.month_mem hes hdow').mpr hagree date rfl
  · have hnone' : t'.dayOfWeek = none := by
      have hmark : readDays .dayOfWeek ['?'] = some none := by decide
      exact Option.some.inj (hdow'.symm.trans hmark)
    simp only [Table.onDate_of_dayOfWeek_none hnone, Table.onDate_of_dayOfWeek_none hnone',
      hdom, Option.mem_some_iff, forall_eq']
    refine iff_of_true (fun date _ => ?_) (Or.inl rfl)
    exact (onDay_of_readDayOfMonth hes hdom' date).symm

/-- **A text keeps its schedule** exactly if the server accepts it, no range runs backwards,
and the weekdays are the same under both numbers of Sunday. -/
theorem readTable_serverFires_iff {expression : List Char} {t : Table}
    (ht : Quartz.readTable expression = some t) :
    (∃ t', SilenceWatch.readTable expression = some t' ∧ ∀ m, ServerFires t' m ↔ Fires t m) ↔
      isValidCronExpression expression = true ∧
        (∀ pair ∈ (words isSpace expression).zip sixFields, FieldEvaluable pair.1 pair.2) ∧
        ∀ text ∈ (words isSpace expression)[5]?, WeekdaysAgree text := by
  obtain ⟨hlegal, second, minute, hour, dayOfMonth, month, dayOfWeek, hwords, -⟩ :=
    readTable_eq_some ht
  have hwords' := (words_congr fun c hc => (isSpace_of_isLegal (hlegal c hc)).1).trans hwords
  have hread := readTable_isSome hwords' fun hat => (isSpace_of_isLegal (hlegal '@' hat)).2 rfl
  rw [← and_assoc, hwords', ← hread, ← hwords']
  cases ht' : SilenceWatch.readTable expression with
  | none => simp
  | some t' => simp [serverFires_iff ht ht']

end Quartz

end SilenceWatch
