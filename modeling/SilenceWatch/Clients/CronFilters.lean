import SilenceWatch.Clients.Drifts
import SilenceWatch.Clients.Expressible

/-!
# What the client libraries let through

The filters of the client libraries keep back expressions that they know the server refuses.
For each scheduler: which of the expressions that its filter lets through the server accepts.
-/

namespace SilenceWatch

open Dialect

/-- `\d+W|LW`, in any letter case: the nearest weekday. -/
def hasNearestWeekday (expression : List Char) : Bool :=
  let upper := expression.map Char.toUpper
  hasPair Char.isDigit (· == 'W') upper || hasPair (· == 'L') (· == 'W') upper

/-- White space of Python's `strip` and `split`. -/
def isPythonSpace (c : Char) : Bool :=
  [9, 10, 11, 12, 13, 28, 29, 30, 31, 32, 0x85, 160, 0x1680, 0x2028, 0x2029, 0x202f, 0x205f,
      0x3000].contains c.toNat ||
    (0x2000 ≤ c.toNat && c.toNat ≤ 0x200a)

/-- `is_supported` of the Python client. -/
def isSupported (expression : Option (List Char)) : Bool :=
  match expression with
  | none => false
  | some expression =>
    let trimmed := strip isPythonSpace expression
    if trimmed = [] then false
    else if trimmed.head? = some '@' then cronMacros.contains (trimmed.map Char.toLower)
    else
      let fields := (words isPythonSpace trimmed).length
      if fields ≠ 5 ∧ fields ≠ 6 then false else !hasNearestWeekday trimmed

/-- White space of a PHP pattern. -/
def isPhpSpace (c : Char) : Bool := isPatternSpace c

/-- `preg_split`, on runs of separators: what stands before the first one and after the last
one is a piece, even if it is empty. -/
def pregSplit (isSeparator : Char → Bool) (text : List Char) : List (List Char) :=
  match text.splitOnP isSeparator with
  | [] => []
  | first :: rest => first :: rest.dropLast.filter (· ≠ []) ++ rest.getLast?.toList

/-- `ScheduleReader::isSupported`. -/
def ScheduleReader.isSupported (cron : List Char) : Bool :=
  -- `trim` leaves the form feed, and drops the null character
  let fields := pregSplit isPhpSpace (strip (fun c => [0, 9, 10, 11, 13, 32].contains c.toNat) cron)
  fields.length == 5 && !hasNearestWeekday cron

section Pairs

variable {first second : Char → Bool} {text part : List Char}

/-- What a pair in a text is. -/
theorem hasPair_iff : hasPair first second text = true ↔ ∃ before a b after,
    text = before ++ a :: b :: after ∧ first a = true ∧ second b = true := by
  induction text with
  | nil => simp [hasPair]
  | cons c text ih =>
    cases text with
    | nil =>
      refine iff_of_false Bool.false_ne_true ?_
      rintro ⟨before, a, b, after, htext, -⟩
      have hlength := congrArg List.length htext
      simp at hlength
      omega
    | cons d text =>
      rw [hasPair, Bool.or_eq_true, Bool.and_eq_true, ih]
      constructor
      · rintro (⟨hc, hd⟩ | ⟨before, a, b, after, htext, ha, hb⟩)
        · exact ⟨[], c, d, text, rfl, hc, hd⟩
        · exact ⟨c :: before, a, b, after, by rw [htext, List.cons_append], ha, hb⟩
      · rintro ⟨before, a, b, after, htext, ha, hb⟩
        cases before with
        | nil =>
          cases htext
          exact Or.inl ⟨ha, hb⟩
        | cons c' before =>
          rw [List.cons_append, List.cons.injEq] at htext
          exact Or.inr ⟨before, a, b, after, htext.2, ha, hb⟩

/-- A pair in a part of a text is one in the text. -/
theorem hasPair_of_isInfix (hpart : part <:+: text) (h : hasPair first second part = true) :
    hasPair first second text = true := by
  obtain ⟨front, back, rfl⟩ := hpart
  obtain ⟨before, a, b, after, rfl, ha, hb⟩ := hasPair_iff.mp h
  exact hasPair_iff.mpr ⟨front ++ before, a, b, after ++ back, by simp, ha, hb⟩

end Pairs

namespace Dialect

variable {field : Field} {e : Entry} {texts : List FieldText} {fields : List Field}
  {isSeparator : Char → Bool} {expression : List Char}

/-- Digits have no other case. -/
theorem IsNumeral.map_toUpper {digits : List Char} (h : IsNumeral digits) :
    digits.map Char.toUpper = digits := by
  have hall : ∀ code ∈ List.range 128, (Char.ofNat code).isDigit = true →
      (Char.ofNat code).toUpper = Char.ofNat code := by
    decide +kernel
  refine (List.map_congr_left fun c hc => ?_).trans (List.map_id' digits)
  exact forall_ascii (P := fun c => c.isDigit = true → c.toUpper = c) hall
    (toNat_lt_of_isAlphanum (h.isAlphanum c hc)) (h.2 c hc)

theorem IsMark.toUpper {letter mark : Char} (h : IsMark letter mark)
    (hletter : letter = 'L' ∨ letter = 'W') : mark.toUpper = letter := by
  rcases hletter with rfl | rfl
  · rcases h with rfl | rfl
    · decide
    · decide
  · rcases h with rfl | rfl
    · decide
    · decide

/-- A number before the letter of the nearest working day. -/
theorem hasPair_numeral (before : List Char) {digits : List Char} {mark : Char}
    (h : IsNumeral digits) (hmark : IsMark 'W' mark) :
    hasPair Char.isDigit (· == 'W') ((before ++ digits ++ [mark]).map Char.toUpper) = true := by
  refine hasPair_iff.mpr ⟨before.map Char.toUpper ++ digits.dropLast,
    digits.getLast h.1, 'W', [], ?_,
    h.2 _ (List.getLast_mem h.1), rfl⟩
  rw [List.map_append, List.map_append, h.map_toUpper, List.map_singleton,
    hmark.toUpper (Or.inr rfl), List.append_assoc, List.append_assoc,
    ← List.singleton_append (l := ['W']), ← List.append_assoc digits.dropLast,
    List.dropLast_append_getLast]

/-- What the filters look for is in every entry with a nearest working day. -/
theorem hasPair_nearest (hvalid : e.Valid field) (hnearest : e.IsNearest) :
    hasPair Char.isDigit (· == 'W') (e.text.map Char.toUpper) = true ∨
      hasPair (· == 'L') (· == 'W') (e.text.map Char.toUpper) = true := by
  cases e with
  | nearest day mark => exact Or.inl (hasPair_numeral [] hvalid.2.1 hvalid.2.2)
  | nearestLast mark workday =>
    right
    rw [Entry.text, List.map_cons, List.map_singleton, hvalid.2.1.toUpper (Or.inl rfl),
      hvalid.2.2.toUpper (Or.inr rfl)]
    rfl
  | nearestBeforeLast mark days workday =>
    exact Or.inl (hasPair_numeral [mark, '-'] hvalid.2.2.1 hvalid.2.2.2)
  | plain | last | beforeLast | lastOf | nth => cases hnearest

/-- A part is one of the joined text. -/
theorem isInfix_intercalate {parts : List (List Char)} {part separator : List Char}
    (h : part ∈ parts) : part <:+: separator.intercalate parts := by
  induction parts with
  | nil => cases h
  | cons first parts ih =>
    cases parts with
    | nil =>
      obtain rfl := List.mem_singleton.mp h
      exact (List.intercalate_singleton).symm ▸ List.infix_refl part
    | cons next parts =>
      rw [List.intercalate_cons_cons]
      rcases List.mem_cons.mp h with rfl | h
      · exact ((List.prefix_append _ _).trans (List.prefix_append _ _)).isInfix
      · exact (ih h).trans (List.suffix_append _ _).isInfix

/-- An entry is a part of the expression, without what stands at its ends. -/
theorem isInfix_expression {text : FieldText}
    (hwords : words isSeparator expression = texts.map FieldText.text) (htext : text ∈ texts)
    (he : e ∈ text.entries) : e.text <:+: strip isSeparator expression := by
  have hword : text.text ∈ words isSeparator (strip isSeparator expression) := by
    rw [words_strip, hwords]
    exact List.mem_map_of_mem htext
  refine List.IsInfix.trans ?_ (isInfix_of_mem_words hword)
  cases text with
  | question => cases he
  | list entries => exact isInfix_intercalate (List.mem_map_of_mem he)

/-- Where the filters find nothing, there is no nearest working day. -/
theorem not_isNearest {isSeparator : Char → Bool} {upper : List Char}
    (hwords : words isSeparator expression = texts.map FieldText.text)
    (hfields : List.Forall₂ FieldText.Valid fields texts)
    (hupper : (strip isSeparator expression).map Char.toUpper <:+: upper)
    (hdigit : hasPair Char.isDigit (· == 'W') upper = false)
    (hlast : hasPair (· == 'L') (· == 'W') upper = false) :
    ∀ text ∈ texts, ∀ e ∈ text.entries, ¬ e.IsNearest := by
  intro text htext e he hnearest
  obtain ⟨field, -, hvalid⟩ := exists_field hfields htext
  have hentry : e.Valid field := by
    cases text with
    | question => cases he
    | list entries => exact hvalid.2 e he
  have hpart := ((isInfix_expression hwords htext he).map Char.toUpper).trans hupper
  rcases hasPair_nearest hentry hnearest with hpair | hpair
  · rw [hasPair_of_isInfix hpart hpair] at hdigit
    cases hdigit
  · rw [hasPair_of_isInfix hpart hpair] at hlast
    cases hlast

instance (c : Char) : Decidable (IsToken c) := inferInstanceAs (Decidable (_ ∨ _))

/-- The characters of fields are no control characters, and neither are their upper cases. -/
theorem IsToken.printable {c : Char} (h : IsToken c) :
    ¬ c.toNat ≤ 32 ∧ isJavaSpace c = false ∧ isLineTerminator c.toUpper = false := by
  have hlt : c.toNat < 128 := by
    rcases h with halphanum | hmem
    · exact toNat_lt_of_isAlphanum halphanum
    · have hall : (',' :: '?' :: signs).all (fun c => c.toNat < 128) = true := by decide
      simpa using List.all_eq_true.mp hall c hmem
  exact forall_ascii (P := fun c => IsToken c → ¬ c.toNat ≤ 32 ∧ isJavaSpace c = false ∧
    isLineTerminator c.toUpper = false) (by decide +kernel) hlt h

/-- What `CronSupport` lets through has five or six fields, and no nearest working day. -/
theorem of_cronSupport (hseparator : ∀ c, isSeparator c = true → c = ' ' ∨ c = '\t')
    (hwords : words isSeparator expression = texts.map FieldText.text)
    (hfields : List.Forall₂ FieldText.Valid fields texts)
    (hsupported : CronSupport.isSupported expression = true) :
    (texts.length = 5 ∨ texts.length = 6) ∧
      ∀ text ∈ texts, ∀ e ∈ text.entries, ¬ e.IsNearest := by
  have hchars := mem_expression hwords hfields
  have hcases : ∀ c ∈ expression, isSeparator c = true ∧ (c = ' ' ∨ c = '\t') ∨
      isSeparator c = false ∧ IsToken c := by
    intro c hc
    by_cases hsep : isSeparator c = true
    · exact Or.inl ⟨hsep, hseparator c hsep⟩
    · exact Or.inr ⟨Bool.eq_false_iff.mpr hsep, (hchars c hc).resolve_left hsep⟩
  have hstrip : strip (fun c => c.toNat ≤ 32) expression = strip isSeparator expression := by
    refine strip_congr fun c hc => ?_
    rcases hcases c hc with ⟨hsep, rfl | rfl⟩ | ⟨hsep, htoken⟩
    · rw [hsep]
      decide
    · rw [hsep]
      decide
    · rw [hsep, decide_eq_false htoken.printable.1]
  have hcount : words isJavaSpace (strip isSeparator expression) = texts.map FieldText.text := by
    rw [← hwords, ← words_strip isSeparator]
    refine words_congr fun c hc => ?_
    rcases hcases c (mem_of_mem_strip hc) with ⟨hsep, rfl | rfl⟩ | ⟨hsep, htoken⟩
    · rw [hsep]
      decide
    · rw [hsep]
      decide
    · rw [hsep, htoken.printable.2.1]
  have hhead : (strip isSeparator expression).head? ≠ some '@' := by
    intro hhead
    rcases hcases '@' (mem_of_mem_strip (List.mem_of_mem_head? hhead)) with ⟨-, h | h⟩ | ⟨-, h⟩
    · revert h
      decide
    · revert h
      decide
    · exact h.isSpace.2 rfl
  have hlines : ((strip isSeparator expression).map Char.toUpper).any isLineTerminator = false := by
    rw [List.any_eq_false]
    intro d hd
    obtain ⟨c, hc, rfl⟩ := List.mem_map.mp hd
    rcases hcases c (mem_of_mem_strip hc) with ⟨-, rfl | rfl⟩ | ⟨-, htoken⟩
    · decide
    · decide
    · rw [htoken.printable.2.2]
      exact Bool.false_ne_true
  unfold CronSupport.isSupported at hsupported
  simp only [hstrip, hcount, if_neg hhead, List.length_map, hlines, Bool.not_false,
    Bool.and_true] at hsupported
  split at hsupported
  · cases hsupported
  · split at hsupported
    · cases hsupported
    · next hfive =>
      simp only [Bool.and_eq_true, Bool.not_eq_true'] at hsupported
      exact ⟨by tauto, not_isNearest hwords hfields List.infix_rfl hsupported.1 hsupported.2⟩

/-- Only an at sign has the lower case of one. -/
theorem eq_of_toLower_at {c : Char} (h : c.toLower = '@') : c = '@' := by
  unfold Char.toLower at h
  split at h
  · next hupper =>
    have hval := congrArg (fun c : Char => c.val.toNat) h
    simp only [UInt32.toNat_add, UInt32.le_iff_toNat_le, ge_iff_le] at hval hupper
    have hshift : ('a'.val - 'A'.val).toNat = 32 := by decide
    have hA : 'A'.val.toNat = 65 := by decide
    have hZ : 'Z'.val.toNat = 90 := by decide
    have hat : '@'.val.toNat = 64 := by decide
    omega
  · exact h

/-- The descriptors of the schedulers are those of the server. -/
theorem isValid_descriptor {name : List Char}
    (hseparator : ∀ c, isSeparator c = true → isSpace c = true)
    (hname : strip isSeparator expression = name) (hknown : name.map Char.toLower ∈ cronMacros) :
    isValidCronExpression expression = true ∧ (strip isSpace expression).length ≤ 200 := by
  have hall : ∀ known ∈ cronMacros, known.length ≠ 0 ∧ known.length ≤ 200 ∧
      known.head? = some '@' ∧ known.all (fun c => c = '@' || c.isLower) = true := by
    decide
  obtain ⟨hempty, hlength, hhead, hletters⟩ := hall _ hknown
  rw [List.length_map] at hempty hlength
  have hspace : ∀ c ∈ name, isSpace c = false := by
    intro c hc
    have hlower := List.all_eq_true.mp hletters _ (List.mem_map_of_mem hc)
    simp only [Bool.or_eq_true, decide_eq_true_eq] at hlower
    rcases hlower with hat | hlower
    · rw [eq_of_toLower_at hat]
      decide
    · refine (isSpace_of_isAlphanum ?_).1
      rw [Char.isAlphanum, isAlpha_of_toLower hlower, Bool.true_or]
  have hstrip : strip isSpace expression = name := by
    rw [← hname]
    refine strip_congr fun c hc => ?_
    by_cases hsep : isSeparator c = true
    · rw [hsep, hseparator c hsep]
    · obtain ⟨word, hword, hmem⟩ := (mem_words hc).resolve_left hsep
      rw [← words_strip, hname] at hword
      rw [hspace c ((isInfix_of_mem_words hword).subset hmem), Bool.eq_false_iff.mpr hsep]
  have hat : name.head? = some '@' := by
    rw [List.head?_map, Option.map_eq_some_iff] at hhead
    obtain ⟨c, hc, hlower⟩ := hhead
    rw [hc, eq_of_toLower_at hlower]
  rw [hstrip]
  refine ⟨?_, hlength⟩
  unfold isValidCronExpression
  simp only [hstrip]
  rw [if_neg (by omega), if_pos hat]
  exact List.contains_iff_mem.mpr hknown

end Dialect

namespace SchedulerDialect

variable {expression : List Char} {reading : Reading}

/-- The fields that the server has for a dialect. -/
theorem quartzFields_serve : List.Forall₂ Field.Serves quartzFields.dropLast sixFields := by
  decide

/-- **Spring**: what `CronSupport` lets through is accepted unless it is too long or drifts. -/
theorem spring_accepted_iff (hreads : spring.Reads expression reading)
    (hsupported : CronSupport.isSupported expression = true) :
    isValidCronExpression expression = true ↔
      (strip isSpace expression).length ≤ 200 ∧ ¬ reading.Drifts := by
  have hblank : ∀ c, spring.isSeparator c = true → c = ' ' := fun c hc => by
    simpa [spring] using hc
  cases reading with
  | descriptor name =>
    have hvalid := isValid_descriptor (fun c hc => by rw [hblank c hc]; decide) hreads.1 hreads.2
    exact iff_of_true hvalid.1 ⟨hvalid.2, not_false⟩
  | fields texts =>
    obtain ⟨hwords, fields, hmem, hfields⟩ := hreads
    have hkept := (of_cronSupport (fun c hc => Or.inl (hblank c hc)) hwords hfields hsupported).2
    have hserves : List.Forall₂ Field.Serves fields sixFields := by
      obtain rfl := List.mem_singleton.mp hmem
      decide
    exact isValidCronExpression_fields (fun c hc => by rw [hblank c hc]; decide) hwords hfields
      hserves (Or.inl rfl) hkept

/-- **Quartz**: likewise. Expressions with a year are kept back. -/
theorem quartz_accepted_iff (hreads : quartz.Reads expression reading)
    (hsupported : CronSupport.isSupported expression = true) :
    isValidCronExpression expression = true ↔
      (strip isSpace expression).length ≤ 200 ∧ ¬ reading.Drifts := by
  have hblank : ∀ c, quartz.isSeparator c = true → c = ' ' ∨ c = '\t' := fun c hc => by
    simpa [quartz] using hc
  have hspace : ∀ c, quartz.isSeparator c = true → isSpace c = true ∧ c ≠ '@' := by
    intro c hc
    rcases hblank c hc with rfl | rfl
    · decide
    · decide
  cases reading with
  | descriptor name => cases hreads.2
  | fields texts =>
    obtain ⟨hwords, fields, hmem, hfields⟩ := hreads
    obtain ⟨hcount, hkept⟩ := of_cronSupport hblank hwords hfields hsupported
    have hlength := hfields.length_eq
    rcases List.mem_cons.mp hmem with rfl | hmem
    · have hseven : quartzFields.length = 7 := rfl
      omega
    · obtain rfl := List.mem_singleton.mp hmem
      exact isValidCronExpression_fields hspace hwords hfields quartzFields_serve (Or.inl rfl) hkept

/-- **Laravel**: what `ScheduleReader` lets through is accepted unless it is too long or
drifts. -/
theorem laravel_accepted_iff (hreads : laravel.Reads expression reading)
    (hsupported : ScheduleReader.isSupported expression = true) :
    isValidCronExpression expression = true ↔
      (strip isSpace expression).length ≤ 200 ∧ ¬ reading.Drifts := by
  have hspace : ∀ c, laravel.isSeparator c = true → isSpace c = true ∧ c ≠ '@' := by
    intro c hc
    have hall : ∀ code ∈ [9, 10, 11, 12, 13, 32], code < 128 := by decide
    have hlt : c.toNat < 128 := hall _ (List.contains_iff_mem.mp hc)
    exact forall_ascii (P := fun c => laravel.isSeparator c = true → isSpace c = true ∧ c ≠ '@')
      (by decide +kernel) hlt hc
  cases reading with
  | descriptor name =>
    have hvalid := isValid_descriptor (fun c hc => (hspace c hc).1) hreads.1 hreads.2
    exact iff_of_true hvalid.1 ⟨hvalid.2, not_false⟩
  | fields texts =>
    obtain ⟨hwords, fields, hmem, hfields⟩ := hreads
    have hserves : List.Forall₂ Field.Serves fields fiveFields := by
      obtain rfl := List.mem_singleton.mp hmem
      decide
    unfold ScheduleReader.isSupported hasNearestWeekday at hsupported
    simp only [Bool.and_eq_true, Bool.not_eq_true', Bool.or_eq_false_iff] at hsupported
    have hupper : (strip laravel.isSeparator expression).map Char.toUpper <:+:
        expression.map Char.toUpper :=
      (strip_isInfix _ _).map Char.toUpper
    exact isValidCronExpression_fields hspace hwords hfields hserves (Or.inr rfl)
      (not_isNearest hwords hfields hupper hsupported.2.1 hsupported.2.2)

end SchedulerDialect

end SilenceWatch
