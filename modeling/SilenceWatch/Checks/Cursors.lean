import SilenceWatch.Audit.Trail

/-!
# Cursors that are numbers

The histories of pings and the audit trail take an id for a cursor, as decimal digits. Their
parsers ask how many digits there are, the column how large the number is.
-/

namespace SilenceWatch

/-- What the parsers make of a cursor fits the column it is compared with, and no list fails
because of it. -/
structure StorableCursor (text : String) : Prop where
  ping : ∀ n ∈ parseBigIntCursor (some text), FitsBigint n
  audit : ∀ raw ∈ AuditController.parseCursor (some text), FitsBigint (bigIntOf raw)
  pingsAnswered : ∀ db checkId limit,
    ∃ answer, ChecksService.listPings db checkId limit (some text) = .ok answer
  projectAnswered : ∀ {Detail : Type} (events : List (AuditEvent Detail)) projectId limit,
    ∃ answer, AuditService.listForProject events projectId limit
      (AuditController.parseCursor (some text)) = .ok answer
  accountAnswered : ∀ {Detail : Type} (events : List (AuditEvent Detail)) userId limit,
    ∃ answer, AuditService.listForUser events userId limit
      (AuditController.parseCursor (some text)) = .ok answer

/-- Nineteen digits that come after those of the largest `bigint`. -/
def BeyondBigint (text : String) : Prop :=
  text.toList.length = 19 ∧ (∀ c ∈ text.toList, c.isDigit) ∧
    "9223372036854775807".toList < text.toList
  deriving Decidable

variable {text : String} {n : ℕ}

/-- The parser of ping cursors reads decimal digits. -/
theorem parseBigIntCursor_eq_some :
    parseBigIntCursor (some text) = some n ↔ IsDigitCursor text ∧ bigIntOf text = n := by
  have hfold : ∀ (digits : List Char) (start : ℕ), (∀ c ∈ digits, c.isDigit) →
      digits.foldl (fun n c => 10 * n + (c.toNat - '0'.toNat)) start =
        digits.foldl (fun n c => 10 * n + Numeral.digitValue c) start := by
    intro digits
    induction digits with
    | nil => exact fun _ _ => rfl
    | cons c digits ih =>
      intro start hdigits
      have hvalue : Numeral.digitValue c = c.toNat - '0'.toNat :=
        if_pos (hdigits c List.mem_cons_self)
      rw [List.foldl_cons, List.foldl_cons, hvalue]
      exact ih _ fun d hd => hdigits d (List.mem_cons_of_mem _ hd)
  simp only [parseBigIntCursor, Option.bind_some]
  unfold IsDigitCursor
  by_cases hdigits : 1 ≤ text.toList.length ∧ text.toList.length ≤ 19 ∧ text.toList.all Char.isDigit
  · rw [if_pos hdigits, hfold _ _ (List.all_eq_true.mp hdigits.2.2), Option.some_inj]
    exact (and_iff_right hdigits).symm
  · rw [if_neg hdigits]
    exact iff_of_false (by simp) fun h => hdigits h.1

/-- The parser of audit cursors passes decimal digits on. -/
theorem parseCursor_eq_some {raw : String} :
    AuditController.parseCursor (some text) = some raw ↔ IsDigitCursor text ∧ text = raw := by
  unfold AuditController.parseCursor
  by_cases hdigits : IsDigitCursor text
  · simp [Option.filter, hdigits]
  · simp [Option.filter, hdigits]

/-- Digits that both parsers accept are too many for the column exactly if there are nineteen
that come after those of the largest number. -/
theorem fitsBigint_iff (hdigits : IsDigitCursor text) :
    FitsBigint (bigIntOf text) ↔ ¬ BeyondBigint text := by
  obtain ⟨-, hlength, hall⟩ := hdigits
  have hdecimal : ∀ c ∈ text.toList, c.isDigit := List.all_eq_true.mp hall
  unfold FitsBigint BeyondBigint bigIntOf
  by_cases hlong : text.toList.length = 19
  · have hdigits : "9223372036854775807".toList.all Char.isDigit = true := by decide
    have horder := @Numeral.lt_iff_value_lt "9223372036854775807".toList text.toList hlong.symm
      (List.all_eq_true.mp hdigits) hdecimal
    have hlargest : Numeral.value 10 "9223372036854775807".toList = 2 ^ 63 - 1 := by decide
    rw [hlargest] at horder
    constructor
    · rintro hfits ⟨-, -, hafter⟩
      have hlarger := horder.mp hafter
      omega
    · intro hbounded
      by_contra hlarge
      exact hbounded ⟨hlong, hdecimal, horder.mpr (by omega)⟩
  · have hsmall := Numeral.value_lt fun c hc => Numeral.isDigit_of_isDigit (hdecimal c hc)
    have hpower : 10 ^ text.toList.length ≤ 10 ^ 18 := Nat.pow_le_pow_right (by omega) (by omega)
    exact iff_of_true (by omega) fun hbeyond => hlong hbeyond.1

/-- Nothing but digits is beyond the largest number. -/
theorem BeyondBigint.isDigitCursor (h : BeyondBigint text) : IsDigitCursor text :=
  ⟨by rw [h.1]; decide, h.1.le, List.all_eq_true.mpr h.2.1⟩

/-- The database takes a cursor exactly if it fits. -/
theorem bindBigint_map_ok_iff {α : Type} {f : Option ℕ → α} {cursor : Option ℕ} :
    (∃ answer, (bindBigint cursor).map f = .ok answer) ↔ ∀ n ∈ cursor, FitsBigint n := by
  unfold bindBigint
  split
  · next hfits => exact iff_of_true ⟨_, rfl⟩ hfits
  · next hbig =>
    refine iff_of_false ?_ hbig
    rintro ⟨answer, hanswer⟩
    cases hanswer

/-- **Cursors are storable, and lists answered, unless nineteen digits exceed the largest
`bigint`.** -/
theorem storableCursor_iff (text : String) : StorableCursor text ↔ ¬ BeyondBigint text := by
  constructor
  · intro hstorable hbeyond
    have hdigits := hbeyond.isDigitCursor
    have hfits := hstorable.ping _ (parseBigIntCursor_eq_some.mpr ⟨hdigits, rfl⟩)
    exact (fitsBigint_iff hdigits).mp hfits hbeyond
  · intro hbounded
    have hping : ∀ n ∈ parseBigIntCursor (some text), FitsBigint n := by
      intro n hn
      obtain ⟨hdigits, rfl⟩ := parseBigIntCursor_eq_some.mp hn
      exact (fitsBigint_iff hdigits).mpr hbounded
    have haudit : ∀ raw ∈ AuditController.parseCursor (some text), FitsBigint (bigIntOf raw) := by
      intro raw hraw
      obtain ⟨hdigits, rfl⟩ := parseCursor_eq_some.mp hraw
      exact (fitsBigint_iff hdigits).mpr hbounded
    exact
      { ping := hping
        audit := haudit
        pingsAnswered := fun _ _ _ => bindBigint_map_ok_iff.mpr hping
        projectAnswered := fun _ _ _ => AuditService.page_ok_iff.mpr haudit
        accountAnswered := fun _ _ _ => AuditService.page_ok_iff.mpr haudit }

/-- Nineteen nines are accepted, and not storable. -/
theorem not_storableCursor_nines : ¬ StorableCursor "9999999999999999999" := by
  intro hstorable
  have hfits := hstorable.ping 9999999999999999999 (by decide)
  exact absurd hfits (by decide)

end SilenceWatch
