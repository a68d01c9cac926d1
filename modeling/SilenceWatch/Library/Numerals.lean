import Mathlib.Algebra.Group.Nat.Defs
import Mathlib.Data.List.Induction

/-!
# Numerals

Texts of digits in a base up to sixteen, letters in either case, leading zeros allowed.
The canonical numeral has small letters and no leading zeros. Two numerals have the same
value exactly if they have the same canonical form.
-/

namespace Numeral

/-- The value of a digit. -/
def digitValue (c : Char) : ℕ := if c.isDigit then c.toNat - 48 else c.toLower.toNat - 87

/-- The character is a digit of the base, in either case. -/
def IsDigit (base : ℕ) (c : Char) : Prop :=
  digitValue c < base ∧ (digitValue c).digitChar = c.toLower
  deriving Decidable

/-- `/[0-9a-f]/i`. -/
def isHexDigit (c : Char) : Bool :=
  c.isDigit || ('a' ≤ c && c ≤ 'f') || ('A' ≤ c && c ≤ 'F')

/-- The value of a text of digits. -/
def value (base : ℕ) (text : List Char) : ℕ :=
  text.foldl (fun n c => base * n + digitValue c) 0

/-- The text without the zeros before its last character and its first other digit. -/
def stripZeros : List Char → List Char
  | [] => []
  | [c] => [c]
  | c :: d :: rest => if c = '0' then stripZeros (d :: rest) else c :: d :: rest

/-- Small letters, and no leading zeros. -/
def canonical (text : List Char) : List Char := stripZeros (text.map Char.toLower)

variable {base : ℕ} {text text' : List Char} {c : Char}

@[simp] theorem value_append_singleton :
    value base (text ++ [c]) = base * value base text + digitValue c := by
  simp [value]

/-- The first digit counts for as many more as there are behind it. -/
theorem value_cons (base : ℕ) (c : Char) (text : List Char) :
    value base (c :: text) = digitValue c * base ^ text.length + value base text := by
  induction text using List.reverseRecOn with
  | nil => simp [value]
  | append_singleton text d ih =>
    rw [← List.cons_append, value_append_singleton, value_append_singleton, ih, List.length_append,
      List.length_singleton, Nat.pow_succ, Nat.mul_add, Nat.add_assoc]
    congr 1
    rw [← Nat.mul_assoc, Nat.mul_comm base, Nat.mul_assoc, Nat.mul_comm base]

/-- A numeral is less than the next power of the base. -/
theorem value_lt (htext : ∀ c ∈ text, IsDigit base c) : value base text < base ^ text.length := by
  induction text with
  | nil => exact Nat.one_pos
  | cons c text ih =>
    have hrest := ih fun d hd => htext d (List.mem_cons_of_mem _ hd)
    have hdigit := (htext c List.mem_cons_self).1
    rw [value_cons, List.length_cons, Nat.pow_succ]
    calc digitValue c * base ^ text.length + value base text
        < (digitValue c + 1) * base ^ text.length := by
          rw [Nat.succ_mul]
          exact Nat.add_lt_add_left hrest _
      _ ≤ base * base ^ text.length := Nat.mul_le_mul_right _ hdigit
      _ = base ^ text.length * base := Nat.mul_comm _ _

/-- The code of a decimal digit lies its value behind that of zero. -/
theorem toNat_of_isDigit (hc : c.isDigit) : c.toNat = 48 + digitValue c := by
  have hlow : 48 ≤ c.toNat := by
    simp only [Char.isDigit, Bool.and_eq_true, decide_eq_true_eq, ge_iff_le] at hc
    exact hc.1
  rw [digitValue, if_pos hc]
  omega

/-- Decimal digits are ordered as their values. -/
theorem lt_iff_of_isDigit {d : Char} (hc : c.isDigit) (hd : d.isDigit) :
    c < d ↔ digitValue c < digitValue d := by
  have hlt : c < d ↔ c.toNat < d.toNat := Iff.rfl
  rw [hlt, toNat_of_isDigit hc, toNat_of_isDigit hd]
  omega

/-- Decimal digits are known by their values. -/
theorem eq_of_isDigit {d : Char} (hc : c.isDigit) (hd : d.isDigit)
    (h : digitValue c = digitValue d) : c = d := by
  apply Char.toNat_inj.mp
  rw [toNat_of_isDigit hc, toNat_of_isDigit hd, h]

/-- A decimal digit is one in base ten. -/
theorem isDigit_of_isDigit (hc : c.isDigit) : IsDigit 10 c := by
  have hbounds : 48 ≤ c.toNat ∧ c.toNat ≤ 57 := by
    simp only [Char.isDigit, Bool.and_eq_true, decide_eq_true_eq, ge_iff_le] at hc
    exact ⟨hc.1, hc.2⟩
  have hall : ∀ n < 58, 48 ≤ n → IsDigit 10 (Char.ofNat n) := by decide
  rw [← Char.ofNat_toNat c]
  exact hall c.toNat (by omega) hbounds.1

/-- **Numerals of one length are ordered as their texts.** -/
theorem lt_iff_value_lt (hlength : text.length = text'.length) (htext : ∀ c ∈ text, c.isDigit)
    (htext' : ∀ c ∈ text', c.isDigit) : text < text' ↔ value 10 text < value 10 text' := by
  induction text generalizing text' with
  | nil =>
    obtain rfl := List.length_eq_zero_iff.mp hlength.symm
    simp
  | cons c text ih =>
    cases text' with
    | nil => cases hlength
    | cons d text' =>
      have hrest : text.length = text'.length := by simpa using hlength
      have hdigits : ∀ e ∈ text, e.isDigit := fun e he => htext e (List.mem_cons_of_mem _ he)
      have hdigits' : ∀ e ∈ text', e.isDigit := fun e he => htext' e (List.mem_cons_of_mem _ he)
      have hsmall := value_lt fun e he => isDigit_of_isDigit (hdigits e he)
      have hsmall' := value_lt fun e he => isDigit_of_isDigit (hdigits' e he)
      rw [List.cons_lt_cons_iff, ih hrest hdigits hdigits', value_cons, value_cons, hrest,
        lt_iff_of_isDigit (htext c List.mem_cons_self) (htext' d List.mem_cons_self)]
      rw [hrest] at hsmall
      generalize 10 ^ text'.length = power at hsmall hsmall'
      rcases Nat.lt_trichotomy (digitValue c) (digitValue d) with hlt | heq | hgt
      · have hstep : (digitValue c + 1) * power ≤ digitValue d * power :=
          Nat.mul_le_mul_right _ hlt
        rw [Nat.succ_mul] at hstep
        exact iff_of_true (Or.inl hlt) (by omega)
      · have hsame := eq_of_isDigit (htext c List.mem_cons_self) (htext' d List.mem_cons_self) heq
        subst hsame
        simp
      · have hstep : (digitValue d + 1) * power ≤ digitValue c * power :=
          Nat.mul_le_mul_right _ hgt
        rw [Nat.succ_mul] at hstep
        apply iff_of_false
        · rintro (hlt | ⟨rfl, -⟩)
          · omega
          · omega
        · omega

theorem stripZeros_cons_zero (h : text ≠ []) : stripZeros ('0' :: text) = stripZeros text := by
  cases text with
  | nil => exact absurd rfl h
  | cons d rest => simp [stripZeros]

theorem stripZeros_cons (h : c ≠ '0') : stripZeros (c :: text) = c :: text := by
  cases text with
  | nil => rfl
  | cons d rest => simp [stripZeros, h]

/-- Another character at the end is kept, in place of a lone zero. -/
theorem stripZeros_append_singleton (h : text ≠ []) :
    stripZeros (text ++ [c]) =
      if stripZeros text = ['0'] then [c] else stripZeros text ++ [c] := by
  induction text with
  | nil => exact absurd rfl h
  | cons d rest ih =>
    by_cases hd : d = '0'
    · subst hd
      rw [List.cons_append, stripZeros_cons_zero (by simp)]
      cases rest with
      | nil => simp [stripZeros]
      | cons d rest =>
        rw [ih (by simp), stripZeros_cons_zero (by simp)]
    · rw [List.cons_append, stripZeros_cons hd, stripZeros_cons hd, if_neg]
      · rfl
      · intro hzero
        exact hd (List.cons.inj hzero).1

/-- Leading zeros do not change the value. -/
theorem value_stripZeros (text : List Char) : value base (stripZeros text) = value base text := by
  induction text with
  | nil => rfl
  | cons c rest ih =>
    by_cases hc : c = '0'
    · subst hc
      cases rest with
      | nil => rfl
      | cons d rest =>
        rw [stripZeros_cons_zero (by simp), ih]
        simp [value, digitValue]
    · rw [stripZeros_cons hc]

/-- A capital letter has the value of the small one. -/
theorem IsDigit.digitValue_toLower (h : IsDigit base c) (hle : base ≤ 16) :
    digitValue c.toLower = digitValue c := by
  have hall : ∀ v < 16, digitValue v.digitChar = v := by decide
  obtain ⟨hlt, hchar⟩ := h
  rw [← hchar, hall (digitValue c) (by omega)]

/-- Small letters have the same value. -/
theorem value_map_toLower (hle : base ≤ 16) (htext : ∀ c ∈ text, IsDigit base c) :
    value base (text.map Char.toLower) = value base text := by
  induction text using List.reverseRecOn with
  | nil => rfl
  | append_singleton text c ih =>
    have hinit := ih fun d hd => htext d (List.mem_append_left _ hd)
    have hlast := htext c (List.mem_append_right _ (List.mem_singleton_self c))
    rw [List.map_append, List.map_singleton, value_append_singleton, value_append_singleton, hinit,
      hlast.digitValue_toLower hle]

/-- The canonical form has the same value. -/
theorem value_canonical (hle : base ≤ 16) (htext : ∀ c ∈ text, IsDigit base c) :
    value base (canonical text) = value base text := by
  rw [canonical, value_stripZeros, value_map_toLower hle htext]

/-- The canonical form has no characters but those of the text, in small letters. -/
theorem mem_canonical (hc : c ∈ canonical text) : ∃ d ∈ text, d.toLower = c := by
  have hstrip : ∀ text : List Char, c ∈ stripZeros text → c ∈ text := by
    intro text
    induction text with
    | nil => exact fun h => h
    | cons d rest ih =>
      by_cases hd : d = '0' ∧ rest ≠ []
      · obtain ⟨rfl, hrest⟩ := hd
        rw [stripZeros_cons_zero hrest]
        exact fun h => List.mem_cons_of_mem _ (ih h)
      · cases rest with
        | nil => exact fun h => h
        | cons d' rest =>
          rw [stripZeros_cons fun h => hd ⟨h, List.cons_ne_nil _ _⟩]
          exact fun h => h
  exact List.mem_map.mp (hstrip _ hc)

/-- Only zero is written as a lone zero. -/
theorem toDigits_eq_zero_iff {n : ℕ} (hbase : 1 < base) (hle : base ≤ 16) :
    Nat.toDigits base n = ['0'] ↔ n = 0 := by
  constructor
  · intro hdigits
    by_cases hn : n < base
    · rw [Nat.toDigits_of_lt_base hn] at hdigits
      have hdigit : n.digitChar = '0' := (List.cons.inj hdigits).1
      have hsmall : ∀ m < 16, m.digitChar = '0' → m = 0 := by decide
      exact hsmall n (by omega) hdigit
    · have hlength := congrArg List.length hdigits
      rw [Nat.toDigits_of_base_le hbase (by omega), List.length_append] at hlength
      have hpos := Nat.length_toDigits_pos (b := base) (n := n / base)
      simp only [List.length_singleton] at hlength
      omega
  · rintro rfl
    exact Nat.toDigits_zero base

/-- A number has the value it is written as. -/
theorem value_toDigits (hbase : 1 < base) (hle : base ≤ 16) (n : ℕ) :
    value base (Nat.toDigits base n) = n := by
  have hdigit : ∀ v < 16, digitValue v.digitChar = v := by decide
  induction n using Nat.strongRecOn with
  | ind n ih =>
    by_cases hn : n < base
    · rw [Nat.toDigits_of_lt_base hn]
      simpa [value] using hdigit n (by omega)
    · have hmod : n % base < base := Nat.mod_lt _ (by omega)
      have hdiv : n / base < n := Nat.div_lt_self (by omega) hbase
      rw [Nat.toDigits_of_base_le hbase (by omega), value_append_singleton, ih _ hdiv,
        hdigit _ (by omega)]
      exact Nat.div_add_mod n base

/-- The canonical form is what the value is written as. -/
theorem canonical_eq_toDigits (hbase : 1 < base) (hle : base ≤ 16) (hne : text ≠ [])
    (htext : ∀ c ∈ text, IsDigit base c) :
    canonical text = Nat.toDigits base (value base text) := by
  induction text using List.reverseRecOn with
  | nil => exact absurd rfl hne
  | append_singleton text c ih =>
    obtain ⟨hlt, hchar⟩ := htext c (List.mem_append_right _ (List.mem_singleton_self c))
    by_cases hempty : text = []
    · subst hempty
      have hvalue : value base ([] ++ [c]) = digitValue c := by simp [value]
      rw [hvalue, Nat.toDigits_of_lt_base hlt, hchar]
      rfl
    · have hinit := ih hempty fun d hd => htext d (List.mem_append_left _ hd)
      unfold canonical at hinit ⊢
      rw [List.map_append, List.map_singleton, stripZeros_append_singleton (by simpa using hempty),
        hinit, value_append_singleton, ← hchar]
      by_cases hzero : value base text = 0
      · rw [if_pos ((toDigits_eq_zero_iff hbase hle).mpr hzero), hzero, Nat.mul_zero, Nat.zero_add,
          Nat.toDigits_of_lt_base hlt]
      · rw [if_neg fun h => hzero ((toDigits_eq_zero_iff hbase hle).mp h),
          ← Nat.toDigits_append_toDigits hbase (Nat.pos_of_ne_zero hzero) hlt,
          Nat.toDigits_of_lt_base hlt]

/-- **Canonical numerals.** Two numerals have one value exactly if they have one canonical
form. -/
theorem canonical_eq_iff (hbase : 1 < base) (hle : base ≤ 16) (hne : text ≠ []) (hne' : text' ≠ [])
    (htext : ∀ c ∈ text, IsDigit base c) (htext' : ∀ c ∈ text', IsDigit base c) :
    canonical text = canonical text' ↔ value base text = value base text' := by
  constructor
  · intro h
    rw [← value_canonical hle htext, h, value_canonical hle htext']
  · intro h
    rw [canonical_eq_toDigits hbase hle hne htext, canonical_eq_toDigits hbase hle hne' htext', h]

end Numeral
