import Mathlib.Algebra.Order.BigOperators.Group.List
import Mathlib.Algebra.Order.Ring.Nat
import SilenceWatch.Library.Json
import SilenceWatch.Library.Utf8

/-!
# The size of a JSON text

How long the text of a value gets, in bytes or in code units. Both count a character of ASCII
once, and nothing else about them matters to what a value adds to its strings.
-/

namespace Json

/-- A way to count characters that counts those of ASCII once. -/
structure Measure where
  size : Char → ℕ
  ascii : ∀ c : Char, c.toNat < 0x80 → size c = 1

theorem length_utf8EncodeChar_ascii (c : Char) (hc : c.toNat < 0x80) :
    (String.utf8EncodeChar c).length = 1 := by
  rw [Utf8.encodeChar_ascii hc, List.length_singleton]

theorem length_unitsOf_ascii (c : Char) (hc : c.toNat < 0x80) : (unitsOf c).length = 1 := by
  have hlow : c.toNat < 0x10000 := by omega
  rw [unitsOf, if_pos hlow, List.length_singleton]

/-- The bytes of UTF-8. -/
def utf8 : Measure where
  size c := (String.utf8EncodeChar c).length
  ascii := length_utf8EncodeChar_ascii

/-- The code units of UTF-16. -/
def utf16 : Measure where
  size c := (unitsOf c).length
  ascii := length_unitsOf_ascii

namespace Measure

/-- The size of a text. -/
def of (m : Measure) (text : List Char) : ℕ := (text.map m.size).sum

/-- The size of a character between quotes. -/
def escaped (m : Measure) (c : Char) : ℕ :=
  if [8, 9, 10, 12, 13, 0x22, 0x5C].contains c.toNat then 2
  else if c.toNat < 0x20 then 6
  else m.size c

/-- The size of a text as a string, with its quotes. -/
def quoted (m : Measure) (text : List Char) : ℕ := 2 + (text.map m.escaped).sum

/-- A character of ASCII that stands for itself between quotes. -/
def isPlain (c : Char) : Bool :=
  0x20 ≤ c.toNat && c.toNat < 0x80 && c.toNat != 0x22 && c.toNat != 0x5C

variable (m : Measure) {c : Char} {text more : List Char}

@[simp] theorem of_nil : m.of [] = 0 := rfl

@[simp] theorem of_cons (c : Char) (text : List Char) :
    m.of (c :: text) = m.size c + m.of text := by
  rw [of, List.map_cons, List.sum_cons, ← of]

@[simp] theorem of_append (text more : List Char) :
    m.of (text ++ more) = m.of text + m.of more := by
  rw [of, List.map_append, List.sum_append, ← of, ← of]

/-- ASCII has the size that it has characters. -/
theorem of_ascii (htext : text.all (fun c => c.toNat < 0x80) = true) : m.of text = text.length := by
  induction text with
  | nil => rfl
  | cons c text ih =>
    rw [List.all_cons, Bool.and_eq_true, decide_eq_true_eq] at htext
    rw [of_cons, m.ascii c htext.1, ih htext.2, List.length_cons, Nat.add_comm]

theorem escaped_plain (h : isPlain c = true) : m.escaped c = 1 := by
  simp only [isPlain, Bool.and_eq_true, decide_eq_true_eq, bne_iff_ne] at h
  obtain ⟨⟨⟨hlow, hhigh⟩, hquote⟩, hbackslash⟩ := h
  unfold escaped
  simp only [List.contains_cons, List.contains_nil, Bool.or_false, Bool.or_eq_true, beq_iff_eq]
  rw [if_neg (by omega), if_neg (by omega), m.ascii c hhigh]

/-- Plain text has the size that it has characters. -/
theorem sum_escaped_plain (h : text.all isPlain = true) :
    (text.map m.escaped).sum = text.length := by
  induction text with
  | nil => rfl
  | cons c text ih =>
    rw [List.all_cons, Bool.and_eq_true] at h
    rw [List.map_cons, List.sum_cons, m.escaped_plain h.1, ih h.2, List.length_cons, Nat.add_comm]

theorem of_utf8 (text : List Char) : utf8.of text = (Utf8.encode text).length :=
  (List.length_flatMap ..).symm

theorem of_utf16 (text : List Char) : utf16.of text = (units text).length :=
  (List.length_flatMap ..).symm

/-- A text has no more characters than code units. -/
theorem length_le_of_utf16 (text : List Char) : text.length ≤ utf16.of text := by
  induction text with
  | nil => exact Nat.le_refl 0
  | cons c text ih =>
    have hpos : 1 ≤ utf16.size c := by
      have hunits : utf16.size c = (unitsOf c).length := rfl
      rw [hunits, unitsOf]
      split <;> simp
    rw [of_cons, List.length_cons]
    omega

/-- A character has no more code units than bytes. -/
theorem utf16_le_utf8 (c : Char) : utf16.size c ≤ utf8.size c := by
  have hlength : utf8.size c = (String.utf8EncodeChar c).length := rfl
  have hunits : utf16.size c = (unitsOf c).length := rfl
  rw [hlength, hunits]
  unfold unitsOf String.utf8EncodeChar
  dsimp only [Char.toNat]
  split_ifs <;> simp only [List.length_cons, List.length_nil] <;> omega

theorem of_utf16_le (text : List Char) : utf16.of text ≤ utf8.of text :=
  List.sum_le_sum fun c _ => utf16_le_utf8 c

end Measure

section Strings

variable (m : Measure)

/-- A unit of its own between quotes. -/
theorem of_escapeUnit {c : Char} (hc : c.toNat < 0x10000) :
    m.of (escapeUnit (UInt16.ofNat c.toNat)) = m.escaped c := by
  have hvalid : c.toNat < 0xD800 ∨ 0xDFFF < c.toNat ∧ c.toNat < 0x110000 := c.valid
  have hu : (UInt16.ofNat c.toNat).toNat = c.toNat := UInt16.toNat_ofNat_of_lt' hc
  have heq (u : UInt16) : UInt16.ofNat c.toNat = u ↔ c.toNat = u.toNat := by
    rw [← UInt16.toNat_inj, hu]
  have hcode (u : UInt16) : m.of (hexEscape u) = 6 := by
    have hdigit (n : ℕ) : (n % 16).digitChar.toNat < 0x80 := by
      have hall : ∀ n < 16, (Nat.digitChar n).toNat < 0x80 := by decide
      exact hall _ (Nat.mod_lt n (by omega))
    have hsmall : u.toNat / 4096 = u.toNat / 4096 % 16 := by
      have := u.toNat_lt
      omega
    have hfirst : (u.toNat / 4096).digitChar.toNat < 0x80 := hsmall ▸ hdigit _
    have hbackslash : '\\'.toNat < 0x80 := by decide
    have hletter : 'u'.toNat < 0x80 := by decide
    rw [hexEscape, m.of_ascii]
    · rfl
    · simp only [List.all_cons, List.all_nil, hfirst, hdigit, hbackslash, hletter, decide_true,
        Bool.and_true]
  have hletter {d : Char} (hd : d.toNat < 0x80) : m.of ['\\', d] = 2 := by
    rw [m.of_cons, m.of_cons, m.ascii _ hd, m.ascii '\\' (by decide), m.of_nil]
  unfold escapeUnit Measure.escaped IsHigh IsLow
  simp only [heq, hu, UInt16.reduceToNat, List.contains_cons, List.contains_nil, Bool.or_false,
    Bool.or_eq_true, beq_iff_eq]
  split_ifs
  all_goals first
    | omega
    | exact hletter (by decide)
    | exact hcode _
    | rw [Char.ofNat_toNat, m.of_cons, m.of_nil, Nat.add_zero]

/-- The next character of a string. -/
theorem of_escape_append (c : Char) (rest : Units) :
    m.of (escape (unitsOf c ++ rest)) = m.escaped c + m.of (escape rest) := by
  have hvalid : c.toNat < 0xD800 ∨ 0xDFFF < c.toNat ∧ c.toNat < 0x110000 := c.valid
  unfold unitsOf
  by_cases hc : c.toNat < 0x10000
  · have hhigh : ¬ IsHigh (UInt16.ofNat c.toNat) := by
      unfold IsHigh
      rw [UInt16.toNat_ofNat_of_lt' hc]
      omega
    have hone : escape (UInt16.ofNat c.toNat :: rest) =
        escapeUnit (UInt16.ofNat c.toNat) ++ escape rest := by
      cases rest with
      | nil => rw [escape, escape, List.append_nil]
      | cons v rest => rw [escape, if_neg fun h => hhigh h.1]
    rw [if_pos hc, List.singleton_append, hone, m.of_append, of_escapeUnit m hc]
  · obtain ⟨n, hn⟩ := Nat.exists_eq_add_of_le (Nat.le_of_not_lt hc)
    have hsmall : n < 0x100000 := by omega
    have hu : (UInt16.ofNat (0xD800 + n / 0x400)).toNat = 0xD800 + n / 0x400 :=
      UInt16.toNat_ofNat_of_lt' (by unfold UInt16.size; omega)
    have hv : (UInt16.ofNat (0xDC00 + n % 0x400)).toNat = 0xDC00 + n % 0x400 :=
      UInt16.toNat_ofNat_of_lt' (by unfold UInt16.size; omega)
    have hpair : IsHigh (UInt16.ofNat (0xD800 + n / 0x400)) ∧
        IsLow (UInt16.ofNat (0xDC00 + n % 0x400)) := by
      unfold IsHigh IsLow
      rw [hu, hv]
      omega
    have hplain : m.escaped c = m.size c := by
      unfold Measure.escaped
      simp only [List.contains_cons, List.contains_nil, Bool.or_false, Bool.or_eq_true, beq_iff_eq]
      rw [if_neg (by omega), if_neg (by omega)]
    have hvalue : 0x10000 + (0xD800 + n / 0x400 - 0xD800) * 0x400 +
        (0xDC00 + n % 0x400 - 0xDC00) = c.toNat := by omega
    rw [if_neg hc, hn, Nat.add_sub_cancel_left, List.cons_append, List.cons_append,
      List.nil_append, escape, if_pos hpair, hu, hv, hvalue, Char.ofNat_toNat, m.of_cons, hplain]

/-- **What a string comes to.** -/
theorem of_escape (text : List Char) :
    m.of (escape (units text)) = (text.map m.escaped).sum := by
  induction text with
  | nil => rfl
  | cons c text ih =>
    rw [units, List.flatMap_cons, ← units, of_escape_append, ih, List.map_cons, List.sum_cons]

end Strings

section Values

variable {ν : Type} (numbers : NumberFormat ν) (m : Measure)

theorem of_print_string (text : List Char) :
    m.of (print numbers (.string (units text))) = m.quoted text := by
  have hquote : m.size '"' = 1 := m.ascii '"' (by decide)
  rw [print, m.of_cons, m.of_append, m.of_cons, m.of_nil, of_escape, hquote, Measure.quoted]
  omega

theorem of_print_bool (b : Bool) :
    m.of (print numbers (.bool b)) = if b then 4 else 5 := by
  cases b with
  | true =>
    rw [print]
    exact m.of_ascii rfl
  | false =>
    rw [print]
    exact m.of_ascii rfl

theorem of_printElements (value : Value ν) (values : List (Value ν)) :
    m.of (printElements numbers (value :: values)) =
      ((value :: values).map fun value => m.of (print numbers value)).sum + values.length + 1 := by
  induction values generalizing value with
  | nil =>
    rw [printElements, m.of_append, m.of_cons, m.of_nil, m.ascii ']' (by decide),
      List.map_singleton, List.sum_singleton]
    rfl
  | cons next values ih =>
    simp only [printElements, m.of_append, m.of_cons, m.ascii ',' (by decide), ih, List.map_cons,
      List.sum_cons, List.length_cons]
    omega

/-- **What an array comes to**, with its brackets and commas. -/
theorem of_print_array (values : List (Value ν)) :
    m.of (print numbers (.array values)) =
      2 + (values.map fun value => m.of (print numbers value)).sum + (values.length - 1) := by
  rw [print, m.of_cons, m.ascii '[' (by decide)]
  cases values with
  | nil =>
    rw [printElements, m.of_cons, m.of_nil, m.ascii ']' (by decide)]
    rfl
  | cons value values =>
    rw [of_printElements, List.length_cons, Nat.add_sub_cancel]
    omega

/-- What a property comes to. -/
def sizeOfMember (member : Units × Value ν) : ℕ :=
  3 + m.of (escape member.1) + m.of (print numbers member.2)

theorem of_printMembers (member : Units × Value ν) (members : List (Units × Value ν)) :
    m.of (printMembers numbers (member :: members)) =
      ((member :: members).map (sizeOfMember numbers m)).sum + members.length + 1 := by
  have hquote : m.size '"' = 1 := m.ascii '"' (by decide)
  have hcolon : m.size ':' = 1 := m.ascii ':' (by decide)
  induction members generalizing member with
  | nil =>
    obtain ⟨key, value⟩ := member
    simp only [printMembers, m.of_cons, m.of_append, m.of_nil, hquote, hcolon,
      m.ascii '}' (by decide), List.map_singleton, List.sum_singleton, sizeOfMember,
      List.length_nil]
    omega
  | cons next members ih =>
    obtain ⟨key, value⟩ := member
    simp only [printMembers, m.of_cons, m.of_append, hquote, hcolon, m.ascii ',' (by decide), ih,
      List.map_cons, List.sum_cons, sizeOfMember, List.length_cons]
    omega

/-- **What an object comes to**, with its braces and commas. -/
theorem of_print_object (members : List (Units × Value ν)) :
    m.of (print numbers (.object members)) =
      2 + (members.map (sizeOfMember numbers m)).sum + (members.length - 1) := by
  rw [print, m.of_cons, m.ascii '{' (by decide)]
  cases members with
  | nil =>
    rw [printMembers, m.of_cons, m.of_nil, m.ascii '}' (by decide)]
    rfl
  | cons member members =>
    rw [of_printMembers, List.length_cons, Nat.add_sub_cancel]
    omega

end Values

end Json
