import Mathlib.Data.List.TakeWhile
import SilenceWatch.Library.Numerals

/-!
# JSON

Values, how they are printed and how a text is read. Strings are sequences of UTF-16 code
units, so that halves of surrogate pairs may stand alone; numbers are of any type that has a
format. What is printed is read back.
-/

namespace Json

/-- A string, as its code units. -/
abbrev Units := List UInt16

/-- A value. An object has its properties in the order in which they are written; of those
with one key the last counts. -/
inductive Value (ν : Type)
  | null
  | bool (b : Bool)
  | number (n : ν)
  | string (text : Units)
  | array (elements : List (Value ν))
  | object (members : List (Units × Value ν))

/-- The property of an object. -/
def Value.get? {ν : Type} (key : Units) : Value ν → Option (Value ν)
  | .object members => (members.reverse.find? (·.1 = key)).map (·.2)
  | _ => none

section Strings

/-- The code units of a character. -/
def unitsOf (c : Char) : Units :=
  if c.toNat < 0x10000 then [UInt16.ofNat c.toNat]
  else
    [UInt16.ofNat (0xD800 + (c.toNat - 0x10000) / 0x400),
      UInt16.ofNat (0xDC00 + (c.toNat - 0x10000) % 0x400)]

/-- The code units of a text. -/
def units (text : List Char) : Units := text.flatMap unitsOf

def IsHigh (u : UInt16) : Prop := 0xD800 ≤ u.toNat ∧ u.toNat ≤ 0xDBFF
  deriving Decidable

def IsLow (u : UInt16) : Prop := 0xDC00 ≤ u.toNat ∧ u.toNat ≤ 0xDFFF
  deriving Decidable

/-- The characters that are escaped by a letter or by themselves. -/
def shortEscapes : List (Char × UInt16) :=
  [('"', 0x22), ('\\', 0x5C), ('/', 0x2F), ('b', 8), ('f', 12), ('n', 10), ('r', 13), ('t', 9)]

/-- A code unit by its number. -/
def hexEscape (u : UInt16) : List Char :=
  let n := u.toNat
  ['\\', 'u', (n / 4096).digitChar, (n / 256 % 16).digitChar, (n / 16 % 16).digitChar,
    (n % 16).digitChar]

/-- A code unit that is no half of a pair. -/
def escapeUnit (u : UInt16) : List Char :=
  if u = 0x22 then ['\\', '"']
  else if u = 0x5C then ['\\', '\\']
  else if u = 8 then ['\\', 'b']
  else if u = 12 then ['\\', 'f']
  else if u = 10 then ['\\', 'n']
  else if u = 13 then ['\\', 'r']
  else if u = 9 then ['\\', 't']
  else if u.toNat < 0x20 ∨ IsHigh u ∨ IsLow u then hexEscape u
  else [Char.ofNat u.toNat]

/-- A string between its quotes. -/
def escape : Units → List Char
  | [] => []
  | [u] => escapeUnit u
  | u :: v :: rest =>
    if IsHigh u ∧ IsLow v then
      Char.ofNat (0x10000 + (u.toNat - 0xD800) * 0x400 + (v.toNat - 0xDC00)) :: escape rest
    else escapeUnit u ++ escape (v :: rest)

/-- A string up to its closing quote, and what follows. -/
def readString : List Char → Option (Units × List Char)
  | [] => none
  | '"' :: rest => some ([], rest)
  | '\\' :: 'u' :: a :: b :: c :: d :: rest =>
    if [a, b, c, d].all (Numeral.IsDigit 16 ·) then
      (readString rest).map fun read =>
        (UInt16.ofNat (Numeral.value 16 [a, b, c, d]) :: read.1, read.2)
    else none
  | '\\' :: e :: rest =>
    match shortEscapes.lookup e with
    | some u => (readString rest).map fun read => (u :: read.1, read.2)
    | none => none
  | c :: rest =>
    if c.toNat < 0x20 then none
    else (readString rest).map fun read => (unitsOf c ++ read.1, read.2)

variable {u v : UInt16} {rest : List Char}

theorem readString_quote : readString ('"' :: rest) = some ([], rest) := rfl

/-- A text of single units has the codes of its characters. -/
theorem map_toNat_units {text : List Char} (htext : ∀ c ∈ text, c.toNat < 0x10000) :
    (units text).map UInt16.toNat = text.map Char.toNat := by
  induction text with
  | nil => rfl
  | cons c text ih =>
    have hc := htext c List.mem_cons_self
    have hrest : (units text).map UInt16.toNat = text.map Char.toNat :=
      ih fun d hd => htext d (List.mem_cons_of_mem _ hd)
    rw [units, List.flatMap_cons, ← units, List.map_append, hrest, unitsOf, if_pos hc,
      List.map_singleton, UInt16.toNat_ofNat_of_lt' hc]
    rfl

/-- The unit of a character is in a text of single units only if the character is. -/
theorem ofNat_notMem_units {c : Char} {text : List Char} (hc : c.toNat < 0x10000)
    (htext : ∀ d ∈ text, d.toNat < 0x10000) (hnot : c ∉ text) :
    UInt16.ofNat c.toNat ∉ units text := by
  intro hmem
  have hcode : c.toNat ∈ (units text).map UInt16.toNat :=
    List.mem_map.mpr ⟨_, hmem, UInt16.toNat_ofNat_of_lt' hc⟩
  rw [map_toNat_units htext] at hcode
  obtain ⟨d, hd, hsame⟩ := List.mem_map.mp hcode
  rw [Char.toNat_inj.mp hsame] at hd
  exact hnot hd

/-- Texts are joined as their units are. -/
theorem units_intercalate {c : Char} (hc : c.toNat < 0x10000) (texts : List (List Char)) :
    units (List.intercalate [c] texts) =
      List.intercalate [UInt16.ofNat c.toNat] (texts.map units) := by
  induction texts with
  | nil => rfl
  | cons text texts ih =>
    cases texts with
    | nil => simp [List.intercalate]
    | cons next texts =>
      have hjoin : ∀ {α : Type} (s : α) (x y : List α) (rest : List (List α)),
          List.intercalate [s] (x :: y :: rest) = x ++ s :: List.intercalate [s] (y :: rest) := by
        intro α s x y rest
        simp [List.intercalate]
      rw [hjoin, units, List.flatMap_append, List.flatMap_cons, ← units, ← units, ih, unitsOf,
        if_pos hc]
      simp only [List.map_cons, hjoin, List.singleton_append]

/-- An escape by a letter. -/
theorem readString_short {e : Char} (he : shortEscapes.lookup e = some u) :
    readString ('\\' :: e :: rest) = (readString rest).map fun read => (u :: read.1, read.2) := by
  have hu : e ≠ 'u' := by
    rintro rfl
    have hnone : shortEscapes.lookup 'u' = none := by decide
    rw [hnone] at he
    cases he
  rw [readString.eq_def]
  split
  · next h => cases h
  · next h => cases h
  · next h => exact absurd (List.cons.inj (List.cons.inj h).2).1 hu
  · next h =>
    obtain ⟨rfl, rfl⟩ := List.cons.inj (List.cons.inj h).2
    rw [he]
  · next hnot h =>
    obtain ⟨hc, hrest⟩ := List.cons.inj h
    exact absurd hrest.symm (hnot e rest hc.symm)

/-- An escape by number. -/
theorem readString_hexEscape :
    readString (hexEscape u ++ rest) = (readString rest).map fun read => (u :: read.1, read.2) := by
  have hu := u.toNat_lt
  have hdigit : ∀ n < 16, Numeral.digitValue n.digitChar = n ∧ Numeral.IsDigit 16 n.digitChar := by
    decide
  have ha := hdigit (u.toNat / 4096) (by omega)
  have hb := hdigit (u.toNat / 256 % 16) (by omega)
  have hc := hdigit (u.toNat / 16 % 16) (by omega)
  have hd := hdigit (u.toNat % 16) (by omega)
  have hvalue : Numeral.value 16 [(u.toNat / 4096).digitChar, (u.toNat / 256 % 16).digitChar,
      (u.toNat / 16 % 16).digitChar, (u.toNat % 16).digitChar] = u.toNat := by
    simp only [Numeral.value, List.foldl_cons, List.foldl_nil, ha.1, hb.1, hc.1, hd.1]
    omega
  simp only [hexEscape, List.cons_append, List.nil_append]
  rw [readString, if_pos, hvalue, UInt16.ofNat_toNat]
  simp [ha.2, hb.2, hc.2, hd.2]

/-- A character that stands for itself. -/
theorem readString_plain {c : Char} (hquote : c ≠ '"') (hbackslash : c ≠ '\\')
    (hcontrol : 0x20 ≤ c.toNat) :
    readString (c :: rest) = (readString rest).map fun read => (unitsOf c ++ read.1, read.2) := by
  rw [readString.eq_def]
  split
  · next h => cases h
  · next h => exact absurd (List.cons.inj h).1 hquote
  · next h => exact absurd (List.cons.inj h).1 hbackslash
  · next h => exact absurd (List.cons.inj h).1 hbackslash
  · next h =>
    obtain ⟨rfl, rfl⟩ := List.cons.inj h
    rw [if_neg (by omega)]

theorem ofNat_eq {n : ℕ} (h : n = u.toNat) : UInt16.ofNat n = u := by
  rw [h]
  exact UInt16.ofNat_toNat

theorem toNat_ofNat {n : ℕ} (hn : n < 0xD800 ∨ 0xDFFF < n ∧ n < 0x110000) :
    (Char.ofNat n).toNat = n := by
  have hvalid : n.isValidChar := hn
  rw [Char.ofNat, dif_pos hvalid]
  rfl

/-- A code unit that is no half of a pair is a character. -/
theorem unitsOf_ofNat (hhigh : ¬ IsHigh u) (hlow : ¬ IsLow u) :
    (Char.ofNat u.toNat).toNat = u.toNat ∧ unitsOf (Char.ofNat u.toNat) = [u] := by
  have hu := u.toNat_lt
  unfold IsHigh at hhigh
  unfold IsLow at hlow
  have hnat := toNat_ofNat (n := u.toNat) (by omega)
  refine ⟨hnat, ?_⟩
  rw [unitsOf, hnat, if_pos (by omega), UInt16.ofNat_toNat]

/-- A pair is a character. -/
theorem unitsOf_pair (hu : IsHigh u) (hv : IsLow v) :
    let n := 0x10000 + (u.toNat - 0xD800) * 0x400 + (v.toNat - 0xDC00)
    (Char.ofNat n).toNat = n ∧ unitsOf (Char.ofNat n) = [u, v] := by
  intro n
  obtain ⟨hu, hu'⟩ := hu
  obtain ⟨hv, hv'⟩ := hv
  have hnat : (Char.ofNat n).toNat = n := toNat_ofNat (by omega)
  refine ⟨hnat, ?_⟩
  rw [unitsOf, hnat, if_neg (by omega), ofNat_eq (u := u) (by omega), ofNat_eq (u := v) (by omega)]

/-- Reading one code unit. -/
theorem readString_escapeUnit :
    readString (escapeUnit u ++ rest) = (readString rest).map fun read =>
      (u :: read.1, read.2) := by
  unfold escapeUnit
  split_ifs with hquote hbackslash hb hf hn hr ht hhex
  · exact readString_short (by rw [hquote]; rfl)
  · exact readString_short (by rw [hbackslash]; rfl)
  · exact readString_short (by rw [hb]; rfl)
  · exact readString_short (by rw [hf]; rfl)
  · exact readString_short (by rw [hn]; rfl)
  · exact readString_short (by rw [hr]; rfl)
  · exact readString_short (by rw [ht]; rfl)
  · exact readString_hexEscape
  · simp only [not_or, Nat.not_lt] at hhex
    obtain ⟨hnat, hunits⟩ := unitsOf_ofNat hhex.2.1 hhex.2.2
    have hcode : ∀ c : Char, u ≠ UInt16.ofNat c.toNat → Char.ofNat u.toNat ≠ c := by
      rintro c hne rfl
      rw [hnat, UInt16.ofNat_toNat] at hne
      exact hne rfl
    rw [List.singleton_append, readString_plain (hcode '"' hquote) (hcode '\\' hbackslash)
      (by rw [hnat]; exact hhex.1), hunits]
    rfl

/-- **A string is read back.** -/
theorem readString_escape (text : Units) (rest : List Char) :
    readString (escape text ++ '"' :: rest) = some (text, rest) := by
  induction text using escape.induct with
  | case1 => rfl
  | case2 u =>
    rw [escape, readString_escapeUnit, readString_quote]
    rfl
  | case3 u v units hpair ih =>
    obtain ⟨hnat, hunits⟩ := unitsOf_pair hpair.1 hpair.2
    have hlarge : ∀ c : Char, c.toNat < 0x10000 →
        Char.ofNat (0x10000 + (u.toNat - 0xD800) * 0x400 + (v.toNat - 0xDC00)) ≠ c := by
      rintro c hc rfl
      omega
    rw [escape, if_pos hpair, List.cons_append, readString_plain (hlarge '"' (by decide))
      (hlarge '\\' (by decide)) (by omega), ih, hunits]
    rfl
  | case4 u v units hpair ih =>
    rw [escape, if_neg hpair, List.append_assoc, readString_escapeUnit, ih]
    rfl

end Strings

section Numbers

/-- A character of a number. -/
def isNumberChar (c : Char) : Bool := c.isDigit || ['+', '-', '.', 'e', 'E'].contains c

/-- What follows the digits that a text begins with. -/
def afterDigits : List Char → Option (List Char)
  | [] => none
  | c :: rest => if c.isDigit then some (rest.dropWhile Char.isDigit) else none

/-- What ends a number after its fraction. -/
def isExponent : List Char → Bool
  | [] => true
  | e :: rest =>
    (e = 'e' || e = 'E') &&
      afterDigits (match rest with
        | '+' :: digits => digits
        | '-' :: digits => digits
        | digits => digits) = some []

/-- What ends a number after its whole part. -/
def isFraction : List Char → Bool
  | '.' :: digits =>
    match afterDigits digits with
    | some rest => isExponent rest
    | none => false
  | rest => isExponent rest

/-- A number without its sign. -/
def isUnsigned : List Char → Bool
  | '0' :: rest => isFraction rest
  | digits =>
    match afterDigits digits with
    | some rest => isFraction rest
    | none => false

/-- The text of a number. -/
def isLiteral : List Char → Bool
  | '-' :: unsigned => isUnsigned unsigned
  | unsigned => isUnsigned unsigned

/-- Numbers that are printed as literals and read back. -/
structure NumberFormat (ν : Type) where
  print : ν → List Char
  read : List Char → ν
  isLiteral_print : ∀ n, isLiteral (print n) = true
  read_print : ∀ n, read (print n) = n

variable {text rest : List Char}

/-- Digits are characters of a number. -/
theorem isNumberChar_of_afterDigits (h : afterDigits text = some rest)
    (hrest : ∀ c ∈ rest, isNumberChar c) : ∀ c ∈ text, isNumberChar c := by
  cases text with
  | nil => cases h
  | cons d digits =>
    have hdigit : ∀ c : Char, c.isDigit → isNumberChar c := fun c hc => by simp [isNumberChar, hc]
    rw [afterDigits] at h
    split at h
    · next hd =>
      obtain rfl := Option.some_inj.mp h
      intro c hc
      rcases List.mem_cons.mp hc with rfl | hc
      · exact hdigit c hd
      · rw [← List.takeWhile_append_dropWhile (p := Char.isDigit) (l := digits)] at hc
        rcases List.mem_append.mp hc with htake | hdrop
        · exact hdigit c (List.mem_takeWhile_imp htake)
        · exact hrest c hdrop
    · cases h

theorem isNumberChar_of_isExponent (h : isExponent text = true) : ∀ c ∈ text, isNumberChar c := by
  cases text with
  | nil => simp
  | cons e rest =>
    simp only [isExponent, Bool.and_eq_true, Bool.or_eq_true, decide_eq_true_eq] at h
    obtain ⟨he, hdigits⟩ := h
    have hdigits := isNumberChar_of_afterDigits hdigits (by simp)
    intro c hc
    rcases List.mem_cons.mp hc with rfl | hc
    · rcases he with rfl | rfl <;> decide
    · split at hdigits
      · rcases List.mem_cons.mp hc with rfl | hc
        · decide
        · exact hdigits c hc
      · rcases List.mem_cons.mp hc with rfl | hc
        · decide
        · exact hdigits c hc
      · exact hdigits c hc

theorem isNumberChar_of_isFraction (h : isFraction text = true) : ∀ c ∈ text, isNumberChar c := by
  unfold isFraction at h
  split at h
  · next digits =>
    split at h
    · next rest hdigits =>
      have hchars := isNumberChar_of_afterDigits hdigits (isNumberChar_of_isExponent h)
      intro c hc
      rcases List.mem_cons.mp hc with rfl | hc
      · decide
      · exact hchars c hc
    · cases h
  · exact isNumberChar_of_isExponent h

theorem isNumberChar_of_isUnsigned (h : isUnsigned text = true) :
    (∀ c ∈ text, isNumberChar c) ∧ ∃ d digits, text = d :: digits ∧ d.isDigit := by
  unfold isUnsigned at h
  split at h
  · next digits =>
    refine ⟨?_, '0', digits, rfl, by decide⟩
    intro c hc
    rcases List.mem_cons.mp hc with rfl | hc
    · decide
    · exact isNumberChar_of_isFraction h c hc
  · split at h
    · next rest hdigits =>
      refine ⟨isNumberChar_of_afterDigits hdigits (isNumberChar_of_isFraction h), ?_⟩
      cases text with
      | nil => cases hdigits
      | cons d digits =>
        refine ⟨d, digits, rfl, ?_⟩
        rw [afterDigits] at hdigits
        split at hdigits
        · next hd => exact hd
        · cases hdigits
    · cases h

/-- A literal begins with a digit or a minus sign, and has characters of numbers only. -/
theorem isNumberChar_of_isLiteral (h : isLiteral text = true) :
    (∀ c ∈ text, isNumberChar c) ∧ ∃ d digits, text = d :: digits ∧ (d = '-' ∨ d.isDigit) := by
  unfold isLiteral at h
  split at h
  · next unsigned =>
    refine ⟨?_, '-', unsigned, rfl, Or.inl rfl⟩
    intro c hc
    rcases List.mem_cons.mp hc with rfl | hc
    · decide
    · exact (isNumberChar_of_isUnsigned h).1 c hc
  · obtain ⟨hchars, d, digits, rfl, hd⟩ := isNumberChar_of_isUnsigned h
    exact ⟨hchars, d, digits, rfl, Or.inr hd⟩

/-- What a positive number is written as begins with another digit than zero. -/
theorem toDigits_cons {n : ℕ} (hn : 0 < n) :
    ∃ c rest, Nat.toDigits 10 n = c :: rest ∧ c ≠ '0' := by
  induction n using Nat.strongRecOn with
  | ind n ih =>
    by_cases hsmall : n < 10
    · refine ⟨n.digitChar, [], Nat.toDigits_of_lt_base hsmall, ?_⟩
      intro hzero
      have hdigits : Nat.toDigits 10 n = ['0'] := by
        rw [Nat.toDigits_of_lt_base hsmall, hzero]
      have hdigit := (Numeral.toDigits_eq_zero_iff (by omega) (by omega)).mp hdigits
      omega
    · obtain ⟨c, rest, heq, hc⟩ := ih (n / 10) (by omega) (by omega)
      refine ⟨c, rest ++ [(n % 10).digitChar], ?_, hc⟩
      rw [Nat.toDigits_of_base_le (by omega) (by omega), heq, List.cons_append]

/-- Natural numbers in base ten. -/
def decimal : NumberFormat ℕ where
  print := Nat.toDigits 10
  read := Numeral.value 10
  isLiteral_print n := by
    have hdigits : ∀ c ∈ Nat.toDigits 10 n, c.isDigit = true := fun c hc =>
      Nat.isDigit_of_mem_toDigits (by omega) (by omega) hc
    rcases Nat.eq_zero_or_pos n with rfl | hn
    · decide
    · obtain ⟨c, rest, heq, hc⟩ := toDigits_cons hn
      rw [heq] at hdigits ⊢
      have hdigit := hdigits c List.mem_cons_self
      have hrest : rest.dropWhile Char.isDigit = [] :=
        List.dropWhile_eq_nil_iff.mpr fun d hd => hdigits d (List.mem_cons_of_mem _ hd)
      have hminus : c ≠ '-' := by
        rintro rfl
        exact absurd hdigit (by decide)
      unfold isLiteral
      split
      · next heq' => exact absurd (List.cons.inj heq').1 hminus
      · unfold isUnsigned
        split
        · next heq' => exact absurd (List.cons.inj heq').1 hc
        · rw [afterDigits, if_pos hdigit, hrest]
          rfl
  read_print n := Numeral.value_toDigits (by omega) (by omega) n

end Numbers

section Texts

variable {ν : Type} (numbers : NumberFormat ν)

mutual

/-- The text of a value. -/
def print : Value ν → List Char
  | .null => ['n', 'u', 'l', 'l']
  | .bool true => ['t', 'r', 'u', 'e']
  | .bool false => ['f', 'a', 'l', 's', 'e']
  | .number n => numbers.print n
  | .string text => '"' :: (escape text ++ ['"'])
  | .array elements => '[' :: printElements elements
  | .object members => '{' :: printMembers members

/-- The elements of an array and its closing bracket. -/
def printElements : List (Value ν) → List Char
  | [] => [']']
  | [value] => print value ++ [']']
  | value :: next :: rest => print value ++ ',' :: printElements (next :: rest)

/-- The properties of an object and its closing brace. -/
def printMembers : List (Units × Value ν) → List Char
  | [] => ['}']
  | [(key, value)] => '"' :: (escape key ++ '"' :: ':' :: (print value ++ ['}']))
  | (key, value) :: next :: rest =>
    '"' :: (escape key ++ '"' :: ':' :: (print value ++ ',' :: printMembers (next :: rest)))

end

/-- White space between tokens. -/
def isBlank (c : Char) : Bool := [' ', '\t', '\n', '\r'].contains c

def skip (text : List Char) : List Char := text.dropWhile isBlank

mutual

/-- A value at the start of a text, and what follows. -/
def readValue : ℕ → List Char → Option (Value ν × List Char)
  | 0, _ => none
  | fuel + 1, text =>
    match skip text with
    | 'n' :: 'u' :: 'l' :: 'l' :: rest => some (.null, rest)
    | 't' :: 'r' :: 'u' :: 'e' :: rest => some (.bool true, rest)
    | 'f' :: 'a' :: 'l' :: 's' :: 'e' :: rest => some (.bool false, rest)
    | '"' :: rest => (readString rest).map fun read => (.string read.1, read.2)
    | '[' :: rest =>
      match skip rest with
      | ']' :: rest => some (.array [], rest)
      | rest => (readElements fuel rest).map fun read => (.array read.1, read.2)
    | '{' :: rest =>
      match skip rest with
      | '}' :: rest => some (.object [], rest)
      | rest => (readMembers fuel rest).map fun read => (.object read.1, read.2)
    | rest =>
      let token := rest.takeWhile isNumberChar
      if isLiteral token then some (.number (numbers.read token), rest.dropWhile isNumberChar)
      else none

/-- One or more elements up to the closing bracket. -/
def readElements : ℕ → List Char → Option (List (Value ν) × List Char)
  | 0, _ => none
  | fuel + 1, text =>
    match readValue fuel text with
    | none => none
    | some (value, rest) =>
      match skip rest with
      | ']' :: rest => some ([value], rest)
      | ',' :: rest => (readElements fuel rest).map fun read => (value :: read.1, read.2)
      | _ => none

/-- One or more properties up to the closing brace. -/
def readMembers : ℕ → List Char → Option (List (Units × Value ν) × List Char)
  | 0, _ => none
  | fuel + 1, text =>
    match skip text with
    | '"' :: rest =>
      match readString rest with
      | none => none
      | some (key, rest) =>
        match skip rest with
        | ':' :: rest =>
          match readValue fuel rest with
          | none => none
          | some (value, rest) =>
            match skip rest with
            | '}' :: rest => some ([(key, value)], rest)
            | ',' :: rest => (readMembers fuel rest).map fun read =>
              ((key, value) :: read.1, read.2)
            | _ => none
        | _ => none
    | _ => none

end

/-- The value of a text. A value nests at most as deep as its text is long. -/
def read (text : List Char) : Option (Value ν) :=
  match readValue numbers (2 * text.length + 1) text with
  | some (value, rest) => if skip rest = [] then some value else none
  | none => none

mutual

/-- How many steps it takes to read a value. -/
def size : Value ν → ℕ
  | .array elements => 1 + sizeElements elements
  | .object members => 1 + sizeMembers members
  | _ => 1

def sizeElements : List (Value ν) → ℕ
  | [] => 0
  | value :: rest => 1 + size value + sizeElements rest

def sizeMembers : List (Units × Value ν) → ℕ
  | [] => 0
  | (_, value) :: rest => 1 + size value + sizeMembers rest

end

variable {numbers}

theorem skip_cons {c : Char} {rest : List Char} (hc : isBlank c = false) :
    skip (c :: rest) = c :: rest := by
  rw [skip, List.dropWhile_cons_of_neg (by simp [hc])]

/-- A text that does not go on with a number. -/
def Ends (rest : List Char) : Prop := ∀ c ∈ rest.head?, isNumberChar c = false

theorem ends_cons {c : Char} {rest : List Char} (hc : isNumberChar c = false) :
    Ends (c :: rest) := by
  rintro d ⟨⟩
  exact hc

/-- A number begins with none of the characters that begin other values, and no blank. -/
theorem ne_of_literalHead {d : Char} (hd : d = '-' ∨ d.isDigit) :
    isBlank d = false ∧ ∀ c ∈ ['n', 't', 'f', '"', '[', '{', ']', '}'], d ≠ c := by
  rcases hd with rfl | hd
  · refine ⟨by decide, ?_⟩
    rintro c hc rfl
    revert hc
    decide
  · have hbounds : 48 ≤ d.toNat ∧ d.toNat ≤ 57 := by
      simp only [Char.isDigit, Bool.and_eq_true, decide_eq_true_eq, ge_iff_le] at hd
      exact ⟨hd.1, hd.2⟩
    have hall : ∀ n < 58, 48 ≤ n → isBlank (Char.ofNat n) = false ∧
        Char.ofNat n ∉ ['n', 't', 'f', '"', '[', '{', ']', '}'] := by
      decide
    obtain ⟨hblank, hother⟩ := hall d.toNat (by omega) hbounds.1
    rw [Char.ofNat_toNat] at hblank hother
    refine ⟨hblank, ?_⟩
    rintro c hc rfl
    exact hother hc

/-- A value begins with no blank and no closing bracket. -/
theorem print_head (numbers : NumberFormat ν) (value : Value ν) :
    ∃ c text, print numbers value = c :: text ∧
    isBlank c = false ∧ c ≠ ']' := by
  cases value with
  | null => exact ⟨'n', _, by rw [print], by decide, by decide⟩
  | bool b =>
    cases b with
    | true => exact ⟨'t', _, by rw [print], by decide, by decide⟩
    | false => exact ⟨'f', _, by rw [print], by decide, by decide⟩
  | number n =>
    obtain ⟨-, d, digits, hprint, hd⟩ := isNumberChar_of_isLiteral (numbers.isLiteral_print n)
    obtain ⟨hblank, hne⟩ := ne_of_literalHead hd
    exact ⟨d, digits, by rw [print, hprint], hblank, hne ']' (by decide)⟩
  | string text => exact ⟨'"', _, by rw [print], by decide, by decide⟩
  | array elements => exact ⟨'[', _, by rw [print], by decide, by decide⟩
  | object members => exact ⟨'{', _, by rw [print], by decide, by decide⟩

section Heads

variable {fuel : ℕ} {rest : List Char}

theorem readValue_quote : readValue numbers (fuel + 1) ('"' :: rest) =
    (readString rest).map fun read => (.string read.1, read.2) := rfl

theorem readValue_bracket {c : Char} (hblank : isBlank c = false) (hbracket : c ≠ ']') :
    readValue numbers (fuel + 1) ('[' :: c :: rest) =
      (readElements numbers fuel (c :: rest)).map fun read => (.array read.1, read.2) := by
  have hskip : readValue numbers (fuel + 1) ('[' :: c :: rest) = match skip (c :: rest) with
      | ']' :: rest => some (.array [], rest)
      | rest => (readElements numbers fuel rest).map fun read => (.array read.1, read.2) := rfl
  rw [hskip, skip_cons hblank]
  split
  · next h => exact absurd (List.cons.inj h).1 hbracket
  · rfl

theorem readValue_brace : readValue numbers (fuel + 1) ('{' :: '"' :: rest) =
    (readMembers numbers fuel ('"' :: rest)).map fun read => (.object read.1, read.2) := rfl

/-- A property is read up to its value. -/
theorem readMembers_member (key : Units) (text : List Char) :
    readMembers numbers (fuel + 1) ('"' :: (escape key ++ '"' :: ':' :: text)) =
      match readValue numbers fuel text with
      | none => none
      | some (value, rest) =>
        match skip rest with
        | '}' :: rest => some ([(key, value)], rest)
        | ',' :: rest => (readMembers numbers fuel rest).map fun read =>
          ((key, value) :: read.1, read.2)
        | _ => none := by
  rw [readMembers, skip_cons (by decide)]
  simp only [readString_escape]
  rw [skip_cons (by decide)]
  rfl

end Heads

/-- A number is read up to its end. -/
theorem readValue_number (n : ν) {fuel : ℕ} {rest : List Char} (hrest : Ends rest) :
    readValue numbers (fuel + 1) (numbers.print n ++ rest) = some (.number n, rest) := by
  obtain ⟨hchars, d, digits, hprint, hd⟩ := isNumberChar_of_isLiteral (numbers.isLiteral_print n)
  obtain ⟨hblank, hne⟩ := ne_of_literalHead hd
  have htoken : (numbers.print n ++ rest).takeWhile isNumberChar = numbers.print n := by
    rw [List.takeWhile_append_of_pos hchars]
    cases rest with
    | nil => simp
    | cons c rest => simp [hrest c rfl]
  have hafter : (numbers.print n ++ rest).dropWhile isNumberChar = rest := by
    rw [List.dropWhile_append_of_pos hchars]
    cases rest with
    | nil => rfl
    | cons c rest => simp [hrest c rfl]
  have hskip : skip (numbers.print n ++ rest) = numbers.print n ++ rest := by
    rw [hprint, List.cons_append, skip_cons hblank]
  rw [readValue, hskip]
  split
  iterate 6
    next h =>
      rw [hprint] at h
      exact absurd (List.cons.inj h).1 (hne _ (by decide))
  dsimp only
  rw [htoken, hafter, if_pos (numbers.isLiteral_print n), numbers.read_print]

theorem printElements_head (value : Value ν) (others : List (Value ν)) :
    ∃ c text, printElements numbers (value :: others) = c :: text ∧ isBlank c = false ∧
      c ≠ ']' := by
  obtain ⟨c, text, hprint, hc⟩ := print_head numbers value
  cases others with
  | nil => exact ⟨c, _, by rw [printElements, hprint, List.cons_append], hc⟩
  | cons next others => exact ⟨c, _, by rw [printElements, hprint, List.cons_append], hc⟩

theorem printMembers_head (member : Units × Value ν) (others : List (Units × Value ν)) :
    ∃ text, printMembers numbers (member :: others) = '"' :: text := by
  obtain ⟨key, value⟩ := member
  cases others with
  | nil => exact ⟨_, by rw [printMembers]⟩
  | cons next others => exact ⟨_, by rw [printMembers]⟩

/-- What is printed is read back in a number of steps. -/
structure ReadsBack (numbers : NumberFormat ν) (fuel : ℕ) : Prop where
  value : ∀ value rest, size value ≤ fuel → Ends rest →
    readValue numbers fuel (print numbers value ++ rest) = some (value, rest)
  elements : ∀ first others rest, sizeElements (first :: others) ≤ fuel →
    readElements numbers fuel (printElements numbers (first :: others) ++ rest) =
      some (first :: others, rest)
  members : ∀ first others rest, sizeMembers (first :: others) ≤ fuel →
    readMembers numbers fuel (printMembers numbers (first :: others) ++ rest) =
      some (first :: others, rest)

namespace ReadsBack

variable {fuel : ℕ}

theorem value_succ (ih : ReadsBack numbers fuel) (value : Value ν) {rest : List Char}
    (hsize : size value ≤ fuel + 1) (hrest : Ends rest) :
    readValue numbers (fuel + 1) (print numbers value ++ rest) = some (value, rest) := by
  cases value with
  | null => rfl
  | bool b => cases b <;> rfl
  | number n => exact readValue_number n hrest
  | string text =>
    rw [print, List.cons_append, readValue_quote, List.append_assoc, List.singleton_append,
      readString_escape]
    rfl
  | array elements =>
    cases elements with
    | nil => rfl
    | cons first others =>
      rw [size] at hsize
      have hread := ih.elements first others rest (by omega)
      obtain ⟨c, text, hhead, hblank, hbracket⟩ := printElements_head first others
      rw [hhead, List.cons_append] at hread
      rw [print, hhead, List.cons_append, List.cons_append,
        readValue_bracket hblank hbracket, hread]
      rfl
  | object members =>
    cases members with
    | nil => rfl
    | cons first others =>
      rw [size] at hsize
      have hread := ih.members first others rest (by omega)
      obtain ⟨text, hhead⟩ := printMembers_head first others
      rw [hhead, List.cons_append] at hread
      rw [print, hhead, List.cons_append, List.cons_append, readValue_brace, hread]
      rfl

theorem elements_succ (ih : ReadsBack numbers fuel) (first : Value ν) (others : List (Value ν))
    {rest : List Char} (hsize : sizeElements (first :: others) ≤ fuel + 1) :
    readElements numbers (fuel + 1) (printElements numbers (first :: others) ++ rest) =
      some (first :: others, rest) := by
  rw [sizeElements] at hsize
  cases others with
  | nil =>
    have hvalue := ih.value first (']' :: rest) (by omega) (ends_cons (by decide))
    rw [printElements, List.append_assoc, List.singleton_append, readElements, hvalue]
    rfl
  | cons next others =>
    have hvalue := ih.value first
        (',' :: (printElements numbers (next :: others) ++ rest)) (by omega)
      (ends_cons (by decide))
    have hread := ih.elements next others rest (by omega)
    rw [printElements, List.append_assoc, List.cons_append, readElements, hvalue]
    simp only [skip_cons (c := ',') (by decide), hread]
    rfl

theorem members_succ (ih : ReadsBack numbers fuel) (first : Units × Value ν)
    (others : List (Units × Value ν)) {rest : List Char}
    (hsize : sizeMembers (first :: others) ≤ fuel + 1) :
    readMembers numbers (fuel + 1) (printMembers numbers (first :: others) ++ rest) =
      some (first :: others, rest) := by
  obtain ⟨key, value⟩ := first
  rw [sizeMembers] at hsize
  cases others with
  | nil =>
    have hvalue := ih.value value ('}' :: rest) (by omega) (ends_cons (by decide))
    rw [printMembers]
    simp only [List.cons_append, List.append_assoc, List.nil_append]
    rw [readMembers_member, hvalue]
    rfl
  | cons next others =>
    have hvalue := ih.value value
        (',' :: (printMembers numbers (next :: others) ++ rest)) (by omega)
      (ends_cons (by decide))
    have hread := ih.members next others rest (by omega)
    rw [printMembers]
    simp only [List.cons_append, List.append_assoc]
    rw [readMembers_member, hvalue]
    simp only [skip_cons (c := ',') (by decide), hread]
    rfl

/-- Any number of steps is enough for what is not larger. -/
theorem all (numbers : NumberFormat ν) (fuel : ℕ) : ReadsBack numbers fuel := by
  induction fuel with
  | zero =>
    refine ⟨?_, ?_, ?_⟩
    · intro value rest hsize
      cases value <;> simp [size] at hsize
    · intro first others rest hsize
      simp [sizeElements] at hsize
    · intro first others rest hsize
      simp [sizeMembers] at hsize
  | succ fuel ih =>
    exact ⟨fun value rest => ih.value_succ value, fun first others rest =>
      ih.elements_succ first others,
      fun first others rest => ih.members_succ first others⟩

end ReadsBack

mutual

/-- A text is at least half as long as it takes steps to read it. -/
theorem size_le (value : Value ν) : size value ≤ 2 * (print numbers value).length + 1 := by
  cases value with
  | null => simp [size]
  | bool b => simp [size]
  | number n => simp [size]
  | string text => simp [size]
  | array elements =>
    have helements := sizeElements_le elements
    simp only [size, print, List.length_cons]
    omega
  | object members =>
    have hmembers := sizeMembers_le members
    simp only [size, print, List.length_cons]
    omega

theorem sizeElements_le : (elements : List (Value ν)) →
    sizeElements elements ≤ 2 * (printElements numbers elements).length
  | [] => by simp [sizeElements]
  | [value] => by
    have hvalue := size_le value
    simp only [sizeElements, printElements, List.length_append, List.length_singleton]
    omega
  | value :: next :: rest => by
    have hvalue := size_le value
    have hrest := sizeElements_le (next :: rest)
    rw [sizeElements]
    simp only [printElements, List.length_append, List.length_cons]
    omega

theorem sizeMembers_le : (members : List (Units × Value ν)) →
    sizeMembers members ≤ 2 * (printMembers numbers members).length
  | [] => by simp [sizeMembers]
  | [(key, value)] => by
    have hvalue := size_le value
    simp only [sizeMembers, printMembers, List.length_append, List.length_cons]
    omega
  | (key, value) :: next :: rest => by
    have hvalue := size_le value
    have hrest := sizeMembers_le (next :: rest)
    rw [sizeMembers]
    simp only [printMembers, List.length_append, List.length_cons]
    omega

end

/-- **A value is read back from its text.** -/
theorem read_print (value : Value ν) : read numbers (print numbers value) = some value := by
  have hread := (ReadsBack.all numbers (2 * (print numbers value).length + 1)).value value []
    (size_le value) (by rintro c ⟨⟩)
  rw [List.append_nil] at hread
  rw [read, hread]
  rfl

end Texts

end Json
