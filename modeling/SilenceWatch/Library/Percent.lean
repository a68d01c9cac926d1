import Mathlib.Data.List.Basic
import SilenceWatch.Library.Utf8

/-!
# Percent encoding and forms

`encode` writes a text with the characters that `encodeURIComponent` keeps, every other
one as its UTF-8 bytes in hexadecimal; `decode` reads what a form may hold. A form is a
list of pairs of texts, and it is read back as it was written.
-/

namespace Percent

/-- The characters that are written as they are. -/
def isUnreserved (c : Char) : Bool := c.isAlphanum || "-_.!~*'()".toList.contains c

/-- The hexadecimal digit of a number below sixteen. -/
def digit (n : ℕ) : Char := if n < 10 then Char.ofNat (48 + n) else Char.ofNat (55 + n)

/-- The number of a hexadecimal digit in either case. -/
def value? (c : Char) : Option ℕ :=
  if '0' ≤ c ∧ c ≤ '9' then some (c.toNat - 48)
  else if 'A' ≤ c ∧ c ≤ 'F' then some (c.toNat - 55)
  else if 'a' ≤ c ∧ c ≤ 'f' then some (c.toNat - 87)
  else none

/-- A byte that is not written as it is. -/
def encodeByte (b : UInt8) : List Char := ['%', digit (b.toNat / 16), digit (b.toNat % 16)]

/-- One character. -/
def encodeChar (c : Char) : List Char :=
  if isUnreserved c then [c] else (String.utf8EncodeChar c).flatMap encodeByte

/-- A text. -/
def encode (text : List Char) : List Char := text.flatMap encodeChar

/-- The bytes of an encoded text, where a plus stands for a blank and a percent sign without
its two digits for itself. -/
def bytes : List Char → List UInt8
  | [] => []
  | '%' :: high :: low :: rest =>
    match value? high, value? low with
    | some h, some l => UInt8.ofNat (16 * h + l) :: bytes rest
    | _, _ => String.utf8EncodeChar '%' ++ bytes (high :: low :: rest)
  | c :: rest => (if c = '+' then [0x20] else String.utf8EncodeChar c) ++ bytes rest

/-- The text that an encoded text stands for. -/
def decode (text : List Char) : List Char := Utf8.decode (bytes text)

/-- A pair of a form. -/
def printPair (pair : List Char × List Char) : List Char :=
  encode pair.1 ++ '=' :: encode pair.2

/-- A form. -/
def printForm (pairs : List (List Char × List Char)) : List Char :=
  List.intercalate ['&'] (pairs.map printPair)

/-- What stands before the first equals sign, and what stands after it. -/
def readPair (text : List Char) : List Char × List Char :=
  (decode (text.takeWhile (· != '=')), decode ((text.dropWhile (· != '=')).drop 1))

/-- A form is cut at its ampersands; nothing between two of them is no pair. -/
def readForm (text : List Char) : List (List Char × List Char) :=
  ((text.splitOn '&').filter (· ≠ [])).map readPair

section Digits

theorem value?_digit {n : ℕ} (hn : n < 16) : value? (digit n) = some n := by
  have hall : ∀ n ∈ List.range 16, value? (digit n) = some n := by decide
  exact hall n (List.mem_range.mpr hn)

theorem isUnreserved_digit {n : ℕ} (hn : n < 16) : isUnreserved (digit n) = true := by
  have hall : ∀ n ∈ List.range 16, isUnreserved (digit n) = true := by decide
  exact hall n (List.mem_range.mpr hn)

/-- No character with a meaning of its own in a form is written as it is. -/
theorem ne_of_isUnreserved {c : Char} (hc : isUnreserved c = true) :
    c ≠ '%' ∧ c ≠ '+' ∧ c ≠ '&' ∧ c ≠ '=' := by
  refine ⟨?_, ?_, ?_, ?_⟩
  all_goals
    intro heq
    rw [heq] at hc
    revert hc
    decide

end Digits

section RoundTrip

variable {text rest : List Char} {c : Char}

/-- The bytes of a written byte are that byte. -/
theorem bytes_encodeByte (b : UInt8) (rest : List Char) :
    bytes (encodeByte b ++ rest) = b :: bytes rest := by
  have hb : b.toNat < 256 := b.toNat_lt
  have hhigh := value?_digit (n := b.toNat / 16) (by omega)
  have hlow := value?_digit (n := b.toNat % 16) (by omega)
  have hsame : 16 * (b.toNat / 16) + b.toNat % 16 = b.toNat := by omega
  change bytes ('%' :: digit (b.toNat / 16) :: digit (b.toNat % 16) :: rest) = _
  rw [bytes, hhigh, hlow]
  dsimp only
  rw [hsame, UInt8.ofNat_toNat]

/-- The bytes of written bytes are those bytes. -/
theorem bytes_flatMap_encodeByte (bs : List UInt8) (rest : List Char) :
    bytes (bs.flatMap encodeByte ++ rest) = bs ++ bytes rest := by
  induction bs with
  | nil => rfl
  | cons b bs ih =>
    rw [List.flatMap_cons, List.append_assoc, bytes_encodeByte, ih, List.cons_append]

/-- The bytes of a written character are its bytes. -/
theorem bytes_encodeChar (c : Char) (rest : List Char) :
    bytes (encodeChar c ++ rest) = String.utf8EncodeChar c ++ bytes rest := by
  unfold encodeChar
  split
  · next hc =>
    obtain ⟨hpercent, hplus, _⟩ := ne_of_isUnreserved hc
    rw [List.cons_append, List.nil_append, bytes, if_neg hplus]
    intro high low rest' heq
    exact absurd heq hpercent
  · exact bytes_flatMap_encodeByte _ _

theorem bytes_encode (text : List Char) : bytes (encode text) = Utf8.encode text := by
  induction text with
  | nil => rfl
  | cons c text ih =>
    rw [encode, List.flatMap_cons, bytes_encodeChar, ← encode, ih]
    rfl

/-- **Texts.** A text is read back as it was written. -/
theorem decode_encode (text : List Char) : decode (encode text) = text := by
  rw [decode, bytes_encode]
  exact Utf8.decode_encode text

/-- What is written needs no further encoding but for the percent signs. -/
theorem isUnreserved_of_mem_encode (hc : c ∈ encode text) : isUnreserved c = true ∨ c = '%' := by
  obtain ⟨d, _, hd⟩ := List.mem_flatMap.mp hc
  unfold encodeChar at hd
  split at hd
  · next hplain =>
    left
    rw [List.mem_singleton.mp hd]
    exact hplain
  · obtain ⟨b, _, hb⟩ := List.mem_flatMap.mp hd
    have hlt : b.toNat < 256 := b.toNat_lt
    rcases List.mem_cons.mp hb with rfl | hb
    · exact Or.inr rfl
    · left
      rcases List.mem_cons.mp hb with rfl | hb
      · apply isUnreserved_digit
        omega
      · rw [List.mem_singleton.mp hb]
        apply isUnreserved_digit
        omega

/-- No ampersand and no equals sign is written. -/
theorem ne_of_mem_encode (hc : c ∈ encode text) : c ≠ '&' ∧ c ≠ '=' := by
  rcases isUnreserved_of_mem_encode hc with hplain | rfl
  · exact (ne_of_isUnreserved hplain).2.2
  · decide

theorem readPair_printPair (pair : List Char × List Char) : readPair (printPair pair) = pair := by
  have hkey : ∀ d ∈ encode pair.1, (d != '=') = true := fun d hd => by
    simpa using (ne_of_mem_encode hd).2
  unfold readPair printPair
  rw [List.takeWhile_append_of_pos hkey, List.dropWhile_append_of_pos hkey,
    List.takeWhile_cons_of_neg (by decide), List.dropWhile_cons_of_neg (by decide),
    List.append_nil, List.drop_succ_cons, List.drop_zero, decode_encode, decode_encode]

theorem not_mem_printPair (pair : List Char × List Char) : '&' ∉ printPair pair := by
  intro h
  rcases List.mem_append.mp h with hkey | h
  · exact (ne_of_mem_encode hkey).1 rfl
  · rcases List.mem_cons.mp h with heq | hvalue
    · exact absurd heq (by decide)
    · exact (ne_of_mem_encode hvalue).1 rfl

theorem printPair_ne_nil (pair : List Char × List Char) : printPair pair ≠ [] := by
  simp [printPair]

/-- **Forms.** A form is read back as it was written. -/
theorem readForm_printForm (pairs : List (List Char × List Char)) :
    readForm (printForm pairs) = pairs := by
  cases pairs with
  | nil => rfl
  | cons first others =>
    have hclear : ∀ part ∈ (first :: others).map printPair, '&' ∉ part := by
      intro part hpart
      obtain ⟨pair, _, rfl⟩ := List.mem_map.mp hpart
      exact not_mem_printPair pair
    have hparts : ((first :: others).map printPair).filter (· ≠ []) =
        (first :: others).map printPair := by
      refine List.filter_eq_self.mpr fun part hpart => ?_
      obtain ⟨pair, _, rfl⟩ := List.mem_map.mp hpart
      exact decide_eq_true (printPair_ne_nil pair)
    unfold readForm printForm
    rw [List.splitOn_intercalate '&' hclear (by simp), hparts, List.map_map]
    exact (List.map_congr_left fun pair _ => readPair_printPair pair).trans (List.map_id _)

theorem printForm_injective : Function.Injective printForm :=
  Function.LeftInverse.injective readForm_printForm

end RoundTrip

end Percent
