import Mathlib.Data.List.Basic
import Mathlib.Tactic.NormNum

/-!
# Base64

Bytes as text in the alphabet for URLs, without padding. The decoder is lenient: it takes
both alphabets, ends at the padding and passes over every other character. Of a code it
regards the low byte.
-/

namespace Base64

/-- The digit of a value. -/
def digit (n : ℕ) : Char :=
  if n < 26 then Char.ofNat (65 + n)
  else if n < 52 then Char.ofNat (97 + (n - 26))
  else if n < 62 then Char.ofNat (48 + (n - 52))
  else if n = 62 then '-'
  else '_'

/-- The value of a digit, given by its code. -/
def value? (code : ℕ) : Option ℕ :=
  if 65 ≤ code ∧ code ≤ 90 then some (code - 65)
  else if 97 ≤ code ∧ code ≤ 122 then some (code - 97 + 26)
  else if 48 ≤ code ∧ code ≤ 57 then some (code - 48 + 52)
  else if code = 43 ∨ code = 45 then some 62
  else if code = 47 ∨ code = 95 then some 63
  else none

/-- The values of the digits: six bits of the bytes each. -/
def sextets : List UInt8 → List ℕ
  | [] => []
  | [a] => [a.toNat / 4, a.toNat % 4 * 16]
  | [a, b] => [a.toNat / 4, a.toNat % 4 * 16 + b.toNat / 16, b.toNat % 16 * 4]
  | a :: b :: c :: rest =>
    a.toNat / 4 :: (a.toNat % 4 * 16 + b.toNat / 16) :: (b.toNat % 16 * 4 + c.toNat / 64) ::
      c.toNat % 64 :: sextets rest

/-- The bytes of the values. Bits that make no byte are dropped. -/
def octets : List ℕ → List UInt8
  | [] => []
  | [_] => []
  | [a, b] => [UInt8.ofNat (a * 4 + b / 16)]
  | [a, b, c] => [UInt8.ofNat (a * 4 + b / 16), UInt8.ofNat (b % 16 * 16 + c / 4)]
  | a :: b :: c :: d :: rest =>
    UInt8.ofNat (a * 4 + b / 16) :: UInt8.ofNat (b % 16 * 16 + c / 4) ::
      UInt8.ofNat (c % 4 * 64 + d) :: octets rest

/-- Bytes as text. -/
def encode (bytes : List UInt8) : List Char := (sextets bytes).map digit

/-- The bytes of a text, given by its codes. -/
def decode (codes : List ℕ) : List UInt8 :=
  octets (((codes.map (· % 256)).takeWhile (· ≠ 61)).filterMap value?)

variable {n : ℕ} {b : UInt8} {bytes : List UInt8}

/-- A digit has its value, and is no padding. -/
theorem value?_digit (hn : n < 64) :
    value? ((digit n).toNat % 256) = some n ∧ (digit n).toNat % 256 ≠ 61 := by
  have hall : ∀ n < 64, value? ((digit n).toNat % 256) = some n ∧ (digit n).toNat % 256 ≠ 61 := by
    decide
  exact hall n hn

/-- The values are those of digits. -/
theorem sextets_lt (bytes : List UInt8) : ∀ n ∈ sextets bytes, n < 64 := by
  induction bytes using sextets.induct with
  | case1 => simp [sextets]
  | case2 a =>
    have ha := a.toNat_lt
    simp only [sextets, List.mem_cons, List.not_mem_nil, or_false]
    rintro n (rfl | rfl) <;> omega
  | case3 a b =>
    have ha := a.toNat_lt
    have hb := b.toNat_lt
    simp only [sextets, List.mem_cons, List.not_mem_nil, or_false]
    rintro n (rfl | rfl | rfl) <;> omega
  | case4 a b c rest ih =>
    have ha := a.toNat_lt
    have hb := b.toNat_lt
    have hc := c.toNat_lt
    simp only [sextets, List.mem_cons]
    rintro n (rfl | rfl | rfl | rfl | hn)
    · omega
    · omega
    · omega
    · omega
    · exact ih n hn

/-- A text of bytes is of printable ASCII, without a full stop. -/
theorem toNat_of_mem_encode {c : Char} (hc : c ∈ encode bytes) :
    0x20 ≤ c.toNat ∧ c.toNat < 0x7F ∧ c ≠ '.' := by
  have hall : ∀ n < 64, 0x20 ≤ (digit n).toNat ∧ (digit n).toNat < 0x7F ∧ digit n ≠ '.' := by decide
  obtain ⟨n, hn, rfl⟩ := List.mem_map.mp hc
  exact hall n (sextets_lt bytes n hn)

theorem ofNat_eq (h : n = b.toNat) : UInt8.ofNat n = b := by
  rw [h]
  exact UInt8.ofNat_toNat

/-- Splitting bytes into digits and joining them. -/
theorem octets_sextets (bytes : List UInt8) : octets (sextets bytes) = bytes := by
  induction bytes using sextets.induct with
  | case1 => rfl
  | case2 a =>
    have ha := a.toNat_lt
    rw [sextets, octets, ofNat_eq (b := a) (by omega)]
  | case3 a b =>
    have ha := a.toNat_lt
    have hb := b.toNat_lt
    rw [sextets, octets, ofNat_eq (b := a) (by omega), ofNat_eq (b := b) (by omega)]
  | case4 a b c rest ih =>
    have ha := a.toNat_lt
    have hb := b.toNat_lt
    have hc := c.toNat_lt
    rw [sextets, octets, ih, ofNat_eq (b := a) (by omega), ofNat_eq (b := b) (by omega),
      ofNat_eq (b := c) (by omega)]

/-- **What was encoded is decoded.** -/
theorem decode_encode (bytes : List UInt8) : decode ((encode bytes).map Char.toNat) = bytes := by
  have hvalues : ∀ values : List ℕ, (∀ n ∈ values, n < 64) →
      ((((values.map digit).map Char.toNat).map (· % 256)).takeWhile (· ≠ 61)).filterMap value? =
        values := by
    intro values hvalues
    induction values with
    | nil => rfl
    | cons n values ih =>
      obtain ⟨hvalue, hpadding⟩ := value?_digit (hvalues n List.mem_cons_self)
      rw [List.map_cons, List.map_cons, List.map_cons,
        List.takeWhile_cons_of_pos (by simpa using hpadding),
        List.filterMap_cons_some hvalue, ih fun m hm => hvalues m (List.mem_cons_of_mem _ hm)]
  rw [decode, encode, hvalues _ (sextets_lt bytes), octets_sextets]

end Base64
