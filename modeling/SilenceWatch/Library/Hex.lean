import SilenceWatch.Library.Numerals

/-!
# Bytes as hexadecimal text

Two digits for a byte, small letters when writing and either case when reading. A text of
digits in pairs is read as the one list of bytes that is written as it, but for its case.
-/

namespace Hex

open Numeral

/-- The text of some bytes. -/
def encode (bytes : List UInt8) : List Char :=
  bytes.flatMap fun b => [(b.toNat / 16).digitChar, (b.toNat % 16).digitChar]

/-- The bytes of a text, up to its first pair that is not one of digits. -/
def decode : List Char → List UInt8
  | c :: d :: text =>
    if IsDigit 16 c ∧ IsDigit 16 d then
      UInt8.ofNat (16 * digitValue c + digitValue d) :: decode text
    else []
  | _ => []

variable {c d : Char} {text : List Char} {bytes : List UInt8}

theorem decode_cons_cons (c d : Char) (text : List Char) :
    decode (c :: d :: text) =
      if IsDigit 16 c ∧ IsDigit 16 d then
        UInt8.ofNat (16 * digitValue c + digitValue d) :: decode text
      else [] := rfl

theorem encode_cons (b : UInt8) (bytes : List UInt8) :
    encode (b :: bytes) =
      (b.toNat / 16).digitChar :: (b.toNat % 16).digitChar :: encode bytes := rfl

/-- Two digits for a byte. -/
theorem length_encode (bytes : List UInt8) : (encode bytes).length = 2 * bytes.length := by
  induction bytes with
  | nil => rfl
  | cons b bytes ih =>
    rw [encode_cons, List.length_cons, List.length_cons, List.length_cons, ih]
    omega

/-- The digits that are written are read, as what they were written for. -/
theorem digitChar_spec {v : ℕ} (hv : v < 16) :
    IsDigit 16 v.digitChar ∧ digitValue v.digitChar = v := by
  have hall : ∀ v < 16, IsDigit 16 v.digitChar ∧ digitValue v.digitChar = v := by decide
  exact hall v hv

/-- **What was written is read.** -/
theorem decode_encode (bytes : List UInt8) : decode (encode bytes) = bytes := by
  induction bytes with
  | nil => rfl
  | cons b bytes ih =>
    have hbyte := b.toNat_lt
    obtain ⟨hhigh, hhighValue⟩ := digitChar_spec (v := b.toNat / 16) (by omega)
    obtain ⟨hlow, hlowValue⟩ := digitChar_spec (v := b.toNat % 16) (by omega)
    rw [encode_cons, decode_cons_cons, if_pos ⟨hhigh, hlow⟩, hhighValue, hlowValue, ih,
      Nat.div_add_mod, UInt8.ofNat_toNat]

/-- Only digits are written. -/
theorem isDigit_of_mem_encode (h : c ∈ encode bytes) : IsDigit 16 c := by
  obtain ⟨b, -, hc⟩ := List.mem_flatMap.mp h
  have hbyte := b.toNat_lt
  simp only [List.mem_cons, List.not_mem_nil, or_false] at hc
  rcases hc with rfl | rfl
  · exact (digitChar_spec (by omega)).1
  · exact (digitChar_spec (by omega)).1

theorem toLower_of_not_capital (h : ¬ (65 ≤ c.toNat ∧ c.toNat ≤ 90)) : c.toLower = c := by
  have hbounds : 'A'.val.toNat = 65 ∧ 'Z'.val.toNat = 90 := by decide
  have hcode : c.toNat = c.val.toNat := rfl
  unfold Char.toLower
  rw [dif_neg]
  simp only [ge_iff_le, UInt32.le_iff_toNat_le]
  omega

/-- The digits, listed. -/
theorem mem_of_isDigit (h : IsDigit 16 c) : c ∈ "0123456789abcdefABCDEF".toList := by
  by_cases hcapital : 65 ≤ c.toNat ∧ c.toNat ≤ 90
  · have hall : ∀ n < 91, 65 ≤ n → IsDigit 16 (Char.ofNat n) →
        Char.ofNat n ∈ "0123456789abcdefABCDEF".toList := by decide
    have hcode := hall c.toNat (by omega) hcapital.1
    rw [Char.ofNat_toNat] at hcode
    exact hcode h
  · have hall : ∀ v < 16, v.digitChar ∈ "0123456789abcdefABCDEF".toList := by decide
    rw [← toLower_of_not_capital hcapital, ← h.2]
    exact hall _ h.1

/-- What is lowered to a digit is one. -/
theorem isDigit_of_toLower (h : IsDigit 16 c.toLower) : IsDigit 16 c := by
  by_cases hcapital : 65 ≤ c.toNat ∧ c.toNat ≤ 90
  · have hall : ∀ n < 91, 65 ≤ n → IsDigit 16 (Char.ofNat n).toLower → IsDigit 16 (Char.ofNat n) :=
      by decide
    have hcode := hall c.toNat (by omega) hcapital.1
    rw [Char.ofNat_toNat] at hcode
    exact hcode h
  · rwa [toLower_of_not_capital hcapital] at h

/-- A spelling of some bytes, in either case. -/
theorem isDigit_of_map_toLower (h : text.map Char.toLower = encode bytes) :
    ∀ c ∈ text, IsDigit 16 c := by
  intro c hc
  have hwritten : c.toLower ∈ encode bytes := h ▸ List.mem_map_of_mem hc
  exact isDigit_of_toLower (isDigit_of_mem_encode hwritten)

/-- **What was read is written**, in small letters. -/
theorem encode_decode (htext : ∀ c ∈ text, IsDigit 16 c) (heven : text.length % 2 = 0) :
    encode (decode text) = text.map Char.toLower := by
  induction text using decode.induct with
  | case1 c d text hdigits ih =>
    obtain ⟨⟨hhigh, hhighChar⟩, hlow, hlowChar⟩ := hdigits
    have hrest := ih (fun e he => htext e (List.mem_cons_of_mem _ (List.mem_cons_of_mem _ he)))
      (by simp only [List.length_cons] at heven; omega)
    have hbyte : (UInt8.ofNat (16 * digitValue c + digitValue d)).toNat =
        16 * digitValue c + digitValue d := UInt8.toNat_ofNat_of_lt' (by
      rw [UInt8.size]
      omega)
    have hdiv : (16 * digitValue c + digitValue d) / 16 = digitValue c := by omega
    have hmod : (16 * digitValue c + digitValue d) % 16 = digitValue d := by omega
    rw [decode_cons_cons, if_pos ⟨⟨hhigh, hhighChar⟩, hlow, hlowChar⟩, encode_cons, hbyte, hdiv,
      hmod, hhighChar, hlowChar, hrest, List.map_cons, List.map_cons]
  | case2 c d text hdigits =>
    exact absurd ⟨htext c (by simp), htext d (by simp)⟩ hdigits
  | case3 text hpairs =>
    cases text with
    | nil => rfl
    | cons c text =>
      cases text with
      | nil => simp at heven
      | cons d text => exact absurd rfl (hpairs c d text)

/-- Small letters are digits as the capital ones are, and stay what they are. -/
theorem toLower_of_isDigit (h : IsDigit 16 c) :
    IsDigit 16 c.toLower ∧ c.toLower.toLower = c.toLower := by
  have hall : "0123456789abcdefABCDEF".toList.all (fun c =>
      decide (IsDigit 16 c.toLower) && decide (c.toLower.toLower = c.toLower)) = true := by decide
  simpa using List.all_eq_true.mp hall c (mem_of_isDigit h)

/-- A text in small letters is written as it was read. -/
theorem encode_decode_map_toLower (htext : ∀ c ∈ text, IsDigit 16 c)
    (heven : text.length % 2 = 0) :
    encode (decode (text.map Char.toLower)) = text.map Char.toLower := by
  rw [encode_decode _ (by rwa [List.length_map]), List.map_map]
  · refine List.map_congr_left fun c hc => ?_
    exact (toLower_of_isDigit (htext c hc)).2
  · intro c hc
    obtain ⟨d, hd, rfl⟩ := List.mem_map.mp hc
    exact (toLower_of_isDigit (htext d hd)).1

/-- What is written is in small letters. -/
theorem map_toLower_encode (bytes : List UInt8) :
    (encode bytes).map Char.toLower = encode bytes := by
  have hdigits : ∀ c ∈ encode bytes, IsDigit 16 c := fun c hc => isDigit_of_mem_encode hc
  have hsame := encode_decode hdigits (by rw [length_encode, Nat.mul_mod_right])
  rw [decode_encode] at hsame
  exact hsame.symm

end Hex
