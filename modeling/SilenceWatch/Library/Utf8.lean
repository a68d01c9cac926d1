import Mathlib.Data.List.Basic

/-!
# Decoding UTF-8 with replacement characters

A decoder that never fails: each byte that cannot go on is answered by a replacement
character, as is a sequence that ends too early. It has no more characters than bytes,
and gives back what was encoded.
-/

namespace Utf8

/-- What a sequence of several bytes still needs. -/
structure Pending where
  /-- How many bytes are missing. -/
  owed : ℕ
  /-- The bits of the bytes before. -/
  bits : ℕ
  /-- The range of the next byte. -/
  lower : ℕ
  upper : ℕ

/-- `U+FFFD`. -/
def replacement : Char := Char.ofNat 0xFFFD

/-- A byte between two characters: the characters it gives, and what follows is to complete. -/
def first (b : UInt8) : List Char × Option Pending :=
  let n := b.toNat
  if n < 0x80 then ([Char.ofNat n], none)
  else if 0xC2 ≤ n ∧ n ≤ 0xDF then ([], some ⟨1, n - 0xC0, 0x80, 0xBF⟩)
  else if 0xE0 ≤ n ∧ n ≤ 0xEF then
    -- Neither a longer spelling of a shorter sequence nor a surrogate.
    ([], some ⟨2, n - 0xE0, if n = 0xE0 then 0xA0 else 0x80, if n = 0xED then 0x9F else 0xBF⟩)
  else if 0xF0 ≤ n ∧ n ≤ 0xF4 then
    ([], some ⟨3, n - 0xF0, if n = 0xF0 then 0x90 else 0x80, if n = 0xF4 then 0x8F else 0xBF⟩)
  else ([replacement], none)

/-- A byte, between two characters or within one. One that cannot go on ends the sequence
before it and is read again. -/
def step : Option Pending → UInt8 → List Char × Option Pending
  | none, b => first b
  | some p, b =>
    let n := b.toNat
    if p.lower ≤ n ∧ n ≤ p.upper then
      let bits := p.bits * 64 + (n - 0x80)
      if p.owed = 1 then ([Char.ofNat bits], none) else ([], some ⟨p.owed - 1, bits, 0x80, 0xBF⟩)
    else (replacement :: (first b).1, (first b).2)

/-- The characters of the rest of a text. -/
def decodeFrom : Option Pending → List UInt8 → List Char
  | none, [] => []
  | some _, [] => [replacement]
  | p, b :: rest => (step p b).1 ++ decodeFrom (step p b).2 rest

/-- The characters of a text. -/
def decode (bytes : List UInt8) : List Char := decodeFrom none bytes

section Length

/-- A sequence that is not complete is worth the character that ends it. -/
def weight (p : Option Pending) : ℕ := if p.isSome then 1 else 0

theorem length_first_le (b : UInt8) : (first b).1.length + weight (first b).2 ≤ 1 := by
  unfold first
  dsimp only
  split_ifs <;> simp [weight]

theorem length_step_le (p : Option Pending) (b : UInt8) :
    (step p b).1.length + weight (step p b).2 ≤ 1 + weight p := by
  cases p with
  | none => exact length_first_le b
  | some p =>
    unfold step
    dsimp only
    split_ifs
    · simp [weight]
    · simp [weight]
    · have hfirst := length_first_le b
      simp only [List.length_cons, weight, Option.isSome_some, if_true] at hfirst ⊢
      omega

theorem length_decodeFrom_le (p : Option Pending) (bytes : List UInt8) :
    (decodeFrom p bytes).length ≤ bytes.length + weight p := by
  induction bytes generalizing p with
  | nil =>
    cases p with
    | none => exact Nat.zero_le _
    | some p => exact Nat.le_refl 1
  | cons b rest ih =>
    have hstep := length_step_le p b
    have hrest := ih (step p b).2
    rw [decodeFrom, List.length_append, List.length_cons]
    omega

/-- **A text has no more characters than bytes.** -/
theorem length_decode_le (bytes : List UInt8) : (decode bytes).length ≤ bytes.length :=
  length_decodeFrom_le none bytes

end Length

section RoundTrip

variable {n v owed bits lower upper : ℕ} {rest : List UInt8}

theorem first_ofNat (h : n < 256) :
    first (UInt8.ofNat n) =
      if n < 0x80 then ([Char.ofNat n], none)
      else if 0xC2 ≤ n ∧ n ≤ 0xDF then ([], some ⟨1, n - 0xC0, 0x80, 0xBF⟩)
      else if 0xE0 ≤ n ∧ n ≤ 0xEF then
        ([], some ⟨2, n - 0xE0, if n = 0xE0 then 0xA0 else 0x80, if n = 0xED then 0x9F else 0xBF⟩)
      else if 0xF0 ≤ n ∧ n ≤ 0xF4 then
        ([], some ⟨3, n - 0xF0, if n = 0xF0 then 0x90 else 0x80, if n = 0xF4 then 0x8F else 0xBF⟩)
      else ([replacement], none) := by
  unfold first
  rw [UInt8.toNat_ofNat_of_lt' h]

/-- A byte that goes on with a sequence of which more is missing. -/
theorem decodeFrom_more (h : n < 256) (hlower : lower ≤ n) (hupper : n ≤ upper) :
    decodeFrom (some ⟨owed + 2, bits, lower, upper⟩) (UInt8.ofNat n :: rest) =
      decodeFrom (some ⟨owed + 1, bits * 64 + (n - 0x80), 0x80, 0xBF⟩) rest := by
  rw [decodeFrom, step]
  dsimp only
  rw [UInt8.toNat_ofNat_of_lt' h, if_pos ⟨hlower, hupper⟩, if_neg (by omega)]
  rfl

/-- The byte that completes a sequence. -/
theorem decodeFrom_last (h : n < 256) (hlower : lower ≤ n) (hupper : n ≤ upper)
    (hvalue : bits * 64 + (n - 0x80) = v) :
    decodeFrom (some ⟨1, bits, lower, upper⟩) (UInt8.ofNat n :: rest) =
      Char.ofNat v :: decodeFrom none rest := by
  rw [decodeFrom, step]
  dsimp only
  rw [UInt8.toNat_ofNat_of_lt' h, if_pos ⟨hlower, hupper⟩, if_pos rfl, hvalue]
  rfl

theorem decodeFrom_first (n : ℕ) (rest : List UInt8) :
    decodeFrom none (UInt8.ofNat n :: rest) =
      (first (UInt8.ofNat n)).1 ++ decodeFrom (first (UInt8.ofNat n)).2 rest := rfl

/-- Decoding the encoding of one character. -/
theorem decodeFrom_encodeChar (c : Char) (rest : List UInt8) :
    decodeFrom none (String.utf8EncodeChar c ++ rest) = c :: decodeFrom none rest := by
  have hvalid : c.val.toNat < 0xD800 ∨ 0xDFFF < c.val.toNat ∧ c.val.toNat < 0x110000 := c.valid
  have hchar : Char.ofNat c.val.toNat = c := Char.ofNat_toNat c
  unfold String.utf8EncodeChar
  dsimp only
  generalize c.val.toNat = v at hvalid hchar
  by_cases hone : v ≤ 0x7F
  · rw [if_pos hone, List.cons_append, List.nil_append, decodeFrom_first, first_ofNat (by omega),
      if_pos (by omega), hchar]
    rfl
  rw [if_neg hone]
  by_cases htwo : v ≤ 0x7FF
  · rw [if_pos htwo]
    simp only [List.cons_append, List.nil_append]
    rw [decodeFrom_first, first_ofNat (by omega), if_neg (by omega), if_pos (by omega)]
    dsimp only
    rw [List.nil_append, decodeFrom_last (v := v) (by omega) (by omega) (by omega) (by omega),
      hchar]
  rw [if_neg htwo]
  by_cases hthree : v ≤ 0xFFFF
  · rw [if_pos hthree]
    simp only [List.cons_append, List.nil_append]
    rw [decodeFrom_first, first_ofNat (by omega), if_neg (by omega), if_neg (by omega),
      if_pos (by omega)]
    dsimp only
    rw [List.nil_append, decodeFrom_more (by omega) (by split_ifs <;> omega)
      (by split_ifs <;> omega),
      decodeFrom_last (v := v) (by omega) (by omega) (by omega) (by omega), hchar]
  · rw [if_neg hthree]
    simp only [List.cons_append, List.nil_append]
    rw [decodeFrom_first, first_ofNat (by omega), if_neg (by omega), if_neg (by omega),
      if_neg (by omega), if_pos (by omega)]
    dsimp only
    rw [List.nil_append, decodeFrom_more (by omega) (by split_ifs <;> omega)
      (by split_ifs <;> omega), decodeFrom_more (by omega) (by omega) (by omega),
      decodeFrom_last (v := v) (by omega) (by omega) (by omega) (by omega), hchar]

/-- **What was encoded is decoded.** -/
theorem decode_encode (text : List Char) : decode (text.flatMap String.utf8EncodeChar) = text := by
  unfold decode
  induction text with
  | nil => rfl
  | cons c rest ih => rw [List.flatMap_cons, decodeFrom_encodeChar, ih]

end RoundTrip

section Texts

/-- The bytes of a text. -/
def encode (text : List Char) : List UInt8 := text.flatMap String.utf8EncodeChar

/-- The bytes are those of a text. -/
def IsEncoding (bytes : List UInt8) : Prop := encode (decode bytes) = bytes

instance : DecidablePred IsEncoding := fun _ => inferInstanceAs (Decidable (_ = _))

variable {a b bytes : List UInt8} {text : List Char}

theorem encode_append (text more : List Char) :
    encode (text ++ more) = encode text ++ encode more :=
  List.flatMap_append

theorem isEncoding_encode (text : List Char) : IsEncoding (encode text) :=
  congrArg encode (decode_encode text)

theorem isEncoding_iff : IsEncoding bytes ↔ ∃ text, bytes = encode text := by
  constructor
  · intro h
    exact ⟨decode bytes, h.symm⟩
  · rintro ⟨text, rfl⟩
    exact isEncoding_encode text

/-- A text comes before whatever is decoded behind it. -/
theorem decode_append (text : List Char) (rest : List UInt8) :
    decode (encode text ++ rest) = text ++ decode rest := by
  unfold decode encode
  induction text with
  | nil => rfl
  | cons c text ih => rw [List.flatMap_cons, List.append_assoc, decodeFrom_encodeChar, ih,
      List.cons_append]

/-- What stands behind a text is a text exactly if the whole is. -/
theorem isEncoding_append (ha : IsEncoding a) : IsEncoding (a ++ b) ↔ IsEncoding b := by
  unfold IsEncoding at ha ⊢
  rw [← ha, decode_append, encode_append]
  exact List.append_right_inj _

theorem isEncoding_nil : IsEncoding [] := rfl

/-- A character of ASCII is one byte. -/
theorem encodeChar_ascii {c : Char} (hc : c.toNat < 0x80) :
    String.utf8EncodeChar c = [UInt8.ofNat c.toNat] := by
  have hsmall : c.val.toNat ≤ 0x7F := Nat.le_of_lt_succ hc
  unfold String.utf8EncodeChar
  dsimp only
  rw [if_pos hsmall]
  rfl

/-- A text of ASCII has a byte for each character. -/
theorem encode_eq_map (htext : ∀ c ∈ text, c.toNat < 0x80) :
    encode text = text.map fun c => UInt8.ofNat c.toNat := by
  unfold encode
  induction text with
  | nil => rfl
  | cons c text ih =>
    rw [List.flatMap_cons, encodeChar_ascii (htext c List.mem_cons_self),
      ih fun d hd => htext d (List.mem_cons_of_mem _ hd)]
    rfl

/-- A byte of ASCII is a character. -/
theorem encode_ascii {c : UInt8} (hc : c.toNat < 0x80) : encode [Char.ofNat c.toNat] = [c] := by
  have hvalid : (Char.ofNat c.toNat).toNat = c.toNat := by
    rw [Char.ofNat, dif_pos (Or.inl (by omega))]
    rfl
  rw [encode_eq_map fun d hd => by rw [List.mem_singleton.mp hd, hvalid]; exact hc]
  rw [List.map_singleton, hvalid, UInt8.ofNat_toNat]

/-- ASCII is text. -/
theorem isEncoding_ascii (h : ∀ c ∈ bytes, c.toNat < 0x80) : IsEncoding bytes := by
  induction bytes with
  | nil => exact isEncoding_nil
  | cons c rest ih =>
    have hc : IsEncoding [c] := encode_ascii (h c List.mem_cons_self) ▸ isEncoding_encode _
    rw [← List.singleton_append, isEncoding_append hc]
    exact ih fun d hd => h d (List.mem_cons_of_mem _ hd)

/-- Only a character of one byte ends with a byte of ASCII. -/
theorem encodeChar_eq_concat (c : Char) : ∃ before last,
    String.utf8EncodeChar c = before ++ [last] ∧ (last.toNat < 0x80 → before = []) := by
  have hlast (v : ℕ) : ¬ (UInt8.ofNat (v % 64 + 0x80)).toNat < 0x80 := by
    have hsmall : v % 64 + 0x80 < 256 := by omega
    rw [UInt8.toNat_ofNat_of_lt' hsmall]
    omega
  unfold String.utf8EncodeChar
  dsimp only
  split_ifs
  · exact ⟨[], _, rfl, fun _ => rfl⟩
  · exact ⟨[_], _, rfl, fun h => absurd h (hlast _)⟩
  · exact ⟨[_, _], _, rfl, fun h => absurd h (hlast _)⟩
  · exact ⟨[_, _, _], _, rfl, fun h => absurd h (hlast _)⟩

/-- What stands before a byte of ASCII is a text exactly if the whole is. -/
theorem isEncoding_concat {c : UInt8} (hc : c.toNat < 0x80) :
    IsEncoding (a ++ [c]) ↔ IsEncoding a := by
  constructor
  · intro h
    obtain ⟨text, htext⟩ := isEncoding_iff.mp h
    rcases List.eq_nil_or_concat text with rfl | ⟨text, d, rfl⟩
    · exact absurd htext (by simp [encode])
    · obtain ⟨before, last, hencode, hascii⟩ := encodeChar_eq_concat d
      have hd : encode [d] = before ++ [last] := by
        rw [← hencode]
        exact List.flatMap_singleton _ _
      rw [List.concat_eq_append, encode_append, hd, ← List.append_assoc] at htext
      obtain ⟨ha, hlast⟩ := List.append_inj' htext rfl
      obtain rfl : c = last := by simpa using hlast
      rw [ha, hascii hc, List.append_nil]
      exact isEncoding_encode text
  · intro h
    rw [isEncoding_append h]
    exact isEncoding_ascii fun d hd => List.mem_singleton.mp hd ▸ hc

/-- What stands before ASCII is a text exactly if the whole is. -/
theorem isEncoding_append_ascii (hb : ∀ c ∈ b, c.toNat < 0x80) :
    IsEncoding (a ++ b) ↔ IsEncoding a := by
  induction b generalizing a with
  | nil => rw [List.append_nil]
  | cons c b ih =>
    rw [List.append_cons, ih fun d hd => hb d (List.mem_cons_of_mem _ hd),
      isEncoding_concat (hb c List.mem_cons_self)]

/-- A text has no more characters than bytes. -/
theorem length_le_encode (text : List Char) : text.length ≤ (encode text).length := by
  have h := length_decode_le (encode text)
  rwa [show decode (encode text) = text from decode_encode text] at h

end Texts

end Utf8
