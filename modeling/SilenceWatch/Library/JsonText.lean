import SilenceWatch.Library.Json

/-!
# JSON texts

The grammar of JSON over code units, with its lexemes as a parameter: white space, what stands
for itself in a string, the digits of an escape, and numbers. Readers that are strict in all
but their lexemes are compared by these.
-/

namespace Json

/-- The code unit of a character that has only one. -/
def unit (c : Char) : UInt16 := UInt16.ofNat c.toNat

/-- What the tokens of a text are made of. -/
structure Lexicon where
  IsSpace : UInt16 → Prop
  /-- It stands for itself in a string. -/
  IsPlain : UInt16 → Prop
  /-- They can follow the `u` of an escape. -/
  IsCode : UInt16 → UInt16 → UInt16 → UInt16 → Prop
  IsNumber : Units → Prop

/-- The lexemes of one lexicon are lexemes of another. -/
structure Lexicon.Within (L L' : Lexicon) : Prop where
  space : ∀ u, L.IsSpace u → L'.IsSpace u
  plain : ∀ u, L.IsPlain u → L'.IsPlain u
  code : ∀ a b c d, L.IsCode a b c d → L'.IsCode a b c d
  number : ∀ text, L.IsNumber text → L'.IsNumber text

/-- The digits of an escape. -/
def IsHexUnit (u : UInt16) : Prop := u ∈ units "0123456789abcdefABCDEF".toList
  deriving Decidable

/-- The lexemes of RFC 8259. -/
def rfc8259 : Lexicon where
  IsSpace u := u ∈ units [' ', '\t', '\n', '\r']
  IsPlain u := 0x20 ≤ u.toNat ∧ u ≠ unit '"' ∧ u ≠ unit '\\'
  IsCode a b c d := IsHexUnit a ∧ IsHexUnit b ∧ IsHexUnit c ∧ IsHexUnit d
  IsNumber text := ∃ literal : List Char, isLiteral literal = true ∧ text = units literal

section Grammar

variable (L : Lexicon)

/-- What stands between the quotes of a string. -/
inductive Characters : Units → Prop
  | nil : Characters []
  | plain {u : UInt16} {text : Units} (hu : L.IsPlain u) (htext : Characters text) :
      Characters (u :: text)
  | short {e : Char} {u : UInt16} {text : Units} (he : (e, u) ∈ shortEscapes)
      (htext : Characters text) : Characters (unit '\\' :: unit e :: text)
  | code {a b c d : UInt16} {text : Units} (hcode : L.IsCode a b c d)
      (htext : Characters text) : Characters (unit '\\' :: unit 'u' :: a :: b :: c :: d :: text)

/-- A string. -/
def StringText (text : Units) : Prop :=
  ∃ body, Characters L body ∧ text = unit '"' :: (body ++ [unit '"'])

/-- White space. -/
def Blank (text : Units) : Prop := ∀ u ∈ text, L.IsSpace u

/-- A text with white space around it. -/
def Padded (P : Units → Prop) (text : Units) : Prop :=
  ∃ before body after, Blank L before ∧ P body ∧ Blank L after ∧ text = before ++ body ++ after

/-- Any number of texts between brackets, with commas between them. -/
def Listed (opening closing : Char) (P : Units → Prop) (text : Units) : Prop :=
  (∃ blank, Blank L blank ∧ text = unit opening :: (blank ++ [unit closing])) ∨
    ∃ parts, parts ≠ [] ∧ (∀ part ∈ parts, P part) ∧
      text = unit opening :: ([unit ','].intercalate parts ++ [unit closing])

/-- A key and a value. -/
def MemberText (P : Units → Prop) (text : Units) : Prop :=
  ∃ key value, Padded L (StringText L) key ∧ P value ∧ text = key ++ unit ':' :: value

/-- A value that is nested in itself at most so often, less one. -/
def ValueText : ℕ → Units → Prop
  | 0, _ => False
  | levels + 1, text =>
    text ∈ [units "true".toList, units "false".toList, units "null".toList] ∨ L.IsNumber text ∨
      StringText L text ∨ Listed L '[' ']' (Padded L (ValueText levels)) text ∨
      Listed L '{' '}' (MemberText L (Padded L (ValueText levels))) text

/-- A JSON text. -/
def JsonText (levels : ℕ) : Units → Prop := Padded L (ValueText L levels)

end Grammar

section Within

variable {L L' : Lexicon} {P P' : Units → Prop} {text : Units}

theorem Characters.mono (hwithin : L.Within L') (h : Characters L text) :
    Characters L' text := by
  induction h with
  | nil => exact .nil
  | plain hu _ ih => exact .plain (hwithin.plain _ hu) ih
  | short he _ ih => exact .short he ih
  | code hcode _ ih => exact .code (hwithin.code _ _ _ _ hcode) ih

theorem StringText.mono (hwithin : L.Within L') (h : StringText L text) : StringText L' text := by
  obtain ⟨body, hbody, rfl⟩ := h
  exact ⟨body, hbody.mono hwithin, rfl⟩

theorem Blank.mono (hwithin : L.Within L') (h : Blank L text) : Blank L' text :=
  fun u hu => hwithin.space u (h u hu)

theorem Padded.mono (hwithin : L.Within L') (hP : ∀ text, P text → P' text)
    (h : Padded L P text) : Padded L' P' text := by
  obtain ⟨before, body, after, hbefore, hbody, hafter, rfl⟩ := h
  exact ⟨before, body, after, hbefore.mono hwithin, hP body hbody, hafter.mono hwithin, rfl⟩

theorem Listed.mono {opening closing : Char} (hwithin : L.Within L')
    (hP : ∀ text, P text → P' text) (h : Listed L opening closing P text) :
    Listed L' opening closing P' text := by
  rcases h with ⟨blank, hblank, rfl⟩ | ⟨parts, hne, hparts, rfl⟩
  · exact Or.inl ⟨blank, hblank.mono hwithin, rfl⟩
  · exact Or.inr ⟨parts, hne, fun part hpart => hP part (hparts part hpart), rfl⟩

theorem MemberText.mono (hwithin : L.Within L') (hP : ∀ text, P text → P' text)
    (h : MemberText L P text) : MemberText L' P' text := by
  obtain ⟨key, value, hkey, hvalue, rfl⟩ := h
  exact ⟨key, value, hkey.mono hwithin fun _ => StringText.mono hwithin, hP value hvalue, rfl⟩

/-- **With more lexemes there are more texts.** -/
theorem ValueText.mono (hwithin : L.Within L') {levels : ℕ} (h : ValueText L levels text) :
    ValueText L' levels text := by
  induction levels generalizing text with
  | zero => exact h
  | succ levels ih =>
    have hpadded : ∀ text, Padded L (ValueText L levels) text →
        Padded L' (ValueText L' levels) text := fun _ => Padded.mono hwithin fun _ => ih
    rcases h with hliteral | hnumber | hstring | hlist | hobject
    · exact Or.inl hliteral
    · exact Or.inr (Or.inl (hwithin.number _ hnumber))
    · exact Or.inr (Or.inr (Or.inl (hstring.mono hwithin)))
    · exact Or.inr (Or.inr (Or.inr (Or.inl (hlist.mono hwithin hpadded))))
    · exact Or.inr (Or.inr (Or.inr (Or.inr
        (hobject.mono hwithin fun _ => MemberText.mono hwithin hpadded))))

theorem JsonText.mono (hwithin : L.Within L') {levels : ℕ} (h : JsonText L levels text) :
    JsonText L' levels text :=
  Padded.mono hwithin (fun _ => ValueText.mono hwithin) h

end Within

end Json
