import SilenceWatch.Library.JsonText
import Mathlib.Data.Int.Notation

/-!
# The codec of the Java client

Strings are written with escapes, and documents are read by recursive descent. Every look at
the input comes after a test that it is not at its end, which is the case of nothing being
left; what is left of the input goes with the position in it.
-/

namespace SilenceWatch

open Json

namespace JavaJson

/-- What is thrown. A `NumberFormatException` is an `IllegalArgumentException`. -/
inductive Thrown where
  | illegalArgument (message : Units)
  | numberFormat (text : Units)
  /-- Nothing is thrown, and a loop never ends. -/
  | endless

/-- An `instanceof IllegalArgumentException`. -/
def Thrown.IsIllegalArgument : Thrown → Prop
  | .illegalArgument _ | .numberFormat _ => True
  | .endless => False

/-- An exception with a message. -/
def illegal {α : Type} (message : String) : Except Thrown α :=
  .error (.illegalArgument (units message.toList))

section Writing

/-- What is appended for one character. -/
def escaped (character : UInt16) : Units :=
  if character = unit '"' then units ['\\', '"']
  else if character = unit '\\' then units ['\\', '\\']
  else if character = unit '\n' then units ['\\', 'n']
  else if character = unit '\r' then units ['\\', 'r']
  else if character = unit '\t' then units ['\\', 't']
  else if character = 8 then units ['\\', 'b']
  else if character = 12 then units ['\\', 'f']
  else if character.toNat < 0x20 then units (hexEscape character)
  else [character]

/-- `writeString`. -/
def writeString (out value : Units) : Units :=
  value.foldl (fun out character => out ++ escaped character) (out ++ [unit '"']) ++ [unit '"']

end Writing

section Characters

/-- `Character.isWhitespace`. -/
def isWhitespace (c : UInt16) : Bool :=
  [0x09, 0x0A, 0x0B, 0x0C, 0x0D, 0x1C, 0x1D, 0x1E, 0x1F, 0x20, 0x1680, 0x2028, 0x2029, 0x205F,
    0x3000].contains c.toNat ||
    (0x2000 ≤ c.toNat && c.toNat ≤ 0x200A && c.toNat != 0x2007)

/-- Where the decimal digits of the scripts begin. -/
def digitZeros : List ℕ :=
  [0x30, 0x660, 0x6F0, 0x7C0, 0x966, 0x9E6, 0xA66, 0xAE6, 0xB66, 0xBE6, 0xC66, 0xCE6, 0xD66,
    0xDE6, 0xE50, 0xED0, 0xF20, 0x1040, 0x1090, 0x17E0, 0x1810, 0x1946, 0x19D0, 0x1A80, 0x1A90,
    0x1B50, 0x1BB0, 0x1C40, 0x1C50, 0xA620, 0xA8D0, 0xA900, 0xA9D0, 0xA9F0, 0xAA50, 0xABF0,
    0xFF10]

/-- `Character.digit` in base sixteen. -/
def digit (c : UInt16) : Option ℕ :=
  let n := c.toNat
  match digitZeros.find? fun first => first ≤ n && n ≤ first + 9 with
  | some first => some (n - first)
  | none =>
    match [0x41, 0x61, 0xFF21, 0xFF41].find? fun letter => letter ≤ n && n ≤ letter + 5 with
    | some letter => some (n - letter + 10)
    | none => none

/-- The value of digits that `Character.digit` knows. -/
def digitsValue (text : Units) : Option ℕ :=
  text.foldl (fun value c => value.bind fun v => (digit c).map (16 * v + ·)) (some 0)

/-- `(char) Integer.parseInt(text, 16)`. -/
def parseChar : Units → Option UInt16
  | sign :: text =>
    if sign = unit '-' then (digitsValue text).map fun v => UInt16.ofNat (0x10000 - v)
    else if sign = unit '+' then (digitsValue text).map UInt16.ofNat
    else (digitsValue (sign :: text)).map UInt16.ofNat
  | [] => none

/-- `"+-.eE0123456789".indexOf(c) >= 0`. -/
def isNumberUnit (c : UInt16) : Bool := (units "+-.eE0123456789".toList).contains c

/-- What `Double.valueOf` takes for the text of a number without its sign. -/
def isMagnitude (text : List Char) : Bool :=
  match text.dropWhile Char.isDigit with
  | '.' :: fraction =>
    ((text.takeWhile Char.isDigit).isEmpty == false ||
        (fraction.takeWhile Char.isDigit).isEmpty == false) &&
      isExponent (fraction.dropWhile Char.isDigit)
  | rest => (text.takeWhile Char.isDigit).isEmpty == false && isExponent rest

/-- What `Double.valueOf` takes for the text of a number, of those that have only the characters
above. -/
def isFloatingPoint : List Char → Bool
  | '+' :: magnitude => isMagnitude magnitude
  | '-' :: magnitude => isMagnitude magnitude
  | magnitude => isMagnitude magnitude

end Characters

/-- Where the parser is: its position, and the input from there. -/
structure Cursor where
  position : ℕ
  rest : Units

/-- `put` of a `LinkedHashMap`. -/
def put {α : Type} (members : List (Units × α)) (key : Units) (value : α) : List (Units × α) :=
  if members.any (·.1 == key) then
    members.map fun member => if member.1 = key then (key, value) else member
  else members ++ [(key, value)]

section Reading

/-- `skipWhitespace`. -/
def skipWhitespace : ℕ → Units → Cursor
  | position, [] => ⟨position, []⟩
  | position, c :: rest =>
    if isWhitespace c then skipWhitespace (position + 1) rest else ⟨position, c :: rest⟩

/-- `skipWhitespace`. -/
def Cursor.skip (cursor : Cursor) : Cursor := skipWhitespace cursor.position cursor.rest

/-- `peek`. -/
def peek (cursor : Cursor) : Except Thrown UInt16 :=
  match cursor.rest with
  | [] => illegal "unexpected end of input"
  | c :: _ => .ok c

/-- `position++`. -/
def Cursor.next (cursor : Cursor) : Cursor := ⟨cursor.position + 1, cursor.rest.tail⟩

/-- `expect`. -/
def expect (expected : Char) (cursor : Cursor) : Except Thrown Cursor :=
  if cursor.rest.head? = some (unit expected) then .ok cursor.next
  else
    illegal ("expected '" ++ String.singleton expected ++ "' at offset " ++
      toString cursor.position)

/-- The loop of `readString`. -/
def readCharacters : ℕ → Units → Units → Except Thrown (Units × Cursor)
  | _, [], _ => illegal "unterminated string"
  | position, c :: rest, text =>
    if c = unit '"' then .ok (text, ⟨position + 1, rest⟩)
    else if c ≠ unit '\\' then readCharacters (position + 1) rest (text ++ [c])
    else
      match rest with
      | [] => illegal "unterminated escape"
      | e :: rest =>
        if e = unit 'u' then
          match rest with
          | a :: b :: c :: d :: rest =>
            match parseChar [a, b, c, d] with
            | some u => readCharacters (position + 6) rest (text ++ [u])
            | none => .error (.numberFormat [a, b, c, d])
          | _ => illegal "truncated unicode escape"
        else
          match shortEscapes.find? fun escape => unit escape.1 = e with
          | some escape => readCharacters (position + 2) rest (text ++ [escape.2])
          | none => .error (.illegalArgument (units "invalid escape \\".toList ++ [e]))

/-- `readString`. -/
def readString (cursor : Cursor) : Except Thrown (Units × Cursor) := do
  let cursor ← expect '"' cursor
  readCharacters cursor.position cursor.rest []

variable {ν : Type}

/-- `readLiteral`. -/
def readLiteral (literal : String) (value : Value ν) (cursor : Cursor) :
    Except Thrown (Value ν × Cursor) :=
  let expected := units literal.toList
  if expected <+: cursor.rest then
    .ok (value, ⟨cursor.position + expected.length, cursor.rest.drop expected.length⟩)
  else illegal ("invalid literal at offset " ++ toString cursor.position)

variable (valueOf : List Char → ν)

/-- `readNumber`, where `valueOf` is what `Double.valueOf` makes of the text of a number. -/
def readNumber (cursor : Cursor) : Except Thrown (Value ν × Cursor) :=
  let text := cursor.rest.takeWhile isNumberUnit
  if text = [] then illegal ("unexpected character at offset " ++ toString cursor.position)
  else
    let literal := text.map fun c => Char.ofNat c.toNat
    if isFloatingPoint literal then
      .ok (.number (valueOf literal),
        ⟨cursor.position + text.length, cursor.rest.dropWhile isNumberUnit⟩)
    else illegal ("invalid number at offset " ++ toString cursor.position)

variable {α β : Type}

/-- A loop over what stands between two brackets, of which each round reads one entry, and which
goes on behind a comma. -/
def readEntries (closing : Char) (readEntry : Cursor → Except Thrown (α × Cursor))
    (add : β → α → β) : ℕ → Cursor → β → Except Thrown (β × Cursor)
  | 0, _, _ => .error .endless
  | rounds + 1, cursor, entries => do
    let (entry, cursor) ← readEntry cursor
    let cursor := cursor.skip
    let next ← peek cursor
    let cursor := cursor.next
    if next = unit closing then .ok (add entries entry, cursor)
    else if next ≠ unit ',' then
      illegal ("expected ',' or '" ++ String.singleton closing ++ "' at offset " ++
        toString (cursor.position - 1))
    else readEntries closing readEntry add rounds cursor (add entries entry)

/-- What `readObject` and `readArray` have in common. -/
def readListed (opening closing : Char) (readEntry : Cursor → Except Thrown (α × Cursor))
    (add : β → α → β) (empty : β) (cursor : Cursor) : Except Thrown (β × Cursor) := do
  let cursor ← expect opening cursor
  let cursor := cursor.skip
  if (← peek cursor) = unit closing then .ok (empty, cursor.next)
  else readEntries closing readEntry add (cursor.rest.length + 1) cursor empty

/-- A key and its value. -/
def readMember (readValue : Cursor → Except Thrown (α × Cursor)) (cursor : Cursor) :
    Except Thrown ((Units × α) × Cursor) := do
  let (key, cursor) ← readString cursor.skip
  let cursor ← expect ':' cursor.skip
  let (value, cursor) ← readValue cursor
  .ok ((key, value), cursor)

/-- `readObject`. -/
def readObject (readValue : Cursor → Except Thrown (Value ν × Cursor)) (cursor : Cursor) :
    Except Thrown (Value ν × Cursor) := do
  let (members, cursor) ← readListed '{' '}' (readMember readValue)
    (fun members member => put members member.1 member.2) [] cursor
  .ok (.object members, cursor)

/-- `readArray`. -/
def readArray (readValue : Cursor → Except Thrown (Value ν × Cursor)) (cursor : Cursor) :
    Except Thrown (Value ν × Cursor) := do
  let (elements, cursor) ← readListed '[' ']' readValue
    (fun elements element => elements ++ [element]) [] cursor
  .ok (.array elements, cursor)

/-- `readValue`, where so many levels are left up to `MAX_DEPTH`. -/
def readValue : ℕ → Cursor → Except Thrown (Value ν × Cursor)
  | 0, _ => illegal "nesting too deep"
  | levels + 1, cursor => do
    let cursor := cursor.skip
    let c ← peek cursor
    if c = unit '{' then readObject (readValue levels) cursor
    else if c = unit '[' then readArray (readValue levels) cursor
    else if c = unit '"' then do
      let (text, cursor) ← readString cursor
      .ok (.string text, cursor)
    else if c = unit 't' then readLiteral "true" (.bool true) cursor
    else if c = unit 'f' then readLiteral "false" (.bool false) cursor
    else if c = unit 'n' then readLiteral "null" .null cursor
    else readNumber valueOf cursor

/-- `MAX_DEPTH`. -/
def maxDepth : ℕ := 32

/-- `parse`. -/
def parse (input : Units) : Except Thrown (Value ν) := do
  let cursor : Cursor := ⟨0, input⟩
  let (value, cursor) ← readValue valueOf (maxDepth + 1) cursor.skip
  let cursor := cursor.skip
  if cursor.rest ≠ [] then illegal ("trailing content at offset " ++ toString cursor.position)
  else .ok value

end Reading

section Strings

/-- The lexemes of the parser. -/
def lexicon : Lexicon where
  IsSpace u := isWhitespace u = true
  IsPlain u := u ≠ unit '"' ∧ u ≠ unit '\\'
  IsCode a b c d := (parseChar [a, b, c, d]).isSome = true
  IsNumber text := text ≠ [] ∧ (∀ u ∈ text, isNumberUnit u = true) ∧
    isFloatingPoint (text.map fun u => Char.ofNat u.toNat) = true

variable {position : ℕ} {text rest : Units} {c : UInt16} {s : Units} {cursor : Cursor} {e : Thrown}

theorem readCharacters_quote :
    readCharacters position (unit '"' :: rest) text = .ok (text, ⟨position + 1, rest⟩) := by
  rw [readCharacters.eq_def]
  dsimp only
  rw [if_pos rfl]

/-- A character that stands for itself. -/
theorem readCharacters_plain (hquote : c ≠ unit '"') (hbackslash : c ≠ unit '\\') :
    readCharacters position (c :: rest) text =
      readCharacters (position + 1) rest (text ++ [c]) := by
  rw [readCharacters.eq_def]
  dsimp only
  rw [if_neg hquote, if_pos hbackslash]

/-- An escape by a letter. -/
theorem readCharacters_short {letter : Char} {u : UInt16} (he : (letter, u) ∈ shortEscapes) :
    readCharacters position (unit '\\' :: unit letter :: rest) text =
      readCharacters (position + 2) rest (text ++ [u]) := by
  have hfind : ∀ escape ∈ shortEscapes, unit escape.1 ≠ unit 'u' ∧
      (shortEscapes.find? fun other => unit other.1 = unit escape.1) = some escape := by decide
  obtain ⟨hu, hescape⟩ := hfind _ he
  rw [readCharacters.eq_def]
  dsimp only
  rw [if_neg (by decide), if_neg (by decide), if_neg hu, hescape]

/-- An escape by a number. -/
theorem readCharacters_code {a b d u : UInt16} (hcode : parseChar [a, b, c, d] = some u) :
    readCharacters position (unit '\\' :: unit 'u' :: a :: b :: c :: d :: rest) text =
      readCharacters (position + 6) rest (text ++ [u]) := by
  rw [readCharacters.eq_def]
  dsimp only
  rw [if_neg (by decide), if_neg (by decide), if_pos rfl, hcode]

/-- A string is read up to its closing quote. -/
theorem readCharacters_complete {body : Units} (h : Characters lexicon body) :
    ∃ s, readCharacters position (body ++ unit '"' :: rest) text =
      .ok (text ++ s, ⟨position + body.length + 1, rest⟩) := by
  induction h generalizing position text with
  | nil => exact ⟨[], by rw [List.nil_append, readCharacters_quote, List.append_nil]; rfl⟩
  | @plain u body hu _ ih =>
    obtain ⟨s, hs⟩ := @ih (position + 1) (text ++ [u])
    refine ⟨u :: s, ?_⟩
    rw [List.cons_append, readCharacters_plain hu.1 hu.2, hs, List.append_assoc, List.length_cons]
    congr 4
    omega
  | @short letter u body he _ ih =>
    obtain ⟨s, hs⟩ := @ih (position + 2) (text ++ [u])
    refine ⟨u :: s, ?_⟩
    rw [List.cons_append, List.cons_append, readCharacters_short he, hs, List.append_assoc,
      List.length_cons, List.length_cons]
    congr 4
    omega
  | @code a b c d body hcode _ ih =>
    obtain ⟨u, hu⟩ := Option.isSome_iff_exists.mp hcode
    obtain ⟨s, hs⟩ := @ih (position + 6) (text ++ [u])
    refine ⟨u :: s, ?_⟩
    simp only [List.cons_append, List.length_cons]
    rw [readCharacters_code hu, hs, List.append_assoc]
    congr 4
    omega

/-- What comes of reading: a text of the kind, and what is left behind it, or an exception of the
right kind. -/
def Yields {α : Type} (P : Units → Prop) (rest : Units) : Except Thrown (α × Cursor) → Prop
  | .ok (_, cursor) => ∃ text, P text ∧ rest = text ++ cursor.rest
  | .error e => e.IsIllegalArgument

/-- One more token in front. -/
theorem Yields.cons {α : Type} {P Q : Units → Prop} (token : Units)
    {outcome : Except Thrown (α × Cursor)} (h : Yields P rest outcome)
    (hQ : ∀ text, P text → Q (token ++ text)) : Yields Q (token ++ rest) outcome := by
  cases outcome with
  | ok read =>
    obtain ⟨text, htext, hrest⟩ := h
    exact ⟨token ++ text, hQ text htext, by rw [hrest, List.append_assoc]⟩
  | error e => exact h

/-- What is read as a string is one. -/
theorem readCharacters_yields (position : ℕ) (rest text : Units) :
    Yields (fun body => ∃ inner, Characters lexicon inner ∧ body = inner ++ [unit '"']) rest
      (readCharacters position rest text) := by
  induction position, rest, text using readCharacters.induct with
  | case1 position text => exact trivial
  | case2 position rest text =>
    rw [readCharacters_quote]
    exact ⟨[unit '"'], ⟨[], .nil, rfl⟩, rfl⟩
  | case3 position c rest text hquote hplain ih =>
    rw [readCharacters_plain hquote hplain]
    refine ih.cons [c] ?_
    rintro _ ⟨inner, hinner, rfl⟩
    exact ⟨c :: inner, .plain ⟨hquote, hplain⟩ hinner, rfl⟩
  | case4 position c text hquote hbackslash =>
    obtain rfl := not_not.mp hbackslash
    exact trivial
  | case5 position c text hquote hbackslash a b c' d rest u hcode ih =>
    obtain rfl := not_not.mp hbackslash
    rw [readCharacters_code hcode]
    refine ih.cons [unit '\\', unit 'u', a, b, c', d] ?_
    rintro _ ⟨inner, hinner, rfl⟩
    exact ⟨_, .code (Option.isSome_of_eq_some hcode) hinner, rfl⟩
  | case6 position c text hquote hbackslash a b c' d rest hcode =>
    obtain rfl := not_not.mp hbackslash
    rw [readCharacters.eq_def]
    dsimp only
    rw [if_neg hquote, if_neg hbackslash, if_pos rfl, hcode]
    exact trivial
  | case7 position c text hquote hbackslash rest hshort =>
    obtain rfl := not_not.mp hbackslash
    rw [readCharacters.eq_def]
    dsimp only
    rw [if_neg hquote, if_neg hbackslash, if_pos rfl]
    split
    · next rest' => exact absurd rfl (hshort _ _ _ _ _)
    · exact trivial
  | case8 position c text hquote hbackslash e rest hu escape hescape ih =>
    obtain rfl := not_not.mp hbackslash
    have he : unit escape.1 = e := by simpa using List.find?_some hescape
    have hmem : (escape.1, escape.2) ∈ shortEscapes := List.mem_of_find?_eq_some hescape
    subst he
    rw [readCharacters_short hmem]
    refine ih.cons [unit '\\', unit escape.1] ?_
    rintro _ ⟨inner, hinner, rfl⟩
    exact ⟨_, .short hmem hinner, rfl⟩
  | case9 position c text hquote hbackslash e rest hu hescape =>
    obtain rfl := not_not.mp hbackslash
    rw [readCharacters.eq_def]
    dsimp only
    rw [if_neg hquote, if_neg hbackslash, if_neg hu, hescape]
    exact trivial

end Strings

section Readers

variable {α β : Type} {P Q : Units → Prop} {position : ℕ} {text rest blank : Units}
  {cursor : Cursor}

/-- What may stand behind a value. -/
def Ends (rest : Units) : Prop := ∀ u ∈ rest.head?, isNumberUnit u = false

/-- A reader of texts of a kind. -/
structure Reads (read : Cursor → Except Thrown (α × Cursor)) (P : Units → Prop) : Prop where
  yields : ∀ cursor, Yields P cursor.rest (read cursor)
  complete : ∀ position text rest, P text → Ends rest →
    ∃ a position', read ⟨position, text ++ rest⟩ = .ok (a, ⟨position', rest⟩)

theorem Yields.mono {outcome : Except Thrown (α × Cursor)} (h : Yields P rest outcome)
    (hPQ : ∀ text, P text → Q text) : Yields Q rest outcome := by
  cases outcome with
  | ok read =>
    obtain ⟨text, htext, hrest⟩ := h
    exact ⟨text, hPQ text htext, hrest⟩
  | error e => exact h

/-- One reading after another. -/
theorem Yields.bind {outcome : Except Thrown (α × Cursor)}
    {next : α × Cursor → Except Thrown (β × Cursor)} (h : Yields P rest outcome)
    (hnext : ∀ a cursor text, P text → rest = text ++ cursor.rest →
      Yields Q rest (next (a, cursor))) : Yields Q rest (outcome >>= next) := by
  cases outcome with
  | ok read =>
    obtain ⟨text, htext, hrest⟩ := h
    exact hnext read.1 read.2 text htext hrest
  | error e => exact h

/-- An expected character. -/
theorem yields_expect {c : Char} {next : Cursor → Except Thrown (α × Cursor)}
    (hnext : ∀ position rest, cursor.rest = unit c :: rest →
      Yields P cursor.rest (next ⟨position, rest⟩)) :
    Yields P cursor.rest (expect c cursor >>= next) := by
  unfold expect
  split
  · next hhead =>
    obtain ⟨rest, hrest⟩ := List.head?_eq_some_iff.mp hhead
    have hcursor : cursor.next = ⟨cursor.position + 1, rest⟩ := by rw [Cursor.next, hrest]; rfl
    exact hcursor ▸ hnext (cursor.position + 1) rest hrest
  · exact trivial

theorem expect_cons {c : Char} :
    expect c ⟨position, unit c :: rest⟩ = .ok ⟨position + 1, rest⟩ := by
  have hhead : (Cursor.mk position (unit c :: rest)).rest.head? = some (unit c) := rfl
  rw [expect, if_pos hhead]
  rfl

theorem blank_nil : Blank lexicon [] := fun _ hu => by cases hu

/-- White space is skipped. -/
theorem exists_skip (cursor : Cursor) :
    ∃ blank, Blank lexicon blank ∧ cursor.rest = blank ++ cursor.skip.rest := by
  obtain ⟨position, rest⟩ := cursor
  unfold Cursor.skip
  dsimp only
  induction rest generalizing position with
  | nil => exact ⟨[], blank_nil, rfl⟩
  | cons c rest ih =>
    unfold skipWhitespace
    split
    · next hspace =>
      obtain ⟨blank, hblank, hrest⟩ := ih (position + 1)
      refine ⟨c :: blank, ?_, by rw [List.cons_append, ← hrest]⟩
      intro u hu
      rcases List.mem_cons.mp hu with rfl | hu
      · exact hspace
      · exact hblank u hu
    · exact ⟨[], blank_nil, rfl⟩

/-- All of it is skipped. -/
theorem skip_append (hblank : Blank lexicon blank)
    (hrest : ∀ u ∈ rest.head?, isWhitespace u = false) :
    Cursor.skip ⟨position, blank ++ rest⟩ = ⟨position + blank.length, rest⟩ := by
  unfold Cursor.skip
  dsimp only
  induction blank generalizing position with
  | nil =>
    cases rest with
    | nil => rfl
    | cons c rest =>
      rw [List.nil_append, skipWhitespace, if_neg (by simp [hrest c rfl])]
      rfl
  | cons c blank ih =>
    obtain ⟨hc, hblank⟩ := List.forall_mem_cons.mp hblank
    have hspace : isWhitespace c = true := hc
    rw [List.cons_append, skipWhitespace, if_pos hspace, ih hblank, List.length_cons]
    congr 1
    omega

/-- White space may stand behind a value. -/
theorem ends_append (hblank : Blank lexicon blank) (hrest : Ends rest) : Ends (blank ++ rest) := by
  cases blank with
  | nil => exact hrest
  | cons c blank =>
    intro u hu
    obtain rfl := Option.some.inj hu
    have hspace : isWhitespace c = true := hblank c List.mem_cons_self
    have hall : (units "+-.eE0123456789".toList).all (fun u => !isWhitespace u) = true := by decide
    by_contra hnumber
    rw [Bool.not_eq_false, isNumberUnit, List.contains_iff_mem] at hnumber
    have hnone := List.all_eq_true.mp hall c hnumber
    rw [hspace] at hnone
    cases hnone

theorem readString_quote : readString ⟨position, unit '"' :: rest⟩ =
    readCharacters (position + 1) rest [] := by
  rw [readString, expect_cons]
  rfl

/-- A reader of the kind reads strings. -/
theorem reads_readString : Reads readString (StringText lexicon) where
  yields cursor := by
    unfold readString
    refine yields_expect fun position rest hrest => ?_
    rw [hrest]
    refine (readCharacters_yields position rest []).cons [unit '"'] ?_
    rintro _ ⟨inner, hinner, rfl⟩
    exact ⟨inner, hinner, rfl⟩
  complete position text rest htext _ := by
    obtain ⟨body, hbody, rfl⟩ := htext
    obtain ⟨s, hs⟩ : ∃ s, readCharacters (position + 1) (body ++ unit '"' :: rest) [] =
        .ok ([] ++ s, ⟨position + 1 + body.length + 1, rest⟩) := readCharacters_complete hbody
    rw [List.cons_append, readString_quote, List.append_assoc, List.singleton_append, hs]
    exact ⟨_, _, rfl⟩

/-- A reader of literals. -/
theorem reads_readLiteral {ν : Type} (literal : String) (value : Value ν) :
    Reads (readLiteral literal value) (· = units literal.toList) where
  yields cursor := by
    unfold readLiteral
    dsimp only
    split
    · next hprefix =>
      refine ⟨_, rfl, ?_⟩
      obtain ⟨rest, hrest⟩ := hprefix
      dsimp only
      rw [← hrest, List.drop_left]
    · exact trivial
  complete position text rest htext _ := by
    subst htext
    unfold readLiteral
    dsimp only
    rw [if_pos (List.prefix_append _ _), List.drop_left]
    exact ⟨_, _, rfl⟩

/-- The reader of numbers. -/
theorem reads_readNumber {ν : Type} (valueOf : List Char → ν) :
    Reads (readNumber valueOf) lexicon.IsNumber where
  yields cursor := by
    unfold readNumber
    dsimp only
    split_ifs with hempty hliteral
    · exact trivial
    · refine ⟨_, ⟨hempty, ?_, hliteral⟩, (List.takeWhile_append_dropWhile).symm⟩
      intro u hu
      exact List.mem_takeWhile_imp hu
    · exact trivial
  complete position text rest htext hrest := by
    obtain ⟨hne, hunits, hliteral⟩ := htext
    have hsplit : (text ++ rest).takeWhile isNumberUnit = text ∧
        (text ++ rest).dropWhile isNumberUnit = rest := by
      rw [List.takeWhile_append_of_pos hunits, List.dropWhile_append_of_pos hunits]
      cases rest with
      | nil => exact ⟨List.append_nil text, rfl⟩
      | cons c rest =>
        have hc : ¬ isNumberUnit c = true := by simp [hrest c rfl]
        rw [List.takeWhile_cons_of_neg hc, List.dropWhile_cons_of_neg hc, List.append_nil]
        exact ⟨rfl, rfl⟩
    unfold readNumber
    dsimp only
    rw [hsplit.1, hsplit.2, if_neg hne, if_pos hliteral]
    exact ⟨_, _, rfl⟩

/-- A text with white space before it. -/
def Led (P : Units → Prop) (text : Units) : Prop :=
  ∃ before body, Blank lexicon before ∧ P body ∧ text = before ++ body

/-- A text with white space behind it. -/
def Trailed (P : Units → Prop) (text : Units) : Prop :=
  ∃ body after, P body ∧ Blank lexicon after ∧ text = body ++ after

theorem trailed_led_iff : Trailed (Led P) text ↔ Padded lexicon P text := by
  constructor
  · rintro ⟨_, after, ⟨before, body, hbefore, hbody, rfl⟩, hafter, rfl⟩
    exact ⟨before, body, after, hbefore, hbody, hafter, rfl⟩
  · rintro ⟨before, body, after, hbefore, hbody, hafter, rfl⟩
    exact ⟨_, after, ⟨before, body, hbefore, hbody, rfl⟩, hafter, rfl⟩

/-- A key and a value, without the white space behind it. -/
def MemberLed (P : Units → Prop) (text : Units) : Prop :=
  ∃ key value, Padded lexicon (StringText lexicon) key ∧ Led P value ∧
    text = key ++ unit ':' :: value

theorem trailed_memberLed_iff :
    Trailed (MemberLed P) text ↔ MemberText lexicon (Padded lexicon P) text := by
  constructor
  · rintro ⟨_, after, ⟨key, value, hkey, hvalue, rfl⟩, hafter, rfl⟩
    refine ⟨key, value ++ after, hkey, trailed_led_iff.mp ⟨value, after, hvalue, hafter, rfl⟩, ?_⟩
    rw [List.append_assoc, List.cons_append]
  · rintro ⟨key, value, hkey, hvalue, rfl⟩
    obtain ⟨body, after, hbody, hafter, rfl⟩ := trailed_led_iff.mpr hvalue
    refine ⟨_, after, ⟨key, body, hkey, hbody, rfl⟩, hafter, ?_⟩
    rw [List.append_assoc, List.cons_append]

end Readers

section Entries

variable {α β : Type} {P : Units → Prop} {readEntry : Cursor → Except Thrown (α × Cursor)}
  {add : β → α → β} {opening closing : Char} {cursor : Cursor} {rest : Units}

theorem yields_peek {γ : Type} {Q : Units → Prop} {next : UInt16 → Except Thrown (γ × Cursor)}
    (hnext : ∀ c tail, cursor.rest = c :: tail → Yields Q rest (next c)) :
    Yields Q rest (peek cursor >>= next) := by
  unfold peek
  split
  · exact trivial
  · next c tail htail => exact hnext c tail htail

/-- What the loop reads: entries with commas between them, and the bracket behind them. -/
def EntriesText (P : Units → Prop) (closing : Char) (text : Units) : Prop :=
  ∃ parts, parts ≠ [] ∧ (∀ part ∈ parts, Trailed P part) ∧
    text = [unit ','].intercalate parts ++ [unit closing]

theorem entriesText_one {body blank : Units} (hbody : P body) (hblank : Blank lexicon blank) :
    EntriesText P closing (body ++ (blank ++ [unit closing])) := by
  refine ⟨[body ++ blank], List.cons_ne_nil _ _, ?_, ?_⟩
  · intro part hpart
    obtain rfl := List.mem_singleton.mp hpart
    exact ⟨body, blank, hbody, hblank, rfl⟩
  · rw [List.intercalate_singleton, List.append_assoc]

theorem EntriesText.cons {body blank text : Units} (hbody : P body) (hblank : Blank lexicon blank)
    (h : EntriesText P closing text) :
    EntriesText P closing (body ++ (blank ++ unit ',' :: text)) := by
  obtain ⟨parts, hne, hparts, rfl⟩ := h
  refine ⟨(body ++ blank) :: parts, List.cons_ne_nil _ _, ?_, ?_⟩
  · intro part hpart
    rcases List.mem_cons.mp hpart with rfl | hpart
    · exact ⟨body, blank, hbody, hblank, rfl⟩
    · exact hparts part hpart
  · obtain ⟨part, parts, rfl⟩ := List.exists_cons_of_ne_nil hne
    rw [List.intercalate_cons_cons]
    simp only [List.append_assoc, List.cons_append, List.nil_append]

/-- The loop, where no round is missing. -/
theorem readEntries_yields (hread : Reads readEntry P) {rounds : ℕ} {entries : β}
    (hrounds : cursor.rest.length < rounds) :
    Yields (EntriesText P closing) cursor.rest
      (readEntries closing readEntry add rounds cursor entries) := by
  induction rounds generalizing cursor entries with
  | zero => omega
  | succ rounds ih =>
    rw [readEntries]
    refine (hread.yields cursor).bind fun entry after body hbody hrest => ?_
    dsimp only
    obtain ⟨blank, hblank, hskip⟩ := exists_skip after
    refine yields_peek fun c tail htail => ?_
    have hnext : after.skip.next.rest = tail := by rw [Cursor.next, htail]; rfl
    have hcursor : cursor.rest = body ++ (blank ++ c :: tail) := by rw [hrest, hskip, htail]
    split_ifs with hclosing hcomma
    · refine ⟨_, entriesText_one hbody hblank, ?_⟩
      rw [hcursor, hnext, hclosing]
      simp only [List.append_assoc, List.singleton_append]
    · exact trivial
    · have hlength := congrArg List.length hcursor
      simp only [List.length_append, List.length_cons] at hlength
      have hlater : Yields (EntriesText P closing) tail
          (readEntries closing readEntry add rounds after.skip.next (add entries entry)) := by
        rw [← hnext]
        exact ih (by rw [hnext]; omega)
      rw [hcursor, not_not.mp hcomma, ← List.singleton_append, ← List.append_assoc,
        ← List.append_assoc]
      refine hlater.cons _ fun text htext => ?_
      have hmore := htext.cons hbody hblank
      simpa only [List.append_assoc, List.singleton_append] using hmore

/-- Neither a comma nor a bracket is white space or belongs to a number. -/
theorem notSpace_of_mem {c : Char} (hc : c ∈ [',', ':', ']', '}']) :
    isWhitespace (unit c) = false ∧ isNumberUnit (unit c) = false := by
  have hall : ([',', ':', ']', '}'].all fun c =>
      decide (isWhitespace (unit c) = false ∧ isNumberUnit (unit c) = false)) = true := by decide
  exact of_decide_eq_true (List.all_eq_true.mp hall c hc)

/-- One round of the loop. -/
theorem readEntries_round (closing c : Char) (hc : c ∈ [',', ':', ']', '}'])
    (hread : Reads readEntry P) {rounds position : ℕ} {entries : β} {body blank : Units}
    (hbody : P body) (hblank : Blank lexicon blank) :
    ∃ entry position',
      readEntries closing readEntry add (rounds + 1)
          ⟨position, body ++ (blank ++ unit c :: rest)⟩ entries =
        if unit c = unit closing then .ok (add entries entry, ⟨position', rest⟩)
        else if unit c ≠ unit ',' then
          illegal ("expected ',' or '" ++ String.singleton closing ++ "' at offset " ++
            toString (position' - 1))
        else readEntries closing readEntry add rounds ⟨position', rest⟩ (add entries entry) := by
  obtain ⟨hspace, hnumber⟩ := notSpace_of_mem hc
  have hends : Ends (blank ++ unit c :: rest) := ends_append hblank fun u hu => by
    obtain rfl := Option.some.inj hu
    exact hnumber
  obtain ⟨entry, after, hentry⟩ := hread.complete position body _ hbody hends
  have hskip : Cursor.skip ⟨after, blank ++ unit c :: rest⟩ =
      ⟨after + blank.length, unit c :: rest⟩ := skip_append hblank fun u hu => by
    obtain rfl := Option.some.inj hu
    exact hspace
  refine ⟨entry, after + blank.length + 1, ?_⟩
  rw [readEntries, hentry]
  change (peek (Cursor.skip ⟨after, blank ++ unit c :: rest⟩) >>= _) = _
  rw [hskip]
  rfl

/-- The loop reads all entries. -/
theorem readEntries_complete (hread : Reads readEntry P) (hclosing : closing ∈ [']', '}'])
    {parts : List Units} (hne : parts ≠ []) (hparts : ∀ part ∈ parts, Trailed P part)
    {rounds position : ℕ} {entries : β} (hrounds : parts.length ≤ rounds) :
    ∃ b position', readEntries closing readEntry add rounds
      ⟨position, [unit ','].intercalate parts ++ unit closing :: rest⟩ entries =
        .ok (b, ⟨position', rest⟩) := by
  have hmem : closing ∈ [',', ':', ']', '}'] :=
    List.mem_cons_of_mem _ (List.mem_cons_of_mem _ hclosing)
  have hcomma : unit ',' ≠ unit closing := by
    have hall : ([']', '}'].all fun c => decide (unit ',' ≠ unit c)) = true := by decide
    exact of_decide_eq_true (List.all_eq_true.mp hall closing hclosing)
  induction parts generalizing rounds position entries with
  | nil => exact absurd rfl hne
  | cons part parts ih =>
    obtain ⟨⟨body, blank, hbody, hblank, rfl⟩, hlater⟩ := List.forall_mem_cons.mp hparts
    rw [List.length_cons] at hrounds
    obtain ⟨rounds, rfl⟩ : ∃ r, rounds = r + 1 := ⟨rounds - 1, by omega⟩
    cases parts with
    | nil =>
      obtain ⟨entry, position', hround⟩ :=
        readEntries_round closing closing hmem hread hbody hblank
      rw [List.intercalate_singleton, List.append_assoc, hround, if_pos rfl]
      exact ⟨_, _, rfl⟩
    | cons next parts =>
      obtain ⟨entry, position', hround⟩ :=
        readEntries_round closing ',' List.mem_cons_self hread hbody hblank
      rw [List.intercalate_cons_cons]
      simp only [List.append_assoc, List.cons_append, List.nil_append]
      rw [hround, if_neg hcomma, if_neg (not_not.mpr rfl)]
      exact ih (List.cons_ne_nil _ _) hlater (by omega)

/-- There are no more parts than characters, but for one. -/
theorem length_le_intercalate (parts : List Units) :
    parts.length ≤ ([unit ','].intercalate parts).length + 1 := by
  induction parts with
  | nil => exact Nat.zero_le _
  | cons part parts ih =>
    cases parts with
    | nil => simp
    | cons next parts =>
      rw [List.intercalate_cons_cons, List.length_append, List.length_append, List.length_singleton,
        List.length_cons]
      omega

/-- White space may stand before a text of the kind, and what follows it begins with neither white
space nor the bracket. -/
structure Leads (P : Units → Prop) (closing : Char) : Prop where
  append : ∀ blank text, Blank lexicon blank → P text → P (blank ++ text)
  start : ∀ text, P text → ∃ blank c tail, Blank lexicon blank ∧ text = blank ++ c :: tail ∧
    P (c :: tail) ∧ isWhitespace c = false ∧ c ≠ unit closing

theorem intercalate_append (blank part : Units) (parts : List Units) :
    [unit ','].intercalate ((blank ++ part) :: parts) =
      blank ++ [unit ','].intercalate (part :: parts) := by
  cases parts with
  | nil => rw [List.intercalate_singleton, List.intercalate_singleton]
  | cons next parts =>
    rw [List.intercalate_cons_cons, List.intercalate_cons_cons]
    simp only [List.append_assoc]

/-- White space before the first entry belongs to it. -/
theorem EntriesText.append (hleads : Leads P closing) {blank text : Units}
    (hblank : Blank lexicon blank) (h : EntriesText P closing text) :
    Listed lexicon opening closing (Trailed P) (unit opening :: (blank ++ text)) := by
  obtain ⟨parts, hne, hparts, rfl⟩ := h
  obtain ⟨part, parts, rfl⟩ := List.exists_cons_of_ne_nil hne
  obtain ⟨⟨body, after, hbody, hafter, rfl⟩, hlater⟩ := List.forall_mem_cons.mp hparts
  refine Or.inr ⟨(blank ++ (body ++ after)) :: parts, List.cons_ne_nil _ _, ?_, ?_⟩
  · intro part hpart
    rcases List.mem_cons.mp hpart with rfl | hpart
    · exact ⟨blank ++ body, after, hleads.append blank body hblank hbody, hafter,
        (List.append_assoc _ _ _).symm⟩
    · exact hlater part hpart
  · rw [intercalate_append blank (body ++ after), List.append_assoc]

/-- After its bracket and white space, a list is closed or has entries. -/
theorem readListed_opening {position : ℕ} {blank tail : Units} {c : UInt16} (empty : β)
    (hblank : Blank lexicon blank) (hc : isWhitespace c = false) :
    readListed opening closing readEntry add empty
        ⟨position, unit opening :: (blank ++ c :: tail)⟩ =
      if c = unit closing then .ok (empty, ⟨position + 1 + blank.length + 1, tail⟩)
      else readEntries closing readEntry add ((c :: tail).length + 1)
        ⟨position + 1 + blank.length, c :: tail⟩ empty := by
  have hskip : Cursor.skip ⟨position + 1, blank ++ c :: tail⟩ =
      ⟨position + 1 + blank.length, c :: tail⟩ := skip_append hblank fun u hu => by
    obtain rfl := Option.some.inj hu
    exact hc
  rw [readListed, expect_cons]
  change (peek (Cursor.skip ⟨position + 1, blank ++ c :: tail⟩) >>= fun next =>
    if next = unit closing then
      .ok (empty, (Cursor.skip ⟨position + 1, blank ++ c :: tail⟩).next)
    else readEntries closing readEntry add
      ((Cursor.skip ⟨position + 1, blank ++ c :: tail⟩).rest.length + 1)
      (Cursor.skip ⟨position + 1, blank ++ c :: tail⟩) empty) = _
  rw [hskip]
  rfl

/-- Everything between two brackets. -/
theorem reads_readListed (hread : Reads readEntry P) (hclosing : closing ∈ [']', '}'])
    (hleads : Leads P closing) (empty : β) :
    Reads (readListed opening closing readEntry add empty)
      (Listed lexicon opening closing (Trailed P)) where
  yields cursor := by
    unfold readListed
    refine yields_expect fun position rest hrest => ?_
    dsimp only
    obtain ⟨blank, hblank, hskip⟩ := exists_skip ⟨position, rest⟩
    generalize Cursor.skip ⟨position, rest⟩ = after at hskip
    dsimp only at hskip
    refine yields_peek fun c tail htail => ?_
    rw [hrest, hskip]
    split_ifs with hempty
    · refine ⟨unit opening :: (blank ++ [unit closing]), Or.inl ⟨blank, hblank, rfl⟩, ?_⟩
      have hnext : after.next.rest = tail := by
        rw [Cursor.next, htail]
        rfl
      rw [hnext, htail, hempty]
      simp only [List.cons_append, List.append_assoc, List.nil_append]
    · have hentries : Yields (EntriesText P closing) after.rest
          (readEntries closing readEntry add (after.rest.length + 1) after empty) :=
        readEntries_yields hread (Nat.lt_succ_self _)
      exact hentries.cons (unit opening :: blank) fun text htext => htext.append hleads hblank
  complete position text rest htext _ := by
    have hmem : closing ∈ [',', ':', ']', '}'] :=
      List.mem_cons_of_mem _ (List.mem_cons_of_mem _ hclosing)
    rcases htext with ⟨blank, hblank, rfl⟩ | ⟨parts, hne, hparts, rfl⟩
    · rw [List.cons_append, List.append_assoc, List.singleton_append,
        readListed_opening empty hblank (notSpace_of_mem hmem).1, if_pos rfl]
      exact ⟨_, _, rfl⟩
    · obtain ⟨part, parts, rfl⟩ := List.exists_cons_of_ne_nil hne
      obtain ⟨⟨body, after, hbody, hafter, rfl⟩, hlater⟩ := List.forall_mem_cons.mp hparts
      obtain ⟨blank, c, tail, hblank, rfl, htail, hspace, hnot⟩ := hleads.start body hbody
      obtain ⟨more, hmore⟩ : ∃ more, [unit ','].intercalate ((c :: tail ++ after) :: parts) ++
          unit closing :: rest = c :: more := by
        rw [List.cons_append]
        cases parts with
        | nil => exact ⟨_, by rw [List.intercalate_singleton, List.cons_append]⟩
        | cons next parts =>
          exact ⟨_, by rw [List.intercalate_cons_cons, List.cons_append, List.cons_append,
            List.cons_append]⟩
      have hrounds := length_le_intercalate ((c :: tail ++ after) :: parts)
      have hlength := congrArg List.length hmore
      rw [List.length_append] at hlength
      have hparts : ∀ part ∈ (c :: tail ++ after) :: parts, Trailed P part := by
        intro part hpart
        rcases List.mem_cons.mp hpart with rfl | hpart
        · exact ⟨c :: tail, after, htail, hafter, rfl⟩
        · exact hlater part hpart
      have hround : ∃ b position', readEntries closing readEntry add ((c :: more).length + 1)
          ⟨position + 1 + blank.length,
            [unit ','].intercalate ((c :: tail ++ after) :: parts) ++ unit closing :: rest⟩ empty =
            .ok (b, ⟨position', rest⟩) :=
        readEntries_complete hread hclosing (List.cons_ne_nil _ _) hparts (by omega)
      rw [hmore] at hround
      rw [List.append_assoc, intercalate_append, List.cons_append, List.append_assoc,
        List.append_assoc, List.singleton_append, hmore, readListed_opening empty hblank hspace,
        if_neg hnot]
      exact hround

end Entries

section Values

variable {ν : Type} {P : Units → Prop} {readValue' : Cursor → Except Thrown (Value ν × Cursor)}

theorem blank_append {blank blank' : Units} (h : Blank lexicon blank) (h' : Blank lexicon blank') :
    Blank lexicon (blank ++ blank') := by
  intro u hu
  rcases List.mem_append.mp hu with hu | hu
  · exact h u hu
  · exact h' u hu

/-- What a member begins with. -/
theorem leads_memberLed : Leads (MemberLed P) '}' where
  append blank text hblank htext := by
    obtain ⟨_, value, ⟨before, body, after, hbefore, hbody, hafter, rfl⟩, hvalue, rfl⟩ := htext
    refine ⟨_, value, ⟨blank ++ before, body, after, blank_append hblank hbefore, hbody, hafter,
      rfl⟩, hvalue, ?_⟩
    simp only [List.append_assoc]
  start text htext := by
    obtain ⟨_, value, ⟨before, _, after, hbefore, ⟨inner, hinner, rfl⟩, hafter, rfl⟩, hvalue,
      rfl⟩ := htext
    refine ⟨before, unit '"', inner ++ [unit '"'] ++ after ++ unit ':' :: value, hbefore, ?_,
      ⟨_, value, ⟨[], _, after, blank_nil, ⟨inner, hinner, rfl⟩, hafter, rfl⟩,
        hvalue, ?_⟩, by decide, by decide⟩
    · simp only [List.append_assoc, List.cons_append]
    · simp only [List.nil_append, List.cons_append]

/-- The reader of members. -/
theorem reads_readMember (hread : Reads readValue' (Led P)) :
    Reads (readMember readValue') (MemberLed P) where
  yields cursor := by
    obtain ⟨blank, hblank, hskip⟩ := exists_skip cursor
    unfold readMember
    rw [hskip]
    refine Yields.cons (P := MemberLed P) blank ?_ fun text =>
      leads_memberLed.append blank text hblank
    refine (reads_readString.yields cursor.skip).bind fun key after text htext hrest => ?_
    obtain ⟨blank', hblank', hskip'⟩ := exists_skip after
    dsimp only
    rw [hrest, hskip', ← List.append_assoc]
    refine Yields.cons (P := fun t => ∃ value, Led P value ∧ t = unit ':' :: value)
      (text ++ blank') ?_ ?_
    · refine yields_expect fun position rest hcolon => ?_
      rw [hcolon]
      refine Yields.cons (P := Led P) [unit ':'] ?_ fun t ht => ⟨t, ht, rfl⟩
      exact (hread.yields ⟨position, rest⟩).bind fun value after' t ht hrest' => ⟨t, ht, hrest'⟩
    · rintro _ ⟨value, hvalue, rfl⟩
      exact ⟨text ++ blank', value, ⟨[], text, blank', blank_nil, htext, hblank',
        rfl⟩, hvalue, rfl⟩
  complete position text rest htext hrest := by
    obtain ⟨_, value, ⟨before, body, after, hbefore, hbody, hafter, rfl⟩, hvalue, rfl⟩ := htext
    have hcolon : ∀ u ∈ (unit ':' :: (value ++ rest)).head?,
        isWhitespace u = false ∧ isNumberUnit u = false := by
      intro u hu
      obtain rfl := Option.some.inj hu
      exact notSpace_of_mem (List.mem_cons_of_mem _ List.mem_cons_self)
    have hquote : ∀ u ∈ (body ++ (after ++ unit ':' :: (value ++ rest))).head?,
        isWhitespace u = false := by
      obtain ⟨inner, -, rfl⟩ := hbody
      intro u hu
      obtain rfl := Option.some.inj hu
      decide
    obtain ⟨key, position', hkey⟩ := reads_readString.complete (position + before.length) body _
      hbody (ends_append hafter fun u hu => (hcolon u hu).2)
    obtain ⟨a, position'', ha⟩ := hread.complete (position' + after.length + 1) value rest hvalue
      hrest
    have hskip : Cursor.skip
        ⟨position, before ++ (body ++ (after ++ unit ':' :: (value ++ rest)))⟩ =
        ⟨position + before.length, body ++ (after ++ unit ':' :: (value ++ rest))⟩ :=
      skip_append hbefore hquote
    have hskip' : Cursor.skip ⟨position', after ++ unit ':' :: (value ++ rest)⟩ =
        ⟨position' + after.length, unit ':' :: (value ++ rest)⟩ :=
      skip_append hafter fun u hu => (hcolon u hu).1
    refine ⟨(key, a), position'', ?_⟩
    simp only [List.append_assoc, List.cons_append]
    rw [readMember, hskip, hkey]
    change (expect ':' (Cursor.skip ⟨position', after ++ unit ':' :: (value ++ rest)⟩) >>= _) = _
    rw [hskip', expect_cons]
    change (readValue' ⟨position' + after.length + 1, value ++ rest⟩ >>= _) = _
    rw [ha]
    rfl

/-- The characters of numbers are none of the others that are looked at. -/
theorem notSpace_of_isNumberUnit {c : UInt16} (h : isNumberUnit c = true) :
    isWhitespace c = false ∧
      ∀ d ∈ ['{', '[', '"', 't', 'f', 'n', ']'], c ≠ unit d := by
  have hall : ((units "+-.eE0123456789".toList).all fun c => !isWhitespace c &&
      ['{', '[', '"', 't', 'f', 'n', ']'].all fun d => c != unit d) = true := by decide
  rw [isNumberUnit, List.contains_iff_mem] at h
  have hc := List.all_eq_true.mp hall c h
  rw [Bool.and_eq_true, Bool.not_eq_true', List.all_eq_true] at hc
  exact ⟨hc.1, fun d hd => bne_iff_ne.mp (hc.2 d hd)⟩

/-- What a list begins with. -/
theorem head_of_listed {opening closing : Char} {text : Units}
    (h : Listed lexicon opening closing P text) : ∃ tail, text = unit opening :: tail := by
  rcases h with ⟨blank, -, rfl⟩ | ⟨parts, -, -, rfl⟩
  · exact ⟨_, rfl⟩
  · exact ⟨_, rfl⟩

/-- What a value begins with. -/
theorem head_of_valueText {levels : ℕ} {text : Units} (h : ValueText lexicon levels text) :
    ∃ c tail, text = c :: tail ∧ isWhitespace c = false ∧ c ≠ unit ']' := by
  cases levels with
  | zero => exact h.elim
  | succ levels =>
    rcases h with hliteral | hnumber | hstring | hlist | hobject
    · simp only [List.mem_cons, List.not_mem_nil, or_false] at hliteral
      rcases hliteral with rfl | rfl | rfl
      · exact ⟨unit 't', _, rfl, by decide, by decide⟩
      · exact ⟨unit 'f', _, rfl, by decide, by decide⟩
      · exact ⟨unit 'n', _, rfl, by decide, by decide⟩
    · obtain ⟨hne, hunits, -⟩ := hnumber
      obtain ⟨c, tail, rfl⟩ := List.exists_cons_of_ne_nil hne
      obtain ⟨hspace, hnot⟩ := notSpace_of_isNumberUnit (hunits c List.mem_cons_self)
      exact ⟨c, tail, rfl, hspace, hnot ']' (by decide)⟩
    · obtain ⟨body, -, rfl⟩ := hstring
      exact ⟨unit '"', _, rfl, by decide, by decide⟩
    · obtain ⟨tail, rfl⟩ := head_of_listed hlist
      exact ⟨unit '[', _, rfl, by decide, by decide⟩
    · obtain ⟨tail, rfl⟩ := head_of_listed hobject
      exact ⟨unit '{', _, rfl, by decide, by decide⟩

theorem leads_led {levels : ℕ} : Leads (Led (ValueText lexicon levels)) ']' where
  append blank text hblank htext := by
    obtain ⟨before, body, hbefore, hbody, rfl⟩ := htext
    exact ⟨blank ++ before, body, blank_append hblank hbefore, hbody, by rw [List.append_assoc]⟩
  start text htext := by
    obtain ⟨before, body, hbefore, hbody, rfl⟩ := htext
    obtain ⟨c, tail, rfl, hspace, hnot⟩ := head_of_valueText hbody
    exact ⟨before, c, tail, hbefore, rfl, ⟨[], c :: tail, blank_nil, hbody, rfl⟩,
      hspace, hnot⟩

/-- What is read is put into a value. -/
theorem Reads.map {α β : Type} {read : Cursor → Except Thrown (α × Cursor)} (h : Reads read P)
    (f : α → β) :
    Reads (fun cursor => do
      let (a, cursor) ← read cursor
      .ok (f a, cursor)) P where
  yields cursor := (h.yields cursor).bind fun a after text htext hrest => ⟨text, htext, hrest⟩
  complete position text rest htext hrest := by
    obtain ⟨a, position', ha⟩ := h.complete position text rest htext hrest
    refine ⟨f a, position', ?_⟩
    dsimp only
    rw [ha]
    rfl

/-- The text of a kind may be described in another way. -/
theorem Reads.congr {α : Type} {Q : Units → Prop} {read : Cursor → Except Thrown (α × Cursor)}
    (h : Reads read P) (hPQ : ∀ text, P text ↔ Q text) : Reads read Q where
  yields cursor := (h.yields cursor).mono fun text => (hPQ text).mp
  complete position text rest htext hrest :=
    h.complete position text rest ((hPQ text).mpr htext) hrest

theorem listed_congr {opening closing : Char} {Q : Units → Prop} (hPQ : ∀ text, P text ↔ Q text)
    (text : Units) :
    Listed lexicon opening closing P text ↔ Listed lexicon opening closing Q text := by
  have hsame : P = Q := funext fun text => propext (hPQ text)
  rw [hsame]

/-- The reader of arrays. -/
theorem reads_readArray {levels : ℕ} (hread : Reads readValue' (Led (ValueText lexicon levels))) :
    Reads (readArray readValue')
      (Listed lexicon '[' ']' (Padded lexicon (ValueText lexicon levels))) :=
  ((reads_readListed hread (by decide) leads_led []).map Value.array).congr
    (listed_congr fun _ => trailed_led_iff)

/-- The reader of objects. -/
theorem reads_readObject {levels : ℕ} (hread : Reads readValue' (Led (ValueText lexicon levels))) :
    Reads (readObject readValue')
      (Listed lexicon '{' '}' (MemberText lexicon (Padded lexicon (ValueText lexicon levels)))) :=
  ((reads_readListed (reads_readMember hread) (by decide) leads_memberLed []).map
    Value.object).congr (listed_congr fun _ => trailed_memberLed_iff)

/-- The first character decides what is read. -/
theorem readValue_append (valueOf : List Char → ν) (levels position : ℕ) {blank tail : Units}
    {c : UInt16} (hblank : Blank lexicon blank) (hspace : isWhitespace c = false) :
    let cursor : Cursor := ⟨position + blank.length, c :: tail⟩
    readValue valueOf (levels + 1) ⟨position, blank ++ c :: tail⟩ =
      if c = unit '{' then readObject (readValue valueOf levels) cursor
      else if c = unit '[' then readArray (readValue valueOf levels) cursor
      else if c = unit '"' then do
        let (text, cursor) ← readString cursor
        .ok (.string text, cursor)
      else if c = unit 't' then readLiteral "true" (.bool true) cursor
      else if c = unit 'f' then readLiteral "false" (.bool false) cursor
      else if c = unit 'n' then readLiteral "null" .null cursor
      else readNumber valueOf cursor := by
  have hskip : Cursor.skip ⟨position, blank ++ c :: tail⟩ =
      ⟨position + blank.length, c :: tail⟩ := skip_append hblank fun u hu => by
    obtain rfl := Option.some.inj hu
    exact hspace
  rw [readValue]
  dsimp only
  rw [hskip]
  rfl

/-- **The reader of values.** -/
theorem reads_readValue (valueOf : List Char → ν) (levels : ℕ) :
    Reads (readValue valueOf levels) (Led (ValueText lexicon levels)) := by
  induction levels with
  | zero =>
    refine ⟨fun cursor => trivial, fun position text rest htext => ?_⟩
    obtain ⟨before, body, -, hbody, -⟩ := htext
    exact hbody.elim
  | succ levels ih =>
    have hobject := reads_readObject ih
    have harray := reads_readArray ih
    have hstring := reads_readString.map (Value.string : Units → Value ν)
    constructor
    · intro cursor
      obtain ⟨blank, hblank, hskip⟩ := exists_skip cursor
      rw [hskip]
      refine Yields.cons (P := ValueText lexicon (levels + 1)) blank ?_
        fun text htext => ⟨blank, text, hblank, htext, rfl⟩
      rw [readValue]
      dsimp only
      refine yields_peek fun c tail htail => ?_
      split_ifs
      · exact (hobject.yields cursor.skip).mono fun text htext =>
          Or.inr (Or.inr (Or.inr (Or.inr htext)))
      · exact (harray.yields cursor.skip).mono fun text htext =>
          Or.inr (Or.inr (Or.inr (Or.inl htext)))
      · exact (hstring.yields cursor.skip).mono fun text htext => Or.inr (Or.inr (Or.inl htext))
      · exact ((reads_readLiteral "true" _).yields cursor.skip).mono fun text htext =>
          Or.inl (by simp [htext])
      · exact ((reads_readLiteral "false" _).yields cursor.skip).mono fun text htext =>
          Or.inl (by simp [htext])
      · exact ((reads_readLiteral "null" _).yields cursor.skip).mono fun text htext =>
          Or.inl (by simp [htext])
      · exact ((reads_readNumber valueOf).yields cursor.skip).mono fun text htext =>
          Or.inr (Or.inl htext)
    · intro position text rest htext hrest
      obtain ⟨blank, body, hblank, hbody, rfl⟩ := htext
      obtain ⟨c, tail, rfl, hspace, -⟩ := head_of_valueText hbody
      rw [List.append_assoc, List.cons_append]
      rw [readValue_append valueOf levels position hblank hspace]
      rcases hbody with hliteral | hnumber | hquoted | hlist | hmembers
      · simp only [List.mem_cons, List.not_mem_nil, or_false] at hliteral
        rcases hliteral with htrue | hfalse | hnull
        · obtain ⟨rfl, rfl⟩ : c = unit 't' ∧ tail = units "rue".toList := List.cons.inj htrue
          exact (reads_readLiteral "true" _).complete _ _ rest rfl hrest
        · obtain ⟨rfl, rfl⟩ : c = unit 'f' ∧ tail = units "alse".toList := List.cons.inj hfalse
          exact (reads_readLiteral "false" _).complete _ _ rest rfl hrest
        · obtain ⟨rfl, rfl⟩ : c = unit 'n' ∧ tail = units "ull".toList := List.cons.inj hnull
          exact (reads_readLiteral "null" _).complete _ _ rest rfl hrest
      · obtain ⟨-, hnot⟩ := notSpace_of_isNumberUnit (hnumber.2.1 c List.mem_cons_self)
        rw [if_neg (hnot '{' (by decide)), if_neg (hnot '[' (by decide)),
          if_neg (hnot '"' (by decide)), if_neg (hnot 't' (by decide)),
          if_neg (hnot 'f' (by decide)), if_neg (hnot 'n' (by decide))]
        exact (reads_readNumber valueOf).complete _ _ rest hnumber hrest
      · obtain rfl : c = unit '"' := by
          obtain ⟨inner, -, htext⟩ := hquoted
          exact (List.cons.inj htext).1
        exact hstring.complete _ _ rest hquoted hrest
      · obtain ⟨tail', htext⟩ := head_of_listed hlist
        obtain rfl := (List.cons.inj htext).1
        exact harray.complete _ _ rest hlist hrest
      · obtain ⟨tail', htext⟩ := head_of_listed hmembers
        obtain rfl := (List.cons.inj htext).1
        exact hobject.complete _ _ rest hmembers hrest

end Values

section Parse

variable {ν : Type} (valueOf : List Char → ν)

/-- What `parse` does behind the value. -/
theorem parse_of_readValue {input : Units} {value : Value ν} {after : Cursor}
    (h : readValue valueOf (maxDepth + 1) (Cursor.skip ⟨0, input⟩) = .ok (value, after)) :
    parse valueOf input =
      if after.skip.rest ≠ [] then
        illegal ("trailing content at offset " ++ toString after.skip.position)
      else .ok value := by
  rw [parse]
  dsimp only
  rw [h]
  rfl

/-- What is parsed is a JSON text, and otherwise an exception of the right kind is thrown. -/
theorem parse_sound (input : Units) :
    match parse valueOf input with
    | .ok _ => JsonText lexicon (maxDepth + 1) input
    | .error e => e.IsIllegalArgument := by
  obtain ⟨blank, hblank, hskip⟩ := exists_skip ⟨0, input⟩
  have hyields := (reads_readValue valueOf (maxDepth + 1)).yields (Cursor.skip ⟨0, input⟩)
  cases hread : readValue valueOf (maxDepth + 1) (Cursor.skip ⟨0, input⟩) with
  | error e =>
    have hparse : parse valueOf input = .error e := by
      rw [parse]
      dsimp only
      rw [hread]
      rfl
    rw [hread] at hyields
    rw [hparse]
    exact hyields
  | ok read =>
    rw [hread] at hyields
    obtain ⟨text, htext, hrest⟩ := hyields
    obtain ⟨blank', hblank', hskip'⟩ := exists_skip read.2
    rw [parse_of_readValue valueOf hread]
    split_ifs with htrailing
    · exact trivial
    · rw [not_not] at htrailing
      dsimp only at hskip
      rw [htrailing, List.append_nil] at hskip'
      rw [hrest, hskip', ← List.append_assoc] at hskip
      rw [hskip]
      exact trailed_led_iff.mp ⟨_, blank', leads_led.append blank text hblank htext, hblank', rfl⟩

/-- A JSON text is parsed. -/
theorem parse_complete {input : Units} (h : JsonText lexicon (maxDepth + 1) input) :
    ∃ value, parse valueOf input = .ok value := by
  obtain ⟨before, body, after, hbefore, hbody, hafter, rfl⟩ := h
  obtain ⟨c, tail, rfl, hspace, -⟩ := head_of_valueText hbody
  have hskip : Cursor.skip ⟨0, before ++ (c :: tail ++ after)⟩ =
      ⟨0 + before.length, c :: tail ++ after⟩ := skip_append hbefore fun u hu => by
    obtain rfl := Option.some.inj hu
    exact hspace
  have hends : Ends after := by
    have happend : Ends (after ++ []) := ends_append hafter fun u hu => by cases hu
    rwa [List.append_nil] at happend
  obtain ⟨value, position', hread⟩ := (reads_readValue valueOf (maxDepth + 1)).complete
    (0 + before.length) (c :: tail) after ⟨[], _, blank_nil, hbody, rfl⟩ hends
  have hend : (Cursor.skip ⟨position', after⟩).rest = [] := by
    have happend : Cursor.skip ⟨position', after ++ []⟩ = ⟨position' + after.length, []⟩ :=
      skip_append hafter fun u hu => by cases hu
    rw [List.append_nil] at happend
    rw [happend]
  rw [← hskip] at hread
  refine ⟨value, ?_⟩
  rw [List.append_assoc, parse_of_readValue valueOf hread, if_neg (not_not.mpr hend)]

/-- **What `parse` accepts**, and what it throws otherwise. -/
theorem parse_iff (input : Units) :
    ((∃ value, parse valueOf input = .ok value) ↔ JsonText lexicon (maxDepth + 1) input) ∧
      ∀ e, parse valueOf input = .error e → e.IsIllegalArgument := by
  have hsound := parse_sound valueOf input
  refine ⟨⟨fun ⟨value, hvalue⟩ => ?_, parse_complete valueOf⟩, fun e he => ?_⟩
  · rw [hvalue] at hsound
    exact hsound
  · rw [he] at hsound
    exact hsound

end Parse

section RoundTrip

variable {position : ℕ} {rest text : Units}

/-- The digits of a control character. -/
theorem hexEscape_control {c : UInt16} (hc : c.toNat < 0x20) :
    let high := unit (c.toNat / 16).digitChar
    let low := unit (c.toNat % 16).digitChar
    units (hexEscape c) = [unit '\\', unit 'u', unit '0', unit '0', high, low] ∧
      parseChar [unit '0', unit '0', high, low] = some c ∧ IsHexUnit high ∧ IsHexUnit low := by
  have hall : ∀ n < 32, units (hexEscape (UInt16.ofNat n)) =
        [unit '\\', unit 'u', unit '0', unit '0', unit (n / 16).digitChar,
          unit (n % 16).digitChar] ∧
      parseChar [unit '0', unit '0', unit (n / 16).digitChar, unit (n % 16).digitChar] =
        some (UInt16.ofNat n) ∧
      IsHexUnit (unit (n / 16).digitChar) ∧ IsHexUnit (unit (n % 16).digitChar) := by decide
  have hcode := hall c.toNat hc
  rwa [UInt16.ofNat_toNat] at hcode

/-- What is appended for a character, by cases: an escape by a letter, one by a number, or the
character itself. -/
theorem escaped_cases (c : UInt16) :
    (∃ letter, (letter, c) ∈ shortEscapes ∧ escaped c = [unit '\\', unit letter]) ∨
      (c.toNat < 0x20 ∧ escaped c = units (hexEscape c)) ∨
      (0x20 ≤ c.toNat ∧ c ≠ unit '"' ∧ c ≠ unit '\\' ∧ escaped c = [c]) := by
  unfold escaped
  split_ifs with hquote hbackslash hn hr ht hb hf hcontrol
  · exact Or.inl ⟨'"', by rw [hquote]; decide, rfl⟩
  · exact Or.inl ⟨'\\', by rw [hbackslash]; decide, rfl⟩
  · exact Or.inl ⟨'n', by rw [hn]; decide, rfl⟩
  · exact Or.inl ⟨'r', by rw [hr]; decide, rfl⟩
  · exact Or.inl ⟨'t', by rw [ht]; decide, rfl⟩
  · exact Or.inl ⟨'b', by rw [hb]; decide, rfl⟩
  · exact Or.inl ⟨'f', by rw [hf]; decide, rfl⟩
  · exact Or.inr (Or.inl ⟨hcontrol, rfl⟩)
  · exact Or.inr (Or.inr ⟨Nat.le_of_not_lt hcontrol, hquote, hbackslash, rfl⟩)

/-- Reading what is appended for a character. -/
theorem readCharacters_escaped (c : UInt16) :
    readCharacters position (escaped c ++ rest) text =
      readCharacters (position + (escaped c).length) rest (text ++ [c]) := by
  rcases escaped_cases c with ⟨letter, hletter, hescaped⟩ | ⟨hcontrol, hescaped⟩ |
    ⟨-, hquote, hbackslash, hescaped⟩
  · rw [hescaped]
    exact readCharacters_short hletter
  · obtain ⟨hunits, hparse, -, -⟩ := hexEscape_control hcontrol
    rw [hescaped, hunits]
    exact readCharacters_code hparse
  · rw [hescaped]
    exact readCharacters_plain hquote hbackslash

theorem readCharacters_flatMap_escaped (value : Units) :
    readCharacters position (value.flatMap escaped ++ unit '"' :: rest) text =
      .ok (text ++ value, ⟨position + (value.flatMap escaped).length + 1, rest⟩) := by
  induction value generalizing position text with
  | nil =>
    rw [List.append_nil]
    exact readCharacters_quote
  | cons c value ih =>
    rw [List.flatMap_cons, List.append_assoc, readCharacters_escaped, ih, List.append_assoc,
      List.length_append, List.singleton_append, Nat.add_assoc position]

theorem writeString_eq (out value : Units) :
    writeString out value = out ++ unit '"' :: (value.flatMap escaped ++ [unit '"']) := by
  have hloop : ∀ out : Units, value.foldl (fun out character => out ++ escaped character) out =
      out ++ value.flatMap escaped := by
    induction value with
    | nil => exact fun out => (List.append_nil out).symm
    | cons c value ih =>
      intro out
      rw [List.foldl_cons, ih, List.flatMap_cons, List.append_assoc]
  rw [writeString, hloop]
  simp only [List.append_assoc, List.cons_append, List.nil_append]

/-- What is written is a string of RFC 8259. -/
theorem stringText_writeString (value : Units) :
    StringText rfc8259 (writeString [] value) := by
  refine ⟨value.flatMap escaped, ?_, by rw [writeString_eq, List.nil_append]⟩
  induction value with
  | nil => exact .nil
  | cons c value ih =>
    rw [List.flatMap_cons]
    rcases escaped_cases c with ⟨letter, hletter, hescaped⟩ | ⟨hcontrol, hescaped⟩ |
      ⟨hcode, hquote, hbackslash, hescaped⟩
    · rw [hescaped]
      exact .short hletter ih
    · obtain ⟨hunits, -, hhigh, hlow⟩ := hexEscape_control hcontrol
      rw [hescaped, hunits]
      exact .code ⟨by decide, by decide, hhigh, hlow⟩ ih
    · rw [hescaped]
      exact .plain ⟨hcode, hquote, hbackslash⟩ ih

/-- A string that was written is read, and what stands behind it is left. -/
theorem readString_literal (position : ℕ) (value rest : Units) :
    readString ⟨position, unit '"' :: (value.flatMap escaped ++ [unit '"']) ++ rest⟩ =
      .ok (value,
        ⟨position + (unit '"' :: (value.flatMap escaped ++ [unit '"'])).length, rest⟩) := by
  rw [List.cons_append, readString_quote, List.append_assoc, List.singleton_append,
    readCharacters_flatMap_escaped, List.nil_append, List.length_cons, List.length_append,
    List.length_singleton]
  congr 3
  omega

/-- **Strings survive the codec.** What is appended for a string is parsed as it; it is one
string literal, and whatever stands behind it, reading it ends at its own closing quote. -/
theorem strings_survive {ν : Type} (valueOf : List Char → ν) (out value : Units) :
    ∃ literal, writeString out value = out ++ literal ∧
      parse valueOf literal = .ok (.string value) ∧ StringText rfc8259 literal ∧
      ∀ position rest, readString ⟨position, literal ++ rest⟩ =
        .ok (value, ⟨position + literal.length, rest⟩) := by
  refine ⟨unit '"' :: (value.flatMap escaped ++ [unit '"']), writeString_eq out value, ?_, ?_,
    fun position rest => readString_literal position value rest⟩
  · have hquote : isWhitespace (unit '"') = false := by decide
    have hskip : Cursor.skip ⟨0, unit '"' :: (value.flatMap escaped ++ [unit '"'])⟩ =
        ⟨0, unit '"' :: (value.flatMap escaped ++ [unit '"'])⟩ :=
      skip_append blank_nil fun u hu => by
        obtain rfl := Option.some.inj hu
        exact hquote
    have hstring := readString_literal 0 value []
    rw [List.append_nil] at hstring
    have hread : readValue valueOf (maxDepth + 1)
        ⟨0, unit '"' :: (value.flatMap escaped ++ [unit '"'])⟩ = _ :=
      readValue_append valueOf maxDepth 0 blank_nil hquote
    rw [if_neg (by decide), if_neg (by decide), if_pos rfl] at hread
    change _ = (readString ⟨0, unit '"' :: (value.flatMap escaped ++ [unit '"'])⟩ >>= _) at hread
    rw [hstring, ← hskip] at hread
    exact parse_of_readValue valueOf hread
  · have hwritten := stringText_writeString value
    rwa [writeString_eq, List.nil_append] at hwritten

end RoundTrip

section Strict

variable {text rest : List Char}

theorem dropWhile_of_isExponent (h : isExponent text = true) :
    text.dropWhile Char.isDigit = text ∧ text.takeWhile Char.isDigit = [] := by
  cases text with
  | nil => exact ⟨rfl, rfl⟩
  | cons e rest =>
    have he : ¬ e.isDigit = true := by
      simp only [isExponent, Bool.and_eq_true, Bool.or_eq_true, decide_eq_true_eq] at h
      rcases h.1 with rfl | rfl <;> decide
    rw [List.dropWhile_cons_of_neg he, List.takeWhile_cons_of_neg he]
    exact ⟨rfl, rfl⟩

/-- Digits, and what follows them. -/
theorem of_afterDigits (h : afterDigits text = some rest) :
    text.dropWhile Char.isDigit = rest ∧ (text.takeWhile Char.isDigit).isEmpty = false := by
  cases text with
  | nil => cases h
  | cons d digits =>
    rw [afterDigits] at h
    split at h
    · next hd =>
      rw [List.dropWhile_cons_of_pos hd, List.takeWhile_cons_of_pos hd]
      exact ⟨Option.some.inj h, rfl⟩
    · cases h

/-- Digits and what JSON allows behind them. -/
theorem isMagnitude_of_isFraction {digits : List Char} (h : isFraction rest = true)
    (hdrop : digits.dropWhile Char.isDigit = rest)
    (htake : (digits.takeWhile Char.isDigit).isEmpty = false) : isMagnitude digits = true := by
  unfold isMagnitude
  rw [hdrop, htake]
  by_cases hpoint : ∃ fraction, rest = '.' :: fraction
  · obtain ⟨fraction, rfl⟩ := hpoint
    rw [isFraction] at h
    split at h
    · next more hmore =>
      obtain ⟨hdrop', htake'⟩ := of_afterDigits hmore
      simp [hdrop', h]
    · cases h
  · have hexponent : isExponent rest = true := by
      rwa [isFraction] at h
      exact fun fraction hrest => hpoint ⟨fraction, hrest⟩
    split
    · exact absurd ⟨_, rfl⟩ hpoint
    · simp [hexponent]

theorem dropWhile_of_isFraction (h : isFraction rest = true) :
    rest.dropWhile Char.isDigit = rest := by
  unfold isFraction at h
  split at h
  · exact List.dropWhile_cons_of_neg (by decide)
  · exact (dropWhile_of_isExponent h).1

theorem isMagnitude_of_isUnsigned (h : isUnsigned text = true) : isMagnitude text = true := by
  unfold isUnsigned at h
  split at h
  · next rest =>
    refine isMagnitude_of_isFraction h ?_ rfl
    rw [List.dropWhile_cons_of_pos (by decide), dropWhile_of_isFraction h]
  · split at h
    · next rest hrest =>
      obtain ⟨hdrop, htake⟩ := of_afterDigits hrest
      exact isMagnitude_of_isFraction h hdrop htake
    · cases h

/-- The numbers of JSON are read. -/
theorem isFloatingPoint_of_isLiteral (h : isLiteral text = true) :
    isFloatingPoint text = true := by
  unfold isLiteral at h
  split at h
  · next unsigned => exact isMagnitude_of_isUnsigned h
  · obtain ⟨-, d, digits, rfl, hd⟩ := isNumberChar_of_isUnsigned h
    have hsign : d ≠ '+' ∧ d ≠ '-' := by
      constructor
      · rintro rfl
        cases hd
      · rintro rfl
        cases hd
    unfold isFloatingPoint
    split
    · next htext => exact absurd (List.cons.inj htext).1 hsign.1
    · next htext => exact absurd (List.cons.inj htext).1 hsign.2
    · exact isMagnitude_of_isUnsigned h

/-- The hexadecimal digits have their values. -/
theorem isSome_digit {u : UInt16} (h : IsHexUnit u) :
    (∃ v, digit u = some v) ∧ u ≠ unit '-' ∧ u ≠ unit '+' := by
  have hall : ((units "0123456789abcdefABCDEF".toList).all fun u =>
      decide ((digit u).isSome = true ∧ u ≠ unit '-' ∧ u ≠ unit '+')) = true := by decide
  obtain ⟨hsome, hsign⟩ := of_decide_eq_true (List.all_eq_true.mp hall u h)
  exact ⟨Option.isSome_iff_exists.mp hsome, hsign⟩

/-- The characters of a number are code units that are known as such. -/
theorem units_of_isNumberChar (htext : ∀ c ∈ text, isNumberChar c = true) :
    (∀ u ∈ units text, isNumberUnit u = true) ∧
      (units text).map (fun u => Char.ofNat u.toNat) = text := by
  have hall : ("+-.eE0123456789".toList.all fun c => decide (unitsOf c = [unit c] ∧
      isNumberUnit (unit c) = true ∧ Char.ofNat (unit c).toNat = c)) = true := by decide
  have hdigit : ∀ n < 58, 48 ≤ n → Char.ofNat n ∈ "+-.eE0123456789".toList := by decide
  induction text with
  | nil => exact ⟨fun u hu => (by cases hu), rfl⟩
  | cons c text ih =>
    obtain ⟨hc, hrest⟩ := List.forall_mem_cons.mp htext
    obtain ⟨hunits, hback⟩ := ih hrest
    have hmem : c ∈ "+-.eE0123456789".toList := by
      rw [isNumberChar, Bool.or_eq_true, List.contains_iff_mem] at hc
      rcases hc with hc | hc
      · have hbounds : 48 ≤ c.toNat ∧ c.toNat ≤ 57 := by
          simp only [Char.isDigit, Bool.and_eq_true, decide_eq_true_eq, ge_iff_le] at hc
          exact ⟨hc.1, hc.2⟩
        rw [← Char.ofNat_toNat c]
        exact hdigit c.toNat (by omega) hbounds.1
      · exact List.mem_append_left "0123456789".toList hc
    obtain ⟨hone, hnumber, hsame⟩ := of_decide_eq_true (List.all_eq_true.mp hall c hmem)
    rw [units, List.flatMap_cons, ← units, hone, List.singleton_append, List.map_cons, hback, hsame]
    exact ⟨List.forall_mem_cons.mpr ⟨hnumber, hunits⟩, rfl⟩

/-- A number of Java is a number of the parser. -/
theorem isNumber_units (hchars : ∀ c ∈ text, isNumberChar c = true)
    (h : isFloatingPoint text = true) : lexicon.IsNumber (units text) := by
  obtain ⟨hunits, hback⟩ := units_of_isNumberChar hchars
  refine ⟨?_, hunits, ?_⟩
  · intro hempty
    rw [hempty] at hback
    rw [← hback] at h
    cases h
  · rw [hback]
    exact h

/-- **The parser knows all lexemes of RFC 8259.** -/
theorem rfc8259_within : rfc8259.Within lexicon where
  space u hu := by
    have hall : (units [' ', '\t', '\n', '\r']).all isWhitespace = true := by decide
    exact List.all_eq_true.mp hall u hu
  plain u hu := hu.2
  code a b c d h := by
    obtain ⟨ha, hb, hc, hd⟩ := h
    obtain ⟨⟨va, hva⟩, hminus, hplus⟩ := isSome_digit ha
    obtain ⟨⟨vb, hvb⟩, -⟩ := isSome_digit hb
    obtain ⟨⟨vc, hvc⟩, -⟩ := isSome_digit hc
    obtain ⟨⟨vd, hvd⟩, -⟩ := isSome_digit hd
    change (parseChar [a, b, c, d]).isSome = true
    rw [parseChar, if_neg hminus, if_neg hplus]
    simp [digitsValue, hva, hvb, hvc, hvd]
  number text h := by
    obtain ⟨literal, hliteral, rfl⟩ := h
    exact isNumber_units (isNumberChar_of_isLiteral hliteral).1
      (isFloatingPoint_of_isLiteral hliteral)

/-- White space of Java that RFC 8259 does not have. -/
def IsLooseSpace (u : UInt16) : Prop :=
  u.toNat ∈ [0x0B, 0x0C, 0x1C, 0x1D, 0x1E, 0x1F, 0x1680, 0x2028, 0x2029, 0x205F, 0x3000] ∨
    (0x2000 ≤ u.toNat ∧ u.toNat ≤ 0x200A ∧ u.toNat ≠ 0x2007)

/-- A control character, which is raw in a string. -/
def IsRawControl (u : UInt16) : Prop := u.toNat < 0x20
  deriving Decidable

/-- A digit of Java in base sixteen that RFC 8259 does not have: one of another script. -/
def IsForeignDigit (u : UInt16) : Prop := (digit u).isSome = true ∧ ¬ IsHexUnit u

/-- Four characters of an escape that begin with a sign, or have a digit of another script. -/
def IsLooseCode (a b c d : UInt16) : Prop :=
  (∀ u ∈ [b, c, d], (digit u).isSome = true) ∧
    ((a = unit '+' ∨ a = unit '-') ∨
      (digit a).isSome = true ∧ ∃ u ∈ [a, b, c, d], IsForeignDigit u)

/-- A number of Java, after its sign, that RFC 8259 does not have: with a zero before another
digit, or with no digit before or behind its point. -/
def IsLooseMagnitude (text : List Char) : Prop :=
  isMagnitude text = true ∧
    ((∃ d rest, text = '0' :: d :: rest ∧ d.isDigit = true) ∨ (∃ rest, text = '.' :: rest) ∨
      ∃ fraction, text.dropWhile Char.isDigit = '.' :: fraction ∧ afterDigits fraction = none)

/-- Such a number, or one with a plus sign. -/
def IsLooseNumber (text : List Char) : Prop :=
  (∃ magnitude, text = '+' :: magnitude ∧ isMagnitude magnitude = true) ∨
    (∃ magnitude, text = '-' :: magnitude ∧ IsLooseMagnitude magnitude) ∨ IsLooseMagnitude text

/-- The lexemes of RFC 8259, and loose ones of four kinds. -/
def looseLexicon : Lexicon where
  IsSpace u := rfc8259.IsSpace u ∨ IsLooseSpace u
  IsPlain u := rfc8259.IsPlain u ∨ IsRawControl u
  IsCode a b c d := rfc8259.IsCode a b c d ∨ IsLooseCode a b c d
  IsNumber text := rfc8259.IsNumber text ∨
    ∃ literal, IsLooseNumber literal ∧ (∀ c ∈ literal, isNumberChar c = true) ∧
      text = units literal

/-- What follows the whole part of a number of Java is as in RFC 8259, or begins with a point that
has no digit behind it. -/
theorem isFraction_or (h : isMagnitude text = true) :
    isFraction (text.dropWhile Char.isDigit) = true ∨
      ∃ fraction, text.dropWhile Char.isDigit = '.' :: fraction ∧ afterDigits fraction = none := by
  unfold isMagnitude at h
  split at h
  · next fraction hpoint =>
    rw [hpoint]
    cases hafter : afterDigits fraction with
    | none => exact Or.inr ⟨fraction, rfl, hafter⟩
    | some more =>
      rw [Bool.and_eq_true, (of_afterDigits hafter).1] at h
      rw [isFraction, hafter]
      exact Or.inl h.2
  · next hpoint =>
    rw [Bool.and_eq_true] at h
    rw [isFraction]
    · exact Or.inl h.2
    · exact hpoint

/-- A number of Java without its sign is one of RFC 8259, or a loose one. -/
theorem isUnsigned_or (h : isMagnitude text = true) :
    isUnsigned text = true ∨ IsLooseMagnitude text := by
  cases text with
  | nil => cases h
  | cons d rest =>
    by_cases hd : d.isDigit = true
    · rcases isFraction_or h with hfraction | hloose
      · rw [List.dropWhile_cons_of_pos hd] at hfraction
        by_cases hzero : d = '0'
        · subst hzero
          cases rest with
          | nil => exact Or.inl rfl
          | cons next more =>
            by_cases hnext : next.isDigit = true
            · exact Or.inr ⟨h, Or.inl ⟨next, more, rfl, hnext⟩⟩
            · rw [List.dropWhile_cons_of_neg hnext] at hfraction
              exact Or.inl hfraction
        · have hafter : afterDigits (d :: rest) = some (rest.dropWhile Char.isDigit) := if_pos hd
          left
          rw [isUnsigned, hafter]
          · exact hfraction
          · exact fun _ hsame => hzero (List.cons.inj hsame).1
      · exact Or.inr ⟨h, Or.inr (Or.inr hloose)⟩
    · by_cases hpoint : d = '.'
      · exact Or.inr ⟨h, Or.inr (Or.inl ⟨rest, by rw [hpoint]⟩)⟩
      · rw [isMagnitude, List.dropWhile_cons_of_neg hd, List.takeWhile_cons_of_neg hd] at h
        split at h
        · next hsame => exact absurd (List.cons.inj hsame).1 hpoint
        · cases h

/-- A number of Java is one of RFC 8259, or a loose one. -/
theorem isLiteral_or (h : isFloatingPoint text = true) :
    isLiteral text = true ∨ IsLooseNumber text := by
  unfold isFloatingPoint at h
  split at h
  · next magnitude => exact Or.inr (Or.inl ⟨magnitude, rfl, h⟩)
  · next magnitude =>
    exact (isUnsigned_or h).imp_right fun hloose => Or.inr (Or.inl ⟨magnitude, rfl, hloose⟩)
  · next hplus hminus =>
    refine (isUnsigned_or h).imp (fun hunsigned => ?_) fun hloose => Or.inr (Or.inr hloose)
    rw [isLiteral]
    · exact hunsigned
    · exact hminus

/-- A loose number is a number of Java. -/
theorem isFloatingPoint_of_isLooseNumber (h : IsLooseNumber text) :
    isFloatingPoint text = true := by
  rcases h with ⟨magnitude, rfl, hmagnitude⟩ | ⟨magnitude, rfl, hloose⟩ | hloose
  · exact hmagnitude
  · exact hloose.1
  · have hmagnitude := hloose.1
    unfold isFloatingPoint
    split
    · next magnitude => simp [isMagnitude] at hmagnitude
    · next magnitude => simp [isMagnitude] at hmagnitude
    · exact hmagnitude

/-- The text of a number has only the characters that the parser takes. -/
theorem units_map_of_isNumberUnit {text : Units} (htext : ∀ u ∈ text, isNumberUnit u = true) :
    units (text.map fun u => Char.ofNat u.toNat) = text ∧
      ∀ c ∈ text.map fun u => Char.ofNat u.toNat, isNumberChar c = true := by
  have hall : ((units "+-.eE0123456789".toList).all fun u => decide
      (unitsOf (Char.ofNat u.toNat) = [u] ∧ isNumberChar (Char.ofNat u.toNat) = true)) = true := by
    decide
  induction text with
  | nil => exact ⟨rfl, fun c hc => by cases hc⟩
  | cons u text ih =>
    obtain ⟨hu, hrest⟩ := List.forall_mem_cons.mp htext
    obtain ⟨hback, hchars⟩ := ih hrest
    obtain ⟨hone, hchar⟩ :=
      of_decide_eq_true (List.all_eq_true.mp hall u (List.contains_iff_mem.mp hu))
    rw [List.map_cons, units, List.flatMap_cons, ← units, hone, hback]
    exact ⟨rfl, List.forall_mem_cons.mpr ⟨hchar, hchars⟩⟩

/-- The value of digits is there exactly if each of them is known. -/
theorem isSome_digitsValue {text : Units} :
    (digitsValue text).isSome = true ↔ ∀ u ∈ text, (digit u).isSome = true := by
  have hnone : ∀ text : Units, text.foldl
      (fun value c => value.bind fun v => (digit c).map (16 * v + ·)) none = none := by
    intro text
    induction text with
    | nil => rfl
    | cons u text ih => exact ih
  have hsome : ∀ (text : Units) (v : ℕ), (text.foldl
      (fun value c => value.bind fun v => (digit c).map (16 * v + ·)) (some v)).isSome = true ↔
        ∀ u ∈ text, (digit u).isSome = true := by
    intro text
    induction text with
    | nil => simp
    | cons u text ih =>
      intro v
      rw [List.foldl_cons, List.forall_mem_cons, Option.bind_some]
      cases hdigit : digit u with
      | none => simp [hnone]
      | some value => simp [ih]
  exact hsome text 0

/-- The four characters of an escape of the parser. -/
theorem isSome_parseChar {a b c d : UInt16} : (parseChar [a, b, c, d]).isSome = true ↔
    (∀ u ∈ [b, c, d], (digit u).isSome = true) ∧
      ((a = unit '+' ∨ a = unit '-') ∨ (digit a).isSome = true) := by
  rw [parseChar]
  split_ifs with hminus hplus
  · simp only [Option.isSome_map, isSome_digitsValue, hminus, or_true, true_or, and_true]
  · simp only [Option.isSome_map, isSome_digitsValue, hplus, true_or, and_true]
  · rw [Option.isSome_map, isSome_digitsValue, List.forall_mem_cons]
    simp only [hminus, hplus, or_self, false_or]
    exact and_comm

/-- **The parser knows no lexemes** but those of RFC 8259 and the loose ones. -/
theorem lexicon_within : lexicon.Within looseLexicon where
  space u hu := by
    have hspaces : ∀ n ∈ [0x09, 0x0A, 0x0D, 0x20],
        UInt16.ofNat n ∈ units [' ', '\t', '\n', '\r'] := by decide
    by_cases hspace : u.toNat ∈ [0x09, 0x0A, 0x0D, 0x20]
    · have hmem := hspaces _ hspace
      rw [UInt16.ofNat_toNat] at hmem
      exact Or.inl hmem
    · refine Or.inr ?_
      simp only [lexicon, isWhitespace, Bool.or_eq_true, Bool.and_eq_true, List.contains_iff_mem,
        decide_eq_true_eq, bne_iff_ne, List.mem_cons, List.not_mem_nil, or_false] at hu hspace
      simp only [IsLooseSpace, List.mem_cons, List.not_mem_nil, or_false]
      omega
  plain u hu := by
    by_cases hcontrol : u.toNat < 0x20
    · exact Or.inr hcontrol
    · exact Or.inl ⟨not_lt.mp hcontrol, hu⟩
  code a b c d h := by
    obtain ⟨hrest, hsign | ha⟩ := isSome_parseChar.mp h
    · exact Or.inr ⟨hrest, Or.inl hsign⟩
    · by_cases hhex : ∀ u ∈ [a, b, c, d], IsHexUnit u
      · simp only [List.forall_mem_cons] at hhex
        exact Or.inl ⟨hhex.1, hhex.2.1, hhex.2.2.1, hhex.2.2.2.1⟩
      · push Not at hhex
        obtain ⟨u, hu, hforeign⟩ := hhex
        have hdigits : ∀ u ∈ [a, b, c, d], (digit u).isSome = true :=
          List.forall_mem_cons.mpr ⟨ha, hrest⟩
        exact Or.inr ⟨hrest, Or.inr ⟨ha, u, hu, hdigits u hu, hforeign⟩⟩
  number text h := by
    obtain ⟨-, hunits, hnumber⟩ := h
    obtain ⟨hback, hchars⟩ := units_map_of_isNumberUnit hunits
    rcases isLiteral_or hnumber with hliteral | hloose
    · exact Or.inl ⟨_, hliteral, hback.symm⟩
    · exact Or.inr ⟨_, hloose, hchars, hback.symm⟩

/-- **The parser knows the loose lexemes too.** -/
theorem within_lexicon : looseLexicon.Within lexicon where
  space u hu := by
    rcases hu with hu | hu
    · exact rfc8259_within.space u hu
    · simp only [IsLooseSpace, List.mem_cons, List.not_mem_nil, or_false] at hu
      simp only [lexicon, isWhitespace, Bool.or_eq_true, Bool.and_eq_true, List.contains_iff_mem,
        decide_eq_true_eq, bne_iff_ne, List.mem_cons, List.not_mem_nil, or_false]
      omega
  plain u hu := by
    rcases hu with hu | hu
    · exact rfc8259_within.plain u hu
    · constructor
      · rintro rfl
        exact absurd hu (by decide)
      · rintro rfl
        exact absurd hu (by decide)
  code a b c d h := by
    rcases h with h | ⟨hrest, hsign | ⟨ha, -⟩⟩
    · exact rfc8259_within.code a b c d h
    · exact isSome_parseChar.mpr ⟨hrest, Or.inl hsign⟩
    · exact isSome_parseChar.mpr ⟨hrest, Or.inr ha⟩
  number text h := by
    rcases h with h | ⟨literal, hloose, hchars, rfl⟩
    · exact rfc8259_within.number text h
    · exact isNumber_units hchars (isFloatingPoint_of_isLooseNumber hloose)

/-- A text that has loose lexemes and would be a JSON text if these were lexemes of it. -/
def IsLoose (input : Units) : Prop :=
  JsonText looseLexicon (maxDepth + 1) input ∧ ¬ JsonText rfc8259 (maxDepth + 1) input

/-- **The parser accepts exactly JSON, but for loose texts**, and throws nothing but exceptions of
the right kind. -/
theorem accepts_json_iff {ν : Type} (valueOf : List Char → ν) (input : Units) :
    (((∃ value, parse valueOf input = .ok value) ↔ JsonText rfc8259 (maxDepth + 1) input) ∧
      ∀ e, parse valueOf input = .error e → e.IsIllegalArgument) ↔ ¬ IsLoose input := by
  obtain ⟨haccepts, hthrows⟩ := parse_iff valueOf input
  have hlax : JsonText lexicon (maxDepth + 1) input ↔ JsonText looseLexicon (maxDepth + 1) input :=
    ⟨JsonText.mono lexicon_within, JsonText.mono within_lexicon⟩
  rw [haccepts, hlax, IsLoose]
  constructor
  · rintro ⟨hjson, -⟩ ⟨hloose, hstrict⟩
    exact hstrict (hjson.mp hloose)
  · intro hnot
    refine ⟨⟨fun hloose => ?_, fun hstrict => hlax.mp (JsonText.mono rfc8259_within hstrict)⟩,
      hthrows⟩
    by_contra hstrict
    exact hnot ⟨hloose, hstrict⟩

/-- A number with a zero before it is none. -/
theorem not_jsonText_leading_zero (levels : ℕ) : ¬ JsonText rfc8259 levels (units "01".toList) := by
  have hall : ((units "01".toList).all fun u =>
      decide (u ∉ units [' ', '\t', '\n', '\r'])) = true := by decide
  have hspace : ∀ u ∈ units "01".toList, u ∉ units [' ', '\t', '\n', '\r'] := fun u hu =>
    of_decide_eq_true (List.all_eq_true.mp hall u hu)
  rintro ⟨before, body, after, hbefore, hbody, hafter, htext⟩
  have hnil : before = [] ∧ after = [] := by
    constructor
    · refine List.eq_nil_iff_forall_not_mem.mpr fun u hu => hspace u ?_ (hbefore u hu)
      rw [htext]
      exact List.mem_append_left _ (List.mem_append_left _ hu)
    · refine List.eq_nil_iff_forall_not_mem.mpr fun u hu => hspace u ?_ (hafter u hu)
      rw [htext]
      exact List.mem_append_right _ hu
  rw [hnil.1, hnil.2, List.nil_append, List.append_nil] at htext
  subst htext
  cases levels with
  | zero => exact hbody
  | succ levels =>
    rcases hbody with hliteral | ⟨literal, hliteral, hunits⟩ | ⟨inner, -, hstring⟩ | hlist | hobject
    · revert hliteral
      decide
    · have hback := (units_of_isNumberChar (isNumberChar_of_isLiteral hliteral).1).2
      rw [← hunits] at hback
      rw [← hback] at hliteral
      revert hliteral
      decide
    · exact absurd (List.cons.inj hstring).1 (by decide)
    · rcases hlist with ⟨blank, -, hlist⟩ | ⟨parts, -, -, hlist⟩
      · exact absurd (List.cons.inj hlist).1 (by decide)
      · exact absurd (List.cons.inj hlist).1 (by decide)
    · rcases hobject with ⟨blank, -, hobject⟩ | ⟨parts, -, -, hobject⟩
      · exact absurd (List.cons.inj hobject).1 (by decide)
      · exact absurd (List.cons.inj hobject).1 (by decide)

theorem accepts_leading_zero :
    ¬ ((∃ value, parse (fun literal => literal) (units "01".toList) = .ok value) ↔
      JsonText rfc8259 (maxDepth + 1) (units "01".toList)) := by
  intro hiff
  refine not_jsonText_leading_zero (maxDepth + 1) (hiff.mp ⟨.number "01".toList, ?_⟩)
  rfl

end Strict

end JavaJson

end SilenceWatch
