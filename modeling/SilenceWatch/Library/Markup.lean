import Mathlib.Data.List.Basic

/-!
# Reading markup

A reader of markup as a machine that takes one character at a time and emits characters, tags
and declarations. It knows start tags with attributes in double quotes, end tags, declarations
and references that end in a semicolon; on anything else it is lost. Pages are printed from
pieces, some of which are text that is escaped: read back, such text is the characters it was
made of, wherever it stands, and the tags are the page's own.
-/

namespace Markup

/-- A start tag with its attributes, or an end tag. -/
structure Tag where
  closing : Bool
  name : List Char
  attributes : List (List Char × List Char)
  deriving DecidableEq

/-- What a reader makes of a page. -/
inductive Token where
  | char (c : Char)
  | tag (tag : Tag)
  | declaration (text : List Char)
  deriving DecidableEq

/-- The tags among the tokens of a page. -/
def tagsOf (tokens : List Token) : List Tag :=
  tokens.filterMap fun
    | .tag tag => some tag
    | .char _ | .declaration _ => none

/-- Where a character may be written as a reference: in the text, or in an attribute that is
read as far as `value`. -/
inductive Place where
  | text
  | value (tag : Tag) (name value : List Char)
  deriving DecidableEq

/-- What the reader is in the middle of. -/
inductive Mode where
  | data
  | tagOpen
  | tagName (closing : Bool) (name : List Char)
  | beforeAttribute (tag : Tag)
  | attributeName (tag : Tag) (name : List Char)
  | beforeValue (tag : Tag) (name : List Char)
  | quoted (tag : Tag) (name value : List Char)
  | afterValue (tag : Tag)
  | declaration (text : List Char)
  | reference (place : Place) (name : List Char)
  | lost
  deriving DecidableEq

/-- The mode in which characters of a place are read. -/
def Place.mode : Place → Mode
  | .text => .data
  | .value tag name before => .quoted tag name before

/-- A character at a place. -/
def Place.add (c : Char) : Place → List Token × Mode
  | .text => ([.char c], .data)
  | .value tag name before => ([], .quoted tag name (before ++ [c]))

/-- A character of the name of an attribute. -/
def isNameChar (c : Char) : Bool := c.isAlphanum || c = '-'

section Reader

variable (named : List Char → Option Char)

/-- One character. -/
def next : Mode → Char → List Token × Mode
  | .data, c =>
    if c = '<' then ([], .tagOpen)
    else if c = '&' then ([], .reference .text [])
    else Place.text.add c
  | .tagOpen, c =>
    if c = '!' then ([], .declaration [])
    else if c = '/' then ([], .tagName true [])
    else if c.isAlpha then ([], .tagName false [c])
    else ([], .lost)
  | .tagName closing name, c =>
    if c = '>' then ([.tag ⟨closing, name, []⟩], .data)
    else if c = ' ' then ([], .beforeAttribute ⟨closing, name, []⟩)
    else if c.isAlphanum then ([], .tagName closing (name ++ [c]))
    else ([], .lost)
  | .beforeAttribute tag, c =>
    if isNameChar c then ([], .attributeName tag [c]) else ([], .lost)
  | .attributeName tag name, c =>
    if c = '=' then ([], .beforeValue tag name)
    else if isNameChar c then ([], .attributeName tag (name ++ [c]))
    else ([], .lost)
  | .beforeValue tag name, c => if c = '"' then ([], .quoted tag name []) else ([], .lost)
  | .quoted tag name value, c =>
    if c = '"' then ([], .afterValue { tag with attributes := tag.attributes ++ [(name, value)] })
    else if c = '&' then ([], .reference (.value tag name value) [])
    else (Place.value tag name value).add c
  | .afterValue tag, c =>
    if c = ' ' then ([], .beforeAttribute tag)
    else if c = '>' then ([.tag tag], .data)
    else ([], .lost)
  | .declaration text, c =>
    if c = '>' then ([.declaration text], .data) else ([], .declaration (text ++ [c]))
  | .reference place name, c =>
    if c = ';' then ((named name).map place.add).getD ([], .lost)
    else if c.isAlphanum || c = '#' then ([], .reference place (name ++ [c]))
    else ([], .lost)
  | .lost, _ => ([], .lost)

/-- The characters of a page, one after another. -/
def scan : Mode → List Char → List Token × Mode
  | mode, [] => ([], mode)
  | mode, c :: rest =>
    let (tokens, mode) := next named mode c
    let (later, mode) := scan mode rest
    (tokens ++ later, mode)

/-- A whole page, which ends in its text. -/
def read (page : List Char) : Option (List Token) :=
  let (tokens, mode) := scan named .data page
  if mode = .data then some tokens else none

variable {named}

theorem scan_append (mode : Mode) (page rest : List Char) :
    scan named mode (page ++ rest) =
      ((scan named mode page).1 ++ (scan named (scan named mode page).2 rest).1,
        (scan named (scan named mode page).2 rest).2) := by
  induction page generalizing mode with
  | nil => rfl
  | cons c page ih =>
    simp only [List.cons_append, scan, ih]
    rw [List.append_assoc]

/-- A part of a page is read as these tokens and leaves the reader in this mode. -/
theorem scan_append_of_eq {mode mode' : Mode} {page rest : List Char} {tokens : List Token}
    (h : scan named mode page = (tokens, mode')) :
    scan named mode (page ++ rest) =
      (tokens ++ (scan named mode' rest).1, (scan named mode' rest).2) := by
  rw [scan_append, h]

theorem scan_cons_of_eq {mode mode' : Mode} {c : Char} {rest : List Char} {tokens : List Token}
    (h : next named mode c = (tokens, mode')) :
    scan named mode (c :: rest) =
      (tokens ++ (scan named mode' rest).1, (scan named mode' rest).2) := by
  simp only [scan, h]

theorem scan_nil (mode : Mode) : scan named mode [] = ([], mode) := rfl

/-- A name that a reference may have. -/
def IsReferenceName (name : List Char) : Prop :=
  ∀ c ∈ name, c ≠ ';' ∧ (c.isAlphanum || c = '#') = true

instance IsReferenceName.decidable : DecidablePred IsReferenceName := fun name =>
  List.decidableBAll _ name

/-- The name of a reference is read up to its semicolon. -/
theorem scan_referenceName {name : List Char} (h : IsReferenceName name) (place : Place)
    (before : List Char) :
    scan named (.reference place before) name = ([], .reference place (before ++ name)) := by
  induction name generalizing before with
  | nil => rw [List.append_nil, scan_nil]
  | cons c name ih =>
    obtain ⟨hend, hc⟩ := h c List.mem_cons_self
    have hnext : next named (.reference place before) c =
        ([], .reference place (before ++ [c])) := by
      simp only [next, hend, hc, if_false, if_true]
    rw [scan_cons_of_eq hnext, ih fun d hd => h d (List.mem_cons_of_mem _ hd),
      List.append_assoc]
    rfl

/-- A reference is read as the character that it names. -/
theorem scan_reference {name : List Char} {c : Char} (h : IsReferenceName name)
    (hnamed : named name = some c) (place : Place) :
    scan named place.mode ('&' :: (name ++ [';'])) = place.add c := by
  have hopen : next named place.mode '&' = ([], .reference place []) := by
    cases place <;> rfl
  have hclose : next named (.reference place ([] ++ name)) ';' = place.add c := by
    simp only [next, if_true, List.nil_append, hnamed, Option.map_some, Option.getD_some]
  rw [scan_cons_of_eq hopen, scan_append_of_eq (scan_referenceName h place []),
    scan_cons_of_eq hclose, scan_nil]
  cases place <;> rfl

end Reader

/-- How single characters are written so that they are read as themselves wherever text may
stand. -/
structure Escape (named : List Char → Option Char) where
  text : Char → List Char
  scan_text : ∀ c place, scan named (Place.mode place) (text c) = place.add c

namespace Escape

variable {named : List Char → Option Char} (escape : Escape named)

/-- Escaped text is read as the characters it was made of. -/
theorem scan_flatMap_data (content : List Char) :
    scan named .data (content.flatMap escape.text) = (content.map Token.char, .data) := by
  induction content with
  | nil => rfl
  | cons c content ih =>
    have hc : scan named .data (escape.text c) = ([.char c], .data) := escape.scan_text c .text
    rw [List.flatMap_cons, scan_append_of_eq hc, ih]
    rfl

/-- Escaped text in an attribute is read as the characters it was made of. -/
theorem scan_flatMap_quoted (tag : Tag) (name value content : List Char) :
    scan named (.quoted tag name value) (content.flatMap escape.text) =
      ([], .quoted tag name (value ++ content)) := by
  induction content generalizing value with
  | nil =>
    rw [List.append_nil]
    rfl
  | cons c content ih =>
    have hc : scan named (.quoted tag name value) (escape.text c) =
        ([], .quoted tag name (value ++ [c])) := escape.scan_text c (.value tag name value)
    rw [List.flatMap_cons, scan_append_of_eq hc, ih, List.append_assoc]
    rfl

end Escape

/-- Text of a page: the page's own, or text that somebody typed. -/
inductive Text where
  | own (content : List Char)
  | typed (content : List Char)

/-- A piece of a page. -/
inductive Piece where
  | text (text : Text)
  | start (name : List Char) (attributes : List (List Char × Text))
  | «end» (name : List Char)
  | declaration (text : List Char)

/-- The characters that a text stands for. -/
def Text.content : Text → List Char
  | .own content | .typed content => content

/-- A page's own text needs no escaping. -/
def Text.Plain : Text → Prop
  | .own content => ∀ c ∈ content, c ≠ '<' ∧ c ≠ '&' ∧ c ≠ '"'
  | .typed _ => True

instance Text.decidablePlain : DecidablePred Text.Plain
  | .own content => List.decidableBAll (fun c => c ≠ '<' ∧ c ≠ '&' ∧ c ≠ '"') content
  | .typed _ => inferInstanceAs (Decidable True)

/-- The name of a tag, or of an attribute: a letter, then letters and digits. -/
def IsName (name : List Char) : Prop :=
  name.head?.any Char.isAlpha = true ∧ ∀ c ∈ name, c.isAlphanum = true

instance IsName.decidable : DecidablePred IsName := fun name =>
  @instDecidableAnd _ _ inferInstance (List.decidableBAll _ name)

/-- A piece that can be read back. -/
def Piece.WellFormed : Piece → Prop
  | .text content => content.Plain
  | .start name attributes => IsName name ∧ ∀ a ∈ attributes, IsName a.1 ∧ a.2.Plain
  | .end name => IsName name
  | .declaration content => ∀ c ∈ content, c ≠ '>'

instance Piece.decidableWellFormed : DecidablePred Piece.WellFormed
  | .text content => inferInstanceAs (Decidable content.Plain)
  | .start name attributes =>
    inferInstanceAs (Decidable (IsName name ∧ ∀ a ∈ attributes, IsName a.1 ∧ a.2.Plain))
  | .end name => inferInstanceAs (Decidable (IsName name))
  | .declaration content => List.decidableBAll (fun c => c ≠ '>') content

/-- What a piece is read as. -/
def Piece.tokens : Piece → List Token
  | .text words => words.content.map Token.char
  | .start name attributes =>
    [.tag ⟨false, name, attributes.map fun a => (a.1, a.2.content)⟩]
  | .end name => [.tag ⟨true, name, []⟩]
  | .declaration words => [.declaration words]

theorem tagsOf_append (tokens tokens' : List Token) :
    tagsOf (tokens ++ tokens') = tagsOf tokens ++ tagsOf tokens' :=
  List.filterMap_append

/-- Characters are no tags. -/
theorem tagsOf_chars (content : List Char) : tagsOf (content.map Token.char) = [] := by
  simp [tagsOf, List.filterMap_map]

section Printer

variable (escape : Char → List Char)

def Text.print : Text → List Char
  | .own content => content
  | .typed content => content.flatMap escape

/-- An attribute with the space before it. -/
def printAttribute (a : List Char × Text) : List Char :=
  ' ' :: a.1 ++ '=' :: '"' :: a.2.print escape ++ ['"']

def Piece.print : Piece → List Char
  | .text words => words.print escape
  | .start name attributes => '<' :: name ++ attributes.flatMap (printAttribute escape) ++ ['>']
  | .end name => '<' :: '/' :: name ++ ['>']
  | .declaration words => '<' :: '!' :: words ++ ['>']

/-- A page. -/
def print (page : List Piece) : List Char := page.flatMap fun piece => piece.print escape

end Printer

section RoundTrip

variable {named : List Char → Option Char} {escape : Escape named}

theorem print_append (escape : Char → List Char) (page page' : List Piece) :
    print escape (page ++ page') = print escape page ++ print escape page' :=
  List.flatMap_append

/-- Text of a page is read as what it stands for. -/
theorem scan_text_data {text : Text} (h : text.Plain) :
    scan named .data (text.print escape.text) = (text.content.map Token.char, .data) := by
  cases text with
  | typed content => exact escape.scan_flatMap_data content
  | own content =>
    show scan named .data content = (content.map Token.char, .data)
    induction content with
    | nil => rfl
    | cons c content ih =>
      obtain ⟨hlt, hamp, _⟩ := h c List.mem_cons_self
      have hnext : next named .data c = ([.char c], .data) := by
        simp [next, Place.add, hlt, hamp]
      rw [scan_cons_of_eq hnext, ih fun d hd => h d (List.mem_cons_of_mem _ hd)]
      rfl

theorem scan_text_quoted {text : Text} (h : text.Plain) (tag : Tag) (name value : List Char) :
    scan named (.quoted tag name value) (text.print escape.text) =
      ([], .quoted tag name (value ++ text.content)) := by
  cases text with
  | typed content => exact escape.scan_flatMap_quoted tag name value content
  | own content =>
    show scan named (.quoted tag name value) content = ([], .quoted tag name (value ++ content))
    induction content generalizing value with
    | nil =>
      rw [List.append_nil]
      rfl
    | cons c content ih =>
      obtain ⟨_, hamp, hquote⟩ := h c List.mem_cons_self
      have hnext : next named (.quoted tag name value) c =
          ([], .quoted tag name (value ++ [c])) := by
        simp [next, Place.add, hamp, hquote]
      rw [scan_cons_of_eq hnext, ih _ fun d hd => h d (List.mem_cons_of_mem _ hd),
        List.append_assoc]
      rfl

/-- A letter or a digit is no character that ends a name. -/
theorem ne_of_isAlphanum {c d : Char} (hc : c.isAlphanum = true) (hd : d.isAlphanum = false) :
    c ≠ d := by
  rintro rfl
  rw [hc] at hd
  cases hd

/-- A name begins with a letter. -/
theorem IsName.cases {name : List Char} (h : IsName name) :
    ∃ c rest, name = c :: rest ∧ c.isAlpha = true ∧ c.isAlphanum = true ∧
      ∀ d ∈ rest, d.isAlphanum = true := by
  obtain ⟨hfirst, hall⟩ := h
  cases name with
  | nil => cases hfirst
  | cons c rest =>
    exact ⟨c, rest, rfl, hfirst, hall c List.mem_cons_self,
      fun d hd => hall d (List.mem_cons_of_mem _ hd)⟩

theorem scan_tagName {name : List Char} (h : ∀ c ∈ name, c.isAlphanum = true) (closing : Bool)
    (before : List Char) :
    scan named (.tagName closing before) name = ([], .tagName closing (before ++ name)) := by
  induction name generalizing before with
  | nil =>
    rw [List.append_nil]
    rfl
  | cons c name ih =>
    have hc := h c List.mem_cons_self
    have hnext : next named (.tagName closing before) c =
        ([], .tagName closing (before ++ [c])) := by
      simp [next, ne_of_isAlphanum hc (d := '>') rfl, ne_of_isAlphanum hc (d := ' ') rfl, hc]
    rw [scan_cons_of_eq hnext, ih fun d hd => h d (List.mem_cons_of_mem _ hd),
      List.append_assoc]
    rfl

theorem scan_attributeName {name : List Char} (h : ∀ c ∈ name, c.isAlphanum = true) (tag : Tag)
    (before : List Char) :
    scan named (.attributeName tag before) name = ([], .attributeName tag (before ++ name)) := by
  induction name generalizing before with
  | nil =>
    rw [List.append_nil]
    rfl
  | cons c name ih =>
    have hc := h c List.mem_cons_self
    have hnext : next named (.attributeName tag before) c =
        ([], .attributeName tag (before ++ [c])) := by
      simp [next, ne_of_isAlphanum hc (d := '=') rfl, isNameChar, hc]
    rw [scan_cons_of_eq hnext, ih fun d hd => h d (List.mem_cons_of_mem _ hd),
      List.append_assoc]
    rfl

theorem next_data_open : next named .data '<' = ([], .tagOpen) := rfl

theorem next_tagOpen_slash : next named .tagOpen '/' = ([], .tagName true []) := rfl

theorem next_tagOpen_bang : next named .tagOpen '!' = ([], .declaration []) := rfl

theorem next_attributeName_eq (tag : Tag) (name : List Char) :
    next named (.attributeName tag name) '=' = ([], .beforeValue tag name) := rfl

theorem next_beforeValue_quote (tag : Tag) (name : List Char) :
    next named (.beforeValue tag name) '"' = ([], .quoted tag name []) := rfl

/-- The reader has this tag and may find another attribute, or the end of the tag. -/
def Ready (tag : Tag) (mode : Mode) : Prop :=
  mode = .afterValue tag ∨ (mode = .tagName tag.closing tag.name ∧ tag.attributes = [])

theorem Ready.next_space {tag : Tag} {mode : Mode} (h : Ready tag mode) :
    next named mode ' ' = ([], .beforeAttribute tag) := by
  rcases h with rfl | ⟨rfl, hnone⟩
  · rfl
  · obtain ⟨closing, name, attributes⟩ := tag
    obtain rfl := hnone
    rfl

theorem Ready.next_end {tag : Tag} {mode : Mode} (h : Ready tag mode) :
    next named mode '>' = ([.tag tag], .data) := by
  rcases h with rfl | ⟨rfl, hnone⟩
  · rfl
  · obtain ⟨closing, name, attributes⟩ := tag
    obtain rfl := hnone
    rfl

/-- An attribute is read with its value. -/
theorem Ready.scan_attribute {tag : Tag} {mode : Mode} (h : Ready tag mode)
    {name : List Char} {value : Text} (hname : IsName name) (hplain : value.Plain) :
    scan named mode (printAttribute escape.text (name, value)) =
      ([], .afterValue { tag with attributes := tag.attributes ++ [(name, value.content)] }) := by
  obtain ⟨c, rest, rfl, _, hc, hall⟩ := hname.cases
  have hfirst : next named (.beforeAttribute tag) c = ([], .attributeName tag [c]) := by
    simp [next, isNameChar, hc]
  have hrest : scan named (.attributeName tag [c]) rest = ([], .attributeName tag ([c] ++ rest)) :=
    scan_attributeName hall tag [c]
  have hshape : printAttribute escape.text (c :: rest, value) =
      ' ' :: c :: (rest ++ '=' :: '"' :: (value.print escape.text ++ ['"'])) := by
    simp [printAttribute]
  rw [hshape, scan_cons_of_eq h.next_space, scan_cons_of_eq hfirst, scan_append_of_eq hrest,
    scan_cons_of_eq (next_attributeName_eq _ _), scan_cons_of_eq (next_beforeValue_quote _ _),
    scan_append_of_eq (scan_text_quoted hplain tag ([c] ++ rest) [])]
  rfl

/-- The attributes of a tag are read one after another. -/
theorem Ready.scan_attributes {tag : Tag} {mode : Mode} (h : Ready tag mode)
    {attributes : List (List Char × Text)} (hwell : ∀ a ∈ attributes, IsName a.1 ∧ a.2.Plain) :
    ∃ mode', scan named mode (attributes.flatMap (printAttribute escape.text)) = ([], mode') ∧
      Ready { tag with
        attributes := tag.attributes ++ attributes.map fun a => (a.1, a.2.content) } mode' := by
  induction attributes generalizing tag mode with
  | nil =>
    refine ⟨mode, rfl, ?_⟩
    rw [List.map_nil, List.append_nil]
    exact h
  | cons a attributes ih =>
    obtain ⟨hname, hplain⟩ := hwell a List.mem_cons_self
    have hattribute : scan named mode (printAttribute escape.text a) = _ :=
      h.scan_attribute hname hplain
    obtain ⟨mode', hscan, hready⟩ := ih (Or.inl rfl)
      fun b hb => hwell b (List.mem_cons_of_mem _ hb)
    refine ⟨mode', ?_, ?_⟩
    · rw [List.flatMap_cons, scan_append_of_eq hattribute, hscan]
      rfl
    · rw [List.map_cons]
      simpa using hready

/-- The characters of a declaration. -/
theorem scan_declaration {words : List Char} (h : ∀ c ∈ words, c ≠ '>') (before : List Char) :
    scan named (.declaration before) words = ([], .declaration (before ++ words)) := by
  induction words generalizing before with
  | nil =>
    rw [List.append_nil]
    rfl
  | cons c words ih =>
    have hnext : next named (.declaration before) c = ([], .declaration (before ++ [c])) := by
      simp [next, h c List.mem_cons_self]
    rw [scan_cons_of_eq hnext, ih fun d hd => h d (List.mem_cons_of_mem _ hd),
      List.append_assoc]
    rfl

/-- A piece is read as its tokens. -/
theorem Piece.scan_print {piece : Piece} (h : piece.WellFormed) :
    scan named .data (piece.print escape.text) = (piece.tokens, .data) := by
  cases piece with
  | text words => exact scan_text_data h
  | start name attributes =>
    obtain ⟨hname, hattributes⟩ := h
    obtain ⟨c, rest, rfl, hletter, hc, hall⟩ := hname.cases
    have hfirst : next named .tagOpen c = ([], .tagName false [c]) := by
      simp [next, ne_of_isAlphanum hc (d := '!') rfl, ne_of_isAlphanum hc (d := '/') rfl,
        hletter]
    have hrest : scan named (.tagName false [c]) rest = ([], .tagName false ([c] ++ rest)) :=
      scan_tagName hall false [c]
    have hready : Ready ⟨false, c :: rest, []⟩ (.tagName false ([c] ++ rest)) :=
      Or.inr ⟨rfl, rfl⟩
    obtain ⟨mode, hscan, hready⟩ := hready.scan_attributes hattributes
    show scan named .data
      ('<' :: c :: (rest ++ attributes.flatMap (printAttribute escape.text) ++ ['>'])) = _
    rw [List.append_assoc, scan_cons_of_eq next_data_open, scan_cons_of_eq hfirst,
      scan_append_of_eq hrest, scan_append_of_eq hscan, scan_cons_of_eq hready.next_end]
    rfl
  | «end» name =>
    have hname : scan named (.tagName true []) name = ([], .tagName true ([] ++ name)) :=
      scan_tagName h.2 true []
    show scan named .data ('<' :: '/' :: (name ++ ['>'])) = _
    rw [scan_cons_of_eq next_data_open, scan_cons_of_eq next_tagOpen_slash,
      scan_append_of_eq hname]
    rfl
  | declaration words =>
    show scan named .data ('<' :: '!' :: (words ++ ['>'])) = _
    rw [scan_cons_of_eq next_data_open, scan_cons_of_eq next_tagOpen_bang,
      scan_append_of_eq (scan_declaration h [])]
    rfl

/-- **Round trip.** A page is read as the tokens of its pieces, in their order: whatever was
typed is characters, and every tag is one of the page's own. -/
theorem read_print {page : List Piece} (h : ∀ piece ∈ page, piece.WellFormed) :
    read named (print escape.text page) = some (page.flatMap Piece.tokens) := by
  have hscan : scan named .data (print escape.text page) = (page.flatMap Piece.tokens, .data) := by
    induction page with
    | nil => rfl
    | cons piece page ih =>
      have hpiece : scan named .data (piece.print escape.text) = (piece.tokens, .data) :=
        Piece.scan_print (h piece List.mem_cons_self)
      show scan named .data (piece.print escape.text ++ print escape.text page) = _
      rw [scan_append_of_eq hpiece, ih fun p hp => h p (List.mem_cons_of_mem _ hp)]
      rfl
  simp only [read, hscan, if_true]

end RoundTrip

end Markup
