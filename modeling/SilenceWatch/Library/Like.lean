import Mathlib.Data.List.Infix

/-!
# Patterns of `LIKE`

A percent sign stands for any text, an underscore for one character, and a backslash takes the
next character for itself.
-/

namespace Like

/-- What a pattern consists of. -/
inductive Part where
  | any
  | one
  | char (c : Char)
  deriving DecidableEq

/-- The parts of a pattern. -/
def parts : List Char → List Part
  | [] => []
  | '\\' :: c :: pattern => .char c :: parts pattern
  | c :: pattern =>
    (if c = '%' then .any else if c = '_' then .one else .char c) :: parts pattern

/-- A text is one of those that the parts stand for. -/
def matchesParts : List Part → List Char → Bool
  | [], text => text = []
  | .any :: pattern, text => text.tails.any (matchesParts pattern)
  | .one :: pattern, text =>
    match text with
    | [] => false
    | _ :: rest => matchesParts pattern rest
  | .char c :: pattern, text =>
    match text with
    | [] => false
    | d :: rest => d = c && matchesParts pattern rest

/-- `text LIKE pattern`. -/
def like (text pattern : List Char) : Bool := matchesParts (parts pattern) text

/-- The characters that a pattern does not take for themselves. -/
def specials : List Char := ['%', '_', '\\']

/-- A pattern that contains a text, somewhere. -/
def containing (text : List Char) : List Char := '%' :: text ++ ['%']

/-- A text that a pattern matches, with as little as there can be for any text, and a filler for
one character. -/
def shortest (filler : Char) : List Part → List Char
  | [] => []
  | .any :: pattern => shortest filler pattern
  | .one :: pattern => filler :: shortest filler pattern
  | .char c :: pattern => c :: shortest filler pattern

variable {text search pattern : List Char} {filler c : Char}

/-- Any text may be empty. -/
theorem matchesParts_any {pattern : List Part} (h : matchesParts pattern text) :
    matchesParts (.any :: pattern) text := by
  rw [matchesParts, List.any_eq_true]
  exact ⟨text, (List.mem_tails _ _).mpr (List.suffix_refl text), h⟩

/-- Patterns match their shortest texts. -/
theorem matchesParts_shortest (filler : Char) (pattern : List Part) :
    matchesParts pattern (shortest filler pattern) := by
  induction pattern with
  | nil => rfl
  | cons part pattern ih =>
    cases part with
    | any => exact matchesParts_any ih
    | one => exact ih
    | char c =>
      rw [shortest, matchesParts]
      simpa using ih

/-- An ordinary character before a pattern. -/
theorem parts_cons (hc : c ≠ '\\') (pattern : List Char) : parts (c :: pattern) =
    (if c = '%' then .any else if c = '_' then .one else .char c) :: parts pattern := by
  rw [parts]
  rintro d rest rfl
  exact absurd rfl hc

/-- The parts of ordinary characters are these. -/
theorem parts_append_percent (hplain : ∀ c ∈ search, c ∉ specials) :
    parts (search ++ ['%']) = search.map .char ++ [.any] := by
  induction search with
  | nil => rfl
  | cons c search ih =>
    have hc := hplain c List.mem_cons_self
    simp only [specials, List.mem_cons, List.not_mem_nil, or_false, not_or] at hc
    obtain ⟨hpercent, hunderscore, hbackslash⟩ := hc
    rw [List.cons_append, parts_cons hbackslash, if_neg hpercent, if_neg hunderscore,
      ih fun d hd => hplain d (List.mem_cons_of_mem _ hd)]
    rfl

/-- Characters match the texts that begin with them. -/
theorem matchesParts_chars : matchesParts (search.map .char ++ [.any]) text ↔ search <+: text := by
  induction search generalizing text with
  | nil =>
    refine iff_of_true ?_ (List.nil_prefix)
    rw [List.map_nil, List.nil_append, matchesParts, List.any_eq_true]
    exact ⟨[], (List.mem_tails _ _).mpr (List.nil_suffix), rfl⟩
  | cons c search ih =>
    cases text with
    | nil => simp [matchesParts]
    | cons d text =>
      rw [List.map_cons, List.cons_append, matchesParts, Bool.and_eq_true, decide_eq_true_eq, ih,
        List.cons_prefix_cons]
      exact and_congr_left fun _ => eq_comm

/-- **Ordinary characters** are looked for as they are. -/
theorem like_containing (hplain : ∀ c ∈ search, c ∉ specials) :
    like text (containing search) ↔ search <:+: text := by
  have hparts : parts (containing search) = .any :: (search.map .char ++ [.any]) := by
    rw [← parts_append_percent hplain]
    rfl
  rw [like, hparts, matchesParts, List.any_eq_true]
  simp only [matchesParts_chars, List.mem_tails]
  constructor
  · rintro ⟨rest, hbehind, hbefore⟩
    exact List.infix_iff_prefix_suffix.mpr ⟨rest, hbefore, hbehind⟩
  · intro hwithin
    obtain ⟨rest, hbefore, hbehind⟩ := List.infix_iff_prefix_suffix.mp hwithin
    exact ⟨rest, hbehind, hbefore⟩

/-- The shortest text that contains a pattern is no longer than that, and differs from it if
there are special characters. -/
theorem shortest_spec (hfiller : filler ≠ '_') : ∀ search : List Char,
    (shortest filler (parts (search ++ ['%']))).length ≤ search.length ∧
      (shortest filler (parts (search ++ ['%'])) = search → ∀ c ∈ search, c ∉ specials)
  | [] => ⟨Nat.le_refl 0, fun _ _ hc => absurd hc List.not_mem_nil⟩
  | c :: search => by
    by_cases hbackslash : c = '\\'
    · subst hbackslash
      cases search with
      | nil =>
        have hshortest : shortest filler (parts (['\\'] ++ ['%'])) = ['%'] := rfl
        rw [hshortest]
        exact ⟨Nat.le_refl 1, fun h => absurd h (by decide)⟩
      | cons d rest =>
        have ih := (shortest_spec hfiller rest).1
        have hshortest : shortest filler (parts ('\\' :: d :: rest ++ ['%'])) =
            d :: shortest filler (parts (rest ++ ['%'])) := rfl
        rw [hshortest]
        refine ⟨by simp only [List.length_cons]; omega, fun h => ?_⟩
        have hlength := congrArg List.length h
        simp only [List.length_cons] at hlength
        omega
    · obtain ⟨hlength, hsame⟩ := shortest_spec hfiller search
      rw [List.cons_append, parts_cons hbackslash]
      by_cases hpercent : c = '%'
      · rw [if_pos hpercent]
        refine ⟨by rw [shortest, List.length_cons]; omega, fun h => ?_⟩
        have hlonger := congrArg List.length h
        rw [shortest, List.length_cons] at hlonger
        omega
      · rw [if_neg hpercent]
        by_cases hunderscore : c = '_'
        · rw [if_pos hunderscore]
          refine ⟨by rw [shortest, List.length_cons, List.length_cons]; omega, fun h => ?_⟩
          exact absurd ((List.cons.inj h).1.trans hunderscore) hfiller
        · rw [if_neg hunderscore]
          refine ⟨by rw [shortest, List.length_cons, List.length_cons]; omega, fun h d hd => ?_⟩
          rcases List.mem_cons.mp hd with rfl | hd
          · simp [specials, hpercent, hunderscore, hbackslash]
          · exact hsame (List.cons.inj h).2 d hd

/-- **Special characters** are not looked for as they are: there is a text that the pattern
matches and that does not contain them. -/
theorem exists_like_containing (hfiller : filler ≠ '_')
    (hspecial : ∃ c ∈ search, c ∈ specials) :
    like (shortest filler (parts (search ++ ['%']))) (containing search) ∧
      ¬ search <:+: shortest filler (parts (search ++ ['%'])) := by
  constructor
  · exact matchesParts_any (matchesParts_shortest filler (parts (search ++ ['%'])))
  · intro hwithin
    obtain ⟨hlength, hsame⟩ := shortest_spec hfiller search
    obtain ⟨c, hc, hmem⟩ := hspecial
    exact hsame (List.IsInfix.eq_of_length_le hwithin hlength).symm c hc hmem

/-- The characters of a shortest text. -/
theorem mem_shortest {pattern : List Part} (hc : c ∈ shortest filler pattern) :
    c = filler ∨ Part.char c ∈ pattern := by
  induction pattern with
  | nil => cases hc
  | cons part pattern ih =>
    cases part with
    | any => exact (ih hc).imp_right (List.mem_cons_of_mem _)
    | one =>
      rcases List.mem_cons.mp hc with rfl | hc
      · exact Or.inl rfl
      · exact (ih hc).imp_right (List.mem_cons_of_mem _)
    | char d =>
      rcases List.mem_cons.mp hc with rfl | hc
      · exact Or.inr List.mem_cons_self
      · exact (ih hc).imp_right (List.mem_cons_of_mem _)

/-- The characters of a pattern are its own. -/
theorem mem_parts : ∀ {pattern : List Char}, Part.char c ∈ parts pattern → c ∈ pattern
  | [], h => by cases h
  | d :: pattern, h => by
    by_cases hbackslash : d = '\\'
    · subst hbackslash
      cases pattern with
      | nil =>
        obtain rfl : c = '\\' := by simpa [parts] using h
        exact List.mem_cons_self
      | cons e rest =>
        have h' : Part.char c ∈ Part.char e :: parts rest := h
        rcases List.mem_cons.mp h' with heq | h'
        · cases heq
          simp
        · exact List.mem_cons_of_mem _ (List.mem_cons_of_mem _ (mem_parts h'))
    · rw [parts_cons hbackslash] at h
      rcases List.mem_cons.mp h with heq | h
      · split at heq
        · cases heq
        · split at heq
          · cases heq
          · cases heq
            exact List.mem_cons_self
      · exact List.mem_cons_of_mem _ (mem_parts h)

end Like
