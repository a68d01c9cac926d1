import Mathlib.Data.List.Nodup
import Mathlib.Data.List.OfFn
import Mathlib.Logic.Relation
import SilenceWatch.Library.CodePoints
import SilenceWatch.Schedule.CronSyntax

/-!
# Recovery codes

How a code is generated and how one that was typed is normalised. Upper-casing goes by code
points and the rest of the normaliser by code units, which matters where removing a dash or
white space brings the halves of a surrogate pair together.
-/

namespace SilenceWatch

open Json

/-- Crockford's alphabet. -/
def recoveryAlphabet : List Char := "0123456789ABCDEFGHJKMNPQRSTVWXYZ".toList

/-- `GROUPS`. -/
def recoveryGroups : ℕ := 3

/-- `GROUP_LENGTH`. -/
def recoveryGroupLength : ℕ := 4

/-- What `randomInt` draws for a code. -/
abbrev RecoveryDraws := Fin recoveryGroups → Fin recoveryGroupLength → Fin recoveryAlphabet.length

/-- The groups of a code. -/
def recoveryCodeGroups (draws : RecoveryDraws) : List (List Char) :=
  List.ofFn fun group => List.ofFn fun index => recoveryAlphabet.get (draws group index)

/-- `generateRecoveryCode`. -/
def generateRecoveryCode (draws : RecoveryDraws) : List Char :=
  ['-'].intercalate (recoveryCodeGroups draws)

/-- A dash, or white space. -/
def isCodeSeparator (c : Char) : Bool := c = '-' || isSpace c

/-- The upper case of characters, as Unicode has it. -/
structure UpperCase where
  upper : Char → List Char
  ascii : ∀ c : Char, c.toNat < 0x80 → upper c = [c.toUpper]
  fixed : ∀ c, ∀ d ∈ upper c, upper d = [d]
  ne_nil : ∀ c, upper c ≠ []
  separator : ∀ c, ∀ d ∈ upper c, isCodeSeparator d = isCodeSeparator c

/-- The upper case of a code point; halves of pairs have none. -/
def UpperCase.ofPoint (cases : UpperCase) : CodePoint → List CodePoint
  | .lone u h => [.lone u h]
  | .char c => (cases.upper c).map .char

/-- `toUpperCase`. -/
def UpperCase.toUpperCase (cases : UpperCase) (text : Units) : Units :=
  encode ((codePoints text).flatMap cases.ofPoint)

/-- `[\s-]`. -/
def isSeparatorUnit (u : UInt16) : Bool := isCodeSeparator (Char.ofNat u.toNat)

/-- `normaliseRecoveryCode`. -/
def normaliseRecoveryCode (cases : UpperCase) (code : Units) : Units :=
  (((cases.toUpperCase code).filter fun u => !isSeparatorUnit u).map
    fun u => if u = 0x4F then 0x30 else u).map
    fun u => if u = 0x49 ∨ u = 0x4C then 0x31 else u

/-- One change to a code that its reader may make. -/
inductive Respells : List Char → List Char → Prop where
  | letterCase (before after : List Char) {c c' : Char} (h : c.toUpper = c'.toUpper) :
      Respells (before ++ c :: after) (before ++ c' :: after)
  | insert (before after : List Char) {c : Char} (h : isCodeSeparator c = true) :
      Respells (before ++ after) (before ++ c :: after)
  | letterO (before after : List Char) :
      Respells (before ++ '0' :: after) (before ++ 'O' :: after)
  | letterI (before after : List Char) :
      Respells (before ++ '1' :: after) (before ++ 'I' :: after)
  | letterL (before after : List Char) :
      Respells (before ++ '1' :: after) (before ++ 'L' :: after)

/-- A spelling of a code: any number of changes. -/
def Spells : List Char → List Char → Prop := Relation.ReflTransGen Respells

section Points

/-- The letters that look like digits. -/
def foldUnit (u : UInt16) : UInt16 :=
  if u = 0x4F then 0x30 else if u = 0x49 ∨ u = 0x4C then 0x31 else u

/-- No unit of the code point is a separator. -/
def isKept (p : CodePoint) : Bool := p.units.all fun u => !isSeparatorUnit u

/-- What the normaliser makes of a code point. -/
def canonical (cases : UpperCase) (p : CodePoint) : List CodePoint :=
  ((cases.ofPoint p).filter isKept).map (CodePoint.mapUnit foldUnit)

variable {u v : UInt16} {c d : Char} {p q : CodePoint}

theorem ofNat_surrogate (h : IsSurrogate u) : Char.ofNat u.toNat = Char.ofNat 0 := by
  have hu := u.toNat_lt
  unfold IsSurrogate IsHigh IsLow at h
  have hinvalid : ¬ u.toNat.isValidChar := by
    unfold Nat.isValidChar
    omega
  rw [Char.ofNat, dif_neg hinvalid]
  rfl

/-- Half of a pair is no separator and no letter that looks like a digit. -/
theorem isSeparatorUnit_surrogate (h : IsSurrogate u) : isSeparatorUnit u = false := by
  rw [isSeparatorUnit, ofNat_surrogate h]
  decide

theorem foldUnit_of_ne (hO : u ≠ 0x4F) (hI : u ≠ 0x49) (hL : u ≠ 0x4C) : foldUnit u = u := by
  rw [foldUnit, if_neg hO, if_neg (not_or.mpr ⟨hI, hL⟩)]

theorem foldUnit_surrogate (h : IsSurrogate u) : foldUnit u = u := by
  refine foldUnit_of_ne ?_ ?_ ?_ <;>
  · rintro rfl
    revert h
    decide

/-- The two replacements are one. -/
theorem map_map_foldUnit (text : Units) :
    (text.map fun u => if u = 0x4F then 0x30 else u).map
        (fun u => if u = 0x49 ∨ u = 0x4C then 0x31 else u) = text.map foldUnit := by
  rw [List.map_map]
  refine List.map_congr_left fun u _ => ?_
  unfold Function.comp foldUnit
  dsimp only
  by_cases hO : u = 0x4F
  · rw [if_pos hO, if_pos hO]
    decide
  · rw [if_neg hO, if_neg hO]

/-- A separator is a character of one unit. -/
theorem toNat_of_isCodeSeparator (h : isCodeSeparator c = true) : c.toNat < 0x10000 := by
  unfold isCodeSeparator isSpace at h
  rcases (Bool.or_eq_true _ _).mp h with hdash | hspace
  · rw [of_decide_eq_true hdash]
    decide
  · simp only [Bool.or_eq_true, List.contains_eq_mem, decide_eq_true_eq, List.mem_cons,
      List.not_mem_nil, or_false, Bool.and_eq_true] at hspace
    omega

/-- A character of one unit is a separator exactly if its unit is; the others are none. -/
theorem isKept_char (c : Char) : isKept (.char c) = !isCodeSeparator c := by
  rw [isKept, CodePoint.units]
  rcases unitsOf_cases c with ⟨u, hunits, _, hc⟩ | ⟨u, v, hunits, hu, hv, _⟩
  · rw [hunits, List.all_cons, List.all_nil, Bool.and_true, isSeparatorUnit, hc]
  · have hlarge : 0x10000 ≤ c.toNat := by
      by_contra hsmall
      rw [unitsOf, if_pos (by omega)] at hunits
      cases hunits
    have hnone : isCodeSeparator c = false := by
      by_contra hseparator
      have hsmall := toNat_of_isCodeSeparator (Bool.not_eq_false _ ▸ hseparator)
      omega
    rw [hunits, hnone, List.all_cons, List.all_cons, List.all_nil,
      isSeparatorUnit_surrogate (Or.inl hu), isSeparatorUnit_surrogate (Or.inr hv)]
    rfl

theorem isKept_lone (h : IsSurrogate u) : isKept (.lone u h) = true := by
  rw [isKept, CodePoint.units, List.all_cons, List.all_nil, isSeparatorUnit_surrogate h]
  rfl

/-- The letters that look like digits, as characters. -/
def foldLetter (c : Char) : Char :=
  if c = 'O' then '0' else if c = 'I' ∨ c = 'L' then '1' else c

/-- Code points are folded like characters. -/
theorem mapUnit_foldUnit (c : Char) :
    CodePoint.mapUnit foldUnit (.char c) = .char (foldLetter c) := by
  rcases unitsOf_cases c with ⟨u, hunits, hu, hc⟩ | ⟨u, v, hunits, hu, hv, _⟩
  · rw [mapUnit_single hunits]
    by_cases hO : u = 0x4F
    · rw [← hc, hO]
      decide
    · by_cases hI : u = 0x49
      · rw [← hc, hI]
        decide
      · by_cases hL : u = 0x4C
        · rw [← hc, hL]
          decide
        · have hother : ∀ c' w, unitsOf c' = [w] → u ≠ w → c ≠ c' := by
            rintro _ w hw hne rfl
            exact hne (List.singleton_injective (hunits.symm.trans hw))
          rw [foldUnit_of_ne hO hI hL, ofUnit_of_char hu hc, foldLetter,
            if_neg (hother 'O' 0x4F (by decide) hO),
            if_neg (not_or.mpr ⟨hother 'I' 0x49 (by decide) hI, hother 'L' 0x4C (by decide) hL⟩)]
  · have hother : ∀ c' w, unitsOf c' = [w] → c ≠ c' := by
      rintro _ w hw rfl
      rw [hunits] at hw
      cases hw
    rw [mapUnit_pair hunits, foldLetter, if_neg (hother 'O' 0x4F (by decide)),
      if_neg (not_or.mpr ⟨hother 'I' 0x49 (by decide), hother 'L' 0x4C (by decide)⟩)]

variable (cases : UpperCase)

theorem canonical_lone (h : IsSurrogate u) : canonical cases (.lone u h) = [.lone u h] := by
  rw [canonical, UpperCase.ofPoint, List.filter_cons, if_pos (isKept_lone h)]
  rfl

theorem canonical_char (c : Char) :
    canonical cases (.char c) =
      ((cases.upper c).filter fun d => !isCodeSeparator d).map fun d => .char (foldLetter d) := by
  have hkept : (isKept ∘ CodePoint.char) = fun d => !isCodeSeparator d := funext isKept_char
  rw [canonical, UpperCase.ofPoint, List.filter_map, hkept, List.map_map]
  exact List.map_congr_left fun d _ => mapUnit_foldUnit d

/-- A separator goes. -/
theorem canonical_separator (h : isCodeSeparator c = true) : canonical cases (.char c) = [] := by
  rw [canonical_char, List.map_eq_nil_iff, List.filter_eq_nil_iff]
  intro d hd
  rw [cases.separator c d hd, h]
  decide

/-- Any other character becomes characters. -/
theorem canonical_ne_nil (h : isCodeSeparator c = false) : canonical cases (.char c) ≠ [] := by
  have hall : (cases.upper c).filter (fun d => !isCodeSeparator d) = cases.upper c := by
    refine List.filter_eq_self.mpr fun d hd => ?_
    rw [cases.separator c d hd, h]
    rfl
  rw [canonical_char, hall]
  exact List.map_eq_nil_iff.not.mpr (cases.ne_nil c)

theorem canonical_ascii (hascii : c.toNat < 0x80) (h : isCodeSeparator c = false) :
    canonical cases (.char c) = [.char (foldLetter c.toUpper)] := by
  have hupper := cases.ascii c hascii
  have hkept := cases.separator c c.toUpper (hupper ▸ List.mem_singleton_self _)
  rw [canonical_char, hupper, List.filter_cons, hkept, h]
  rfl

/-- What the normaliser makes of a code point it leaves. -/
theorem canonical_of_mem (hq : q ∈ canonical cases p) : canonical cases q = [q] := by
  cases p with
  | lone u h =>
    rw [canonical_lone] at hq
    rw [List.mem_singleton.mp hq, canonical_lone]
  | char c =>
    rw [canonical_char] at hq
    obtain ⟨d, hd, rfl⟩ := List.mem_map.mp hq
    obtain ⟨hupper, hkept⟩ := List.mem_filter.mp hd
    have hkept : isCodeSeparator d = false := by simpa using hkept
    by_cases hO : d = 'O'
    · rw [hO]
      exact canonical_ascii cases (by decide) (by decide)
    · by_cases hIL : d = 'I' ∨ d = 'L'
      · have hone : foldLetter d = '1' := by rw [foldLetter, if_neg hO, if_pos hIL]
        rw [hone]
        exact canonical_ascii cases (by decide) (by decide)
      · have hsame : foldLetter d = d := by rw [foldLetter, if_neg hO, if_neg hIL]
        rw [hsame, canonical_char, cases.fixed c d hupper, List.filter_cons, hkept]
        exact congrArg ([CodePoint.char ·]) hsame

/-- **The normaliser, by code points.** -/
theorem normaliseRecoveryCode_eq (code : Units) :
    normaliseRecoveryCode cases code = encode ((codePoints code).flatMap (canonical cases)) := by
  have hkeep : ∀ u, IsSurrogate u → (!isSeparatorUnit u) = true := fun u h => by
    rw [isSeparatorUnit_surrogate h]
    rfl
  rw [normaliseRecoveryCode, map_map_foldUnit, UpperCase.toUpperCase, filter_encode hkeep,
    map_encode fun u => foldUnit_surrogate, List.filter_flatMap, List.map_flatMap]
  rfl

end Points

section Idempotence

variable {u v : UInt16} {c d : Char} {p q : CodePoint} (cases : UpperCase)

/-- The halves of pairs that removing separators brings together stand for characters without
an upper case. -/
def JoinsCaseless (code : Units) : Prop :=
  ∀ c ∈ newChars ((codePoints code).filter isKept), cases.upper c = [c]

/-- Removing separators is all that brings halves together. -/
theorem newChars_flatMap_canonical (points : List CodePoint) :
    newChars (points.flatMap (canonical cases)) = newChars (points.filter isKept) := by
  -- Separators become nothing; the others are looked at one by one.
  let f : CodePoint → List CodePoint := fun p => if isKept p then canonical cases p else [p]
  have hfiltered : points.flatMap (canonical cases) = (points.filter isKept).flatMap f := by
    induction points with
    | nil => rfl
    | cons p points ih =>
      rw [List.flatMap_cons, ih, List.filter_cons]
      cases hkept : isKept p with
      | true =>
        have hf : f p = canonical cases p := if_pos hkept
        rw [if_pos rfl, List.flatMap_cons, hf]
      | false =>
        rw [if_neg Bool.false_ne_true]
        cases p with
        | lone u h => exact absurd ((isKept_lone h).symm.trans hkept) (by decide)
        | char c =>
          rw [isKept_char, Bool.not_eq_false'] at hkept
          rw [canonical_separator cases hkept, List.nil_append]
  rw [hfiltered]
  refine newChars_flatMap (fun u h => ?_) (fun c => ?_) _
  · have hf : f (.lone u h) = canonical cases (.lone u h) := if_pos (isKept_lone h)
    rw [hf, canonical_lone]
  · cases hkept : isKept (.char c) with
    | true =>
      have hf : f (.char c) = canonical cases (.char c) := if_pos hkept
      rw [isKept_char, Bool.not_eq_true'] at hkept
      rw [hf]
      refine ⟨canonical_ne_nil cases hkept, fun q hq => ?_⟩
      rw [canonical_char] at hq
      obtain ⟨d, _, rfl⟩ := List.mem_map.mp hq
      exact ⟨_, rfl⟩
    | false =>
      have hf : f (.char c) = [.char c] := if_neg (by rw [hkept]; exact Bool.false_ne_true)
      rw [hf]
      exact ⟨List.cons_ne_nil _ _, fun q hq => ⟨c, List.mem_singleton.mp hq⟩⟩

theorem not_isCodeSeparator_of_pair (hunits : unitsOf c = [u, v]) : isCodeSeparator c = false := by
  by_contra hseparator
  have hsmall := toNat_of_isCodeSeparator (Bool.not_eq_false _ ▸ hseparator)
  rw [unitsOf, if_pos hsmall] at hunits
  cases hunits

theorem ne_of_pair {w : UInt16} (hunits : unitsOf c = [u, v]) (hd : unitsOf d = [w]) : c ≠ d := by
  rintro rfl
  rw [hunits] at hd
  cases hd

theorem foldLetter_of_pair (hunits : unitsOf c = [u, v]) : foldLetter c = c := by
  have hO : c ≠ 'O' := ne_of_pair (w := 0x4F) hunits (by decide)
  have hI : c ≠ 'I' := ne_of_pair (w := 0x49) hunits (by decide)
  have hL : c ≠ 'L' := ne_of_pair (w := 0x4C) hunits (by decide)
  rw [foldLetter, if_neg hO, if_neg (not_or.mpr ⟨hI, hL⟩)]

/-- A character of two units that has no upper case is left. -/
theorem canonical_pair (hunits : unitsOf c = [u, v]) (hupper : cases.upper c = [c]) :
    canonical cases (.char c) = [.char c] := by
  rw [canonical_char, hupper, List.filter_cons, not_isCodeSeparator_of_pair hunits]
  exact congrArg ([CodePoint.char ·]) (foldLetter_of_pair hunits)

/-- One that has an upper case becomes another string from its first units on. -/
theorem encode_canonical_ne (hunits : unitsOf c = [u, v]) (hu : IsHigh u)
    (hupper : cases.upper c ≠ [c]) (text text' : Units) :
    encode (canonical cases (.char c)) ++ text ≠ [u, v] ++ text' := by
  cases hpoints : canonical cases (.char c) with
  | nil => exact absurd hpoints (canonical_ne_nil cases (not_isCodeSeparator_of_pair hunits))
  | cons q rest =>
    have hq : q ∈ canonical cases (.char c) := hpoints ▸ List.mem_cons_self
    rw [canonical_char] at hq
    obtain ⟨d, hd, rfl⟩ := List.mem_map.mp hq
    have hmem := (List.mem_filter.mp hd).1
    -- The first character is not the one that was there: that one has an upper case.
    have hne : foldLetter d ≠ c := by
      intro hsame
      have hd : d = c := by
        unfold foldLetter at hsame
        split at hsame
        · exact absurd hsame.symm (ne_of_pair (w := 0x30) hunits (by decide))
        · split at hsame
          · exact absurd hsame.symm (ne_of_pair (w := 0x31) hunits (by decide))
          · exact hsame
      rw [hd] at hmem
      exact hupper (cases.fixed c c hmem)
    intro heq
    rw [encode_cons, CodePoint.units] at heq
    rcases unitsOf_cases (foldLetter d) with ⟨w, hw, hsingle, _⟩ | ⟨w, w', hw, _, _, hpair⟩
    · rw [hw] at heq
      have hhead : w = u := (List.cons.inj heq).1
      rw [hhead] at hsingle
      exact hsingle (Or.inl hu)
    · rw [hw] at heq
      obtain ⟨hfirst, hrest⟩ := List.cons.inj heq
      have hsecond := (List.cons.inj hrest).1
      rcases unitsOf_cases c with ⟨a, hc, _⟩ | ⟨a, b, hc, _, _, hchar⟩
      · rw [hunits] at hc
        cases hc
      · rw [hunits] at hc
        obtain ⟨hfirst', hrest'⟩ := List.cons.inj hc
        have hsecond' := (List.cons.inj hrest').1
        rw [hfirst, hsecond, hfirst', hsecond', hchar] at hpair
        exact hne hpair.symm

/-- A string that stays the same has stayed the same code point for code point, where each
code point stays or becomes another string from its first units on. -/
theorem flatMap_eq_self {f : CodePoint → List CodePoint} {points : List CodePoint}
    (h : ∀ p ∈ points, f p = [p] ∨ ∀ text text', encode (f p) ++ text ≠ p.units ++ text')
    (heq : encode (points.flatMap f) = encode points) : ∀ p ∈ points, f p = [p] := by
  induction points with
  | nil => exact fun p hp => absurd hp List.not_mem_nil
  | cons p points ih =>
    rw [List.flatMap_cons, encode_append, encode_cons] at heq
    rcases h p List.mem_cons_self with hsame | hother
    · rw [hsame, encode_cons, encode_nil, List.append_nil] at heq
      have hrest := ih (fun q hq => h q (List.mem_cons_of_mem _ hq)) (List.append_cancel_left heq)
      intro q hq
      rcases List.mem_cons.mp hq with rfl | hq
      · exact hsame
      · exact hrest q hq
    · exact absurd heq (hother _ _)

/-- **Normalising twice.** It is normalising once, except where removing separators makes a
character that has an upper case. -/
theorem normaliseRecoveryCode_normalise_iff (code : Units) :
    normaliseRecoveryCode cases (normaliseRecoveryCode cases code) =
      normaliseRecoveryCode cases code ↔ JoinsCaseless cases code := by
  let points := (codePoints code).flatMap (canonical cases)
  have hnew : newChars points = newChars ((codePoints code).filter isKept) :=
    newChars_flatMap_canonical cases _
  have htwice : normaliseRecoveryCode cases (normaliseRecoveryCode cases code) =
      encode ((joinPairs points).flatMap (canonical cases)) := by
    rw [normaliseRecoveryCode_eq, normaliseRecoveryCode_eq, codePoints_encode]
  have honce : normaliseRecoveryCode cases code = encode (joinPairs points) := by
    rw [normaliseRecoveryCode_eq, encode_joinPairs]
  have hold : ∀ p ∈ points, canonical cases p = [p] := fun p hp => by
    obtain ⟨p', _, hp'⟩ := List.mem_flatMap.mp hp
    exact canonical_of_mem cases hp'
  rw [htwice, honce, JoinsCaseless, ← hnew]
  constructor
  · intro heq c hc
    obtain ⟨hmem, u, v, hunits, hu⟩ := mem_newChars hc
    by_contra hupper
    have hstays : ∀ p ∈ joinPairs points, canonical cases p = [p] ∨
        ∀ text text', encode (canonical cases p) ++ text ≠ p.units ++ text' := by
      intro p hp
      rcases mem_joinPairs hp with hp | ⟨c', hc', rfl⟩
      · exact Or.inl (hold p hp)
      · obtain ⟨_, u', v', hunits', hu'⟩ := mem_newChars hc'
        by_cases hupper' : cases.upper c' = [c']
        · exact Or.inl (canonical_pair cases hunits' hupper')
        · right
          intro text text'
          rw [CodePoint.units, hunits']
          exact encode_canonical_ne cases hunits' hu' hupper' text text'
    have hself := flatMap_eq_self hstays heq (.char c) hmem
    have hne := encode_canonical_ne cases hunits hu hupper [] []
    rw [hself, List.append_nil, List.append_nil] at hne
    exact hne (by rw [encode_cons, encode_nil, List.append_nil, CodePoint.units, hunits])
  · intro hcaseless
    have hself : ∀ p ∈ joinPairs points, canonical cases p = [p] := by
      intro p hp
      rcases mem_joinPairs hp with hp | ⟨c, hc, rfl⟩
      · exact hold p hp
      · obtain ⟨_, u, v, hunits, _⟩ := mem_newChars hc
        exact canonical_pair cases hunits (hcaseless c hc)
    have hsame : (joinPairs points).flatMap (canonical cases) = joinPairs points := by
      rw [List.flatMap_congr hself, List.flatMap_singleton']
    rw [hsame]

end Idempotence

section Spelling

variable {c c' : Char} (cases : UpperCase)

theorem toUpper_of_large (h : 0x80 ≤ c.toNat) : c.toUpper = c := by
  unfold Char.toUpper
  split
  · next hc =>
    have hle := UInt32.le_iff_toNat_le.mp hc.2
    have hz : ('z'.val).toNat = 122 := rfl
    have hval : c.val.toNat = c.toNat := rfl
    omega
  · rfl

theorem toNat_toUpper_lt (h : c.toNat < 0x80) : c.toUpper.toNat < 0x80 := by
  unfold Char.toUpper
  split
  · next hc =>
    have hle := UInt32.le_iff_toNat_le.mp hc.1
    have ha : ('a'.val).toNat = 97 := rfl
    have hval : c.val.toNat = c.toNat := rfl
    have hstep : ('A'.val - 'a'.val).toNat = 4294967264 := by decide
    change (c.val + ('A'.val - 'a'.val)).toNat < _
    rw [UInt32.toNat_add]
    omega
  · exact h

/-- The two cases of a letter are normalised alike. -/
theorem canonical_letterCase (h : c.toUpper = c'.toUpper) :
    canonical cases (.char c) = canonical cases (.char c') := by
  rcases Nat.lt_or_ge c.toNat 0x80 with hc | hc
  · rcases Nat.lt_or_ge c'.toNat 0x80 with hc' | hc'
    · rw [canonical_char, canonical_char, cases.ascii c hc, cases.ascii c' hc', h]
    · have hlt := toNat_toUpper_lt hc
      rw [h, toUpper_of_large hc'] at hlt
      omega
  · rcases Nat.lt_or_ge c'.toNat 0x80 with hc' | hc'
    · have hlt := toNat_toUpper_lt hc'
      rw [← h, toUpper_of_large hc] at hlt
      omega
    · rw [toUpper_of_large hc, toUpper_of_large hc'] at h
      rw [h]

/-- A text of characters is normalised a character at a time. -/
theorem normaliseRecoveryCode_units (text : List Char) :
    normaliseRecoveryCode cases (units text) =
      encode (text.flatMap fun c => canonical cases (.char c)) := by
  rw [normaliseRecoveryCode_eq, codePoints_units, List.flatMap_map]

/-- **One change.** It does not show once the code is normalised. -/
theorem normaliseRecoveryCode_respells {code typed : List Char} (h : Respells code typed) :
    normaliseRecoveryCode cases (units typed) = normaliseRecoveryCode cases (units code) := by
  rw [normaliseRecoveryCode_units, normaliseRecoveryCode_units]
  have hdigit : ∀ (before after : List Char) {c c' : Char},
      canonical cases (.char c) = canonical cases (.char c') →
      encode ((before ++ c' :: after).flatMap fun c => canonical cases (.char c)) =
        encode ((before ++ c :: after).flatMap fun c => canonical cases (.char c)) := by
    intro before after c c' hsame
    rw [List.flatMap_append, List.flatMap_append, List.flatMap_cons, List.flatMap_cons, hsame]
  cases h with
  | letterCase before after hcase => exact hdigit before after (canonical_letterCase cases hcase)
  | insert before after hseparator =>
    rw [List.flatMap_append, List.flatMap_append, List.flatMap_cons,
      canonical_separator cases hseparator, List.nil_append]
  | letterO before after =>
    refine hdigit before after ?_
    rw [canonical_ascii cases (by decide) (by decide),
      canonical_ascii cases (by decide) (by decide)]
    decide
  | letterI before after =>
    refine hdigit before after ?_
    rw [canonical_ascii cases (by decide) (by decide),
      canonical_ascii cases (by decide) (by decide)]
    decide
  | letterL before after =>
    refine hdigit before after ?_
    rw [canonical_ascii cases (by decide) (by decide),
      canonical_ascii cases (by decide) (by decide)]
    decide

/-- **All spellings.** They are normalised like the code. -/
theorem normaliseRecoveryCode_spells {code typed : List Char} (h : Spells code typed) :
    normaliseRecoveryCode cases (units typed) = normaliseRecoveryCode cases (units code) := by
  induction h with
  | refl => rfl
  | tail _ hchange ih => exact (normaliseRecoveryCode_respells cases hchange).trans ih

end Spelling

section Generated

variable (cases : UpperCase)

/-- The normaliser leaves the characters of the alphabet. -/
theorem canonical_alphabet {c : Char} (hc : c ∈ recoveryAlphabet) :
    canonical cases (.char c) = [.char c] := by
  have hall : recoveryAlphabet.all (fun c => decide (c.toNat < 0x80) && !isCodeSeparator c &&
      decide (foldLetter c.toUpper = c)) = true := by decide
  have hthis := List.all_eq_true.mp hall c hc
  simp only [Bool.and_eq_true, decide_eq_true_eq, Bool.not_eq_true'] at hthis
  obtain ⟨⟨hascii, hkept⟩, hsame⟩ := hthis
  rw [canonical_ascii cases hascii hkept, hsame]

theorem mem_recoveryAlphabet {draws : RecoveryDraws} {group : List Char} {c : Char}
    (hgroup : group ∈ recoveryCodeGroups draws) (hc : c ∈ group) : c ∈ recoveryAlphabet := by
  obtain ⟨i, rfl⟩ := List.mem_ofFn.mp hgroup
  obtain ⟨j, rfl⟩ := List.mem_ofFn.mp hc
  exact List.get_mem _ _

/-- The dashes between groups go. -/
theorem flatMap_intercalate {α : Type*} (f : Char → List α) (hf : f '-' = [])
    (groups : List (List Char)) :
    (['-'].intercalate groups).flatMap f = groups.flatten.flatMap f := by
  induction groups with
  | nil => rfl
  | cons group groups ih =>
    cases groups with
    | nil => rw [List.intercalate_singleton, List.flatten_cons, List.flatten_nil, List.append_nil]
    | cons group' groups =>
      rw [List.intercalate_cons_cons, List.flatMap_append, List.flatMap_append, ih,
        List.flatMap_singleton, hf, List.append_nil, List.flatten_cons (l := group),
        List.flatMap_append]

/-- A generated code is normalised to its groups in a row. -/
theorem normaliseRecoveryCode_generate (draws : RecoveryDraws) :
    normaliseRecoveryCode cases (units (generateRecoveryCode draws)) =
      units (recoveryCodeGroups draws).flatten := by
  have hdash : canonical cases (.char '-') = [] := canonical_separator cases (by decide)
  have hleft : ∀ c ∈ (recoveryCodeGroups draws).flatten,
      canonical cases (.char c) = [.char c] := by
    intro c hc
    obtain ⟨group, hgroup, hc⟩ := List.mem_flatten.mp hc
    exact canonical_alphabet cases (mem_recoveryAlphabet hgroup hc)
  rw [normaliseRecoveryCode_units, generateRecoveryCode, flatMap_intercalate _ hdash,
    List.flatMap_congr hleft]
  unfold encode units
  rw [List.flatMap_assoc]
  exact List.flatMap_congr fun c _ => List.append_nil (unitsOf c)

/-- **Distinct codes.** Codes that are normalised alike were drawn alike. -/
theorem draws_eq_of_normalise_eq {draws draws' : RecoveryDraws}
    (h : normaliseRecoveryCode cases (units (generateRecoveryCode draws)) =
      normaliseRecoveryCode cases (units (generateRecoveryCode draws'))) : draws = draws' := by
  rw [normaliseRecoveryCode_generate, normaliseRecoveryCode_generate] at h
  have hlengths : ∀ draws, (recoveryCodeGroups draws).map List.length =
      List.replicate recoveryGroups recoveryGroupLength := fun draws => by
    unfold recoveryCodeGroups
    rw [List.map_ofFn, ← List.ofFn_const]
    exact congrArg List.ofFn (funext fun i => List.length_ofFn)
  have hgroups : recoveryCodeGroups draws = recoveryCodeGroups draws' :=
    List.eq_iff_flatten_eq.mpr ⟨units_injective h, (hlengths draws).trans (hlengths draws').symm⟩
  have hnodup : recoveryAlphabet.Nodup := by decide
  funext i j
  have hgroup := congrFun (List.ofFn_injective hgroups) i
  have hchar := congrFun (List.ofFn_injective hgroup) j
  exact hnodup.get_inj_iff.mp hchar

end Generated

section Deseret

/-- The upper case of the letters of ASCII and of the Deseret alphabet, whose lower case letters
are the pairs of 0xD801 with 0xDC28 to 0xDC4F. -/
def deseretUpper (c : Char) : List Char :=
  if c.toNat < 0x80 then [c.toUpper]
  else if 0x10428 ≤ c.toNat ∧ c.toNat ≤ 0x1044F then [Char.ofNat (c.toNat - 0x28)]
  else [c]

theorem deseretUpper_cases (c : Char) :
    (c.toNat < 0x80 ∧ deseretUpper c = [c.toUpper]) ∨
      (0x10428 ≤ c.toNat ∧ c.toNat ≤ 0x1044F ∧ deseretUpper c = [Char.ofNat (c.toNat - 0x28)] ∧
        (Char.ofNat (c.toNat - 0x28)).toNat = c.toNat - 0x28) ∨
      deseretUpper c = [c] := by
  unfold deseretUpper
  split
  · next hascii => exact Or.inl ⟨hascii, rfl⟩
  · split
    · next hletter =>
      exact Or.inr (Or.inl ⟨hletter.1, hletter.2, rfl, toNat_ofNat (by omega)⟩)
    · exact Or.inr (Or.inr rfl)

/-- What the upper case of ASCII keeps. -/
theorem toUpper_ascii {c : Char} (hc : c.toNat < 0x80) :
    c.toUpper.toUpper = c.toUpper ∧ isCodeSeparator c.toUpper = isCodeSeparator c := by
  have hall : ∀ n < 0x80, (Char.ofNat n).toUpper.toUpper = (Char.ofNat n).toUpper ∧
      isCodeSeparator (Char.ofNat n).toUpper = isCodeSeparator (Char.ofNat n) := by decide
  have hthis := hall c.toNat hc
  rwa [Char.ofNat_toNat] at hthis

theorem deseretUpper_fixed (c d : Char) (hd : d ∈ deseretUpper c) : deseretUpper d = [d] := by
  rcases deseretUpper_cases c with ⟨hascii, hupper⟩ | ⟨hge, hle, hupper, hnat⟩ | hupper
  · rw [hupper, List.mem_singleton] at hd
    rw [hd, deseretUpper, if_pos (toNat_toUpper_lt hascii), (toUpper_ascii hascii).1]
  · rw [hupper, List.mem_singleton] at hd
    rw [hd, deseretUpper, hnat, if_neg (by omega), if_neg (by omega)]
  · rw [hupper, List.mem_singleton] at hd
    rw [hd, hupper]

theorem deseretUpper_ne_nil (c : Char) : deseretUpper c ≠ [] := by
  rcases deseretUpper_cases c with ⟨_, hupper⟩ | ⟨_, _, hupper, _⟩ | hupper
  · rw [hupper]
    exact List.cons_ne_nil _ _
  · rw [hupper]
    exact List.cons_ne_nil _ _
  · rw [hupper]
    exact List.cons_ne_nil _ _

theorem isCodeSeparator_deseretUpper (c d : Char) (hd : d ∈ deseretUpper c) :
    isCodeSeparator d = isCodeSeparator c := by
  have hlarge : ∀ c : Char, 0x10000 ≤ c.toNat → isCodeSeparator c = false := fun c hc => by
    by_contra hseparator
    have hsmall := toNat_of_isCodeSeparator (Bool.not_eq_false _ ▸ hseparator)
    omega
  rcases deseretUpper_cases c with ⟨hascii, hupper⟩ | ⟨hge, hle, hupper, hnat⟩ | hupper
  · rw [hupper, List.mem_singleton] at hd
    rw [hd, (toUpper_ascii hascii).2]
  · rw [hupper, List.mem_singleton] at hd
    rw [hd, hlarge _ (by omega), hlarge c (by omega)]
  · rw [hupper, List.mem_singleton] at hd
    rw [hd]

theorem deseretUpper_ascii (c : Char) (hc : c.toNat < 0x80) : deseretUpper c = [c.toUpper] :=
  if_pos hc

/-- The cases of these letters. -/
def deseretCase : UpperCase where
  upper := deseretUpper
  ascii := deseretUpper_ascii
  fixed := deseretUpper_fixed
  ne_nil := deseretUpper_ne_nil
  separator := isCodeSeparator_deseretUpper

/-- The halves of a lower case letter with a dash between them: they are brought together after
the upper case was taken. -/
theorem not_normalise_idempotent :
    ¬ ∀ (cases : UpperCase) (code : Units),
      normaliseRecoveryCode cases (normaliseRecoveryCode cases code) =
        normaliseRecoveryCode cases code := by
  intro hall
  exact absurd (hall deseretCase [0xD801, 0x2D, 0xDC28]) (by decide)

end Deseret

end SilenceWatch
