import SilenceWatch.Library.Json

/-!
# Code points

A string of UTF-16 code units as its code points: characters, and halves of surrogate pairs
that stand alone. Code points are written as units and read back, except that a high half
directly before a low one has become a pair.
-/

namespace Json

/-- Half of a surrogate pair. -/
def IsSurrogate (u : UInt16) : Prop := IsHigh u ∨ IsLow u
  deriving Decidable

/-- A character, or half of a pair that stands alone. -/
inductive CodePoint where
  | char (c : Char)
  | lone (u : UInt16) (h : IsSurrogate u)
  deriving DecidableEq

/-- The character of a pair. -/
def pairChar (u v : UInt16) : Char :=
  Char.ofNat (0x10000 + (u.toNat - 0xD800) * 0x400 + (v.toNat - 0xDC00))

namespace CodePoint

/-- A unit that is not part of a pair. -/
def ofUnit (u : UInt16) : CodePoint :=
  if h : IsSurrogate u then .lone u h else .char (Char.ofNat u.toNat)

/-- Its code units. -/
def units : CodePoint → Units
  | .char c => unitsOf c
  | .lone u _ => [u]

/-- The character that two code points become when they are written one after the other. -/
def joined? : CodePoint → CodePoint → Option Char
  | .lone u _, .lone v _ => if IsHigh u ∧ IsLow v then some (pairChar u v) else none
  | _, _ => none

end CodePoint

/-- The code points of a string. -/
def codePoints : Units → List CodePoint
  | [] => []
  | [u] => [.ofUnit u]
  | u :: v :: rest =>
    if IsHigh u ∧ IsLow v then .char (pairChar u v) :: codePoints rest
    else .ofUnit u :: codePoints (v :: rest)

/-- The string of code points. -/
def encode (points : List CodePoint) : Units := points.flatMap CodePoint.units

/-- Code points with the pairs that their string has. -/
def joinPairs : List CodePoint → List CodePoint
  | [] => []
  | [p] => [p]
  | p :: q :: rest =>
    match p.joined? q with
    | some c => .char c :: joinPairs rest
    | none => p :: joinPairs (q :: rest)

/-- The characters of these pairs. -/
def newChars : List CodePoint → List Char
  | [] => []
  | [_] => []
  | p :: q :: rest =>
    match p.joined? q with
    | some c => c :: newChars rest
    | none => newChars (q :: rest)

variable {u v : UInt16} {c : Char} {p q : CodePoint} {points more : List CodePoint} {text : Units}

@[simp] theorem encode_nil : encode [] = [] := rfl

@[simp] theorem encode_cons (p : CodePoint) (points : List CodePoint) :
    encode (p :: points) = p.units ++ encode points := rfl

@[simp] theorem encode_append (points more : List CodePoint) :
    encode (points ++ more) = encode points ++ encode more := List.flatMap_append

theorem unitsOf_pairChar (hu : IsHigh u) (hv : IsLow v) : unitsOf (pairChar u v) = [u, v] :=
  (unitsOf_pair hu hv).2

/-- A high half is no low half. -/
theorem IsHigh.not_isLow (hu : IsHigh u) : ¬ IsLow u := by
  unfold IsHigh at hu
  unfold IsLow
  omega

/-- A character is one unit that is no half of a pair, or a pair. -/
theorem unitsOf_cases (c : Char) :
    (∃ u, unitsOf c = [u] ∧ ¬ IsSurrogate u ∧ Char.ofNat u.toNat = c) ∨
      ∃ u v, unitsOf c = [u, v] ∧ IsHigh u ∧ IsLow v ∧ pairChar u v = c := by
  have hvalid := c.valid
  have hrange : c.toNat < 0xD800 ∨ 0xDFFF < c.toNat ∧ c.toNat < 0x110000 := hvalid
  by_cases hsmall : c.toNat < 0x10000
  · left
    have hnat : (UInt16.ofNat c.toNat).toNat = c.toNat := by
      rw [UInt16.toNat_ofNat']
      exact Nat.mod_eq_of_lt hsmall
    refine ⟨UInt16.ofNat c.toNat, by rw [unitsOf, if_pos hsmall], ?_, ?_⟩
    · unfold IsSurrogate IsHigh IsLow
      rw [hnat]
      omega
    · rw [hnat, Char.ofNat_toNat]
  · right
    have hhigh : (UInt16.ofNat (0xD800 + (c.toNat - 0x10000) / 0x400)).toNat =
        0xD800 + (c.toNat - 0x10000) / 0x400 := by
      rw [UInt16.toNat_ofNat']
      exact Nat.mod_eq_of_lt (by omega)
    have hlow : (UInt16.ofNat (0xDC00 + (c.toNat - 0x10000) % 0x400)).toNat =
        0xDC00 + (c.toNat - 0x10000) % 0x400 := by
      rw [UInt16.toNat_ofNat']
      exact Nat.mod_eq_of_lt (by omega)
    refine ⟨_, _, by rw [unitsOf, if_neg hsmall], ?_, ?_, ?_⟩
    · unfold IsHigh
      rw [hhigh]
      omega
    · unfold IsLow
      rw [hlow]
      omega
    · unfold pairChar
      rw [hhigh, hlow]
      have hback : 0x10000 + (0xD800 + (c.toNat - 0x10000) / 0x400 - 0xD800) * 0x400 +
          (0xDC00 + (c.toNat - 0x10000) % 0x400 - 0xDC00) = c.toNat := by omega
      rw [hback, Char.ofNat_toNat]

/-- Only a high half and a low one become a character. -/
theorem joined?_eq_some (h : p.joined? q = some c) :
    ∃ u hu v hv, p = .lone u hu ∧ q = .lone v hv ∧ IsHigh u ∧ IsLow v ∧ c = pairChar u v := by
  unfold CodePoint.joined? at h
  split at h
  · next u hu v hv =>
    split at h
    · next hpair => exact ⟨u, hu, v, hv, rfl, rfl, hpair.1, hpair.2, (Option.some.inj h).symm⟩
    · cases h
  · cases h

theorem joined?_lone {hu : IsSurrogate u} {hv : IsSurrogate v} (hhigh : IsHigh u) (hlow : IsLow v) :
    (CodePoint.lone u hu).joined? (.lone v hv) = some (pairChar u v) :=
  if_pos ⟨hhigh, hlow⟩

theorem units_ofUnit (u : UInt16) : (CodePoint.ofUnit u).units = [u] := by
  unfold CodePoint.ofUnit
  split
  · rfl
  · next h =>
    unfold IsSurrogate at h
    exact (unitsOf_ofNat (fun hu => h (Or.inl hu)) fun hu => h (Or.inr hu)).2

theorem ofUnit_of_lone (h : IsSurrogate u) : CodePoint.ofUnit u = .lone u h := by
  unfold CodePoint.ofUnit
  rw [dif_pos h]

theorem ofUnit_of_char (h : ¬ IsSurrogate u) (hc : Char.ofNat u.toNat = c) :
    CodePoint.ofUnit u = .char c := by
  unfold CodePoint.ofUnit
  rw [dif_neg h, hc]

/-- A string is written back. -/
theorem encode_codePoints (text : Units) : encode (codePoints text) = text := by
  induction text using codePoints.induct with
  | case1 => rfl
  | case2 u =>
    rw [codePoints, encode_cons, units_ofUnit]
    rfl
  | case3 u v rest hpair ih =>
    rw [codePoints, if_pos hpair, encode_cons, ih]
    change unitsOf (pairChar u v) ++ rest = _
    rw [unitsOf_pairChar hpair.1 hpair.2]
    rfl
  | case4 u v rest hpair ih =>
    rw [codePoints, if_neg hpair, encode_cons, units_ofUnit, ih]
    rfl

/-- A unit that forms no pair with the next one is read alone. -/
theorem codePoints_cons (h : ∀ v ∈ text.head?, ¬ (IsHigh u ∧ IsLow v)) :
    codePoints (u :: text) = .ofUnit u :: codePoints text := by
  cases text with
  | nil => rfl
  | cons v rest => rw [codePoints, if_neg (h v rfl)]

theorem codePoints_pair (hu : IsHigh u) (hv : IsLow v) (rest : Units) :
    codePoints (u :: v :: rest) = .char (pairChar u v) :: codePoints rest := by
  rw [codePoints, if_pos ⟨hu, hv⟩]

/-- Only a low half that stands alone begins with a low half. -/
theorem isLow_head {rest : List CodePoint} (hv : ∃ v ∈ (encode (q :: rest)).head?, IsLow v) :
    ∃ v h, q = .lone v h ∧ IsLow v := by
  obtain ⟨v, hmem, hv⟩ := hv
  cases q with
  | lone w h =>
    cases hmem
    exact ⟨v, h, rfl, hv⟩
  | char c =>
    rw [encode_cons, CodePoint.units] at hmem
    rcases unitsOf_cases c with ⟨w, hunits, hw, _⟩ | ⟨w, w', hunits, hw, _, _⟩
    · rw [hunits] at hmem
      cases hmem
      exact absurd (Or.inr hv) hw
    · rw [hunits] at hmem
      cases hmem
      exact absurd hv hw.not_isLow

/-- A code point is read back where it forms no pair with what follows. -/
theorem codePoints_units_append
    (h : ∀ v ∈ text.head?, ∀ u hu, p = .lone u hu → IsHigh u → ¬ IsLow v) :
    codePoints (p.units ++ text) = p :: codePoints text := by
  cases p with
  | lone u hu =>
    change codePoints (u :: text) = _
    rw [codePoints_cons fun v hv hpair => h v hv u hu rfl hpair.1 hpair.2, ofUnit_of_lone hu]
  | char c =>
    rw [CodePoint.units]
    rcases unitsOf_cases c with ⟨u, hunits, hu, hc⟩ | ⟨u, v, hunits, hu, hv, hc⟩
    · rw [hunits, List.singleton_append, codePoints_cons fun v _ hpair => hu (Or.inl hpair.1),
        ofUnit_of_char hu hc]
    · rw [hunits]
      change codePoints (u :: v :: text) = _
      rw [codePoints_pair hu hv, hc]

/-- **Code points are read back with their new pairs.** -/
theorem codePoints_encode (points : List CodePoint) :
    codePoints (encode points) = joinPairs points := by
  induction points using joinPairs.induct with
  | case1 => rfl
  | case2 p =>
    have hend : codePoints (p.units ++ []) = p :: codePoints [] :=
      codePoints_units_append fun v hv => absurd hv (Option.not_mem_none v)
    exact hend
  | case3 p q rest c hjoined ih =>
    rw [joinPairs, hjoined]
    dsimp only
    rw [← ih]
    obtain ⟨u, hu, v, hv, rfl, rfl, hhigh, hlow, hc⟩ := joined?_eq_some hjoined
    rw [hc]
    exact codePoints_pair hhigh hlow _
  | case4 p q rest hjoined ih =>
    rw [joinPairs, hjoined]
    dsimp only
    rw [← ih, encode_cons]
    refine codePoints_units_append fun v hv u hu hp hhigh hlow => ?_
    obtain ⟨w, hw, rfl, hwlow⟩ := isLow_head ⟨v, hv, hlow⟩
    subst hp
    rw [joined?_lone hhigh hwlow] at hjoined
    cases hjoined

/-- The new pairs do not change the string. -/
theorem encode_joinPairs (points : List CodePoint) : encode (joinPairs points) = encode points := by
  rw [← codePoints_encode, encode_codePoints]

/-- A code point of the string is one that was written, or a new pair. -/
theorem mem_joinPairs (hp : p ∈ joinPairs points) :
    p ∈ points ∨ ∃ c ∈ newChars points, p = .char c := by
  induction points using joinPairs.induct with
  | case1 => exact Or.inl hp
  | case2 q => exact Or.inl hp
  | case3 q q' rest c hjoined ih =>
    rw [joinPairs, hjoined] at hp
    rw [newChars, hjoined]
    rcases List.mem_cons.mp hp with rfl | hrest
    · exact Or.inr ⟨c, List.mem_cons_self, rfl⟩
    · rcases ih hrest with hold | ⟨c', hc', rfl⟩
      · exact Or.inl (List.mem_cons_of_mem _ (List.mem_cons_of_mem _ hold))
      · exact Or.inr ⟨c', List.mem_cons_of_mem _ hc', rfl⟩
  | case4 q q' rest hjoined ih =>
    rw [joinPairs, hjoined] at hp
    rw [newChars, hjoined]
    rcases List.mem_cons.mp hp with rfl | hrest
    · exact Or.inl List.mem_cons_self
    · rcases ih hrest with hold | hnew
      · exact Or.inl (List.mem_cons_of_mem _ hold)
      · exact Or.inr hnew

/-- A new pair is a code point of the string, beyond the characters of one unit. -/
theorem mem_newChars (hc : c ∈ newChars points) :
    .char c ∈ joinPairs points ∧ ∃ u v, unitsOf c = [u, v] ∧ IsHigh u := by
  induction points using joinPairs.induct with
  | case1 => cases hc
  | case2 q => cases hc
  | case3 q q' rest c' hjoined ih =>
    rw [newChars, hjoined] at hc
    rw [joinPairs, hjoined]
    rcases List.mem_cons.mp hc with rfl | hrest
    · refine ⟨List.mem_cons_self, ?_⟩
      obtain ⟨u, _, v, _, _, _, hhigh, hlow, hpair⟩ := joined?_eq_some hjoined
      rw [hpair]
      exact ⟨u, v, unitsOf_pairChar hhigh hlow, hhigh⟩
    · obtain ⟨hmem, hunits⟩ := ih hrest
      exact ⟨List.mem_cons_of_mem _ hmem, hunits⟩
  | case4 q q' rest hjoined ih =>
    rw [newChars, hjoined] at hc
    rw [joinPairs, hjoined]
    obtain ⟨hmem, hunits⟩ := ih hc
    exact ⟨List.mem_cons_of_mem _ hmem, hunits⟩

section Mapping

/-- A code point of one character, with its unit mapped. -/
def CodePoint.mapUnit (f : UInt16 → UInt16) : CodePoint → CodePoint
  | .lone u h => .lone u h
  | .char c =>
    match unitsOf c with
    | [u] => .ofUnit (f u)
    | _ => .char c

theorem mapUnit_single {f : UInt16 → UInt16} (h : unitsOf c = [u]) :
    CodePoint.mapUnit f (.char c) = .ofUnit (f u) := by
  rw [CodePoint.mapUnit, h]

theorem mapUnit_pair {f : UInt16 → UInt16} (h : unitsOf c = [u, v]) :
    CodePoint.mapUnit f (.char c) = .char c := by
  rw [CodePoint.mapUnit, h]

/-- Units that a filter drops are characters of their own where it keeps every half. -/
theorem filter_encode {keep : UInt16 → Bool} (hkeep : ∀ u, IsSurrogate u → keep u = true)
    (points : List CodePoint) :
    (encode points).filter keep = encode (points.filter fun p => p.units.all keep) := by
  induction points with
  | nil => rfl
  | cons p points ih =>
    have hunits : p.units.filter keep = if p.units.all keep = true then p.units else [] := by
      cases p with
      | lone u h => simp [CodePoint.units, hkeep u h]
      | char c =>
        rw [CodePoint.units]
        rcases unitsOf_cases c with ⟨u, hunits, _⟩ | ⟨u, v, hunits, hu, hv, _⟩
        · rw [hunits]
          cases hu : keep u with
          | true => simp [hu]
          | false => simp [hu]
        · rw [hunits]
          simp [hkeep u (Or.inl hu), hkeep v (Or.inr hv)]
    rw [encode_cons, List.filter_append, ih, List.filter_cons, hunits]
    split
    · rfl
    · rfl

/-- Units are mapped a code point at a time where halves stay and nothing becomes one. -/
theorem map_encode {f : UInt16 → UInt16} (hf : ∀ u, IsSurrogate u → f u = u)
    (points : List CodePoint) :
    (encode points).map f = encode (points.map (CodePoint.mapUnit f)) := by
  induction points with
  | nil => rfl
  | cons p points ih =>
    have hunits : p.units.map f = (p.mapUnit f).units := by
      cases p with
      | lone u h => exact congrArg ([·]) (hf u h)
      | char c =>
        rcases unitsOf_cases c with ⟨u, hunits, _⟩ | ⟨u, v, hunits, hu, hv, _⟩
        · rw [mapUnit_single hunits, CodePoint.units, hunits, units_ofUnit]
          rfl
        · rw [mapUnit_pair hunits, CodePoint.units, hunits, List.map_cons, List.map_singleton,
            hf u (Or.inl hu), hf v (Or.inr hv)]
    rw [encode_cons, List.map_append, ih, List.map_cons, encode_cons, hunits]

/-- A text of characters has them as its code points. -/
theorem codePoints_units (text : List Char) : codePoints (units text) = text.map .char := by
  have hencode : ∀ text : List Char, encode (text.map .char) = units text := fun text => by
    rw [encode, List.flatMap_map]
    rfl
  have hjoin : ∀ text : List Char, joinPairs (text.map .char) = text.map .char := fun text => by
    induction text with
    | nil => rfl
    | cons c text ih =>
      cases text with
      | nil => rfl
      | cons c' text => exact congrArg (CodePoint.char c :: ·) ih
  rw [← hencode, codePoints_encode, hjoin]

/-- Texts with the same code units are the same. -/
theorem units_injective : Function.Injective units := by
  intro text text' h
  have hpoints := congrArg codePoints h
  rw [codePoints_units, codePoints_units] at hpoints
  exact (List.map_inj_right fun _ _ => CodePoint.char.inj).mp hpoints

/-- Code points that come of each other one by one have the same new pairs, where halves that
stand alone stay and characters become characters. -/
theorem newChars_flatMap {f : CodePoint → List CodePoint}
    (hlone : ∀ u h, f (.lone u h) = [.lone u h])
    (hchar : ∀ c, f (.char c) ≠ [] ∧ ∀ q ∈ f (.char c), ∃ c', q = .char c')
    (points : List CodePoint) :
    newChars (points.flatMap f) = newChars points := by
  -- A list whose first code point is a character has the new pairs of the rest.
  have hskip : ∀ (qs : List CodePoint), (∀ q ∈ qs, ∃ c, q = .char c) → ∀ rest,
      newChars (qs ++ rest) = newChars rest := by
    intro qs hqs rest
    induction qs with
    | nil => rfl
    | cons q qs ih =>
      obtain ⟨c, rfl⟩ := hqs q List.mem_cons_self
      have hrest := ih fun q hq => hqs q (List.mem_cons_of_mem _ hq)
      cases hsplit : qs ++ rest with
      | nil =>
        rw [hsplit] at hrest
        rw [List.cons_append, hsplit, ← hrest]
        rfl
      | cons q' rest' =>
        rw [hsplit] at hrest
        rw [List.cons_append, hsplit, ← hrest]
        rfl
  induction points using newChars.induct with
  | case1 => rfl
  | case2 p =>
    rw [List.flatMap_cons, List.flatMap_nil, List.append_nil]
    cases p with
    | lone u h => rw [hlone]
    | char c =>
      have hnone := hskip (f (.char c)) (hchar c).2 []
      rw [List.append_nil] at hnone
      rw [hnone]
      rfl
  | case3 p q rest c hjoined ih =>
    obtain ⟨u, hu, v, hv, rfl, rfl, hhigh, hlow, _⟩ := joined?_eq_some hjoined
    rw [List.flatMap_cons, List.flatMap_cons, hlone, hlone, List.singleton_append,
      List.singleton_append, newChars, hjoined, newChars, hjoined]
    exact congrArg (c :: ·) ih
  | case4 p q rest hjoined ih =>
    rw [newChars, hjoined, List.flatMap_cons]
    dsimp only
    rw [← ih]
    cases p with
    | char c => exact hskip _ (hchar c).2 _
    | lone u hu =>
      rw [hlone, List.singleton_append, List.flatMap_cons]
      cases q with
      | lone v hv =>
        rw [hlone, List.singleton_append, newChars, hjoined]
      | char c =>
        cases hfirst : f (.char c) with
        | nil => exact absurd hfirst (hchar c).1
        | cons q' qs =>
          obtain ⟨c', rfl⟩ := (hchar c).2 q' (hfirst ▸ List.mem_cons_self)
          rfl

end Mapping

end Json
