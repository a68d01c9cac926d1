import SilenceWatch.Library.Hex
import SilenceWatch.Schedule.CronSyntax

/-!
# Stripe signatures

The header of a webhook is a list of fields in any order. The last timestamp it carries and all
its signatures decide, with the window of time that the timestamp has to lie in.
-/

namespace SilenceWatch

open Cron Numeral

/-- A digest of 32 bytes. -/
structure Sha256Digest where
  bytes : List UInt8
  length_eq : bytes.length = 32

/-- What `verifyStripeSignature` has read of the header. -/
structure SignatureFields where
  timestamp : Option ℕ
  signatures : List (List Char)

/-- `/^\d{1,12}$/`. -/
def isTimestamp (value : List Char) : Bool :=
  decide (1 ≤ value.length) && decide (value.length ≤ 12) && value.all Char.isDigit

/-- `/^[0-9a-f]{64}$/i`. -/
def isSignature (value : List Char) : Bool :=
  decide (value.length = 64) && value.all fun c => decide (IsDigit 16 c)

/-- One round of the loop over the parts of the header. -/
def readPart (fields : SignatureFields) (part : List Char) : SignatureFields :=
  if '=' ∉ part then fields
  else
    let separator := part.idxOf '='
    let key := strip isSpace (part.take separator)
    let value := strip isSpace (part.drop (separator + 1))
    if key = ['t'] ∧ isTimestamp value then
      { fields with timestamp := some (Numeral.value 10 value) }
    else if key = ['v', '1'] ∧ isSignature value then
      { fields with signatures := fields.signatures ++ [value.map Char.toLower] }
    else fields

/-- What is signed. -/
def signedPayload (timestamp : ℕ) (payload : List UInt8) : List UInt8 :=
  (Nat.toDigits 10 timestamp ++ ['.']).flatMap String.utf8EncodeChar ++ payload

section Verify

variable (createHmac : String → List UInt8 → Sha256Digest)

/-- `verifyStripeSignature`. -/
def verifyStripeSignature (payload : List UInt8) (header : Option (List Char)) (secret : String)
    (nowSeconds toleranceSeconds : ℤ) : Bool :=
  match header with
  | none => false
  | some header =>
    if header = [] then false
    else
      let fields := (header.splitOn ',').foldl readPart ⟨none, []⟩
      match fields.timestamp with
      | none => false
      | some timestamp =>
        if fields.signatures = [] then false
        else if toleranceSeconds < (nowSeconds - timestamp).natAbs then false
        else
          let expected := createHmac secret (signedPayload timestamp payload)
          fields.signatures.any fun signature =>
            let candidate := Hex.decode signature
            decide (candidate.length = expected.bytes.length) && candidate == expected.bytes

/-- `signStripePayload`. -/
def signStripePayload (payload : List UInt8) (secret : String) (atSeconds : ℕ) : List Char :=
  "t=".toList ++ Nat.toDigits 10 atSeconds ++ ",v1=".toList ++
    Hex.encode (createHmac secret (signedPayload atSeconds payload)).bytes

end Verify

/-- White space. -/
structure Spaces where
  text : List Char
  isSpace_of_mem : ∀ c ∈ text, isSpace c = true

/-- A field of a header. -/
inductive HeaderField where
  | timestamp (n : ℕ)
  | signature (value : List Char) (hvalue : ',' ∉ value)
  /-- One that is neither, by its key. -/
  | unknown (key value : List Char) (hkey : ',' ∉ key ∧ '=' ∉ key)
      (hunknown : strip isSpace key ≠ ['t'] ∧ strip isSpace key ≠ ['v', '1']) (hvalue : ',' ∉ value)
  /-- One without a key. -/
  | bare (text : List Char) (htext : ',' ∉ text ∧ '=' ∉ text)

namespace HeaderField

/-- A field and the white space around its key and its value. -/
structure Spaced where
  field : HeaderField
  beforeKey : Spaces
  afterKey : Spaces
  beforeValue : Spaces
  afterValue : Spaces

/-- The timestamp of a field. -/
def Spaced.timestamp? (part : Spaced) : Option ℕ :=
  match part.field with
  | .timestamp n => some n
  | _ => none

/-- The signature of a field. -/
def Spaced.signature? (part : Spaced) : Option (List Char) :=
  match part.field with
  | .signature value _ => some value
  | _ => none

/-- The text of a field. -/
def Spaced.text (part : Spaced) : List Char :=
  let spell := fun key value : List Char =>
    part.beforeKey.text ++ key ++ part.afterKey.text ++ ['='] ++
      (part.beforeValue.text ++ value ++ part.afterValue.text)
  match part.field with
  | .timestamp n => spell ['t'] (Nat.toDigits 10 n)
  | .signature value _ => spell ['v', '1'] value
  | .unknown key value _ _ _ => spell key value
  | .bare text _ => part.beforeKey.text ++ text ++ part.afterKey.text

end HeaderField

/-- The header that consists of some fields. -/
def headerText (parts : List HeaderField.Spaced) : List Char :=
  [','].intercalate (parts.map HeaderField.Spaced.text)

/-- A header has a part with a key and a value. -/
def Carries (header key value : List Char) : Prop :=
  ∃ part ∈ header.splitOn ',', ∃ before after, part = before ++ '=' :: after ∧ '=' ∉ before ∧
    strip isSpace before = key ∧ strip isSpace after = value

/-- A header carries a number as its timestamp. -/
def CarriesTimestamp (header : List Char) (n : ℕ) : Prop :=
  ∃ value, Carries header ['t'] value ∧ value ≠ [] ∧ (∀ c ∈ value, c.isDigit = true) ∧
    Numeral.value 10 value = n

section Strip

variable {isSeparator : Char → Bool} {text before after : List Char}

/-- Separators at the ends do not matter. -/
theorem strip_append (hbefore : ∀ c ∈ before, isSeparator c = true)
    (hafter : ∀ c ∈ after, isSeparator c = true) :
    strip isSeparator (before ++ text ++ after) = strip isSeparator text := by
  have hend : ∀ text : List Char,
      (text ++ after).rdropWhile isSeparator = text.rdropWhile isSeparator := by
    intro text
    unfold List.rdropWhile
    rw [List.reverse_append, List.dropWhile_append_of_pos]
    intro c hc
    exact hafter c (List.mem_reverse.mp hc)
  unfold strip
  rw [List.append_assoc, List.dropWhile_append_of_pos hbefore, List.dropWhile_append]
  split
  · next hempty =>
    rw [List.isEmpty_iff.mp hempty, List.dropWhile_eq_nil_iff.mpr hafter]
  · exact hend _

theorem isSpace_of_isDigit {c : Char} (h : IsDigit 16 c) : isSpace c = false := by
  have hall : "0123456789abcdefABCDEF".toList.all (fun c => !isSpace c) = true := by decide
  simpa using List.all_eq_true.mp hall c (Hex.mem_of_isDigit h)

end Strip

section Read

variable {fields : SignatureFields} {before after : List Char}

/-- A part with a key and a value. -/
theorem readPart_append (hbefore : '=' ∉ before) :
    readPart fields (before ++ '=' :: after) =
      if strip isSpace before = ['t'] ∧ isTimestamp (strip isSpace after) then
        { fields with timestamp := some (Numeral.value 10 (strip isSpace after)) }
      else if strip isSpace before = ['v', '1'] ∧ isSignature (strip isSpace after) then
        { fields with
          signatures := fields.signatures ++ [(strip isSpace after).map Char.toLower] }
      else fields := by
  have hseparator : (before ++ '=' :: after).idxOf '=' = before.length := by
    rw [List.idxOf_append_of_notMem hbefore, List.idxOf_cons_self, Nat.add_zero]
  have hdrop : (before ++ '=' :: after).drop (before.length + 1) = after := by
    rw [← List.drop_drop, List.drop_left, List.drop_one, List.tail_cons]
  unfold readPart
  rw [if_neg (by simp), hseparator]
  dsimp only
  rw [List.take_left, hdrop]

/-- What a header carries of what was read. -/
structure SignatureFields.ReadFrom (fields : SignatureFields) (header : List Char) : Prop where
  timestamp : ∀ t, fields.timestamp = some t → CarriesTimestamp header t
  signatures : ∀ signature ∈ fields.signatures, ∃ value, Carries header ['v', '1'] value ∧
    (∀ c ∈ value, IsDigit 16 c) ∧ value.length = 64 ∧ signature = value.map Char.toLower

/-- One round. -/
theorem SignatureFields.ReadFrom.readPart {header part : List Char} (h : fields.ReadFrom header)
    (hpart : part ∈ header.splitOn ',') : (readPart fields part).ReadFrom header := by
  by_cases hkey : '=' ∈ part
  · obtain ⟨before, after, rfl, hbefore⟩ := List.eq_append_cons_of_mem hkey
    have hcarries : Carries header (strip isSpace before) (strip isSpace after) :=
      ⟨_, hpart, before, after, rfl, hbefore, rfl, rfl⟩
    rw [readPart_append hbefore]
    split_ifs with ht hv
    · obtain ⟨ht, hvalue⟩ := ht
      simp only [isTimestamp, Bool.and_eq_true, decide_eq_true_eq, List.all_eq_true] at hvalue
      rw [ht] at hcarries
      refine ⟨fun t hread => ?_, h.signatures⟩
      refine ⟨_, hcarries, ?_, hvalue.2, Option.some.inj hread⟩
      exact List.ne_nil_of_length_pos hvalue.1.1
    · obtain ⟨hv, hvalue⟩ := hv
      simp only [isSignature, Bool.and_eq_true, decide_eq_true_eq, List.all_eq_true] at hvalue
      rw [hv] at hcarries
      refine ⟨h.timestamp, fun signature hread => ?_⟩
      rcases List.mem_append.mp hread with hold | hnew
      · exact h.signatures signature hold
      · exact ⟨_, hcarries, hvalue.2, hvalue.1, List.mem_singleton.mp hnew⟩
    · exact h
  · unfold SilenceWatch.readPart
    rwa [if_pos hkey]

/-- The loop. -/
theorem SignatureFields.ReadFrom.foldl {header : List Char} {parts : List (List Char)}
    (h : fields.ReadFrom header) (hparts : ∀ part ∈ parts, part ∈ header.splitOn ',') :
    (parts.foldl SilenceWatch.readPart fields).ReadFrom header := by
  induction parts generalizing fields with
  | nil => exact h
  | cons part parts ih =>
    obtain ⟨hpart, hrest⟩ := List.forall_mem_cons.mp hparts
    exact ih (h.readPart hpart) hrest

theorem readFrom_header (header : List Char) :
    ((header.splitOn ',').foldl readPart ⟨none, []⟩).ReadFrom header := by
  refine SignatureFields.ReadFrom.foldl ⟨fun t ht => ?_, fun s hs => ?_⟩ fun part hpart => hpart
  · cases ht
  · cases hs

end Read

section Accept

open HeaderField

variable {fields : SignatureFields} {parts : List Spaced} {n : ℕ}

theorem isSpace_of_mem_toDigits {c : Char} (hc : c ∈ Nat.toDigits 10 n) :
    c.isDigit = true ∧ isSpace c = false := by
  have hdigit := Nat.isDigit_of_mem_toDigits (by omega) (by omega) hc
  obtain ⟨hlt, hchar⟩ := isDigit_of_isDigit hdigit
  exact ⟨hdigit, isSpace_of_isDigit ⟨by omega, hchar⟩⟩

theorem isTimestamp_toDigits (hn : n < 10 ^ 12) : isTimestamp (Nat.toDigits 10 n) = true := by
  have hlength : (Nat.toDigits 10 n).length ≤ 12 :=
    (Nat.length_toDigits_le_iff (by omega) (by omega)).mpr hn
  have hpos := Nat.length_toDigits_pos (b := 10) (n := n)
  simp only [isTimestamp, Bool.and_eq_true, decide_eq_true_eq, List.all_eq_true]
  exact ⟨⟨hpos, hlength⟩, fun c hc => (isSpace_of_mem_toDigits hc).1⟩

/-- A signature that is a spelling of a digest. -/
theorem isSignature_of_map_toLower {value : List Char} {digest : Sha256Digest}
    (h : value.map Char.toLower = Hex.encode digest.bytes) :
    isSignature value = true ∧ strip isSpace value = value := by
  have hdigits := Hex.isDigit_of_map_toLower h
  have hlength := congrArg List.length h
  rw [List.length_map, Hex.length_encode, digest.length_eq] at hlength
  simp only [isSignature, Bool.and_eq_true, decide_eq_true_eq, List.all_eq_true]
  exact ⟨⟨hlength, hdigits⟩, strip_of_forall fun c hc => isSpace_of_isDigit (hdigits c hc)⟩

/-- Neither a comma nor the sign between a key and its value is white space. -/
theorem Spaces.notMem (spaces : Spaces) : ',' ∉ spaces.text ∧ '=' ∉ spaces.text :=
  ⟨fun hmem => absurd (spaces.isSpace_of_mem _ hmem) (by decide),
    fun hmem => absurd (spaces.isSpace_of_mem _ hmem) (by decide)⟩

/-- The key and the value of a field, whatever the white space around them. -/
theorem readPart_spaced {key value : List Char} (before after before' after' : Spaces)
    (hkey : '=' ∉ key) :
    readPart fields (before.text ++ key ++ after.text ++ ['='] ++
        (before'.text ++ value ++ after'.text)) =
      if strip isSpace key = ['t'] ∧ isTimestamp (strip isSpace value) then
        { fields with timestamp := some (Numeral.value 10 (strip isSpace value)) }
      else if strip isSpace key = ['v', '1'] ∧ isSignature (strip isSpace value) then
        { fields with
          signatures := fields.signatures ++ [(strip isSpace value).map Char.toLower] }
      else fields := by
  have hbefore : '=' ∉ before.text ++ key ++ after.text := by
    simp only [List.mem_append, not_or]
    exact ⟨⟨before.notMem.2, hkey⟩, after.notMem.2⟩
  rw [List.append_assoc _ ['='], List.singleton_append, readPart_append hbefore,
    strip_append before.isSpace_of_mem after.isSpace_of_mem,
    strip_append before'.isSpace_of_mem after'.isSpace_of_mem]

/-- What the loop makes of a field. -/
theorem readPart_text (part : Spaced) :
    readPart fields part.text =
      match part.field with
      | .timestamp n =>
        if n < 10 ^ 12 then { fields with timestamp := some n } else fields
      | .signature value _ =>
        if isSignature (strip isSpace value) then
          { fields with
            signatures := fields.signatures ++ [(strip isSpace value).map Char.toLower] }
        else fields
      | _ => fields := by
  unfold Spaced.text
  dsimp only
  cases part.field with
  | timestamp n =>
    dsimp only
    have hstrip : strip isSpace (Nat.toDigits 10 n) = Nat.toDigits 10 n :=
      strip_of_forall fun c hc => (isSpace_of_mem_toDigits hc).2
    have hvalue : Numeral.value 10 (Nat.toDigits 10 n) = n :=
      value_toDigits (by omega) (by omega) n
    have hkey : strip isSpace ['t'] = ['t'] := by decide
    rw [readPart_spaced _ _ _ _ (by decide), hstrip, hvalue, hkey]
    by_cases hn : n < 10 ^ 12
    · rw [if_pos hn, if_pos ⟨rfl, isTimestamp_toDigits hn⟩]
    · have hlong : isTimestamp (Nat.toDigits 10 n) = false := by
        have hlength : ¬ (Nat.toDigits 10 n).length ≤ 12 := fun hle =>
          hn ((Nat.length_toDigits_le_iff (by omega) (by omega)).mp hle)
        simp [isTimestamp, hlength]
      rw [if_neg hn, if_neg (by simp [hlong]), if_neg (by simp)]
  | signature value hvalue =>
    dsimp only
    have hkey : strip isSpace ['v', '1'] = ['v', '1'] := by decide
    rw [readPart_spaced _ _ _ _ (by decide), hkey, if_neg (by simp)]
    simp only [true_and]
  | unknown key value hkey hunknown hvalue =>
    dsimp only
    rw [readPart_spaced _ _ _ _ hkey.2, if_neg fun h => hunknown.1 h.1,
      if_neg fun h => hunknown.2 h.1]
  | bare text htext =>
    dsimp only
    unfold readPart
    rw [if_pos]
    simp only [List.mem_append, not_or]
    exact ⟨⟨part.beforeKey.notMem.2, htext.2⟩, part.afterKey.notMem.2⟩

/-- The fields that are read of a part. -/
theorem readPart_spec (part : Spaced) :
    (part.timestamp? = none → (readPart fields part.text).timestamp = fields.timestamp) ∧
    (∀ n, part.timestamp? = some n → n < 10 ^ 12 →
      (readPart fields part.text).timestamp = some n) ∧
    fields.signatures ⊆ (readPart fields part.text).signatures ∧
    (∀ value, part.signature? = some value → isSignature (strip isSpace value) = true →
      (strip isSpace value).map Char.toLower ∈ (readPart fields part.text).signatures) := by
  rw [readPart_text]
  unfold Spaced.timestamp? Spaced.signature?
  cases part.field with
  | timestamp m =>
    dsimp only
    refine ⟨fun h => ?_, fun n h hn => ?_, ?_, fun value h => ?_⟩
    · cases h
    · cases h
      rw [if_pos hn]
    · split_ifs
      · exact List.Subset.refl _
      · exact List.Subset.refl _
    · cases h
  | signature text htext =>
    dsimp only
    refine ⟨fun _ => ?_, fun n h => ?_, ?_, fun value h hvalue => ?_⟩
    · split_ifs
      · rfl
      · rfl
    · cases h
    · split_ifs
      · exact List.subset_append_left _ _
      · exact List.Subset.refl _
    · cases h
      rw [if_pos hvalue]
      exact List.mem_append_right _ (List.mem_singleton_self _)
  | unknown key value hkey hunknown hvalue =>
    exact ⟨fun _ => rfl, fun n h => (by cases h), List.Subset.refl _, fun value h => (by cases h)⟩
  | bare text htext =>
    exact ⟨fun _ => rfl, fun n h => (by cases h), List.Subset.refl _, fun value h => (by cases h)⟩

/-- The loop over fields without a timestamp. -/
theorem timestamp_foldl_nil (h : parts.filterMap Spaced.timestamp? = []) :
    ((parts.map Spaced.text).foldl readPart fields).timestamp = fields.timestamp := by
  induction parts generalizing fields with
  | nil => rfl
  | cons part parts ih =>
    have hnone : part.timestamp? = none := by
      by_contra hsome
      obtain ⟨m, hm⟩ := Option.ne_none_iff_exists'.mp hsome
      rw [List.filterMap_cons_some hm] at h
      cases h
    rw [List.filterMap_cons_none hnone] at h
    rw [List.map_cons, List.foldl_cons, ih h]
    exact (readPart_spec part).1 hnone

/-- The loop over fields with one timestamp. -/
theorem timestamp_foldl (hn : n < 10 ^ 12) (h : parts.filterMap Spaced.timestamp? = [n]) :
    ((parts.map Spaced.text).foldl readPart fields).timestamp = some n := by
  induction parts generalizing fields with
  | nil => cases h
  | cons part parts ih =>
    rw [List.map_cons, List.foldl_cons]
    cases hpart : part.timestamp? with
    | none =>
      rw [List.filterMap_cons_none hpart] at h
      exact ih h
    | some m =>
      rw [List.filterMap_cons_some hpart] at h
      obtain ⟨rfl, hrest⟩ := List.cons.inj h
      rw [timestamp_foldl_nil hrest]
      exact (readPart_spec part).2.1 m hpart hn

/-- The loop keeps the signatures. -/
theorem signatures_foldl : fields.signatures ⊆
    ((parts.map Spaced.text).foldl readPart fields).signatures := by
  induction parts generalizing fields with
  | nil => exact List.Subset.refl _
  | cons part parts ih => exact List.Subset.trans (readPart_spec part).2.2.1 ih

/-- The loop reads every signature. -/
theorem mem_signatures_foldl {value : List Char}
    (hmem : value ∈ parts.filterMap Spaced.signature?)
    (hvalue : isSignature (strip isSpace value) = true) :
    (strip isSpace value).map Char.toLower ∈
      ((parts.map Spaced.text).foldl readPart fields).signatures := by
  induction parts generalizing fields with
  | nil => cases hmem
  | cons part parts ih =>
    rw [List.map_cons, List.foldl_cons]
    cases hpart : part.signature? with
    | none =>
      rw [List.filterMap_cons_none hpart] at hmem
      exact ih hmem
    | some text =>
      rw [List.filterMap_cons_some hpart] at hmem
      rcases List.mem_cons.mp hmem with rfl | hmem
      · exact signatures_foldl ((readPart_spec part).2.2.2 value hpart hvalue)
      · exact ih hmem

/-- A field has no comma. -/
theorem notMem_text (part : Spaced) : ',' ∉ part.text := by
  have hdigits : ∀ n, ',' ∉ Nat.toDigits 10 n := fun n hmem =>
    absurd (isSpace_of_mem_toDigits hmem).1 (by decide)
  have hspell : ∀ key value : List Char, ',' ∉ key → ',' ∉ value →
      ',' ∉ part.beforeKey.text ++ key ++ part.afterKey.text ++ ['='] ++
        (part.beforeValue.text ++ value ++ part.afterValue.text) := by
    intro key value hkey hvalue
    simp only [List.mem_append, not_or]
    exact ⟨⟨⟨⟨part.beforeKey.notMem.1, hkey⟩, part.afterKey.notMem.1⟩, by decide⟩,
      ⟨part.beforeValue.notMem.1, hvalue⟩, part.afterValue.notMem.1⟩
  unfold Spaced.text
  dsimp only
  cases part.field with
  | timestamp n => exact hspell _ _ (by decide) (hdigits n)
  | signature value hvalue => exact hspell _ _ (by decide) hvalue
  | unknown key value hkey hunknown hvalue => exact hspell _ _ hkey.1 hvalue
  | bare text htext =>
    simp only [List.mem_append, not_or]
    exact ⟨⟨part.beforeKey.notMem.1, htext.1⟩, part.afterKey.notMem.1⟩

/-- A header is split into its fields. -/
theorem splitOn_headerText (hne : parts ≠ []) :
    (headerText parts).splitOn ',' = parts.map Spaced.text := by
  refine List.splitOn_intercalate ',' ?_ (by simpa using hne)
  intro text htext
  obtain ⟨part, -, rfl⟩ := List.mem_map.mp htext
  exact notMem_text part

end Accept

section Law

open HeaderField

variable {createHmac : String → List UInt8 → Sha256Digest} {payload : List UInt8} {secret : String}
  {nowSeconds toleranceSeconds : ℤ}

/-- What verification asks of a header. -/
theorem verifyStripeSignature_iff {header : List Char} :
    verifyStripeSignature createHmac payload (some header) secret nowSeconds toleranceSeconds =
        true ↔
      header ≠ [] ∧ ∃ t,
        ((header.splitOn ',').foldl readPart ⟨none, []⟩).timestamp = some t ∧
        ((nowSeconds - t).natAbs : ℤ) ≤ toleranceSeconds ∧
        ∃ signature ∈ ((header.splitOn ',').foldl readPart ⟨none, []⟩).signatures,
          Hex.decode signature = (createHmac secret (signedPayload t payload)).bytes := by
  unfold verifyStripeSignature
  dsimp only
  generalize (header.splitOn ',').foldl readPart ⟨none, []⟩ = fields
  by_cases hempty : header = []
  · rw [if_pos hempty]
    exact iff_of_false Bool.false_ne_true fun h => h.1 hempty
  rw [if_neg hempty]
  cases ht : fields.timestamp with
  | none =>
    refine iff_of_false Bool.false_ne_true ?_
    rintro ⟨-, t, hread, -⟩
    cases hread
  | some t =>
    dsimp only
    by_cases hsignatures : fields.signatures = []
    · rw [if_pos hsignatures, hsignatures]
      refine iff_of_false Bool.false_ne_true ?_
      rintro ⟨-, t, -, -, signature, hmem, -⟩
      cases hmem
    rw [if_neg hsignatures]
    by_cases hlate : toleranceSeconds < (nowSeconds - t).natAbs
    · rw [if_pos hlate]
      refine iff_of_false Bool.false_ne_true ?_
      rintro ⟨-, t, hread, hfresh, -⟩
      cases hread
      omega
    rw [if_neg hlate, List.any_eq_true]
    constructor
    · rintro ⟨signature, hmem, hsame⟩
      rw [Bool.and_eq_true, beq_iff_eq] at hsame
      exact ⟨hempty, t, rfl, by omega, signature, hmem, hsame.2⟩
    · rintro ⟨-, t, hread, -, signature, hmem, hsame⟩
      cases hread
      refine ⟨signature, hmem, ?_⟩
      rw [hsame, Bool.and_eq_true, beq_iff_eq]
      exact ⟨decide_eq_true rfl, rfl⟩

/-- A legal arrangement of fields, with one timestamp and its signature. -/
theorem verify_headerText_iff {parts : List Spaced} {n : ℕ} (hn : n < 10 ^ 12)
    (htimestamp : parts.filterMap Spaced.timestamp? = [n])
    (hsignature : ∃ value ∈ parts.filterMap Spaced.signature?, value.map Char.toLower =
      Hex.encode (createHmac secret (signedPayload n payload)).bytes) :
    verifyStripeSignature createHmac payload (some (headerText parts)) secret nowSeconds
        toleranceSeconds = true ↔
      ((nowSeconds - n).natAbs : ℤ) ≤ toleranceSeconds := by
  obtain ⟨value, hvalue, hauthentic⟩ := hsignature
  have hne : parts ≠ [] := by
    rintro rfl
    cases htimestamp
  have hsplit := splitOn_headerText hne
  have hempty : headerText parts ≠ [] := by
    intro hnil
    rw [hnil, List.splitOn_nil] at hsplit
    have hread : ((parts.map Spaced.text).foldl readPart ⟨none, []⟩).timestamp = some n :=
      timestamp_foldl hn htimestamp
    rw [← hsplit] at hread
    cases hread
  obtain ⟨hshape, hstrip⟩ := isSignature_of_map_toLower hauthentic
  have hdecode : Hex.decode (value.map Char.toLower) =
      (createHmac secret (signedPayload n payload)).bytes := by
    rw [hauthentic, Hex.decode_encode]
  have hread : (strip isSpace value).map Char.toLower ∈
      ((parts.map Spaced.text).foldl readPart ⟨none, []⟩).signatures :=
    mem_signatures_foldl hvalue (by rwa [hstrip])
  rw [hstrip] at hread
  rw [verifyStripeSignature_iff, hsplit, timestamp_foldl hn htimestamp]
  constructor
  · rintro ⟨-, t, ht, hfresh, -⟩
    cases ht
    exact hfresh
  · intro hfresh
    exact ⟨hempty, n, rfl, hfresh, _, hread, hdecode⟩

/-- A header that verifies carries a timestamp within the window, and its signature. -/
theorem carries_of_verify {header : List Char}
    (h : verifyStripeSignature createHmac payload (some header) secret nowSeconds
      toleranceSeconds = true) :
    ∃ n value, CarriesTimestamp header n ∧
      ((nowSeconds - n).natAbs : ℤ) ≤ toleranceSeconds ∧ Carries header ['v', '1'] value ∧
      value.map Char.toLower =
        Hex.encode (createHmac secret (signedPayload n payload)).bytes := by
  obtain ⟨-, t, ht, hfresh, signature, hsignature, hdecode⟩ := verifyStripeSignature_iff.mp h
  have hread := readFrom_header header
  obtain ⟨value, hcarries, hdigits, hlength, rfl⟩ := hread.signatures signature hsignature
  refine ⟨t, value, hread.timestamp t ht, hfresh, hcarries, ?_⟩
  rw [← hdecode, Hex.encode_decode_map_toLower hdigits (by rw [hlength])]

/-- No white space. -/
def Spaces.none : Spaces := ⟨[], fun _ hc => by cases hc⟩

/-- What the tests sign is a legal arrangement. -/
theorem headerText_signStripePayload (atSeconds : ℕ)
    (hcomma : ',' ∉ Hex.encode (createHmac secret (signedPayload atSeconds payload)).bytes) :
    signStripePayload createHmac payload secret atSeconds =
      headerText [⟨.timestamp atSeconds, .none, .none, .none, .none⟩,
        ⟨.signature _ hcomma, .none, .none, .none, .none⟩] := by
  simp [signStripePayload, headerText, Spaced.text, Spaces.none, List.intercalate_cons_cons]

/-- **What was signed verifies within the window.** -/
theorem verify_signStripePayload {atSeconds : ℕ} (hat : atSeconds < 10 ^ 12) :
    verifyStripeSignature createHmac payload
        (some (signStripePayload createHmac payload secret atSeconds)) secret nowSeconds
        toleranceSeconds = true ↔
      ((nowSeconds - atSeconds).natAbs : ℤ) ≤ toleranceSeconds := by
  have hcomma : ',' ∉ Hex.encode (createHmac secret (signedPayload atSeconds payload)).bytes :=
    fun hmem => absurd (Hex.isDigit_of_mem_encode hmem) (by decide)
  rw [headerText_signStripePayload atSeconds hcomma]
  exact verify_headerText_iff hat rfl ⟨_, List.mem_singleton_self _, Hex.map_toLower_encode _⟩

variable (createHmac payload secret nowSeconds toleranceSeconds)

/-- **Signatures are accepted exactly when they are authentic and fresh.** A legal arrangement
of fields with one timestamp and its signature verifies within the window; and a header that
verifies carries a timestamp within the window and its signature. -/
theorem verifies_exactly :
    (∀ (parts : List Spaced) (n : ℕ), n < 10 ^ 12 →
      parts.filterMap Spaced.timestamp? = [n] →
      (∃ value ∈ parts.filterMap Spaced.signature?, value.map Char.toLower =
        Hex.encode (createHmac secret (signedPayload n payload)).bytes) →
      (verifyStripeSignature createHmac payload (some (headerText parts)) secret nowSeconds
          toleranceSeconds = true ↔
        ((nowSeconds - n).natAbs : ℤ) ≤ toleranceSeconds)) ∧
    ∀ header : Option (List Char),
      (∀ text n value, header = some text → CarriesTimestamp text n →
        ((nowSeconds - n).natAbs : ℤ) ≤ toleranceSeconds → Carries text ['v', '1'] value →
        value.map Char.toLower ≠
          Hex.encode (createHmac secret (signedPayload n payload)).bytes) →
      verifyStripeSignature createHmac payload header secret nowSeconds toleranceSeconds =
        false := by
  constructor
  · intro parts n hn htimestamp hsignature
    exact verify_headerText_iff hn htimestamp hsignature
  · intro header hforged
    cases header with
    | none => rfl
    | some text =>
      rw [← Bool.not_eq_true]
      intro hverified
      obtain ⟨n, value, hcarried, hfresh, hvalue, hauthentic⟩ := carries_of_verify hverified
      exact hforged text n value rfl hcarried hfresh hvalue hauthentic

/-- A digest of zeros. -/
def zeroDigest : Sha256Digest := ⟨List.replicate 32 0, List.length_replicate⟩

theorem verifies_spaced :
    verifyStripeSignature (fun _ _ => zeroDigest) []
      (some ("v0=x, t=5 ,v1=".toList ++ List.replicate 64 '0')) "whsec" 300 300 = true := by
  have hspace : ∀ c ∈ [' '], isSpace c = true := fun c hc => by
    rw [List.mem_singleton.mp hc]
    decide
  have hcomma : ',' ∉ List.replicate 64 '0' := fun hmem =>
    absurd (List.eq_of_mem_replicate hmem) (by decide)
  have hzeros : (List.replicate 64 '0').map Char.toLower = Hex.encode zeroDigest.bytes := by
    rw [List.map_replicate]
    rfl
  exact ((verifies_exactly (fun _ _ => zeroDigest) [] "whsec" 300 300).1
    [⟨.unknown "v0".toList "x".toList (by decide) (by decide) (by decide), .none, .none, .none,
        .none⟩,
      ⟨.timestamp 5, ⟨[' '], hspace⟩, .none, .none, ⟨[' '], hspace⟩⟩,
      ⟨.signature (List.replicate 64 '0') hcomma, .none, .none, .none, .none⟩]
    5 (by decide) rfl ⟨List.replicate 64 '0', List.mem_singleton_self _, hzeros⟩).mpr (by decide)

end Law

end SilenceWatch
