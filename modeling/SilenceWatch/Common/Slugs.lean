import Mathlib.Data.List.DropRight
import Mathlib.Data.List.Infix

/-!
# Slugs of names

`slugify` and `uniqueSlug`. Texts are lists of characters; what is random is an argument.
-/

namespace SilenceWatch

/-- `MAX_SLUG_LENGTH`. -/
def maxSlugLength : ℕ := 60

/-- What `slugify` asks of the runtime about Unicode. Both functions are known on ASCII. -/
structure Unicode where
  normalizeNFKD : List Char → List Char
  toLowerCase : List Char → List Char
  normalizeNFKD_ascii : ∀ text, (∀ c ∈ text, c.toNat < 128) → normalizeNFKD text = text
  toLowerCase_ascii : ∀ text, (∀ c ∈ text, c.toNat < 128) → toLowerCase text = text.map Char.toLower

/-- Lower-case hexadecimal digits, as `randomBytes(n).toString('hex')` writes them. -/
structure HexText (n : ℕ) where
  text : List Char
  length_eq : text.length = 2 * n
  hexadecimal : ∀ c ∈ text, c ∈ "0123456789abcdef".toList

/-- `[a-z0-9]`. -/
def isSlugChar (c : Char) : Bool := ('a' ≤ c && c ≤ 'z') || ('0' ≤ c && c ≤ '9')

/-- `[\u0300-\u036f]`, the accents that decomposing sets free. -/
def isCombiningMark (c : Char) : Bool := 0x300 ≤ c.toNat && c.toNat ≤ 0x36f

/-- `.replace(/[^a-z0-9]+/g, '-')`; the flag says that the last character was replaced. -/
def dashRuns : Bool → List Char → List Char
  | _, [] => []
  | inRun, c :: cs =>
    if isSlugChar c then c :: dashRuns false cs
    else if inRun then dashRuns true cs
    else '-' :: dashRuns true cs

/-- What a name folds to. -/
def foldName (unicode : Unicode) (value : List Char) : List Char :=
  let bare := (unicode.normalizeNFKD value).filter fun c => !isCombiningMark c
  let dashed := dashRuns false (unicode.toLowerCase bare)
  let trimmed := (dashed.dropWhile (· = '-')).rdropWhile (· = '-')
  (trimmed.take maxSlugLength).rdropWhile (· = '-')

/-- `slugify`. -/
def slugify (unicode : Unicode) (random : HexText 4) (value : List Char) : List Char :=
  let slug := foldName unicode value
  if slug.length > 0 then slug else random.text

/-- The candidate of an attempt. -/
def numberedSlug (root : List Char) (attempt : ℕ) : List Char :=
  root.take (maxSlugLength - 3) ++ '-' :: Nat.toDigits 10 attempt

/-- The last resort. -/
def randomSlug (root : List Char) (random : HexText 3) : List Char :=
  root.take (maxSlugLength - 7) ++ '-' :: random.text

/-- The attempts after the first, with the default for how many there are. -/
def slugAttempts : List ℕ := [2, 3, 4, 5]

/-- `uniqueSlug`. -/
def uniqueSlug (unicode : Unicode) (random : HexText 4) (random' : HexText 3)
    (isTaken : List Char → Bool) (base : List Char) : List Char :=
  let root := slugify unicode random base
  if !isTaken root then root
  else
    match (slugAttempts.map (numberedSlug root)).find? fun candidate => !isTaken candidate with
    | some candidate => candidate
    | none => randomSlug root random'

/-- What is left of a slug: a group of letters and digits must follow at the start and behind a
dash. -/
def isSlugFrom : Bool → List Char → Bool
  | start, [] => !start
  | start, c :: cs =>
    if isSlugChar c then isSlugFrom false cs else c = '-' && !start && isSlugFrom true cs

/-- `/^[a-z0-9]+(?:-[a-z0-9]+)*$/`. -/
def isSlug (text : List Char) : Bool := isSlugFrom true text

/-- The start of what is left of a slug. -/
def isSlugStart : Bool → List Char → Bool
  | _, [] => true
  | start, c :: cs =>
    if isSlugChar c then isSlugStart false cs else c = '-' && !start && isSlugStart true cs

variable {start : Bool} {text text' : List Char}

/-- A dash is no letter. -/
theorem isSlugChar_dash : isSlugChar '-' = false := by decide

theorem isSlugFrom_cons {c : Char} {cs : List Char} : isSlugFrom start (c :: cs) =
    if isSlugChar c then isSlugFrom false cs else c = '-' && !start && isSlugFrom true cs :=
  rfl

/-- A slug is the start of one. -/
theorem isSlugStart_of_isSlugFrom (h : isSlugFrom start text) : isSlugStart start text := by
  induction text generalizing start with
  | nil => rfl
  | cons c cs ih =>
    unfold isSlugFrom at h
    unfold isSlugStart
    split
    · next hc => exact ih (by simpa [hc] using h)
    · next hc =>
      simp only [hc, if_false, Bool.and_eq_true, decide_eq_true_eq, Bool.false_eq_true] at h ⊢
      exact ⟨h.1, ih h.2⟩

/-- The start of a start. -/
theorem isSlugStart_append (h : isSlugStart start (text ++ text')) : isSlugStart start text := by
  induction text generalizing start with
  | nil => rfl
  | cons c cs ih =>
    rw [List.cons_append] at h
    unfold isSlugStart at h ⊢
    split
    · next hc => exact ih (by simpa [hc] using h)
    · next hc =>
      simp only [hc, if_false, Bool.and_eq_true, decide_eq_true_eq, Bool.false_eq_true] at h ⊢
      exact ⟨h.1, ih h.2⟩

/-- A slug may end wherever there is no dash. -/
theorem isSlugFrom_of_isSlugStart (h : isSlugStart start text) (hempty : text = [] → start = false)
    (hlast : text.getLast? ≠ some '-') : isSlugFrom start text := by
  induction text generalizing start with
  | nil => simp [isSlugFrom, hempty rfl]
  | cons c cs ih =>
    unfold isSlugStart at h
    unfold isSlugFrom
    by_cases hcs : cs = []
    · subst hcs
      have hdash : c ≠ '-' := by simpa using hlast
      split
      · rfl
      · next hc => simp [hc, hdash] at h
    · have hlast' : cs.getLast? ≠ some '-' := by
        rwa [List.getLast?_cons_of_ne_nil hcs] at hlast
      split
      · next hc => exact ih (by simpa [hc] using h) (fun _ => rfl) hlast'
      · next hc =>
        simp only [hc, if_false, Bool.and_eq_true, decide_eq_true_eq, Bool.false_eq_true] at h ⊢
        exact ⟨h.1, ih h.2 (fun hnil => absurd hnil hcs) hlast'⟩

/-- No slug ends with a dash. -/
theorem getLast?_of_isSlugFrom (h : isSlugFrom start text) : text.getLast? ≠ some '-' := by
  induction text generalizing start with
  | nil => simp
  | cons c cs ih =>
    unfold isSlugFrom at h
    by_cases hcs : cs = []
    · subst hcs
      split at h
      · next hc =>
        rintro heq
        rw [List.getLast?_singleton, Option.some_inj] at heq
        rw [heq, isSlugChar_dash] at hc
        cases hc
      · simp [isSlugFrom] at h
    · rw [List.getLast?_cons_of_ne_nil hcs]
      split at h
      · exact ih h
      · simp only [Bool.and_eq_true] at h
        exact ih h.2

/-- Two slugs joined by a dash. -/
theorem isSlugFrom_append_dash :
    isSlugFrom start (text ++ '-' :: text') = (isSlugFrom start text && isSlugFrom true text') := by
  induction text generalizing start with
  | nil =>
    simp [isSlugFrom, isSlugChar_dash]
  | cons c cs ih =>
    rw [List.cons_append]
    rw [isSlugFrom_cons, isSlugFrom_cons]
    split
    · exact ih
    · rw [ih, Bool.and_assoc, Bool.and_assoc, Bool.and_assoc]

/-- Letters and digits alone make a slug. -/
theorem isSlugFrom_of_isSlugChar (hne : text = [] → start = false)
    (hchars : ∀ c ∈ text, isSlugChar c) : isSlugFrom start text := by
  induction text generalizing start with
  | nil => simp [isSlugFrom, hne rfl]
  | cons c cs ih =>
    unfold isSlugFrom
    rw [if_pos (hchars c List.mem_cons_self)]
    exact ih (fun _ => rfl) fun d hd => hchars d (List.mem_cons_of_mem _ hd)

/-- A slug can be cut where the last character left is no dash. -/
theorem isSlug_take {n : ℕ} (h : isSlug text) (hn : 1 ≤ n) :
    isSlug (text.take n) ↔ text[n - 1]? ≠ some '-' := by
  have hlast : (text.take n).getLast? = text[n - 1]? ∨ text.length < n := by
    by_cases hlong : text.length < n
    · exact Or.inr hlong
    · left
      rw [List.getLast?_eq_getElem?, List.length_take, List.getElem?_take]
      have hmin : min n text.length = n := by omega
      rw [hmin, if_pos (by omega)]
  rcases hlast with hlast | hshort
  · rw [← hlast]
    constructor
    · exact getLast?_of_isSlugFrom
    · intro hdash
      have hstart : isSlugStart true (text.take n ++ text.drop n) := by
        rw [List.take_append_drop]
        exact isSlugStart_of_isSlugFrom h
      refine isSlugFrom_of_isSlugStart (isSlugStart_append hstart) (fun hnil => ?_) hdash
      rcases List.take_eq_nil_iff.mp hnil with hzero | hempty
      · omega
      · subst hempty
        cases h
  · rw [List.take_of_length_le (by omega), List.getElem?_eq_none (by omega)]
    exact iff_of_true h (by simp)

section Fold

/-- Runs of other characters become single dashes. -/
theorem isSlugStart_dashRuns (text : List Char) :
    ∀ inRun, isSlugStart inRun (dashRuns inRun text) := by
  induction text with
  | nil => exact fun _ => rfl
  | cons c cs ih =>
    intro inRun
    unfold dashRuns
    split
    · next hc =>
      unfold isSlugStart
      rw [if_pos hc]
      exact ih false
    · cases inRun with
      | true => exact ih true
      | false =>
        have hrest := ih true
        simp [isSlugStart, isSlugChar_dash, hrest]

/-- Without dashes in front a group must follow. -/
theorem isSlugStart_dropWhile (h : isSlugStart start text) :
    isSlugStart true (text.dropWhile (· = '-')) := by
  induction text generalizing start with
  | nil => rfl
  | cons c cs ih =>
    unfold isSlugStart at h
    by_cases hdash : c = '-'
    · subst hdash
      rw [List.dropWhile_cons_of_pos (by simp)]
      simp only [isSlugChar_dash, Bool.and_eq_true, Bool.false_eq_true, if_false] at h
      exact ih h.2
    · rw [List.dropWhile_cons_of_neg (by simpa using hdash)]
      split at h
      · next hc =>
        unfold isSlugStart
        rw [if_pos hc]
        exact h
      · simp [hdash] at h

/-- **Fold.** What a name folds to is a slug, or nothing. -/
theorem isSlug_foldName (unicode : Unicode) (value : List Char) :
    foldName unicode value = [] ∨ isSlug (foldName unicode value) := by
  by_cases hempty : foldName unicode value = []
  · exact Or.inl hempty
  right
  have hprefix : foldName unicode value <+:
      (dashRuns false (unicode.toLowerCase ((unicode.normalizeNFKD value).filter
        fun c => !isCombiningMark c))).dropWhile (· = '-') :=
    (List.rdropWhile_prefix _ _).trans ((List.take_prefix _ _).trans (List.rdropWhile_prefix _ _))
  obtain ⟨rest, hrest⟩ := hprefix
  have hstart := isSlugStart_dropWhile (isSlugStart_dashRuns (unicode.toLowerCase
    ((unicode.normalizeNFKD value).filter fun c => !isCombiningMark c)) false)
  rw [← hrest] at hstart
  refine isSlugFrom_of_isSlugStart (isSlugStart_append hstart) (fun h => absurd h hempty) ?_
  rw [List.getLast?_eq_getLast_of_ne_nil hempty, Ne, Option.some_inj]
  simpa [foldName] using List.rdropWhile_last_not _ _ hempty

/-- Hexadecimal digits are letters and digits. -/
theorem HexText.isSlugChar {n : ℕ} (random : HexText n) : ∀ c ∈ random.text, isSlugChar c := by
  have hall : "0123456789abcdef".toList.all SilenceWatch.isSlugChar = true := by decide
  exact fun c hc => List.all_eq_true.mp hall c (random.hexadecimal c hc)

/-- Random text is a slug. -/
theorem HexText.isSlug {n : ℕ} (random : HexText n) (hn : 1 ≤ n) : isSlug random.text := by
  refine isSlugFrom_of_isSlugChar (fun hnil => ?_) random.isSlugChar
  have hlength := random.length_eq
  rw [hnil, List.length_nil] at hlength
  omega

/-- **Slugify.** A slug of at most sixty characters. -/
theorem slugify_spec (unicode : Unicode) (random : HexText 4) (value : List Char) :
    isSlug (slugify unicode random value) ∧ (slugify unicode random value).length ≤
      maxSlugLength := by
  unfold slugify
  dsimp only
  split
  · next hlength =>
    constructor
    · rcases isSlug_foldName unicode value with hnil | hslug
      · rw [hnil, List.length_nil] at hlength
        omega
      · exact hslug
    · exact (List.rdropWhile_prefix _ _).length_le.trans (List.length_take_le _ _)
  · constructor
    · exact random.isSlug (by decide)
    · rw [random.length_eq]
      decide

/-- Text of single dashes is left as it is. -/
theorem dashRuns_eq_self (h : isSlugStart start text) : dashRuns start text = text := by
  induction text generalizing start with
  | nil => rfl
  | cons c cs ih =>
    unfold isSlugStart at h
    unfold dashRuns
    split
    · next hc => rw [ih (by simpa [hc] using h)]
    · next hc =>
      simp only [hc, Bool.and_eq_true, decide_eq_true_eq, Bool.false_eq_true, if_false,
        Bool.not_eq_true'] at h
      obtain ⟨⟨rfl, rfl⟩, hrest⟩ := h
      rw [if_neg Bool.false_ne_true, ih hrest]

/-- What may stand at the start of a slug may stand behind a letter. -/
theorem isSlugStart_false (h : isSlugStart true text) : isSlugStart false text := by
  cases text with
  | nil => rfl
  | cons c cs =>
    unfold isSlugStart at h ⊢
    split
    · next hc => simpa [hc] using h
    · next hc => simp [hc] at h

/-- Slugs are written in ASCII, in small letters. -/
theorem isSlugStart_chars (h : isSlugStart start text) :
    ∀ c ∈ text, c.toNat < 128 ∧ c.toLower = c ∧ isCombiningMark c = false := by
  have hsmall : ∀ n < 128, (isSlugChar (Char.ofNat n) ∨ Char.ofNat n = '-') →
      (Char.ofNat n).toLower = Char.ofNat n ∧ isCombiningMark (Char.ofNat n) = false := by
    decide
  have hchar : ∀ c : Char, (isSlugChar c ∨ c = '-') →
      c.toNat < 128 ∧ c.toLower = c ∧ isCombiningMark c = false := by
    intro c hc
    have hlt : c.toNat < 128 := by
      rcases hc with hc | rfl
      · simp only [isSlugChar, Bool.or_eq_true, Bool.and_eq_true, decide_eq_true_eq] at hc
        rcases hc with ⟨-, hle⟩ | ⟨-, hle⟩
        · have hbound : c.toNat ≤ 'z'.toNat := hle
          exact hbound.trans_lt (by decide)
        · have hbound : c.toNat ≤ '9'.toNat := hle
          exact hbound.trans_lt (by decide)
      · decide
    have hrest := hsmall c.toNat hlt
    rw [Char.ofNat_toNat] at hrest
    exact ⟨hlt, hrest hc⟩
  induction text generalizing start with
  | nil => exact fun _ hc => absurd hc List.not_mem_nil
  | cons c cs ih =>
    unfold isSlugStart at h
    intro d hd
    split at h
    · next hc =>
      rcases List.mem_cons.mp hd with rfl | hd
      · exact hchar d (Or.inl hc)
      · exact ih h d hd
    · simp only [Bool.and_eq_true, decide_eq_true_eq] at h
      rcases List.mem_cons.mp hd with rfl | hd
      · exact hchar d (Or.inr h.1.1)
      · exact ih h.2 d hd

/-- A short slug folds to itself. -/
theorem foldName_of_isSlug (unicode : Unicode) (hslug : isSlug text)
    (hlength : text.length ≤ maxSlugLength) : foldName unicode text = text := by
  have hstart := isSlugStart_of_isSlugFrom hslug
  have hchars := isSlugStart_chars hstart
  have hlast := getLast?_of_isSlugFrom hslug
  have hmarks : text.filter (fun c => !isCombiningMark c) = text :=
    List.filter_eq_self.mpr fun c hc => by simp [(hchars c hc).2.2]
  have hlower : text.map Char.toLower = text := by
    conv_rhs => rw [← List.map_id text]
    exact List.map_congr_left fun c hc => (hchars c hc).2.1
  have hfront : text.dropWhile (· = '-') = text := by
    cases text with
    | nil => rfl
    | cons c cs =>
      refine List.dropWhile_cons_of_neg ?_
      intro hdash
      obtain rfl : c = '-' := by simpa using hdash
      simp [isSlugStart, isSlugChar_dash] at hstart
  have hback : text.rdropWhile (· = '-') = text := by
    refine List.rdropWhile_eq_self_iff.mpr fun hne hdash => hlast ?_
    rw [List.getLast?_eq_getLast_of_ne_nil hne]
    simpa using hdash
  have hascii : ∀ c ∈ text, c.toNat < 128 := fun c hc => (hchars c hc).1
  unfold foldName
  simp only [unicode.normalizeNFKD_ascii text hascii, hmarks, unicode.toLowerCase_ascii text hascii,
    hlower, dashRuns_eq_self (isSlugStart_false hstart), hfront, hback,
      List.take_of_length_le hlength]

end Fold

section Unique

variable {unicode : Unicode} {random : HexText 4} {random' : HexText 3} {isTaken : List Char → Bool}
  {base : List Char}

/-- What is promised of a generated slug. -/
structure SlugLaw (unicode : Unicode) (random : HexText 4) (random' : HexText 3)
    (isTaken : List Char → Bool) (base : List Char) : Prop where
  length_le : (uniqueSlug unicode random random' isTaken base).length ≤ maxSlugLength
  grammar : isSlug (uniqueSlug unicode random random' isTaken base)
  /-- It was reported free, or it carries the random suffix. -/
  free : isTaken (uniqueSlug unicode random random' isTaken base) = false ∨
    ∃ front, uniqueSlug unicode random random' isTaken base = front ++ '-' :: random'.text
  idempotent : foldName unicode base ≠ [] → ∀ another : HexText 4,
    slugify unicode another (slugify unicode random base) = slugify unicode random base

/-- The root is cut behind a dash: behind the 57th character to make room for a number, where
one is free, and behind the 53rd for the random suffix, where none is. -/
def CutBehindDash (isTaken : List Char → Bool) (root : List Char) : Prop :=
  isTaken root = true ∧
    if ∃ n ∈ slugAttempts, isTaken (numberedSlug root n) = false then root[56]? = some '-'
    else root[52]? = some '-'
  deriving Decidable

/-- The three ways in which `uniqueSlug` returns. -/
inductive UniqueSlugCase (isTaken : List Char → Bool) (random : HexText 3) (root : List Char) :
    List Char → Prop
  | root (hfree : isTaken root = false) : UniqueSlugCase isTaken random root root
  | numbered (n : ℕ) (hn : n ∈ slugAttempts) (htaken : isTaken root = true)
      (hfree : isTaken (numberedSlug root n) = false) :
      UniqueSlugCase isTaken random root (numberedSlug root n)
  | random (htaken : isTaken root = true)
      (hall : ¬ ∃ n ∈ slugAttempts, isTaken (numberedSlug root n) = false) :
      UniqueSlugCase isTaken random root (randomSlug root random)

theorem uniqueSlug_cases (unicode : Unicode) (random : HexText 4) (random' : HexText 3)
    (isTaken : List Char → Bool) (base : List Char) :
    UniqueSlugCase isTaken random' (slugify unicode random base)
      (uniqueSlug unicode random random' isTaken base) := by
  unfold uniqueSlug
  generalize slugify unicode random base = root
  dsimp only
  split
  · next hfree => exact .root (by simpa using hfree)
  · next htaken =>
    have htaken : isTaken root = true := by simpa using htaken
    split
    · next candidate hfind =>
      obtain ⟨n, hn, rfl⟩ := List.mem_map.mp (List.mem_of_find?_eq_some hfind)
      have hfree := List.find?_some hfind
      exact .numbered n hn htaken (by simpa using hfree)
    · next hfind =>
      refine .random htaken ?_
      rintro ⟨n, hn, hfree⟩
      have hnone := List.find?_eq_none.mp hfind _ (List.mem_map_of_mem hn)
      simp [hfree] at hnone

/-- A numbered slug is one unless its root is cut behind a dash. -/
theorem isSlug_numberedSlug {root : List Char} (hroot : isSlug root) {n : ℕ}
    (hn : n ∈ slugAttempts) : isSlug (numberedSlug root n) ↔ root[56]? ≠ some '-' := by
  have hdigits : ∀ n ∈ slugAttempts, isSlugFrom true (Nat.toDigits 10 n) := by decide
  have hcut := isSlug_take (n := 57) hroot (by decide)
  unfold isSlug numberedSlug at *
  rw [isSlugFrom_append_dash, hdigits n hn, Bool.and_true]
  exact hcut

/-- A slug with a random suffix is one unless its root is cut behind a dash. -/
theorem isSlug_randomSlug {root : List Char} (hroot : isSlug root) (random : HexText 3) :
    isSlug (randomSlug root random) ↔ root[52]? ≠ some '-' := by
  have hsuffix := random.isSlug (by decide)
  have hcut := isSlug_take (n := 53) hroot (by decide)
  unfold isSlug randomSlug at *
  rw [isSlugFrom_append_dash, hsuffix, Bool.and_true]
  exact hcut

/-- No suffix makes a slug too long. -/
theorem UniqueSlugCase.length_le {root slug : List Char} (hroot : root.length ≤ maxSlugLength)
    (hcase : UniqueSlugCase isTaken random' root slug) : slug.length ≤ maxSlugLength := by
  have hmax : maxSlugLength = 60 := rfl
  cases hcase with
  | root => exact hroot
  | numbered n hn =>
    have hdigits : ∀ n ∈ slugAttempts, (Nat.toDigits 10 n).length = 1 := by decide
    have htake := List.length_take_le (maxSlugLength - 3) root
    rw [numberedSlug, List.length_append, List.length_cons, hdigits n hn]
    omega
  | random =>
    have htake := List.length_take_le (maxSlugLength - 7) root
    rw [randomSlug, List.length_append, List.length_cons, random'.length_eq]
    omega

/-- The slug is one unless the root is cut behind a dash. -/
theorem UniqueSlugCase.isSlug_iff {root slug : List Char} (hroot : isSlug root)
    (hcase : UniqueSlugCase isTaken random' root slug) :
    isSlug slug ↔ ¬ CutBehindDash isTaken root := by
  unfold CutBehindDash
  cases hcase with
  | root hfree => simp [hfree, hroot]
  | numbered n hn htaken hfree =>
    rw [if_pos ⟨n, hn, hfree⟩, isSlug_numberedSlug hroot hn]
    simp [htaken]
  | random htaken hall =>
    rw [if_neg hall, isSlug_randomSlug hroot]
    simp [htaken]

/-- **Generated slugs** are valid and free, unless the root is cut behind a dash. -/
theorem slugLaw_iff (unicode : Unicode) (random : HexText 4) (random' : HexText 3)
    (isTaken : List Char → Bool) (base : List Char) :
    SlugLaw unicode random random' isTaken base ↔
      ¬ CutBehindDash isTaken (slugify unicode random base) := by
  have hcase := uniqueSlug_cases unicode random random' isTaken base
  obtain ⟨hroot, hlength⟩ := slugify_spec unicode random base
  constructor
  · intro hlaw
    exact (hcase.isSlug_iff hroot).mp hlaw.grammar
  · intro huncut
    refine ⟨hcase.length_le hlength, (hcase.isSlug_iff hroot).mpr huncut, ?_, ?_⟩
    · generalize uniqueSlug unicode random random' isTaken base = slug at hcase
      cases hcase with
      | root hfree => exact Or.inl hfree
      | numbered n hn htaken hfree => exact Or.inl hfree
      | random => exact Or.inr ⟨_, rfl⟩
    · intro _ another
      have hself := foldName_of_isSlug unicode hroot hlength
      have hsome : (slugify unicode random base).length > 0 :=
        List.length_pos_iff.mpr fun hnil => by simp [hnil, isSlug, isSlugFrom] at hroot
      have hfolded : slugify unicode another (slugify unicode random base) =
          foldName unicode (slugify unicode random base) := if_pos (by rw [hself]; exact hsome)
      exact hfolded.trans hself

/-- A runtime for which every character is its own decomposition. -/
def asciiOnly : Unicode where
  normalizeNFKD := id
  toLowerCase text := text.map Char.toLower
  normalizeNFKD_ascii _ _ := rfl
  toLowerCase_ascii _ _ := rfl

/-- Zeros, for random text. -/
def zeroText (n : ℕ) : HexText n where
  text := List.replicate (2 * n) '0'
  length_eq := List.length_replicate
  hexadecimal _ hc := by
    rw [List.eq_of_mem_replicate hc]
    decide

/-- A taken name with a dash in the 57th place of its slug gets two dashes in a row. -/
theorem not_slugLaw_cut :
    ¬ SlugLaw asciiOnly (zeroText 4) (zeroText 3)
      (fun slug => slug = List.replicate 56 'a' ++ "-job".toList)
      (List.replicate 56 'a' ++ " job".toList) := by
  intro hlaw
  have hgrammar := hlaw.grammar
  revert hgrammar
  decide

end Unique

end SilenceWatch
