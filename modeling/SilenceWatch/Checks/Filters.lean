import SilenceWatch.Checks.Isolation
import SilenceWatch.Library.JsonSize
import SilenceWatch.Library.Like
import SilenceWatch.Schedule.CronSyntax

/-!
# Filters of the list of checks

From the texts of a query string to the condition of `ChecksRepository.list`, and what the
texts say when they are read plainly.
-/

namespace SilenceWatch

open Relational

/-- `.trim()`. -/
def trimmed (text : String) : String := String.ofList (strip isSpace text.toList)

/-- The length of a text in UTF-16. -/
def utf16Length (text : String) : ℕ := Json.utf16.of text.toList

/-- `.max(max)`, of a text: one that is too long in UTF-16 may still have few enough code points. -/
def MaxLength (max : ℕ) (text : String) : Prop :=
  utf16Length text ≤ max ∨ text.toList.length ≤ max
  deriving Decidable

/-- `z.enum(CHECK_STATES)`. -/
def checkStateSchema (text : String) : Option CheckState :=
  [("NEW", CheckState.new), ("UP", .up), ("LATE", .late), ("DOWN", .down),
    ("PAUSED", .paused)].lookup
    text

/-- `[A-Za-z0-9._-]`. -/
def isEnvironmentChar (c : Char) : Bool := c.isAlphanum || ['.', '_', '-'].contains c

/-- `environmentSchema`. -/
def environmentSchema (text : String) : Option String :=
  let value := trimmed text
  if 1 ≤ utf16Length value ∧ MaxLength 40 value ∧ value.toList.all isEnvironmentChar then
    some value
  else none

/-- `trimmedString(LIMITS.tagMax)`. -/
def tagSchema (text : String) : Option String :=
  let value := trimmed text
  if 1 ≤ utf16Length value ∧ MaxLength 40 value then some value else none

/-- `z.string().trim().max(120)`. -/
def searchSchema (text : String) : Option String :=
  let value := trimmed text
  if MaxLength 120 value then some value else none

/-- `z.coerce.boolean()`, of a text. -/
def coerceBoolean (text : String) : Bool := text ≠ ""

/-- `.optional()`. -/
def optionalOf {α : Type} (schema : String → Option α) : Option String → Option (Option α)
  | none => some none
  | some text => (schema text).map some

/-- The filters of a query string, as they are written. -/
structure ListChecksText where
  state : Option String
  environment : Option String
  tag : Option String
  search : Option String
  orphaned : Option String

/-- What `listChecksQuerySchema` makes of the filters. -/
structure ListChecksText.Parses (raw : ListChecksText) (query : ListChecksQuery) : Prop where
  state : optionalOf checkStateSchema raw.state = some query.state
  environment : optionalOf environmentSchema raw.environment = some query.environment
  tag : optionalOf tagSchema raw.tag = some query.tag
  search : optionalOf searchSchema raw.search = some query.search
  orphaned : raw.orphaned.map coerceBoolean = query.orphaned

/-- How the database ignores letter case: character by character, and the special characters
of `LIKE` have no case. -/
structure CaseFolding where
  fold : Char → Char
  fold_fold : ∀ c, fold (fold c) = fold c
  fold_special : ∀ s ∈ Like.specials, ∀ c, fold c = s ↔ c = s

/-- `{ contains: search, mode: 'insensitive' }`: `ILIKE '%search%'`. -/
def CaseFolding.iLike (folding : CaseFolding) (name search : String) : Bool :=
  Like.like (name.toList.map folding.fold) ((Like.containing search.toList).map folding.fold)

/-- The filters, read plainly. -/
structure ListChecksText.Says (raw : ListChecksText) (folding : CaseFolding)
    (c : Check) : Prop where
  state : ∀ text ∈ raw.state, checkStateSchema text = some c.state
  environment : ∀ text ∈ raw.environment, c.environment = some (trimmed text)
  tag : ∀ text ∈ raw.tag, trimmed text ∈ c.tags
  /-- The name contains the search text, in any letter case. -/
  search : ∀ text ∈ raw.search,
    (trimmed text).toList.map folding.fold <:+: c.name.toList.map folding.fold
  orphaned : raw.orphaned = some "true" → c.orphanedAt.isSome = true
  known : raw.orphaned = some "false" → c.orphanedAt = none

variable {raw : ListChecksText} {query : ListChecksQuery} {folding : CaseFolding} {c : Check}
  {projectIds : List Uuid}

/-- Code points decide, of which there are no more than code units. -/
theorem maxLength_iff {max : ℕ} {text : String} : MaxLength max text ↔ text.toList.length ≤ max := by
  constructor
  · rintro (hunits | hpoints)
    · exact (Json.Measure.length_le_of_utf16 text.toList).trans hunits
    · exact hpoints
  · exact Or.inr

theorem one_le_utf16Length_iff {text : String} :
    1 ≤ utf16Length text ↔ 1 ≤ text.toList.length := by
  constructor
  · intro hunits
    refine List.length_pos_iff.mpr fun hnil => ?_
    rw [utf16Length, hnil] at hunits
    exact absurd hunits (by decide)
  · exact fun hpoints => hpoints.trans (Json.Measure.length_le_of_utf16 text.toList)

/-- An optional text is parsed if there is one. -/
theorem optionalOf_eq_some {α : Type} {schema : String → Option α} {text : Option String}
    {value : Option α} (h : optionalOf schema text = some value) :
    (text = none ∧ value = none) ∨ ∃ t v, text = some t ∧ value = some v ∧ schema t = some v := by
  cases text with
  | none =>
    cases h
    exact Or.inl ⟨rfl, rfl⟩
  | some t =>
    obtain ⟨v, hv, rfl⟩ := Option.map_eq_some_iff.mp h
    exact Or.inr ⟨t, v, rfl, rfl, hv⟩

/-- A schema of trimmed texts. -/
theorem eq_of_ite_some {α : Type} {p : Prop} [Decidable p] {a b : α}
    (h : (if p then some a else none) = some b) : b = a := by
  split at h
  · exact (Option.some_inj.mp h).symm
  · cases h

theorem environmentSchema_eq_some {text value : String} (h : environmentSchema text = some value) :
    value = trimmed text :=
  eq_of_ite_some h

theorem tagSchema_eq_some {text value : String} (h : tagSchema text = some value) :
    value = trimmed text :=
  eq_of_ite_some h

theorem searchSchema_eq_some {text value : String} (h : searchSchema text = some value) :
    value = trimmed text :=
  eq_of_ite_some h

/-- What the texts say, in terms of what they are parsed to. -/
theorem says_iff (hparses : raw.Parses query) : raw.Says folding c ↔
    (∀ state ∈ query.state, c.state = state) ∧
      (∀ environment ∈ query.environment, c.environment = some environment) ∧
      (∀ tag ∈ query.tag, tag ∈ c.tags) ∧
      (∀ search ∈ query.search,
        search.toList.map folding.fold <:+: c.name.toList.map folding.fold) ∧
      (raw.orphaned = some "true" → c.orphanedAt.isSome = true) ∧
      (raw.orphaned = some "false" → c.orphanedAt = none) := by
  have hstate : (∀ text ∈ raw.state, checkStateSchema text = some c.state) ↔
      ∀ state ∈ query.state, c.state = state := by
    rcases optionalOf_eq_some hparses.state with ⟨hnone, hnone'⟩ |
      ⟨text, state, htext, hsome, hvalue⟩
    · simp [hnone, hnone']
    · simp [htext, hsome, hvalue, eq_comm]
  have henvironment : (∀ text ∈ raw.environment, c.environment = some (trimmed text)) ↔
      ∀ environment ∈ query.environment, c.environment = some environment := by
    rcases optionalOf_eq_some hparses.environment with
      ⟨hnone, hnone'⟩ | ⟨text, environment, htext, hsome, hvalue⟩
    · simp [hnone, hnone']
    · simp [htext, hsome, environmentSchema_eq_some hvalue]
  have htag : (∀ text ∈ raw.tag, trimmed text ∈ c.tags) ↔ ∀ tag ∈ query.tag, tag ∈ c.tags := by
    rcases optionalOf_eq_some hparses.tag with ⟨hnone, hnone'⟩ | ⟨text, tag, htext, hsome, hvalue⟩
    · simp [hnone, hnone']
    · simp [htext, hsome, tagSchema_eq_some hvalue]
  have hsearch : (∀ text ∈ raw.search,
      (trimmed text).toList.map folding.fold <:+: c.name.toList.map folding.fold) ↔
      ∀ search ∈ query.search,
        search.toList.map folding.fold <:+: c.name.toList.map folding.fold := by
    rcases optionalOf_eq_some hparses.search with
      ⟨hnone, hnone'⟩ | ⟨text, search, htext, hsome, hvalue⟩
    · simp [hnone, hnone']
    · simp [htext, hsome, searchSchema_eq_some hvalue]
  rw [← hstate, ← henvironment, ← htag, ← hsearch]
  constructor
  · intro h
    exact ⟨h.state, h.environment, h.tag, h.search, h.orphaned, h.known⟩
  · rintro ⟨hstate, henvironment, htag, hsearch, horphaned, hknown⟩
    exact ⟨hstate, henvironment, htag, hsearch, horphaned, hknown⟩

/-- Folding leaves a pattern one that contains a text. -/
theorem CaseFolding.iLike_eq (folding : CaseFolding) (name search : String) :
    folding.iLike name search =
      Like.like (name.toList.map folding.fold)
        (Like.containing (search.toList.map folding.fold)) := by
  have hpercent : folding.fold '%' = '%' := (folding.fold_special '%' (by decide) '%').mpr rfl
  simp [iLike, Like.containing, hpercent]

/-- Folding makes no character special. -/
theorem CaseFolding.fold_mem_specials (folding : CaseFolding) {d : Char} :
    folding.fold d ∈ Like.specials ↔ d ∈ Like.specials := by
  constructor
  · intro hmem
    have hsame := (folding.fold_special _ hmem d).mp rfl
    rw [hsame]
    exact hmem
  · intro hmem
    rw [(folding.fold_special d hmem d).mpr rfl]
    exact hmem

/-- A search text without special characters is looked for as it is. -/
theorem CaseFolding.iLike_iff {name search : String}
    (hordinary : ∀ d ∈ search.toList, d ∉ Like.specials) :
    folding.iLike name search = true ↔
      search.toList.map folding.fold <:+: name.toList.map folding.fold := by
  rw [folding.iLike_eq]
  apply Like.like_containing
  intro d hd hspecial
  obtain ⟨e, he, rfl⟩ := List.mem_map.mp hd
  exact hordinary e he (folding.fold_mem_specials.mp hspecial)

/-- A search text with special characters finds a name that does not contain it. -/
theorem CaseFolding.exists_iLike (folding : CaseFolding) {search : String}
    (hspecial : ∃ d ∈ search.toList, d ∈ Like.specials) :
    ∃ name, folding.iLike name search = true ∧
      ¬ search.toList.map folding.fold <:+: name.toList.map folding.fold := by
  have hfiller : folding.fold 'x' ≠ '_' := fun h =>
    absurd ((folding.fold_special '_' (by decide) 'x').mp h) (by decide)
  obtain ⟨d, hd, hmem⟩ := hspecial
  have hfolded : ∃ d ∈ search.toList.map folding.fold, d ∈ Like.specials :=
    ⟨_, List.mem_map_of_mem hd, folding.fold_mem_specials.mpr hmem⟩
  obtain ⟨hlike, hnot⟩ := Like.exists_like_containing hfiller hfolded
  set name := Like.shortest (folding.fold 'x')
    (Like.parts (search.toList.map folding.fold ++ ['%'])) with hname
  have hstable : name.map folding.fold = name := by
    conv_rhs => rw [← List.map_id name]
    refine List.map_congr_left fun e he => ?_
    rcases Like.mem_shortest he with rfl | hpart
    · exact folding.fold_fold 'x'
    · rcases List.mem_append.mp (Like.mem_parts hpart) with hsearch | hpercent
      · obtain ⟨e', -, rfl⟩ := List.mem_map.mp hsearch
        exact folding.fold_fold e'
      · obtain rfl := List.mem_singleton.mp hpercent
        exact (folding.fold_special '%' (by decide) '%').mpr rfl
  refine ⟨String.ofList name, ?_, ?_⟩
  · rw [folding.iLike_eq, String.toList_ofList, hstable]
    exact hlike
  · rw [String.toList_ofList, hstable]
    exact hnot

/-- A check of a project that satisfies the filters of a query on columns that are equal. -/
def checkFor (query : ListChecksQuery) (projectId : Uuid) (name : String) (orphanedAt : Option ℤ) :
    Check :=
  { Database.plainCheck 1 projectId 2 0 with
    name := name
    state := query.state.getD .new
    environment := query.environment
    tags := query.tag.toList
    orphanedAt := orphanedAt }

/-- A list that ranges over what the filters say. -/
def RangesOver (raw : ListChecksText) (query : ListChecksQuery) (folding : CaseFolding)
    (projectIds : List Uuid) : Prop :=
  ∀ (db : Database) (c : Check),
    c ∈ listing (query.Selects folding.iLike projectIds) Check.place db.checks.rows ↔
      c ∈ db.checks.rows ∧ c.projectId ∈ projectIds ∧ raw.Says folding c

/-- The check of a query has what the query asks of the columns that are equal. -/
theorem checkFor_equal (query : ListChecksQuery) (projectId : Uuid) (name : String)
    (orphanedAt : Option ℤ) :
    (∀ state ∈ query.state, (checkFor query projectId name orphanedAt).state = state) ∧
      (∀ environment ∈ query.environment,
        (checkFor query projectId name orphanedAt).environment = some environment) ∧
      ∀ tag ∈ query.tag, tag ∈ (checkFor query projectId name orphanedAt).tags := by
  refine ⟨?_, fun environment henvironment => henvironment, ?_⟩
  · intro state hstate
    rw [checkFor, hstate]
    rfl
  · intro tag htag
    rw [checkFor, htag]
    exact List.mem_singleton_self tag

/-- A text other than `true` leaves a check out that it says nothing against. -/
theorem not_rangesOver_orphaned (hparses : raw.Parses query) {projectId : Uuid} {text : String}
    (hproject : projectId ∈ projectIds) (htext : raw.orphaned = some text) (hne : text ≠ "true") :
    ¬ RangesOver raw query folding projectIds := by
  intro hall
  set c := checkFor query projectId (query.search.getD "")
    (if coerceBoolean text then none else some 0) with hc
  obtain ⟨hstate, henvironment, htag⟩ := checkFor_equal query projectId (query.search.getD "")
    (if coerceBoolean text then none else some 0)
  have hsays : raw.Says folding c := by
    refine (says_iff hparses).mpr ⟨hstate, henvironment, htag, ?_, ?_, ?_⟩
    · intro search hsome
      rw [hc, checkFor, hsome]
      exact List.infix_refl _
    · intro htrue
      exact absurd (Option.some_inj.mp (htext.symm.trans htrue)) hne
    · intro hfalse
      obtain rfl := Option.some_inj.mp (htext.symm.trans hfalse)
      have hvalue : coerceBoolean "false" = true := by decide
      simp [hc, checkFor, hvalue]
  have hlisted := (hall (databaseOf c) c).mpr ⟨List.mem_singleton_self _, hproject, hsays⟩
  -- the filter is on the very opposite of the column
  have hstatus : c.orphanedAt.isSome = coerceBoolean text :=
    (mem_listing.mp hlisted).2.2.2.2.2.1 _ (by rw [← hparses.orphaned, htext]; rfl)
  rw [hc] at hstatus
  cases hvalue : coerceBoolean text <;> simp [checkFor, hvalue] at hstatus

/-- A search text with special characters lists a check that does not contain it. -/
theorem not_rangesOver_search (hparses : raw.Parses query) {projectId : Uuid} {search : String}
    (hproject : projectId ∈ projectIds) (hsome : query.search = some search)
    (hspecial : ∃ d ∈ search.toList, d ∈ Like.specials)
    (htrue : ∀ text ∈ raw.orphaned, text = "true") :
    ¬ RangesOver raw query folding projectIds := by
  intro hall
  obtain ⟨name, hlike, hnot⟩ := folding.exists_iLike hspecial
  set c := checkFor query projectId name (some 0) with hc
  obtain ⟨hstate, henvironment, htag⟩ := checkFor_equal query projectId name (some 0)
  have hselects : query.Selects folding.iLike projectIds c := by
    refine ⟨hproject, hstate, henvironment, htag, ?_, ?_⟩
    · intro orphaned hmem
      rw [← hparses.orphaned] at hmem
      obtain ⟨text, htext, rfl⟩ := Option.map_eq_some_iff.mp hmem
      obtain rfl := htrue text htext
      exact (decide_eq_true (by decide)).symm
    · intro search' hsome'
      obtain rfl : search = search' := Option.some_inj.mp (hsome.symm.trans hsome')
      exact hlike
  have hsays := ((hall (databaseOf c) c).mp
    (mem_listing.mpr ⟨List.mem_singleton_self _, hselects⟩)).2.2
  exact hnot (((says_iff hparses).mp hsays).2.2.2.1 search hsome)

/-- **The list ranges over what the filters say** for every database exactly if no project is
given, or no text but `true` asks for orphaned checks and the search text has no special
character. -/
theorem list_filters_iff (folding : CaseFolding) (projectIds : List Uuid)
    (hparses : raw.Parses query) :
    RangesOver raw query folding projectIds ↔
      projectIds = [] ∨ ((∀ text ∈ raw.orphaned, text = "true") ∧
        ∀ text ∈ raw.search, ∀ d ∈ (trimmed text).toList, d ∉ Like.specials) := by
  have horphaned := hparses.orphaned
  have hsearch : (∀ text ∈ raw.search, ∀ d ∈ (trimmed text).toList, d ∉ Like.specials) ↔
      ∀ search ∈ query.search, ∀ d ∈ search.toList, d ∉ Like.specials := by
    rcases optionalOf_eq_some hparses.search with
      ⟨hnone, hnone'⟩ | ⟨text, search, htext, hsome, hvalue⟩
    · simp [hnone, hnone']
    · simp [htext, hsome, searchSchema_eq_some hvalue]
  rw [hsearch]
  constructor
  · intro hall
    by_contra hcondition
    simp only [not_or, not_and, not_forall] at hcondition
    obtain ⟨hprojects, hfilters⟩ := hcondition
    obtain ⟨projectId, hproject⟩ := List.exists_mem_of_ne_nil _ hprojects
    by_cases htrue : ∀ text ∈ raw.orphaned, text = "true"
    · obtain ⟨search, hsome, d, hd, hspecial⟩ := hfilters htrue
      exact not_rangesOver_search hparses hproject hsome ⟨d, hd, not_not.mp hspecial⟩ htrue hall
    · push Not at htrue
      obtain ⟨text, htext, hne⟩ := htrue
      exact not_rangesOver_orphaned hparses hproject htext hne hall
  · intro hcondition db c
    rw [mem_listing]
    refine and_congr_right fun _ => ?_
    rcases hcondition with rfl | ⟨htrue, hordinary⟩
    · exact iff_of_false (fun h => absurd h.1 List.not_mem_nil) fun h => absurd h.1 List.not_mem_nil
    · unfold ListChecksQuery.Selects
      refine and_congr_right fun _ => ?_
      rw [says_iff hparses]
      have hnames : (∀ search ∈ query.search, folding.iLike c.name search = true) ↔
          ∀ search ∈ query.search,
            search.toList.map folding.fold <:+: c.name.toList.map folding.fold :=
        forall₂_congr fun search hsome => CaseFolding.iLike_iff (hordinary search hsome)
      have hstatus : (∀ orphaned ∈ query.orphaned, c.orphanedAt.isSome = orphaned) ↔
          (raw.orphaned = some "true" → c.orphanedAt.isSome = true) ∧
            (raw.orphaned = some "false" → c.orphanedAt = none) := by
        rw [← horphaned]
        cases htext : raw.orphaned with
        | none => simp
        | some text =>
          obtain rfl := htrue text htext
          simp [coerceBoolean]
      rw [hnames, hstatus]
      constructor
      · rintro ⟨hstate, henvironment, htag, horphaned, hsearch⟩
        exact ⟨hstate, henvironment, htag, hsearch, horphaned⟩
      · rintro ⟨hstate, henvironment, htag, hsearch, horphaned⟩
        exact ⟨hstate, henvironment, htag, horphaned, hsearch⟩

/-- The small letter of a capital one. -/
def asciiLower (c : Char) : Char :=
  if 65 ≤ c.toNat ∧ c.toNat ≤ 90 then Char.ofNat (c.toNat + 32) else c

/-- A capital letter becomes a small one. -/
theorem asciiLower_of_capital {c : Char} (hc : 65 ≤ c.toNat ∧ c.toNat ≤ 90) :
    97 ≤ (asciiLower c).toNat ∧ (asciiLower c).toNat ≤ 122 := by
  have hall : ∀ n < 91, 65 ≤ n →
      97 ≤ (Char.ofNat (n + 32)).toNat ∧ (Char.ofNat (n + 32)).toNat ≤ 122 := by
    decide
  rw [asciiLower, if_pos hc]
  exact hall c.toNat (by omega) hc.1

/-- Letter case of ASCII. -/
def asciiFolding : CaseFolding where
  fold := asciiLower
  fold_fold c := by
    by_cases hc : 65 ≤ c.toNat ∧ c.toNat ≤ 90
    · have hlower := asciiLower_of_capital hc
      rw [asciiLower, if_neg (by omega)]
    · have hsame : asciiLower c = c := if_neg hc
      rw [hsame, hsame]
  fold_special s hs c := by
    have hcode : ∀ n ∈ Like.specials.map Char.toNat,
        ¬ (97 ≤ n ∧ n ≤ 122) ∧ ¬ (65 ≤ n ∧ n ≤ 90) := by
      decide
    obtain ⟨hsmall, hcapital⟩ := hcode s.toNat (List.mem_map_of_mem hs)
    by_cases hc : 65 ≤ c.toNat ∧ c.toNat ≤ 90
    · refine iff_of_false ?_ ?_
      · rintro rfl
        exact hsmall (asciiLower_of_capital hc)
      · rintro rfl
        exact hcapital hc
    · rw [asciiLower, if_neg hc]

/-- The query `orphaned=true&search=back`. -/
theorem list_filters_iff_orphaned :
    RangesOver ⟨none, none, none, some "back", some "true"⟩
      ⟨none, none, none, some "back", some true, 50, none, by decide, by decide⟩
        asciiFolding [2] := by
  have htrimmed : trimmed "back" = "back" := by decide
  refine (list_filters_iff asciiFolding [2] ⟨rfl, rfl, rfl, by decide, by decide⟩).mpr
    (Or.inr ⟨by simp, ?_⟩)
  rintro text ⟨⟩
  rw [htrimmed]
  simp [Like.specials]

/-- `orphaned=false` lists no check that is not orphaned. -/
theorem not_rangesOver_known :
    ¬ ∀ (raw : ListChecksText) (query : ListChecksQuery), raw.Parses query →
      RangesOver raw query asciiFolding [2] := by
  intro h
  have hlisted := h ⟨none, none, none, none, some "false"⟩
    ⟨none, none, none, none, some true, 50, none, by decide, by decide⟩
    ⟨rfl, rfl, rfl, rfl, by decide⟩ (databaseOf (Database.plainCheck 1 2 3 0))
    (Database.plainCheck 1 2 3 0)
  have hselects := (mem_listing.mp (hlisted.mpr ⟨List.mem_singleton_self _, by decide,
    ⟨by simp, by simp, by simp, by simp, by simp, fun _ => rfl⟩⟩)).2
  exact absurd (hselects.2.2.2.2.1 true rfl) (by decide)

end SilenceWatch
