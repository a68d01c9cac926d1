import SilenceWatch.Checks.Cursors
import SilenceWatch.Checks.Isolation

/-!
# Walks through the pages of a list

A client that starts without a cursor and follows `nextCursor` until there is none. The
database may change from one request to the next.
-/

namespace SilenceWatch

open Relational

/-- The items of all pages from a cursor on, if so many requests are enough and none of them is
refused; `answer` is what a request is answered, by its number and its cursor. -/
def follow {Dto : Type} (answer : ℕ → Option String → Option (Page Dto)) :
    ℕ → ℕ → Option String → Option (List Dto)
  | 0, _, _ => none
  | fuel + 1, k, cursor => do
    let page ← answer k cursor
    match page.nextCursor with
    | none => return page.items
    | some next => return page.items ++ (← follow answer fuel (k + 1) (some next))

section Follow

variable {Row Dto : Type} {answer : ℕ → Option String → Option (Page Dto)} {idText : Row → String}
  {map : Row → Dto} {limit : ℕ} {listed : List Row}

/-- A walk goes through what is left of a list, if each page after a row begins with the next
one. -/
theorem follow_of_suffix (hlimit : 1 ≤ limit)
    (hanswer : ∀ k above last below, listed = above ++ last :: below →
      answer k (some (idText last)) = some (paginate idText (below.take (limit + 1)) limit map))
    {fuel k : ℕ} {cursor : Option String} {above below : List Row}
    (hlisted : listed = above ++ below)
    (hpage : answer k cursor = some (paginate idText (below.take (limit + 1)) limit map))
    (hfuel : below.length < fuel) : follow answer fuel k cursor = some (below.map map) := by
  induction fuel generalizing k cursor above below with
  | zero => exact absurd hfuel (Nat.not_lt_zero _)
  | succ fuel ih =>
    by_cases hmore : limit < below.length
    · have hlength : limit < (below.take (limit + 1)).length := by
        rw [List.length_take]
        omega
      have htaken : (below.take (limit + 1)).take limit = below.take limit := by
        rw [List.take_take, Nat.min_eq_left (Nat.le_succ limit)]
      have hsome : below.take limit ≠ [] := by
        intro hnil
        have hnone := congrArg List.length hnil
        rw [List.length_take, List.length_nil] at hnone
        omega
      have hlast := List.getLast?_eq_getLast_of_ne_nil hsome
      have hsplit := List.dropLast_append_getLast hsome
      have hrest : listed =
          (above ++ (below.take limit).dropLast) ++ (below.take limit).getLast hsome ::
            below.drop limit := by
        rw [hlisted, List.append_assoc, ← List.singleton_append, ← List.append_assoc
          (below.take limit).dropLast, hsplit, List.take_append_drop]
      have hnext := hanswer (k + 1) _ _ _ hrest
      have hlater := ih (by rw [hrest, List.append_cons]) hnext (by
        rw [List.length_drop]
        omega)
      simp only [follow, hpage, Option.bind_eq_bind, Option.bind_some, paginate, if_pos hlength,
        htaken, hlast, Option.map_some, hlater, Option.pure_def]
      rw [← List.map_append, List.take_append_drop]
    · have hall : below.take (limit + 1) = below := List.take_of_length_le (by omega)
      simp only [follow, hpage, Option.bind_eq_bind, Option.bind_some, hall, paginate, if_neg hmore,
        Option.pure_def]

/-- A walk from the beginning goes through the whole list. -/
theorem follow_of_start (hlimit : 1 ≤ limit)
    (hanswer : ∀ k above last below, listed = above ++ last :: below →
      answer k (some (idText last)) = some (paginate idText (below.take (limit + 1)) limit map))
    (hstart : answer 0 none = some (paginate idText (listed.take (limit + 1)) limit map))
    {fuel : ℕ} (hfuel : listed.length < fuel) :
    follow answer fuel 0 none = some (listed.map map) :=
  follow_of_suffix hlimit hanswer (List.nil_append listed).symm hstart hfuel

end Follow

section Texts

/-- The digits in front and those behind. -/
theorem hexDigits_add (width width' n : ℕ) :
    hexDigits (width + width') n = hexDigits width (n / 16 ^ width') ++ hexDigits width' n := by
  induction width' generalizing n with
  | zero => simp [hexDigits]
  | succ width' ih =>
    have hdiv : n / 16 / 16 ^ width' = n / 16 ^ (width' + 1) := by
      rw [Nat.div_div_eq_div_mul, Nat.pow_succ']
    rw [← Nat.add_assoc, hexDigits, hexDigits, ih, hdiv, List.append_assoc]

/-- As many digits as were asked for. -/
theorem length_hexDigits (width n : ℕ) : (hexDigits width n).length = width := by
  induction width generalizing n with
  | zero => rfl
  | succ width ih => rw [hexDigits, List.length_append, ih, List.length_singleton]

/-- What holds of each digit holds of what is written with them. -/
theorem forall_mem_hexDigits {P : Char → Prop} (hdigit : ∀ v < 16, P v.digitChar) {width n : ℕ}
    {c : Char} (hc : c ∈ hexDigits width n) : P c := by
  induction width generalizing n with
  | zero => cases hc
  | succ width ih =>
    rw [hexDigits, List.mem_append, List.mem_singleton] at hc
    rcases hc with hc | rfl
    · exact ih hc
    · exact hdigit (n % 16) (Nat.mod_lt n (by omega))

/-- They are hexadecimal. -/
theorem isHexDigit_of_mem_hexDigits {width n : ℕ} {c : Char} (hc : c ∈ hexDigits width n) :
    Numeral.isHexDigit c :=
  forall_mem_hexDigits (P := fun c => Numeral.isHexDigit c) (by decide) hc

/-- The digits of a number have its value, as far as they reach. -/
theorem foldl_hexDigits (width n start : ℕ) :
    (hexDigits width n).foldl (fun n c => 16 * n + hexValue c) start =
      start * 16 ^ width + n % 16 ^ width := by
  have hdigit : ∀ v < 16, hexValue v.digitChar = v := by decide
  induction width generalizing n with
  | zero => simp [hexDigits, Nat.mod_one]
  | succ width ih =>
    have hmod : n % 16 ^ (width + 1) = 16 * (n / 16 % 16 ^ width) + n % 16 := by
      rw [Nat.pow_succ', Nat.mod_mul, Nat.add_comm]
    rw [hexDigits, List.foldl_append, ih, List.foldl_cons, List.foldl_nil,
      hdigit _ (Nat.mod_lt n (by omega)), hmod, Nat.pow_succ', Nat.mul_add, Nat.add_assoc,
      Nat.mul_left_comm]

/-- **An id is read from its text.** -/
theorem uuidOf?_uuidText {id : Uuid} (hid : id < 2 ^ 128) : uuidOf? (uuidText id) = some id := by
  have hdash : ∀ width n, '-' ∉ hexDigits width n := by
    intro width n hmem
    exact absurd (isHexDigit_of_mem_hexDigits hmem) (by decide)
  have hsplit : (uuidText id).toList.splitOn '-' =
      [hexDigits 8 (id / 16 ^ 24), hexDigits 4 (id / 16 ^ 20), hexDigits 4 (id / 16 ^ 16),
        hexDigits 4 (id / 16 ^ 12), hexDigits 12 (id / 16 ^ 0)] := by
    unfold uuidText
    rw [String.toList_ofList, List.splitOn_intercalate]
    · simp [hdash]
    · simp
  have hjoined : [hexDigits 8 (id / 16 ^ 24), hexDigits 4 (id / 16 ^ 20),
      hexDigits 4 (id / 16 ^ 16), hexDigits 4 (id / 16 ^ 12), hexDigits 12 (id / 16 ^ 0)].flatten =
        hexDigits 32 id := by
    rw [show hexDigits 32 id = _ from hexDigits_add 20 12 id,
      show hexDigits 20 _ = _ from hexDigits_add 16 4 (id / 16 ^ 12),
      show hexDigits 16 _ = _ from hexDigits_add 12 4 (id / 16 ^ 12 / 16 ^ 4),
      show hexDigits 12 (id / 16 ^ 12 / 16 ^ 4 / 16 ^ 4) = _ from hexDigits_add 8 4 _]
    simp only [Nat.div_div_eq_div_mul, ← Nat.pow_add, Nat.pow_zero, Nat.div_one, List.flatten_cons,
      List.flatten_nil, List.append_nil, List.append_assoc]
  unfold uuidOf?
  simp only [hsplit]
  rw [hjoined, if_pos, foldl_hexDigits, Nat.zero_mul, Nat.zero_add, Nat.mod_eq_of_lt]
  · exact hid
  · exact ⟨by simp [length_hexDigits], List.all_eq_true.mpr fun c hc =>
      isHexDigit_of_mem_hexDigits hc⟩

/-- A ping id is read from its text. -/
theorem parseBigIntCursor_toString {n : ℕ} (hn : FitsBigint n) :
    parseBigIntCursor (some (toString n)) = some n := by
  have htext : (toString n).toList = Nat.toDigits 10 n := by
    rw [Nat.toString_eq_repr, Nat.repr_eq_ofList_toDigits, String.toList_ofList]
  refine parseBigIntCursor_eq_some.mpr ⟨⟨?_, ?_, ?_⟩, ?_⟩
  · rw [htext]
    exact Nat.length_toDigits_pos
  · rw [htext, Nat.length_toDigits_le_iff (by decide) (by decide)]
    exact hn.trans (by decide)
  · rw [htext]
    exact List.all_eq_true.mpr fun c hc => Nat.isDigit_of_mem_toDigits (by decide) (by decide) hc
  · rw [bigIntOf, htext, Numeral.value_toDigits (by decide) (by decide)]

end Texts

/-- A version 4 id, which is what `gen_random_uuid()` returns. -/
def IsUuidV4 (id : Uuid) : Prop :=
  id < 2 ^ 128 ∧ id / 16 ^ 19 % 16 = 4 ∧ 8 ≤ id / 16 ^ 15 % 16 ∧ id / 16 ^ 15 % 16 ≤ 11
  deriving Decidable

/-- `uuidSchema`: an id with a version from 1 to 8 and the variant of such ids, or one of the
two that have neither. -/
def uuidSchema (text : String) : Option Uuid :=
  (uuidOf? text).filter fun id =>
    ((1 ≤ id / 16 ^ 19 % 16 ∧ id / 16 ^ 19 % 16 ≤ 8) ∧
      8 ≤ id / 16 ^ 15 % 16 ∧ id / 16 ^ 15 % 16 ≤ 11) ∨ id = 0 ∨ id = 2 ^ 128 - 1

/-- `ChecksService.list` with the cursor of a request, if the schema accepts that. -/
def ChecksService.askChecks (baseUrl : String) (iLike : String → String → Bool) (db : Database)
    (projectIds : List Uuid) (query : ListChecksQuery) (cursor : Option String) :
    Option (Page CheckDto) :=
  match cursor with
  | none => some (list baseUrl iLike db projectIds { query with cursor := none })
  | some text => (uuidSchema text).map fun id =>
    list baseUrl iLike db projectIds { query with cursor := some id }

/-- Walking ends, if only enough requests are made, with every row of a table that a list is
about, once and in the order of the list. -/
def VisitsAll {Row Rank Dto : Type} [LinearOrder Rank]
    (answer : ℕ → Option String → Option (Page Dto))
    (p : Row → Prop) (rank : Row → Rank) (map : Row → Dto) (table : List Row) : Prop :=
  ∃ rows, InOrder p rank table rows ∧
    ∀ fuel, rows.length < fuel → follow answer fuel 0 none = some (rows.map map)

section Walks

variable {Row Key Rank Dto : Type} [DecidableEq Key] [LinearOrder Rank] {p : Row → Prop}
  [DecidablePred p] {rank : Row → Rank} {key : Row → Key} {tables : ℕ → List Row}
  {answer : ℕ → Option String → Option (Page Dto)} {idText : Row → String} {map : Row → Dto}
  {limit : ℕ}

/-- **Walks.** Pages of a table that grows at the newest end only, each read where the one before
ended, are together what there was to list at the start. -/
theorem visitsAll_of_pages (hlimit : 1 ≤ limit) (hkeys : ∀ k, ((tables k).map key).Nodup)
    (hrank : ∀ r r', rank r = rank r' → key r = key r')
    (hgrows : ∀ k, NewestInserted p rank (tables k) (tables (k + 1)))
    (hstart : answer 0 none =
      some (paginate idText (findMany p rank key none (limit + 1) (tables 0)) limit map))
    (hnext : ∀ k, ∀ r ∈ tables k, p r → answer k (some (idText r)) =
      some (paginate idText (findMany p rank key (some (key r)) (limit + 1)
        (tables k)) limit map)) :
    VisitsAll answer p rank map (tables 0) := by
  refine ⟨listing p rank (tables 0), inOrder_listing (hkeys 0) hrank, fun fuel hfuel => ?_⟩
  apply follow_of_start hlimit _ hstart hfuel
  intro k above last below hlisted
  have hgrown := newestInserted_of_step hgrows k
  have hthere : last ∈ listing p rank (tables 0) := by simp [hlisted]
  obtain ⟨hmem, hp⟩ := mem_listing.mp hthere
  rw [hnext k last (hgrown.kept last hmem) hp,
    findMany_after hgrown (hkeys 0) (hkeys k) hrank hlisted]

/-- The schema accepts the cursors of pages of checks. -/
theorem uuidSchema_uuidText {id : Uuid} (hid : IsUuidV4 id) :
    uuidSchema (uuidText id) = some id := by
  obtain ⟨hlt, hversion, hvariant⟩ := hid
  unfold uuidSchema
  rw [uuidOf?_uuidText hlt, Option.filter_some, if_pos]
  have hversions : 1 ≤ id / 16 ^ 19 % 16 ∧ id / 16 ^ 19 % 16 ≤ 8 := by
    rw [hversion]
    decide
  exact decide_eq_true (Or.inl ⟨hversions, hvariant⟩)

/-- The database takes a cursor that fits. -/
theorem bindBigint_of_fits {n : ℕ} (hn : FitsBigint n) : bindBigint (some n) = .ok (some n) := by
  apply if_pos
  intro m hm
  cases hm
  exact hn

/-- **Walking pages loses and repeats nothing**, for the lists of pings, incidents and checks. -/
theorem walks_visit_all (dbs : ℕ → Database) (limit : ℕ) (hlimit : 1 ≤ limit) :
    (∀ checkId, (∀ k, ∀ ping ∈ (dbs k).pings.rows, FitsBigint ping.id) →
      (∀ k, NewestInserted (fun ping : Ping => ping.checkId = checkId) Ping.place
        (dbs k).pings.rows (dbs (k + 1)).pings.rows) →
      VisitsAll (fun k cursor => (ChecksService.listPings (dbs k) checkId limit cursor).toOption)
        (fun ping => ping.checkId = checkId) Ping.place toPingDto (dbs 0).pings.rows) ∧
    (∀ checkId, (∀ k, ∀ incident ∈ (dbs k).incidents.rows, incident.id < 2 ^ 128) →
      (∀ k, NewestInserted (fun incident : Incident => incident.checkId = checkId) Incident.place
        (dbs k).incidents.rows (dbs (k + 1)).incidents.rows) →
      VisitsAll (fun k cursor => some (ChecksService.listIncidents (dbs k) checkId limit cursor))
        (fun incident => incident.checkId = checkId) Incident.place toIncidentDto
        (dbs 0).incidents.rows) ∧
    (∀ baseUrl iLike projectIds (query : ListChecksQuery), query.limit = limit →
      (∀ k, ∀ check ∈ (dbs k).checks.rows, IsUuidV4 check.id) →
      (∀ k, NewestInserted (query.Selects iLike projectIds) Check.place
        (dbs k).checks.rows (dbs (k + 1)).checks.rows) →
      VisitsAll (fun k => ChecksService.askChecks baseUrl iLike (dbs k) projectIds query)
        (query.Selects iLike projectIds) Check.place (toCheckDto · baseUrl)
        (dbs 0).checks.rows) := by
  refine ⟨?_, ?_, ?_⟩
  · intro checkId hfits hgrows
    refine visitsAll_of_pages hlimit
      (fun k => (dbs k).pings.nodup_map Ping.id fun _ _ h => h)
      (fun r r' hsame => (Prod.mk.inj hsame).2) hgrows rfl ?_
    intro k ping hping _
    have hfit := hfits k ping hping
    simp only [ChecksService.listPings, parseBigIntCursor_toString hfit,
      bindBigint_of_fits hfit, Except.map, Except.toOption]
    rfl
  · intro checkId hfits hgrows
    refine visitsAll_of_pages hlimit
      (fun k => (dbs k).incidents.nodup_map Incident.id fun _ _ h => h.1)
      (fun r r' hsame => (Prod.mk.inj hsame).2) hgrows rfl ?_
    intro k incident hincident _
    have hparse : parseUuidCursor (some (uuidText incident.id)) = some incident.id := by
      rw [parseUuidCursor, Option.bind_some, uuidOf?_uuidText (hfits k incident hincident)]
    simp only [ChecksService.listIncidents, hparse]
    rfl
  · rintro baseUrl iLike projectIds query rfl hids hgrows
    have hlist : ∀ k cursor, ChecksService.list baseUrl iLike (dbs k) projectIds
        { query with cursor := cursor } =
          paginate (fun check => uuidText check.id) (findMany (query.Selects iLike projectIds)
            Check.place Check.id cursor (query.limit + 1) (dbs k).checks.rows) query.limit
            (toCheckDto · baseUrl) := by
      intro k cursor
      unfold ChecksService.list
      split
      · next hnone =>
        have hnothing : ∀ check ∈ (dbs k).checks.rows, ¬ query.Selects iLike projectIds check := by
          intro check _ hselected
          rw [List.length_eq_zero_iff.mp hnone] at hselected
          exact absurd hselected.1 List.not_mem_nil
        rw [findMany_of_none hnothing]
        rfl
      · rfl
    refine visitsAll_of_pages hlimit (fun k => (dbs k).check_ids_nodup)
      (fun r r' hsame => (Prod.mk.inj hsame).2) hgrows (congrArg some (hlist 0 none)) ?_
    intro k check hcheck _
    simp only [ChecksService.askChecks, uuidSchema_uuidText (hids k check hcheck), Option.map_some]
    rw [hlist]

end Walks

/-- A check with two pings, and from the second request on with a third one. -/
def reportingTenants : ℕ → Database
  | 0 => { twoTenants with
      checks := ⟨[Database.plainCheck 0x0b9f1c3e4c1a4f6e9d2a7b8c9d0e1f2a 1 30 0], by decide⟩ }
  | _ + 1 => { twoTenants with
      checks := ⟨[Database.plainCheck 0x0b9f1c3e4c1a4f6e9d2a7b8c9d0e1f2a 1 30 0], by decide⟩
      pings := ⟨⟨twoTenants.pings.rows ++ [⟨3, 10, 2000, .fail, none, none, none, none, none⟩],
        by decide⟩, 4, by decide⟩ }

/-- The list of all checks, one on a page. -/
def oneByOne : ListChecksQuery :=
  ⟨none, none, none, none, none, 1, none, by decide, by decide⟩

/-- Walks in pages of one row. -/
theorem walks_visit_all_reporting :
    VisitsAll (fun k cursor => (ChecksService.listPings (reportingTenants k) 10 1 cursor).toOption)
        (fun ping => ping.checkId = 10) Ping.place toPingDto (reportingTenants 0).pings.rows ∧
      VisitsAll (fun k cursor =>
        some (ChecksService.listIncidents (reportingTenants k) 10 1 cursor))
        (fun incident => incident.checkId = 10) Incident.place toIncidentDto
        (reportingTenants 0).incidents.rows ∧
      VisitsAll (fun k => ChecksService.askChecks "https://example.com" (fun _ _ => true)
          (reportingTenants k) [1] oneByOne)
        (oneByOne.Selects (fun _ _ => true) [1]) Check.place (toCheckDto · "https://example.com")
        (reportingTenants 0).checks.rows := by
  have h := walks_visit_all reportingTenants 1 (Nat.le_refl 1)
  refine ⟨h.1 10 ?_ ?_, h.2.1 10 ?_ ?_,
    h.2.2 "https://example.com" (fun _ _ => true) [1] oneByOne rfl
    ?_ ?_⟩
  · rintro (_ | k)
    · decide
    · show ∀ ping ∈ (reportingTenants 1).pings.rows, FitsBigint ping.id
      decide
  · rintro (_ | k)
    · exact ⟨by decide, by decide⟩
    · exact NewestInserted.refl _ _ _
  · rintro (_ | k) incident hincident
    · cases hincident
    · cases hincident
  · rintro (_ | k)
    · exact NewestInserted.refl _ _ _
    · exact NewestInserted.refl _ _ _
  · rintro (_ | k)
    · decide
    · show ∀ check ∈ (reportingTenants 1).checks.rows, IsUuidV4 check.id
      decide
  · rintro (_ | k)
    · exact NewestInserted.refl _ _ _
    · exact NewestInserted.refl _ _ _

end SilenceWatch
