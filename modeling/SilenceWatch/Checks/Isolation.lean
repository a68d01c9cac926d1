import Mathlib.Data.Fintype.EquivFin
import SilenceWatch.Checks.History

/-!
# What a page tells of other projects

The access rules decide which checks a principal may read the history of. The cursor of a
page is a row id, of a table that all projects share, and nothing asks whose row it is.
-/

namespace SilenceWatch

open Relational

namespace Database

/-- The check is one of a project that the principal sees. -/
def SeesCheck (db : Database) (principal : Principal) (checkId : Uuid) : Prop :=
  ∃ c ∈ db.checks.rows, c.id = checkId ∧ c.projectId ∈ db.visibleProjectIds principal
  deriving Decidable

/-- Two databases with the same rows of the projects that the principal sees, which are the
same projects in both. -/
structure SameView (principal : Principal) (db db' : Database) : Prop where
  visible : ∀ projectId, projectId ∈ db.visibleProjectIds principal ↔
    projectId ∈ db'.visibleProjectIds principal
  members : ∀ m, m.projectId ∈ db.visibleProjectIds principal →
    (m ∈ db.members.rows ↔ m ∈ db'.members.rows)
  checks : ∀ c, c.projectId ∈ db.visibleProjectIds principal →
    (c ∈ db.checks.rows ↔ c ∈ db'.checks.rows)
  pings : ∀ p, db.SeesCheck principal p.checkId → (p ∈ db.pings.rows ↔ p ∈ db'.pings.rows)
  incidents : ∀ i, db.SeesCheck principal i.checkId →
    (i ∈ db.incidents.rows ↔ i ∈ db'.incidents.rows)

/-- What is answered does not depend on the rows that the principal does not see. -/
def Isolated (principal : Principal) (db : Database) {α : Type} (answer : Database → α) : Prop :=
  ∀ db', SameView principal db db' → answer db' = answer db

end Database

/-- The cursor of a page of pings is a number that no id can be compared with. -/
def PingCursorRefused (cursor : Option String) : Prop :=
  ∃ id ∈ parseBigIntCursor cursor, ¬ FitsBigint id

/-- The cursor of a page of pings, if it has one, is a ping that the principal may read. -/
def PingCursorSeen (db : Database) (principal : Principal) (cursor : Option String) : Prop :=
  ∀ id ∈ parseBigIntCursor cursor,
    ∃ p ∈ db.pings.rows, p.id = id ∧ db.SeesCheck principal p.checkId

/-- The cursor of a page of incidents, if it has one, is an incident that the principal may
read. -/
def IncidentCursorSeen (db : Database) (principal : Principal) (cursor : Option String) : Prop :=
  ∀ id ∈ parseUuidCursor cursor,
    ∃ i ∈ db.incidents.rows, i.id = id ∧ db.SeesCheck principal i.checkId

/-- The cursor of a page of checks, if it has one, is a check that the principal may read. -/
def CheckCursorSeen (db : Database) (principal : Principal) (cursor : Option Uuid) : Prop :=
  ∀ id ∈ cursor, ∃ c ∈ db.checks.rows, c.id = id ∧ c.projectId ∈ db.visibleProjectIds principal

variable {db db' : Database} {principal : Principal} {checkId projectId : Uuid}

/-- A page like the one of no rows comes from no rows. -/
theorem eq_nil_of_paginate {Row Dto : Type} {idText : Row → String} {map : Row → Dto}
    {rows : List Row} {limit : ℕ} (hlimit : 1 ≤ limit)
    (h : paginate idText rows limit map = paginate idText [] limit map) : rows = [] := by
  cases rows with
  | nil => rfl
  | cons first rest =>
    obtain ⟨limit, rfl⟩ : ∃ n, limit = n + 1 := ⟨limit - 1, by omega⟩
    have hitems := congrArg Page.items h
    simp only [paginate] at hitems
    split at hitems
    · simp at hitems
    · simp at hitems

namespace Database

/-- What a principal may read it may read in either. -/
theorem SameView.assertCheckAccess (h : SameView principal db db')
    (haccess : db.assertCheckAccess principal checkId .member = .ok projectId) :
    db'.assertCheckAccess principal checkId .member = .ok projectId := by
  obtain ⟨c, hfind, rfl, hvisible⟩ := assertCheckAccess_member.mp haccess
  have hid : c.id = checkId := by simpa [findCheck] using List.find?_some hfind
  have hmem := (h.checks c hvisible).mp (List.mem_of_find?_eq_some hfind)
  have hfind' := find?_key (db'.checks.nodup_map Check.id fun _ _ h => h.1) hmem
  rw [hid] at hfind'
  exact assertCheckAccess_member.mpr ⟨c, hfind', rfl, (h.visible _).mp hvisible⟩

/-- The checks of the access rules are those of the projects that the principal sees. -/
theorem seesCheck_of_access
    (haccess : db.assertCheckAccess principal checkId .member = .ok projectId) :
    db.SeesCheck principal checkId := by
  obtain ⟨c, hfind, rfl, hvisible⟩ := assertCheckAccess_member.mp haccess
  exact ⟨c, List.mem_of_find?_eq_some hfind, by simpa [findCheck] using List.find?_some hfind,
    hvisible⟩

/-- A check that reports every hour, of some project. -/
def plainCheck (id projectId pingKey : Uuid) (createdAt : ℤ) : Check where
  scheduleType := .interval
  periodSeconds := some 3600
  cronExpression := none
  timezone := "UTC"
  id := id
  projectId := projectId
  name := "backup"
  slug := "backup"
  key := none
  pingKey := pingKey
  graceSeconds := 300
  state := .new
  pausedReason := none
  lastPingAt := none
  lastStartedAt := none
  lastDurationMs := none
  nextDueAt := none
  source := .manual
  environment := none
  tags := []
  orphanedAt := none
  createdAt := createdAt

/-- Where no check that the principal sees has an id, another project may have a check with
it. -/
theorem exists_stranger_check (db : Database) (principal : Principal) (id : Uuid) (createdAt : ℤ)
    (hunseen : ∀ c ∈ db.checks.rows, c.id = id →
      c.projectId ∉ db.visibleProjectIds principal) :
    ∃ db' c, SameView principal db db' ∧ c.id = id ∧ c.createdAt = createdAt ∧
      c.projectId ∉ db.visibleProjectIds principal ∧
      db'.checks.rows = plant Check.id c db.checks.rows ∧ db'.pings = db.pings ∧
      db'.incidents = db.incidents := by
  obtain ⟨projectId, hproject⟩ := Infinite.exists_notMem_finset
    (db.visibleProjectIds principal ++ db.checks.rows.map Check.projectId).toFinset
  obtain ⟨pingKey, hpingKey⟩ := Infinite.exists_notMem_finset
    (db.checks.rows.map Check.pingKey).toFinset
  simp only [List.mem_toFinset, List.mem_append, List.mem_map, not_or, not_exists, not_and]
    at hproject hpingKey
  let c := plainCheck id projectId pingKey createdAt
  have hdistinct : (plant Check.id c db.checks.rows).Pairwise Check.Distinct := by
    refine List.pairwise_append.mpr
      ⟨db.checks.distinct.filter _, List.pairwise_singleton _ _, fun r hr r' hr' => ?_⟩
    obtain rfl := List.mem_singleton.mp hr'
    obtain ⟨hmem, hid⟩ := List.mem_filter.mp hr
    have hother := hproject.2 r hmem
    exact ⟨by simpa using hid, hpingKey r hmem, fun h => hother h.1, fun h => hother h.2.1⟩
  refine ⟨{ db with checks := ⟨plant Check.id c db.checks.rows, hdistinct⟩ }, c,
    ⟨fun _ => Iff.rfl, fun _ _ => Iff.rfl, fun c' hc' => ?_, fun _ _ => Iff.rfl,
      fun _ _ => Iff.rfl⟩, rfl, rfl, hproject.1, rfl, rfl, rfl⟩
  refine (mem_plant (fun hmem hsame => hunseen c' hmem hsame hc') ?_).symm
  rintro rfl
  exact hproject.1 hc'

/-- Another project may have a check with a new id. -/
theorem exists_stranger (db : Database) (principal : Principal) :
    ∃ db' id, SameView principal db db' ∧ ¬ db.SeesCheck principal id ∧
      db'.pings = db.pings ∧ db'.incidents = db.incidents := by
  obtain ⟨id, hid⟩ := Infinite.exists_notMem_finset (db.checks.rows.map Check.id).toFinset
  simp only [List.mem_toFinset, List.mem_map, not_exists, not_and] at hid
  obtain ⟨db', c, hview, -, -, -, -, hpings, hincidents⟩ :=
    exists_stranger_check db principal id 0 fun c hc hsame => absurd hsame (hid c hc)
  refine ⟨db', id, hview, ?_, hpings, hincidents⟩
  rintro ⟨c, hc, hsame, -⟩
  exact hid c hc hsame

/-- Where no ping that the principal sees has an id, a ping of another project may have it. -/
theorem exists_stranger_ping (db : Database) (principal : Principal) (id : ℕ) (receivedAt : ℤ)
    (hunseen : ∀ p ∈ db.pings.rows, p.id = id → ¬ db.SeesCheck principal p.checkId) :
    ∃ db' p, SameView principal db db' ∧ p.id = id ∧ p.receivedAt = receivedAt ∧
      ¬ db.SeesCheck principal p.checkId ∧
      db'.pings.rows = plant Ping.id p db.pings.rows := by
  obtain ⟨db', checkId, hview, hstranger, hpings, -⟩ := exists_stranger db principal
  let p : Ping := ⟨id, checkId, receivedAt, .success, none, none, none, none, none⟩
  have hdistinct : (plant Ping.id p db.pings.rows).Pairwise Ping.Distinct := by
    refine List.pairwise_append.mpr
      ⟨db.pings.distinct.filter _, List.pairwise_singleton _ _, fun r hr r' hr' => ?_⟩
    obtain rfl := List.mem_singleton.mp hr'
    simpa [Ping.Distinct] using (List.mem_filter.mp hr).2
  have hfresh : ∀ r ∈ plant Ping.id p db.pings.rows, r.id < max db.pings.next (id + 1) := by
    intro r hr
    rcases List.mem_append.mp hr with hr | hr
    · exact lt_max_of_lt_left (db.pings.fresh r (List.mem_filter.mp hr).1)
    · rw [List.mem_singleton.mp hr]
      exact lt_max_of_lt_right (Nat.lt_succ_self id)
  refine ⟨{ db' with pings := ⟨⟨_, hdistinct⟩, _, hfresh⟩ }, p, ⟨hview.visible, hview.members,
    hview.checks, fun p' hp' => ?_, hview.incidents⟩, rfl, rfl, hstranger, rfl⟩
  refine (mem_plant (fun hmem hsame => hunseen p' hmem hsame hp') ?_).symm
  rintro rfl
  exact hstranger hp'

/-- Where no incident that the principal sees has an id, an incident of another project may
have it. -/
theorem exists_stranger_incident (db : Database) (principal : Principal) (id : Uuid)
    (startedAt : ℤ)
    (hunseen : ∀ i ∈ db.incidents.rows, i.id = id → ¬ db.SeesCheck principal i.checkId) :
    ∃ db' i, SameView principal db db' ∧ i.id = id ∧ i.startedAt = startedAt ∧
      ¬ db.SeesCheck principal i.checkId ∧
      db'.incidents.rows = plant Incident.id i db.incidents.rows := by
  obtain ⟨db', checkId, hview, hstranger, -, hincidents⟩ := exists_stranger db principal
  let i : Incident := ⟨id, checkId, startedAt, some startedAt, .missed⟩
  have hdistinct : (plant Incident.id i db.incidents.rows).Pairwise Incident.Distinct := by
    refine List.pairwise_append.mpr
      ⟨db.incidents.distinct.filter _, List.pairwise_singleton _ _, fun r hr r' hr' => ?_⟩
    obtain rfl := List.mem_singleton.mp hr'
    exact ⟨by simpa using (List.mem_filter.mp hr).2, fun h => by cases h.2.2⟩
  have hfresh : ∀ r ∈ plant Incident.id i db.incidents.rows,
      r.id < max db.incidents.next (id + 1) := by
    intro r hr
    rcases List.mem_append.mp hr with hr | hr
    · exact lt_max_of_lt_left (db.incidents.fresh r (List.mem_filter.mp hr).1)
    · rw [List.mem_singleton.mp hr]
      exact lt_max_of_lt_right (Nat.lt_succ_self id)
  refine ⟨{ db' with incidents := ⟨⟨_, hdistinct⟩, _, hfresh⟩ }, i, ⟨hview.visible, hview.members,
    hview.checks, hview.pings, fun i' hi' => ?_⟩, rfl, rfl, hstranger, rfl⟩
  refine (mem_plant (fun hmem hsame => hunseen i' hmem hsame hi') ?_).symm
  rintro rfl
  exact hstranger hi'

end Database

open Database

/-- The databases that look alike look like each other. -/
theorem Database.SameView.refl (principal : Principal) (db : Database) :
    SameView principal db db :=
  ⟨fun _ => Iff.rfl, fun _ _ => Iff.rfl, fun _ _ => Iff.rfl, fun _ _ => Iff.rfl,
    fun _ _ => Iff.rfl⟩

/-- **Pings.** A page of the pings of a check is isolated exactly if its cursor is a ping that
the principal may read, unless the database refuses the cursor or the check has too few. -/
theorem pings_isolated_iff
    (haccess : db.assertCheckAccess principal checkId .member = .ok projectId)
    (query : HistoryQuery) :
    Isolated principal db (fun db => ChecksController.pings db principal checkId query) ↔
      PingCursorRefused query.cursor ∨ PingCursorSeen db principal query.cursor ∨
        (db.pings.rows.filter fun p => p.checkId = checkId).length ≤ 1 := by
  have hservice : ∀ db', SameView principal db db' →
      ChecksController.pings db' principal checkId query =
        (ChecksService.listPings db' checkId query.limit query.cursor).mapError .query := by
    intro db' hview
    simp only [ChecksController.pings, hview.assertCheckAccess haccess]
    rfl
  by_cases hrefused : PingCursorRefused query.cursor
  · -- a refusal is the same in every state
    refine iff_of_true (fun db' hview => ?_) (Or.inl hrefused)
    have hbound : bindBigint (parseBigIntCursor query.cursor) = .error .valueOutOfRange := by
      obtain ⟨id, hid, hlarge⟩ := hrefused
      exact if_neg fun hfits => hlarge (hfits id hid)
    simp only [hservice db' hview, hservice db (SameView.refl principal db),
      ChecksService.listPings, hbound]
    rfl
  rw [or_iff_right hrefused]
  have hbound : bindBigint (parseBigIntCursor query.cursor) =
      .ok (parseBigIntCursor query.cursor) :=
    if_pos fun id hid => by_contra fun hlarge => hrefused ⟨id, hid, hlarge⟩
  let reply : List Ping → Except HistoryError (Page PingDto) := fun rows =>
    .ok (paginate (fun ping => toString ping.id) rows query.limit toPingDto)
  have hanswer : ∀ db', SameView principal db db' →
      ChecksController.pings db' principal checkId query =
        reply (findMany (fun p => p.checkId = checkId) (fun p => toLex (p.receivedAt, p.id))
          Ping.id (parseBigIntCursor query.cursor) (query.limit + 1) db'.pings.rows) := by
    intro db' hview
    rw [hservice db' hview]
    simp only [ChecksService.listPings, hbound]
    rfl
  have hkeys : ∀ db', SameView principal db db' → (db'.pings.rows.map Ping.id).Nodup :=
    fun db' _ => db'.pings.nodup_map Ping.id fun _ _ h => h
  have hview : ∀ db', SameView principal db db' → ∀ p : Ping,
      db.SeesCheck principal p.checkId → (p ∈ db'.pings.rows ↔ p ∈ db.pings.rows) :=
    fun db' h p hp => (h.pings p hp).symm
  have hseen : ∀ p : Ping, p.checkId = checkId → db.SeesCheck principal p.checkId := by
    rintro p rfl
    exact seesCheck_of_access haccess
  have hreply : ∀ rows, reply rows = reply [] → rows = [] :=
    fun rows h => eq_nil_of_paginate query.one_le_limit (Except.ok.inj h)
  rw [PingCursorSeen, ← findMany_isolated_iff hkeys hview hseen
    (exists_stranger_ping db principal) (SameView.refl principal db) (Nat.le_add_left 1 _) hreply]
  refine forall₂_congr fun db' h => ?_
  dsimp only
  rw [hanswer db' h, hanswer db (SameView.refl principal db)]

/-- **Incidents.** A page of the incidents of a check is isolated exactly if its cursor is an
incident that the principal may read, unless the check has too few. -/
theorem incidents_isolated_iff
    (haccess : db.assertCheckAccess principal checkId .member = .ok projectId)
    (query : HistoryQuery) :
    Isolated principal db (fun db => ChecksController.incidents db principal checkId query) ↔
      IncidentCursorSeen db principal query.cursor ∨
        (db.incidents.rows.filter fun i => i.checkId = checkId).length ≤ 1 := by
  let reply : List Incident → Except AccessError (Page IncidentDto) := fun rows =>
    .ok (paginate (fun incident => uuidText incident.id) rows query.limit toIncidentDto)
  have hanswer : ∀ db', SameView principal db db' →
      ChecksController.incidents db' principal checkId query =
        reply (findMany (fun i => i.checkId = checkId) (fun i => toLex (i.startedAt, i.id))
          Incident.id (parseUuidCursor query.cursor) (query.limit + 1) db'.incidents.rows) := by
    intro db' hview
    simp only [ChecksController.incidents, hview.assertCheckAccess haccess, Except.map]
    rfl
  have hkeys : ∀ db', SameView principal db db' →
      (db'.incidents.rows.map Incident.id).Nodup :=
    fun db' _ => db'.incidents.nodup_map Incident.id fun _ _ h => h.1
  have hview : ∀ db', SameView principal db db' → ∀ i : Incident,
      db.SeesCheck principal i.checkId → (i ∈ db'.incidents.rows ↔ i ∈ db.incidents.rows) :=
    fun db' h i hi => (h.incidents i hi).symm
  have hseen : ∀ i : Incident, i.checkId = checkId → db.SeesCheck principal i.checkId := by
    rintro i rfl
    exact seesCheck_of_access haccess
  have hreply : ∀ rows, reply rows = reply [] → rows = [] :=
    fun rows h => eq_nil_of_paginate query.one_le_limit (Except.ok.inj h)
  rw [IncidentCursorSeen, ← findMany_isolated_iff hkeys hview hseen
    (exists_stranger_incident db principal) (SameView.refl principal db) (Nat.le_add_left 1 _)
    hreply]
  refine forall₂_congr fun db' h => ?_
  dsimp only
  rw [hanswer db' h, hanswer db (SameView.refl principal db)]

/-- A list of the checks of no projects is the page of no rows. -/
theorem list_eq (baseUrl : String) (iLike : String → String → Bool) (db : Database)
    (projectIds : List Uuid) (query : ListChecksQuery) :
    ChecksService.list baseUrl iLike db projectIds query =
      paginate (fun check => uuidText check.id) (db.listChecks iLike projectIds query) query.limit
        fun check => toCheckDto check baseUrl := by
  unfold ChecksService.list
  split
  · next hnone =>
    have hrows : db.listChecks iLike projectIds query = [] := by
      refine findMany_of_none fun c _ hselected => ?_
      rw [List.eq_nil_of_length_eq_zero hnone] at hselected
      exact List.not_mem_nil hselected.1
    rw [hrows]
    rfl
  · rfl

/-- **Checks.** A page of the list of checks is isolated exactly if its cursor is a check that
the principal may read, unless too few are listed. -/
theorem checks_isolated_iff (baseUrl : String) (iLike : String → String → Bool) (db : Database)
    (principal : Principal) (query : ListChecksQuery) :
    Isolated principal db (fun db => ChecksController.list baseUrl iLike db principal query) ↔
      CheckCursorSeen db principal query.cursor ∨
        (db.checks.rows.filter
          (query.Selects iLike (db.visibleProjectIds principal))).length ≤ 1 := by
  let reply : List Check → Page CheckDto := fun rows =>
    paginate (fun check => uuidText check.id) rows query.limit fun check =>
      toCheckDto check baseUrl
  have hanswer : ∀ db', SameView principal db db' →
      ChecksController.list baseUrl iLike db' principal query =
        reply (findMany (query.Selects iLike (db.visibleProjectIds principal))
          (fun c => toLex (c.createdAt, c.id)) Check.id query.cursor (query.limit + 1)
          db'.checks.rows) := by
    intro db' hview
    have hselects : ∀ c, query.Selects iLike (db'.visibleProjectIds principal) c ↔
        query.Selects iLike (db.visibleProjectIds principal) c := by
      intro c
      rw [ListChecksQuery.Selects, ListChecksQuery.Selects, hview.visible]
    have hfilter : db'.checks.rows.filter (query.Selects iLike (db'.visibleProjectIds principal)) =
        db'.checks.rows.filter (query.Selects iLike (db.visibleProjectIds principal)) :=
      List.filter_congr fun c _ => by simp only [hselects]
    rw [ChecksController.list, list_eq]
    refine congrArg reply (findMany_congr (List.Perm.of_eq hfilter) ?_ fun _ _ => rfl)
    intro c hc c' hc' hplace
    exact db'.eq_of_check_id hc hc' (Prod.mk.inj hplace).2
  have hkeys : ∀ db', SameView principal db db' → (db'.checks.rows.map Check.id).Nodup :=
    fun db' _ => db'.check_ids_nodup
  have hview : ∀ db', SameView principal db db' → ∀ c : Check,
      c.projectId ∈ db.visibleProjectIds principal →
        (c ∈ db'.checks.rows ↔ c ∈ db.checks.rows) :=
    fun db' h c hc => (h.checks c hc).symm
  have hseen : ∀ c : Check, query.Selects iLike (db.visibleProjectIds principal) c →
      c.projectId ∈ db.visibleProjectIds principal := fun c hc => hc.1
  have hplant : ∀ (id : ℕ) (t : ℤ), (∀ c ∈ db.checks.rows, c.id = id →
      c.projectId ∉ db.visibleProjectIds principal) →
        ∃ db' c, SameView principal db db' ∧ c.id = id ∧ c.createdAt = t ∧
          c.projectId ∉ db.visibleProjectIds principal ∧
          db'.checks.rows = plant Check.id c db.checks.rows := by
    intro id t hunseen
    obtain ⟨db', c, h, hid, ht, hc, hrows, -⟩ := exists_stranger_check db principal id t hunseen
    exact ⟨db', c, h, hid, ht, hc, hrows⟩
  have hreply : ∀ rows, reply rows = reply [] → rows = [] :=
    fun rows h => eq_nil_of_paginate query.one_le_limit h
  rw [CheckCursorSeen, ← findMany_isolated_iff hkeys hview hseen hplant
    (SameView.refl principal db) (Nat.le_add_left 1 _) hreply]
  refine forall₂_congr fun db' h => ?_
  dsimp only
  rw [hanswer db' h, hanswer db (SameView.refl principal db)]

/-- **The pages of a principal do not depend on the rows of other projects if and only if their
cursors name no such rows**, nor rows that do not exist, unless the database refuses the cursor
or too few rows are listed for a page after one. -/
theorem history_isolated_iff (baseUrl : String) (iLike : String → String → Bool) (db : Database)
    (principal : Principal) (checkId projectId : Uuid)
    (haccess : db.assertCheckAccess principal checkId .member = .ok projectId)
    (history : HistoryQuery) (query : ListChecksQuery) :
    (Isolated principal db (fun db => ChecksController.pings db principal checkId history) ↔
        PingCursorRefused history.cursor ∨ PingCursorSeen db principal history.cursor ∨
          (db.pings.rows.filter fun p => p.checkId = checkId).length ≤ 1) ∧
      (Isolated principal db
          (fun db => ChecksController.incidents db principal checkId history) ↔
        IncidentCursorSeen db principal history.cursor ∨
          (db.incidents.rows.filter fun i => i.checkId = checkId).length ≤ 1) ∧
      (Isolated principal db (fun db => ChecksController.list baseUrl iLike db principal query) ↔
        CheckCursorSeen db principal query.cursor ∨
          (db.checks.rows.filter
            (query.Selects iLike (db.visibleProjectIds principal))).length ≤ 1) :=
  ⟨pings_isolated_iff haccess history, incidents_isolated_iff haccess history,
    checks_isolated_iff baseUrl iLike db principal query⟩

/-- Two projects of two users with a check each. The first check has reported twice. -/
def twoTenants : Database where
  users := ⟨[⟨1, "owner@example.com", none⟩, ⟨2, "other@example.com", none⟩], by decide⟩
  members := ⟨[⟨1, 1, .owner⟩, ⟨2, 2, .owner⟩], by decide⟩
  checks := ⟨[plainCheck 10 1 30 0, plainCheck 20 2 40 0], by decide⟩
  pings := ⟨⟨[⟨1, 10, 1000, .success, none, none, none, none, none⟩,
    ⟨2, 10, 2000, .success, none, none, none, none, none⟩], by decide⟩, 3, by decide⟩
  incidents := SerialTable.empty
  channels := Table.empty
  deliveries := SerialTable.empty

/-- The second check has reported as well. -/
def otherTenantReports : Database :=
  { twoTenants with
    pings := ⟨⟨twoTenants.pings.rows ++ [⟨3, 20, 3000, .success, none, none, none, none, none⟩],
      by decide⟩, 4, by decide⟩ }

/-- A query with a cursor. -/
def historyAfter (cursor : String) : HistoryQuery := ⟨50, some cursor, by decide, by decide⟩

/-- The list of all checks. -/
def allChecks : ListChecksQuery :=
  ⟨none, none, none, none, none, 50, none, by decide, by decide⟩

/-- The page after the user's own ping is the same whatever the other project does. -/
theorem history_isolated_ownCursor :
    Isolated (.user 1) twoTenants
        (fun db => ChecksController.pings db (.user 1) 10 (historyAfter "2")) ∧
      Isolated (.user 1) twoTenants
        (fun db => ChecksController.list "https://example.com" (fun _ _ => true) db (.user 1)
          allChecks) := by
  have h := history_isolated_iff "https://example.com" (fun _ _ => true) twoTenants (.user 1) 10 1
    (by decide) (historyAfter "2") allChecks
  exact ⟨h.1.mpr (Or.inr (Or.inl (by unfold PingCursorSeen; decide))),
    h.2.2.mpr (Or.inl (by unfold CheckCursorSeen; decide))⟩

/-- A page tells whether the other project has reported under a guessed id. -/
theorem foreign_cursor_tells :
    ¬ ∀ (baseUrl : String) (iLike : String → String → Bool) (principal : Principal)
      (db db' : Database) (checkId projectId : Uuid) (history : HistoryQuery)
      (query : ListChecksQuery),
      db.assertCheckAccess principal checkId .member = .ok projectId →
      SameView principal db db' →
      ChecksController.pings db' principal checkId history =
          ChecksController.pings db principal checkId history ∧
        ChecksController.incidents db' principal checkId history =
          ChecksController.incidents db principal checkId history ∧
        ChecksController.list baseUrl iLike db' principal query =
          ChecksController.list baseUrl iLike db principal query := by
  intro h
  have hview : SameView (.user 1) twoTenants otherTenantReports := by
    refine ⟨fun _ => Iff.rfl, fun _ _ => Iff.rfl, fun _ _ => Iff.rfl, fun p hp => ?_,
      fun _ _ => Iff.rfl⟩
    have hother : p ≠ ⟨3, 20, 3000, .success, none, none, none, none, none⟩ := by
      rintro rfl
      revert hp
      decide
    simp [otherTenantReports, hother]
  have hpages := (h "https://example.com" (fun _ _ => true) (.user 1) twoTenants
    otherTenantReports 10 1 (historyAfter "3") allChecks (by decide) hview).1
  revert hpages
  decide

end SilenceWatch
