import SilenceWatch.Checks.Service

/-!
# Declaring checks

`POST /api/v1/checks/sync`: the whole payload is upserted by (project, key,
environment) in one statement, within what the owner's plan has room for, and
the declared checks that are absent from it are flagged as orphaned.
-/

namespace SilenceWatch

open Relational

/-- `syncCheckSchema`: one declared job. -/
structure SyncCheck where
  key : String
  name : String
  cron : Option String
  intervalSeconds : Option ℤ
  timezone : Option String
  graceSeconds : Option ℤ
  tags : Option (List String)
  deriving DecidableEq

/-- `syncRequestSchema`. -/
structure SyncRequest where
  environment : Option String
  prune : Bool
  checks : List SyncCheck
  deriving DecidableEq

/-- One row of the payload as the upsert reads it. -/
structure SyncRow where
  key : String
  name : String
  slug : String
  schedule : Schedule
  graceSeconds : ℤ
  tags : List String
  nextDueAt : ℤ
  deriving DecidableEq

/-- What the upsert returns for a row. -/
structure UpsertedCheck where
  id : Uuid
  key : String
  pingKey : Uuid
  created : Bool
  deriving DecidableEq

/-- `SyncResultDto`. -/
structure SyncResult where
  checks : List UpsertedCheck
  orphaned : List String
  skipped : List String
  deriving DecidableEq

/-- Applied when a client declares a job without one. -/
def defaultGraceSeconds : ℤ := 300

/-- The schedule a declared job describes. -/
def SyncCheck.schedule (incoming : SyncCheck) : Schedule :=
  match incoming.cron with
  | none =>
    { scheduleType := .interval
      periodSeconds := incoming.intervalSeconds
      cronExpression := none
      timezone := incoming.timezone.getD defaultTimezone }
  | some cron =>
    { scheduleType := .cron
      cronExpression := some cron
      periodSeconds := none
      timezone := incoming.timezone.getD defaultTimezone }

/-- The slug of a declared check, from its name, key and environment. -/
abbrev SyncSlug := String → String → Option String → String

/-- The row of one declared job, or the refusal of its schedule. -/
def SyncCheck.toRow (cron : CronParser) (syncSlug : SyncSlug) (now : ℤ)
    (environment : Option String) (incoming : SyncCheck) : Except ServiceError SyncRow :=
  match computeNextDueAt cron incoming.schedule now with
  | .error e => .error (.badRequest ("Check \"" ++ incoming.key ++ "\": " ++ e.message))
  | .ok nextDueAt =>
    .ok
      { key := incoming.key
        name := incoming.name
        slug := syncSlug incoming.name incoming.key environment
        schedule := incoming.schedule
        graceSeconds := incoming.graceSeconds.getD defaultGraceSeconds
        tags := incoming.tags.getD []
        nextDueAt }

/-- The rows of a payload in order; `seen` holds the keys met so far. -/
def syncRows (cron : CronParser) (syncSlug : SyncSlug) (now : ℤ) (environment : Option String) :
    List String → List SyncCheck → Except ServiceError (List SyncRow)
  | _, [] => .ok []
  | seen, incoming :: rest =>
    if incoming.key ∈ seen then
      .error (.badRequest ("Duplicate check key in payload: \"" ++ incoming.key ++ "\""))
    else do
      let row ← incoming.toRow cron syncSlug now environment
      let rows ← syncRows cron syncSlug now environment (incoming.key :: seen) rest
      .ok (row :: rows)

/-- Keys of this environment that already exist, the ones a sync would update. -/
def findExistingKeys (db : Database) (projectId : Uuid) (keys : List String)
    (environment : Option String) : List String :=
  (db.checks.rows.filter fun c => c.projectId = projectId ∧ c.environment = environment).filterMap
    fun c => c.key.filter fun key => key ∈ keys

/-- The keys that must not be created because the owner's plan has no room left:
the new ones past the first `remaining`, in payload order. -/
def applyCheckQuota (quotas : QuotaConfig) (db : Database) (projectId : Uuid)
    (rows : List SyncRow) (environment : Option String) : List String :=
  match quotas.remainingChecks db projectId with
  | none => []
  | some remaining =>
    let known := findExistingKeys db projectId (rows.map SyncRow.key) environment
    let wouldCreate := rows.filter fun row => row.key ∉ known
    if wouldCreate.length ≤ remaining then [] else (wouldCreate.drop remaining).map SyncRow.key

/-- The row an upsert inserts. -/
def SyncRow.toCheck (row : SyncRow) (projectId : Uuid) (environment : Option String)
    (id pingKey : Uuid) (now : ℤ) : Check where
  toSchedule := row.schedule
  id := id
  projectId := projectId
  name := row.name
  slug := row.slug
  key := some row.key
  pingKey := pingKey
  graceSeconds := row.graceSeconds
  state := .new
  pausedReason := none
  lastPingAt := none
  lastStartedAt := none
  lastDurationMs := none
  nextDueAt := some row.nextDueAt
  source := .auto
  environment := environment
  tags := row.tags
  orphanedAt := none
  createdAt := now

/-- `ON CONFLICT ... DO UPDATE SET`: the deadline only moves when the schedule
actually changed. -/
def SyncRow.onConflict (row : SyncRow) (c : Check) : Check :=
  { c with
    toSchedule := row.schedule
    name := row.name
    graceSeconds := row.graceSeconds
    tags := row.tags
    orphanedAt := none
    nextDueAt := if c.toSchedule ≠ row.schedule then some row.nextDueAt else c.nextDueAt }

/-- The conflict target of the upsert: the declared identity of a row. -/
def Check.DeclaredAs (projectId : Uuid) (environment : Option String) (key : String)
    (c : Check) : Prop :=
  c.projectId = projectId ∧ c.key = some key ∧ c.environment.getD "" = environment.getD ""
  deriving Decidable

/-- A conflicting row keeps every indexed column. -/
theorem SyncRow.onConflict_keepsDistinct (row : SyncRow) :
    KeepsDistinct Check.Distinct row.onConflict :=
  Check.keepsDistinct (fun _ => rfl) (fun _ => rfl) (fun _ => rfl) (fun _ => rfl) (fun _ => rfl)
    (fun _ => rfl)

/-- One row of the upsert. The database generates the id and the ping key of a
row it inserts; any other unique violation fails the statement. -/
def upsertRow (projectId : Uuid) (environment : Option String) (generated : String → Uuid × Uuid)
    (now : ℤ) (checks : Table Check Check.Distinct) (row : SyncRow) :
    Option (Table Check Check.Distinct × UpsertedCheck) :=
  match checks.rows.find? (Check.DeclaredAs projectId environment row.key) with
  | some existing =>
    some (checks.update (Check.DeclaredAs projectId environment row.key) row.onConflict
        row.onConflict_keepsDistinct,
      ⟨existing.id, row.key, existing.pingKey, false⟩)
  | none =>
    let (id, pingKey) := generated row.key
    (checks.insert? (row.toCheck projectId environment id pingKey now)).map fun checks =>
      (checks, ⟨id, row.key, pingKey, true⟩)

/-- `UPSERT_SQL` over the accepted rows. -/
def upsertRows (projectId : Uuid) (environment : Option String)
    (generated : String → Uuid × Uuid) (now : ℤ) :
    Table Check Check.Distinct → List SyncRow →
      Option (Table Check Check.Distinct × List UpsertedCheck)
  | checks, [] => some (checks, [])
  | checks, row :: rest =>
    match upsertRow projectId environment generated now checks row with
    | none => none
    | some (checks, upserted) =>
      (upsertRows projectId environment generated now checks rest).map fun (checks, others) =>
        (checks, upserted :: others)

/-- The rows `ORPHAN_SQL` flags: declared in this project and environment, not yet
orphaned, and not among the keys to keep. -/
def Check.Orphaned (projectId : Uuid) (environment : Option String) (keysToKeep : List String)
    (c : Check) : Prop :=
  c.projectId = projectId ∧ c.source = .auto ∧ c.orphanedAt = none ∧
    c.environment = environment ∧ ∃ key ∈ c.key, key ∉ keysToKeep
  deriving Decidable

/-- Flagging a row as orphaned touches no indexed column. -/
theorem orphan_keepsDistinct (now : ℤ) :
    KeepsDistinct Check.Distinct fun c => { c with orphanedAt := some now } :=
  Check.keepsDistinct (fun _ => rfl) (fun _ => rfl) (fun _ => rfl) (fun _ => rfl) (fun _ => rfl)
    (fun _ => rfl)

/-- `ORPHAN_SQL`, with the keys it returns. -/
def orphanSql (now : ℤ) (projectId : Uuid) (environment : Option String)
    (keysToKeep : List String) (checks : Table Check Check.Distinct) :
    Table Check Check.Distinct × List String :=
  (checks.update (Check.Orphaned projectId environment keysToKeep)
      (fun c => { c with orphanedAt := some now }) (orphan_keepsDistinct now),
    (checks.rows.filter (Check.Orphaned projectId environment keysToKeep)).filterMap Check.key)

/-- `CheckSyncService.sync`, under the lock of the account. -/
def syncWithinQuota (quotas : QuotaConfig) (cron : CronParser) (syncSlug : SyncSlug)
    (now : ℤ) (projectId : Uuid) (request : SyncRequest) (generated : String → Uuid × Uuid)
    (db : Database) : Except ServiceError (Database × SyncResult) := do
  let rows ← syncRows cron syncSlug now request.environment [] request.checks
  let skipped := applyCheckQuota quotas db projectId rows request.environment
  let accepted := rows.filter fun row => row.key ∉ skipped
  match upsertRows projectId request.environment generated now db.checks accepted with
  | none => .error .uniqueViolation
  | some (checks, upserted) =>
    -- Keys held back by quota are not orphans.
    let (checks, orphaned) :=
      if request.prune then
        orphanSql now projectId request.environment (rows.map SyncRow.key) checks
      else (checks, [])
    .ok ({ db with checks }, ⟨upserted, orphaned, skipped⟩)

end SilenceWatch
