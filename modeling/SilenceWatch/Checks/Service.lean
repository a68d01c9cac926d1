import SilenceWatch.Quotas.Service

/-!
# Creating, updating and removing checks

`ChecksService` and the statements of its repository. A request that is refused
leaves the database as it was.
-/

namespace SilenceWatch

open Relational

/-- The refusals of the service, and the unique violations of its statements. -/
inductive ServiceError where
  | badRequest (message : String)
  | notFound (message : String)
  | quotaExceeded (error : QuotaExceededError)
  | uniqueViolation
  deriving DecidableEq

/-- The schedule part of a create or update request. -/
structure ScheduleFields where
  scheduleType : Option ScheduleType
  periodSeconds : Option ℤ
  cronExpression : Option String
  timezone : Option String
  deriving DecidableEq

/-- `createCheckRequestSchema`. -/
structure CreateCheckRequest extends ScheduleFields where
  name : String
  graceSeconds : ℤ
  environment : Option String
  tags : Option (List String)
  deriving DecidableEq

/-- `updateCheckRequestSchema`; the environment may be set to null. -/
structure UpdateCheckRequest extends ScheduleFields where
  name : Option String
  graceSeconds : Option ℤ
  environment : Option (Option String)
  tags : Option (List String)
  paused : Option Bool
  deriving DecidableEq

/-- The time zone of a schedule that names none. -/
def defaultTimezone : String := "UTC"

/-- The schedule a create or update request describes, normalised to one shape. -/
def toSchedule (input : ScheduleFields) : Schedule :=
  if input.scheduleType = some .cron then
    { scheduleType := .cron
      cronExpression := input.cronExpression
      periodSeconds := none
      timezone := input.timezone.getD defaultTimezone }
  else
    { scheduleType := .interval
      periodSeconds := input.periodSeconds
      cronExpression := none
      timezone := input.timezone.getD defaultTimezone }

/-- The next deadline, or a 400 when the schedule cannot be computed. -/
def nextDueOrThrow (cron : CronParser) (schedule : Schedule) (fromInstant : ℤ) :
    Except ServiceError ℤ :=
  (computeNextDueAt cron schedule fromInstant).mapError fun e => .badRequest e.message

/-- The row `create` inserts. -/
def CreateCheckRequest.toCheck (input : CreateCheckRequest) (projectId : Uuid) (slug : String)
    (id pingKey : Uuid) (nextDueAt now : ℤ) : Check where
  toSchedule := SilenceWatch.toSchedule input.toScheduleFields
  id := id
  projectId := projectId
  name := input.name
  slug := slug
  key := none
  pingKey := pingKey
  graceSeconds := input.graceSeconds
  state := .new
  pausedReason := none
  lastPingAt := none
  lastStartedAt := none
  lastDurationMs := none
  nextDueAt := some nextDueAt
  source := .api
  environment := input.environment
  tags := input.tags.getD []
  orphanedAt := none
  createdAt := now

/-- `createWithinQuota`, once the search for a free slug has ended on `slug`; the
database generates `id` and `pingKey`. -/
def createWithinQuota (quotas : QuotaConfig) (cron : CronParser) (now : ℤ)
    (projectId : Uuid) (input : CreateCheckRequest) (slug : String) (id pingKey : Uuid)
    (db : Database) : Except ServiceError Database := do
  (quotas.assertCanAddCheck db projectId).mapError .quotaExceeded
  let schedule := toSchedule input.toScheduleFields
  let nextDueAt ← nextDueOrThrow cron schedule now
  match db.checks.insert? (input.toCheck projectId slug id pingKey nextDueAt now) with
  | some checks => .ok { db with checks }
  | none => .error .uniqueViolation

/-- `Prisma.CheckUpdateInput`: the columns an update writes. -/
structure CheckUpdateInput where
  name : Option String := none
  graceSeconds : Option ℤ := none
  environment : Option (Option String) := none
  tags : Option (List String) := none
  schedule : Option Schedule := none
  nextDueAt : Option ℤ := none
  state : Option CheckState := none

/-- The row an update leaves: the named columns are written, the rest is kept. -/
def CheckUpdateInput.apply (data : CheckUpdateInput) (c : Check) : Check :=
  { c with
    toSchedule := data.schedule.getD c.toSchedule
    name := data.name.getD c.name
    graceSeconds := data.graceSeconds.getD c.graceSeconds
    environment := data.environment.getD c.environment
    tags := data.tags.getD c.tags
    nextDueAt := data.nextDueAt.or c.nextDueAt
    state := data.state.getD c.state }

/-- The columns `update` decides to write, from the row it read first. -/
def updateData (cron : CronParser) (now : ℤ) (input : UpdateCheckRequest) (existing : Check) :
    Except ServiceError CheckUpdateInput := do
  let data : CheckUpdateInput :=
    { name := input.name
      graceSeconds := input.graceSeconds
      environment := input.environment
      tags := input.tags }
  -- A schedule change moves the deadline: recompute it from now.
  let data ←
    if input.scheduleType.isSome then do
      let schedule := toSchedule input.toScheduleFields
      let nextDueAt ← nextDueOrThrow cron schedule now
      pure { data with schedule := some schedule, nextDueAt := some nextDueAt }
    else pure data
  match input.paused with
  | none => pure data
  | some true => pure { data with state := some .paused }
  | some false =>
    if existing.state = .paused then do
      -- Resuming restarts the clock: the check has not reported since.
      let schedule := data.schedule.getD existing.toSchedule
      let nextDueAt ← nextDueOrThrow cron schedule now
      pure { data with state := some .new, nextDueAt := some nextDueAt }
    else pure data

/-- What an update may write: a schedule only together with the deadline it has
from now on, and a state other than a pause only to resume with a new deadline. -/
theorem updateData_cases {cron : CronParser} {now : ℤ} {input : UpdateCheckRequest}
    {existing : Check} {data : CheckUpdateInput}
    (h : updateData cron now input existing = .ok data) :
    ((data.schedule = none ∧ data.nextDueAt = none) ∨
        ∃ due, data.nextDueAt = some due ∧
          computeNextDueAt cron (data.schedule.getD existing.toSchedule) now = .ok due) ∧
      ((data.state = none ∧ input.paused ≠ some true) ∨
        (data.state = some .paused ∧ input.paused = some true) ∨
        (data.state = some .new ∧ existing.state = .paused ∧ input.paused = some false ∧
          data.nextDueAt ≠ none)) := by
  unfold updateData nextDueOrThrow at h
  cases hedit : input.scheduleType.isSome with
  | false =>
    cases hpaused : input.paused with
    | none =>
      simp only [hedit, hpaused, Bool.false_eq_true, if_false, pure_bind] at h
      cases h
      simp
    | some paused =>
      cases paused with
      | true =>
        simp only [hedit, hpaused, Bool.false_eq_true, if_false, pure_bind] at h
        cases h
        simp
      | false =>
        by_cases hstate : existing.state = .paused
        · cases hdue : computeNextDueAt cron existing.toSchedule now with
          | error e =>
            simp [hedit, hpaused, hstate, hdue, Except.mapError, Bind.bind, Except.bind, Pure.pure,
              Except.pure] at h
          | ok due =>
            simp [hedit, hpaused, hstate, hdue, Except.mapError, Bind.bind, Except.bind, Pure.pure,
              Except.pure] at h
            subst h
            simp [hdue, hstate]
        · simp only [hedit, hpaused, hstate, Bool.false_eq_true, if_false, pure_bind] at h
          cases h
          simp
  | true =>
    cases hdue : computeNextDueAt cron (toSchedule input.toScheduleFields) now with
    | error e =>
      simp [hedit, hdue, Except.mapError, Bind.bind, Except.bind] at h
    | ok due =>
      cases hpaused : input.paused with
      | none =>
        simp only [hedit, hdue, hpaused, if_true, Except.mapError, Bind.bind, Except.bind,
          Pure.pure, Except.pure, Except.ok.injEq] at h
        subst h
        simp [hdue]
      | some paused =>
        cases paused with
        | true =>
          simp only [hedit, hdue, hpaused, if_true, Except.mapError, Bind.bind, Except.bind,
            Pure.pure, Except.pure, Except.ok.injEq] at h
          subst h
          simp [hdue]
        | false =>
          by_cases hstate : existing.state = .paused
          · simp only [hedit, hdue, hpaused, hstate, if_true, Except.mapError, Bind.bind,
              Except.bind, Pure.pure, Except.pure, Option.getD_some, Except.ok.injEq] at h
            subst h
            simp [hdue, hstate]
          · simp only [hedit, hdue, hpaused, hstate, if_true, if_false, Except.mapError, Bind.bind,
              Except.bind, Pure.pure, Except.pure, Except.ok.injEq] at h
            subst h
            simp [hdue]

/-- `ChecksService.update`. -/
def updateCheck (cron : CronParser) (now : ℤ) (checkId : Uuid) (input : UpdateCheckRequest)
    (db : Database) : Except ServiceError Database :=
  match db.findCheck checkId with
  | none => .error (.notFound "Check not found")
  | some existing => do
    let data ← updateData cron now input existing
    match db.checks.update? (fun c => c.id = checkId) data.apply with
    | some checks => .ok { db with checks }
    | none => .error .uniqueViolation

/-- `ChecksRepository.replacePingKey`, with the key the database generates. -/
def replacePingKey (checkId pingKey : Uuid) (db : Database) : Except ServiceError Database :=
  match db.findCheck checkId with
  | none => .error (.notFound "Check not found")
  | some _ =>
    match db.checks.update? (fun c => c.id = checkId) (fun c => { c with pingKey }) with
    | some checks => .ok { db with checks }
    | none => .error .uniqueViolation

/-- `ChecksService.remove`: the check goes, and by cascade its pings, its
incidents and their deliveries. -/
def removeCheck (checkId : Uuid) (db : Database) : Except ServiceError Database :=
  match db.findCheck checkId with
  | none => .error (.notFound "Check not found")
  | some _ =>
    .ok { db with
      checks := db.checks.delete fun c => c.id = checkId
      pings := db.pings.delete fun p => p.checkId = checkId
      deliveries := db.deliveries.delete fun d =>
        ∃ i ∈ db.incidents.rows, i.id = d.incidentId ∧ i.checkId = checkId
      incidents := db.incidents.delete fun i => i.checkId = checkId }

end SilenceWatch
