import SilenceWatch.Database.Schema

/-!
# Recording heartbeats

The single statement behind `/p/:pingKey` and the service that binds its
parameters. The statement reads the check twice: once in its first part, which
holds the guard against paused checks, and once in the row its `UPDATE` writes.
Run alone it finds the same row both times.
-/

namespace SilenceWatch

open Relational

/-- The parameters bound to `INGEST_SQL`, `$1` to `$9`. -/
structure IngestParams where
  pingKey : Uuid
  receivedAt : ℤ
  kind : PingKind
  exitCode : Option ℤ
  durationMs : Option ℤ
  nextDueAt : Option ℤ
  body : Option String
  sourceIp : Option String
  userAgent : Option String
  deriving DecidableEq

/-- The largest value of an `INTEGER` column. -/
def int32Max : ℤ := 2147483647

/-- `prev`: the row under the ping key, unless the check is paused. -/
def IngestParams.Finds (p : IngestParams) (c : Check) : Prop :=
  c.pingKey = p.pingKey ∧ c.state ≠ .paused
  deriving Decidable

/-- `measured`: the duration of this run, reported by the client or derived from a
previous start, never inherited from an earlier run. -/
def IngestParams.measured (p : IngestParams) (prev : Check) : Option ℤ :=
  if p.kind = .start then none
  else
    match p.durationMs with
    | some ms => some ms
    | none =>
      prev.lastStartedAt.map fun startedAt => min int32Max (max 0 (p.receivedAt - startedAt))

/-- `upd`: the row written over `c` when the first part of the statement saw `prev`. -/
def IngestParams.write (p : IngestParams) (prev c : Check) : Check :=
  { c with
    lastPingAt := if p.kind = .start then c.lastPingAt else some p.receivedAt
    lastStartedAt := if p.kind = .start then some p.receivedAt else none
    nextDueAt := if p.kind = .start then c.nextDueAt else p.nextDueAt
    state :=
      match p.kind with
      | .start => c.state
      | .fail => .down
      | .success => .up
    lastDurationMs := (p.measured prev).or c.lastDurationMs }

/-- The row the statement inserts into `ping`. -/
def IngestParams.toPing (p : IngestParams) (prev : Check) (id : ℕ) : Ping where
  id := id
  checkId := prev.id
  receivedAt := p.receivedAt
  kind := p.kind
  exitCode := p.exitCode
  durationMs := p.measured prev
  body := p.body
  sourceIp := p.sourceIp
  userAgent := p.userAgent

/-- The update of the statement touches no indexed column. -/
theorem IngestParams.write_keepsDistinct (p : IngestParams) :
    KeepsDistinct Check.Distinct fun c => p.write c c :=
  Check.keepsDistinct (fun _ => rfl) (fun _ => rfl) (fun _ => rfl) (fun _ => rfl) (fun _ => rfl)
    (fun _ => rfl)

/-- `INGEST_SQL` run alone, with the number of rows it returns. -/
def ingestSql (p : IngestParams) (db : Database) : Database × ℕ :=
  match db.checks.rows.find? p.Finds with
  | none => (db, 0)
  | some prev =>
    ({ db with
        checks := db.checks.update p.Finds (fun c => p.write c c) p.write_keepsDistinct
        pings := db.pings.insertOrSkip (p.toPing prev) fun _ => rfl }, 1)

/-- `IngestCommand`, its texts already cut to what their columns hold. -/
structure IngestCommand where
  pingKey : Uuid
  kind : PingKind
  exitCode : Option ℤ
  durationMs : Option ℤ
  body : Option String
  ip : Option String
  userAgent : Option String
  deriving DecidableEq

/-- What the heartbeat route is told. -/
inductive IngestOutcome where
  | recorded
  | paused
  deriving DecidableEq

/-- `clampInt`. -/
def clampInt (value : Option ℤ) (min : ℤ := -int32Max) : Option ℤ :=
  value.map fun v => Min.min int32Max (Max.max min v)

/-- The deadline `ingest` computes from the metadata it holds: none for a start,
and none when the schedule is unusable, so that the heartbeat is not lost. -/
def ingestDeadline (cron : CronParser) (metadata : Schedule) (kind : PingKind)
    (receivedAt : ℤ) : Option ℤ :=
  if kind = .start then none else (computeNextDueAt cron metadata receivedAt).toOption

/-- The values `ingest` binds, once it holds the metadata of the check. -/
def ingestParams (cron : CronParser) (metadata : Schedule) (receivedAt : ℤ)
    (command : IngestCommand) : IngestParams where
  pingKey := command.pingKey
  receivedAt := receivedAt
  kind := command.kind
  exitCode := clampInt command.exitCode
  durationMs := clampInt command.durationMs 0
  nextDueAt := ingestDeadline cron metadata command.kind receivedAt
  body := command.body
  sourceIp := command.ip
  userAgent := command.userAgent

/-- `IngestService.ingest` from the point where the metadata is known. -/
def ingest (cron : CronParser) (metadata : Schedule) (receivedAt : ℤ)
    (command : IngestCommand) (db : Database) : Database × IngestOutcome :=
  let (db, rowCount) := ingestSql (ingestParams cron metadata receivedAt command) db
  (db, if rowCount = 0 then .paused else .recorded)

end SilenceWatch
