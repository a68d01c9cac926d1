import SilenceWatch.Database.Schema
import SilenceWatch.Library.Selection

/-!
# The statements of the detection loop

Three statements per tick: advance overdue checks, open an incident for every
check that is down without one, resolve the incidents whose check has come back.
Each skips the rows that other transactions hold locked.
-/

namespace SilenceWatch

open Relational

/-- The instant a check's grace period ends. -/
def Check.graceEnd (c : Check) (dueAt : ℤ) : ℤ := dueAt + c.graceSeconds * 1000

/-- The rows `ADVANCE_SQL` may select at `now`. -/
def Check.Due (now : ℤ) (c : Check) : Prop :=
  ∃ dueAt ∈ c.nextDueAt, dueAt < now ∧ (c.state = .up ∨ c.state = .new ∨ c.state = .late) ∧
    (c.state ≠ .late ∨ c.graceEnd dueAt ≤ now)
  deriving Decidable

/-- `ORDER BY next_due_at`, for the rows that have one. -/
def Check.DueBefore (c c' : Check) : Prop := c.nextDueAt.getD 0 ≤ c'.nextDueAt.getD 0
  deriving Decidable

/-- The state an overdue check moves to: down once its grace period is spent. -/
def Check.nextState (now : ℤ) (c : Check) : CheckState :=
  if ∃ dueAt ∈ c.nextDueAt, c.graceEnd dueAt ≤ now then .down else .late

/-- Writing the state of a check touches no indexed column. -/
theorem Check.setState_keepsDistinct (f : Check → CheckState) :
    KeepsDistinct Check.Distinct fun c => { c with state := f c } :=
  Check.keepsDistinct (fun _ => rfl) (fun _ => rfl) (fun _ => rfl) (fun _ => rfl) (fun _ => rfl)
    (fun _ => rfl)

/-- The batch `ADVANCE_SQL` selects. -/
def dueBatch (now : ℤ) (limit : ℕ) (locked : Uuid → Bool) (db : Database) : List Check :=
  select (fun c => c.Due now ∧ locked c.id = false) Check.DueBefore limit db.checks.rows

/-- A transition `ADVANCE_SQL` returns. -/
structure TransitionRow where
  id : Uuid
  name : String
  previousState : CheckState
  newState : CheckState
  deriving DecidableEq

/-- `ADVANCE_SQL` for the checks its first part selected. -/
def advanceBatch (now : ℤ) (due : List Check) (db : Database) : Database × List TransitionRow :=
  let ids := due.map Check.id
  ({ db with
      checks := db.checks.update (fun c => c.id ∈ ids ∧ c.state ≠ c.nextState now)
        (fun c => { c with state := c.nextState now }) (Check.setState_keepsDistinct _) },
    (due.filter fun c => c.state ≠ c.nextState now).map fun c =>
      ⟨c.id, c.name, c.state, c.nextState now⟩)

/-- `ADVANCE_SQL`: one batch of due transitions at `now`. -/
def advanceSql (now : ℤ) (limit : ℕ) (locked : Uuid → Bool) (db : Database) :
    Database × List TransitionRow :=
  advanceBatch now (dueBatch now limit locked db) db

/-- An incident and its check, as the statements return them. -/
structure IncidentRef where
  incidentId : Uuid
  checkId : Uuid
  deriving DecidableEq

/-- The checks that are down without an open incident. -/
def Database.NeedsIncident (db : Database) (c : Check) : Prop :=
  c.state = .down ∧ ¬ ∃ i ∈ db.incidents.rows, i.checkId = c.id ∧ i.resolvedAt = none
  deriving Decidable

/-- The kind of a check's latest heartbeat. -/
def Database.lastPingKind (db : Database) (checkId : Uuid) : Option PingKind :=
  (select (fun p : Ping => p.checkId = checkId) (fun p p' => p'.receivedAt ≤ p.receivedAt) 1
    db.pings.rows).head?.map Ping.kind

/-- Whether an outage was reported by a heartbeat or noticed by the deadline. -/
def Database.classify (db : Database) (checkId : Uuid) : IncidentCause :=
  if db.lastPingKind checkId = some .fail then .reported else .missed

/-- The row an incident starts as, with the defaults of its columns. -/
def Incident.opened (now : ℤ) (checkId : Uuid) (cause : IncidentCause) (id : ℕ) : Incident where
  id := id
  checkId := checkId
  startedAt := now
  resolvedAt := none
  cause := cause

/-- Inserts one incident per candidate; a race makes an insertion a no-op. -/
def insertIncidents (now : ℤ) :
    SerialTable Incident Incident.Distinct Incident.id → List (Uuid × IncidentCause) →
      SerialTable Incident Incident.Distinct Incident.id × List IncidentRef
  | incidents, [] => (incidents, [])
  | incidents, (checkId, cause) :: rest =>
    let inserted := incidents.insertOrSkip (Incident.opened now checkId cause) fun _ => rfl
    let (final, refs) := insertIncidents now inserted rest
    (final,
      if inserted.next = incidents.next then refs else ⟨incidents.next, checkId⟩ :: refs)

/-- `OPEN_INCIDENTS_SQL`. -/
def openIncidentsSql (now : ℤ) (limit : ℕ) (locked : Uuid → Bool) (db : Database) :
    Database × List IncidentRef :=
  let candidates :=
    (db.checks.rows.filter fun c => db.NeedsIncident c ∧ locked c.id = false).take limit
  let (incidents, opened) :=
    insertIncidents now db.incidents (candidates.map fun c => (c.id, db.classify c.id))
  ({ db with incidents }, opened)

/-- The open incidents whose check has come back or been paused. -/
def Database.Resolvable (db : Database) (i : Incident) : Prop :=
  i.resolvedAt = none ∧
    ∃ c ∈ db.checks.rows, c.id = i.checkId ∧ (c.state = .up ∨ c.state = .paused)
  deriving Decidable

/-- Resolving an incident frees its place in the index of open incidents. -/
theorem Incident.resolve_keepsDistinct (now : ℤ) :
    KeepsDistinct Incident.Distinct fun i => { i with resolvedAt := some now } := by
  intro i i' h
  exact ⟨⟨h.1, by simp⟩, ⟨h.1, by simp⟩⟩

/-- `RESOLVE_INCIDENTS_SQL`. -/
def resolveIncidentsSql (now : ℤ) (limit : ℕ) (locked : Uuid → Bool) (db : Database) :
    Database × List IncidentRef :=
  let resolvable :=
    (db.incidents.rows.filter fun i => db.Resolvable i ∧ locked i.id = false).take limit
  let ids := resolvable.map Incident.id
  ({ db with
      incidents := db.incidents.update (fun i => i.id ∈ ids)
        (fun i => { i with resolvedAt := some now }) (Incident.resolve_keepsDistinct now)
        fun _ => rfl },
    resolvable.map fun i => ⟨i.id, i.checkId⟩)

end SilenceWatch
