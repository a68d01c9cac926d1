import Mathlib.Algebra.Ring.Int.Defs
import SilenceWatch.Detection.Statements

/-!
# The statements of the alert queue

The queue is the table `notification_delivery`. A claim hides its rows from other
workers for the length of a lease; everything that follows a claim addresses its
rows by id alone.
-/

namespace SilenceWatch

open Relational

/-- How long a claimed row is invisible to other workers while a send is in flight:
five minutes. -/
def claimLease : ℤ := 300000

/-- One hour, the window of the ceiling on alerts. -/
def oneHour : ℤ := 3600000

/-- Writing the state of a delivery touches no indexed column. -/
theorem Delivery.keepsDistinct {f : Delivery → Delivery} (hid : ∀ d, (f d).id = d.id)
    (hincident : ∀ d, (f d).incidentId = d.incidentId)
    (hchannel : ∀ d, (f d).channelId = d.channelId) (hkind : ∀ d, (f d).kind = d.kind) :
    KeepsDistinct Delivery.Distinct f := by
  intro d d' h
  constructor
  · simpa only [Delivery.Distinct, hid, hincident, hchannel, hkind] using h
  · simpa only [Delivery.Distinct, hid, hincident, hchannel, hkind] using h

/-- Some channel was told of the outage. -/
def Database.Told (db : Database) (incidentId : Uuid) : Prop :=
  ∃ d ∈ db.deliveries.rows, d.incidentId = incidentId ∧ d.kind = .down ∧ d.status = .sent
  deriving Decidable

/-- The enabled channels of the project of a check. -/
def Database.audienceOf (db : Database) (checkId : Uuid) : List Channel :=
  (db.checks.rows.filter fun c => c.id = checkId).flatMap fun c =>
    db.channels.rows.filter fun ch => ch.projectId = c.projectId ∧ ch.enabled

/-- The rows `ENQUEUE_SQL` tries to insert, as pairs of an incident and a channel. -/
def Database.addressed (db : Database) (incidents : List IncidentRef) (kind : AlertKind) :
    List (Uuid × Uuid) :=
  (incidents.filter fun ref => kind = .down ∨ db.Told ref.incidentId).flatMap fun ref =>
    (db.audienceOf ref.checkId).map fun ch => (ref.incidentId, ch.id)

/-- The row an enqueue inserts, with the defaults of its columns. -/
def Delivery.pending (now : ℤ) (kind : AlertKind) (incidentId channelId : Uuid) (id : ℕ) :
    Delivery where
  id := id
  incidentId := incidentId
  channelId := channelId
  kind := kind
  status := .pending
  attempts := 0
  nextAttemptAt := now
  sentAt := none
  createdAt := now

/-- Inserts one pending delivery per pair; a delivery that exists is left as it is. -/
def insertDeliveries (now : ℤ) (kind : AlertKind) :
    SerialTable Delivery Delivery.Distinct Delivery.id → List (Uuid × Uuid) →
      SerialTable Delivery Delivery.Distinct Delivery.id
  | deliveries, [] => deliveries
  | deliveries, (incidentId, channelId) :: rest =>
    insertDeliveries now kind
      (deliveries.insertOrSkip (Delivery.pending now kind incidentId channelId) fun _ => rfl) rest

/-- The rows an enqueue inserts refer to incidents that are stored. -/
def Database.Insertable (db : Database) (incidents : List IncidentRef) (kind : AlertKind) : Prop :=
  ∀ pair ∈ db.addressed incidents kind, ∃ i ∈ db.incidents.rows, i.id = pair.1
  deriving Decidable

/-- `ENQUEUE_SQL`. It fails as a whole when a row it inserts refers to an incident that
is gone. -/
def enqueueSql (now : ℤ) (incidents : List IncidentRef) (kind : AlertKind) (db : Database) :
    Option Database :=
  if db.Insertable incidents kind then
    some { db with
      deliveries := insertDeliveries now kind db.deliveries (db.addressed incidents kind) }
  else none

/-- The rows `CLAIM_SQL` may select. -/
def Delivery.Claimable (now : ℤ) (d : Delivery) : Prop :=
  d.status = .pending ∧ d.nextAttemptAt ≤ now
  deriving Decidable

/-- `ORDER BY next_attempt_at`. -/
def Delivery.AttemptBefore (d d' : Delivery) : Prop := d.nextAttemptAt ≤ d'.nextAttemptAt
  deriving Decidable

/-- What a claim writes. -/
def Delivery.claim (now : ℤ) (d : Delivery) : Delivery :=
  { d with attempts := d.attempts + 1, nextAttemptAt := now + claimLease }

/-- `CLAIM_SQL`, with the ids it returns. -/
def claimSql (now : ℤ) (limit : ℕ) (locked : Uuid → Bool) (db : Database) :
    Database × List Uuid :=
  let claimed := select (fun d : Delivery => d.Claimable now ∧ locked d.id = false)
    Delivery.AttemptBefore limit db.deliveries.rows
  let ids := claimed.map Delivery.id
  ({ db with
      deliveries := db.deliveries.update (fun d => d.id ∈ ids) (Delivery.claim now)
        (Delivery.keepsDistinct (fun _ => rfl) (fun _ => rfl) (fun _ => rfl) fun _ => rfl)
        fun _ => rfl },
    ids)

/-- A row of `CONTEXT_SQL`: a delivery with what its alert is about. -/
structure ContextRow where
  delivery : Delivery
  channel : Channel
  incident : Incident
  check : Check
  deriving DecidableEq

/-- The row of one delivery, while its channel, incident and check exist. -/
def Database.contextOf (db : Database) (id : Uuid) : List ContextRow :=
  (db.deliveries.rows.filter fun d => d.id = id).flatMap fun delivery =>
    (db.channels.rows.filter fun ch => ch.id = delivery.channelId).flatMap fun channel =>
      (db.incidents.rows.filter fun i => i.id = delivery.incidentId).flatMap fun incident =>
        (db.checks.rows.filter fun c => c.id = incident.checkId).map fun check =>
          { delivery, channel, incident, check }

/-- `CONTEXT_SQL`, with its rows in the order of the ids. -/
def contextSql (ids : List Uuid) (db : Database) : List ContextRow := ids.flatMap db.contextOf

/-- `SENT_LAST_HOUR_SQL`, as the map the service makes of it. -/
def sentLastHourSql (now : ℤ) (channelIds : List Uuid) (db : Database) (channelId : Uuid) : ℕ :=
  if channelId ∈ channelIds then
    db.deliveries.rows.countP fun d =>
      d.channelId = channelId ∧ d.status = .sent ∧ ∃ at' ∈ d.sentAt, now - oneHour < at'
  else 0

/-- What marking a delivery as sent writes. -/
def Delivery.markSent (now : ℤ) (d : Delivery) : Delivery :=
  { d with status := .sent, sentAt := some now }

/-- `MARK_SENT_SQL`. -/
def markSentSql (now : ℤ) (ids : List Uuid) (db : Database) : Database :=
  { db with
    deliveries := db.deliveries.update (fun d => d.id ∈ ids) (Delivery.markSent now)
      (Delivery.keepsDistinct (fun _ => rfl) (fun _ => rfl) (fun _ => rfl) fun _ => rfl)
      fun _ => rfl }

/-- The delay before a delivery is tried again: half a minute, doubled with every
attempt, an hour at most. -/
def backoff (attempts : ℕ) : ℤ := min 3600 (30 * 2 ^ (attempts - 1)) * 1000

/-- What a failed attempt writes. -/
def Delivery.retry (now : ℤ) (maxAttempts : ℕ) (d : Delivery) : Delivery :=
  { d with
    status := if maxAttempts ≤ d.attempts then .failed else .pending
    nextAttemptAt := now + backoff d.attempts }

/-- `RETRY_SQL`. -/
def retrySql (now : ℤ) (maxAttempts : ℕ) (id : Uuid) (db : Database) : Database :=
  { db with
    deliveries := db.deliveries.update (fun d => d.id = id) (Delivery.retry now maxAttempts)
      (Delivery.keepsDistinct (fun _ => rfl) (fun _ => rfl) (fun _ => rfl) fun _ => rfl)
      fun _ => rfl }

/-- `REFUSE_SQL`: a refused alert is final. -/
def refuseSql (id : Uuid) (db : Database) : Database :=
  { db with
    deliveries := db.deliveries.update (fun d => d.id = id) (fun d => { d with status := .failed })
      (Delivery.keepsDistinct (fun _ => rfl) (fun _ => rfl) (fun _ => rfl) fun _ => rfl)
      fun _ => rfl }

end SilenceWatch
