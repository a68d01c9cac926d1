import SilenceWatch.Database.Schema

/-!
# Purging what has expired

The statements of the retention job that touch incidents and deliveries. How many
days a project keeps its history is computed from its own setting and its owner's
plan; here it is the parameter `days`.
-/

namespace SilenceWatch

open Relational

/-- The milliseconds of one day. -/
def oneDay : ℤ := 86400000

/-- An incident that was resolved before the window of its project. -/
def Database.Expired (db : Database) (days : Uuid → ℤ) (now : ℤ) (i : Incident) : Prop :=
  ∃ resolvedAt ∈ i.resolvedAt, ∃ c ∈ db.checks.rows, c.id = i.checkId ∧
    resolvedAt < now - days c.projectId * oneDay
  deriving Decidable

/-- The deliveries of an incident go with it. -/
def Database.deleteIncidents (db : Database) (ids : List Uuid) : Database :=
  { db with
    incidents := db.incidents.delete fun i => i.id ∈ ids
    deliveries := db.deliveries.delete fun d => d.incidentId ∈ ids }

/-- `PURGE_INCIDENTS_SQL`: one batch. -/
def purgeIncidentsSql (days : Uuid → ℤ) (now : ℤ) (limit : ℕ) (db : Database) : Database :=
  db.deleteIncidents
    (((db.incidents.rows.filter fun i => db.Expired days now i).take limit).map Incident.id)

/-- The rows `PURGE_DELIVERIES_SQL` deletes: finished, and a month old. -/
def Delivery.Finished (now : ℤ) (d : Delivery) : Prop :=
  d.status ≠ .pending ∧ d.createdAt < now - 30 * oneDay
  deriving Decidable

/-- `PURGE_DELIVERIES_SQL`. -/
def purgeDeliveriesSql (now : ℤ) (db : Database) : Database :=
  { db with deliveries := db.deliveries.delete fun d => d.Finished now }

end SilenceWatch
