import SilenceWatch.Library.Table
import SilenceWatch.Schedule.NextDue

/-!
# The tables

The columns that the modelled statements read or write, under the names of the
schema, and the unique indexes of each table. Columns that are only displayed
(descriptions, error texts, modification times) are left out.
-/

namespace SilenceWatch

open Relational

/-- A `gen_random_uuid()` key. -/
abbrev Uuid := ℕ

/-- `check_state`. -/
inductive CheckState where
  | new
  | up
  | late
  | down
  | paused
  deriving DecidableEq

/-- `ping_kind`. -/
inductive PingKind where
  | start
  | success
  | fail
  deriving DecidableEq

/-- `check_source`. -/
inductive CheckSource where
  | manual
  | api
  | auto
  deriving DecidableEq

/-- `project_role`. -/
inductive ProjectRole where
  | owner
  | admin
  | member
  deriving DecidableEq

/-- `delivery_status`. -/
inductive DeliveryStatus where
  | pending
  | sent
  | failed
  deriving DecidableEq

/-- `alert_kind`. -/
inductive AlertKind where
  | down
  | up
  deriving DecidableEq

/-- `incident.cause`, the two texts its constraint admits. -/
inductive IncidentCause where
  | missed
  | reported
  deriving DecidableEq

/-- `check.paused_reason`, which is null unless the text `quota` was written. -/
inductive PausedReason where
  | quota
  deriving DecidableEq

/-- A row of `user`. -/
structure User where
  id : Uuid
  email : String
  /-- Null means unlimited. -/
  plan : Option String
  deriving DecidableEq

/-- `user_pkey` and `user_email_key`. -/
def User.Distinct (u u' : User) : Prop := u.id ≠ u'.id ∧ u.email ≠ u'.email
  deriving Decidable

/-- A row of `project`. -/
structure Project where
  id : Uuid
  name : String
  slug : String
  deriving DecidableEq

/-- `project_pkey` and `project_slug_key`. -/
def Project.Distinct (p p' : Project) : Prop := p.id ≠ p'.id ∧ p.slug ≠ p'.slug
  deriving Decidable

/-- A row of `project_member`. -/
structure ProjectMember where
  projectId : Uuid
  userId : Uuid
  role : ProjectRole
  deriving DecidableEq

/-- `project_member_pkey`. -/
def ProjectMember.Distinct (m m' : ProjectMember) : Prop :=
  ¬ (m.projectId = m'.projectId ∧ m.userId = m'.userId)
  deriving Decidable

/-- A row of `check`. -/
structure Check extends Schedule where
  id : Uuid
  projectId : Uuid
  name : String
  slug : String
  /-- The stable identity supplied by a client library. -/
  key : Option String
  pingKey : Uuid
  graceSeconds : ℤ
  state : CheckState
  /-- Null when a person paused it, `quota` when the plan did. -/
  pausedReason : Option PausedReason
  lastPingAt : Option ℤ
  lastStartedAt : Option ℤ
  lastDurationMs : Option ℤ
  nextDueAt : Option ℤ
  source : CheckSource
  environment : Option String
  tags : List String
  orphanedAt : Option ℤ
  createdAt : ℤ
  deriving DecidableEq

/-- The rows `check_identity_uniq` identifies: one key in one environment of one
project, where a missing environment counts as the empty text. -/
def Check.SameIdentity (c c' : Check) : Prop :=
  c.key ≠ none ∧ c.projectId = c'.projectId ∧ c.key = c'.key ∧
    c.environment.getD "" = c'.environment.getD ""
  deriving Decidable

/-- The four unique indexes of `check`. -/
def Check.Distinct (c c' : Check) : Prop :=
  c.id ≠ c'.id ∧ c.pingKey ≠ c'.pingKey ∧
    ¬ (c.projectId = c'.projectId ∧ c.slug = c'.slug) ∧ ¬ c.SameIdentity c'
  deriving Decidable

/-- A row of `ping`. -/
structure Ping where
  id : ℕ
  checkId : Uuid
  receivedAt : ℤ
  kind : PingKind
  exitCode : Option ℤ
  durationMs : Option ℤ
  body : Option String
  sourceIp : Option String
  userAgent : Option String
  deriving DecidableEq

/-- `ping_pkey`. -/
def Ping.Distinct (p p' : Ping) : Prop := p.id ≠ p'.id
  deriving Decidable

/-- A row of `incident`. -/
structure Incident where
  id : Uuid
  checkId : Uuid
  startedAt : ℤ
  resolvedAt : Option ℤ
  cause : IncidentCause
  deriving DecidableEq

/-- `incident_pkey` and `incident_open_per_check_uniq`: a check has at most one
incident that is not resolved. -/
def Incident.Distinct (i i' : Incident) : Prop :=
  i.id ≠ i'.id ∧ ¬ (i.checkId = i'.checkId ∧ i.resolvedAt = none ∧ i'.resolvedAt = none)
  deriving Decidable

/-- A row of `notification_channel`. -/
structure Channel where
  id : Uuid
  projectId : Uuid
  enabled : Bool
  deriving DecidableEq

/-- `notification_channel_pkey`. -/
def Channel.Distinct (ch ch' : Channel) : Prop := ch.id ≠ ch'.id
  deriving Decidable

/-- A row of `notification_delivery`. -/
structure Delivery where
  id : Uuid
  incidentId : Uuid
  channelId : Uuid
  kind : AlertKind
  status : DeliveryStatus
  attempts : ℕ
  nextAttemptAt : ℤ
  sentAt : Option ℤ
  createdAt : ℤ
  deriving DecidableEq

/-- `notification_delivery_pkey` and the key on (incident, channel, kind). -/
def Delivery.Distinct (d d' : Delivery) : Prop :=
  d.id ≠ d'.id ∧
    ¬ (d.incidentId = d'.incidentId ∧ d.channelId = d'.channelId ∧ d.kind = d'.kind)
  deriving Decidable

/-- The database as one transaction finds it. -/
structure Database where
  users : Table User User.Distinct
  members : Table ProjectMember ProjectMember.Distinct
  checks : Table Check Check.Distinct
  pings : SerialTable Ping Ping.Distinct Ping.id
  incidents : SerialTable Incident Incident.Distinct Incident.id
  channels : Table Channel Channel.Distinct
  deliveries : SerialTable Delivery Delivery.Distinct Delivery.id

/-- A database with one check. -/
def databaseOf (c : Check) : Database where
  users := Table.empty
  members := Table.empty
  checks := ⟨[c], List.pairwise_singleton _ _⟩
  pings := SerialTable.empty
  incidents := SerialTable.empty
  channels := Table.empty
  deliveries := SerialTable.empty

/-- `ProjectsRepository.delete`: the checks, the channels and the members of the project go
with it, and what depends on them. -/
def removeProject (projectId : Uuid) (db : Database) : Database :=
  { db with
    members := db.members.delete fun m => m.projectId = projectId
    checks := db.checks.delete fun c => c.projectId = projectId
    pings := db.pings.delete fun p =>
      ∃ c ∈ db.checks.rows, c.id = p.checkId ∧ c.projectId = projectId
    incidents := db.incidents.delete fun i =>
      ∃ c ∈ db.checks.rows, c.id = i.checkId ∧ c.projectId = projectId
    channels := db.channels.delete fun ch => ch.projectId = projectId
    deliveries := db.deliveries.delete fun d =>
      (∃ i ∈ db.incidents.rows, i.id = d.incidentId ∧
        ∃ c ∈ db.checks.rows, c.id = i.checkId ∧ c.projectId = projectId) ∨
      ∃ ch ∈ db.channels.rows, ch.id = d.channelId ∧ ch.projectId = projectId }

/-- The columns of a check that no index covers may be written freely. -/
theorem Check.keepsDistinct {f : Check → Check} (hid : ∀ c, (f c).id = c.id)
    (hping : ∀ c, (f c).pingKey = c.pingKey) (hproject : ∀ c, (f c).projectId = c.projectId)
    (hslug : ∀ c, (f c).slug = c.slug) (hkey : ∀ c, (f c).key = c.key)
    (henv : ∀ c, (f c).environment = c.environment) : KeepsDistinct Check.Distinct f := by
  intro c c' h
  constructor <;>
    simpa only [Check.Distinct, Check.SameIdentity, hid, hping, hproject, hslug, hkey, henv] using h

/-- The rows of `check` have pairwise distinct ids. -/
theorem Database.check_ids_nodup (db : Database) : (db.checks.rows.map Check.id).Nodup :=
  db.checks.nodup_map Check.id fun _ _ h => h.1

/-- An id belongs to one check. -/
theorem Database.eq_of_check_id (db : Database) {c c' : Check} (hc : c ∈ db.checks.rows)
    (hc' : c' ∈ db.checks.rows) (hid : c.id = c'.id) : c = c' :=
  db.checks.eq_of_key_eq Check.id (fun _ _ h => h.1) hc hc' hid

/-- An id belongs to one incident. -/
theorem Database.eq_of_incident_id (db : Database) {i i' : Incident}
    (hi : i ∈ db.incidents.rows) (hi' : i' ∈ db.incidents.rows) (hid : i.id = i'.id) : i = i' :=
  db.incidents.eq_of_key_eq Incident.id (fun _ _ h => h.1) hi hi' hid

/-- An id belongs to one delivery. -/
theorem Database.eq_of_delivery_id (db : Database) {d d' : Delivery}
    (hd : d ∈ db.deliveries.rows) (hd' : d' ∈ db.deliveries.rows) (hid : d.id = d'.id) : d = d' :=
  db.deliveries.eq_of_key_eq Delivery.id (fun _ _ h => h.1) hd hd' hid

/-- `findUnique({ where: { id } })`. -/
def Database.findCheck (db : Database) (checkId : Uuid) : Option Check :=
  db.checks.rows.find? (fun c => c.id = checkId)

end SilenceWatch
