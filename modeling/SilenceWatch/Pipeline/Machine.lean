import SilenceWatch.Monitoring.Writers
import SilenceWatch.Notifications.Queue
import SilenceWatch.Retention.Service

/-!
# From an overdue check to a delivered alert

One detection loop and any number of instances that drain the queue, as one
machine whose steps are single database statements. Between two statements of a
tick or of a drain anything else may happen: the process may fail, checks and
channels may be written, other drains may run, rows may be purged, time may pass.
-/

namespace SilenceWatch

open Relational Transition

/-- The settings of detection and delivery. -/
structure Settings where
  detectionBatchSize : ℕ
  notificationBatchSize : ℕ
  notificationTimeoutMs : ℤ
  notificationMaxAttempts : ℕ
  /-- `ALERT_MAX_PER_CHANNEL_PER_HOUR`; zero disables the ceiling. -/
  alertMaxPerChannelPerHour : ℕ

/-- How many batches of overdue checks one tick advances at most. -/
def maxBatches : ℕ := 25

/-- Where the detection loop is in its tick. -/
inductive TickPhase where
  | idle
  | advancing (batch : ℕ)
  | opening
  /-- Incidents are open and their alerts are not queued yet. -/
  | announcing (incidents : List IncidentRef)
  | resolving
  /-- Incidents are resolved and their recoveries are not queued yet. -/
  | recovering (incidents : List IncidentRef)
  deriving DecidableEq

/-- Where an instance is in its drain. The alerts sent last hour are counted by
channel; `delivered` holds the ids of the alerts that went out. -/
inductive DrainPhase where
  | idle
  | claimed (ids : List Uuid)
  | counting (rows : List ContextRow)
  | delivering (rows : List ContextRow) (sentLastHour : Uuid → ℕ) (delivered : List Uuid)
  | sending (since : ℤ) (row : ContextRow) (rows : List ContextRow) (sentLastHour : Uuid → ℕ)
      (delivered : List Uuid)
  | retrying (row : ContextRow) (rows : List ContextRow) (sentLastHour : Uuid → ℕ)
      (delivered : List Uuid)

/-- An instance that drains the queue, with the instant of its latest claim. -/
structure Drain where
  claimedAt : ℤ
  phase : DrainPhase

/-- What a drain does next, and what it is told. -/
inductive DrainAction where
  | claim (locked : Uuid → Bool)
  /-- The database returns the contexts of the claimed rows in the order of these ids. -/
  | fetch (order : List Uuid)
  /-- The next statement of the drain, or the start of the next send. -/
  | next
  /-- The send in flight succeeds or fails. -/
  | outcome (succeeded : Bool)
  /-- The next statement fails and the drain carries on. -/
  | caught
  /-- The process fails, or a statement that ends the drain does. -/
  | fails

/-- What a step of a drain leaves: the database, the drain, and the alerts that went
out by it. -/
structure DrainResult where
  db : Database
  drain : Drain
  sent : List Delivery

/-- The channel has reached its alerts per hour. -/
def Settings.Refuses (st : Settings) (sentLastHour : Uuid → ℕ) (row : ContextRow) : Prop :=
  0 < st.alertMaxPerChannelPerHour ∧ st.alertMaxPerChannelPerHour ≤ sentLastHour row.channel.id
  deriving Decidable

/-- `NotificationQueueService.drain`, one step; none where the action does not apply. -/
def Drain.step (st : Settings) (now : ℤ) (db : Database) (dr : Drain) :
    DrainAction → Option DrainResult
  | .claim locked =>
    match dr.phase with
    | .idle =>
      let (db, ids) := claimSql now st.notificationBatchSize locked db
      some ⟨db, ⟨now, if ids = [] then .idle else .claimed ids⟩, []⟩
    | _ => none
  | .fetch order =>
    match dr.phase with
    | .claimed ids =>
      if order.Perm ids then some ⟨db, { dr with phase := .counting (contextSql order db) }, []⟩
      else none
    | _ => none
  | .next =>
    match dr.phase with
    | .counting rows =>
      let sentLastHour :=
        if st.alertMaxPerChannelPerHour = 0 then fun _ => 0
        else sentLastHourSql now (rows.map fun row => row.channel.id) db
      some ⟨db, { dr with phase := .delivering rows sentLastHour [] }, []⟩
    | .delivering [] _ delivered =>
      some ⟨if delivered = [] then db else markSentSql now delivered db, { dr with phase := .idle },
        []⟩
    | .delivering (row :: rows) sentLastHour delivered =>
      if st.Refuses sentLastHour row then
        some ⟨refuseSql row.delivery.id db,
          { dr with phase := .delivering rows sentLastHour delivered }, []⟩
      else some ⟨db, { dr with phase := .sending now row rows sentLastHour delivered }, []⟩
    | .retrying row rows sentLastHour delivered =>
      some ⟨retrySql now st.notificationMaxAttempts row.delivery.id db,
        { dr with phase := .delivering rows sentLastHour delivered }, []⟩
    | _ => none
  | .outcome succeeded =>
    match dr.phase with
    | .sending _ row rows sentLastHour delivered =>
      if succeeded then
        let channelId := row.channel.id
        some ⟨db,
          { dr with
            phase := .delivering rows
              (fun id => if id = channelId then sentLastHour id + 1 else sentLastHour id)
              (delivered ++ [row.delivery.id]) },
          [row.delivery]⟩
      else some ⟨db, { dr with phase := .retrying row rows sentLastHour delivered }, []⟩
    | _ => none
  | .caught =>
    match dr.phase with
    | .retrying _ rows sentLastHour delivered =>
      some ⟨db, { dr with phase := .delivering rows sentLastHour delivered }, []⟩
    | .delivering (row :: rows) sentLastHour delivered =>
      if st.Refuses sentLastHour row then
        some ⟨db, { dr with phase := .delivering rows sentLastHour delivered }, []⟩
      else none
    | _ => none
  | .fails => some ⟨db, { dr with phase := .idle }, []⟩

/-- The system: its database and its clock, where its processes are, and two records
that nothing reads: the alerts that went out, and for every incident the channels that
were enabled when it was opened and have been since. -/
structure Pipeline where
  db : Database
  clock : ℤ
  tick : TickPhase
  drains : List Drain
  sent : List Delivery
  audience : List (Uuid × Uuid)

/-- Everything that happens to the system. -/
inductive Action where
  /-- A check is written. -/
  | write (w : Write)
  | addChannel (channel : Channel)
  | removeChannel (id : Uuid)
  | setChannelEnabled (id : Uuid) (enabled : Bool)
  /-- The next statement of the tick; the given rows are locked by others. -/
  | tick (locked : Uuid → Bool)
  | tickFails
  | drain (instance' : ℕ) (action : DrainAction)
  | purgeIncidents (days : Uuid → ℤ) (limit : ℕ)
  | purgeDeliveries
  | elapse (ms : ℕ)

/-- The enabled channels of the projects of some incidents, with the incidents. -/
def Database.audienceOfAll (db : Database) (incidents : List IncidentRef) : List (Uuid × Uuid) :=
  incidents.flatMap fun ref => (db.audienceOf ref.checkId).map fun ch => (ref.incidentId, ch.id)

/-- `DetectionService.tick`, one statement. A statement that fails ends the tick. -/
def Pipeline.tickStep (st : Settings) (s : Pipeline) (locked : Uuid → Bool) : Pipeline :=
  match s.tick with
  | .idle => { s with tick := .advancing 0 }
  | .advancing batch =>
    let (db, rows) := advanceSql s.clock st.detectionBatchSize locked s.db
    { s with
      db
      -- A short batch means drained.
      tick :=
        if rows.length < st.detectionBatchSize ∨ maxBatches ≤ batch + 1 then .opening
        else .advancing (batch + 1) }
  | .opening =>
    let (db, opened) := openIncidentsSql s.clock st.detectionBatchSize locked s.db
    { s with
      db
      tick := if opened = [] then .resolving else .announcing opened
      audience := s.audience ++ db.audienceOfAll opened }
  | .announcing opened =>
    match enqueueSql s.clock opened .down s.db with
    | some db => { s with db, tick := .resolving }
    | none => { s with tick := .idle }
  | .resolving =>
    let (db, resolved) := resolveIncidentsSql s.clock st.detectionBatchSize locked s.db
    { s with db, tick := if resolved = [] then .idle else .recovering resolved }
  | .recovering resolved =>
    match enqueueSql s.clock resolved .up s.db with
    | some db => { s with db, tick := .idle }
    | none => { s with tick := .idle }

/-- Switching a channel on or off touches no indexed column. -/
theorem Channel.setEnabled_keepsDistinct (enabled : Bool) :
    KeepsDistinct Channel.Distinct fun ch => { ch with enabled } :=
  fun _ _ h => ⟨h, h⟩

/-- The system after one action. -/
def act (srv : Server) (st : Settings) (s : Pipeline) : Action → Pipeline
  | .write w => { s with db := perform srv s.db ⟨s.clock, w⟩ }
  | .addChannel channel =>
    match s.db.channels.insert? channel with
    | some channels => { s with db := { s.db with channels } }
    | none => s
  | .removeChannel id =>
    { s with
      db := { s.db with
        channels := s.db.channels.delete fun ch => ch.id = id
        deliveries := s.db.deliveries.delete fun d => d.channelId = id }
      audience := s.audience.filter fun pair => pair.2 ≠ id }
  | .setChannelEnabled id enabled =>
    { s with
      db := { s.db with
        channels := s.db.channels.update (fun ch => ch.id = id) (fun ch => { ch with enabled })
          (Channel.setEnabled_keepsDistinct enabled) }
      audience := s.audience.filter fun pair => enabled ∨ pair.2 ≠ id }
  | .tick locked => s.tickStep st locked
  | .tickFails => { s with tick := .idle }
  | .drain instance' action =>
    match s.drains[instance']? with
    | none => s
    | some dr =>
      match dr.step st s.clock s.db action with
      | none => s
      | some result =>
        { s with
          db := result.db
          drains := s.drains.set instance' result.drain
          sent := s.sent ++ result.sent }
  | .purgeIncidents days limit => { s with db := purgeIncidentsSql days s.clock limit s.db }
  | .purgeDeliveries => { s with db := purgeDeliveriesSql s.clock s.db }
  | .elapse ms => { s with clock := s.clock + ms }

/-- A drain that is doing nothing. -/
def Drain.Idle (dr : Drain) : Prop := dr.phase matches .idle

instance (dr : Drain) : Decidable dr.Idle := inferInstanceAs (Decidable (_ = true))

/-- The start of a run: nothing is monitored, announced or under way. -/
structure Pipeline.Fresh (s : Pipeline) : Prop where
  checks : s.db.checks.rows = []
  incidents : s.db.incidents.rows = []
  deliveries : s.db.deliveries.rows = []
  tick : s.tick = .idle
  drains : ∀ dr ∈ s.drains, dr.Idle
  sent : s.sent = []
  audience : s.audience = []

section Sample

/-- The default settings. -/
def defaultSettings : Settings where
  detectionBatchSize := 200
  notificationBatchSize := 50
  notificationTimeoutMs := 10000
  notificationMaxAttempts := 6
  alertMaxPerChannelPerHour := 0

/-- The sample account, with two instances that drain the queue. -/
def samplePipeline : Pipeline where
  db := sampleDatabase
  clock := 0
  tick := .idle
  drains := [⟨0, .idle⟩, ⟨0, .idle⟩]
  sent := []
  audience := []

/-- A check is created and never reports. -/
def sampleOutage : List Action :=
  [.write (.create 1 hourlyRequest "backup" 10 20), .elapse 3900001]

/-- The statements of a tick that opens or resolves an incident. -/
def sampleTick : List Action := List.replicate 5 (.tick fun _ => false)

/-- The first instance delivers these alerts. -/
def sampleDelivery (ids : List Uuid) : List Action :=
  [.drain 0 (.claim fun _ => false), .drain 0 (.fetch ids), .drain 0 .next] ++
    ids.flatMap (fun _ => [.drain 0 .next, .drain 0 (.outcome true)]) ++ [.drain 0 .next]

end Sample

end SilenceWatch
