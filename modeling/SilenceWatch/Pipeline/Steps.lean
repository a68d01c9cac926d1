import SilenceWatch.Pipeline.Machine

/-!
# What a step can do

The steps of a drain and of the system, one constructor each, with what a step needs
and what it leaves. Everything that follows about actions is read off these cases.
-/

namespace SilenceWatch

open Relational

section Drain

variable {st : Settings} {now : ℤ} {db : Database}

/-- The steps of a drain, one by one. -/
inductive DrainStep (st : Settings) (now : ℤ) (db : Database) :
    Drain → DrainAction → DrainResult → Prop
  | claim {t : ℤ} {locked : Uuid → Bool} :
      DrainStep st now db ⟨t, .idle⟩ (.claim locked)
        ⟨(claimSql now st.notificationBatchSize locked db).1,
          ⟨now,
            if (claimSql now st.notificationBatchSize locked db).2 = [] then .idle
            else .claimed (claimSql now st.notificationBatchSize locked db).2⟩, []⟩
  | fetch {t : ℤ} {ids order : List Uuid} : order.Perm ids →
      DrainStep st now db ⟨t, .claimed ids⟩ (.fetch order)
        ⟨db, ⟨t, .counting (contextSql order db)⟩, []⟩
  | count {t : ℤ} {rows : List ContextRow} {sentLastHour : Uuid → ℕ} :
      DrainStep st now db ⟨t, .counting rows⟩ .next
        ⟨db, ⟨t, .delivering rows sentLastHour []⟩, []⟩
  | finish {t : ℤ} {sentLastHour : Uuid → ℕ} {delivered : List Uuid} :
      DrainStep st now db ⟨t, .delivering [] sentLastHour delivered⟩ .next
        ⟨if delivered = [] then db else markSentSql now delivered db, ⟨t, .idle⟩, []⟩
  | refuse {t : ℤ} {row : ContextRow} {rows : List ContextRow} {sentLastHour : Uuid → ℕ}
      {delivered : List Uuid} : st.Refuses sentLastHour row →
      DrainStep st now db ⟨t, .delivering (row :: rows) sentLastHour delivered⟩ .next
        ⟨refuseSql row.delivery.id db, ⟨t, .delivering rows sentLastHour delivered⟩, []⟩
  | send {t : ℤ} {row : ContextRow} {rows : List ContextRow} {sentLastHour : Uuid → ℕ}
      {delivered : List Uuid} :
      DrainStep st now db ⟨t, .delivering (row :: rows) sentLastHour delivered⟩ .next
        ⟨db, ⟨t, .sending now row rows sentLastHour delivered⟩, []⟩
  | retry {t : ℤ} {row : ContextRow} {rows : List ContextRow} {sentLastHour : Uuid → ℕ}
      {delivered : List Uuid} :
      DrainStep st now db ⟨t, .retrying row rows sentLastHour delivered⟩ .next
        ⟨retrySql now st.notificationMaxAttempts row.delivery.id db,
          ⟨t, .delivering rows sentLastHour delivered⟩, []⟩
  | succeeded {t since : ℤ} {row : ContextRow} {rows : List ContextRow}
      {sentLastHour sentLastHour' : Uuid → ℕ} {delivered : List Uuid} :
      DrainStep st now db ⟨t, .sending since row rows sentLastHour delivered⟩ (.outcome true)
        ⟨db, ⟨t, .delivering rows sentLastHour' (delivered ++ [row.delivery.id])⟩, [row.delivery]⟩
  | failed {t since : ℤ} {row : ContextRow} {rows : List ContextRow}
      {sentLastHour : Uuid → ℕ} {delivered : List Uuid} :
      DrainStep st now db ⟨t, .sending since row rows sentLastHour delivered⟩ (.outcome false)
        ⟨db, ⟨t, .retrying row rows sentLastHour delivered⟩, []⟩
  | uncounted {t : ℤ} {row : ContextRow} {rows : List ContextRow} {sentLastHour : Uuid → ℕ}
      {delivered : List Uuid} :
      DrainStep st now db ⟨t, .retrying row rows sentLastHour delivered⟩ .caught
        ⟨db, ⟨t, .delivering rows sentLastHour delivered⟩, []⟩
  | unrefused {t : ℤ} {row : ContextRow} {rows : List ContextRow} {sentLastHour : Uuid → ℕ}
      {delivered : List Uuid} :
      DrainStep st now db ⟨t, .delivering (row :: rows) sentLastHour delivered⟩ .caught
        ⟨db, ⟨t, .delivering rows sentLastHour delivered⟩, []⟩
  | fails {t : ℤ} {phase : DrainPhase} : DrainStep st now db ⟨t, phase⟩ .fails ⟨db, ⟨t, .idle⟩, []⟩

/-- **Every step of a drain is one of these.** -/
theorem Drain.step_cases {dr : Drain} {action : DrainAction} {result : DrainResult}
    (h : dr.step st now db action = some result) : DrainStep st now db dr action result := by
  obtain ⟨t, phase⟩ := dr
  cases action with
  | claim locked =>
    cases phase with
    | idle =>
      cases h
      exact DrainStep.claim
    | _ => cases h
  | fetch order =>
    cases phase with
    | claimed ids =>
      simp only [Drain.step] at h
      split at h
      · next hperm =>
        cases h
        exact DrainStep.fetch hperm
      · cases h
    | _ => cases h
  | next =>
    cases phase with
    | counting rows =>
      cases h
      exact DrainStep.count
    | delivering rows sentLastHour delivered =>
      cases rows with
      | nil =>
        cases h
        exact DrainStep.finish
      | cons row rows =>
        simp only [Drain.step] at h
        split at h
        · next hrefuses =>
          cases h
          exact DrainStep.refuse hrefuses
        · cases h
          exact DrainStep.send
    | retrying row rows sentLastHour delivered =>
      cases h
      exact DrainStep.retry
    | _ => cases h
  | outcome succeeded =>
    cases phase with
    | sending since row rows sentLastHour delivered =>
      cases succeeded with
      | true =>
        cases h
        exact DrainStep.succeeded
      | false =>
        cases h
        exact DrainStep.failed
    | _ => cases h
  | caught =>
    cases phase with
    | retrying row rows sentLastHour delivered =>
      cases h
      exact DrainStep.uncounted
    | delivering rows sentLastHour delivered =>
      cases rows with
      | nil => cases h
      | cons row rows =>
        simp only [Drain.step] at h
        split at h
        · cases h
          exact DrainStep.unrefused
        · cases h
    | _ => cases h
  | fails =>
    cases h
    exact DrainStep.fails

end Drain

/-- The steps of the system, one by one. -/
inductive Step (srv : Server) (st : Settings) (s : Pipeline) : Action → Pipeline → Prop
  | write {w : Write} : Step srv st s (.write w) { s with db := perform srv s.db ⟨s.clock, w⟩ }
  | addChannel {channel : Channel} {channels : Table Channel Channel.Distinct} :
      s.db.channels.insert? channel = some channels →
      Step srv st s (.addChannel channel) { s with db := { s.db with channels } }
  | removeChannel {id : Uuid} :
      Step srv st s (.removeChannel id)
        { s with
          db := { s.db with
            channels := s.db.channels.delete fun ch => ch.id = id
            deliveries := s.db.deliveries.delete fun d => d.channelId = id }
          audience := s.audience.filter fun pair => pair.2 ≠ id }
  | setChannelEnabled {id : Uuid} {enabled : Bool} :
      Step srv st s (.setChannelEnabled id enabled)
        { s with
          db := { s.db with
            channels := s.db.channels.update (fun ch => ch.id = id) (fun ch => { ch with enabled })
              (Channel.setEnabled_keepsDistinct enabled) }
          audience := s.audience.filter fun pair => enabled ∨ pair.2 ≠ id }
  | startTick {locked : Uuid → Bool} : s.tick = .idle →
      Step srv st s (.tick locked) { s with tick := .advancing 0 }
  | advance {locked : Uuid → Bool} {batch : ℕ} {phase : TickPhase} : s.tick = .advancing batch →
      phase = .opening ∨ phase = .advancing (batch + 1) →
      Step srv st s (.tick locked)
        { s with db := (advanceSql s.clock st.detectionBatchSize locked s.db).1, tick := phase }
  | openIncidents {locked : Uuid → Bool} : s.tick = .opening →
      Step srv st s (.tick locked)
        { s with
          db := (openIncidentsSql s.clock st.detectionBatchSize locked s.db).1
          tick :=
            if (openIncidentsSql s.clock st.detectionBatchSize locked s.db).2 = [] then .resolving
            else .announcing (openIncidentsSql s.clock st.detectionBatchSize locked s.db).2
          audience := s.audience ++
            (openIncidentsSql s.clock st.detectionBatchSize locked s.db).1.audienceOfAll
              (openIncidentsSql s.clock st.detectionBatchSize locked s.db).2 }
  | announce {locked : Uuid → Bool} {opened : List IncidentRef} : s.tick = .announcing opened →
      s.db.Insertable opened .down →
      Step srv st s (.tick locked)
        { s with
          db := { s.db with
            deliveries := insertDeliveries s.clock .down s.db.deliveries
              (s.db.addressed opened .down) }
          tick := .resolving }
  | announceFails {locked : Uuid → Bool} {opened : List IncidentRef} :
      s.tick = .announcing opened → ¬ s.db.Insertable opened .down →
      Step srv st s (.tick locked) { s with tick := .idle }
  | resolveIncidents {locked : Uuid → Bool} : s.tick = .resolving →
      Step srv st s (.tick locked)
        { s with
          db := (resolveIncidentsSql s.clock st.detectionBatchSize locked s.db).1
          tick :=
            if (resolveIncidentsSql s.clock st.detectionBatchSize locked s.db).2 = [] then .idle
            else .recovering (resolveIncidentsSql s.clock st.detectionBatchSize locked s.db).2 }
  | recover {locked : Uuid → Bool} {resolved : List IncidentRef} : s.tick = .recovering resolved →
      s.db.Insertable resolved .up →
      Step srv st s (.tick locked)
        { s with
          db := { s.db with
            deliveries := insertDeliveries s.clock .up s.db.deliveries
              (s.db.addressed resolved .up) }
          tick := .idle }
  | recoverFails {locked : Uuid → Bool} {resolved : List IncidentRef} :
      s.tick = .recovering resolved → ¬ s.db.Insertable resolved .up →
      Step srv st s (.tick locked) { s with tick := .idle }
  | tickFails : Step srv st s .tickFails { s with tick := .idle }
  | drain {i : ℕ} {dr : Drain} {action : DrainAction} {result : DrainResult} :
      s.drains[i]? = some dr → DrainStep st s.clock s.db dr action result →
      Step srv st s (.drain i action)
        { s with
          db := result.db
          drains := s.drains.set i result.drain
          sent := s.sent ++ result.sent }
  | purgeIncidents {days : Uuid → ℤ} {limit : ℕ} :
      Step srv st s (.purgeIncidents days limit)
        { s with db := purgeIncidentsSql days s.clock limit s.db }
  | purgeDeliveries :
      Step srv st s .purgeDeliveries { s with db := purgeDeliveriesSql s.clock s.db }
  | elapse {ms : ℕ} : Step srv st s (.elapse ms) { s with clock := s.clock + ms }
  /-- The channel exists already. -/
  | skipChannel {channel : Channel} : Step srv st s (.addChannel channel) s
  /-- There is no such instance, or it does something else. -/
  | skipDrain {i : ℕ} {action : DrainAction} : Step srv st s (.drain i action) s

/-- A statement of the tick takes one of its steps. -/
theorem tickStep_cases (srv : Server) (st : Settings) (s : Pipeline) (locked : Uuid → Bool) :
    Step srv st s (.tick locked) (s.tickStep st locked) := by
  unfold Pipeline.tickStep
  split
  · next htick => exact Step.startTick htick
  · next batch htick =>
    refine Step.advance htick ?_
    split
    · exact Or.inl rfl
    · exact Or.inr rfl
  · next htick => exact Step.openIncidents htick
  · next opened htick =>
    unfold enqueueSql
    by_cases hinsertable : s.db.Insertable opened .down
    · rw [if_pos hinsertable]
      exact Step.announce htick hinsertable
    · rw [if_neg hinsertable]
      exact Step.announceFails htick hinsertable
  · next htick => exact Step.resolveIncidents htick
  · next resolved htick =>
    unfold enqueueSql
    by_cases hinsertable : s.db.Insertable resolved .up
    · rw [if_pos hinsertable]
      exact Step.recover htick hinsertable
    · rw [if_neg hinsertable]
      exact Step.recoverFails htick hinsertable

/-- **Every action takes one of these steps.** -/
theorem act_cases (srv : Server) (st : Settings) (s : Pipeline) (a : Action) :
    Step srv st s a (act srv st s a) := by
  cases a with
  | write w => exact Step.write
  | addChannel channel =>
    simp only [act]
    split
    · next channels hinsert => exact Step.addChannel hinsert
    · exact Step.skipChannel
  | removeChannel id => exact Step.removeChannel
  | setChannelEnabled id enabled => exact Step.setChannelEnabled
  | tick locked => exact tickStep_cases srv st s locked
  | tickFails => exact Step.tickFails
  | drain i action =>
    simp only [act]
    split
    · exact Step.skipDrain
    · next dr hget =>
      split
      · exact Step.skipDrain
      · next result hstep => exact Step.drain hget (Drain.step_cases hstep)
  | purgeIncidents days limit => exact Step.purgeIncidents
  | purgeDeliveries => exact Step.purgeDeliveries
  | elapse ms => exact Step.elapse

/-- Nothing but time moves the clock, and it moves forward. -/
theorem clock_le_act {srv : Server} {st : Settings} {s : Pipeline} {a : Action} :
    s.clock ≤ (act srv st s a).clock := by
  have hstep := act_cases srv st s a
  generalize act srv st s a = s' at hstep
  cases hstep with
  | @elapse ms =>
    dsimp only
    omega
  | _ => exact le_rfl

end SilenceWatch
