import Mathlib.Algebra.Order.Group.Int
import SilenceWatch.Library.Window
import SilenceWatch.Pipeline.Leases

/-!
# The ceiling on alerts

How many alerts a channel was sent in the last hour is counted from their rows, and
within a batch in memory. The rows go with their incidents, checks and channels; what
is deleted is not counted any more.
-/

namespace SilenceWatch

open Relational Transition Chronicle

/-- An alert that went out, with the instant its send succeeded. -/
structure SentAlert where
  delivery : Delivery
  sentAt : ℤ
  deriving DecidableEq

/-- The system with a record of the alerts that went out. -/
structure AlertLog where
  pipeline : Pipeline
  log : List SentAlert

/-- Everything that happens to the system, and to its projects. -/
inductive AlertEvent where
  | act (a : Action)
  | createProject (projectId userId : Uuid)
  | removeProject (projectId : Uuid)

/-- The membership that makes its creator the owner of a new project. -/
def createProject (projectId userId : Uuid) (db : Database) : Database :=
  match db.members.insert? ⟨projectId, userId, .owner⟩ with
  | some members => { db with members }
  | none => db

/-- The system after one event. -/
def happen (srv : Server) (st : Settings) (s : Pipeline) : AlertEvent → Pipeline
  | .act a => act srv st s a
  | .createProject projectId userId => { s with db := createProject projectId userId s.db }
  | .removeProject projectId =>
    { s with
      db := removeProject projectId s.db
      audience := s.audience.filter fun pair =>
        ¬ ∃ ch ∈ s.db.channels.rows, ch.id = pair.2 ∧ ch.projectId = projectId }

/-- One event, with the alerts that go out by it. -/
def AlertLog.step (srv : Server) (st : Settings) (w : AlertLog) (e : AlertEvent) : AlertLog where
  pipeline := happen srv st w.pipeline e
  log := w.log ++ ((happen srv st w.pipeline e).sent.drop w.pipeline.sent.length).map
    fun delivery => ⟨delivery, w.pipeline.clock⟩

/-- A record without alerts. -/
def AlertLog.start (s : Pipeline) : AlertLog := ⟨s, []⟩

/-- When the alerts of a channel went out. -/
def AlertLog.sentOn (w : AlertLog) (channelId : Uuid) : List ℤ :=
  (w.log.filter fun alert => alert.delivery.channelId = channelId).map SentAlert.sentAt

/-- The deliveries that the event deletes. -/
def Pipeline.deleted (s : Pipeline) : AlertEvent → List Delivery
  | .act (.write (.remove checkId)) =>
    s.db.deliveries.rows.filter fun d =>
      ∃ i ∈ s.db.incidents.rows, i.id = d.incidentId ∧ i.checkId = checkId
  | .act (.removeChannel id) => s.db.deliveries.rows.filter fun d => d.channelId = id
  | .act (.purgeIncidents days limit) =>
    s.db.deliveries.rows.filter fun d =>
      d.incidentId ∈ ((s.db.incidents.rows.filter fun i => s.db.Expired days s.clock i).take
        limit).map Incident.id
  | .act .purgeDeliveries => s.db.deliveries.rows.filter fun d => d.Finished s.clock
  | .removeProject projectId =>
    s.db.deliveries.rows.filter fun d =>
      (∃ i ∈ s.db.incidents.rows, i.id = d.incidentId ∧
        ∃ c ∈ s.db.checks.rows, c.id = i.checkId ∧ c.projectId = projectId) ∨
      ∃ ch ∈ s.db.channels.rows, ch.id = d.channelId ∧ ch.projectId = projectId
  | _ => []

/-- The channels that the event removes. -/
def Pipeline.removedChannels (s : Pipeline) : AlertEvent → List Uuid
  | .act (.removeChannel id) => [id]
  | .removeProject projectId =>
    (s.db.channels.rows.filter fun ch => ch.projectId = projectId).map Channel.id
  | _ => []

/-- The channel that the event adds. -/
def AlertEvent.addedChannel : AlertEvent → Option Channel
  | .act (.addChannel channel) => some channel
  | _ => none

/-- What an action of the system is. -/
def AlertEvent.action : AlertEvent → Option Action
  | .act a => some a
  | _ => none

/-- The channels whose alerts an instance is about to count. -/
def DrainPhase.countedChannels : DrainPhase → List Uuid
  | .counting rows => rows.map fun row => row.channel.id
  | _ => []

/-- The channel is there, or an instance that has loaded it is about to count its alerts. -/
def Pipeline.InUse (s : Pipeline) (channelId : Uuid) : Prop :=
  (∃ ch ∈ s.db.channels.rows, ch.id = channelId) ∨
    ∃ dr ∈ s.drains, channelId ∈ dr.phase.countedChannels

/-- The delivery was sent within the last hour, or an instance has its alert in hand: loaded,
or sent and not marked yet. -/
def Pipeline.Needs (s : Pipeline) (d : Delivery) : Prop :=
  (d.status = .sent ∧ ∃ sentAt ∈ d.sentAt, s.clock - oneHour < sentAt) ∨
    ∃ dr ∈ s.drains, d.id ∈ dr.phase.delivered ∨ ∃ row ∈ dr.phase.rows, row.delivery.id = d.id
  deriving Decidable

/-- No instance fails between a send and its mark. -/
def AlertLog.MarksSends (w : AlertLog) (e : AlertEvent) : Prop :=
  ∀ a ∈ e.action, w.pipeline.MarksSends a
  deriving Decidable

/-- The id of a new channel is one that no alert was for. -/
def AlertLog.NewChannelIds (w : AlertLog) (e : AlertEvent) : Prop :=
  ∀ channel ∈ e.addedChannel,
    (∀ alert ∈ w.log, alert.delivery.channelId ≠ channel.id) ∧
      ∀ dr ∈ w.pipeline.drains, ∀ row ∈ dr.phase.rows, row.channel.id ≠ channel.id
  deriving Decidable

/-- The event deletes no delivery that is needed to count the alerts of a channel: one sent
within the last hour, or in the hands of an instance, unless the channel goes as well and
no instance is about to count its alerts. -/
def AlertLog.KeepsCounted (w : AlertLog) (e : AlertEvent) : Prop :=
  ∀ d ∈ w.pipeline.deleted e,
    (d.channelId ∉ w.pipeline.removedChannels e ∨
      ∃ dr ∈ w.pipeline.drains, d.channelId ∈ dr.phase.countedChannels) → ¬ w.pipeline.Needs d
  deriving Decidable

section Tally

variable {st : Settings} {now : ℤ} {db : Database} {dr : Drain} {action : DrainAction}
  {result : DrainResult}

/-- The alerts of the last hour, as an instance has counted them. -/
def DrainPhase.tally : DrainPhase → Option (Uuid → ℕ)
  | .delivering _ sentLastHour _ => some sentLastHour
  | .sending _ _ _ sentLastHour _ => some sentLastHour
  | .retrying _ _ sentLastHour _ => some sentLastHour
  | _ => none

/-- A drain counts the alerts of the last hour, keeps its count, or adds an alert that went
out. -/
inductive Tallied (st : Settings) (now : ℤ) (db : Database) (dr : Drain) (result : DrainResult)
    (tally : Uuid → ℕ) : Prop
  | counted {rows : List ContextRow} : dr.phase = .counting rows → result.drain.phase.rows = rows →
      (st.alertMaxPerChannelPerHour ≠ 0 →
        tally = sentLastHourSql now (rows.map fun row => row.channel.id) db) →
      result.sent = [] → Tallied st now db dr result tally
  | kept : dr.phase.tally = some tally → result.sent = [] → Tallied st now db dr result tally
  | sent {since : ℤ} {row : ContextRow} {rows : List ContextRow} {before : Uuid → ℕ}
      {delivered : List Uuid} : dr.phase = .sending since row rows before delivered →
      result.sent = [row.delivery] →
      (tally = fun id => if id = row.channel.id then before id + 1 else before id) →
      Tallied st now db dr result tally

/-- What a step of a drain makes of its count. -/
theorem Drain.step_tallied (h : dr.step st now db action = some result) {tally : Uuid → ℕ}
    (htally : result.drain.phase.tally = some tally) : Tallied st now db dr result tally := by
  obtain ⟨t, phase⟩ := dr
  cases action with
  | claim locked =>
    cases phase with
    | idle =>
      cases h
      dsimp only at htally
      split at htally <;> cases htally
    | _ => cases h
  | fetch order =>
    cases phase with
    | claimed ids =>
      simp only [Drain.step] at h
      split at h
      · cases h
        cases htally
      · cases h
    | _ => cases h
  | next =>
    cases phase with
    | counting rows =>
      cases h
      refine Tallied.counted rfl rfl (fun hpositive => ?_) rfl
      rw [← Option.some.inj htally, if_neg hpositive]
    | delivering rows sentLastHour delivered =>
      cases rows with
      | nil =>
        cases h
        cases htally
      | cons row rows =>
        simp only [Drain.step] at h
        split at h
        · cases h
          exact Tallied.kept htally rfl
        · cases h
          exact Tallied.kept htally rfl
    | retrying row rows sentLastHour delivered =>
      cases h
      exact Tallied.kept htally rfl
    | _ => cases h
  | outcome succeeded =>
    cases phase with
    | sending since row rows sentLastHour delivered =>
      cases succeeded with
      | true =>
        cases h
        exact Tallied.sent rfl rfl (Option.some.inj htally).symm
      | false =>
        cases h
        exact Tallied.kept htally rfl
    | _ => cases h
  | caught =>
    cases phase with
    | retrying row rows sentLastHour delivered =>
      cases h
      exact Tallied.kept htally rfl
    | delivering rows sentLastHour delivered =>
      cases rows with
      | nil => cases h
      | cons row rows =>
        simp only [Drain.step] at h
        split at h
        · cases h
          exact Tallied.kept htally rfl
        · cases h
    | _ => cases h
  | fails =>
    cases h
    cases htally

/-- A send starts only on a channel that is below the ceiling. -/
theorem Drain.step_unrefused (h : dr.step st now db action = some result) {since : ℤ}
    {row : ContextRow} {rows : List ContextRow} {tally : Uuid → ℕ} {delivered : List Uuid}
    (hphase : result.drain.phase = .sending since row rows tally delivered) :
    ¬ st.Refuses tally row := by
  obtain ⟨t, phase⟩ := dr
  cases action with
  | next =>
    cases phase with
    | delivering rows sentLastHour delivered =>
      cases rows with
      | nil =>
        cases h
        cases hphase
      | cons row rows =>
        simp only [Drain.step] at h
        split at h
        · cases h
          cases hphase
        · next hunrefused =>
          cases h
          cases hphase
          exact hunrefused
    | counting rows =>
      cases h
      cases hphase
    | retrying row rows sentLastHour delivered =>
      cases h
      cases hphase
    | _ => cases h
  | claim locked =>
    cases phase with
    | idle =>
      cases h
      dsimp only at hphase
      split at hphase <;> cases hphase
    | _ => cases h
  | _ =>
    have hstep := Drain.step_cases h
    cases hstep <;> cases hphase

/-- What a step of a drain writes to a delivery: nothing that a count looks at, that it is
sent, or how an attempt on a row in hand ended. -/
theorem DrainStep.marks (h : DrainStep st now db dr action result) {d : Delivery}
    (hd : d ∈ db.deliveries.rows) :
    ∃ d' ∈ result.db.deliveries.rows, d'.id = d.id ∧ d'.channelId = d.channelId ∧
      ((d'.status = d.status ∧ d'.sentAt = d.sentAt) ∨
        (d.id ∈ dr.phase.delivered ∧ d'.status = .sent ∧ d'.sentAt = some now) ∨
        d.id ∈ dr.phase.unsent) := by
  have hkept (hmem : d ∈ result.db.deliveries.rows) :
      ∃ d' ∈ result.db.deliveries.rows, d'.id = d.id ∧ d'.channelId = d.channelId ∧
        ((d'.status = d.status ∧ d'.sentAt = d.sentAt) ∨
          (d.id ∈ dr.phase.delivered ∧ d'.status = .sent ∧ d'.sentAt = some now) ∨
          d.id ∈ dr.phase.unsent) :=
    ⟨d, hmem, rfl, rfl, Or.inl ⟨rfl, rfl⟩⟩
  cases h with
  | claim =>
    refine ⟨_, List.mem_map_of_mem hd, ?_⟩
    unfold updateRow
    split
    · exact ⟨rfl, rfl, Or.inl ⟨rfl, rfl⟩⟩
    · exact ⟨rfl, rfl, Or.inl ⟨rfl, rfl⟩⟩
  | @finish t sentLastHour delivered =>
    by_cases hnone : delivered = []
    · simp only [if_pos hnone] at hkept ⊢
      exact hkept hd
    · simp only [if_neg hnone]
      refine ⟨_, List.mem_map_of_mem hd, ?_⟩
      unfold updateRow
      split
      · next hdelivered => exact ⟨rfl, rfl, Or.inr (Or.inl ⟨hdelivered, rfl, rfl⟩)⟩
      · exact ⟨rfl, rfl, Or.inl ⟨rfl, rfl⟩⟩
  | refuse _ =>
    refine ⟨_, List.mem_map_of_mem hd, ?_⟩
    unfold updateRow
    split
    · next hid => exact ⟨rfl, rfl, Or.inr (Or.inr (hid ▸ List.mem_cons_self))⟩
    · exact ⟨rfl, rfl, Or.inl ⟨rfl, rfl⟩⟩
  | retry =>
    refine ⟨_, List.mem_map_of_mem hd, ?_⟩
    unfold updateRow
    split
    · next hid => exact ⟨rfl, rfl, Or.inr (Or.inr (hid ▸ List.mem_cons_self))⟩
    · exact ⟨rfl, rfl, Or.inl ⟨rfl, rfl⟩⟩
  | _ => exact hkept hd

/-- What a drain comes to hold with a channel it held before, or that channel is there. -/
theorem DrainStep.loads (h : DrainStep st now db dr action result) {row : ContextRow}
    (hrow : row ∈ result.drain.phase.rows) :
    row ∈ dr.phase.rows ∨ (row.delivery ∈ db.deliveries.rows ∧ row.channel ∈ db.channels.rows ∧
      row.channel.id = row.delivery.channelId) := by
  rcases h.mem_rows hrow with hold | ⟨_, hids⟩
  · exact Or.inl hold
  · cases h with
    | @fetch t ids order hperm =>
      obtain ⟨id, _, hmem⟩ := List.mem_flatMap.mp hrow
      simp only [Database.contextOf, List.mem_flatMap, List.mem_map, List.mem_filter,
        decide_eq_true_eq] at hmem
      obtain ⟨d, ⟨hd, _⟩, ch, ⟨hch, hid⟩, _, _, _, _, rfl⟩ := hmem
      exact Or.inr ⟨hd, hch, hid⟩
    | claim =>
      dsimp only at hrow
      split at hrow <;> cases hrow
    | fails => cases hrow
    | _ => cases hids

/-- The channels a drain comes to count are there, or it counted them before. -/
theorem DrainStep.countedChannels (h : DrainStep st now db dr action result) {channelId : Uuid}
    (hcounted : channelId ∈ result.drain.phase.countedChannels) :
    channelId ∈ dr.phase.countedChannels ∨ ∃ ch ∈ db.channels.rows, ch.id = channelId := by
  have hloads (row : ContextRow) (hrow : row ∈ result.drain.phase.rows) := h.loads hrow
  cases h with
  | fetch _ =>
    obtain ⟨row, hrow, rfl⟩ := List.mem_map.mp hcounted
    rcases hloads row hrow with hold | ⟨_, hch, _⟩
    · cases hold
    · exact Or.inr ⟨row.channel, hch, rfl⟩
  | claim =>
    dsimp only at hcounted
    split at hcounted <;> cases hcounted
  | _ => cases hcounted

end Tally

section Environment

variable {srv : Server} {st : Settings} {s : Pipeline} {e : AlertEvent}

/-- What an event that is no step of a drain leaves: no delivery is written, and none goes
that the event does not delete. -/
structure Pipeline.Undrained (s s' : Pipeline) (e : AlertEvent) : Prop where
  drains : s'.drains = s.drains
  sent : s'.sent = s.sent
  clock : s.clock ≤ s'.clock
  next : s.db.deliveries.next ≤ s'.db.deliveries.next
  kept : ∀ d ∈ s.db.deliveries.rows, d ∈ s'.db.deliveries.rows ∨ d ∈ s.deleted e
  new : ∀ d ∈ s'.db.deliveries.rows, d ∈ s.db.deliveries.rows ∨ s.db.deliveries.next ≤ d.id
  channels : ∀ ch ∈ s'.db.channels.rows, ch ∈ e.addedChannel ∨
    ((∃ ch' ∈ s.db.channels.rows, ch'.id = ch.id) ∧ ch.id ∉ s.removedChannels e)

/-- An event takes no delivery away that it does not delete. -/
theorem happen_deliveries_kept (hdrain : ∀ i action, e ≠ .act (.drain i action)) {d : Delivery}
    (hd : d ∈ s.db.deliveries.rows) :
    d ∈ (happen srv st s e).db.deliveries.rows ∨ d ∈ s.deleted e := by
  cases e with
  | createProject projectId userId =>
    left
    simp only [happen, createProject]
    split
    · exact hd
    · exact hd
  | removeProject projectId => exact Table.mem_delete_or_filter hd
  | act a =>
    have hstep := act_cases srv st s a
    simp only [happen]
    generalize SilenceWatch.act srv st s a = s' at hstep
    cases hstep with
    | @write w =>
      obtain ⟨_, ⟨_, hsame⟩ | ⟨checkId, rfl, _, _, hdeliveries⟩⟩ :=
        perform_frame srv s.db ⟨s.clock, w⟩
      · exact Or.inl (by simpa only [hsame] using hd)
      · simp only [hdeliveries]
        exact Table.mem_delete_or_filter hd
    | removeChannel => exact Table.mem_delete_or_filter hd
    | announce _ _ => exact Or.inl (subset_insertDeliveries hd)
    | recover _ _ => exact Or.inl (subset_insertDeliveries hd)
    | drain _ _ => exact absurd rfl (hdrain _ _)
    | purgeIncidents => exact Table.mem_delete_or_filter hd
    | purgeDeliveries => exact Table.mem_delete_or_filter hd
    | _ => exact Or.inl hd

/-- A channel after an event was there before and is not removed, or the event adds it. -/
theorem happen_channels {ch : Channel} (hch : ch ∈ (happen srv st s e).db.channels.rows) :
    ch ∈ e.addedChannel ∨
      ((∃ ch' ∈ s.db.channels.rows, ch'.id = ch.id) ∧ ch.id ∉ s.removedChannels e) := by
  have hsame (hch : ch ∈ s.db.channels.rows) (hnone : s.removedChannels e = []) :
      ch ∈ e.addedChannel ∨
        ((∃ ch' ∈ s.db.channels.rows, ch'.id = ch.id) ∧ ch.id ∉ s.removedChannels e) := by
    refine Or.inr ⟨⟨ch, hch, rfl⟩, ?_⟩
    rw [hnone]
    exact List.not_mem_nil
  cases e with
  | createProject projectId userId =>
    simp only [happen, createProject] at hch
    split at hch
    · exact hsame hch rfl
    · exact hsame hch rfl
  | removeProject projectId =>
    obtain ⟨hold, hnot⟩ := Table.mem_delete.mp hch
    refine Or.inr ⟨⟨ch, hold, rfl⟩, fun hid => ?_⟩
    obtain ⟨ch', hch', hsameid⟩ := List.mem_map.mp hid
    obtain ⟨hmem, hproject⟩ := List.mem_filter.mp hch'
    have heq : ch' = ch := s.db.channels.eq_of_key_eq Channel.id (fun _ _ h => h) hmem hold hsameid
    exact hnot (heq ▸ of_decide_eq_true hproject)
  | act a =>
    have hstep := act_cases srv st s a
    simp only [happen] at hch
    generalize SilenceWatch.act srv st s a = s' at hstep hch
    cases hstep with
    | @write w =>
      have hold : ch ∈ s.db.channels.rows := by
        simpa only [(perform_frame srv s.db ⟨s.clock, w⟩).1] using hch
      refine hsame hold ?_
      cases w <;> rfl
    | addChannel hinsert =>
      dsimp only at hch
      rw [Table.insert?_eq_some hinsert] at hch
      rcases List.mem_append.mp hch with hold | hnew
      · exact hsame hold rfl
      · exact Or.inl (congrArg some (List.mem_singleton.mp hnew).symm)
    | removeChannel =>
      obtain ⟨hold, hnot⟩ := Table.mem_delete.mp hch
      exact Or.inr ⟨⟨ch, hold, rfl⟩, fun hid => hnot (List.mem_singleton.mp hid)⟩
    | setChannelEnabled =>
      obtain ⟨ch', hch', ⟨_, rfl⟩ | ⟨_, rfl⟩⟩ := mem_map_updateRow.mp hch
      · exact Or.inr ⟨⟨ch', hch', rfl⟩, List.not_mem_nil⟩
      · exact hsame hch' rfl
    | drain _ hstep =>
      have hdb := hstep.redelivers.1
      dsimp only at hch
      rw [hdb] at hch
      exact hsame hch rfl
    | _ => exact hsame hch rfl

/-- An event that is no step of a drain writes no delivery and deletes what it deletes. -/
theorem happen_undrained (srv : Server) (st : Settings) (s : Pipeline)
    (hdrain : ∀ i action, e ≠ .act (.drain i action)) :
    s.Undrained (happen srv st s e) e := by
  have hdeleted {s' : Pipeline} (hs' : happen srv st s e = s') (hdrains : s'.drains = s.drains)
      (hsent : s'.sent = s.sent) (hclock : s.clock ≤ s'.clock)
      (hnext : s.db.deliveries.next ≤ s'.db.deliveries.next)
      (hnew : ∀ d ∈ s'.db.deliveries.rows,
        d ∈ s.db.deliveries.rows ∨ s.db.deliveries.next ≤ d.id) : s.Undrained s' e := by
    subst hs'
    exact ⟨hdrains, hsent, hclock, hnext, fun d hd => happen_deliveries_kept hdrain hd, hnew,
      fun ch hch => happen_channels hch⟩
  cases e with
  | createProject projectId userId =>
    refine hdeleted rfl rfl rfl le_rfl ?_ ?_
    · simp only [happen, createProject]
      split <;> exact le_rfl
    · simp only [happen, createProject]
      split <;> exact fun d hd => Or.inl hd
  | removeProject projectId =>
    exact hdeleted rfl rfl rfl le_rfl le_rfl fun d hd => Or.inl (Table.mem_delete.mp hd).1
  | act a =>
    have hne : ∀ i action, a ≠ .drain i action := fun i action heq =>
      hdrain i action (congrArg AlertEvent.act heq)
    obtain ⟨hdrains, hsent⟩ := act_of_ne_drain srv st s hne
    refine hdeleted rfl hdrains hsent clock_le_act act_deliveries_next fun d hd => ?_
    rcases act_deliveries_of_ne_drain hne hd with hold | ⟨_, hcreates⟩
    · exact Or.inl hold
    · exact Or.inr hcreates.fresh

end Environment

/-- What is known of the alerts that went out while one instance drains the queue: those of
the last hour are counted wherever they are looked for, by their rows or by the instance,
and so no window holds more of them than the ceiling. -/
structure AlertLog.Counted (st : Settings) (w : AlertLog) (dr : Drain) : Prop where
  alone : w.pipeline.drains = [dr]
  exclusive : w.pipeline.Exclusive
  logged : w.log.map SentAlert.delivery = w.pipeline.sent
  past : ∀ alert ∈ w.log, alert.sentAt ≤ w.pipeline.clock
  loaded : ∀ row ∈ dr.phase.rows, row.channel.id = row.delivery.channelId
  /-- The row of an alert in hand is there. -/
  held : ∀ row ∈ dr.phase.rows, w.pipeline.InUse row.channel.id →
    ∃ d ∈ w.pipeline.db.deliveries.rows, d.id = row.delivery.id ∧ d.channelId = row.channel.id
  /-- The row of an alert of the last hour is there, and marked or about to be. -/
  recorded : ∀ alert ∈ w.log, w.pipeline.clock - oneHour < alert.sentAt →
    w.pipeline.InUse alert.delivery.channelId →
    ∃ d ∈ w.pipeline.db.deliveries.rows, d.id = alert.delivery.id ∧
      d.channelId = alert.delivery.channelId ∧
      ((d.status = .sent ∧ ∃ sentAt ∈ d.sentAt, alert.sentAt ≤ sentAt) ∨
        d.id ∈ dr.phase.delivered)
  /-- An instance has counted no less than what went out in the last hour. -/
  tallied : ∀ tally, dr.phase.tally = some tally → ∀ row ∈ dr.phase.rows,
    recentCount oneHour w.pipeline.clock (w.sentOn row.channel.id) ≤ tally row.channel.id
  unrefused : ∀ since row rows tally delivered, dr.phase = .sending since row rows tally delivered →
    ¬ st.Refuses tally row
  bounded : ∀ channelId,
    WindowBounded oneHour st.alertMaxPerChannelPerHour (w.sentOn channelId)

section Counted

variable {srv : Server} {st : Settings} {w : AlertLog} {e : AlertEvent} {dr : Drain}

/-- At the start nothing went out. -/
theorem AlertLog.Counted.start {s : Pipeline} (hquiet : s.Quiet) (halone : s.drains = [dr]) :
    (AlertLog.start s).Counted st dr := by
  have hidle : dr.Idle := hquiet.drains dr (halone ▸ List.mem_singleton_self dr)
  obtain ⟨t, phase⟩ := dr
  cases phase with
  | idle =>
    exact {
      alone := halone
      exclusive := hquiet.exclusive
      logged := hquiet.sent.symm
      past := fun _ halert => absurd halert List.not_mem_nil
      loaded := fun _ hrow => absurd hrow List.not_mem_nil
      held := fun _ hrow => absurd hrow List.not_mem_nil
      recorded := fun _ halert => absurd halert List.not_mem_nil
      tallied := fun _ _ _ hrow => absurd hrow List.not_mem_nil
      unrefused := fun _ _ _ _ _ hphase => by cases hphase
      bounded := fun _ => windowBounded_nil }
  | _ => exact absurd hidle nofun

/-- An event that sends nothing leaves the record as it is. -/
theorem AlertLog.step_log_of_sent_eq (h : (happen srv st w.pipeline e).sent = w.pipeline.sent) :
    (w.step srv st e).log = w.log := by
  simp [AlertLog.step, h]

/-- A row that a count needs outlives an event that keeps such rows. -/
theorem AlertLog.KeepsCounted.kept (h : w.KeepsCounted e) {s' : Pipeline}
    (hundrained : w.pipeline.Undrained s' e) {d : Delivery}
    (hd : d ∈ w.pipeline.db.deliveries.rows) (hneeds : w.pipeline.Needs d)
    (huse : d.channelId ∉ w.pipeline.removedChannels e ∨
      ∃ dr ∈ w.pipeline.drains, d.channelId ∈ dr.phase.countedChannels) :
    d ∈ s'.db.deliveries.rows := by
  rcases hundrained.kept d hd with hkept | hdeleted
  · exact hkept
  · exact absurd hneeds (h d hdeleted huse)

/-- A channel in use after an event was in use before, and is not removed unless an instance
is about to count its alerts; or the event adds it. -/
theorem Pipeline.Undrained.inUse {s s' : Pipeline} (h : s.Undrained s' e) {channelId : Uuid}
    (huse : s'.InUse channelId) :
    (∃ channel ∈ e.addedChannel, channel.id = channelId) ∨
      (s.InUse channelId ∧ (channelId ∉ s.removedChannels e ∨
        ∃ dr ∈ s.drains, channelId ∈ dr.phase.countedChannels)) := by
  rcases huse with ⟨ch, hch, rfl⟩ | ⟨dr, hdr, hcounted⟩
  · rcases h.channels ch hch with hadded | ⟨hold, hkept⟩
    · exact Or.inl ⟨ch, hadded, rfl⟩
    · exact Or.inr ⟨Or.inl hold, Or.inl hkept⟩
  · rw [h.drains] at hdr
    exact Or.inr ⟨Or.inr ⟨dr, hdr, hcounted⟩, Or.inr ⟨dr, hdr, hcounted⟩⟩

/-- **An event that is no step of the drain keeps the count**, if it deletes no row that a
count needs. -/
theorem AlertLog.Counted.undrained (h : w.Counted st dr)
    (hdrain : ∀ i action, e ≠ .act (.drain i action)) (hnew : w.NewChannelIds e)
    (hkeeps : w.KeepsCounted e) : (w.step srv st e).Counted st dr := by
  have hundrained := happen_undrained srv st w.pipeline hdrain
  have hdr : dr ∈ w.pipeline.drains := by
    rw [h.alone]
    exact List.mem_singleton_self dr
  have hlog : (w.step srv st e).log = w.log := AlertLog.step_log_of_sent_eq hundrained.sent
  have hsentOn (channelId : Uuid) : (w.step srv st e).sentOn channelId = w.sentOn channelId := by
    simp only [AlertLog.sentOn, hlog]
  constructor
  · exact hundrained.drains.trans h.alone
  · exact h.exclusive.of_rows hundrained.drains hundrained.sent hundrained.next hundrained.new
  · rw [hlog]
    exact h.logged.trans hundrained.sent.symm
  · rw [hlog]
    exact fun alert halert => (h.past alert halert).trans hundrained.clock
  · exact h.loaded
  · intro row hrow huse
    rcases hundrained.inUse huse with ⟨channel, hadded, hid⟩ | ⟨hbefore, hused⟩
    · exact absurd hid.symm ((hnew channel hadded).2 dr hdr row hrow)
    · obtain ⟨d, hd, hid, hchannel⟩ := h.held row hrow hbefore
      rw [← hchannel] at hused
      have hneeds : w.pipeline.Needs d := Or.inr ⟨dr, hdr, Or.inr ⟨row, hrow, hid.symm⟩⟩
      exact ⟨d, hkeeps.kept hundrained hd hneeds hused, hid, hchannel⟩
  · intro alert halert hrecent huse
    rw [hlog] at halert
    have hrecent' : w.pipeline.clock - oneHour < alert.sentAt :=
      lt_of_le_of_lt (sub_le_sub_right hundrained.clock oneHour) hrecent
    rcases hundrained.inUse huse with ⟨channel, hadded, hid⟩ | ⟨hbefore, hused⟩
    · exact absurd hid.symm ((hnew channel hadded).1 alert halert)
    · obtain ⟨d, hd, hid, hchannel, hmark⟩ := h.recorded alert halert hrecent' hbefore
      rw [← hchannel] at hused
      have hneeds : w.pipeline.Needs d := by
        rcases hmark with ⟨hstatus, sentAt, hsentAt, hle⟩ | hdelivered
        · exact Or.inl ⟨hstatus, sentAt, hsentAt, lt_of_lt_of_le hrecent' hle⟩
        · exact Or.inr ⟨dr, hdr, Or.inl hdelivered⟩
      exact ⟨d, hkeeps.kept hundrained hd hneeds hused, hid, hchannel, hmark⟩
  · intro tally htally row hrow
    rw [hsentOn]
    exact (recentCount_mono hundrained.clock _).trans (h.tallied tally htally row hrow)
  · exact h.unrefused
  · intro channelId
    rw [hsentOn]
    exact h.bounded channelId

/-- A send that succeeds was under way. -/
theorem DrainStep.sent_sending {now : ℤ} {db : Database} {action : DrainAction}
    {result : DrainResult} (h : DrainStep st now db dr action result) :
    result.sent = [] ∨ ∃ since row rows tally delivered,
      dr.phase = .sending since row rows tally delivered ∧ result.sent = [row.delivery] := by
  cases h with
  | succeeded => exact Or.inr ⟨_, _, _, _, _, rfl, rfl⟩
  | _ => exact Or.inl rfl

/-- An instance that has counted alerts has fetched what it claimed. -/
theorem DrainPhase.ids_of_tally {phase : DrainPhase} {tally : Uuid → ℕ}
    (h : phase.tally = some tally) : phase.ids = [] := by
  cases phase with
  | claimed ids => cases h
  | _ => rfl

/-- A drain that counts alerts and goes on to send holds the rows it held. -/
theorem DrainStep.mem_rows_of_tally {now : ℤ} {db : Database} {action : DrainAction}
    {result : DrainResult} (h : DrainStep st now db dr action result) {tally : Uuid → ℕ}
    (htally : dr.phase.tally = some tally) {row : ContextRow}
    (hrow : row ∈ result.drain.phase.rows) : row ∈ dr.phase.rows := by
  rcases h.mem_rows hrow with hold | ⟨_, hid⟩
  · exact hold
  · rw [DrainPhase.ids_of_tally htally] at hid
    cases hid

/-- The alerts of the last hour are no more than their rows. -/
theorem AlertLog.Counted.recentCount_le (h : w.Counted st dr) (hnone : dr.phase.delivered = [])
    {channelId : Uuid} (huse : w.pipeline.InUse channelId) :
    recentCount oneHour w.pipeline.clock (w.sentOn channelId) ≤
      w.pipeline.db.deliveries.rows.countP fun d =>
        d.channelId = channelId ∧ d.status = .sent ∧
          ∃ sentAt ∈ d.sentAt, w.pipeline.clock - oneHour < sentAt := by
  have hids : (w.log.map fun alert => alert.delivery.id).Nodup := by
    have honce : (w.pipeline.sent.map Delivery.id).Nodup := h.exclusive.once
    rwa [← h.logged, List.map_map] at honce
  unfold recentCount AlertLog.sentOn
  rw [List.countP_map, List.countP_filter]
  refine countP_le_countP_of_key Delivery.id hids fun alert halert hcounted => ?_
  obtain ⟨hrecent, hchannel⟩ := Bool.and_eq_true_iff.mp hcounted
  replace hrecent : w.pipeline.clock - oneHour < alert.sentAt := of_decide_eq_true hrecent
  replace hchannel : alert.delivery.channelId = channelId := of_decide_eq_true hchannel
  subst hchannel
  obtain ⟨d, hd, hid, hsame, ⟨hstatus, sentAt, hsentAt, hle⟩ | hdelivered⟩ :=
    h.recorded alert halert hrecent huse
  · have hcounts : d.channelId = alert.delivery.channelId ∧ d.status = .sent ∧
        ∃ sentAt ∈ d.sentAt, w.pipeline.clock - oneHour < sentAt :=
      ⟨hsame, hstatus, sentAt, hsentAt, lt_of_lt_of_le hrecent hle⟩
    exact ⟨d, hd, hid, decide_eq_true hcounts⟩
  · rw [hnone] at hdelivered
    cases hdelivered

end Counted

section Drained

variable {srv : Server} {st : Settings} {w : AlertLog} {dr : Drain} {action : DrainAction}
  {result : DrainResult}

/-- What a step of the only drain leaves. -/
def AlertLog.after (w : AlertLog) (result : DrainResult) : AlertLog where
  pipeline := { w.pipeline with
    db := result.db
    drains := [result.drain]
    sent := w.pipeline.sent ++ result.sent }
  log := w.log ++ result.sent.map fun delivery => ⟨delivery, w.pipeline.clock⟩

/-- The only drain takes a step, or nothing happens. -/
theorem AlertLog.step_drain (halone : w.pipeline.drains = [dr]) (i : ℕ) (action : DrainAction) :
    w.step srv st (.act (.drain i action)) = w ∨
      ∃ result, i = 0 ∧ dr.step st w.pipeline.clock w.pipeline.db action = some result ∧
        w.step srv st (.act (.drain i action)) = w.after result := by
  have hsame (h : act srv st w.pipeline (.drain i action) = w.pipeline) :
      w.step srv st (.act (.drain i action)) = w := by
    simp [AlertLog.step, happen, h]
  cases hget : w.pipeline.drains[i]? with
  | none => exact Or.inl (hsame (by simp [act, hget]))
  | some dr' =>
    have hzero : i = 0 ∧ dr' = dr := by
      rw [halone] at hget
      cases i with
      | zero => exact ⟨rfl, (Option.some.inj hget).symm⟩
      | succ i => cases hget
    obtain ⟨rfl, rfl⟩ := hzero
    cases hstep : dr'.step st w.pipeline.clock w.pipeline.db action with
    | none => exact Or.inl (hsame (by simp [act, hget, hstep]))
    | some result =>
      refine Or.inr ⟨result, rfl, rfl, ?_⟩
      simp [AlertLog.step, AlertLog.after, happen, act, halone, hstep]

/-- A channel in use after a step of the drain was in use before. -/
theorem AlertLog.Counted.inUse_after (h : w.Counted st dr)
    (hstep : DrainStep st w.pipeline.clock w.pipeline.db dr action result) {channelId : Uuid}
    (huse : (w.after result).pipeline.InUse channelId) : w.pipeline.InUse channelId := by
  rcases huse with ⟨ch, hch, hid⟩ | ⟨dr', hdr', hcounted⟩
  · have hdb := hstep.redelivers.1
    simp only [AlertLog.after] at hch
    rw [hdb] at hch
    exact Or.inl ⟨ch, hch, hid⟩
  · obtain rfl := List.mem_singleton.mp hdr'
    rcases hstep.countedChannels hcounted with hbefore | hthere
    · exact Or.inr ⟨dr, h.alone ▸ List.mem_singleton_self dr, hbefore⟩
    · exact Or.inl hthere

/-- The only drain claims what nobody holds. -/
theorem AlertLog.Counted.unheld (h : w.Counted st dr)
    (hstep : DrainStep st w.pipeline.clock w.pipeline.db dr action result) :
    w.pipeline.Unheld st action := by
  rintro locked rfl id _ other hother
  rw [h.alone] at hother
  obtain rfl := List.mem_singleton.mp hother
  cases hstep with
  | claim => exact List.not_mem_nil

/-- The instances are kept apart after a step of the only one. -/
theorem AlertLog.Counted.exclusive_after (h : w.Counted st dr)
    (hstep : DrainStep st w.pipeline.clock w.pipeline.db dr action result)
    (hmarks : action = .fails → dr.phase.delivered = []) :
    (w.after result).pipeline.Exclusive := by
  have hget : w.pipeline.drains[0]? = some dr := by rw [h.alone]; rfl
  have hafter := h.exclusive.step hget hstep (h.unheld hstep) hmarks
  rw [h.alone] at hafter
  exact hafter

/-- The row of an alert in hand is there after a step of the drain. -/
theorem AlertLog.Counted.held_after (h : w.Counted st dr)
    (hstep : DrainStep st w.pipeline.clock w.pipeline.db dr action result) {row : ContextRow}
    (hrow : row ∈ result.drain.phase.rows)
    (huse : (w.after result).pipeline.InUse row.channel.id) :
    ∃ d ∈ (w.after result).pipeline.db.deliveries.rows,
      d.id = row.delivery.id ∧ d.channelId = row.channel.id := by
  have hbefore : ∃ d ∈ w.pipeline.db.deliveries.rows,
      d.id = row.delivery.id ∧ d.channelId = row.channel.id := by
    rcases hstep.loads hrow with hold | ⟨hd, _, hchannel⟩
    · exact h.held row hold (h.inUse_after hstep huse)
    · exact ⟨row.delivery, hd, rfl, hchannel.symm⟩
  obtain ⟨d, hd, hid, hchannel⟩ := hbefore
  obtain ⟨d', hd', hid', hchannel', _⟩ := hstep.marks hd
  exact ⟨d', hd', hid'.trans hid, hchannel'.trans hchannel⟩

/-- The row of an alert of the last hour stays marked, or is marked at the end of its drain. -/
theorem AlertLog.Counted.recorded_old (h : w.Counted st dr)
    (hstep : DrainStep st w.pipeline.clock w.pipeline.db dr action result)
    (hmarks : action = .fails → dr.phase.delivered = []) {alert : SentAlert}
    (halert : alert ∈ w.log) (hrecent : w.pipeline.clock - oneHour < alert.sentAt)
    (huse : (w.after result).pipeline.InUse alert.delivery.channelId) :
    ∃ d ∈ result.db.deliveries.rows, d.id = alert.delivery.id ∧
      d.channelId = alert.delivery.channelId ∧
      ((d.status = .sent ∧ ∃ sentAt ∈ d.sentAt, alert.sentAt ≤ sentAt) ∨
        d.id ∈ result.drain.phase.delivered) := by
  have hdr : dr ∈ w.pipeline.drains := h.alone ▸ List.mem_singleton_self dr
  have hsent : alert.delivery ∈ w.pipeline.sent := h.logged ▸ List.mem_map_of_mem halert
  have hunsent : alert.delivery.id ∉ dr.phase.unsent :=
    (h.exclusive.sent alert.delivery hsent).2.1 dr hdr
  obtain ⟨d, hd, hid, hchannel, hmark⟩ :=
    h.recorded alert halert hrecent (h.inUse_after hstep huse)
  obtain ⟨d', hd', hid', hchannel', hwrite⟩ := hstep.marks hd
  refine ⟨d', hd', hid'.trans hid, hchannel'.trans hchannel, ?_⟩
  rcases hwrite with ⟨hstatus, hsentAt⟩ | ⟨_, hstatus, hsentAt⟩ | hended
  · rcases hmark with ⟨hsent, sentAt, hmem, hle⟩ | hdelivered
    · exact Or.inl ⟨hstatus.trans hsent, sentAt, hsentAt ▸ hmem, hle⟩
    · rcases hstep.delivered hdelivered with hkept | hfails | hall
      · exact Or.inr (hid' ▸ hkept)
      · rw [hmarks hfails] at hdelivered
        cases hdelivered
      · have hpending := (h.exclusive.leased dr hdr d hd (List.mem_append_right _ hdelivered)).1
        have hafter := hall d' hd' hid'
        rw [hstatus, hpending] at hafter
        cases hafter
  · exact Or.inl ⟨hstatus, w.pipeline.clock, hsentAt, h.past alert halert⟩
  · exact absurd (hid ▸ hended) hunsent

/-- The row of an alert that goes out is about to be marked. -/
theorem AlertLog.Counted.recorded_new (h : w.Counted st dr)
    (hstep : DrainStep st w.pipeline.clock w.pipeline.db dr action result) {sent : Delivery}
    (hsent : sent ∈ result.sent) (huse : (w.after result).pipeline.InUse sent.channelId) :
    ∃ d ∈ result.db.deliveries.rows, d.id = sent.id ∧ d.channelId = sent.channelId ∧
      d.id ∈ result.drain.phase.delivered := by
  have hunder := hstep.sent_sending
  rcases hstep.sent_cases with hnone | ⟨d₀, hone, _, hdelivered, _⟩
  · rw [hnone] at hsent
    cases hsent
  · rcases hunder with hnone | ⟨_, row, rows, _, _, hphase, hrow⟩
    · rw [hnone] at hone
      cases hone
    · rw [hone] at hsent hrow
      obtain rfl := List.mem_singleton.mp hsent
      obtain rfl := List.mem_singleton.mp (hrow ▸ List.mem_singleton_self sent)
      have hmem : row ∈ dr.phase.rows := by
        rw [hphase]
        exact List.mem_cons_self
      have hloaded := h.loaded row hmem
      rw [← hloaded] at huse
      obtain ⟨d, hd, hid, hchannel⟩ := h.held row hmem (h.inUse_after hstep huse)
      obtain ⟨d', hd', hid', hchannel', _⟩ := hstep.marks hd
      have hsame : d'.id = row.delivery.id := hid'.trans hid
      exact ⟨d', hd', hsame, hchannel'.trans (hchannel.trans hloaded), hsame ▸ hdelivered⟩

/-- A step that sends nothing leaves the record as it is. -/
theorem AlertLog.sentOn_after_nil (hnone : result.sent = []) (channelId : Uuid) :
    (w.after result).sentOn channelId = w.sentOn channelId := by
  simp [AlertLog.sentOn, AlertLog.after, hnone]

/-- A send that succeeds adds to the record of its channel. -/
theorem AlertLog.sentOn_after_singleton {sent : Delivery} (hone : result.sent = [sent])
    (channelId : Uuid) :
    (w.after result).sentOn channelId =
      if sent.channelId = channelId then w.sentOn channelId ++ [w.pipeline.clock]
      else w.sentOn channelId := by
  simp only [AlertLog.sentOn, AlertLog.after, hone, List.map_singleton, List.filter_append,
    List.map_append]
  split
  · next hsame => simp [hsame]
  · next hother => simp [hother]

/-- What an instance has counted is no less than what went out in the last hour. -/
theorem AlertLog.Counted.tallied_after (h : w.Counted st dr)
    (hceiling : 0 < st.alertMaxPerChannelPerHour)
    (hstep : dr.step st w.pipeline.clock w.pipeline.db action = some result) {tally : Uuid → ℕ}
    (htally : result.drain.phase.tally = some tally) {row : ContextRow}
    (hrow : row ∈ result.drain.phase.rows) :
    recentCount oneHour w.pipeline.clock ((w.after result).sentOn row.channel.id) ≤
      tally row.channel.id := by
  have hcases := Drain.step_cases hstep
  cases Drain.step_tallied hstep htally with
  | @counted rows hphase hrows hcount hnone =>
    rw [hrows] at hrow
    have hlisted : row.channel.id ∈ rows.map fun row => row.channel.id :=
      List.mem_map.mpr ⟨row, hrow, rfl⟩
    have huse : w.pipeline.InUse row.channel.id := by
      refine Or.inr ⟨dr, h.alone ▸ List.mem_singleton_self dr, ?_⟩
      rw [hphase]
      exact hlisted
    have hdelivered : dr.phase.delivered = [] := by
      rw [hphase]
      rfl
    rw [AlertLog.sentOn_after_nil hnone, hcount hceiling.ne', sentLastHourSql, if_pos hlisted]
    exact h.recentCount_le hdelivered huse
  | kept hbefore hnone =>
    rw [AlertLog.sentOn_after_nil hnone]
    exact h.tallied tally hbefore row (hcases.mem_rows_of_tally hbefore hrow)
  | @sent since sentRow rows before delivered hphase hone hcount =>
    have hbefore : dr.phase.tally = some before := by
      rw [hphase]
      rfl
    have hfirst : sentRow ∈ dr.phase.rows := by
      rw [hphase]
      exact List.mem_cons_self
    have hrest := h.tallied before hbefore row (hcases.mem_rows_of_tally hbefore hrow)
    have hloaded := h.loaded sentRow hfirst
    rw [AlertLog.sentOn_after_singleton hone, hcount, ← hloaded]
    dsimp only
    by_cases hsame : sentRow.channel.id = row.channel.id
    · rw [if_pos hsame, if_pos hsame.symm]
      exact (recentCount_snoc_le _ _ _ _).trans (Nat.add_le_add_right hrest 1)
    · rw [if_neg hsame, if_neg fun heq => hsame heq.symm]
      exact hrest

/-- No window holds more alerts than the ceiling after a step of the drain. -/
theorem AlertLog.Counted.bounded_after (h : w.Counted st dr)
    (hceiling : 0 < st.alertMaxPerChannelPerHour)
    (hstep : DrainStep st w.pipeline.clock w.pipeline.db dr action result) (channelId : Uuid) :
    WindowBounded oneHour st.alertMaxPerChannelPerHour ((w.after result).sentOn channelId) := by
  rcases hstep.sent_sending with hnone | ⟨since, row, rows, tally, delivered, hphase, hone⟩
  · rw [AlertLog.sentOn_after_nil hnone]
    exact h.bounded channelId
  · rw [AlertLog.sentOn_after_singleton hone]
    split
    · next hsame =>
      have hrow : row ∈ dr.phase.rows := by
        rw [hphase]
        exact List.mem_cons_self
      have htally : dr.phase.tally = some tally := by
        rw [hphase]
        rfl
      have hrecent := h.tallied tally htally row hrow
      have hunrefused := h.unrefused since row rows tally delivered hphase
      have hbelow : tally row.channel.id < st.alertMaxPerChannelPerHour :=
        Nat.lt_of_not_le fun hle => hunrefused ⟨hceiling, hle⟩
      rw [← hsame, ← h.loaded row hrow]
      exact (h.bounded row.channel.id).snoc (lt_of_le_of_lt hrecent hbelow)
    · exact h.bounded channelId

/-- **A step of the only drain keeps the count**, if it does not forget what it has sent. -/
theorem AlertLog.Counted.drained (h : w.Counted st dr)
    (hceiling : 0 < st.alertMaxPerChannelPerHour)
    (hstep : dr.step st w.pipeline.clock w.pipeline.db action = some result)
    (hmarks : action = .fails → dr.phase.delivered = []) :
    (w.after result).Counted st result.drain := by
  have hcases := Drain.step_cases hstep
  constructor
  · rfl
  · exact h.exclusive_after hcases hmarks
  · simp [AlertLog.after, h.logged, Function.comp_def]
  · intro alert halert
    rcases List.mem_append.mp halert with hold | hnew
    · exact h.past alert hold
    · obtain ⟨_, _, rfl⟩ := List.mem_map.mp hnew
      exact le_rfl
  · intro row hrow
    rcases hcases.loads hrow with hold | ⟨_, _, hchannel⟩
    · exact h.loaded row hold
    · exact hchannel
  · exact fun row hrow huse => h.held_after hcases hrow huse
  · intro alert halert hrecent huse
    rcases List.mem_append.mp halert with hold | hnew
    · exact h.recorded_old hcases hmarks hold hrecent huse
    · obtain ⟨sent, hsent, rfl⟩ := List.mem_map.mp hnew
      obtain ⟨d, hd, hid, hchannel, hdelivered⟩ := h.recorded_new hcases hsent huse
      exact ⟨d, hd, hid, hchannel, Or.inr hdelivered⟩
  · exact fun tally htally row hrow => h.tallied_after hceiling hstep htally hrow
  · exact fun since row rows tally delivered hphase => Drain.step_unrefused hstep hphase
  · exact h.bounded_after hceiling hcases

end Drained

/-- **An event keeps the count**, if it deletes no row that a count needs. -/
theorem AlertLog.Counted.step {srv : Server} {st : Settings} {w : AlertLog} {e : AlertEvent}
    {dr : Drain} (h : w.Counted st dr) (hceiling : 0 < st.alertMaxPerChannelPerHour)
    (hmarks : w.MarksSends e) (hnew : w.NewChannelIds e) (hkeeps : w.KeepsCounted e) :
    ∃ dr', (w.step srv st e).Counted st dr' := by
  by_cases hdrain : ∃ i action, e = .act (.drain i action)
  · obtain ⟨i, action, rfl⟩ := hdrain
    rcases AlertLog.step_drain h.alone i action with hsame | ⟨result, rfl, hstep, hafter⟩
    · rw [hsame]
      exact ⟨dr, h⟩
    · rw [hafter]
      refine ⟨result.drain, h.drained hceiling hstep ?_⟩
      rintro rfl
      exact hmarks _ rfl dr (by rw [h.alone]; rfl)
  · push Not at hdrain
    exact ⟨dr, h.undrained hdrain hnew hkeeps⟩

/-- **No channel is sent more alerts in an hour than the ceiling admits**, as long as no
event deletes the row of an alert that a count needs. -/
theorem alerts_within_ceiling (srv : Server) (st : Settings) (s : Pipeline)
    (events : List AlertEvent) (hceiling : 0 < st.alertMaxPerChannelPerHour) (hquiet : s.Quiet)
    (hone : s.drains.length = 1)
    (hmarks : Along (AlertLog.step srv st) AlertLog.MarksSends (AlertLog.start s) events)
    (hnew : Along (AlertLog.step srv st) AlertLog.NewChannelIds (AlertLog.start s) events)
    (hkeeps : Along (AlertLog.step srv st) AlertLog.KeepsCounted (AlertLog.start s) events) :
    Throughout (AlertLog.step srv st)
      (fun w => ∀ channelId,
        WindowBounded oneHour st.alertMaxPerChannelPerHour (w.sentOn channelId))
      (AlertLog.start s) events := by
  obtain ⟨dr, halone⟩ := List.length_eq_one_iff.mp hone
  have hcounted : Throughout (AlertLog.step srv st) (fun w => ∃ dr, w.Counted st dr)
      (AlertLog.start s) events := by
    refine throughout_of_step ?_ ⟨dr, AlertLog.Counted.start hquiet halone⟩
      (hmarks.and (hnew.and hkeeps))
    rintro w e ⟨_, h⟩ ⟨hmarks, hnew, hkeeps⟩
    exact h.step hceiling hmarks hnew hkeeps
  exact hcounted.mono fun w ⟨_, h⟩ => h.bounded

/-- The default settings with a ceiling of one alert. -/
def oneAlertPerHour : Settings := { defaultSettings with alertMaxPerChannelPerHour := 1 }

/-- The sample account, with one instance that drains the queue. -/
def oneInstance : Pipeline := { samplePipeline with drains := [⟨0, .idle⟩] }

/-- The request for a check that reports every minute, with a minute of grace. -/
def minutelyRequest : CreateCheckRequest :=
  { hourlyRequest with periodSeconds := some 60, graceSeconds := 60 }

/-- A check goes down and its alert is sent. -/
def alertedOutage : List Action :=
  [.addChannel ⟨1, 1, true⟩] ++ sampleOutage ++ sampleTick ++ sampleDelivery [0]

/-- The check is removed; another one takes its place and goes down as well. -/
def replacedCheck : List Action :=
  [.write (.remove 10), .write (.create 1 minutelyRequest "restore" 11 21), .elapse 120001] ++
    sampleTick ++ sampleDelivery [1]

/-- The check is replaced an hour after its alert. A project comes and goes meanwhile. -/
def replacedLater : List AlertEvent :=
  .createProject 2 1 :: (alertedOutage ++ .elapse 3600000 :: replacedCheck).map .act ++
    [.removeProject 2]

/-- With a ceiling of one alert, the channel is sent one in any hour. -/
theorem alerts_within_ceiling_replacedLater :
    Throughout (AlertLog.step sampleServer oneAlertPerHour)
      (fun w => ∀ channelId, WindowBounded oneHour 1 (w.sentOn channelId))
      (AlertLog.start oneInstance) replacedLater :=
  alerts_within_ceiling sampleServer oneAlertPerHour oneInstance replacedLater (by decide)
    ⟨by decide, rfl⟩ rfl (by decide) (by decide) (by decide)

/-- When a check is removed, its alert is no longer counted: the channel is sent two alerts
within the hour that admits one. -/
theorem not_alertsWithinCeiling_replacedCheck :
    ¬ ∀ (srv : Server) (st : Settings) (s : Pipeline) (events : List AlertEvent),
      0 < st.alertMaxPerChannelPerHour → s.Quiet → s.drains.length = 1 →
      Along (AlertLog.step srv st) AlertLog.MarksSends (AlertLog.start s) events →
      Along (AlertLog.step srv st) AlertLog.NewChannelIds (AlertLog.start s) events →
      Throughout (AlertLog.step srv st)
        (fun w => ∀ channelId,
          WindowBounded oneHour st.alertMaxPerChannelPerHour (w.sentOn channelId))
        (AlertLog.start s) events := by
  intro h
  have hbounded := (h sampleServer oneAlertPerHour oneInstance
    ((alertedOutage ++ replacedCheck).map .act) (by decide) ⟨by decide, rfl⟩ rfl
    (by decide) (by decide)).last 1 4020002
  revert hbounded
  decide

end SilenceWatch
