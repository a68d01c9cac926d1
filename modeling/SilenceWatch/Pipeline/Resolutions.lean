import SilenceWatch.Pipeline.Drains
import SilenceWatch.Pipeline.Recoveries

/-!
# Every announced outage gets its recovery announced

Recoveries are queued once, by the tick that resolves their incidents, and only for
incidents whose outage some channel was told of by then. What is on its way at that
moment, in the queue or in the hands of a drain, is not looked at again.
-/

namespace SilenceWatch

open Relational Transition

/-- The sample account with one enabled channel. -/
def sampleChannel : Pipeline :=
  act sampleServer defaultSettings samplePipeline (.addChannel ⟨1, 1, true⟩)

/-- The incidents a tick remembers between two transactions. -/
def TickPhase.refs : TickPhase → List IncidentRef
  | .announcing incidents => incidents
  | .recovering incidents => incidents
  | _ => []

/-- The action gives no project a channel to alert that it did not have. -/
def Action.AddsNoAudience : Action → Prop
  | .addChannel _ => False
  | .setChannelEnabled _ enabled => enabled = false
  | _ => True

instance (a : Action) : Decidable a.AddsNoAudience := by
  unfold Action.AddsNoAudience
  split <;> infer_instance

/-- No channel was told of the outage, and none can be told of it any more: no alert of
it is pending and no drain holds one. -/
structure Pipeline.NeverTold (s : Pipeline) (incidentId : Uuid) : Prop where
  sent : ∀ d ∈ s.sent, d.incidentId = incidentId → d.kind ≠ .down
  pending : ∀ d ∈ s.db.deliveries.rows, d.incidentId = incidentId → d.kind = .down →
    d.status ≠ .pending ∧ ∀ dr ∈ s.drains, d.id ∉ dr.phase.ids
  held : ∀ dr ∈ s.drains, ∀ row ∈ dr.phase.rows, row.delivery.incidentId = incidentId →
    row.delivery.kind ≠ .down

instance (s : Pipeline) (incidentId : Uuid) : Decidable (s.NeverTold incidentId) :=
  decidable_of_iff
    ((∀ d ∈ s.sent, d.incidentId = incidentId → d.kind ≠ .down) ∧
      (∀ d ∈ s.db.deliveries.rows, d.incidentId = incidentId → d.kind = .down →
        d.status ≠ .pending ∧ ∀ dr ∈ s.drains, d.id ∉ dr.phase.ids) ∧
      ∀ dr ∈ s.drains, ∀ row ∈ dr.phase.rows, row.delivery.incidentId = incidentId →
        row.delivery.kind ≠ .down)
    ⟨fun h => ⟨h.1, h.2.1, h.2.2⟩, fun h => ⟨h.sent, h.pending, h.held⟩⟩

/-- The incidents whose recoveries the action forgets to queue. -/
def Pipeline.forgetting (s : Pipeline) : Action → List IncidentRef
  | .tickFails =>
    match s.tick with
    | .recovering resolved => resolved
    | _ => []
  | _ => []

/-- The deliveries that the action purges. -/
def Pipeline.purging (s : Pipeline) : Action → List Delivery
  | .purgeDeliveries => s.db.deliveries.rows.filter fun d => d.Finished s.clock
  | _ => []

/-- No recovery is lost by the action. -/
structure Pipeline.LosesNoRecovery (s : Pipeline) (a : Action) : Prop where
  /-- The statement that queues recoveries does not fail. -/
  insertable : s.db.Insertable (s.recovering a) .up
  /-- What is queued was told by then to some channel or is never told to any. -/
  told : ∀ ref ∈ s.recovering a, s.db.Told ref.incidentId ∨ s.NeverTold ref.incidentId
  /-- What the process forgets by failing is never told to any. -/
  forgotten : ∀ ref ∈ s.forgetting a, s.NeverTold ref.incidentId
  /-- No recovery of an incident that is stored is purged. -/
  purged : ∀ d ∈ s.purging a, d.kind = .up → ∀ i ∈ s.db.incidents.rows, i.id ≠ d.incidentId

instance (s : Pipeline) (a : Action) : Decidable (s.LosesNoRecovery a) :=
  decidable_of_iff
    (s.db.Insertable (s.recovering a) .up ∧
      (∀ ref ∈ s.recovering a, s.db.Told ref.incidentId ∨ s.NeverTold ref.incidentId) ∧
      (∀ ref ∈ s.forgetting a, s.NeverTold ref.incidentId) ∧
      ∀ d ∈ s.purging a, d.kind = .up → ∀ i ∈ s.db.incidents.rows, i.id ≠ d.incidentId)
    ⟨fun h => ⟨h.1, h.2.1, h.2.2.1, h.2.2.2⟩,
      fun h => ⟨h.insertable, h.told, h.forgotten, h.purged⟩⟩

/-- The queue is drained and no process is in the middle of anything. -/
def Pipeline.Settled (s : Pipeline) : Prop :=
  s.tick = .idle ∧ (∀ d ∈ s.db.deliveries.rows, d.status ≠ .pending) ∧ ∀ dr ∈ s.drains, dr.Idle
  deriving Decidable

/-- Once everything is settled, every enabled channel that was told of an outage that is
over has a recovery. -/
def Pipeline.RecoveriesAnnounced (s : Pipeline) : Prop :=
  s.Settled → ∀ i ∈ s.db.incidents.rows, i.resolvedAt ≠ none →
    ∀ ch ∈ s.db.channels.rows, ch.enabled = true →
      (∃ d ∈ s.sent, d.Addresses i.id ch.id .down) → s.db.Recovered i.id ch.id
  deriving Decidable

/-- A delivery the system knows of: in its table, in the hands of a drain, or sent. -/
def Pipeline.Knows (s : Pipeline) (d : Delivery) : Prop :=
  d ∈ s.db.deliveries.rows ∨ d ∈ s.sent ∨ ∃ dr ∈ s.drains, ∃ row ∈ dr.phase.rows, row.delivery = d

/-- Every enabled channel of the project of an incident has its recovery. -/
def Pipeline.Answered (s : Pipeline) (i : Incident) : Prop :=
  ∀ ch ∈ s.db.audienceOf i.checkId, s.db.Recovered i.id ch.id

/-- What ties the resolved incidents to the queue, the drains and what was sent. -/
structure Pipeline.Traced (s : Pipeline) : Prop where
  /-- An incident belongs to a check. -/
  checked : ∀ i ∈ s.db.incidents.rows, ∃ c ∈ s.db.checks.rows, c.id = i.checkId
  /-- What a tick remembers are incidents with their checks, open ones if it is about
  to announce them. -/
  remembered : ∀ ref ∈ s.tick.refs, ref.incidentId < s.db.incidents.next ∧
    ∀ i ∈ s.db.incidents.rows, i.id = ref.incidentId → i.checkId = ref.checkId ∧
      ((∃ opened, s.tick = .announcing opened) → i.resolvedAt = none)
  /-- What a drain holds is about the alert of its row. -/
  held : ∀ dr ∈ s.drains, ∀ row ∈ dr.phase.rows, row.delivery.id < s.db.deliveries.next ∧
    ∀ d ∈ s.db.deliveries.rows, d.id = row.delivery.id →
      d.incidentId = row.delivery.incidentId ∧ d.kind = row.delivery.kind
  /-- Deliveries go to channels of the project of their incident. -/
  linked : ∀ d, s.Knows d → d.incidentId < s.db.incidents.next ∧
    ∀ i ∈ s.db.incidents.rows, i.id = d.incidentId → ∀ ch ∈ s.db.channels.rows,
      ch.id = d.channelId → ch.enabled = true → ch ∈ s.db.audienceOf i.checkId
  /-- A resolved incident is about to be answered, answered, or nobody's concern. -/
  resolved : ∀ i ∈ s.db.incidents.rows, i.resolvedAt ≠ none →
    (∃ resolved, s.tick = .recovering resolved ∧ ⟨i.id, i.checkId⟩ ∈ resolved) ∨
      s.Answered i ∨ s.NeverTold i.id

section Step

variable {srv : Server} {st : Settings} {s : Pipeline} {a : Action}

/-- An enabled channel was there and enabled before. -/
theorem act_channels (hadds : a.AddsNoAudience) {ch : Channel}
    (hch : ch ∈ (act srv st s a).db.channels.rows) (henabled : ch.enabled = true) :
    ch ∈ s.db.channels.rows := by
  have hstep := act_cases srv st s a
  generalize act srv st s a = s' at hch hstep
  cases hstep with
  | @write w => simpa only [(perform_frame srv s.db ⟨s.clock, w⟩).1] using hch
  | addChannel _ => exact hadds.elim
  | removeChannel => exact (Table.mem_delete.mp hch).1
  | @setChannelEnabled id enabled =>
    obtain rfl : enabled = false := hadds
    obtain ⟨ch', hch', ⟨_, rfl⟩ | ⟨_, rfl⟩⟩ := mem_map_updateRow.mp hch
    · cases henabled
    · exact hch'
  | drain _ hstep =>
    have hdb := hstep.redelivers.1
    dsimp only at hch
    rw [hdb] at hch
    exact hch
  | _ => exact hch

/-- A channel that stays is in the audience of a check with incidents, or is not in it,
as before. -/
theorem act_audienceOf_iff {i' : Incident} (hi' : i' ∈ (act srv st s a).db.incidents.rows)
    {c : Check} (hc : c ∈ s.db.checks.rows) (hcheck : c.id = i'.checkId) {ch : Channel}
    (hch : ch ∈ s.db.channels.rows) (hch' : ch ∈ (act srv st s a).db.channels.rows) :
    ch ∈ (act srv st s a).db.audienceOf i'.checkId ↔ ch ∈ s.db.audienceOf i'.checkId := by
  rcases act_check_persists srv st (a := a) hc with ⟨c', hc', hid, hproject⟩ | hgone
  · rw [mem_audienceOf, mem_audienceOf]
    constructor
    · rintro ⟨b, hb, hbid, _, hbproject, henabled⟩
      have hsame : b = c' := (act srv st s a).db.eq_of_check_id hb
        hc' (hbid.trans (hcheck.symm.trans hid.symm))
      subst hsame
      exact ⟨c, hc, hcheck, hch, hbproject.trans hproject, henabled⟩
    · rintro ⟨b, hb, hbid, _, hbproject, henabled⟩
      have hsame : b = c := s.db.eq_of_check_id hb hc (hbid.trans hcheck.symm)
      subst hsame
      exact ⟨c', hc', hid.trans hcheck, hch', hbproject.trans hproject.symm, henabled⟩
  · exact absurd hcheck.symm (hgone i' hi')

/-- What is known after an action was known before, or was created by it. -/
theorem act_knows {d' : Delivery} (h : (act srv st s a).Knows d') :
    (∃ d, s.Knows d ∧ d.incidentId = d'.incidentId ∧ d.channelId = d'.channelId) ∨
      ∃ incidents, s.Creates a incidents d' := by
  rcases h with hrow | hsent | ⟨dr', hdr', row, hrow, rfl⟩
  · rcases act_deliveries hrow with ⟨d, hd, hsame⟩ | hcreates
    · exact Or.inl ⟨d, Or.inl hd, hsame.incidentId.symm, hsame.channelId.symm⟩
    · exact Or.inr hcreates
  · rcases act_sent hsent with hold | hheld
    · exact Or.inl ⟨d', Or.inr (Or.inl hold), rfl, rfl⟩
    · exact Or.inl ⟨d', Or.inr (Or.inr hheld), rfl, rfl⟩
  · left
    refine ⟨row.delivery, ?_, rfl, rfl⟩
    rcases act_drains hdr' with hold | ⟨dr, hdr, action, result, hstep, rfl⟩
    · exact Or.inr (Or.inr ⟨dr', hold, row, hrow, rfl⟩)
    · rcases hstep.mem_rows hrow with hheld | ⟨hmem, _⟩
      · exact Or.inr (Or.inr ⟨dr, hdr, row, hheld, rfl⟩)
      · exact Or.inl hmem

/-- A row that an action leaves pending was pending or held by a drain, or was created. -/
theorem act_pending {d' : Delivery} (hd' : d' ∈ (act srv st s a).db.deliveries.rows)
    (hpending : d'.status = .pending) :
    (∃ d ∈ s.db.deliveries.rows, d.SameAlert d' ∧ (d.status = .pending ∨
        ∃ dr ∈ s.drains, ∃ row ∈ dr.phase.rows, row.delivery.id = d.id)) ∨
      ∃ incidents, s.Creates a incidents d' := by
  have hkept (h : d' ∈ s.db.deliveries.rows) :
      ∃ d ∈ s.db.deliveries.rows, d.SameAlert d' ∧ (d.status = .pending ∨
        ∃ dr ∈ s.drains, ∃ row ∈ dr.phase.rows, row.delivery.id = d.id) :=
    ⟨d', h, Delivery.SameAlert.refl d', Or.inl hpending⟩
  by_cases hdrain : ∃ instance' action, a = .drain instance' action
  · obtain ⟨instance', action, rfl⟩ := hdrain
    left
    have hstep := act_cases srv st s (.drain instance' action)
    generalize act srv st s (.drain instance' action) = s' at hd' hstep
    cases hstep with
    | drain hget hstep =>
      obtain ⟨d, hd, hsame, hstatus⟩ := hstep.pending hd' hpending
      refine ⟨d, hd, hsame, hstatus.imp_right fun hheld => ?_⟩
      exact ⟨_, List.mem_of_getElem? hget, hheld⟩
    | skipDrain => exact hkept hd'
  · push Not at hdrain
    exact (act_deliveries_of_ne_drain hdrain hd').imp_left hkept

/-- A created delivery is about an incident the tick remembers. -/
theorem Pipeline.Creates.exists_ref {incidents : List IncidentRef} {d : Delivery}
    (h : s.Creates a incidents d) :
    ∃ ref ∈ s.tick.refs, ref.incidentId = d.incidentId ∧
      ∃ ch ∈ s.db.audienceOf ref.checkId, ch.id = d.channelId := by
  obtain ⟨ref, href, _, hincident, c, hc, hcheck, ch, hch, hproject, henabled, hchannel⟩ :=
    mem_addressed.mp h.row.pair
  refine ⟨ref, ?_, hincident.symm, ch,
    mem_audienceOf.mpr ⟨c, hc, hcheck, hch, hproject, henabled⟩, hchannel.symm⟩
  have henqueues := h.enqueues
  generalize d.kind = kind at henqueues
  cases henqueues with
  | announce htick => rwa [htick]
  | recover htick => rwa [htick]

/-- What a tick remembers it remembered before, or a statement of it has just opened or
resolved it. -/
theorem act_refs {ref : IncidentRef} (href : ref ∈ (act srv st s a).tick.refs) :
    (ref ∈ s.tick.refs ∧ (act srv st s a).tick = s.tick) ∨
      (∃ locked, a = .tick locked ∧ s.tick = .opening ∧
        ref ∈ (openIncidentsSql s.clock st.detectionBatchSize locked s.db).2) ∨
      ∃ locked, a = .tick locked ∧ s.tick = .resolving ∧
        ref ∈ (resolveIncidentsSql s.clock st.detectionBatchSize locked s.db).2 ∧
        ∃ resolved, (act srv st s a).tick = .recovering resolved := by
  have hstep := act_cases srv st s a
  generalize act srv st s a = s' at href hstep ⊢
  cases hstep with
  | startTick _ => cases href
  | advance _ hphase =>
    rcases hphase with rfl | rfl
    · cases href
    · cases href
  | @openIncidents locked htick =>
    right; left
    dsimp only at href
    split at href
    · cases href
    · exact ⟨locked, rfl, htick, href⟩
  | @resolveIncidents locked htick =>
    right; right
    dsimp only at href ⊢
    split at href
    · cases href
    · next hsome => exact ⟨locked, rfl, htick, href, _, if_neg hsome⟩
  | announce _ _ => cases href
  | announceFails _ _ => cases href
  | recover _ _ => cases href
  | recoverFails _ _ => cases href
  | tickFails => cases href
  | _ => exact Or.inl ⟨href, rfl⟩

/-- What is resolved is remembered. -/
theorem exists_of_mem_resolved {now : ℤ} {limit : ℕ} {locked : Uuid → Bool} {db : Database}
    {ref : IncidentRef} (href : ref ∈ (resolveIncidentsSql now limit locked db).2) :
    ∃ i ∈ db.incidents.rows, i.id = ref.incidentId ∧ i.checkId = ref.checkId := by
  obtain ⟨i, hi, rfl⟩ := List.mem_map.mp href
  exact ⟨i, (List.mem_filter.mp (List.mem_of_mem_take hi)).1, rfl, rfl⟩

end Step

section Kept

variable {srv : Server} {st : Settings} {s : Pipeline} {a : Action}

/-- An incident that was known before an action is a version of one stored then. -/
theorem exists_of_lt_next {i' : Incident} (hi' : i' ∈ (act srv st s a).db.incidents.rows)
    (hknown : i'.id < s.db.incidents.next) : ∃ i ∈ s.db.incidents.rows, s.SameOutage st a i i' := by
  rcases act_incidents hi' with hversion | hopens
  · exact hversion
  · cases hopens with
    | tick _ hnew _ _ _ => exact absurd hknown (Nat.not_lt.mpr hnew)

/-- Incidents keep belonging to checks. -/
theorem Pipeline.Traced.checked_act (h : s.Traced) {i' : Incident}
    (hi' : i' ∈ (act srv st s a).db.incidents.rows) :
    ∃ c ∈ s.db.checks.rows, c.id = i'.checkId := by
  rcases act_incidents hi' with ⟨i, hi, hsame⟩ | hopens
  · rw [hsame.checkId]
    exact h.checked i hi
  · cases hopens with
    | tick _ _ _ hcheck _ => exact hcheck

/-- What a tick remembers stays true. -/
theorem Pipeline.Traced.remembered_act (h : s.Traced) {ref : IncidentRef}
    (href : ref ∈ (act srv st s a).tick.refs) :
    ref.incidentId < (act srv st s a).db.incidents.next ∧
      ∀ i ∈ (act srv st s a).db.incidents.rows, i.id = ref.incidentId →
        i.checkId = ref.checkId ∧
          ((∃ opened, (act srv st s a).tick = .announcing opened) → i.resolvedAt = none) := by
  rcases act_refs href with ⟨hbefore, htick⟩ | ⟨locked, rfl, htick, hmem⟩ |
    ⟨locked, rfl, htick, hmem, resolved, hafter⟩
  · obtain ⟨hknown, hversions⟩ := h.remembered ref hbefore
    refine ⟨lt_of_lt_of_le hknown act_incidents_next, fun i' hi' hid => ?_⟩
    obtain ⟨i, hi, hsame⟩ := exists_of_lt_next hi' (hid ▸ hknown)
    obtain ⟨hcheck, hopen⟩ := hversions i hi (hsame.id.symm.trans hid)
    refine ⟨hsame.checkId.trans hcheck, fun ⟨opened, hannouncing⟩ => ?_⟩
    rw [htick] at hannouncing
    rcases hsame.resolution with heq | hresolves
    · exact heq.trans (hopen ⟨opened, hannouncing⟩)
    · cases hresolves with
      | tick hresolving _ _ =>
        rw [hresolving] at hannouncing
        cases hannouncing
  · obtain ⟨hnew, j, hj, hjid, hjcheck⟩ := exists_of_mem_opened hmem
    rw [← act_opening_db srv st htick] at hj
    refine ⟨hjid ▸ (act srv st s (.tick locked)).db.incidents.fresh j hj, fun i' hi' hid => ?_⟩
    have hsame : i' = j := Database.eq_of_incident_id _ hi' hj (hid.trans hjid.symm)
    refine ⟨hsame ▸ hjcheck, fun _ => ?_⟩
    rcases act_incidents hi' with ⟨i, hi, hversion⟩ | hopens
    · have hfresh := s.db.incidents.fresh i hi
      rw [← hversion.id, hid] at hfresh
      exact absurd hfresh (Nat.not_lt.mpr hnew)
    · cases hopens with
      | tick _ _ hopen _ _ => exact hopen
  · obtain ⟨j, hj, hjid, hjcheck⟩ := exists_of_mem_resolved hmem
    have hknown : ref.incidentId < s.db.incidents.next := hjid ▸ s.db.incidents.fresh j hj
    refine ⟨lt_of_lt_of_le hknown act_incidents_next, fun i' hi' hid => ?_⟩
    obtain ⟨i, hi, hversion⟩ := exists_of_lt_next hi' (hid ▸ hknown)
    have hsame : i = j := s.db.eq_of_incident_id hi hj
      (hversion.id.symm.trans (hid.trans hjid.symm))
    refine ⟨hversion.checkId.trans (hsame ▸ hjcheck), fun ⟨opened, hannouncing⟩ => ?_⟩
    rw [hafter] at hannouncing
    cases hannouncing

/-- What a drain holds stays about the alert of its row. -/
theorem Pipeline.Traced.held_act (h : s.Traced) {dr' : Drain}
    (hdr' : dr' ∈ (act srv st s a).drains) {row : ContextRow} (hrow : row ∈ dr'.phase.rows) :
    row.delivery.id < (act srv st s a).db.deliveries.next ∧
      ∀ d' ∈ (act srv st s a).db.deliveries.rows, d'.id = row.delivery.id →
        d'.incidentId = row.delivery.incidentId ∧ d'.kind = row.delivery.kind := by
  have hbefore : row.delivery.id < s.db.deliveries.next ∧
      ∀ d ∈ s.db.deliveries.rows, d.id = row.delivery.id →
        d.incidentId = row.delivery.incidentId ∧ d.kind = row.delivery.kind := by
    rcases act_drains hdr' with hold | ⟨dr, hdr, action, result, hstep, rfl⟩
    · exact h.held dr' hold row hrow
    · rcases hstep.mem_rows hrow with hheld | ⟨hmem, _⟩
      · exact h.held dr hdr row hheld
      · refine ⟨s.db.deliveries.fresh _ hmem, fun d hd hid => ?_⟩
        have hsame : d = row.delivery := s.db.eq_of_delivery_id hd hmem hid
        exact ⟨congrArg Delivery.incidentId hsame, congrArg Delivery.kind hsame⟩
  obtain ⟨hknown, hversions⟩ := hbefore
  refine ⟨lt_of_lt_of_le hknown act_deliveries_next, fun d' hd' hid => ?_⟩
  rcases act_deliveries hd' with ⟨d, hd, hsame⟩ | ⟨_, hcreates⟩
  · obtain ⟨hincident, hkind⟩ := hversions d hd (hsame.id.symm.trans hid)
    exact ⟨hsame.incidentId.trans hincident, hsame.kind.trans hkind⟩
  · have hfresh := hcreates.fresh
    rw [hid] at hfresh
    exact absurd hknown (Nat.not_lt.mpr hfresh)

/-- Deliveries keep going to channels of the project of their incident. -/
theorem Pipeline.Traced.linked_act (h : s.Traced) (hadds : a.AddsNoAudience) {d' : Delivery}
    (hd' : (act srv st s a).Knows d') :
    d'.incidentId < (act srv st s a).db.incidents.next ∧
      ∀ i' ∈ (act srv st s a).db.incidents.rows, i'.id = d'.incidentId →
        ∀ ch ∈ (act srv st s a).db.channels.rows, ch.id = d'.channelId → ch.enabled = true →
          ch ∈ (act srv st s a).db.audienceOf i'.checkId := by
  have hbefore : d'.incidentId < s.db.incidents.next ∧
      ∀ i ∈ s.db.incidents.rows, i.id = d'.incidentId → ∀ ch ∈ s.db.channels.rows,
        ch.id = d'.channelId → ch.enabled = true → ch ∈ s.db.audienceOf i.checkId := by
    rcases act_knows hd' with ⟨d, hd, hincident, hchannel⟩ | ⟨_, hcreates⟩
    · rw [← hincident, ← hchannel]
      exact h.linked d hd
    · obtain ⟨ref, href, hincident, ch, hch, hchannel⟩ := hcreates.exists_ref
      obtain ⟨hknown, hversions⟩ := h.remembered ref href
      refine ⟨hincident ▸ hknown, fun i hi hid b hb hbid _ => ?_⟩
      obtain ⟨_, _, _, hmem, _⟩ := mem_audienceOf.mp hch
      have hsame : b = ch := s.db.channels.eq_of_key_eq Channel.id (fun _ _ h => h) hb hmem
        (hbid.trans hchannel.symm)
      rw [hsame, (hversions i hi (hid.trans hincident.symm)).1]
      exact hch
  obtain ⟨hknown, hversions⟩ := hbefore
  refine ⟨lt_of_lt_of_le hknown act_incidents_next, fun i' hi' hid ch hch' hchannel henabled => ?_⟩
  obtain ⟨i, hi, hsame⟩ := exists_of_lt_next hi' (hid ▸ hknown)
  have hch := act_channels hadds hch' henabled
  obtain ⟨c, hc, hcheck⟩ := h.checked_act hi'
  rw [act_audienceOf_iff hi' hc hcheck hch hch', hsame.checkId]
  exact hversions i hi (hsame.id.symm.trans hid) ch hch hchannel henabled

/-- Nobody comes to be told of an outage that is over. -/
theorem Pipeline.Traced.neverTold_act (h : s.Traced) {i : Incident}
    (hi : i ∈ s.db.incidents.rows) (hover : i.resolvedAt ≠ none) (hnever : s.NeverTold i.id) :
    (act srv st s a).NeverTold i.id := by
  have hcreates {incidents : List IncidentRef} {d : Delivery} (hcreates : s.Creates a incidents d)
      (hid : d.incidentId = i.id) : d.kind ≠ .down := by
    intro hkind
    obtain ⟨ref, href, hincident, _⟩ := hcreates.exists_ref
    have henqueues := hcreates.enqueues
    rw [hkind] at henqueues
    cases henqueues with
    | announce htick =>
      obtain ⟨_, hopen⟩ := (h.remembered ref href).2 i hi (hid.symm.trans hincident.symm)
      exact hover (hopen ⟨_, htick⟩)
  have hversion {d' : Delivery} (hd' : d' ∈ (act srv st s a).db.deliveries.rows)
      (hid : d'.incidentId = i.id) (hkind : d'.kind = .down) :
      ∃ d ∈ s.db.deliveries.rows, d.id = d'.id ∧ d.incidentId = i.id ∧ d.kind = .down := by
    rcases act_deliveries hd' with ⟨d, hd, hsame⟩ | ⟨_, hnew⟩
    · exact ⟨d, hd, hsame.id.symm, hsame.incidentId.symm.trans hid, hsame.kind.symm.trans hkind⟩
    · exact absurd hkind (hcreates hnew hid)
  refine ⟨fun d hd hid => ?_, fun d' hd' hid hkind => ⟨fun hpending => ?_, fun dr' hdr' hmem => ?_⟩,
    fun dr' hdr' row hrow hid hkind => ?_⟩
  · rcases act_sent hd with hold | ⟨dr, hdr, row, hrow, rfl⟩
    · exact hnever.sent d hold hid
    · exact hnever.held dr hdr row hrow hid
  · rcases act_pending hd' hpending with ⟨d, hd, hsame, hstatus⟩ | ⟨_, hnew⟩
    · have hincident := hsame.incidentId.symm.trans hid
      have hdown := hsame.kind.symm.trans hkind
      rcases hstatus with hbefore | ⟨dr, hdr, row, hrow, hrowid⟩
      · exact (hnever.pending d hd hincident hdown).1 hbefore
      · obtain ⟨hrowincident, hrowkind⟩ := (h.held dr hdr row hrow).2 d hd hrowid.symm
        exact hnever.held dr hdr row hrow (hrowincident.symm.trans hincident)
          (hrowkind.symm.trans hdown)
    · exact hcreates hnew hid hkind
  · obtain ⟨d, hd, hdid, hincident, hdown⟩ := hversion hd' hid hkind
    have hbefore := hnever.pending d hd hincident hdown
    rcases act_drains hdr' with hold | ⟨dr, hdr, action, result, hstep, rfl⟩
    · exact hbefore.2 dr' hold (hdid ▸ hmem)
    · obtain ⟨claimed, hclaimed, hclaimedid, hclaimable⟩ := hstep.mem_ids hmem
      have hsame : claimed = d := s.db.eq_of_delivery_id hclaimed hd (hclaimedid.trans hdid.symm)
      exact hbefore.1 (hsame ▸ hclaimable.1)
  · rcases act_drains hdr' with hold | ⟨dr, hdr, action, result, hstep, rfl⟩
    · exact hnever.held dr' hold row hrow hid hkind
    · rcases hstep.mem_rows hrow with hheld | ⟨hmem, hclaimed⟩
      · exact hnever.held dr hdr row hheld hid hkind
      · exact (hnever.pending _ hmem hid hkind).2 dr hdr hclaimed

/-- The audience of an incident was its audience before. -/
theorem Pipeline.Traced.audienceOf_act (h : s.Traced) (hadds : a.AddsNoAudience)
    {i' : Incident} (hi' : i' ∈ (act srv st s a).db.incidents.rows) {ch : Channel}
    (hch : ch ∈ (act srv st s a).db.audienceOf i'.checkId) :
    ch ∈ s.db.channels.rows ∧ ch ∈ s.db.audienceOf i'.checkId := by
  obtain ⟨_, _, _, hmem, _, henabled⟩ := mem_audienceOf.mp hch
  obtain ⟨c, hc, hcheck⟩ := h.checked_act hi'
  have hbefore := act_channels hadds hmem henabled
  exact ⟨hbefore, (act_audienceOf_iff hi' hc hcheck hbefore hmem).mp hch⟩

/-- An answered incident stays answered, unless a recovery of it is purged. -/
theorem Pipeline.Traced.answered_act (h : s.Traced) (hadds : a.AddsNoAudience)
    (hloses : s.LosesNoRecovery a) {i i' : Incident} (hi : i ∈ s.db.incidents.rows)
    (hi' : i' ∈ (act srv st s a).db.incidents.rows) (hsame : s.SameOutage st a i i')
    (hanswered : s.Answered i) : (act srv st s a).Answered i' := by
  intro ch hch
  obtain ⟨hmem, hbefore⟩ := h.audienceOf_act hadds hi' hch
  rw [hsame.checkId] at hbefore
  obtain ⟨d, hd, hincident, hchannel, hkind⟩ := hanswered ch hbefore
  rcases act_persists srv st hd with ⟨d', hd', hversion⟩ | hremoved | ⟨hpurge, hfinished⟩ | hgone
  · exact ⟨d', hd', hversion.incidentId.trans (hincident.trans hsame.id.symm),
      hversion.channelId.trans hchannel, hversion.kind.trans hkind⟩
  · subst hremoved
    obtain ⟨_, _, _, hafter, _⟩ := mem_audienceOf.mp hch
    exact absurd hchannel.symm (Table.mem_delete.mp hafter).2
  · subst hpurge
    have hpurged : d ∈ s.purging .purgeDeliveries :=
      List.mem_filter.mpr ⟨hd, decide_eq_true hfinished⟩
    exact absurd hincident.symm (hloses.purged d hpurged hkind i hi)
  · exact absurd (hsame.id.trans hincident.symm) (hgone i' hi')

/-- A recovery that the tick is about to queue is queued, unless the action loses it. -/
theorem Pipeline.Traced.recovering_act (h : s.Traced) (hadds : a.AddsNoAudience)
    (hloses : s.LosesNoRecovery a) {i i' : Incident} (hi : i ∈ s.db.incidents.rows)
    (hi' : i' ∈ (act srv st s a).db.incidents.rows) (hsame : s.SameOutage st a i i')
    (hover : i.resolvedAt ≠ none) {resolved : List IncidentRef}
    (htick : s.tick = .recovering resolved) (href : ⟨i.id, i.checkId⟩ ∈ resolved) :
    (∃ resolved, (act srv st s a).tick = .recovering resolved ∧ ⟨i'.id, i'.checkId⟩ ∈ resolved) ∨
      (act srv st s a).Answered i' ∨ (act srv st s a).NeverTold i'.id := by
  have hnever (hbefore : s.NeverTold i.id) : (act srv st s a).NeverTold i'.id :=
    hsame.id ▸ h.neverTold_act hi hover hbefore
  by_cases hstatement : ∃ locked, a = .tick locked
  · obtain ⟨locked, rfl⟩ := hstatement
    right
    have hrecovering : s.recovering (.tick locked) = resolved := by
      simp [Pipeline.recovering, htick]
    rcases hloses.told _ (hrecovering ▸ href) with htold | hbefore
    · left
      intro ch hch
      obtain ⟨_, hmem⟩ := h.audienceOf_act hadds hi' hch
      have hpair : (i.id, ch.id) ∈ s.db.addressed resolved .up :=
        mem_addressed_up.mpr ⟨⟨i.id, i.checkId⟩, href, htold, ch, hsame.checkId ▸ hmem, rfl⟩
      have henqueues : s.Enqueues (.tick locked) resolved .up := Pipeline.Enqueues.recover htick
      rw [hsame.id]
      exact henqueues.exists_delivery srv st (hrecovering ▸ hloses.insertable) hpair
    · exact Or.inr (hnever hbefore)
  · by_cases hfails : a = .tickFails
    · subst hfails
      have hforgetting : s.forgetting .tickFails = resolved := by
        simp [Pipeline.forgetting, htick]
      exact Or.inr (Or.inr (hnever (hloses.forgotten _ (hforgetting ▸ href))))
    · left
      refine ⟨resolved, ?_, ?_⟩
      · rw [act_tick srv st (fun locked heq => hstatement ⟨locked, heq⟩) hfails]
        exact htick
      · rw [hsame.id, hsame.checkId]
        exact href

/-- A resolved incident stays on its way, unless its recovery is lost. -/
theorem Pipeline.Traced.resolved_act (h : s.Traced) (hadds : a.AddsNoAudience)
    (hloses : s.LosesNoRecovery a) {i' : Incident}
    (hi' : i' ∈ (act srv st s a).db.incidents.rows) (hover : i'.resolvedAt ≠ none) :
    (∃ resolved, (act srv st s a).tick = .recovering resolved ∧ ⟨i'.id, i'.checkId⟩ ∈ resolved) ∨
      (act srv st s a).Answered i' ∨ (act srv st s a).NeverTold i'.id := by
  rcases act_incidents hi' with ⟨i, hi, hsame⟩ | hopens
  · rcases hsame.resolution with heq | hresolves
    · have hoverBefore : i.resolvedAt ≠ none := heq ▸ hover
      rcases h.resolved i hi hoverBefore with ⟨resolved, htick, href⟩ | hanswered | hbefore
      · exact h.recovering_act hadds hloses hi hi' hsame hoverBefore htick href
      · exact Or.inr (Or.inl (h.answered_act hadds hloses hi hi' hsame hanswered))
      · exact Or.inr (Or.inr (hsame.id ▸ h.neverTold_act hi hoverBefore hbefore))
    · left
      cases hresolves with
      | @tick locked _ htick _ href =>
        refine ⟨(resolveIncidentsSql s.clock st.detectionBatchSize locked s.db).2, ?_, ?_⟩
        · have hsome : (resolveIncidentsSql s.clock st.detectionBatchSize locked s.db).2 ≠ [] :=
            List.ne_nil_of_mem href
          simp [act, Pipeline.tickStep, htick, hsome]
        · rw [hsame.id, hsame.checkId]
          exact href
  · cases hopens with
    | tick _ _ hopen _ _ => exact absurd hopen hover

/-- **One action keeps the trace of the outages, unless it loses a recovery.** -/
theorem Pipeline.Traced.act (h : s.Traced) (hadds : a.AddsNoAudience)
    (hloses : s.LosesNoRecovery a) : (act srv st s a).Traced where
  checked := by
    intro i' hi'
    obtain ⟨c, hc, hcheck⟩ := h.checked_act hi'
    rcases act_check_persists srv st (a := a) hc with ⟨c', hc', hid, _⟩ | hgone
    · exact ⟨c', hc', hid.trans hcheck⟩
    · exact absurd hcheck.symm (hgone i' hi')
  remembered _ href := h.remembered_act href
  held _ hdr' _ hrow := h.held_act hdr' hrow
  linked _ hd' := h.linked_act hadds hd'
  resolved _ hi' hover := h.resolved_act hadds hloses hi' hover

/-- What is settled is announced. -/
theorem Pipeline.Traced.recoveriesAnnounced (h : s.Traced) : s.RecoveriesAnnounced := by
  rintro ⟨htick, _, _⟩ i hi hover ch hch henabled ⟨d, hd, hincident, hchannel, hkind⟩
  have hmem : ch ∈ s.db.audienceOf i.checkId :=
    (h.linked d (Or.inr (Or.inl hd))).2 i hi hincident.symm ch hch hchannel.symm henabled
  rcases h.resolved i hi hover with ⟨resolved, hrecovering, _⟩ | hanswered | hnever
  · rw [htick] at hrecovering
    cases hrecovering
  · exact hanswered ch hmem
  · exact absurd hkind (hnever.sent d hd hincident)

/-- At the start there is nothing to trace. -/
theorem Pipeline.Fresh.traced (h : s.Fresh) : s.Traced where
  checked := by simp [h.incidents]
  remembered := by simp [h.tick, TickPhase.refs]
  held dr hdr row hrow := by
    have hidle := h.drains dr hdr
    unfold Drain.Idle at hidle
    split at hidle
    · next hphase =>
      rw [hphase] at hrow
      cases hrow
    · cases hidle
  linked d hd := by
    rcases hd with hd | hd | ⟨dr, hdr, row, hrow, _⟩
    · simp [h.deliveries] at hd
    · simp [h.sent] at hd
    · have hidle := h.drains dr hdr
      unfold Drain.Idle at hidle
      split at hidle
      · next hphase =>
        rw [hphase] at hrow
        cases hrow
      · cases hidle
  resolved := by simp [h.incidents]

end Kept

/-- **Every announced outage gets its recovery announced, as long as no recovery is lost
when it is queued.** In a run from a fresh start in which channels are only disabled and
removed, whenever everything is settled every enabled channel that was told of an
outage that is over has a recovery, if the run loses none: whenever recoveries are
queued, each of their incidents was told to some channel or is never told to any, the
statement does not fail and neither does the process before it, and no purge deletes
the recovery of an incident that is stored. -/
theorem recoveries_announced (srv : Server) (st : Settings) (s : Pipeline)
    (actions : List Action) (hfresh : s.Fresh) (hadds : ∀ a ∈ actions, a.AddsNoAudience)
    (hloses : Along (act srv st) Pipeline.LosesNoRecovery s actions) :
    Throughout (act srv st) Pipeline.RecoveriesAnnounced s actions := by
  have htraced : Throughout (act srv st) Pipeline.Traced s actions :=
    throughout_of_step (fun _ _ h hcond => h.act hcond.1 hcond.2) hfresh.traced
      ((along_of_forall hadds).and hloses)
  exact htraced.mono fun _ h => h.recoveriesAnnounced

/-- An outage is announced and a channel told; the check reports, and the channel is told
of the recovery. -/
theorem recoveries_announced_sample :
    Throughout (act sampleServer defaultSettings) Pipeline.RecoveriesAnnounced sampleChannel
      (sampleOutage ++ sampleTick ++ sampleDelivery [0] ++
        [.write (.ingest ⟨.interval, some 3600, none, "UTC"⟩ (successCommand 20))] ++ sampleTick ++
        sampleDelivery [1]) :=
  recoveries_announced sampleServer defaultSettings sampleChannel _
    ⟨rfl, rfl, rfl, rfl, by decide, rfl, rfl⟩ (by decide) (by decide)

/-- The check reports and its incident is resolved while the alert of the outage is being
sent. -/
def recoveryDuringSend : List Action :=
  sampleOutage ++ sampleTick ++
    [.drain 0 (.claim fun _ => false), .drain 0 (.fetch [0]), .drain 0 .next, .drain 0 .next,
      .write (.ingest ⟨.interval, some 3600, none, "UTC"⟩ (successCommand 20))] ++
    sampleTick ++ [.drain 0 (.outcome true), .drain 0 .next]

/-- A channel is told of an outage whose incident was resolved while the alert was on its
way; the recovery was not queued then, and never is. -/
theorem not_recoveriesAnnounced_recoveryDuringSend :
    ¬ ∀ (srv : Server) (st : Settings) (s : Pipeline) (actions : List Action), s.Fresh →
      (∀ a ∈ actions, a.AddsNoAudience) →
      Throughout (act srv st) Pipeline.RecoveriesAnnounced s actions := by
  intro h
  have hrun := h sampleServer defaultSettings sampleChannel recoveryDuringSend
    ⟨rfl, rfl, rfl, rfl, by decide, rfl, rfl⟩ (by decide)
  revert hrun
  decide

end SilenceWatch
