import SilenceWatch.Pipeline.Incidents

/-!
# Every outage is announced

Opening incidents and queueing their alerts are two transactions. Between them the
only trace of what is to be announced is the memory of the process.
-/

namespace SilenceWatch

open Relational Transition

variable {srv : Server} {st : Settings} {s : Pipeline} {a : Action}

/-- The action ends a tick without failure. -/
def Pipeline.Completes (st : Settings) (s : Pipeline) : Action → Prop
  | .tick locked =>
    match s.tick with
    | .resolving => (resolveIncidentsSql s.clock st.detectionBatchSize locked s.db).2 = []
    | .recovering resolved => s.db.Insertable resolved .up
    | _ => False
  | _ => False

instance (a : Action) : Decidable (s.Completes st a) := by
  unfold Pipeline.Completes
  split
  · split <;> infer_instance
  · infer_instance

/-- Every open incident has an alert for every channel that was enabled when it was
opened and has been since. -/
def Pipeline.Announced (s : Pipeline) : Prop :=
  ∀ i ∈ s.db.incidents.rows, i.resolvedAt = none → ∀ pair ∈ s.audience, pair.1 = i.id →
    ∃ d ∈ s.db.deliveries.rows, d.Addresses i.id pair.2 .down
  deriving Decidable

/-- A tick that completes leaves every open incident announced. -/
def AnnouncedAfterTick (srv : Server) (st : Settings) (s : Pipeline) (a : Action) : Prop :=
  s.Completes st a → (act srv st s a).Announced
  deriving Decidable

/-- No alert is lost by the action: while incidents with an enabled channel are open
but not announced, the process does not fail and neither does its statement; and no
purge deletes the alert of an incident that is still open. -/
def Pipeline.LosesNoAlert (s : Pipeline) : Action → Prop
  | .tick _ =>
    match s.tick with
    | .announcing opened => s.db.Insertable opened .down
    | _ => True
  | .tickFails =>
    match s.tick with
    | .announcing opened => ∀ ref ∈ opened, s.db.audienceOf ref.checkId = []
    | _ => True
  | .purgeDeliveries =>
    ∀ d ∈ s.db.deliveries.rows, d.Finished s.clock → d.kind = .down →
      ∀ i ∈ s.db.incidents.rows, i.id = d.incidentId → i.resolvedAt ≠ none
  | _ => True

instance (a : Action) : Decidable (s.LosesNoAlert a) := by
  unfold Pipeline.LosesNoAlert
  split
  · split <;> infer_instance
  · split <;> infer_instance
  · infer_instance
  · infer_instance

/-- The alert is about to be queued. -/
def Pipeline.Announcing (s : Pipeline) (i : Incident) : Prop :=
  ∃ opened, s.tick = .announcing opened ∧ ⟨i.id, i.checkId⟩ ∈ opened

/-- What ties the open incidents to the queue and to the memory of the process. -/
structure Pipeline.Accounted (s : Pipeline) : Prop where
  /-- An alert that somebody has to get is queued or about to be. -/
  queued : ∀ i ∈ s.db.incidents.rows, i.resolvedAt = none → ∀ pair ∈ s.audience, pair.1 = i.id →
    (∃ d ∈ s.db.deliveries.rows, d.Addresses i.id pair.2 .down) ∨ s.Announcing i
  /-- Who has to get an alert is an enabled channel of the project of the check. -/
  channel : ∀ i ∈ s.db.incidents.rows, ∀ pair ∈ s.audience, pair.1 = i.id →
    ∃ c ∈ s.db.checks.rows, c.id = i.checkId ∧
      ∃ ch ∈ s.db.channels.rows, ch.id = pair.2 ∧ ch.projectId = c.projectId ∧ ch.enabled = true
  /-- Only incidents that were opened have an audience. -/
  known : ∀ pair ∈ s.audience, pair.1 < s.db.incidents.next

section Frame

/-- A channel that stays in an audience stays enabled. -/
theorem act_audience_channel {pair : Uuid × Uuid} (hafter : pair ∈ (act srv st s a).audience)
    {ch : Channel} (hch : ch ∈ s.db.channels.rows) (hid : ch.id = pair.2)
    (henabled : ch.enabled = true) :
    ∃ ch' ∈ (act srv st s a).db.channels.rows, ch'.id = ch.id ∧ ch'.projectId = ch.projectId ∧
      ch'.enabled = true := by
  have hstep := act_cases srv st s a
  generalize act srv st s a = s' at hafter hstep
  have hkept (h : ch ∈ s'.db.channels.rows) :
      ∃ ch' ∈ s'.db.channels.rows, ch'.id = ch.id ∧ ch'.projectId = ch.projectId ∧
        ch'.enabled = true :=
    ⟨ch, h, rfl, rfl, henabled⟩
  cases hstep with
  | @write w =>
    refine hkept ?_
    simpa only [(perform_frame srv s.db ⟨s.clock, w⟩).1] using hch
  | addChannel hinsert =>
    refine hkept ?_
    dsimp only
    rw [Table.insert?_eq_some hinsert]
    exact List.mem_append_left _ hch
  | removeChannel =>
    refine hkept (Table.mem_delete.mpr ⟨hch, ?_⟩)
    rw [hid]
    exact of_decide_eq_true (List.mem_filter.mp hafter).2
  | setChannelEnabled =>
    refine ⟨_, List.mem_map_of_mem hch, ?_⟩
    unfold updateRow
    split
    · next hsame =>
      refine ⟨rfl, rfl, ?_⟩
      rcases of_decide_eq_true (List.mem_filter.mp hafter).2 with hon | hother
      · exact hon
      · exact absurd (hid.symm.trans hsame) hother
    · exact ⟨rfl, rfl, henabled⟩
  | drain _ hstep =>
    have hdb := hstep.redelivers.1
    dsimp only
    rw [hdb]
    exact ⟨ch, hch, rfl, rfl, henabled⟩
  | _ => exact hkept hch

/-- Audiences grow only when incidents are opened, by their enabled channels. -/
theorem act_audience {pair : Uuid × Uuid} (hpair : pair ∈ (act srv st s a).audience) :
    pair ∈ s.audience ∨ ∃ locked, a = .tick locked ∧ s.tick = .opening ∧
      ∃ ref ∈ (openIncidentsSql s.clock st.detectionBatchSize locked s.db).2,
        pair.1 = ref.incidentId ∧ ∃ ch ∈ s.db.audienceOf ref.checkId, pair.2 = ch.id := by
  have hstep := act_cases srv st s a
  generalize act srv st s a = s' at hpair hstep
  cases hstep with
  | removeChannel => exact Or.inl (List.mem_filter.mp hpair).1
  | setChannelEnabled => exact Or.inl (List.mem_filter.mp hpair).1
  | @openIncidents locked htick =>
    rcases List.mem_append.mp hpair with hold | hnew
    · exact Or.inl hold
    · obtain ⟨ref, href, hmem⟩ := List.mem_flatMap.mp hnew
      obtain ⟨ch, hch, rfl⟩ := List.mem_map.mp hmem
      exact Or.inr ⟨locked, rfl, htick, ref, href, rfl, ch, hch, rfl⟩
  | _ => exact Or.inl hpair

end Frame

section Step

/-- What is queued or about to be queued stays so, unless the action loses it. -/
theorem Pipeline.Accounted.queued_act (h : s.Accounted) (hloses : s.LosesNoAlert a)
    {i i' : Incident} (hi : i ∈ s.db.incidents.rows)
    (hi' : i' ∈ (act srv st s a).db.incidents.rows) (hsame : s.SameOutage st a i i')
    (hopen : i'.resolvedAt = none) {pair : Uuid × Uuid} (hbefore : pair ∈ s.audience)
    (hafter : pair ∈ (act srv st s a).audience) (hid : pair.1 = i.id) :
    (∃ d ∈ (act srv st s a).db.deliveries.rows, d.Addresses i'.id pair.2 .down) ∨
      (act srv st s a).Announcing i' := by
  have hopenBefore : i.resolvedAt = none := hsame.resolvedAt_eq_none hopen
  obtain ⟨c, hc, hcheck, ch, hch, hchannel, hproject, henabled⟩ := h.channel i hi pair hbefore hid
  rcases h.queued i hi hopenBefore pair hbefore hid with ⟨d, hd, haddresses⟩ | ⟨opened, htick, href⟩
  · left
    rcases act_persists srv st hd with ⟨d', hd', hversion⟩ | hremoved | ⟨hpurge, hfinished⟩ | hgone
    · refine ⟨d', hd', hversion.incidentId.trans (haddresses.1.trans hsame.id.symm), ?_, ?_⟩
      · exact hversion.channelId.trans haddresses.2.1
      · exact hversion.kind.trans haddresses.2.2
    · subst hremoved
      have hne := of_decide_eq_true (List.mem_filter.mp hafter).2
      exact absurd haddresses.2.1.symm hne
    · subst hpurge
      exact absurd hopenBefore (hloses d hd hfinished haddresses.2.2 i hi haddresses.1.symm)
    · exact absurd (hsame.id.trans haddresses.1.symm) (hgone i' hi')
  · have hmem : ch ∈ s.db.audienceOf i.checkId :=
      mem_audienceOf.mpr ⟨c, hc, hcheck, hch, hproject, henabled⟩
    by_cases hstatement : ∃ locked, a = .tick locked
    · obtain ⟨locked, rfl⟩ := hstatement
      left
      simp only [Pipeline.LosesNoAlert, htick] at hloses
      have hpair : (i.id, ch.id) ∈ s.db.addressed opened .down :=
        mem_addressed.mpr ⟨⟨i.id, i.checkId⟩, href, Or.inl rfl, rfl, c, hc, hcheck, ch, hch,
          hproject, henabled, rfl⟩
      have henqueues : s.Enqueues (.tick locked) opened .down := Pipeline.Enqueues.announce htick
      obtain ⟨d, hd, haddresses⟩ := henqueues.exists_delivery srv st hloses hpair
      rw [hsame.id, ← hchannel]
      exact ⟨d, hd, haddresses⟩
    · by_cases hfails : a = .tickFails
      · subst hfails
        simp only [Pipeline.LosesNoAlert, htick] at hloses
        have hempty : s.db.audienceOf i.checkId = [] := hloses _ href
        rw [hempty] at hmem
        cases hmem
      · right
        refine ⟨opened, ?_, ?_⟩
        · rw [act_tick srv st (fun locked heq => hstatement ⟨locked, heq⟩) hfails]
          exact htick
        · rw [hsame.id, hsame.checkId]
          exact href

/-- The audience of an incident is settled in the statement that opens it. -/
theorem act_audience_known {i : Incident} (hi : i ∈ s.db.incidents.rows) {pair : Uuid × Uuid}
    (hid : pair.1 = i.id) (hafter : pair ∈ (act srv st s a).audience) : pair ∈ s.audience := by
  rcases act_audience hafter with hbefore | ⟨locked, _, _, ref, href, hpair, _⟩
  · exact hbefore
  · have hnew := (exists_of_mem_opened href).1
    have hfresh := s.db.incidents.fresh i hi
    rw [← hid, hpair] at hfresh
    omega

theorem Pipeline.Accounted.channel_act (h : s.Accounted) {i' : Incident}
    (hi' : i' ∈ (act srv st s a).db.incidents.rows) {pair : Uuid × Uuid}
    (hafter : pair ∈ (act srv st s a).audience) (hpair : pair.1 = i'.id) :
    ∃ c ∈ (act srv st s a).db.checks.rows, c.id = i'.checkId ∧
      ∃ ch ∈ (act srv st s a).db.channels.rows, ch.id = pair.2 ∧ ch.projectId = c.projectId ∧
        ch.enabled = true := by
  rcases act_incidents hi' with ⟨i, hi, hsame⟩ | hopens
  · have hid : pair.1 = i.id := hpair.trans hsame.id
    obtain ⟨c, hc, hcheck, ch, hch, hchannel, hproject, henabled⟩ :=
      h.channel i hi pair (act_audience_known hi hid hafter) hid
    obtain ⟨ch', hch', hchid, hchproject, hchenabled⟩ :=
      act_audience_channel hafter hch hchannel henabled
    rcases act_check_persists srv st (a := a) hc with ⟨c', hc', hcid, hcproject⟩ | hgone
    · refine ⟨c', hc', hcid.trans (hcheck.trans hsame.checkId.symm), ch', hch', ?_, ?_,
        hchenabled⟩
      · exact hchid.trans hchannel
      · exact hchproject.trans (hproject.trans hcproject.symm)
    · exact absurd (hsame.checkId.trans hcheck.symm) (hgone i' hi')
  · cases hopens with
    | @tick locked _ htick hnew _ _ href =>
      rcases act_audience hafter with hbefore |
        ⟨locked', heq, _, ref, href', hpair', ch, hch, hchannel⟩
      · have hknown : i'.id < s.db.incidents.next := hpair ▸ h.known pair hbefore
        exact absurd hknown (Nat.not_lt.mpr hnew)
      · cases heq
        obtain ⟨_, j, hj, hjid, hjcheck⟩ := exists_of_mem_opened href'
        rw [act_opening_db srv st htick] at hi' ⊢
        have hsame : j = i' :=
          Database.eq_of_incident_id _ hj hi' (hjid.trans (hpair'.symm.trans hpair))
        obtain ⟨c, hc, hcheck, hmem, hproject, henabled⟩ := mem_audienceOf.mp hch
        refine ⟨c, hc, ?_, ch, hmem, hchannel.symm, hproject, henabled⟩
        rw [hcheck, ← hjcheck, hsame]

theorem Pipeline.Accounted.known_act (h : s.Accounted) {pair : Uuid × Uuid}
    (hafter : pair ∈ (act srv st s a).audience) :
    pair.1 < (act srv st s a).db.incidents.next := by
  rcases act_audience hafter with hbefore | ⟨locked, rfl, htick, ref, href, hpair, _⟩
  · exact lt_of_lt_of_le (h.known pair hbefore) act_incidents_next
  · obtain ⟨_, j, hj, hjid, _⟩ := exists_of_mem_opened href
    rw [act_opening_db srv st htick, hpair, ← hjid]
    exact (openIncidentsSql s.clock st.detectionBatchSize locked s.db).1.incidents.fresh j hj

/-- **One action keeps the account of the alerts, unless it loses one.** -/
theorem Pipeline.Accounted.act (h : s.Accounted) (hloses : s.LosesNoAlert a) :
    (act srv st s a).Accounted := by
  refine ⟨fun i' hi' hopen pair hafter hpair => ?_,
    fun i' hi' pair hafter hpair => h.channel_act hi' hafter hpair,
    fun pair hafter => h.known_act hafter⟩
  rcases act_incidents hi' with ⟨i, hi, hsame⟩ | hopens
  · have hid : pair.1 = i.id := hpair.trans hsame.id
    have hbefore := act_audience_known hi hid hafter
    exact h.queued_act hloses hi hi' hsame hopen hbefore hafter hid
  · right
    cases hopens with
    | @tick locked _ htick _ _ _ href =>
      refine ⟨_, ?_, href⟩
      have hsome : (openIncidentsSql s.clock st.detectionBatchSize locked s.db).2 ≠ [] :=
        List.ne_nil_of_mem href
      simp [SilenceWatch.act, Pipeline.tickStep, htick, hsome]

/-- When a tick completes, nothing is left to be announced. -/
theorem Pipeline.Accounted.announced (h : (SilenceWatch.act srv st s a).Accounted)
    (hcompletes : s.Completes st a) : (SilenceWatch.act srv st s a).Announced := by
  intro i hi hopen pair hpair hid
  rcases h.queued i hi hopen pair hpair hid with hqueued | ⟨opened, htick, _⟩
  · exact hqueued
  · cases a with
    | tick locked =>
      simp only [Pipeline.Completes] at hcompletes
      split at hcompletes
      · next hphase => simp [SilenceWatch.act, Pipeline.tickStep, hphase, hcompletes] at htick
      · next resolved hphase =>
        simp [SilenceWatch.act, Pipeline.tickStep, hphase, enqueueSql, hcompletes] at htick
      · exact hcompletes.elim
    | _ => exact hcompletes.elim

end Step

/-- **No incident is left unannounced, as long as no alert is lost between its incident
and the queue.** In a run from a fresh start in which the process does not fail while
incidents with an enabled channel are open but not announced, and in which no purge
deletes the alert of an open incident, every tick that completes leaves every open
incident with an alert for every channel that was enabled when it was opened and has
been since. -/
theorem announced_after_tick (srv : Server) (st : Settings) (s : Pipeline)
    (actions : List Action) (hfresh : s.Fresh)
    (hloses : Along (act srv st) Pipeline.LosesNoAlert s actions) :
    Along (act srv st) (AnnouncedAfterTick srv st) s actions := by
  have haccounted : s.Accounted := by
    constructor
    · simp [hfresh.incidents]
    · simp [hfresh.incidents]
    · simp [hfresh.audience]
  exact along_of_step (fun _ _ h hloses => h.act hloses)
    (fun _ _ h hloses hcompletes => (h.act hloses).announced hcompletes) haccounted hloses

/-- A tick opens an incident and announces it. -/
theorem announced_after_tick_sample :
    Along (act sampleServer defaultSettings) (AnnouncedAfterTick sampleServer defaultSettings)
      samplePipeline ([.addChannel ⟨1, 1, true⟩] ++ sampleOutage ++ sampleTick) :=
  announced_after_tick sampleServer defaultSettings samplePipeline _
    ⟨rfl, rfl, rfl, rfl, by decide, rfl, rfl⟩ (by decide)

/-- The process fails after it opened an incident and before it queued its alert, and
starts again. -/
def crashBeforeAnnouncing : List Action :=
  [.addChannel ⟨1, 1, true⟩] ++ sampleOutage ++ List.replicate 3 (.tick fun _ => false) ++
    [.tickFails] ++ List.replicate 4 (.tick fun _ => false)

/-- After a failure between the two transactions the incident is open, so that no later
tick opens it again, and nobody is told of the outage. -/
theorem not_announced_crashBeforeAnnouncing :
    ¬ ∀ (srv : Server) (st : Settings) (s : Pipeline) (actions : List Action), s.Fresh →
      Along (act srv st) (AnnouncedAfterTick srv st) s actions := by
  intro h
  have hrun := h sampleServer defaultSettings samplePipeline crashBeforeAnnouncing
    ⟨rfl, rfl, rfl, rfl, by decide, rfl, rfl⟩
  revert hrun
  decide

end SilenceWatch
