import SilenceWatch.Pipeline.Incidents

/-!
# Recoveries and who was told of the outage

A recovery is queued once, when its incident is resolved, for every enabled channel
of the project if some channel was told of the outage by then.
-/

namespace SilenceWatch

open Relational Transition

/-- This channel was told of this outage. -/
def Database.ToldOn (db : Database) (incidentId channelId : Uuid) : Prop :=
  ∃ d ∈ db.deliveries.rows, d.Addresses incidentId channelId .down ∧ d.status = .sent
  deriving Decidable

/-- The recovery of this incident is queued or sent to this channel. -/
def Database.Recovered (db : Database) (incidentId channelId : Uuid) : Prop :=
  ∃ d ∈ db.deliveries.rows, d.Addresses incidentId channelId .up
  deriving Decidable

/-- A recovery is created only for a channel that was told of its outage. -/
def RecoversOnlyTheTold (srv : Server) (st : Settings) (s : Pipeline) (a : Action) : Prop :=
  ∀ d ∈ (act srv st s a).db.deliveries.rows, d.kind = .up →
    (∀ old ∈ s.db.deliveries.rows, old.id ≠ d.id) → s.db.ToldOn d.incidentId d.channelId
  deriving Decidable

/-- The incidents whose recoveries the action queues. -/
def Pipeline.recovering (s : Pipeline) : Action → List IncidentRef
  | .tick _ =>
    match s.tick with
    | .recovering resolved => resolved
    | _ => []
  | _ => []

/-- When recoveries are queued for an incident that some channel was told of, every
enabled channel of its project that has no recovery yet was told of it. -/
def Pipeline.ToldTogether (s : Pipeline) (a : Action) : Prop :=
  s.db.Insertable (s.recovering a) .up →
    ∀ ref ∈ s.recovering a, s.db.Told ref.incidentId → ∀ ch ∈ s.db.audienceOf ref.checkId,
      s.db.ToldOn ref.incidentId ch.id ∨ s.db.Recovered ref.incidentId ch.id
  deriving Decidable

/-- Recoveries are queued by a statement of the tick. -/
theorem enqueues_of_mem_recovering {s : Pipeline} {a : Action} {ref : IncidentRef}
    (href : ref ∈ s.recovering a) : s.Enqueues a (s.recovering a) .up := by
  cases a with
  | tick locked =>
    cases htick : s.tick with
    | recovering resolved =>
      simp only [Pipeline.recovering, htick]
      exact Pipeline.Enqueues.recover htick
    | _ => simp [Pipeline.recovering, htick] at href
  | _ => cases href

/-- The statement that queues recoveries is one of the tick. -/
theorem Pipeline.Enqueues.recovering_eq {s : Pipeline} {a : Action} {resolved : List IncidentRef}
    (h : s.Enqueues a resolved .up) : s.recovering a = resolved := by
  cases h with
  | recover htick => simp [Pipeline.recovering, htick]

/-- The pairs a recovery is queued for. -/
theorem mem_addressed_up {db : Database} {incidents : List IncidentRef} {pair : Uuid × Uuid} :
    pair ∈ db.addressed incidents .up ↔
      ∃ ref ∈ incidents, db.Told ref.incidentId ∧
        ∃ ch ∈ db.audienceOf ref.checkId, (ref.incidentId, ch.id) = pair := by
  simp [Database.addressed]
  tauto

/-- One action creates recoveries only for those who were told, exactly if all it
addresses were told together. -/
theorem recoversOnlyTheTold_iff {srv : Server} {st : Settings} {s : Pipeline} {a : Action} :
    RecoversOnlyTheTold srv st s a ↔ s.ToldTogether a := by
  constructor
  · intro h hinsertable ref href htold ch hch
    have hpair : (ref.incidentId, ch.id) ∈ s.db.addressed (s.recovering a) .up :=
      mem_addressed_up.mpr ⟨ref, href, htold, ch, hch, rfl⟩
    have henqueues := enqueues_of_mem_recovering href
    obtain ⟨d, hd, hincident, hchannel, hkind⟩ :=
      henqueues.exists_delivery srv st hinsertable hpair
    rcases act_deliveries hd with ⟨old, hold, hsame⟩ | ⟨_, hcreates⟩
    · right
      exact ⟨old, hold, hsame.incidentId.symm.trans hincident,
        hsame.channelId.symm.trans hchannel, hsame.kind.symm.trans hkind⟩
    · left
      have htoldOn := h d hd hkind fun old hold hid => by
        have hfresh := s.db.deliveries.fresh old hold
        have hnew := hcreates.fresh
        rw [← hid] at hnew
        omega
      rw [hincident, hchannel] at htoldOn
      exact htoldOn
  · intro h d hd hkind hnew
    rcases act_deliveries hd with ⟨old, hold, hsame⟩ | ⟨incidents, hcreates⟩
    · exact absurd hsame.id.symm (hnew old hold)
    · have henqueues := hcreates.enqueues
      have hinsertable := hcreates.insertable
      have hpair := hcreates.row.pair
      have hfree := hcreates.free
      rw [hkind] at henqueues hinsertable hpair hfree
      obtain rfl := henqueues.recovering_eq
      obtain ⟨ref, href, htold, ch, hch, heq⟩ := mem_addressed_up.mp hpair
      obtain ⟨hincident, hchannel⟩ := Prod.mk.inj heq
      rw [← hincident, ← hchannel] at hfree ⊢
      rcases h hinsertable ref href htold ch hch with htoldOn | ⟨old, hold, haddresses⟩
      · exact htoldOn
      · exact absurd haddresses (hfree old hold)

/-- **Recoveries are announced only to those who were told, exactly as long as the
channels of a project share the fate of its outages.** In a run from any state every
recovery is created for a channel that was told of the outage, if and only if, whenever
recoveries are queued for an incident that some channel was told of, every enabled
channel of its project without a recovery was told of it. -/
theorem recoversOnlyTheTold_run_iff (srv : Server) (st : Settings) (s : Pipeline)
    (actions : List Action) :
    Along (act srv st) (RecoversOnlyTheTold srv st) s actions ↔
      Along (act srv st) Pipeline.ToldTogether s actions :=
  ⟨Along.mono fun _ _ => recoversOnlyTheTold_iff.mp,
    Along.mono fun _ _ => recoversOnlyTheTold_iff.mpr⟩

/-- A channel is created while an outage that the other channel was told of lasts. -/
def lateChannel : List Action :=
  [.addChannel ⟨1, 1, true⟩] ++ sampleOutage ++ sampleTick ++ sampleDelivery [0] ++
    [.addChannel ⟨2, 1, true⟩,
      .write (.ingest ⟨.interval, some 3600, none, "UTC"⟩ (successCommand 20))] ++
    sampleTick

/-- A channel created during an outage is told of a recovery from an outage it was
never told of. -/
theorem not_recoversOnlyTheTold_lateChannel :
    ¬ ∀ (srv : Server) (st : Settings) (s : Pipeline) (actions : List Action), s.Fresh →
      Along (act srv st) (RecoversOnlyTheTold srv st) s actions := by
  intro h
  have hrun := h sampleServer defaultSettings samplePipeline lateChannel
    ⟨rfl, rfl, rfl, rfl, by decide, rfl, rfl⟩
  revert hrun
  decide

end SilenceWatch
