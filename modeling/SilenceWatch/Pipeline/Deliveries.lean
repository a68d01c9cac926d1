import SilenceWatch.Pipeline.Steps

/-!
# What a step does to the deliveries

A step enqueues deliveries, or rewrites and deletes those there are; it never gives a
delivery another incident, channel or kind. `act_deliveries` says so once for every
action.
-/

namespace SilenceWatch

open Relational Transition

section Enqueue

/-- The alert a delivery carries, and to whom. -/
def Delivery.Addresses (d : Delivery) (incidentId channelId : Uuid) (kind : AlertKind) : Prop :=
  d.incidentId = incidentId ∧ d.channelId = channelId ∧ d.kind = kind
  deriving Decidable

/-- There is one delivery of a kind for an incident and a channel. -/
theorem eq_of_addresses {t : SerialTable Delivery Delivery.Distinct Delivery.id}
    {d d' : Delivery} (hd : d ∈ t.rows) (hd' : d' ∈ t.rows)
    (h : d'.Addresses d.incidentId d.channelId d.kind) : d' = d := by
  refine t.eq_of_key_eq (fun d => (d.incidentId, d.channelId, d.kind)) ?_ hd' hd ?_
  · intro a b hdistinct hkey
    simp only [Prod.mk.injEq] at hkey
    exact hdistinct.2 hkey
  · simpa only [Prod.mk.injEq, Delivery.Addresses] using h

/-- A delivery as an enqueue inserts it. -/
structure Delivery.Enqueued (d : Delivery) (now : ℤ) (kind : AlertKind)
    (addressed : List (Uuid × Uuid)) : Prop where
  kind : d.kind = kind
  pair : (d.incidentId, d.channelId) ∈ addressed
  status : d.status = .pending
  createdAt : d.createdAt = now

/-- An enqueue only adds rows. -/
theorem subset_insertDeliveries {now : ℤ} {kind : AlertKind}
    {t : SerialTable Delivery Delivery.Distinct Delivery.id} {pairs : List (Uuid × Uuid)}
    {d : Delivery} (hd : d ∈ t.rows) : d ∈ (insertDeliveries now kind t pairs).rows := by
  induction pairs generalizing t with
  | nil => exact hd
  | cons pair rest ih => exact ih (SerialTable.mem_insertOrSkip.mpr (Or.inl hd))

/-- The rows an enqueue adds are new and pending. -/
theorem mem_insertDeliveries {now : ℤ} {kind : AlertKind}
    {t : SerialTable Delivery Delivery.Distinct Delivery.id} {pairs : List (Uuid × Uuid)}
    {d : Delivery} (hd : d ∈ (insertDeliveries now kind t pairs).rows) :
    d ∈ t.rows ∨ (t.next ≤ d.id ∧ d.Enqueued now kind pairs) := by
  induction pairs generalizing t with
  | nil => exact Or.inl hd
  | cons pair rest ih =>
    rcases ih hd with hmem | ⟨hid, henqueued⟩
    · rcases SerialTable.mem_insertOrSkip.mp hmem with hold | ⟨rfl, _⟩
      · exact Or.inl hold
      · exact Or.inr ⟨le_rfl, rfl, List.mem_cons_self, rfl, rfl⟩
    · refine Or.inr ⟨le_trans (t.next_le_insertOrSkip _ _) hid, henqueued.kind, ?_,
        henqueued.status, henqueued.createdAt⟩
      exact List.mem_cons_of_mem _ henqueued.pair

/-- After an enqueue every pair has its delivery, old or new. -/
theorem exists_insertDeliveries {now : ℤ} {kind : AlertKind}
    {t : SerialTable Delivery Delivery.Distinct Delivery.id} {pairs : List (Uuid × Uuid)}
    {pair : Uuid × Uuid} (hpair : pair ∈ pairs) :
    ∃ d ∈ (insertDeliveries now kind t pairs).rows, d.Addresses pair.1 pair.2 kind := by
  induction pairs generalizing t with
  | nil => cases hpair
  | cons first rest ih =>
    rcases List.mem_cons.mp hpair with rfl | hrest
    · have hfirst : ∃ d ∈ (t.insertOrSkip (Delivery.pending now kind pair.1 pair.2)
          fun _ => rfl).rows, d.Addresses pair.1 pair.2 kind := by
        by_cases hfree : ∀ d ∈ t.rows, ¬ d.Addresses pair.1 pair.2 kind
        · refine ⟨Delivery.pending now kind pair.1 pair.2 t.next, ?_, rfl, rfl, rfl⟩
          refine SerialTable.mem_insertOrSkip.mpr (Or.inr ⟨rfl, fun d hd => ?_⟩)
          exact ⟨t.key_ne_next hd, hfree d hd⟩
        · push Not at hfree
          obtain ⟨d, hd, haddresses⟩ := hfree
          exact ⟨d, SerialTable.mem_insertOrSkip.mpr (Or.inl hd), haddresses⟩
      obtain ⟨d, hd, haddresses⟩ := hfirst
      unfold insertDeliveries
      exact ⟨d, subset_insertDeliveries hd, haddresses⟩
    · exact ih hrest

/-- An enqueue hands out ids in order. -/
theorem next_le_insertDeliveries {now : ℤ} {kind : AlertKind}
    {t : SerialTable Delivery Delivery.Distinct Delivery.id} {pairs : List (Uuid × Uuid)} :
    t.next ≤ (insertDeliveries now kind t pairs).next := by
  induction pairs generalizing t with
  | nil => exact le_rfl
  | cons pair rest ih => exact le_trans (t.next_le_insertOrSkip _ _) ih

/-- The pair of a row that an enqueue added was free. -/
theorem not_addresses_of_enqueued {now : ℤ} {kind : AlertKind}
    {t : SerialTable Delivery Delivery.Distinct Delivery.id} {pairs : List (Uuid × Uuid)}
    {d old : Delivery} (hd : d ∈ (insertDeliveries now kind t pairs).rows)
    (hid : t.next ≤ d.id) (hold : old ∈ t.rows) :
    ¬ old.Addresses d.incidentId d.channelId d.kind := by
  intro haddresses
  have hsame : old = d := eq_of_addresses hd (subset_insertDeliveries hold) haddresses
  have hfresh := t.fresh old hold
  rw [hsame] at hfresh
  omega

/-- The pairs an enqueue addresses. -/
theorem mem_addressed {db : Database} {incidents : List IncidentRef} {kind : AlertKind}
    {pair : Uuid × Uuid} :
    pair ∈ db.addressed incidents kind ↔
      ∃ ref ∈ incidents, (kind = .down ∨ db.Told ref.incidentId) ∧ pair.1 = ref.incidentId ∧
        ∃ c ∈ db.checks.rows, c.id = ref.checkId ∧
          ∃ ch ∈ db.channels.rows, ch.projectId = c.projectId ∧ ch.enabled = true ∧
            pair.2 = ch.id := by
  unfold Database.addressed Database.audienceOf
  simp only [List.mem_flatMap, List.mem_filter, List.mem_map, decide_eq_true_eq]
  constructor
  · rintro ⟨ref, ⟨href, htold⟩, ch, ⟨c, ⟨hc, hid⟩, hch, hproject, henabled⟩, rfl⟩
    exact ⟨ref, href, htold, rfl, c, hc, hid, ch, hch, hproject, henabled, rfl⟩
  · rintro ⟨ref, href, htold, hincident, c, hc, hid, ch, hch, hproject, henabled, hchannel⟩
    exact ⟨ref, ⟨href, htold⟩, ch, ⟨c, ⟨hc, hid⟩, hch, hproject, henabled⟩,
      Prod.ext hincident.symm hchannel.symm⟩

end Enqueue

section Drain

variable {st : Settings} {now : ℤ} {db : Database}

/-- Two versions of one delivery. -/
structure Delivery.SameAlert (d d' : Delivery) : Prop where
  id : d'.id = d.id
  incidentId : d'.incidentId = d.incidentId
  channelId : d'.channelId = d.channelId
  kind : d'.kind = d.kind
  createdAt : d'.createdAt = d.createdAt

/-- A delivery is a version of itself. -/
theorem Delivery.SameAlert.refl (d : Delivery) : d.SameAlert d := ⟨rfl, rfl, rfl, rfl, rfl⟩

/-- The database `db'` has the rows of `db`, with other versions of the deliveries. -/
def Database.Redelivers (db db' : Database) : Prop :=
  db' = { db with deliveries := db'.deliveries } ∧ db'.deliveries.next = db.deliveries.next ∧
    ∃ f : Delivery → Delivery, (∀ d : Delivery, d.SameAlert (f d)) ∧
      db'.deliveries.rows = db.deliveries.rows.map f

/-- A statement that rewrites some deliveries redelivers. -/
theorem Database.Redelivers.of_update {p : Delivery → Prop} [DecidablePred p]
    {f : Delivery → Delivery} {hf : KeepsDistinct Delivery.Distinct f}
    {hid : ∀ d, (f d).id = d.id} (hsame : ∀ d : Delivery, d.SameAlert (f d)) :
    db.Redelivers { db with deliveries := db.deliveries.update p f hf hid } := by
  refine ⟨rfl, rfl, updateRow p f, fun d => ?_, rfl⟩
  unfold updateRow
  split
  · exact hsame d
  · exact Delivery.SameAlert.refl d

/-- A statement that does nothing redelivers. -/
theorem Database.Redelivers.refl (db : Database) : db.Redelivers db :=
  ⟨rfl, rfl, id, Delivery.SameAlert.refl, (List.map_id _).symm⟩

/-- A step of a drain rewrites deliveries in place and touches nothing else. -/
theorem DrainStep.redelivers {dr : Drain} {action : DrainAction} {result : DrainResult}
    (h : DrainStep st now db dr action result) : db.Redelivers result.db := by
  cases h with
  | claim => exact Database.Redelivers.of_update fun _ => ⟨rfl, rfl, rfl, rfl, rfl⟩
  | finish =>
    dsimp only
    split
    · exact Database.Redelivers.refl db
    · exact Database.Redelivers.of_update fun _ => ⟨rfl, rfl, rfl, rfl, rfl⟩
  | refuse _ => exact Database.Redelivers.of_update fun _ => ⟨rfl, rfl, rfl, rfl, rfl⟩
  | retry => exact Database.Redelivers.of_update fun _ => ⟨rfl, rfl, rfl, rfl, rfl⟩
  | _ => exact Database.Redelivers.refl db

end Drain

section Act

variable {srv : Server} {st : Settings} {s : Pipeline} {a : Action}

/-- The action is the statement of a tick that queues alerts of a kind. -/
inductive Pipeline.Enqueues (s : Pipeline) : Action → List IncidentRef → AlertKind → Prop
  | announce {locked : Uuid → Bool} {opened : List IncidentRef} : s.tick = .announcing opened →
      s.Enqueues (.tick locked) opened .down
  | recover {locked : Uuid → Bool} {resolved : List IncidentRef} :
      s.tick = .recovering resolved → s.Enqueues (.tick locked) resolved .up

/-- The action adds this delivery to the queue. -/
structure Pipeline.Creates (s : Pipeline) (a : Action) (incidents : List IncidentRef)
    (d : Delivery) : Prop where
  enqueues : s.Enqueues a incidents d.kind
  insertable : s.db.Insertable incidents d.kind
  fresh : s.db.deliveries.next ≤ d.id
  free : ∀ old ∈ s.db.deliveries.rows, ¬ old.Addresses d.incidentId d.channelId d.kind
  row : d.Enqueued s.clock d.kind (s.db.addressed incidents d.kind)

/-- Every pair an enqueue addresses has its delivery afterwards, unless the statement fails. -/
theorem Pipeline.Enqueues.exists_delivery (srv : Server) (st : Settings)
    {incidents : List IncidentRef} {kind : AlertKind} {pair : Uuid × Uuid}
    (h : s.Enqueues a incidents kind)
    (hinsertable : s.db.Insertable incidents kind) (hpair : pair ∈ s.db.addressed incidents kind) :
    ∃ d ∈ (act srv st s a).db.deliveries.rows, d.Addresses pair.1 pair.2 kind := by
  have hok : enqueueSql s.clock incidents kind s.db = some { s.db with
      deliveries := insertDeliveries s.clock kind s.db.deliveries
        (s.db.addressed incidents kind) } := if_pos hinsertable
  cases h with
  | announce htick =>
    simp only [act, Pipeline.tickStep, htick, hok]
    exact exists_insertDeliveries hpair
  | recover htick =>
    simp only [act, Pipeline.tickStep, htick, hok]
    exact exists_insertDeliveries hpair

/-- A row that an enqueue adds is created by it. -/
theorem Pipeline.Enqueues.creates {incidents : List IncidentRef} {kind : AlertKind}
    (h : s.Enqueues a incidents kind) (hinsertable : s.db.Insertable incidents kind) {d : Delivery}
    (hd : d ∈ (insertDeliveries s.clock kind s.db.deliveries
      (s.db.addressed incidents kind)).rows) :
    d ∈ s.db.deliveries.rows ∨ ∃ incidents, s.Creates a incidents d := by
  rcases mem_insertDeliveries hd with hold | ⟨hid, hrow⟩
  · exact Or.inl hold
  · obtain rfl : d.kind = kind := hrow.kind
    exact Or.inr ⟨incidents, h, hinsertable, hid,
      fun old hold => not_addresses_of_enqueued hd hid hold, hrow⟩

/-- A delivery after an action that is no step of a drain was there before, or was
created by it. -/
theorem act_deliveries_of_ne_drain (hdrain : ∀ instance' action, a ≠ .drain instance' action)
    {d : Delivery} (hd : d ∈ (act srv st s a).db.deliveries.rows) :
    d ∈ s.db.deliveries.rows ∨ ∃ incidents, s.Creates a incidents d := by
  have hstep := act_cases srv st s a
  generalize act srv st s a = s' at hd hstep
  cases hstep with
  | @write w =>
    left
    obtain ⟨_, ⟨_, hsame⟩ | ⟨_, _, _, _, hdeleted⟩⟩ := perform_frame srv s.db ⟨s.clock, w⟩
    · simpa only [hsame] using hd
    · simp only [hdeleted] at hd
      exact (Table.mem_delete.mp hd).1
  | removeChannel => exact Or.inl (Table.mem_delete.mp hd).1
  | @announce locked opened htick hinsertable =>
    have henqueues : s.Enqueues (.tick locked) opened .down := Pipeline.Enqueues.announce htick
    exact henqueues.creates hinsertable hd
  | @recover locked resolved htick hinsertable =>
    have henqueues : s.Enqueues (.tick locked) resolved .up := Pipeline.Enqueues.recover htick
    exact henqueues.creates hinsertable hd
  | drain _ _ => exact absurd rfl (hdrain _ _)
  | purgeIncidents => exact Or.inl (Table.mem_delete.mp hd).1
  | purgeDeliveries => exact Or.inl (Table.mem_delete.mp hd).1
  | _ => exact Or.inl hd

/-- A delivery after an action is a version of one before it, or was created by it. -/
theorem act_deliveries {d' : Delivery} (hd' : d' ∈ (act srv st s a).db.deliveries.rows) :
    (∃ d ∈ s.db.deliveries.rows, d.SameAlert d') ∨ ∃ incidents, s.Creates a incidents d' := by
  by_cases hdrain : ∃ instance' action, a = .drain instance' action
  · obtain ⟨instance', action, rfl⟩ := hdrain
    left
    have hstep := act_cases srv st s (.drain instance' action)
    generalize act srv st s (.drain instance' action) = s' at hd' hstep
    cases hstep with
    | drain _ hstep =>
      obtain ⟨_, _, f, hf, hrows⟩ := hstep.redelivers
      simp only [hrows] at hd'
      obtain ⟨d, hd, rfl⟩ := List.mem_map.mp hd'
      exact ⟨d, hd, hf d⟩
    | skipDrain => exact ⟨d', hd', Delivery.SameAlert.refl d'⟩
  · push Not at hdrain
    rcases act_deliveries_of_ne_drain hdrain hd' with hold | hcreates
    · exact Or.inl ⟨d', hold, Delivery.SameAlert.refl d'⟩
    · exact Or.inr hcreates

/-- A delivery survives an action, unless its channel is removed, it is purged, or its
incident goes. -/
theorem act_persists (srv : Server) (st : Settings) {d : Delivery}
    (hd : d ∈ s.db.deliveries.rows) :
    (∃ d' ∈ (act srv st s a).db.deliveries.rows, d.SameAlert d') ∨ a = .removeChannel d.channelId ∨
      (a = .purgeDeliveries ∧ d.Finished s.clock) ∨
        ∀ i ∈ (act srv st s a).db.incidents.rows, i.id ≠ d.incidentId := by
  have hstep := act_cases srv st s a
  generalize act srv st s a = s' at hstep
  have hkept (h : d ∈ s'.db.deliveries.rows) : ∃ d' ∈ s'.db.deliveries.rows, d.SameAlert d' :=
    ⟨d, h, Delivery.SameAlert.refl d⟩
  cases hstep with
  | @write w =>
    obtain ⟨_, ⟨_, hsame⟩ | ⟨checkId, _, _, hincidents, hdeliveries⟩⟩ :=
      perform_frame srv s.db ⟨s.clock, w⟩
    · exact Or.inl (hkept (by simpa only [hsame] using hd))
    · by_cases hgone : ∃ i ∈ s.db.incidents.rows, i.id = d.incidentId ∧ i.checkId = checkId
      · right; right; right
        intro i' hi' hid
        simp only [hincidents] at hi'
        obtain ⟨i, hi, hiid, hicheck⟩ := hgone
        obtain ⟨hmem, hnot⟩ := Table.mem_delete.mp hi'
        have hsame : i' = i := s.db.eq_of_incident_id hmem hi (hid.trans hiid.symm)
        exact hnot (hsame ▸ hicheck)
      · refine Or.inl (hkept ?_)
        simp only [hdeliveries]
        exact Table.mem_delete.mpr ⟨hd, hgone⟩
  | @removeChannel id =>
    by_cases hchannel : d.channelId = id
    · exact Or.inr (Or.inl (congrArg Action.removeChannel hchannel.symm))
    · exact Or.inl (hkept (Table.mem_delete.mpr ⟨hd, hchannel⟩))
  | announce _ _ => exact Or.inl (hkept (subset_insertDeliveries hd))
  | recover _ _ => exact Or.inl (hkept (subset_insertDeliveries hd))
  | drain _ hstep =>
    left
    obtain ⟨_, _, f, hf, hrows⟩ := hstep.redelivers
    refine ⟨f d, ?_, hf d⟩
    simp only [hrows]
    exact List.mem_map_of_mem hd
  | @purgeIncidents days limit =>
    by_cases hgone : d.incidentId ∈ ((s.db.incidents.rows.filter fun i =>
        s.db.Expired days s.clock i).take limit).map Incident.id
    · right; right; right
      intro i hi hid
      exact (Table.mem_delete.mp hi).2 (hid ▸ hgone)
    · exact Or.inl (hkept (Table.mem_delete.mpr ⟨hd, hgone⟩))
  | purgeDeliveries =>
    by_cases hfinished : d.Finished s.clock
    · exact Or.inr (Or.inr (Or.inl ⟨rfl, hfinished⟩))
    · exact Or.inl (hkept (Table.mem_delete.mpr ⟨hd, hfinished⟩))
  | _ => exact Or.inl (hkept hd)

/-- Ids of deliveries are handed out in order. -/
theorem act_deliveries_next : s.db.deliveries.next ≤ (act srv st s a).db.deliveries.next := by
  have hstep := act_cases srv st s a
  generalize act srv st s a = s' at hstep
  cases hstep with
  | @write w =>
    obtain ⟨_, ⟨_, hsame⟩ | ⟨_, _, _, _, hdeleted⟩⟩ := perform_frame srv s.db ⟨s.clock, w⟩
    · simp only [hsame]
      exact le_rfl
    · simp only [hdeleted]
      exact le_rfl
  | announce _ _ => exact next_le_insertDeliveries
  | recover _ _ => exact next_le_insertDeliveries
  | drain _ hstep => exact hstep.redelivers.2.1.ge
  | _ => exact le_rfl

end Act

end SilenceWatch
