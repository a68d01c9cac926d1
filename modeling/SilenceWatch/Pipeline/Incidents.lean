import SilenceWatch.Pipeline.Deliveries

/-!
# What a step does to the incidents

A tick opens incidents under new ids and resolves open ones; nothing else but a
deletion touches an incident.
-/

namespace SilenceWatch

open Relational Transition

section Open

variable {now : ℤ} {t : SerialTable Incident Incident.Distinct Incident.id}
  {candidates : List (Uuid × IncidentCause)}

/-- Opening incidents hands out ids in order. -/
theorem next_le_insertIncidents : t.next ≤ (insertIncidents now t candidates).1.next := by
  induction candidates generalizing t with
  | nil => exact le_rfl
  | cons candidate rest ih => exact le_trans (t.next_le_insertOrSkip _ _) ih

/-- Opening incidents only adds rows. -/
theorem subset_insertIncidents {i : Incident} (hi : i ∈ t.rows) :
    i ∈ (insertIncidents now t candidates).1.rows := by
  induction candidates generalizing t with
  | nil => exact hi
  | cons candidate rest ih => exact ih (SerialTable.mem_insertOrSkip.mpr (Or.inl hi))

/-- An incident that is added is reported, under a new id. -/
theorem mem_insertIncidents {i : Incident}
    (hi : i ∈ (insertIncidents now t candidates).1.rows) :
    i ∈ t.rows ∨
      (t.next ≤ i.id ∧ ⟨i.id, i.checkId⟩ ∈ (insertIncidents now t candidates).2 ∧
        i.resolvedAt = none ∧ ∃ cause, (i.checkId, cause) ∈ candidates) := by
  induction candidates generalizing t with
  | nil => exact Or.inl hi
  | cons candidate rest ih =>
    obtain ⟨checkId, cause⟩ := candidate
    simp only [insertIncidents] at hi ⊢
    rcases t.insertOrSkip_cases (Incident.opened now checkId cause) fun _ => rfl with
      hskipped | ⟨hrows, hnext⟩
    · rw [hskipped] at hi ⊢
      rw [if_pos rfl]
      rcases ih hi with hold | ⟨hid, href, hopen, cause', hcandidate⟩
      · exact Or.inl hold
      · exact Or.inr ⟨hid, href, hopen, cause', List.mem_cons_of_mem _ hcandidate⟩
    · rw [hnext, if_neg (Nat.succ_ne_self _)]
      rcases ih hi with hmem | ⟨hid, href, hopen, cause', hcandidate⟩
      · rw [hrows, List.mem_append, List.mem_singleton] at hmem
        rcases hmem with hold | rfl
        · exact Or.inl hold
        · exact Or.inr ⟨le_rfl, List.mem_cons_self, rfl, cause, List.mem_cons_self⟩
      · rw [hnext] at hid
        exact Or.inr ⟨Nat.le_of_succ_le hid, List.mem_cons_of_mem _ href, hopen, cause',
          List.mem_cons_of_mem _ hcandidate⟩

/-- An incident that is reported was added. -/
theorem exists_of_mem_insertIncidents {ref : IncidentRef}
    (href : ref ∈ (insertIncidents now t candidates).2) :
    t.next ≤ ref.incidentId ∧ ∃ i ∈ (insertIncidents now t candidates).1.rows,
      i.id = ref.incidentId ∧ i.checkId = ref.checkId := by
  induction candidates generalizing t with
  | nil => cases href
  | cons candidate rest ih =>
    obtain ⟨checkId, cause⟩ := candidate
    simp only [insertIncidents] at href ⊢
    rcases t.insertOrSkip_cases (Incident.opened now checkId cause) fun _ => rfl with
      hskipped | ⟨hrows, hnext⟩
    · rw [hskipped] at href ⊢
      rw [if_pos rfl] at href
      exact ih href
    · rw [hnext, if_neg (Nat.succ_ne_self _)] at href
      rcases List.mem_cons.mp href with rfl | hrest
      · refine ⟨le_rfl, Incident.opened now checkId cause t.next, ?_, rfl, rfl⟩
        apply subset_insertIncidents
        rw [hrows]
        exact List.mem_append_right _ (List.mem_singleton.mpr rfl)
      · obtain ⟨hid, hrow⟩ := ih hrest
        rw [hnext] at hid
        exact ⟨Nat.le_of_succ_le hid, hrow⟩

end Open

section Act

variable {srv : Server} {st : Settings} {s : Pipeline} {a : Action}

/-- The action opens this incident. -/
inductive Pipeline.Opens (st : Settings) (s : Pipeline) : Action → Incident → Prop
  | tick {locked : Uuid → Bool} {i : Incident} : s.tick = .opening →
      s.db.incidents.next ≤ i.id → i.resolvedAt = none →
      (∃ c ∈ s.db.checks.rows, c.id = i.checkId) →
      ⟨i.id, i.checkId⟩ ∈ (openIncidentsSql s.clock st.detectionBatchSize locked s.db).2 →
      s.Opens st (.tick locked) i

/-- The action resolves this incident. -/
inductive Pipeline.Resolves (st : Settings) (s : Pipeline) : Action → Incident → Prop
  | tick {locked : Uuid → Bool} {i : Incident} : s.tick = .resolving → i.resolvedAt = none →
      ⟨i.id, i.checkId⟩ ∈ (resolveIncidentsSql s.clock st.detectionBatchSize locked s.db).2 →
      s.Resolves st (.tick locked) i

/-- Two versions of one incident around an action. -/
structure Pipeline.SameOutage (st : Settings) (s : Pipeline) (a : Action) (i i' : Incident) :
    Prop where
  id : i'.id = i.id
  checkId : i'.checkId = i.checkId
  resolution : i'.resolvedAt = i.resolvedAt ∨ s.Resolves st a i

/-- An open incident was open before. -/
theorem Pipeline.SameOutage.resolvedAt_eq_none {i i' : Incident} (h : s.SameOutage st a i i')
    (hopen : i'.resolvedAt = none) : i.resolvedAt = none := by
  rcases h.resolution with hsame | hresolves
  · rw [← hsame]
    exact hopen
  · cases hresolves with
    | tick _ hnone _ => exact hnone

/-- An incident after an action is a version of one before it, or was opened by it. -/
theorem act_incidents {i' : Incident} (hi' : i' ∈ (act srv st s a).db.incidents.rows) :
    (∃ i ∈ s.db.incidents.rows, s.SameOutage st a i i') ∨ s.Opens st a i' := by
  have hkept (h : i' ∈ s.db.incidents.rows) :
      (∃ i ∈ s.db.incidents.rows, s.SameOutage st a i i') ∨ s.Opens st a i' :=
    Or.inl ⟨i', h, rfl, rfl, Or.inl rfl⟩
  have hstep := act_cases srv st s a
  generalize act srv st s a = s' at hi' hstep
  cases hstep with
  | @write w =>
    obtain ⟨_, ⟨hsame, _⟩ | ⟨_, _, _, hdeleted, _⟩⟩ := perform_frame srv s.db ⟨s.clock, w⟩
    · exact hkept (by simpa only [hsame] using hi')
    · simp only [hdeleted] at hi'
      exact hkept (Table.mem_delete.mp hi').1
  | openIncidents htick =>
    rcases mem_insertIncidents hi' with hold | ⟨hid, href, hopen, cause, hcandidate⟩
    · exact hkept hold
    · obtain ⟨c, hc, heq⟩ := List.mem_map.mp hcandidate
      have hmem := (List.mem_filter.mp (List.mem_of_mem_take hc)).1
      exact Or.inr (Pipeline.Opens.tick htick hid hopen ⟨c, hmem, (Prod.mk.inj heq).1⟩ href)
  | resolveIncidents htick =>
    simp only [resolveIncidentsSql, SerialTable.update_rows, mem_map_updateRow] at hi'
    obtain ⟨i, hi, ⟨hid, rfl⟩ | ⟨_, rfl⟩⟩ := hi'
    · obtain ⟨j, hj, heq⟩ := List.mem_map.mp hid
      have hmem := List.mem_filter.mp (List.mem_of_mem_take hj)
      have hsame : j = i := s.db.eq_of_incident_id hmem.1 hi heq
      subst hsame
      refine Or.inl ⟨j, hi, rfl, rfl, Or.inr (Pipeline.Resolves.tick htick ?_ ?_)⟩
      · exact (of_decide_eq_true hmem.2).1.1
      · exact List.mem_map.mpr ⟨j, hj, rfl⟩
    · exact hkept hi
  | drain _ hstep =>
    have hdb := hstep.redelivers.1
    dsimp only at hi'
    rw [hdb] at hi'
    exact hkept hi'
  | purgeIncidents => exact hkept (Table.mem_delete.mp hi').1
  | _ => exact hkept hi'

/-- A write keeps the project of a check. -/
theorem Effect.projectId_eq {db : Database} {now : ℤ} {w : Write} {c c' : Check}
    (h : Effect srv db now w c c') : c'.projectId = c.projectId := by
  cases h with
  | resynced hsync => exact hsync.projectId
  | _ => rfl

/-- A check stays in its project as long as it has incidents. -/
theorem act_check_persists (srv : Server) (st : Settings) {c : Check} (hc : c ∈ s.db.checks.rows) :
    (∃ c' ∈ (act srv st s a).db.checks.rows, c'.id = c.id ∧ c'.projectId = c.projectId) ∨
      ∀ i ∈ (act srv st s a).db.incidents.rows, i.checkId ≠ c.id := by
  have hstep := act_cases srv st s a
  generalize act srv st s a = s' at hstep
  have hkept (h : c ∈ s'.db.checks.rows) :
      ∃ c' ∈ s'.db.checks.rows, c'.id = c.id ∧ c'.projectId = c.projectId := ⟨c, h, rfl, rfl⟩
  cases hstep with
  | @write w =>
    by_cases hremove : w = .remove c.id
    · right
      intro i hi
      subst hremove
      simp only [perform, removeCheck] at hi
      split at hi
      · next hnone =>
        have hfound := List.find?_eq_none.mp hnone c hc
        simp at hfound
      · exact (Table.mem_delete.mp hi).2
    · obtain ⟨c', hc', heffect⟩ := perform_effect srv s.db ⟨s.clock, w⟩ hc hremove
      exact Or.inl ⟨c', hc', heffect.id_eq, heffect.projectId_eq⟩
  | advance _ _ =>
    left
    refine ⟨_, List.mem_map_of_mem hc, ?_⟩
    unfold updateRow
    split
    · exact ⟨rfl, rfl⟩
    · exact ⟨rfl, rfl⟩
  | drain _ hstep =>
    have hdb := hstep.redelivers.1
    dsimp only
    rw [hdb]
    exact Or.inl ⟨c, hc, rfl, rfl⟩
  | _ => exact Or.inl (hkept hc)

/-- Ids of incidents are handed out in order. -/
theorem act_incidents_next : s.db.incidents.next ≤ (act srv st s a).db.incidents.next := by
  have hstep := act_cases srv st s a
  generalize act srv st s a = s' at hstep
  cases hstep with
  | @write w =>
    obtain ⟨_, ⟨hsame, _⟩ | ⟨_, _, _, hdeleted, _⟩⟩ := perform_frame srv s.db ⟨s.clock, w⟩
    · simp only [hsame]
      exact le_rfl
    · simp only [hdeleted]
      exact le_rfl
  | openIncidents _ => exact next_le_insertIncidents
  | drain _ hstep =>
    have hdb := hstep.redelivers.1
    dsimp only
    rw [hdb]
  | _ => exact le_rfl

/-- The enabled channels of the project of a check. -/
theorem mem_audienceOf {db : Database} {checkId : Uuid} {ch : Channel} :
    ch ∈ db.audienceOf checkId ↔
      ∃ c ∈ db.checks.rows, c.id = checkId ∧
        ch ∈ db.channels.rows ∧ ch.projectId = c.projectId ∧ ch.enabled = true := by
  unfold Database.audienceOf
  simp only [List.mem_flatMap, List.mem_filter, decide_eq_true_eq]
  constructor
  · rintro ⟨c, ⟨hc, hid⟩, hch, hproject, henabled⟩
    exact ⟨c, hc, hid, hch, hproject, henabled⟩
  · rintro ⟨c, hc, hid, hch, hproject, henabled⟩
    exact ⟨c, ⟨hc, hid⟩, hch, hproject, henabled⟩

/-- An action other than a statement of the tick or its failure leaves the tick where
it is. -/
theorem act_tick (srv : Server) (st : Settings) (htick : ∀ locked, a ≠ .tick locked)
    (hfails : a ≠ .tickFails) : (act srv st s a).tick = s.tick := by
  have hstep := act_cases srv st s a
  generalize act srv st s a = s' at hstep
  cases hstep with
  | startTick _ => exact absurd rfl (htick _)
  | advance _ _ => exact absurd rfl (htick _)
  | openIncidents _ => exact absurd rfl (htick _)
  | announce _ _ => exact absurd rfl (htick _)
  | announceFails _ _ => exact absurd rfl (htick _)
  | resolveIncidents _ => exact absurd rfl (htick _)
  | recover _ _ => exact absurd rfl (htick _)
  | recoverFails _ _ => exact absurd rfl (htick _)
  | tickFails => exact absurd rfl hfails
  | _ => rfl

/-- Opened incidents are reported with the ids and checks they have. -/
theorem exists_of_mem_opened {now : ℤ} {limit : ℕ} {locked : Uuid → Bool} {db : Database}
    {ref : IncidentRef} (href : ref ∈ (openIncidentsSql now limit locked db).2) :
    db.incidents.next ≤ ref.incidentId ∧
      ∃ i ∈ (openIncidentsSql now limit locked db).1.incidents.rows,
        i.id = ref.incidentId ∧ i.checkId = ref.checkId :=
  exists_of_mem_insertIncidents href

/-- Opening incidents leaves the database of its statement. -/
theorem act_opening_db (srv : Server) (st : Settings) {locked : Uuid → Bool}
    (htick : s.tick = .opening) :
    (act srv st s (.tick locked)).db =
      (openIncidentsSql s.clock st.detectionBatchSize locked s.db).1 := by
  simp [act, Pipeline.tickStep, htick]

end Act

end SilenceWatch
