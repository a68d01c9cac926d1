import SilenceWatch.Library.Mirror
import SilenceWatch.Pipeline.Incidents

/-!
# States of checks and their incidents

The state of a check and its incidents live in two tables. What can happen to the
state by one action, and what the statements of the tick do to the incidents of one
check, read as a log of its outages.
-/

namespace SilenceWatch

open Relational Chronicle

/-- The state of a check, if it exists. -/
def Database.stateOf (db : Database) (checkId : Uuid) : Option CheckState :=
  (db.findCheck checkId).map Check.state

/-- From its opening to its resolution. -/
def Incident.span (i : Incident) : Span ℤ := ⟨i.startedAt, i.resolvedAt⟩

/-- The incidents of a check, in the order they were opened. -/
def incidentsOf (checkId : Uuid) (incidents : List Incident) : List Incident :=
  incidents.filter fun i => i.checkId = checkId

/-- What the incidents of a check say about its outages. -/
def Database.incidentLog (db : Database) (checkId : Uuid) : List (Span ℤ) :=
  (incidentsOf checkId db.incidents.rows).map Incident.span

/-- The incidents of a check that are not resolved. -/
def Database.openIncidents (db : Database) (checkId : Uuid) : List Incident :=
  (incidentsOf checkId db.incidents.rows).filter fun i => i.resolvedAt = none

/-- Every check that is down has an open incident. -/
def Database.Opened (db : Database) : Prop :=
  ∀ c ∈ db.checks.rows, c.state = .down → ∃ i ∈ db.incidents.rows,
    i.checkId = c.id ∧ i.resolvedAt = none

/-- No check that came back or was paused has an open incident. -/
def Database.Cleared (db : Database) : Prop := ∀ i ∈ db.incidents.rows, ¬ db.Resolvable i

/-- The action gives the check back from a pause by quota. -/
def Pipeline.GivesBack (s : Pipeline) (checkId : Uuid) : Action → Prop
  | .write (.resume userId room) => ∃ c ∈ s.db.revived userId room, c.id = checkId
  | _ => False

/-- The checks that the action selects for their detection transition. -/
def Pipeline.dueChecks (st : Settings) (s : Pipeline) : Action → List Check
  | .write (.advance limit locked) => dueBatch s.clock limit locked s.db
  | .tick locked =>
    match s.tick with
    | .advancing _ => dueBatch s.clock st.detectionBatchSize locked s.db
    | _ => []
  | _ => []

/-- The action is the detection transition of the check. -/
def Pipeline.Advances (st : Settings) (s : Pipeline) (checkId : Uuid) (a : Action) : Prop :=
  ∃ c ∈ s.dueChecks st a, c.id = checkId
  deriving Decidable

instance (s : Pipeline) (checkId : Uuid) (a : Action) : Decidable (s.GivesBack checkId a) := by
  unfold Pipeline.GivesBack
  split <;> infer_instance

/-- The kind of the heartbeat that the action records for the check, if it does. -/
def Pipeline.heartbeat (s : Pipeline) (checkId : Uuid) : Action → Option PingKind
  | .write (.ingest _ command) =>
    if ∃ c ∈ s.db.checks.rows, c.id = checkId ∧ c.pingKey = command.pingKey ∧ c.state ≠ .paused
    then some command.kind
    else none
  | _ => none

/-- How an action may change the state of a check. -/
inductive StateStep (st : Settings) (s : Pipeline) (a : Action) (checkId : Uuid) :
    Option CheckState → Option CheckState → Prop
  | same {state : Option CheckState} : StateStep st s a checkId state state
  | created : StateStep st s a checkId none (some .new)
  | removed {state : Option CheckState} : StateStep st s a checkId state none
  | advanced {c : Check} : c ∈ s.dueChecks st a → c.id = checkId → c.Due s.clock →
      StateStep st s a checkId (some c.state) (some (c.nextState s.clock))
  | givenBack {state : CheckState} : s.GivesBack checkId a →
      StateStep st s a checkId (some state) (some .new)
  | resumed : StateStep st s a checkId (some .paused) (some .new)
  | paused {state : CheckState} : StateStep st s a checkId (some state) (some .paused)
  | recovered {state : CheckState} : s.heartbeat checkId a = some .success →
      StateStep st s a checkId (some state) (some .up)
  | failed {state : CheckState} : s.heartbeat checkId a = some .fail →
      StateStep st s a checkId (some state) (some .down)

section States

variable {db : Database} {checkId : Uuid}

/-- The state of a check that exists. -/
theorem Database.stateOf_of_mem {c : Check} (hc : c ∈ db.checks.rows) :
    db.stateOf c.id = some c.state := by
  unfold Database.stateOf
  cases hfind : db.findCheck c.id with
  | none =>
    have hnot := List.find?_eq_none.mp hfind c hc
    simp at hnot
  | some existing => rw [Database.findCheck_eq_some hfind hc rfl, Option.map_some]

/-- A state belongs to a check that exists. -/
theorem Database.exists_of_stateOf {state : CheckState} (h : db.stateOf checkId = some state) :
    ∃ c ∈ db.checks.rows, c.id = checkId ∧ c.state = state := by
  obtain ⟨c, hfind, hstate⟩ := Option.map_eq_some_iff.mp h
  exact ⟨c, List.mem_of_find?_eq_some hfind, by simpa using List.find?_some hfind, hstate⟩

/-- A check without a state does not exist. -/
theorem Database.stateOf_eq_none_iff :
    db.stateOf checkId = none ↔ ∀ c ∈ db.checks.rows, c.id ≠ checkId := by
  unfold Database.stateOf Database.findCheck
  rw [Option.map_eq_none_iff, List.find?_eq_none]
  simp

end States

section Steps

variable {srv : Server} {st : Settings} {s : Pipeline} {a : Action}

/-- How a write may change the state of a row. -/
theorem Effect.stateStep {w : Write} {c c' : Check} (h : Effect srv s.db s.clock w c c')
    (hc : c ∈ s.db.checks.rows) (hdue : ∀ limit locked, w = .advance limit locked →
      c' ≠ c → c ∈ dueBatch s.clock limit locked s.db) :
    StateStep st s (.write w) c.id (some c.state) (some c'.state) := by
  cases h with
  | kept _ => exact StateStep.same
  | @updated checkId input data _ hid hdata =>
    change StateStep st s _ c.id (some c.state) (some (data.state.getD c.state))
    rcases (updateData_cases hdata).2 with ⟨hnone, _⟩ | ⟨hpaused, _⟩ | ⟨hnew, hstate, _⟩
    · rw [hnone]
      exact StateStep.same
    · rw [hpaused]
      exact StateStep.paused
    · rw [hnew, hstate]
      exact StateStep.resumed
  | resynced hsync =>
    rw [hsync.state]
    exact StateStep.same
  | rekeyed => exact StateStep.same
  | @heartbeat metadata command _ hkey hstate =>
    cases hkind : command.kind with
    | start =>
      have hkept : ((ingestParams srv.cron metadata s.clock command).write c c).state =
          c.state := by
        simp [IngestParams.write, ingestParams, hkind]
      rw [hkept]
      exact StateStep.same
    | fail =>
      have hdown : ((ingestParams srv.cron metadata s.clock command).write c c).state = .down := by
        simp [IngestParams.write, ingestParams, hkind]
      rw [hdown]
      refine StateStep.failed ((if_pos ⟨c, hc, rfl, hkey, hstate⟩).trans ?_)
      rw [hkind]
    | success =>
      have hup : ((ingestParams srv.cron metadata s.clock command).write c c).state = .up := by
        simp [IngestParams.write, ingestParams, hkind]
      rw [hup]
      refine StateStep.recovered ((if_pos ⟨c, hc, rfl, hkey, hstate⟩).trans ?_)
      rw [hkind]
  | quotaPaused _ => exact StateStep.paused
  | quotaResumed _ hrevived => exact StateStep.givenBack ⟨c, hrevived, rfl⟩
  | @advanced limit locked _ hd =>
    by_cases hsame : c.nextState s.clock = c.state
    · dsimp only
      rw [hsame]
      exact StateStep.same
    · have hbatch := hdue limit locked rfl fun heq => hsame (congrArg Check.state heq)
      exact StateStep.advanced hbatch rfl hd

/-- How a write may change the state of a check. -/
theorem perform_stateStep (srv : Server) (st : Settings) (s : Pipeline) (w : Write)
    (checkId : Uuid) :
    StateStep st s (.write w) checkId (s.db.stateOf checkId)
      ((perform srv s.db ⟨s.clock, w⟩).stateOf checkId) := by
  cases hstate : (perform srv s.db ⟨s.clock, w⟩).stateOf checkId with
  | none => exact StateStep.removed
  | some state' =>
    obtain ⟨c', hc', rfl, rfl⟩ := Database.exists_of_stateOf hstate
    rcases perform_cases srv s.db ⟨s.clock, w⟩ hc' with ⟨c, hc, heffect⟩ | ⟨hcreated, hnew⟩
    · rw [heffect.id_eq, Database.stateOf_of_mem hc]
      refine heffect.stateStep hc fun limit locked hw hne => ?_
      dsimp only at hw
      subst hw
      simp only [perform, advanceSql, advanceBatch, Table.update_rows, mem_map_updateRow] at hc'
      obtain ⟨d, hd, ⟨hdue, heq⟩ | ⟨_, rfl⟩⟩ := hc'
      · obtain ⟨e, he, hid⟩ := List.mem_map.mp hdue.1
        have hsame : e.id = c.id := by
          rw [hid, ← heffect.id_eq, heq]
        rwa [← s.db.eq_of_check_id (mem_of_mem_select _ _ he).1 hc hsame]
      · exact absurd (s.db.eq_of_check_id hd hc heffect.id_eq) hne
    · rw [Database.stateOf_eq_none_iff.mpr hnew, hcreated.state]
      exact StateStep.created

/-- **Every way the state of a check changes.** -/
theorem act_stateStep (srv : Server) (st : Settings) (s : Pipeline) (a : Action)
    (checkId : Uuid) :
    StateStep st s a checkId (s.db.stateOf checkId)
      ((act srv st s a).db.stateOf checkId) := by
  have hstep := act_cases srv st s a
  generalize act srv st s a = s' at hstep
  cases hstep with
  | @write w => exact perform_stateStep srv st s w checkId
  | @advance locked batch phase htick _ =>
    have hwrite := perform_stateStep srv st s (.advance st.detectionBatchSize locked) checkId
    have hdue : s.dueChecks st (.tick locked) =
        s.dueChecks st (.write (.advance st.detectionBatchSize locked)) := by
      simp only [Pipeline.dueChecks, htick]
    change StateStep st s (.tick locked) checkId (s.db.stateOf checkId)
      ((perform srv s.db ⟨s.clock, .advance st.detectionBatchSize locked⟩).stateOf checkId)
    generalize s.db.stateOf checkId = state at hwrite ⊢
    generalize (perform srv s.db ⟨s.clock, .advance st.detectionBatchSize locked⟩).stateOf
      checkId = state' at hwrite ⊢
    cases hwrite with
    | same => exact StateStep.same
    | created => exact StateStep.created
    | removed => exact StateStep.removed
    | advanced h hid hd => exact StateStep.advanced (hdue ▸ h) hid hd
    | givenBack h => exact h.elim
    | resumed => exact StateStep.resumed
    | paused => exact StateStep.paused
    | recovered h => cases h
    | failed h => cases h
  | drain _ hstep =>
    have hdb := hstep.redelivers.1
    dsimp only
    rw [hdb]
    exact StateStep.same
  | _ => exact StateStep.same

end Steps

/-- A check has one open incident at most. -/
theorem Database.eq_of_open_incident (db : Database) {i i' : Incident}
    (hi : i ∈ db.incidents.rows) (hi' : i' ∈ db.incidents.rows) (hcheck : i.checkId = i'.checkId)
    (hopen : i.resolvedAt = none) (hopen' : i'.resolvedAt = none) : i = i' :=
  db.incidents.eq_of_not_distinct hi hi' (fun h => h.2 ⟨hcheck, hopen, hopen'⟩)
    fun h => h.2 ⟨hcheck.symm, hopen', hopen⟩

section Log

variable {now : ℤ} {t : SerialTable Incident Incident.Distinct Incident.id}
  {candidates : List (Uuid × IncidentCause)} {checkId : Uuid}

/-- Opening incidents adds at most one for a check, after the others. -/
theorem incidentsOf_insertIncidents (hnodup : (candidates.map Prod.fst).Nodup) :
    incidentsOf checkId (insertIncidents now t candidates).1.rows = incidentsOf checkId t.rows ∨
      (checkId ∈ candidates.map Prod.fst ∧ ∃ cause id,
        incidentsOf checkId (insertIncidents now t candidates).1.rows =
          incidentsOf checkId t.rows ++ [Incident.opened now checkId cause id]) := by
  induction candidates generalizing t with
  | nil => exact Or.inl rfl
  | cons candidate rest ih =>
    obtain ⟨other, cause⟩ := candidate
    obtain ⟨hother, hrest⟩ := List.nodup_cons.mp hnodup
    simp only [insertIncidents]
    rcases t.insertOrSkip_cases (Incident.opened now other cause) fun _ => rfl with
      hskipped | ⟨hrows, -⟩
    · rw [hskipped]
      rcases ih hrest with hsame | ⟨hmem, hadded⟩
      · exact Or.inl hsame
      · exact Or.inr ⟨List.mem_cons_of_mem _ hmem, hadded⟩
    · have hinserted : incidentsOf checkId
          (t.insertOrSkip (Incident.opened now other cause) fun _ => rfl).rows =
            incidentsOf checkId t.rows ++
              incidentsOf checkId [Incident.opened now other cause t.next] := by
        rw [hrows]
        exact List.filter_append _ _
      rcases ih (t := t.insertOrSkip (Incident.opened now other cause) fun _ => rfl) hrest with
        hsame | ⟨hmem, hadded⟩
      · rw [hsame, hinserted]
        by_cases heq : other = checkId
        · subst heq
          exact Or.inr ⟨List.mem_cons_self, cause, t.next, by simp [incidentsOf, Incident.opened]⟩
        · exact Or.inl (by simp [incidentsOf, Incident.opened, heq])
      · have hne : other ≠ checkId := by
          rintro rfl
          exact hother hmem
        refine Or.inr ⟨List.mem_cons_of_mem _ hmem, ?_⟩
        rw [hinserted] at hadded
        simpa [incidentsOf, Incident.opened, hne] using hadded

/-- After its insertion every candidate has an open incident. -/
theorem exists_open_insertIncidents (h : checkId ∈ candidates.map Prod.fst) :
    ∃ i ∈ (insertIncidents now t candidates).1.rows, i.checkId = checkId ∧ i.resolvedAt = none := by
  induction candidates generalizing t with
  | nil => simp at h
  | cons candidate rest ih =>
    obtain ⟨other, cause⟩ := candidate
    simp only [insertIncidents]
    rcases List.mem_cons.mp h with rfl | hrest
    · suffices hopen : ∃ i ∈ (t.insertOrSkip (Incident.opened now checkId cause)
          fun _ => rfl).rows, i.checkId = checkId ∧ i.resolvedAt = none by
        obtain ⟨i, hi, hcheck, hnone⟩ := hopen
        exact ⟨i, subset_insertIncidents hi, hcheck, hnone⟩
      by_cases hfree : ∀ i ∈ t.rows, Incident.Distinct i (Incident.opened now checkId cause t.next)
      · exact ⟨_, SerialTable.mem_insertOrSkip.mpr (Or.inr ⟨rfl, hfree⟩), rfl, rfl⟩
      · push Not at hfree
        obtain ⟨i, hi, hconflict⟩ := hfree
        have hsame : i.checkId = checkId ∧ i.resolvedAt = none := by
          by_contra hother
          exact hconflict ⟨t.key_ne_next hi, fun hboth => hother ⟨hboth.1, hboth.2.1⟩⟩
        exact ⟨i, SerialTable.mem_insertOrSkip.mpr (Or.inl hi), hsame⟩
    · exact ih hrest

end Log

section Statements

variable {now : ℤ} {limit : ℕ} {locked : Uuid → Bool} {db : Database} {checkId : Uuid}

/-- The checks that `OPEN_INCIDENTS_SQL` selects. -/
def Database.openCandidates (db : Database) (limit : ℕ) (locked : Uuid → Bool) : List Check :=
  (db.checks.rows.filter fun c => db.NeedsIncident c ∧ locked c.id = false).take limit

/-- The incidents that `RESOLVE_INCIDENTS_SQL` selects. -/
def Database.resolvableIncidents (db : Database) (limit : ℕ) (locked : Uuid → Bool) :
    List Incident :=
  (db.incidents.rows.filter fun i => db.Resolvable i ∧ locked i.id = false).take limit

/-- The candidates are checks that are down without an open incident. -/
theorem Database.of_mem_openCandidates {c : Check} (h : c ∈ db.openCandidates limit locked) :
    c ∈ db.checks.rows ∧ db.NeedsIncident c := by
  have hfiltered := List.mem_filter.mp (List.mem_of_mem_take h)
  exact ⟨hfiltered.1, (of_decide_eq_true hfiltered.2).1⟩

/-- Only resolvable incidents are selected. -/
theorem Database.of_mem_resolvableIncidents {i : Incident}
    (h : i ∈ db.resolvableIncidents limit locked) : i ∈ db.incidents.rows ∧ db.Resolvable i := by
  have hfiltered := List.mem_filter.mp (List.mem_of_mem_take h)
  exact ⟨hfiltered.1, (of_decide_eq_true hfiltered.2).1⟩

/-- Without locks, a batch that is large enough takes every row that qualifies. -/
theorem mem_take_filter {Row : Type*} {p q : Row → Prop} [DecidablePred p] [DecidablePred q]
    {rows : List Row} (hcount : rows.countP p ≤ limit) (hfree : ∀ r ∈ rows, q r) {r : Row}
    (hr : r ∈ rows) (hp : p r) : r ∈ (rows.filter fun r => p r ∧ q r).take limit := by
  have hlength : (rows.filter fun r => p r ∧ q r).length ≤ limit := by
    rw [← List.countP_eq_length_filter]
    refine le_trans (List.countP_mono_left fun r _ h => ?_) hcount
    exact decide_eq_true (of_decide_eq_true h).1
  rw [List.take_of_length_le hlength]
  exact List.mem_filter.mpr ⟨hr, decide_eq_true ⟨hp, hfree r hr⟩⟩

/-- What opening incidents does to the log of a check. -/
theorem incidentLog_openIncidentsSql (now : ℤ) (limit : ℕ) (locked : Uuid → Bool) (db : Database)
    (checkId : Uuid) :
    (openIncidentsSql now limit locked db).1.incidentLog checkId = db.incidentLog checkId ∨
      (db.stateOf checkId = some .down ∧ (∀ entry ∈ db.incidentLog checkId, entry.stop ≠ none) ∧
        (openIncidentsSql now limit locked db).1.incidentLog checkId =
          db.incidentLog checkId ++ [⟨now, none⟩]) := by
  have hnodup : (((db.openCandidates limit locked).map
      fun c => (c.id, db.classify c.id)).map Prod.fst).Nodup := by
    rw [List.map_map]
    exact db.check_ids_nodup.sublist
      (((List.take_sublist _ _).trans List.filter_sublist).map Check.id)
  rcases incidentsOf_insertIncidents (t := db.incidents) hnodup with
    hsame | ⟨hmem, cause, id, hadded⟩
  · exact Or.inl (congrArg (List.map Incident.span) hsame)
  · right
    rw [List.map_map] at hmem
    obtain ⟨c, hc, rfl⟩ := List.mem_map.mp hmem
    obtain ⟨hrow, hdown, hnone⟩ := Database.of_mem_openCandidates hc
    refine ⟨?_, ?_, ?_⟩
    · change db.stateOf c.id = _
      rw [Database.stateOf_of_mem hrow, hdown]
    · intro entry hentry hopen
      obtain ⟨i, hi, rfl⟩ := List.mem_map.mp hentry
      have hof := List.mem_filter.mp hi
      exact hnone ⟨i, hof.1, of_decide_eq_true hof.2, hopen⟩
    · refine (congrArg (List.map Incident.span) hadded).trans ?_
      rw [List.map_append]
      rfl

/-- What resolving incidents does to the log of a check. -/
theorem incidentLog_resolveIncidentsSql (now : ℤ) (limit : ℕ) (locked : Uuid → Bool)
    (db : Database) (checkId : Uuid) :
    (resolveIncidentsSql now limit locked db).1.incidentLog checkId = db.incidentLog checkId ∨
      ((db.stateOf checkId = some .up ∨ db.stateOf checkId = some .paused) ∧
        (∃ entry ∈ db.incidentLog checkId, entry.stop = none) ∧
        (resolveIncidentsSql now limit locked db).1.incidentLog checkId =
          (db.incidentLog checkId).map (Span.finish now)) := by
  have hlog : (resolveIncidentsSql now limit locked db).1.incidentLog checkId =
      ((incidentsOf checkId db.incidents.rows).map (updateRow
        (fun i => i.id ∈ (db.resolvableIncidents limit locked).map Incident.id)
        fun i => { i with resolvedAt := some now })).map Incident.span := by
    refine congrArg (List.map Incident.span) ?_
    simp only [resolveIncidentsSql, SerialTable.update_rows, incidentsOf, List.filter_map]
    refine congrArg (List.map _) (List.filter_congr fun i _ => ?_)
    unfold Function.comp updateRow
    split <;> rfl
  rw [hlog, List.map_map]
  by_cases hresolves : ∃ i ∈ db.resolvableIncidents limit locked, i.checkId = checkId
  · right
    obtain ⟨i, hi, rfl⟩ := hresolves
    obtain ⟨hrow, hopen, c, hc, hid, hstate⟩ := Database.of_mem_resolvableIncidents hi
    refine ⟨?_, ⟨i.span, List.mem_map_of_mem (List.mem_filter.mpr ⟨hrow, by simp⟩), hopen⟩, ?_⟩
    · rw [← hid, Database.stateOf_of_mem hc]
      simpa using hstate
    · unfold Database.incidentLog
      rw [List.map_map]
      refine List.map_congr_left fun j hj => ?_
      obtain ⟨hjrow, hcheck⟩ := List.mem_filter.mp hj
      unfold Function.comp updateRow
      split
      · next hmem =>
        obtain ⟨k, hk, hkid⟩ := List.mem_map.mp hmem
        obtain ⟨hkrow, hkopen, _⟩ := Database.of_mem_resolvableIncidents hk
        rw [← db.eq_of_incident_id hkrow hjrow hkid]
        simp [Incident.span, Span.finish, hkopen]
      · next hmem =>
        refine (Span.finish_eq_self fun hnone => ?_).symm
        have hsame := db.eq_of_open_incident hjrow hrow (of_decide_eq_true hcheck) hnone hopen
        exact hmem (hsame ▸ List.mem_map_of_mem hi)
  · left
    unfold Database.incidentLog
    refine List.map_congr_left fun j hj => ?_
    obtain ⟨hjrow, hcheck⟩ := List.mem_filter.mp hj
    unfold Function.comp updateRow
    rw [if_neg]
    intro hmem
    obtain ⟨k, hk, hkid⟩ := List.mem_map.mp hmem
    have hsame := db.eq_of_incident_id (Database.of_mem_resolvableIncidents hk).1 hjrow hkid
    exact hresolves ⟨k, hk, hsame ▸ of_decide_eq_true hcheck⟩

/-- A batch that is large enough opens every incident that is missing. -/
theorem opened_openIncidentsSql (hfree : ∀ c ∈ db.checks.rows, locked c.id = false)
    (hcount : db.checks.rows.countP (fun c => db.NeedsIncident c) ≤ limit) :
    (openIncidentsSql now limit locked db).1.Opened := by
  intro c hc hdown
  by_cases hneeds : db.NeedsIncident c
  · refine exists_open_insertIncidents ?_
    rw [List.map_map]
    exact List.mem_map_of_mem (mem_take_filter hcount hfree hc hneeds)
  · have hopen : ∃ i ∈ db.incidents.rows, i.checkId = c.id ∧ i.resolvedAt = none := by
      by_contra hnone
      exact hneeds ⟨hdown, hnone⟩
    obtain ⟨i, hi, hopen⟩ := hopen
    exact ⟨i, subset_insertIncidents hi, hopen⟩

/-- Resolving incidents leaves those of the checks that are down. -/
theorem opened_resolveIncidentsSql (h : db.Opened) :
    (resolveIncidentsSql now limit locked db).1.Opened := by
  intro c hc hdown
  obtain ⟨i, hi, hcheck, hopen⟩ := h c hc hdown
  refine ⟨i, ?_, hcheck, hopen⟩
  simp only [resolveIncidentsSql, SerialTable.update_rows, mem_map_updateRow]
  refine ⟨i, hi, Or.inr ⟨fun hmem => ?_, rfl⟩⟩
  obtain ⟨j, hj, hid⟩ := List.mem_map.mp hmem
  have hselected : j ∈ db.resolvableIncidents limit locked := hj
  obtain ⟨hrow, _, d, hd, hdid, hstate⟩ := Database.of_mem_resolvableIncidents hselected
  rw [db.eq_of_incident_id hrow hi hid, hcheck] at hdid
  rw [db.eq_of_check_id hd hc hdid, hdown] at hstate
  simp at hstate

/-- A batch that is large enough resolves every incident that is resolvable. -/
theorem cleared_resolveIncidentsSql (hfree : ∀ i ∈ db.incidents.rows, locked i.id = false)
    (hcount : db.incidents.rows.countP (fun i => db.Resolvable i) ≤ limit) :
    (resolveIncidentsSql now limit locked db).1.Cleared := by
  intro i' hi' hresolvable
  simp only [resolveIncidentsSql, SerialTable.update_rows, mem_map_updateRow] at hi'
  obtain ⟨i, hi, ⟨_, rfl⟩ | ⟨hmem, rfl⟩⟩ := hi'
  · cases hresolvable.1
  · exact hmem (List.mem_map_of_mem (mem_take_filter hcount hfree hi hresolvable))

end Statements

/-- How an action may change the log of a check. -/
inductive LogStep (s s' : Pipeline) (checkId : Uuid) : Prop
  | same : s'.db.incidentLog checkId = s.db.incidentLog checkId → LogStep s s' checkId
  | removed : s'.db.stateOf checkId = none → s'.db.incidentLog checkId = [] →
      LogStep s s' checkId
  | opened : s'.db.checks = s.db.checks → s.db.stateOf checkId = some .down →
      (∀ entry ∈ s.db.incidentLog checkId, entry.stop ≠ none) →
      s'.db.incidentLog checkId = s.db.incidentLog checkId ++ [⟨s'.clock, none⟩] →
      LogStep s s' checkId
  | resolved : s'.db.checks = s.db.checks →
      s.db.stateOf checkId = some .up ∨ s.db.stateOf checkId = some .paused →
      (∃ entry ∈ s.db.incidentLog checkId, entry.stop = none) →
      s'.db.incidentLog checkId = (s.db.incidentLog checkId).map (Span.finish s'.clock) →
      LogStep s s' checkId

/-- The action deletes no incident of a check that stays. -/
def Action.KeepsIncidents : Action → Prop
  | .purgeIncidents _ _ => False
  | _ => True

instance (a : Action) : Decidable a.KeepsIncidents := by
  unfold Action.KeepsIncidents
  split <;> infer_instance

section Act

variable {srv : Server} {st : Settings} {s : Pipeline} {a : Action} {checkId : Uuid}

/-- **Every way the incidents of a check change.** -/
theorem act_logStep (srv : Server) (st : Settings) (s : Pipeline) (checkId : Uuid)
    (hkeeps : a.KeepsIncidents) : LogStep s (act srv st s a) checkId := by
  have hstep := act_cases srv st s a
  generalize act srv st s a = s' at hstep
  cases hstep with
  | @write w =>
    obtain ⟨_, ⟨hsame, _⟩ | ⟨removed, _, hchecks, hdeleted, _⟩⟩ :=
      perform_frame srv s.db ⟨s.clock, w⟩
    · exact LogStep.same (by simp only [Database.incidentLog, hsame])
    · by_cases heq : removed = checkId
      · subst heq
        refine LogStep.removed ?_ ?_
        · rw [Database.stateOf_eq_none_iff, hchecks]
          exact fun c hc => (Table.mem_delete.mp hc).2
        · simp only [Database.incidentLog, incidentsOf, hdeleted, List.map_eq_nil_iff,
            List.filter_eq_nil_iff]
          intro i hi
          simpa using (Table.mem_delete.mp hi).2
      · refine LogStep.same ?_
        simp only [Database.incidentLog, incidentsOf, hdeleted, SerialTable.delete_rows,
          List.filter_filter]
        refine congrArg (List.map Incident.span) (List.filter_congr fun i _ => ?_)
        by_cases hcheck : i.checkId = checkId
        · simp [hcheck, Ne.symm heq]
        · simp [hcheck]
  | openIncidents _ =>
    rcases incidentLog_openIncidentsSql s.clock st.detectionBatchSize _ s.db checkId with
      hsame | ⟨hdown, hclosed, hlog⟩
    · exact LogStep.same hsame
    · exact LogStep.opened rfl hdown hclosed hlog
  | resolveIncidents _ =>
    rcases incidentLog_resolveIncidentsSql s.clock st.detectionBatchSize _ s.db checkId with
      hsame | ⟨hstate, hopen, hlog⟩
    · exact LogStep.same hsame
    · exact LogStep.resolved rfl hstate hopen hlog
  | drain _ hstep =>
    have hdb := hstep.redelivers.1
    refine LogStep.same ?_
    dsimp only
    rw [hdb]
    rfl
  | purgeIncidents => exact hkeeps.elim
  | _ => exact LogStep.same rfl

/-- A check that goes takes its incidents along. -/
theorem act_incidentLog_of_removed (hgone : (act srv st s a).db.stateOf checkId = none) :
    s.db.stateOf checkId = none ∨ (act srv st s a).db.incidentLog checkId = [] := by
  cases hstate : s.db.stateOf checkId with
  | none => exact Or.inl rfl
  | some state =>
    obtain ⟨c, hc, rfl, _⟩ := Database.exists_of_stateOf hstate
    right
    rcases act_check_persists srv st hc with ⟨c', hc', hid, _⟩ | hnone
    · exact absurd hid (Database.stateOf_eq_none_iff.mp hgone c' hc')
    · simp only [Database.incidentLog, incidentsOf, List.map_eq_nil_iff, List.filter_eq_nil_iff]
      intro i hi
      simpa using hnone i hi

/-- A check without open incidents, in its log. -/
theorem Database.openIncidents_eq_nil_iff {db : Database} :
    db.openIncidents checkId = [] ↔ ∀ entry ∈ db.incidentLog checkId, entry.stop ≠ none := by
  unfold Database.openIncidents Database.incidentLog
  rw [List.filter_eq_nil_iff, List.forall_mem_map]
  refine forall₂_congr fun i _ => ?_
  rw [decide_eq_true_eq]
  rfl

/-- An open incident stays open while its check is down. -/
theorem act_openIncidents_of_down (hdown : s.db.stateOf checkId = some .down)
    (hstays : (act srv st s a).db.stateOf checkId ≠ none)
    (hopen : s.db.openIncidents checkId ≠ []) :
    (act srv st s a).db.openIncidents checkId ≠ [] := by
  by_cases hkeeps : a.KeepsIncidents
  · rw [Ne, Database.openIncidents_eq_nil_iff] at hopen ⊢
    push Not at hopen ⊢
    obtain ⟨entry, hentry, hlasts⟩ := hopen
    cases act_logStep srv st s checkId hkeeps with
    | same hlog => exact ⟨entry, hlog ▸ hentry, hlasts⟩
    | removed hnone _ => exact absurd hnone hstays
    | opened _ _ _ hlog =>
      rw [hlog]
      exact ⟨entry, List.mem_append_left _ hentry, hlasts⟩
    | resolved _ hstate _ _ => simp [hdown] at hstate
  · cases a with
    | purgeIncidents days limit =>
      obtain ⟨i, hi⟩ := List.exists_mem_of_ne_nil _ hopen
      obtain ⟨hof, hlasts⟩ := List.mem_filter.mp hi
      obtain ⟨hrow, hcheck⟩ := List.mem_filter.mp hof
      refine List.ne_nil_of_mem (a := i) (List.mem_filter.mpr ⟨List.mem_filter.mpr ⟨?_, hcheck⟩,
        hlasts⟩)
      refine Table.mem_delete.mpr ⟨hrow, fun hpurged => ?_⟩
      -- Only resolved incidents expire.
      obtain ⟨j, hj, hid⟩ := List.mem_map.mp hpurged
      obtain ⟨hjrow, hexpired⟩ := List.mem_filter.mp (List.mem_of_mem_take hj)
      rw [s.db.eq_of_incident_id hjrow hrow hid] at hexpired
      obtain ⟨resolvedAt, hresolved, _⟩ := of_decide_eq_true hexpired
      rw [of_decide_eq_true hlasts] at hresolved
      cases hresolved
    | _ => exact absurd trivial hkeeps

/-- A check that does not exist has no incidents. -/
theorem act_incidentLog_of_absent (hkeeps : a.KeepsIncidents)
    (habsent : s.db.stateOf checkId = none → s.db.incidentLog checkId = [])
    (hgone : (act srv st s a).db.stateOf checkId = none) :
    (act srv st s a).db.incidentLog checkId = [] := by
  rcases act_incidentLog_of_removed hgone with hnone | hempty
  · cases act_logStep srv st s checkId hkeeps with
    | same hlog => rw [hlog, habsent hnone]
    | removed _ hempty => exact hempty
    | opened _ hdown _ _ => simp [hnone] at hdown
    | resolved _ hstate _ _ => simp [hnone] at hstate
  · exact hempty

/-- A check that is down comes up, is paused or is given back. -/
theorem StateStep.of_down {state : CheckState} {state' : Option CheckState}
    (h : StateStep st s a checkId state state') (hdown : state = .down)
    (hchanged : state' ≠ some .down) :
    state' = none ∨ state' = some .up ∨ state' = some .paused ∨ s.GivesBack checkId a := by
  cases h with
  | same => exact absurd (congrArg some hdown) hchanged
  | resumed => cases hdown
  | removed => exact Or.inl rfl
  | advanced _ _ hd =>
    obtain ⟨_, _, _, hstate, _⟩ := hd
    simp [hdown] at hstate
  | givenBack hgives => exact Or.inr (Or.inr (Or.inr hgives))
  | paused => exact Or.inr (Or.inr (Or.inl rfl))
  | recovered _ => exact Or.inr (Or.inl rfl)
  | failed _ => exact absurd rfl hchanged

end Act

end SilenceWatch
