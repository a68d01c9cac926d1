import SilenceWatch.Pipeline.States

/-!
# The causes of incidents

Why a check went down is not recorded by the transition; when its incident is opened,
the cause is read off the latest heartbeat. An observer of the system remembers what
put each check down, so that the two can be compared.
-/

namespace SilenceWatch

open Relational Transition

section Pings

variable {srv : Server} {st : Settings} {s : Pipeline} {a : Action} {db : Database}
  {checkId : Uuid}

/-- Only the heartbeats of a check decide on its latest one. -/
theorem lastPingKind_congr {db db' : Database}
    (h : db'.pings.rows.filter (fun p => p.checkId = checkId) =
      db.pings.rows.filter fun p => p.checkId = checkId) :
    db'.lastPingKind checkId = db.lastPingKind checkId := by
  unfold Database.lastPingKind select
  rw [h]

/-- A heartbeat that is later than all others of its check is the latest one. -/
theorem lastPingKind_of_latest {p : Ping} (hp : p ∈ db.pings.rows) (hcheck : p.checkId = checkId)
    (hlatest : ∀ q ∈ db.pings.rows, q.checkId = checkId → q = p ∨ q.receivedAt < p.receivedAt) :
    db.lastPingKind checkId = some p.kind := by
  have hfirst := select_one (fun p : Ping => p.checkId = checkId)
    (fun p p' => p'.receivedAt ≤ p.receivedAt) hp hcheck fun q hq hof =>
      (hlatest q hq hof).imp_right not_le_of_gt
  unfold Database.lastPingKind
  rw [hfirst]
  rfl

/-- **What an action does to the latest heartbeat of a check that stays.** -/
theorem act_lastPingKind (srv : Server) (st : Settings) (s : Pipeline) (a : Action)
    (hstays : (act srv st s a).db.stateOf checkId ≠ none) :
    (act srv st s a).db.lastPingKind checkId = s.db.lastPingKind checkId ∧
        s.heartbeat checkId a = none ∨
      ∃ kind, s.heartbeat checkId a = some kind ∧
        ((∀ p ∈ s.db.pings.rows, p.checkId = checkId → p.receivedAt < s.clock) →
          (act srv st s a).db.lastPingKind checkId = some kind) := by
  have hstep := act_cases srv st s a
  generalize act srv st s a = s' at hstep hstays
  cases hstep with
  | @write w =>
    rcases perform_pings srv s.db ⟨s.clock, w⟩ with ⟨hsame, hnot⟩ | ⟨removed, hw, hchecks, hpings⟩ |
      ⟨metadata, command, hw, prev, hprev, hkey, hstate, hpings⟩
    · refine Or.inl ⟨lastPingKind_congr (by rw [hsame]), ?_⟩
      cases w with
      | ingest metadata command =>
        refine if_neg ?_
        rintro ⟨c, hc, _, hrecords⟩
        exact hnot c hc hrecords
      | _ => rfl
    · dsimp only at hw
      subst hw
      refine Or.inl ⟨lastPingKind_congr ?_, rfl⟩
      have hne : removed ≠ checkId := by
        rintro rfl
        refine hstays (Database.stateOf_eq_none_iff.mpr fun c hc => ?_)
        rw [hchecks] at hc
        exact (Table.mem_delete.mp hc).2
      rw [hpings, SerialTable.delete_rows, List.filter_filter]
      refine List.filter_congr fun p _ => ?_
      by_cases hcheck : p.checkId = checkId
      · simp [hcheck, Ne.symm hne]
      · simp [hcheck]
    · dsimp only at hw
      subst hw
      by_cases hid : prev.id = checkId
      · refine Or.inr ⟨command.kind, if_pos ⟨prev, hprev, hid, hkey, hstate⟩, fun hearlier => ?_⟩
        refine lastPingKind_of_latest (p := (ingestParams srv.cron metadata s.clock command).toPing
          prev s.db.pings.next) ?_ hid fun q hq hof => ?_
        · rw [hpings]
          exact SerialTable.mem_insertOrSkip.mpr
            (Or.inr ⟨rfl, fun r hr => s.db.pings.key_ne_next hr⟩)
        · rw [hpings] at hq
          rcases SerialTable.mem_insertOrSkip.mp hq with hold | ⟨rfl, _⟩
          · exact Or.inr (hearlier q hold hof)
          · exact Or.inl rfl
      · refine Or.inl ⟨lastPingKind_congr ?_, if_neg ?_⟩
        · rw [hpings]
          rcases s.db.pings.insertOrSkip_cases
            ((ingestParams srv.cron metadata s.clock command).toPing prev) fun _ => rfl with
            hskipped | ⟨hrows, _⟩
          · rw [hskipped]
          · rw [hrows, List.filter_append]
            simp [IngestParams.toPing, hid]
        · rintro ⟨c, hc, hcid, hckey, _⟩
          have hsame := s.db.checks.eq_of_key_eq Check.pingKey (fun _ _ h => h.2.1) hc hprev
            (hckey.trans hkey.symm)
          exact hid (hsame ▸ hcid)
  | drain _ hstep =>
    have hdb := hstep.redelivers.1
    dsimp only
    rw [hdb]
    exact Or.inl ⟨rfl, rfl⟩
  | _ => exact Or.inl ⟨rfl, rfl⟩

end Pings

/-- What may put a check into the state down. -/
inductive DownEvent where
  | failHeartbeat
  /-- The detection transition past deadline and grace. -/
  | detection
  deriving DecidableEq

/-- What an action is that puts a check down. -/
def Action.downEvent : Action → Option DownEvent
  | .write (.ingest _ command) => if command.kind = .fail then some .failHeartbeat else none
  | .write (.advance _ _) => some .detection
  | .tick _ => some .detection
  | _ => none

/-- The system under an observer, who remembers what put each check down. -/
structure CauseWatch where
  pipeline : Pipeline
  downBy : Uuid → Option DownEvent

/-- One action, observed. -/
def CauseWatch.step (srv : Server) (st : Settings) (w : CauseWatch) (a : Action) : CauseWatch :=
  let s := w.pipeline
  let s' := act srv st s a
  { pipeline := s'
    downBy := fun checkId =>
      if s'.db.stateOf checkId = some .down then
        if s.db.stateOf checkId = some .down then w.downBy checkId else a.downEvent
      else none }

/-- An observer who has seen nothing yet. -/
def CauseWatch.start (s : Pipeline) : CauseWatch := ⟨s, fun _ => none⟩

/-- The action opens no incident of the check but with the cause that it has: reported
if a fail heartbeat put it down, missed if detection did. -/
def CauseWatch.Truthful (srv : Server) (st : Settings) (checkId : Uuid) (w : CauseWatch)
    (a : Action) : Prop :=
  ∀ i ∈ (act srv st w.pipeline a).db.incidents.rows, i.checkId = checkId →
    (∀ old ∈ w.pipeline.db.incidents.rows, old.id ≠ i.id) →
      (i.cause = .reported ↔ w.downBy checkId = some .failHeartbeat) ∧
        (i.cause = .missed ↔ w.downBy checkId = some .detection)
  deriving Decidable

/-- Detection puts the check down only if its latest heartbeat is no fail; every heartbeat
of the check is later than those before, and one that leaves it down before its incident
is opened is a fail exactly if the latest heartbeat was one. -/
def Pipeline.KeepsCause (st : Settings) (checkId : Uuid) (s : Pipeline) (a : Action) : Prop :=
  (∀ c ∈ s.dueChecks st a, c.id = checkId → c.nextState s.clock = .down →
      s.db.lastPingKind checkId ≠ some .fail) ∧
    ∀ kind ∈ s.heartbeat checkId a,
      (∀ p ∈ s.db.pings.rows, p.checkId = checkId → p.receivedAt < s.clock) ∧
        (s.db.stateOf checkId = some .down → s.db.openIncidents checkId = [] → kind ≠ .success →
          (kind = .fail ↔ s.db.lastPingKind checkId = some .fail))
  deriving Decidable

section Opened

variable {srv : Server} {st : Settings} {s : Pipeline} {a : Action} {now : ℤ}
  {t : SerialTable Incident Incident.Distinct Incident.id}
  {candidates : List (Uuid × IncidentCause)}

/-- An incident that is added has the cause its candidate was given. -/
theorem mem_insertIncidents_cause {i : Incident}
    (hi : i ∈ (insertIncidents now t candidates).1.rows) :
    i ∈ t.rows ∨ (i.checkId, i.cause) ∈ candidates := by
  induction candidates generalizing t with
  | nil => exact Or.inl hi
  | cons candidate rest ih =>
    obtain ⟨checkId, cause⟩ := candidate
    simp only [insertIncidents] at hi
    rcases ih hi with hmem | hrest
    · rcases SerialTable.mem_insertOrSkip.mp hmem with hold | ⟨rfl, _⟩
      · exact Or.inl hold
      · exact Or.inr List.mem_cons_self
    · exact Or.inr (List.mem_cons_of_mem _ hrest)

/-- **An incident is opened for a check that is down without one, with the cause that its
latest heartbeat gives.** -/
theorem act_opens_classified {i : Incident} (hi : i ∈ (act srv st s a).db.incidents.rows)
    (hnew : ∀ old ∈ s.db.incidents.rows, old.id ≠ i.id) :
    s.db.stateOf i.checkId = some .down ∧ s.db.openIncidents i.checkId = [] ∧
      i.cause = s.db.classify i.checkId := by
  rcases act_incidents hi with ⟨old, hold, hsame⟩ | hopens
  · exact absurd hsame.id.symm (hnew old hold)
  · cases hopens with
    | @tick locked _ htick _ _ _ _ =>
      rw [act_opening_db srv st htick] at hi
      rcases mem_insertIncidents_cause hi with hold | hcandidate
      · exact absurd rfl (hnew i hold)
      · obtain ⟨c, hc, heq⟩ := List.mem_map.mp hcandidate
        obtain ⟨hid, hcause⟩ := Prod.mk.inj heq
        have hselected : c ∈ s.db.openCandidates st.detectionBatchSize locked := hc
        obtain ⟨hrow, hdown, hnone⟩ := Database.of_mem_openCandidates hselected
        rw [← hid]
        refine ⟨?_, ?_, hcause.symm⟩
        · rw [Database.stateOf_of_mem hrow, hdown]
        · refine List.filter_eq_nil_iff.mpr fun j hj hopen => ?_
          obtain ⟨hjrow, hcheck⟩ := List.mem_filter.mp hj
          exact hnone ⟨j, hjrow, of_decide_eq_true hcheck, of_decide_eq_true hopen⟩

end Opened

section Watch

variable {srv : Server} {st : Settings} {s : Pipeline} {w : CauseWatch} {a : Action}
  {checkId : Uuid}

/-- A success brings the check up. -/
theorem act_stateOf_of_success (h : s.heartbeat checkId a = some .success) :
    (act srv st s a).db.stateOf checkId = some .up := by
  unfold Pipeline.heartbeat at h
  split at h
  · next metadata command =>
    split at h
    · next hrecords =>
      obtain ⟨c, hc, rfl, hkey, hstate⟩ := hrecords
      have hkind : command.kind = .success := Option.some.inj h
      obtain ⟨c', hc', heffect⟩ := perform_effect srv s.db ⟨s.clock, .ingest metadata command⟩ hc
        (by simp)
      have hup : c'.state = .up := by
        cases heffect with
        | kept hnot => exact absurd ⟨hkey, hstate⟩ hnot
        | heartbeat _ _ => simp [IngestParams.write, ingestParams, hkind]
      have hsame := Database.stateOf_of_mem hc'
      rw [heffect.id_eq, hup] at hsame
      exact hsame
    · cases h
  · cases h

/-- A detection transition is known as one. -/
theorem downEvent_of_mem_dueChecks {c : Check} (hc : c ∈ s.dueChecks st a) :
    a.downEvent = some .detection ∧ s.heartbeat checkId a = none := by
  unfold Pipeline.dueChecks at hc
  split at hc
  · exact ⟨rfl, rfl⟩
  · exact ⟨rfl, rfl⟩
  · cases hc

/-- A failure is known as one. -/
theorem downEvent_of_heartbeat (h : s.heartbeat checkId a = some .fail) :
    a.downEvent = some .failHeartbeat := by
  unfold Pipeline.heartbeat at h
  split at h
  · split at h
    · exact if_pos (Option.some.inj h)
    · cases h
  · cases h

/-- What put a check down is known as long as its incident is not opened, and its latest
heartbeat tells it. -/
def CauseWatch.Knows (checkId : Uuid) (w : CauseWatch) : Prop :=
  w.pipeline.db.stateOf checkId = some .down → w.pipeline.db.openIncidents checkId = [] →
    ∃ event, w.downBy checkId = some event ∧
      (event = .failHeartbeat ↔ w.pipeline.db.lastPingKind checkId = some .fail)

/-- What is known of a check that was down before. -/
theorem CauseWatch.Knows.of_down (h : w.Knows checkId)
    (hkeeps : w.pipeline.KeepsCause st checkId a)
    (hdown : w.pipeline.db.stateOf checkId = some .down)
    (hdown' : (act srv st w.pipeline a).db.stateOf checkId = some .down)
    (hnone' : (act srv st w.pipeline a).db.openIncidents checkId = []) :
    ∃ event, w.downBy checkId = some event ∧
      (event = .failHeartbeat ↔
        (act srv st w.pipeline a).db.lastPingKind checkId = some .fail) := by
  have hstays : (act srv st w.pipeline a).db.stateOf checkId ≠ none := by
    rw [hdown']
    exact Option.some_ne_none _
  have hnone : w.pipeline.db.openIncidents checkId = [] := by
    by_contra hopen
    exact act_openIncidents_of_down hdown hstays hopen hnone'
  obtain ⟨event, hevent, hiff⟩ := h hdown hnone
  refine ⟨event, hevent, hiff.trans ?_⟩
  rcases act_lastPingKind srv st w.pipeline a hstays with ⟨hsame, _⟩ | ⟨kind, hkind, hlatest⟩
  · rw [hsame]
  · obtain ⟨hlater, hkept⟩ := hkeeps.2 kind hkind
    have hsuccess : kind ≠ .success := by
      rintro rfl
      have hup : (act srv st w.pipeline a).db.stateOf checkId = some .up :=
        act_stateOf_of_success hkind
      rw [hdown'] at hup
      cases hup
    rw [hlatest hlater, ← hkept hdown hnone hsuccess, Option.some.injEq]

/-- What is known of a check that goes down. -/
theorem knows_of_goes_down (hkeeps : s.KeepsCause st checkId a)
    (hdown : s.db.stateOf checkId ≠ some .down)
    (hdown' : (act srv st s a).db.stateOf checkId = some .down) :
    ∃ event, a.downEvent = some event ∧
      (event = .failHeartbeat ↔ (act srv st s a).db.lastPingKind checkId = some .fail) := by
  have hstays : (act srv st s a).db.stateOf checkId ≠ none := by
    rw [hdown']
    exact Option.some_ne_none _
  have hping := act_lastPingKind srv st s a hstays
  have hstep := act_stateStep srv st s a checkId
  rw [hdown'] at hstep
  generalize hstate : s.db.stateOf checkId = state at hstep hdown
  generalize hstate' : (some CheckState.down) = state' at hstep
  cases hstep with
  | same => exact absurd hstate'.symm hdown
  | @advanced c hc hid _ =>
    obtain ⟨hevent, hsilent⟩ : a.downEvent = some .detection ∧ s.heartbeat checkId a = none :=
      downEvent_of_mem_dueChecks hc
    have hnot := hkeeps.1 c hc hid (Option.some.inj hstate').symm
    refine ⟨.detection, hevent, ?_⟩
    rcases hping with ⟨hsame, _⟩ | ⟨kind, hkind, _⟩
    · rw [hsame]
      simp [hnot]
    · rw [hsilent] at hkind
      cases hkind
  | failed hfail =>
    refine ⟨.failHeartbeat, downEvent_of_heartbeat hfail, ?_⟩
    rcases hping with ⟨_, hsilent⟩ | ⟨kind, hkind, hlatest⟩
    · rw [hsilent] at hfail
      cases hfail
    · obtain rfl := Option.some.inj (hkind.symm.trans hfail)
      rw [hlatest (hkeeps.2 _ hkind).1]
      simp
  | _ => cases hstate'

/-- **What put a check down is known until its incident is opened**, one action. -/
theorem CauseWatch.Knows.step (h : w.Knows checkId)
    (hkeeps : w.pipeline.KeepsCause st checkId a) : (w.step srv st a).Knows checkId := by
  intro hdown' hnone'
  change (act srv st w.pipeline a).db.stateOf checkId = some .down at hdown'
  have hdownBy : (w.step srv st a).downBy checkId =
      if (act srv st w.pipeline a).db.stateOf checkId = some .down then
        if w.pipeline.db.stateOf checkId = some .down then w.downBy checkId else a.downEvent
      else none := rfl
  rw [hdownBy, if_pos hdown']
  by_cases hdown : w.pipeline.db.stateOf checkId = some .down
  · rw [if_pos hdown]
    exact h.of_down hkeeps hdown hdown' hnone'
  · rw [if_neg hdown]
    exact knows_of_goes_down hkeeps hdown hdown'

/-- **An incident is opened with its true cause**, where it is known. -/
theorem CauseWatch.Knows.truthful (h : w.Knows checkId) : w.Truthful srv st checkId a := by
  rintro i hi rfl hnew
  obtain ⟨hdown, hnone, hcause⟩ := act_opens_classified hi hnew
  obtain ⟨event, hevent, hiff⟩ := h hdown hnone
  rw [hcause, hevent, Option.some.injEq, Option.some.injEq]
  unfold Database.classify
  cases event with
  | failHeartbeat => simp [hiff.mp rfl]
  | detection =>
    have hnot : w.pipeline.db.lastPingKind i.checkId ≠ some .fail := by
      intro hfail
      cases hiff.mpr hfail
    simp [hnot]

end Watch

section Claim

variable {s : Pipeline}

/-- **Causes are truthful** for a check in every run in which detection does not put it down
after a fail as its latest heartbeat, and no heartbeat that leaves it down before its
incident is opened speaks against what put it down; its heartbeats are received one after
another. -/
theorem causes_truthful (srv : Server) (st : Settings) (hfresh : s.Fresh) (checkId : Uuid)
    (actions : List Action)
    (hkeeps : Along (CauseWatch.step srv st) (fun w a => w.pipeline.KeepsCause st checkId a)
      (CauseWatch.start s) actions) :
    Along (CauseWatch.step srv st) (fun w a => w.Truthful srv st checkId a) (CauseWatch.start s)
      actions := by
  have hstart : (CauseWatch.start s).Knows checkId := by
    intro hdown
    obtain ⟨c, hc, _⟩ := Database.exists_of_stateOf hdown
    change c ∈ s.db.checks.rows at hc
    rw [hfresh.checks] at hc
    cases hc
  exact along_of_step (fun _ _ hknows ha => hknows.step ha) (fun _ _ hknows _ => hknows.truthful)
    hstart hkeeps

/-- A failure reported under a ping key. -/
def failCommand (pingKey : Uuid) : IngestCommand := { successCommand pingKey with kind := .fail }

/-- A check reports a failure, recovers, and falls silent. -/
def failureAndSilence : List Action :=
  [.write (.create 1 hourlyRequest "backup" 10 20), .elapse 1,
    .write (.ingest ⟨.interval, some 3600, none, "UTC"⟩ (failCommand 20))] ++ sampleTick ++
  [.elapse 1, .write (.ingest ⟨.interval, some 3600, none, "UTC"⟩ (successCommand 20))] ++
  sampleTick ++ [.elapse 3900001] ++ sampleTick

/-- The first incident was reported, the second one missed. -/
theorem causes_truthful_failureAndSilence :
    Along (CauseWatch.step sampleServer defaultSettings)
      (fun w a => w.Truthful sampleServer defaultSettings 10 a) (CauseWatch.start samplePipeline)
      failureAndSilence ∧
    (run (CauseWatch.step sampleServer defaultSettings) (CauseWatch.start samplePipeline)
      failureAndSilence).pipeline.db.incidents.rows.map Incident.cause = [.reported, .missed] :=
  ⟨causes_truthful sampleServer defaultSettings ⟨rfl, rfl, rfl, rfl, by decide, rfl, rfl⟩ 10
    failureAndSilence (by decide), by decide⟩

/-- A check reports a failure, is paused and resumed, and falls silent. -/
def failureBeforePause : List Action :=
  [.write (.create 1 hourlyRequest "backup" 10 20), .elapse 1,
    .write (.ingest ⟨.interval, some 3600, none, "UTC"⟩ (failCommand 20))] ++ sampleTick ++
  [.write (.update 10 (pauseRequest true))] ++ sampleTick ++
  [.write (.update 10 (pauseRequest false)), .elapse 3900001] ++ sampleTick

/-- A check that falls silent after it was resumed is said to have reported the failure
from before its pause. -/
theorem not_causesTruthful_failureBeforePause :
    ¬ ∀ (srv : Server) (st : Settings) (s : Pipeline) (checkId : Uuid) (actions : List Action),
      s.Fresh → Along (CauseWatch.step srv st) (fun w a => w.Truthful srv st checkId a)
        (CauseWatch.start s) actions := by
  intro h
  have hrun := h sampleServer defaultSettings samplePipeline 10 failureBeforePause
    ⟨rfl, rfl, rfl, rfl, by decide, rfl, rfl⟩
  revert hrun
  decide

end Claim

end SilenceWatch
