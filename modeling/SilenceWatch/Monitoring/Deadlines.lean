import SilenceWatch.Monitoring.Writers

/-!
# The deadline of a watched check

The detection loop selects checks by `next_due_at`, so a check that is watched
without one never alarms, and one that is watched under an old one alarms too
early. Both invariants are kept by every write but the resumption by quota, which
sets a check back to `NEW` and leaves its deadline as it finds it.
-/

namespace SilenceWatch

open Relational Transition

/-- The states the detection loop looks for. -/
def Check.Monitored (c : Check) : Prop := c.state = .new ∨ c.state = .up ∨ c.state = .late
  deriving Decidable

/-- Every monitored check has a deadline. -/
def Database.Watched (db : Database) : Prop :=
  ∀ c ∈ db.checks.rows, c.Monitored → c.nextDueAt ≠ none
  deriving Decidable

/-- The checks a write gives back to monitoring on behalf of the quota. -/
def Database.revivedBy (db : Database) : Write → List Check
  | .resume userId room => db.revived userId room
  | _ => []

/-- The schedule a heartbeat is judged by can be evaluated. -/
def Event.Evaluable (srv : Server) (e : Event) : Prop :=
  match e.write with
  | .ingest metadata command =>
    command.kind ≠ .start → (computeNextDueAt srv.cron metadata e.now).isOk = true
  | _ => True

instance (srv : Server) (e : Event) : Decidable (e.Evaluable srv) := by
  unfold Event.Evaluable
  split <;> infer_instance

/-- Every check a write gives back on behalf of the quota has a deadline. -/
def RevivesWithDeadline (db : Database) (e : Event) : Prop :=
  ∀ c ∈ db.revivedBy e.write, c.nextDueAt ≠ none
  deriving Decidable

/-- A deadline that can be computed is the one a heartbeat binds. -/
theorem ingestDeadline_ne_none {cron : CronParser} {metadata : Schedule} {kind : PingKind}
    {receivedAt : ℤ} (hkind : kind ≠ .start)
    (h : (computeNextDueAt cron metadata receivedAt).isOk = true) :
    ingestDeadline cron metadata kind receivedAt ≠ none := by
  unfold ingestDeadline
  rw [if_neg hkind]
  cases hdue : computeNextDueAt cron metadata receivedAt with
  | error e => simp [hdue, Except.isOk, Except.toBool] at h
  | ok due => simp [Except.toOption]

/-- The write is a success or a failure of this check that is recorded. -/
def Write.Beats (c : Check) : Write → Prop
  | .ingest _ command =>
    command.kind ≠ .start ∧ c.pingKey = command.pingKey ∧ c.state ≠ .paused
  | _ => False

instance (c : Check) (w : Write) : Decidable (w.Beats c) := by
  unfold Write.Beats
  split <;> infer_instance

/-- What a write does to the deadline of a row: it keeps it with the schedule, counts
it anew from now, pauses the check, or gives a paused check back as it finds it. -/
inductive DeadlineStep (srv : Server) (db : Database) (now : ℤ) (w : Write) (c c' : Check) :
    Prop
  | kept : c'.toSchedule = c.toSchedule → c'.nextDueAt = c.nextDueAt → ¬ w.Beats c →
      (c'.Monitored → c.Monitored) → (c.state = .paused → c'.state = .paused) →
      DeadlineStep srv db now w c c'
  | recomputed {due : ℤ} : computeNextDueAt srv.cron c'.toSchedule now = .ok due →
      c'.nextDueAt = some due → DeadlineStep srv db now w c c'
  | reported {metadata : Schedule} {command : IngestCommand} : w = .ingest metadata command →
      c.pingKey = command.pingKey → command.kind ≠ .start → c'.toSchedule = c.toSchedule →
      c'.nextDueAt = ingestDeadline srv.cron metadata command.kind now →
      DeadlineStep srv db now w c c'
  | paused : c'.state = .paused → DeadlineStep srv db now w c c'
  | givenBack : c ∈ db.revivedBy w → c' = c.quotaResume → DeadlineStep srv db now w c c'

/-- A write that records no heartbeat of a check is no report of it. -/
theorem Write.not_beats {w : Write} {c : Check} (h : ¬ w.Records c) : ¬ w.Beats c := by
  intro hbeats
  cases w with
  | ingest metadata command => exact h hbeats.2
  | _ => exact hbeats

/-- A rewrite that keeps the schedule, the deadline and the state. -/
theorem DeadlineStep.of_same {srv : Server} {db : Database} {now : ℤ} {w : Write} {c c' : Check}
    (hschedule : c'.toSchedule = c.toSchedule) (hdue : c'.nextDueAt = c.nextDueAt)
    (hstate : c'.state = c.state) (hbeats : ¬ w.Beats c) : DeadlineStep srv db now w c c' := by
  refine DeadlineStep.kept hschedule hdue hbeats ?_ ?_
  · unfold Check.Monitored
    rw [hstate]
    exact fun h => h
  · rw [hstate]
    exact fun h => h

/-- An update pauses, counts the deadline anew, or leaves both as they are. -/
theorem updateData_deadlineStep {srv : Server} {db : Database} {now : ℤ} {checkId : Uuid}
    {input : UpdateCheckRequest} {data : CheckUpdateInput} {c : Check}
    (h : updateData srv.cron now input c = .ok data) :
    DeadlineStep srv db now (.update checkId input) c (data.apply c) := by
  have hschedule : (data.apply c).toSchedule = data.schedule.getD c.toSchedule := rfl
  have hnext : (data.apply c).nextDueAt = data.nextDueAt.or c.nextDueAt := rfl
  have hstate : (data.apply c).state = data.state.getD c.state := rfl
  obtain ⟨hdue, hresume⟩ := updateData_cases h
  rcases hdue with ⟨hnoEdit, hnoDue⟩ | ⟨due, hsome, hcompute⟩
  · rw [hnoEdit, Option.getD_none] at hschedule
    rw [hnoDue, Option.none_or] at hnext
    rcases hresume with ⟨hnone, _⟩ | ⟨hpaused, _⟩ | ⟨_, _, _, hmoved⟩
    · rw [hnone, Option.getD_none] at hstate
      exact DeadlineStep.of_same hschedule hnext hstate fun hbeats => hbeats
    · rw [hpaused, Option.getD_some] at hstate
      exact DeadlineStep.paused hstate
    · exact absurd hnoDue hmoved
  · rw [hsome, Option.some_or] at hnext
    refine DeadlineStep.recomputed ?_ hnext
    rwa [hschedule]

/-- A heartbeat starts a run and leaves the deadline alone, or is a report. -/
theorem IngestParams.write_deadlineStep {srv : Server} {db : Database} {now : ℤ}
    {metadata : Schedule} {command : IngestCommand} {c : Check}
    (hkey : c.pingKey = command.pingKey) :
    DeadlineStep srv db now (.ingest metadata command) c
      ((ingestParams srv.cron metadata now command).write c c) := by
  by_cases hkind : command.kind = .start
  · refine DeadlineStep.of_same rfl ?_ ?_ fun hbeats => hbeats.1 hkind
    · simp [IngestParams.write, ingestParams, hkind]
    · simp [IngestParams.write, ingestParams, hkind]
  · refine DeadlineStep.reported rfl hkey hkind rfl ?_
    simp [IngestParams.write, ingestParams, hkind]

/-- A check that is due is monitored. -/
theorem Check.Due.monitored {now : ℤ} {c : Check} (h : c.Due now) : c.Monitored := by
  obtain ⟨_, _, _, hup | hnew | hlate, _⟩ := h
  · exact Or.inr (Or.inl hup)
  · exact Or.inl hnew
  · exact Or.inr (Or.inr hlate)

/-- A monitored check is not paused. -/
theorem Check.Monitored.ne_paused {c : Check} (h : c.Monitored) : c.state ≠ .paused := by
  intro hpaused
  simp [Check.Monitored, hpaused] at h

/-- Every write, as far as deadlines are concerned. -/
theorem Effect.deadlineStep {srv : Server} {db : Database} {now : ℤ} {w : Write}
    {c c' : Check} (h : Effect srv db now w c c') : DeadlineStep srv db now w c c' := by
  cases h with
  | kept hrecords => exact DeadlineStep.of_same rfl rfl rfl (Write.not_beats hrecords)
  | updated _ hdata => exact updateData_deadlineStep hdata
  | resynced hsync =>
    rcases hsync.deadline with ⟨hschedule, hdue⟩ | ⟨due, hcompute, hdue⟩
    · exact DeadlineStep.of_same hschedule hdue hsync.state fun hbeats => hbeats
    · exact DeadlineStep.recomputed hcompute hdue
  | rekeyed => exact DeadlineStep.of_same rfl rfl rfl fun hbeats => hbeats
  | heartbeat hkey _ => exact IngestParams.write_deadlineStep hkey
  | quotaPaused _ => exact DeadlineStep.paused rfl
  | quotaResumed _ hrevived => exact DeadlineStep.givenBack hrevived rfl
  | advanced hdue =>
    refine DeadlineStep.kept rfl rfl (fun hbeats => hbeats) (fun _ => hdue.monitored) ?_
    intro hpaused
    exact absurd hpaused hdue.monitored.ne_paused

/-- A write leaves a monitored check with a deadline, if it gives back none without. -/
theorem DeadlineStep.watched {srv : Server} {db : Database} {e : Event} {c c' : Check}
    (h : DeadlineStep srv db e.now e.write c c') (heval : e.Evaluable srv)
    (hquota : RevivesWithDeadline db e) (hc : c.Monitored → c.nextDueAt ≠ none)
    (hmonitored : c'.Monitored) : c'.nextDueAt ≠ none := by
  cases h with
  | kept _ hdue _ hbefore _ =>
    rw [hdue]
    exact hc (hbefore hmonitored)
  | recomputed _ hdue => simp [hdue]
  | reported hwrite _ hkind _ hdue =>
    rw [hdue]
    unfold Event.Evaluable at heval
    rw [hwrite] at heval
    exact ingestDeadline_ne_none hkind (heval hkind)
  | paused hstate => simp [Check.Monitored, hstate] at hmonitored
  | givenBack hrevived heq =>
    rw [heq]
    exact hquota c hrevived

/-- A row that quota gives back is watched, with the deadline it had before. -/
theorem Database.quotaResume_mem {srv : Server} {db : Database} {e : Event} {c : Check}
    (hc : c ∈ db.revivedBy e.write) : c.quotaResume ∈ (perform srv db e).checks.rows := by
  obtain ⟨now, write⟩ := e
  cases write with
  | resume userId room =>
    have hrevived : c ∈ db.revived userId room := hc
    have hroom : ¬ room ≤ 0 := by
      intro hle
      have hlength := length_select_le
        (fun c : Check => db.Owns userId c.projectId ∧ c.pausedReason = some .quota)
        Check.OldestFirst room.toNat db.checks.rows
      have hpos : 0 < (db.revived userId room).length := List.length_pos_of_mem hrevived
      unfold Database.revived at hpos
      omega
    simp only [perform, resume, if_neg hroom, Table.update_rows, mem_map_updateRow]
    refine ⟨c, (mem_of_mem_select _ _ hrevived).1, Or.inl ⟨?_, rfl⟩⟩
    exact List.mem_map_of_mem hrevived
  | _ => simp [Database.revivedBy] at hc

/-- One write keeps every monitored check under a deadline exactly if the checks it
gives back on behalf of the quota have one. -/
theorem watched_perform_iff {srv : Server} {db : Database} {e : Event} (hdb : db.Watched)
    (heval : e.Evaluable srv) : (perform srv db e).Watched ↔ RevivesWithDeadline db e := by
  constructor
  · intro hafter c hc
    have hmem : c.quotaResume ∈ (perform srv db e).checks.rows := Database.quotaResume_mem hc
    have hdue : c.quotaResume.nextDueAt ≠ none := hafter _ hmem (Or.inl rfl)
    exact hdue
  · intro hquota c' hc'
    rcases perform_cases srv db e hc' with ⟨c, hc, heffect⟩ | ⟨hcreated, _⟩
    · exact heffect.deadlineStep.watched heval hquota (hdb c hc)
    · intro _
      obtain ⟨due, _, hdue⟩ := hcreated.deadline
      simp [hdue]

/-- **No check silently leaves monitoring, exactly if no resumption by quota takes it
out.** In a run that starts without checks and whose schedules can be evaluated,
every monitored check of every state reached has a deadline, if and only if every
check that quota gives back has one when it is given back. -/
theorem watched_iff_revivesWithDeadline (srv : Server) (db : Database) (es : List Event)
    (hstart : db.checks.rows = [])
    (heval : Along (perform srv) (fun _ e => e.Evaluable srv) db es) :
    Throughout (perform srv) Database.Watched db es ↔
      Along (perform srv) RevivesWithDeadline db es := by
  have hwatched : db.Watched := by
    intro c hc
    simp [hstart] at hc
  exact throughout_iff_along (fun _ _ hdb heval => watched_perform_iff hdb heval) hwatched heval

/-- Two checks are created, the account moves to a plan of one and back: the newer
check is paused by quota and given back by quota. -/
def quotaRoundTrip : List Event :=
  [⟨0, .create 1 hourlyRequest "backup" 10 20⟩,
    ⟨0, .create 1 hourlyRequest "report" 11 21⟩,
    ⟨1000, .setPlan 1 (some "free")⟩,
    ⟨2000, .pauseExcess 1 1⟩,
    ⟨3000, .setPlan 1 none⟩,
    ⟨4000, .resume 1 maxSafeInteger⟩]

/-- Paused and resumed by a person instead, the check stays under a deadline. -/
theorem watched_iff_revivesWithDeadline_manual :
    Throughout (perform sampleServer) Database.Watched sampleDatabase
      [⟨0, .create 1 hourlyRequest "backup" 10 20⟩, ⟨1000, .update 10 (pauseRequest true)⟩,
        ⟨2000, .resume 1 maxSafeInteger⟩, ⟨3000, .update 10 (pauseRequest false)⟩] :=
  (watched_iff_revivesWithDeadline sampleServer sampleDatabase _ rfl (by decide)).mpr (by decide)

/-- Paused and resumed by quota, a check is left `NEW` without a deadline. -/
theorem not_watched_quotaRoundTrip :
    ¬ ∀ (srv : Server) (db : Database) (es : List Event), db.checks.rows = [] →
      Along (perform srv) (fun _ e => e.Evaluable srv) db es →
      Throughout (perform srv) Database.Watched db es := by
  intro h
  have hrun := h sampleServer sampleDatabase quotaRoundTrip rfl (by decide)
  revert hrun
  decide

/-- A run with the clock, and for each check the instant its time to report was last
counted from. -/
structure Observed where
  db : Database
  clock : ℤ
  restartedAt : Uuid → ℤ

/-- The time to report of the row `c'` counts from the write that left it: its
creation, its resumption, a change of its schedule or a heartbeat. -/
def Database.Restarts (db : Database) (w : Write) (c' : Check) : Prop :=
  ∀ c ∈ db.checks.rows, c.id = c'.id →
    (c.state = .paused ∧ c'.state ≠ .paused) ∨ c.toSchedule ≠ c'.toSchedule ∨ w.Beats c
  deriving Decidable

/-- One event, observed. -/
def observe (srv : Server) (s : Observed) (e : Event) : Observed where
  db := perform srv s.db e
  clock := e.now
  restartedAt := fun id =>
    if ∃ c' ∈ (perform srv s.db e).checks.rows, c'.id = id ∧ s.db.Restarts e.write c' then e.now
    else s.restartedAt id

/-- A heartbeat is judged by the schedule its check has. -/
def Write.Current (db : Database) : Write → Prop
  | .ingest metadata command =>
    ∀ c ∈ db.checks.rows, c.pingKey = command.pingKey → metadata = c.toSchedule
  | _ => True

instance (db : Database) (w : Write) : Decidable (w.Current db) := by
  unfold Write.Current
  split <;> infer_instance

/-- The clock does not go back, and heartbeats come with current metadata. -/
def Observed.Admits (s : Observed) (e : Event) : Prop := s.clock ≤ e.now ∧ e.write.Current s.db
  deriving Decidable

/-- Every paused interval check that a write gives back on behalf of the quota has no
deadline, or one that leaves it a whole period. -/
def Observed.RevivesInTime (s : Observed) (e : Event) : Prop :=
  ∀ c ∈ s.db.revivedBy e.write, c.state = .paused → c.scheduleType = .interval →
    ∀ period ∈ c.periodSeconds, ∀ due ∈ c.nextDueAt, e.now + period * 1000 ≤ due
  deriving Decidable

/-- The transitions of a detection tick. -/
def Database.transitions (db : Database) (e : Event) : List TransitionRow :=
  match e.write with
  | .advance limit locked => (advanceSql e.now limit locked db).2
  | _ => []

/-- An interval check moves to `DOWN` only when a whole period and the grace have
passed since its time to report was last counted from. -/
def Observed.NoFalseAlarm (s : Observed) (e : Event) : Prop :=
  ∀ t ∈ s.db.transitions e, t.newState = .down →
    ∀ c ∈ s.db.checks.rows, c.id = t.id → c.scheduleType = .interval →
      ∀ period ∈ c.periodSeconds,
        s.restartedAt c.id + (period + c.graceSeconds) * 1000 ≤ e.now
  deriving Decidable

/-- The deadlines of the checks that are not paused leave each its period. -/
structure Observed.Timely (s : Observed) : Prop where
  past : ∀ c ∈ s.db.checks.rows, s.restartedAt c.id ≤ s.clock
  deadline : ∀ c ∈ s.db.checks.rows, c.state ≠ .paused → c.scheduleType = .interval →
    ∀ period ∈ c.periodSeconds, ∀ due ∈ c.nextDueAt, s.restartedAt c.id + period * 1000 ≤ due

/-- After a write the time to report of its rows counts from now, or from where it
counted from before if the write does not restart it. -/
theorem observe_restartedAt {srv : Server} {s : Observed} {e : Event} {c' : Check}
    (hc' : c' ∈ (perform srv s.db e).checks.rows) :
    (observe srv s e).restartedAt c'.id =
      if s.db.Restarts e.write c' then e.now else s.restartedAt c'.id := by
  have hiff : (∃ d ∈ (perform srv s.db e).checks.rows,
      d.id = c'.id ∧ s.db.Restarts e.write d) ↔ s.db.Restarts e.write c' := by
    constructor
    · rintro ⟨d, hd, hid, hrestarts⟩
      rwa [← (perform srv s.db e).eq_of_check_id hd hc' hid]
    · exact fun hrestarts => ⟨c', hc', rfl, hrestarts⟩
  simp only [observe, hiff]

/-- The time to report never counts from the future. -/
theorem Observed.Timely.restartedAt_le {srv : Server} {s : Observed} {e : Event} (hs : s.Timely)
    (hclock : s.clock ≤ e.now) {c' : Check} (hc' : c' ∈ (perform srv s.db e).checks.rows) :
    (observe srv s e).restartedAt c'.id ≤ e.now := by
  rw [observe_restartedAt hc']
  split
  · exact le_rfl
  · next hkept =>
    unfold Database.Restarts at hkept
    push Not at hkept
    obtain ⟨c, hc, hid, _⟩ := hkept
    have hpast : s.restartedAt c.id ≤ s.clock := hs.past c hc
    rw [← hid]
    omega

/-- A row under its old deadline still has its period, unless the write restarts it. -/
theorem Observed.Timely.of_kept {srv : Server} {s : Observed} {e : Event} (hs : s.Timely)
    {c c' : Check} (hc : c ∈ s.db.checks.rows) (hc' : c' ∈ (perform srv s.db e).checks.rows)
    (hid : c'.id = c.id) (hschedule : c'.toSchedule = c.toSchedule)
    (hdue : c'.nextDueAt = c.nextDueAt) (hbeats : ¬ e.write.Beats c) (hstate : c.state ≠ .paused)
    (htype : c'.scheduleType = .interval) :
    ∀ period ∈ c'.periodSeconds, ∀ due ∈ c'.nextDueAt,
      (SilenceWatch.observe srv s e).restartedAt c'.id + period * 1000 ≤ due := by
  have hkept : ¬ s.db.Restarts e.write c' := by
    intro hrestarts
    rcases hrestarts c hc hid.symm with ⟨hpaused, _⟩ | hchanged | hreport
    · exact hstate hpaused
    · exact hchanged hschedule.symm
    · exact hbeats hreport
  rw [observe_restartedAt hc', if_neg hkept, hid, hdue]
  have hperiods : c'.periodSeconds = c.periodSeconds := congrArg Schedule.periodSeconds hschedule
  have htypes : c'.scheduleType = c.scheduleType := congrArg Schedule.scheduleType hschedule
  rw [hperiods]
  exact hs.deadline c hc hstate (htypes ▸ htype)

/-- One write leaves every check that is not paused its period, if it gives back the
paused ones with theirs. -/
theorem Observed.Timely.observe {srv : Server} {s : Observed} {e : Event} (hs : s.Timely)
    (hadmits : s.Admits e) (hquota : s.RevivesInTime e) : (observe srv s e).Timely := by
  obtain ⟨hclock, hcurrent⟩ := hadmits
  refine ⟨fun c' hc' => hs.restartedAt_le hclock hc', ?_⟩
  intro c' hc' hstate htype period hperiod due hdue
  have hnow : (SilenceWatch.observe srv s e).restartedAt c'.id ≤ e.now :=
    hs.restartedAt_le hclock hc'
  have hfresh (hcompute : computeNextDueAt srv.cron c'.toSchedule e.now = .ok due) :
      (SilenceWatch.observe srv s e).restartedAt c'.id + period * 1000 ≤ due := by
    obtain ⟨period', hperiod', hdue'⟩ := computeNextDueAt_interval htype hcompute
    have hsame : period' = period := Option.mem_unique hperiod' hperiod
    rw [hsame] at hdue'
    omega
  rcases perform_cases srv s.db e hc' with ⟨c, hc, heffect⟩ | ⟨hcreated, _⟩
  · have hid : c'.id = c.id := heffect.id_eq
    cases heffect.deadlineStep with
    | kept hschedule hkept hbeats _ hpaused =>
      have hbefore : c.state ≠ .paused := fun h => hstate (hpaused h)
      exact hs.of_kept hc hc' hid hschedule hkept hbeats hbefore htype period hperiod due hdue
    | recomputed hcompute hnew =>
      have hsame := Option.mem_unique hnew hdue
      exact hfresh (hsame ▸ hcompute)
    | @reported metadata command hwrite hkey hkind hschedule hnew =>
      have hmetadata : metadata = c.toSchedule := by
        rw [hwrite] at hcurrent
        exact hcurrent c hc hkey
      rw [hmetadata, ← hschedule] at hnew
      apply hfresh
      rw [hnew] at hdue
      unfold ingestDeadline at hdue
      rw [if_neg hkind] at hdue
      cases hcompute : computeNextDueAt srv.cron c'.toSchedule e.now with
      | error _ => simp [hcompute, Except.toOption] at hdue
      | ok _ => simpa [hcompute, Except.toOption] using hdue
    | paused hpaused => exact absurd hpaused hstate
    | givenBack hrevived heq =>
      subst heq
      by_cases hpaused : c.state = .paused
      · have hwhole : e.now + period * 1000 ≤ due :=
          hquota c hrevived hpaused htype period hperiod due hdue
        omega
      · have hbeats : ¬ e.write.Beats c := by
          intro hreport
          cases hwrite : e.write with
          | ingest metadata command => simp [hwrite, Database.revivedBy] at hrevived
          | _ => simp [hwrite, Write.Beats] at hreport
        exact hs.of_kept hc hc' hid rfl rfl hbeats hpaused htype period hperiod due hdue
  · obtain ⟨due', hcompute, hdue'⟩ := hcreated.deadline
    have hsame : due' = due := Option.mem_unique hdue' hdue
    exact hfresh (hsame ▸ hcompute)

/-- A tick that finds timely deadlines raises no false alarm. -/
theorem Observed.Timely.noFalseAlarm {s : Observed} {e : Event} (hs : s.Timely) :
    s.NoFalseAlarm e := by
  intro t ht hdown c hc hid htype period hperiod
  obtain ⟨now, write⟩ := e
  cases write with
  | advance limit locked =>
    simp only [Database.transitions, advanceSql, advanceBatch, List.mem_map, List.mem_filter] at ht
    obtain ⟨d, ⟨hd, _⟩, rfl⟩ := ht
    obtain ⟨hmem, hdue, _⟩ := mem_of_mem_select _ _ hd
    have hsame : c = d := s.db.eq_of_check_id hc hmem hid
    subst hsame
    have hgrace : ∃ dueAt ∈ c.nextDueAt, c.graceEnd dueAt ≤ now := by
      by_contra hnot
      simp only [Check.nextState, if_neg hnot] at hdown
      cases hdown
    obtain ⟨dueAt, hdueAt, hend⟩ := hgrace
    have hwhole : s.restartedAt c.id + period * 1000 ≤ dueAt :=
      hs.deadline c hc hdue.monitored.ne_paused htype period hperiod dueAt hdueAt
    unfold Check.graceEnd at hend
    dsimp only
    omega
  | _ => simp [Database.transitions] at ht

/-- **No false alarm, as long as quota gives paused checks back with a whole period.**
In a run that starts without checks, under a clock that does not go back and with
heartbeats judged by current metadata, an interval check moves to `DOWN` only when
its period and grace have passed since its creation, its last resumption, its last
report and its last change of schedule. -/
theorem no_false_alarm (srv : Server) (s : Observed) (es : List Event)
    (hstart : s.db.checks.rows = []) (hadmits : Along (observe srv) Observed.Admits s es)
    (hquota : Along (observe srv) Observed.RevivesInTime s es) :
    Along (observe srv) Observed.NoFalseAlarm s es := by
  have htimely : s.Timely := by
    constructor
    · simp [hstart]
    · simp [hstart]
  exact along_of_step (fun _ _ hs h => hs.observe h.1 h.2) (fun _ _ hs _ => hs.noFalseAlarm)
    htimely (hadmits.and hquota)

/-- The sample account at the start of a run. -/
def sampleObserved : Observed := ⟨sampleDatabase, 0, fun _ => 0⟩

/-- A check that stops reporting is given its hour and its five minutes. -/
theorem no_false_alarm_missed :
    Along (observe sampleServer) Observed.NoFalseAlarm sampleObserved
      [⟨0, .create 1 hourlyRequest "backup" 10 20⟩,
        ⟨1000, .ingest ⟨.interval, some 3600, none, "UTC"⟩ (successCommand 20)⟩,
        ⟨3901000, .advance 100 fun _ => false⟩] :=
  no_false_alarm sampleServer sampleObserved _ rfl (by decide) (by decide)

/-- The newer check is edited while quota keeps it paused. -/
def editedWhilePaused : List Event :=
  [⟨0, .create 1 hourlyRequest "backup" 10 20⟩,
    ⟨0, .create 1 hourlyRequest "report" 11 21⟩,
    ⟨1000, .setPlan 1 (some "free")⟩,
    ⟨2000, .pauseExcess 1 1⟩,
    ⟨3000, .update 11 everyMinute⟩,
    ⟨1000000, .setPlan 1 none⟩,
    ⟨1000000, .resume 1 maxSafeInteger⟩,
    ⟨1001000, .advance 100 fun _ => false⟩]

/-- A check edited while quota keeps it paused is down one second after quota gives it
back, a minute before it was expected to report. -/
theorem false_alarm_editedWhilePaused :
    ¬ ∀ (srv : Server) (s : Observed) (es : List Event), s.db.checks.rows = [] →
      Along (observe srv) Observed.Admits s es →
      Along (observe srv) Observed.NoFalseAlarm s es := by
  intro h
  have hrun := h sampleServer sampleObserved editedWhilePaused rfl (by decide)
  revert hrun
  decide

end SilenceWatch
