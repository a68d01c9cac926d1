import Mathlib.Data.List.Chain
import SilenceWatch.Checks.Service
import SilenceWatch.Ingest.Service
import SilenceWatch.Library.ReadCommitted
import SilenceWatch.Quotas.Enforcer

/-!
# Heartbeats that race

The first part of `INGEST_SQL` reads the snapshot of the statement, and holds the guard
against paused checks. Its `UPDATE` waits for the row and writes over the newest
version, where nothing but the id is compared again.
-/

namespace SilenceWatch

open Relational Transition

/-- A committed update that pauses a check: of a person, whose request may write other
columns too, or of the plan. -/
inductive PauseWrite where
  | person (data : CheckUpdateInput) (pauses : data.state = some .paused)
  | quota

/-- The row a pause leaves. -/
def PauseWrite.apply : PauseWrite → Check → Check
  | .person data _, c => data.apply c
  | .quota, c => c.quotaPause

/-- A pause pauses. -/
theorem PauseWrite.apply_state (w : PauseWrite) (c : Check) : (w.apply c).state = .paused := by
  cases w with
  | person data pauses => simp [PauseWrite.apply, CheckUpdateInput.apply, pauses]
  | quota => rfl

/-- What `update` writes for a request to pause is a pause. -/
theorem updateData_pauses {cron : CronParser} {now : ℤ} {input : UpdateCheckRequest}
    {existing : Check} {data : CheckUpdateInput} (hpaused : input.paused = some true)
    (h : updateData cron now input existing = .ok data) : data.state = some .paused := by
  obtain ⟨_, ⟨_, hnot⟩ | ⟨hstate, _⟩ | ⟨_, _, hresumes, _⟩⟩ := updateData_cases h
  · exact absurd hpaused hnot
  · exact hstate
  · rw [hpaused] at hresumes
    cases hresumes

/-- A check with the heartbeats under way that have read it. -/
abbrev RacingCheck := ReadCommitted.State Check IngestParams

/-- A heartbeat reads the check or writes it, or the check is paused. -/
abbrev RaceEvent := ReadCommitted.Event Check IngestParams PauseWrite

/-- One event of a race. -/
abbrev race : RacingCheck → RaceEvent → RacingCheck :=
  ReadCommitted.step IngestParams.Finds IngestParams.write PauseWrite.apply

/-- The heartbeats that are recorded in a race, in the order of their commits. -/
abbrev recorded : RacingCheck → List RaceEvent → List IngestParams :=
  ReadCommitted.committed IngestParams.Finds IngestParams.write PauseWrite.apply

/-- Run alone, the statement does to every check what `ingestSql` does. -/
theorem ingestSql_checks (p : IngestParams) (db : Database) :
    (ingestSql p db).1.checks.rows =
      db.checks.rows.map fun c => (run race ⟨c, []⟩ [.start p, .commit p c]).newest := by
  have halone (c : Check) : (run race ⟨c, []⟩ [.start p, .commit p c]).newest =
      updateRow p.Finds (fun c => p.write c c) c := by
    have hrun := ReadCommitted.run_alone IngestParams.Finds IngestParams.write PauseWrite.apply p c
    rw [hrun]
    rfl
  simp only [halone]
  unfold ingestSql
  cases hfind : db.checks.rows.find? p.Finds with
  | some prev => rfl
  | none =>
    have hnone : ∀ c ∈ db.checks.rows, updateRow p.Finds (fun c => p.write c c) c = c := by
      intro c hc
      have hnot := List.find?_eq_none.mp hfind c hc
      exact if_neg fun hfinds => hnot (decide_eq_true hfinds)
    exact (List.map_congr_left hnone).trans (List.map_id _) |>.symm

section Pause

variable {s : RacingCheck} {e : RaceEvent} {es : List RaceEvent}

/-- Only starts are still to write, over a paused check. -/
structure PauseHolds (s : RacingCheck) : Prop where
  paused : s.newest.state = .paused
  starts : ∀ stmt ∈ s.underWay, stmt.1.kind = .start

/-- A heartbeat that is no start is still to write, or the check is not paused. -/
def PauseFails (s : RacingCheck) : Prop :=
  (∃ stmt ∈ s.underWay, stmt.1.kind ≠ .start) ∨ s.newest.state ≠ .paused

/-- What a start leaves of the state: all of it. What anything else leaves is no pause. -/
theorem IngestParams.write_state_eq_paused {p : IngestParams} {prev c : Check} :
    (p.write prev c).state = .paused ↔ p.kind = .start ∧ c.state = .paused := by
  unfold IngestParams.write
  cases hkind : p.kind with
  | start => simp
  | success => simp
  | fail => simp

/-- A pause that nothing is about to undo lasts. -/
theorem PauseHolds.race (h : PauseHolds s) (he : e.NoUpdate) : PauseHolds (race s e) := by
  constructor
  · rcases ReadCommitted.step_cases IngestParams.Finds IngestParams.write PauseWrite.apply s he []
      with ⟨hnewest, _⟩ | ⟨p, prev, _, hmem, hnewest, _⟩
    · rw [hnewest]
      exact h.paused
    · rw [hnewest]
      exact IngestParams.write_state_eq_paused.mpr ⟨h.starts _ hmem, h.paused⟩
  · rintro ⟨p, prev⟩ hmem
    rcases ReadCommitted.underWay_step hmem with hbefore | ⟨_, _, hfinds⟩
    · exact h.starts _ hbefore
    · exact absurd h.paused hfinds.2

/-- A pause that something is about to undo, or has undone, is not made good for. -/
theorem PauseFails.race (h : PauseFails s) (he : e.NoUpdate) : PauseFails (race s e) := by
  rcases h with ⟨⟨p, prev⟩, hmem, hkind⟩ | hstate
  · rcases ReadCommitted.mem_underWay_step IngestParams.Finds IngestParams.write
      PauseWrite.apply e hmem with hafter | rfl
    · exact Or.inl ⟨(p, prev), hafter, hkind⟩
    · right
      have hnewest : (SilenceWatch.race s (.commit p prev)).newest = p.write prev s.newest := by
        simp [ReadCommitted.step, hmem]
      rw [hnewest]
      exact fun hpaused => hkind (IngestParams.write_state_eq_paused.mp hpaused).1
  · right
    rcases ReadCommitted.step_cases IngestParams.Finds IngestParams.write PauseWrite.apply s he []
      with ⟨hnewest, _⟩ | ⟨p, prev, _, _, hnewest, _⟩
    · rw [hnewest]
      exact hstate
    · rw [hnewest]
      exact fun hpaused => hstate (IngestParams.write_state_eq_paused.mp hpaused).2

/-- **A pause wins over racing heartbeats, exactly if none of them is still to write.** In
any run in which all heartbeats commit, the check is paused at the end if and only if
every heartbeat that was under way when the last pause committed is a start. -/
theorem paused_after_all_iff (s : RacingCheck) (before after : List RaceEvent) (w : PauseWrite)
    (hlast : ∀ e ∈ after, e.NoUpdate)
    (hdone : (run race s (before ++ .update w :: after)).underWay = []) :
    (run race s (before ++ .update w :: after)).newest.state = .paused ↔
      ∀ stmt ∈ (run race s before).underWay, stmt.1.kind = .start := by
  rw [run_append, run_cons] at hdone ⊢
  generalize run race s before = reached at hdone ⊢
  constructor
  · intro hpaused
    by_contra hnot
    push Not at hnot
    have hfails : PauseFails (race reached (.update w)) := Or.inl hnot
    have hend := run_of_step (I := PauseFails) (P := fun _ (e : RaceEvent) => e.NoUpdate)
      (fun _ _ h he => h.race he) hfails (along_of_forall hlast)
    rcases hend with ⟨stmt, hmem, _⟩ | hstate
    · rw [hdone] at hmem
      cases hmem
    · exact hstate hpaused
  · intro hstarts
    have hholds : PauseHolds (race reached (.update w)) := ⟨w.apply_state _, hstarts⟩
    exact (run_of_step (I := PauseHolds) (P := fun _ (e : RaceEvent) => e.NoUpdate)
      (fun _ _ h he => h.race he) hholds (along_of_forall hlast)).paused

end Pause

section Sample

/-- An hourly check that is up. -/
def hourlyCheck : Check where
  scheduleType := .interval
  periodSeconds := some 3600
  cronExpression := none
  timezone := "UTC"
  id := 10
  projectId := 1
  name := "backup"
  slug := "backup"
  key := none
  pingKey := 20
  graceSeconds := 300
  state := .up
  pausedReason := none
  lastPingAt := some 0
  lastStartedAt := none
  lastDurationMs := none
  nextDueAt := some 3600000
  source := .manual
  environment := none
  tags := []
  orphanedAt := none
  createdAt := 0

/-- What `ingest` binds for a heartbeat of the check. -/
def heartbeat (kind : PingKind) (receivedAt : ℤ) : IngestParams :=
  ingestParams (fun _ _ _ => .error "no cron evaluator") hourlyCheck.toSchedule receivedAt
    ⟨20, kind, none, none, none, none, none⟩

end Sample

/-- A heartbeat that `ingestSql` has written before the check is paused does not undo the pause. -/
theorem paused_after_all_iff_sample :
    ((ingestSql (heartbeat .success 1000) (databaseOf hourlyCheck)).1.checks.rows.map fun c =>
      (PauseWrite.quota.apply c).state) = [.paused] := by
  have hpaused := (paused_after_all_iff ⟨hourlyCheck, []⟩ [.start (heartbeat .success 1000),
    .commit (heartbeat .success 1000) hourlyCheck] [] .quota (by decide) (by decide)).mpr (by decide)
  rw [ingestSql_checks]
  exact congrArg (fun state => [state]) hpaused

/-- Somebody asks to pause the check. -/
def requestedPause : UpdateCheckRequest :=
  ⟨⟨none, none, none, none⟩, none, none, none, none, some true⟩

theorem updateData_requestedPause :
    updateData (fun _ _ _ => .error "no cron evaluator") 2000 requestedPause hourlyCheck =
      .ok { state := some .paused } := rfl

/-- A heartbeat reads the check, somebody pauses the check, and the heartbeat writes: the check
is up. -/
theorem not_paused_heartbeatOvertaken :
    ¬ ∀ (c : Check) (before after : List RaceEvent) (w : PauseWrite),
      (∀ e ∈ before, e.NoUpdate) → (∀ e ∈ after, e.NoUpdate) →
      (run race ⟨c, []⟩ (before ++ .update w :: after)).underWay = [] →
      (run race ⟨c, []⟩ (before ++ .update w :: after)).newest.state = .paused := by
  intro h
  have hrun := h hourlyCheck [.start (heartbeat .success 1000)]
    [.commit (heartbeat .success 1000) hourlyCheck]
    (.person _ (updateData_pauses rfl updateData_requestedPause)) (by decide) (by decide) (by decide)
  revert hrun
  decide

section Merge

/-- What a check says of its latest heartbeat: its state, when it last reported and when
it is expected next. -/
def Check.report (c : Check) : CheckState × Option ℤ × Option ℤ :=
  (c.state, c.lastPingAt, c.nextDueAt)

/-- What a heartbeat that is no start has to say. -/
def IngestParams.report (p : IngestParams) : CheckState × Option ℤ × Option ℤ :=
  (if p.kind = .fail then .down else .up, some p.receivedAt, p.nextDueAt)

/-- The check says what the latest of these heartbeats has to say. -/
def MergedByTime (c : Check) (heartbeats : List IngestParams) : Prop :=
  ∀ p ∈ heartbeats, (∀ q ∈ heartbeats, q.receivedAt ≤ p.receivedAt) → c.report = p.report
  deriving Decidable

/-- One instant is no later than another, or there is none. -/
def NoLater (a b : Option ℤ) : Prop := ∀ t ∈ a, ∃ t' ∈ b, t ≤ t'
  deriving Decidable

/-- The last heartbeat of the check does not move back. -/
def LastPingForward (s : RacingCheck) (e : RaceEvent) : Prop :=
  NoLater s.newest.lastPingAt (race s e).newest.lastPingAt
  deriving Decidable

/-- The heartbeats commit in the order they were received, from the last one that the
check knows on. -/
def InOrder (lastPingAt : Option ℤ) (heartbeats : List IngestParams) : Prop :=
  (lastPingAt.toList ++ heartbeats.map IngestParams.receivedAt).Pairwise (· ≤ ·)
  deriving Decidable

/-- A heartbeat that is no start writes what it has to say. -/
theorem IngestParams.write_report {p : IngestParams} (hkind : p.kind ≠ .start) (prev c : Check) :
    (p.write prev c).report = p.report := by
  unfold IngestParams.write IngestParams.report Check.report
  cases hp : p.kind with
  | start => exact absurd hp hkind
  | success => simp
  | fail => simp

/-- Heartbeats move the last one forward at each commit, exactly if they are in order. -/
theorem isChain_noLater_iff {lastPingAt : Option ℤ} {heartbeats : List IngestParams} :
    List.IsChain NoLater (lastPingAt :: heartbeats.map fun p => some p.receivedAt) ↔
      InOrder lastPingAt heartbeats := by
  have hchain (instants : List ℤ) :
      List.IsChain NoLater (instants.map some) ↔ instants.Pairwise (· ≤ ·) := by
    rw [List.isChain_map, ← List.isChain_iff_pairwise]
    simp [NoLater]
  have hmap : (heartbeats.map fun p => some p.receivedAt) =
      (heartbeats.map IngestParams.receivedAt).map some := by simp
  unfold InOrder
  rw [hmap]
  cases lastPingAt with
  | none =>
    rw [List.isChain_cons, hchain]
    simp [NoLater]
  | some last => exact hchain (last :: heartbeats.map IngestParams.receivedAt)

/-- **Heartbeats merge by time, exactly if they commit in the order they were received.**
In any run of heartbeats that are no starts and were received at distinct instants, the
check says at the end what the latest of them has to say, and its last heartbeat never
moves back on the way, if and only if they commit in the order they were received, from
the last one that the check knew on. -/
theorem merged_by_time_iff (s : RacingCheck) (es : List RaceEvent) (hes : ∀ e ∈ es, e.NoUpdate)
    (hkinds : ∀ p ∈ recorded s es, p.kind ≠ .start)
    (hdistinct : ((recorded s es).map IngestParams.receivedAt).Nodup) :
    (MergedByTime (run race s es).newest (recorded s es) ∧ Along race LastPingForward s es) ↔
      InOrder s.newest.lastPingAt (recorded s es) := by
  have hforward : Along race LastPingForward s es ↔
      InOrder s.newest.lastPingAt (recorded s es) := by
    rw [← isChain_noLater_iff]
    refine ReadCommitted.along_part_iff (R := NoLater) ?_ hes ?_
    · exact fun x t ht => ⟨t, ht, le_rfl⟩
    · intro p hp prev c
      exact congrArg (fun report => report.2.1) (p.write_report (hkinds p hp) prev c)
  constructor
  · exact fun h => hforward.mp h.2
  · intro horder
    refine ⟨fun p hp hlatest => ?_, hforward.mpr horder⟩
    have hlast : (run race s es).newest.report =
        (s.newest.report :: (recorded s es).map IngestParams.report).getLast _ :=
      ReadCommitted.part_run_eq hes fun p hp prev c => p.write_report (hkinds p hp) prev c
    unfold InOrder at horder
    rcases List.eq_nil_or_concat (recorded s es) with hnone | ⟨earlier, q, hconcat⟩
    · rw [hnone] at hp
      cases hp
    · simp only [List.concat_eq_append] at hconcat
      simp only [hconcat] at hp hlatest hlast horder hdistinct
      have hlater : p.receivedAt ≤ q.receivedAt := by
        rcases List.mem_append.mp hp with hearlier | hq
        · have hsorted := (List.pairwise_append.mp horder).2.1
          rw [List.map_append] at hsorted
          exact (List.pairwise_append.mp hsorted).2.2 _ (List.mem_map_of_mem hearlier) _
            List.mem_cons_self
        · rw [List.mem_singleton.mp hq]
      have hsame : p.receivedAt = q.receivedAt :=
        le_antisymm hlater (hlatest q (List.mem_append_right _ List.mem_cons_self))
      have heq : p = q := List.inj_on_of_nodup_map hdistinct hp
        (List.mem_append_right _ List.mem_cons_self) hsame
      rw [hlast, heq]
      simp

/-- Two heartbeats that overlap and commit in order. -/
theorem merged_by_time_iff_inOrder :
    MergedByTime (run race ⟨hourlyCheck, []⟩ [.start (heartbeat .fail 1000),
        .start (heartbeat .success 2000), .commit (heartbeat .fail 1000) hourlyCheck,
        .commit (heartbeat .success 2000) hourlyCheck]).newest
      [heartbeat .fail 1000, heartbeat .success 2000] :=
  ((merged_by_time_iff ⟨hourlyCheck, []⟩ [.start (heartbeat .fail 1000),
    .start (heartbeat .success 2000), .commit (heartbeat .fail 1000) hourlyCheck,
    .commit (heartbeat .success 2000) hourlyCheck] (by decide) (by decide) (by decide)).mpr
      (by decide)).1

/-- A failure is received first and commits last: the check is down, although a success
was received after it. -/
theorem not_mergedByTime_overtaken :
    ¬ ∀ (c : Check) (es : List RaceEvent), c.state ≠ .paused → (∀ e ∈ es, e.NoUpdate) →
      (run race ⟨c, []⟩ es).underWay = [] → (∀ p ∈ recorded ⟨c, []⟩ es, p.kind ≠ .start) →
      ((recorded ⟨c, []⟩ es).map IngestParams.receivedAt).Nodup →
      MergedByTime (run race ⟨c, []⟩ es).newest (recorded ⟨c, []⟩ es) ∧
        Along race LastPingForward ⟨c, []⟩ es := by
  intro h
  have hrun := h hourlyCheck [.start (heartbeat .fail 1000), .start (heartbeat .success 2000),
    .commit (heartbeat .success 2000) hourlyCheck, .commit (heartbeat .fail 1000) hourlyCheck]
    (by decide) (by decide) (by decide) (by decide) (by decide)
  revert hrun
  decide

end Merge

end SilenceWatch
