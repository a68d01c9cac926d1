import SilenceWatch.Monitoring.Identity

/-!
# The durations of runs

A heartbeat is recorded by one statement, which measures the run it ends by a column that
an earlier heartbeat set. An observer who keeps the heartbeats of a check can say of each
row what its duration is, without that column.
-/

namespace SilenceWatch

open Relational Transition

/-- A recorded heartbeat: when it came, and the duration its client reported. -/
structure RecordedHeartbeat where
  kind : PingKind
  receivedAt : ℤ
  reported : Option ℤ
  deriving DecidableEq

/-- A number of milliseconds as an `INTEGER` column takes it. -/
def clampMs (ms : ℤ) : ℤ := min int32Max (max 0 ms)

/-- The latest start recorded after the previous success or fail. The heartbeats of a check
are listed latest first. -/
def openStart (earlier : List RecordedHeartbeat) : Option ℤ :=
  ((earlier.takeWhile fun h => h.kind = .start).head?).map RecordedHeartbeat.receivedAt

/-- The duration of the run that a heartbeat ends, after the earlier ones of its check. -/
def runDuration (earlier : List RecordedHeartbeat) (h : RecordedHeartbeat) : Option ℤ :=
  if h.kind = .start then none
  else
    match h.reported with
    | some ms => some (clampMs ms)
    | none => (openStart earlier).map fun startedAt => clampMs (h.receivedAt - startedAt)

/-- What the rows of the heartbeats say. -/
def history : List RecordedHeartbeat → List (PingKind × ℤ × Option ℤ)
  | [] => []
  | h :: earlier => (h.kind, h.receivedAt, runDuration earlier h) :: history earlier

/-- The most recent duration that is known. -/
def latestDuration (heard : List RecordedHeartbeat) : Option ℤ :=
  (history heard).findSome? fun row => row.2.2

@[simp] theorem openStart_nil : openStart [] = none := rfl

theorem openStart_cons (h : RecordedHeartbeat) (earlier : List RecordedHeartbeat) :
    openStart (h :: earlier) = if h.kind = .start then some h.receivedAt else none := by
  unfold openStart
  by_cases hstart : h.kind = .start
  · simp [hstart]
  · simp [hstart]

theorem latestDuration_cons (h : RecordedHeartbeat) (earlier : List RecordedHeartbeat) :
    latestDuration (h :: earlier) = (runDuration earlier h).or (latestDuration earlier) := by
  rw [latestDuration, history, List.findSome?_cons, latestDuration]
  cases runDuration earlier h with
  | none => rfl
  | some ms => rfl

/-- What the row of a heartbeat says of it. -/
def Ping.told (p : Ping) : PingKind × ℤ × Option ℤ := (p.kind, p.receivedAt, p.durationMs)

/-- The heartbeats of a check, as their rows tell them, latest first. -/
def Database.told (db : Database) (checkId : Uuid) : List (PingKind × ℤ × Option ℤ) :=
  ((db.pings.rows.filter fun p => p.checkId = checkId).map Ping.told).reverse

/-- A heartbeat for the ping key is recorded for this check. -/
def Database.Hears (db : Database) (checkId pingKey : Uuid) : Prop :=
  ∃ c ∈ db.checks.rows, c.id = checkId ∧ c.pingKey = pingKey ∧ c.state ≠ .paused
  deriving Decidable

/-- The database, and what an observer of one check has heard. -/
structure Listener where
  db : Database
  heard : List RecordedHeartbeat

/-- The observer notes the heartbeats that are recorded, and forgets a check with its
removal. -/
def Listener.step (srv : Server) (checkId : Uuid) (s : Listener) (e : Event) : Listener where
  db := perform srv s.db e
  heard :=
    match e.write with
    | .ingest _ command =>
      if s.db.Hears checkId command.pingKey then
        ⟨command.kind, e.now, command.durationMs⟩ :: s.heard
      else s.heard
    | .remove removed => if removed = checkId then [] else s.heard
    | _ => s.heard

/-- The observer changes nothing. -/
theorem Listener.db_run (srv : Server) (checkId : Uuid) (s : Listener) (es : List Event) :
    (run (Listener.step srv checkId) s es).db = run (perform srv) s.db es := by
  induction es generalizing s with
  | nil => rfl
  | cons e es ih => exact ih _

section Step

variable {srv : Server} {db : Database} {now : ℤ} {w : Write} {c c' : Check} {checkId : Uuid}
  {s : Listener} {e : Event}

/-- A sync leaves the running duration and the last known one. -/
theorem Check.synced_durations {projectId : Uuid} {request : SyncRequest}
    {accepted : List SyncRow} (c : Check) :
    (c.synced now projectId request accepted).lastStartedAt = c.lastStartedAt ∧
      (c.synced now projectId request accepted).lastDurationMs = c.lastDurationMs := by
  unfold Check.synced Check.flagged Check.upserted
  split <;> split <;> exact ⟨rfl, rfl⟩

/-- Only a recorded heartbeat writes the columns that durations are measured by. -/
theorem Rewritten.durations (h : Rewritten srv db now w c c') :
    (¬ w.Records c ∧ c'.lastStartedAt = c.lastStartedAt ∧ c'.lastDurationMs = c.lastDurationMs) ∨
      ∃ metadata command, w = .ingest metadata command ∧ c.pingKey = command.pingKey ∧
        c.state ≠ .paused ∧ c' = (ingestParams srv.cron metadata now command).write c c := by
  cases h with
  | kept hnot => exact Or.inl ⟨hnot, rfl, rfl⟩
  | synced => exact Or.inl ⟨id, c.synced_durations⟩
  | heartbeat hkey hstate => exact Or.inr ⟨_, _, rfl, hkey, hstate, rfl⟩
  | _ => exact Or.inl ⟨id, rfl, rfl⟩

/-- A check starts without a duration. -/
theorem Inserted.durations (h : Inserted srv db now w c) :
    c.lastStartedAt = none ∧ c.lastDurationMs = none := by
  cases h with
  | created => exact ⟨rfl, rfl⟩
  | declared _ _ _ => exact ⟨rfl, rfl⟩

/-- The row of a heartbeat says the duration of the run it ends. -/
theorem measured_eq_runDuration {cron : CronParser} {metadata : Schedule}
    {command : IngestCommand} {prev : Check} {earlier : List RecordedHeartbeat}
    (hstart : prev.lastStartedAt = openStart earlier) :
    (ingestParams cron metadata now command).measured prev =
      runDuration earlier ⟨command.kind, now, command.durationMs⟩ := by
  unfold IngestParams.measured runDuration
  rw [hstart]
  cases hreported : command.durationMs with
  | none => simp [ingestParams, hreported, clampInt, clampMs]
  | some ms => simp [ingestParams, hreported, clampInt, clampMs]

/-- What the rows of a check and its columns tell is what was heard of it. -/
structure Listener.Tells (checkId : Uuid) (s : Listener) : Prop where
  pings : s.db.told checkId = history s.heard
  absent : (∀ c ∈ s.db.checks.rows, c.id ≠ checkId) → s.heard = []
  columns : ∀ c ∈ s.db.checks.rows, c.id = checkId →
    c.lastStartedAt = openStart s.heard ∧ c.lastDurationMs = latestDuration s.heard

/-- An event that records nothing for the check and does not remove it is not heard. -/
theorem Listener.step_heard_kept (srv : Server) (hremove : e.write ≠ .remove checkId)
    (hnot : ∀ c ∈ s.db.checks.rows, c.id = checkId → ¬ e.write.Records c) :
    (s.step srv checkId e).heard = s.heard := by
  obtain ⟨now, write⟩ := e
  cases write with
  | ingest metadata command =>
    refine if_neg ?_
    rintro ⟨c, hc, hid, hkey, hstate⟩
    exact hnot c hc hid ⟨hkey, hstate⟩
  | remove removed =>
    refine if_neg ?_
    rintro rfl
    exact hremove rfl
  | _ => rfl

/-- A write that is not heard leaves the columns of the check as they tell. -/
theorem Listener.Tells.columns_kept (h : s.Tells checkId)
    (hnot : ∀ c ∈ s.db.checks.rows, c.id = checkId → ¬ e.write.Records c) :
    ∀ c' ∈ (perform srv s.db e).checks.rows, c'.id = checkId →
      c'.lastStartedAt = openStart s.heard ∧ c'.lastDurationMs = latestDuration s.heard := by
  intro c' hc' hid
  rcases perform_rows srv s.db e hc' with ⟨c, hc, hrewritten⟩ | ⟨hinserted, hnew⟩
  · have hsame : c.id = checkId := hrewritten.id_eq.symm.trans hid
    rcases hrewritten.durations with ⟨_, hstart, hduration⟩ | ⟨_, _, hw, hkey, hstate, _⟩
    · rw [hstart, hduration]
      exact h.columns c hc hsame
    · exact absurd (by rw [hw]; exact ⟨hkey, hstate⟩) (hnot c hc hsame)
  · have hnone : s.heard = [] := h.absent fun c hc => hid ▸ hnew c hc
    rw [hnone]
    exact hinserted.durations

/-- A check that no write removes stays. -/
theorem Listener.Tells.absent_kept (h : s.Tells checkId) (hremove : e.write ≠ .remove checkId)
    (habsent : ∀ c ∈ (perform srv s.db e).checks.rows, c.id ≠ checkId) : s.heard = [] := by
  refine h.absent fun c hc hid => ?_
  obtain ⟨c', hc', hid'⟩ := perform_persists srv s.db e hc (hid ▸ hremove)
  exact habsent c' hc' (hid'.trans hid)

/-- The rows of another check are told apart from the inserted one. -/
theorem told_insertOrSkip {db' : Database} {row : ℕ → Ping} {hrow : ∀ n, (row n).id = n}
    (hpings : db'.pings = db.pings.insertOrSkip row hrow) (checkId : Uuid) :
    db'.told checkId =
      if (row db.pings.next).checkId = checkId then
        (row db.pings.next).told :: db.told checkId
      else db.told checkId := by
  have hfresh : ∀ r ∈ db.pings.rows, Ping.Distinct r (row db.pings.next) := by
    intro r hr
    unfold Ping.Distinct
    rw [hrow]
    exact db.pings.key_ne_next hr
  have hrows : db'.pings.rows = db.pings.rows ++ [row db.pings.next] := by
    rw [hpings, SerialTable.insertOrSkip, dif_pos hfresh]
  unfold Database.told
  rw [hrows, List.filter_append, List.map_append, List.reverse_append]
  split
  · next hmine => simp [hmine]
  · next hother => simp [hother]

/-- A removal takes the rows of its check and no others. -/
theorem told_delete {db' : Database} {removed : Uuid}
    (hpings : db'.pings = db.pings.delete fun p => p.checkId = removed) (checkId : Uuid) :
    db'.told checkId = if removed = checkId then [] else db.told checkId := by
  unfold Database.told
  rw [hpings, SerialTable.delete_rows, List.filter_filter]
  split
  · next heq =>
    rw [List.filter_eq_nil_iff.mpr, List.map_nil, List.reverse_nil]
    intro p _
    simp [heq]
  · next hne =>
    congr 2
    refine List.filter_congr fun p _ => ?_
    by_cases hp : p.checkId = checkId
    · simp [hp, Ne.symm hne]
    · simp [hp]

/-- The removal takes the row, its heartbeats and the memory of the observer. -/
theorem Listener.Tells.removed (h : s.Tells checkId) :
    (s.step srv checkId ⟨now, .remove checkId⟩).Tells checkId := by
  have hheard : (s.step srv checkId ⟨now, .remove checkId⟩).heard = [] := if_pos rfl
  have hdb : (s.step srv checkId ⟨now, .remove checkId⟩).db =
      orUnchanged s.db (removeCheck checkId s.db) := rfl
  unfold removeCheck at hdb
  split at hdb
  · next hnone =>
    have habsent : ∀ c ∈ s.db.checks.rows, c.id ≠ checkId := fun c hc => by
      simpa using List.find?_eq_none.mp hnone c hc
    refine ⟨?_, fun _ => hheard, fun c hc hid => ?_⟩
    · rw [hheard, hdb, ← h.absent habsent]
      exact h.pings
    · rw [hdb] at hc
      exact absurd hid (habsent c hc)
  · refine ⟨?_, fun _ => hheard, fun c hc hid => ?_⟩
    · rw [hheard, told_delete (congrArg Database.pings hdb), if_pos rfl]
      rfl
    · rw [hdb] at hc
      exact absurd hid (Table.mem_delete.mp hc).2

/-- An event that is not heard of the check. -/
theorem Listener.Tells.kept (h : s.Tells checkId) (hremove : e.write ≠ .remove checkId)
    (hnot : ∀ c ∈ s.db.checks.rows, c.id = checkId → ¬ e.write.Records c)
    (htold : (perform srv s.db e).told checkId = s.db.told checkId) :
    (s.step srv checkId e).Tells checkId := by
  have hheard := Listener.step_heard_kept srv hremove hnot
  refine ⟨?_, fun habsent => ?_, ?_⟩
  · rw [hheard]
    exact htold.trans h.pings
  · rw [hheard]
    exact h.absent_kept hremove habsent
  · rw [hheard]
    exact h.columns_kept hnot

/-- A heartbeat that is recorded for the check. -/
theorem Listener.Tells.recorded (h : s.Tells checkId) {metadata : Schedule}
    {command : IngestCommand} (hprev : c ∈ s.db.checks.rows) (hid : c.id = checkId)
    (hkey : c.pingKey = command.pingKey) (hstate : c.state ≠ .paused)
    (hpings : (perform srv s.db ⟨now, .ingest metadata command⟩).pings = s.db.pings.insertOrSkip
      ((ingestParams srv.cron metadata now command).toPing c) fun _ => rfl) :
    (s.step srv checkId ⟨now, .ingest metadata command⟩).Tells checkId := by
  obtain ⟨hstart, hduration⟩ := h.columns c hprev hid
  have hheard : (s.step srv checkId ⟨now, .ingest metadata command⟩).heard =
      ⟨command.kind, now, command.durationMs⟩ :: s.heard :=
    if_pos ⟨c, hprev, hid, hkey, hstate⟩
  have hmeasured : (ingestParams srv.cron metadata now command).measured c =
      runDuration s.heard ⟨command.kind, now, command.durationMs⟩ := measured_eq_runDuration hstart
  refine ⟨?_, fun habsent => ?_, fun c' hc' hid' => ?_⟩
  · rw [hheard, history, ← h.pings, ← hmeasured]
    refine (told_insertOrSkip hpings checkId).trans ?_
    have hmine (id : ℕ) : ((ingestParams srv.cron metadata now command).toPing c id).checkId =
        checkId := hid
    rw [if_pos (hmine _)]
    rfl
  · obtain ⟨c', hc', hid'⟩ := perform_persists srv s.db ⟨now, .ingest metadata command⟩ hprev
      (by simp)
    exact absurd (hid'.trans hid) (habsent c' hc')
  · rcases perform_rows srv s.db _ hc' with ⟨d, hd, hrewritten⟩ | ⟨_, hnew⟩
    · have hsame : d = c :=
        s.db.eq_of_check_id hd hprev ((hrewritten.id_eq.symm.trans hid').trans hid.symm)
      subst hsame
      rcases hrewritten.durations with ⟨hnot, _⟩ | ⟨metadata', command', hw, _, _, hwritten⟩
      · exact absurd ⟨hkey, hstate⟩ hnot
      · cases hw
        rw [hwritten, hheard, openStart_cons, latestDuration_cons, ← hmeasured, ← hduration]
        exact ⟨rfl, rfl⟩
    · exact absurd (hid.trans hid'.symm) (hnew c hprev)

/-- **One event keeps what is told equal to what was heard.** -/
theorem Listener.Tells.step (h : s.Tells checkId) (srv : Server) (e : Event) :
    (s.step srv checkId e).Tells checkId := by
  obtain ⟨now, write⟩ := e
  by_cases hremove : write = .remove checkId
  · subst hremove
    exact h.removed
  · rcases perform_pings srv s.db ⟨now, write⟩ with ⟨hsame, hnot⟩ | ⟨removed, hw, _, hpings⟩ |
      ⟨metadata, command, hw, prev, hprev, hkey, hstate, hpings⟩
    · refine h.kept hremove (fun c hc _ => hnot c hc) ?_
      unfold Database.told
      rw [hsame]
    · obtain rfl : write = .remove removed := hw
      refine h.kept hremove (fun _ _ _ => id) ?_
      rw [told_delete hpings, if_neg fun heq => hremove (congrArg Write.remove heq)]
    · obtain rfl : write = .ingest metadata command := hw
      by_cases hid : prev.id = checkId
      · exact h.recorded hprev hid hkey hstate hpings
      · refine h.kept hremove (fun c hc hcid hrecords => ?_) ?_
        · have hsame : c = prev := s.db.checks.eq_of_key_eq Check.pingKey (fun _ _ h => h.2.1) hc
            hprev (hrecords.1.trans hkey.symm)
          exact hid (hsame ▸ hcid)
        · rw [told_insertOrSkip hpings, if_neg]
          exact hid

end Step

/-- **The durations of runs, over every run of writes.** The rows of a check say the kind,
the instant and the duration of its recorded heartbeats: none for a start, what the
client reported, else the time since the latest start after the previous success or fail,
else none; and the last known duration is the most recent one there is. -/
theorem run_durations (srv : Server) (db : Database) (es : List Event) (checkId : Uuid)
    (hcheck : ∀ c ∈ db.checks.rows, c.id ≠ checkId)
    (hpings : ∀ p ∈ db.pings.rows, p.checkId ≠ checkId) :
    let db' := run (perform srv) db es
    let heard := (run (Listener.step srv checkId) ⟨db, []⟩ es).heard
    db'.told checkId = history heard ∧
      ∀ c ∈ db'.checks.rows, c.id = checkId → c.lastDurationMs = latestDuration heard := by
  have hstart : Listener.Tells checkId ⟨db, []⟩ := by
    refine ⟨?_, fun _ => rfl, fun c hc hid => absurd hid (hcheck c hc)⟩
    unfold Database.told
    rw [List.filter_eq_nil_iff.mpr fun p hp => by simpa using hpings p hp]
    rfl
  have hrun : Listener.Tells checkId (run (Listener.step srv checkId) ⟨db, []⟩ es) :=
    run_of_step (P := fun _ _ => True) (fun _ e h _ => h.step srv e) hstart
      (along_of_forall fun _ _ => trivial)
  intro db' heard
  have hdb : (run (Listener.step srv checkId) ⟨db, []⟩ es).db = db' :=
    Listener.db_run srv checkId _ es
  refine ⟨?_, fun c hc hid => ?_⟩
  · rw [← hdb]
    exact hrun.pings
  · rw [← hdb] at hc
    exact (hrun.columns c hc hid).2

/-- Two starts, a success that reports nothing after the clock went back, and another one
that reports more than the column holds. -/
theorem run_durations_sample :
    let beat (kind : PingKind) (reported : Option ℤ) : Write :=
      .ingest ⟨.interval, some 3600, none, "UTC"⟩ ⟨20, kind, none, reported, none, none, none⟩
    let es : List Event := [⟨0, .create 1 hourlyRequest "backup" 10 20⟩,
      ⟨1000, beat .start none⟩, ⟨5000, beat .start none⟩, ⟨4000, beat .success none⟩,
      ⟨9000, beat .fail (some 9999999999)⟩]
    (run (perform sampleServer) sampleDatabase es).told 10 =
      [(.fail, 9000, some 2147483647), (.success, 4000, some 0), (.start, 5000, none),
        (.start, 1000, none)] := by
  intro beat es
  rw [(run_durations sampleServer sampleDatabase es 10 (by decide) (by decide)).1]
  decide

end SilenceWatch
