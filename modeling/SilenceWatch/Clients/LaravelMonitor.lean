import SilenceWatch.Ingest.Parameters

/-!
# The runs of a Laravel schedule

The scheduler tells a listener what happens to its tasks, and the listener tells the
server. Which of the events ends a run depends on how it ended; what the server makes of
the exit code depends on the grammar of its routes.
-/

namespace SilenceWatch

section Client

/-- A task of the schedule, by its object. -/
structure ScheduledTask where
  id : ℕ
  runInBackground : Bool
  deriving DecidableEq

/-- The outcome `Client::ping` is given. -/
inductive PingOutcome where
  | start
  | fail
  | exitCode (code : ℤ)

/-- The request `Client::ping` sends. -/
structure OutcomeRequest where
  pingKey : Uuid
  route : PingRoute
  durationMs : Option (List Char)

/-- The URL `Client::ping` builds. -/
def outcomeRequest (pingKey : Uuid) (outcome : PingOutcome) (durationMs : Option ℤ) :
    OutcomeRequest where
  pingKey := pingKey
  route :=
    match outcome with
    | .start => .start
    | .fail => .fail
    | .exitCode code => .exitCode (toString code).toList
  durationMs := durationMs.map fun ms => (toString (max 0 ms)).toList

/-- A heartbeat that the routes record, or none where they answer `BAD REQUEST`. -/
structure RouteRecord where
  pingKey : Uuid
  kind : PingKind
  durationMs : Option ℤ
  deriving DecidableEq

/-- The answer of the routes to a key they know. -/
def OutcomeRequest.record? (r : OutcomeRequest) : Option RouteRecord :=
  r.route.kind?.map fun kind => ⟨r.pingKey, kind, parseDurationMs r.durationMs⟩

/-- `BACKOFF_SECONDS`, in the microseconds of the clock. -/
def heartbeatBackoff : ℕ := 60 * 1000000

/-- What a process remembers. -/
structure MonitorState where
  /-- `$reported`: the runs whose outcome is already reported. -/
  reported : List ScheduledTask
  /-- `$downUntil`. -/
  downUntil : ℕ

/-- The state of a new process. -/
def MonitorState.fresh : MonitorState := ⟨[], 0⟩

/-- What the configuration and the declaration give. -/
structure MonitorSettings where
  reportStart : Bool
  /-- The ping key under the key of the task. -/
  pingKey : ScheduledTask → Option Uuid

/-- The instants at which a call reads the clock: before it sends and after the answer. -/
structure CallTimes where
  before : ℕ
  answered : ℕ

variable (cfg : MonitorSettings)

/-- `Monitor::ping` and `Client::ping`, with the heartbeats that are recorded. -/
def Client.ping (times : CallTimes) (task : ScheduledTask) (outcome : PingOutcome)
    (durationMs : Option ℤ) (m : MonitorState) : MonitorState × List RouteRecord :=
  match cfg.pingKey task with
  | none => (m, [])
  | some pingKey =>
    if times.before < m.downUntil then (m, [])
    else
      match (outcomeRequest pingKey outcome durationMs).record? with
      | some record => (m, [record])
      | none => ({ m with downUntil := times.answered + heartbeatBackoff }, [])

end Client

section Monitor

/-- The events of Laravel's scheduler that the monitor listens to. The exit code is null
until one is known. -/
inductive SchedulerEvent where
  | starting (task : ScheduledTask)
  | finished (task : ScheduledTask) (exitCode : Option ℤ) (skippedBecauseOverlapping : Bool)
    (runtimeMs : ℤ)
  | failed (task : ScheduledTask) (runtimeMs : Option ℤ)
  | backgroundFinished (task : ScheduledTask) (exitCode : Option ℤ)

variable (cfg : MonitorSettings) (times : CallTimes)

/-- `Monitor::starting`. -/
def Monitor.starting (task : ScheduledTask) (m : MonitorState) : MonitorState × List RouteRecord :=
  let m := { m with reported := m.reported.filter (· ≠ task) }
  if cfg.reportStart then Client.ping cfg times task .start none m else (m, [])

/-- `Monitor::finished`. -/
def Monitor.finished (task : ScheduledTask) (exitCode : Option ℤ) (skippedBecauseOverlapping : Bool)
    (runtimeMs : ℤ) (m : MonitorState) : MonitorState × List RouteRecord :=
  if task.runInBackground || skippedBecauseOverlapping then (m, [])
  else
    Client.ping cfg times task (.exitCode (exitCode.getD 0)) (some runtimeMs)
      { m with reported := task :: m.reported }

/-- `Monitor::failed`. -/
def Monitor.failed (task : ScheduledTask) (runtimeMs : Option ℤ) (m : MonitorState) :
    MonitorState × List RouteRecord :=
  if task ∈ m.reported then ({ m with reported := m.reported.filter (· ≠ task) }, [])
  else Client.ping cfg times task .fail runtimeMs m

/-- `Monitor::backgroundFinished`. -/
def Monitor.backgroundFinished (task : ScheduledTask) (exitCode : Option ℤ) (m : MonitorState) :
    MonitorState × List RouteRecord :=
  Client.ping cfg times task (.exitCode (exitCode.getD 0)) none m

/-- What one event leads to. -/
def MonitorState.handle (m : MonitorState) : SchedulerEvent → MonitorState × List RouteRecord
  | .starting task => Monitor.starting cfg times task m
  | .finished task exitCode skipped runtimeMs =>
    Monitor.finished cfg times task exitCode skipped runtimeMs m
  | .failed task runtimeMs => Monitor.failed cfg times task runtimeMs m
  | .backgroundFinished task exitCode => Monitor.backgroundFinished cfg times task exitCode m

/-- What a sequence of events leads to. -/
def MonitorState.handleAll (m : MonitorState) :
    List (CallTimes × SchedulerEvent) → MonitorState × List RouteRecord
  | [] => (m, [])
  | (times, e) :: es =>
    let (m, records) := m.handle cfg times e
    let (m, others) := m.handleAll es
    (m, records ++ others)

end Monitor

section Runs

/-- How a run goes on after its start. -/
inductive RunEnd where
  /-- The task ends with an exit code, and nothing else happens. -/
  | finished (code : ℤ)
  /-- The task ends with an exit code, and an exception is raised after that. -/
  | finishedThenFailed (code : ℤ)
  /-- An exception is raised before the task ends. -/
  | failed
  /-- A background task is started. -/
  | begun
  /-- A background task is started, and an exception is raised after that. -/
  | begunThenFailed
  /-- The run before it has not ended, and this one does not take place. The object of the
  task still has the exit code of an earlier run, if any; whether it has the overlap flag
  depends on the version of Laravel. An exception may be raised after that. -/
  | skipped (exitCode : Option ℤ) (flagged raised : Bool)
  /-- The process that finishes a background task hears of its exit code. -/
  | ended (code : ℤ)

/-- A run of a task, with what the clock shows at its events. -/
structure TaskRun where
  task : ScheduledTask
  runEnd : RunEnd
  runtimeMs : ℤ
  /-- The runtime that a failure comes with, in the versions that have it. -/
  failureRuntimeMs : Option ℤ
  times : ℕ → CallTimes

/-- The events that Laravel emits for a run in one process. -/
def TaskRun.events (r : TaskRun) : List (CallTimes × SchedulerEvent) :=
  match r.runEnd with
  | .finished code =>
    [(r.times 0, .starting r.task), (r.times 1, .finished r.task (some code) false r.runtimeMs)]
  | .finishedThenFailed code =>
    [(r.times 0, .starting r.task), (r.times 1, .finished r.task (some code) false r.runtimeMs),
      (r.times 2, .failed r.task r.failureRuntimeMs)]
  | .failed => [(r.times 0, .starting r.task), (r.times 1, .failed r.task r.failureRuntimeMs)]
  | .begun =>
    [(r.times 0, .starting r.task), (r.times 1, .finished r.task none false r.runtimeMs)]
  | .begunThenFailed =>
    [(r.times 0, .starting r.task), (r.times 1, .finished r.task none false r.runtimeMs),
      (r.times 2, .failed r.task r.failureRuntimeMs)]
  | .skipped exitCode flagged raised =>
    [(r.times 0, .starting r.task), (r.times 1, .finished r.task exitCode flagged r.runtimeMs)] ++
      if raised then [(r.times 2, .failed r.task r.failureRuntimeMs)] else []
  | .ended code => [(r.times 0, .backgroundFinished r.task (some code))]

/-- The exit code that a run leaves on the object of its task. -/
def TaskRun.exitCode? (r : TaskRun) : Option ℤ :=
  match r.runEnd with
  | .finished code => some code
  | .finishedThenFailed code => some code
  | .ended code => some code
  | _ => none

/-- Whether a task runs in the background decides on the events of its runs, and a run that
does not take place shows an exit code of before. -/
def TaskRun.Emitted (codes : List ℤ) (r : TaskRun) : Prop :=
  match r.runEnd with
  | .finished _ => r.task.runInBackground = false
  | .finishedThenFailed _ => r.task.runInBackground = false
  | .begun => r.task.runInBackground = true
  | .begunThenFailed => r.task.runInBackground = true
  | .skipped exitCode _ _ => ∀ code ∈ exitCode, code ∈ codes
  | _ => True

/-- The runs of a process, after runs that have left these exit codes. -/
def RunsEmitted : List ℤ → List TaskRun → Prop
  | _, [] => True
  | codes, r :: rest => r.Emitted codes ∧ RunsEmitted (r.exitCode?.toList ++ codes) rest

/-- The kind of outcome a code stands for. -/
def kindOfCode (code : ℤ) : PingKind := if code = 0 then .success else .fail

/-- The truth of a run that is completed: a success if the exit code is zero and no
exception was raised. A background task is completed where its exit code is heard of. -/
def TaskRun.verdict (r : TaskRun) : Option PingKind :=
  match r.runEnd with
  | .finished code => some (kindOfCode code)
  | .finishedThenFailed _ => some .fail
  | .failed => some .fail
  | .begun => none
  | .begunThenFailed => none
  | .skipped _ _ _ => none
  | .ended code => some (kindOfCode code)

/-- The routes know the exit code, an exception after the end comes with a code that tells
of a failure, none comes after the start of a background task, and a run that does not
take place is known for one. -/
def TaskRun.Reportable (r : TaskRun) : Prop :=
  match r.runEnd with
  | .finished code => 0 ≤ code ∧ code ≤ maxExitCode
  | .finishedThenFailed code => 0 < code ∧ code ≤ maxExitCode
  | .begunThenFailed => False
  | .skipped _ flagged raised =>
    (flagged = true ∨ r.task.runInBackground = true) ∧ raised = false
  | .ended code => 0 ≤ code ∧ code ≤ maxExitCode
  | _ => True

/-- The heartbeats other than starts. -/
def outcomes (records : List RouteRecord) : List (Uuid × PingKind) :=
  (records.filter fun record => record.kind ≠ .start).map fun record =>
    (record.pingKey, record.kind)

variable (cfg : MonitorSettings)

/-- The outcome heartbeats of the runs of one process, run by run. -/
def processOutcomes : MonitorState → List TaskRun → List (List (Uuid × PingKind))
  | _, [] => []
  | m, r :: rest =>
    let (m, records) := m.handleAll cfg r.events
    outcomes records :: processOutcomes m rest

/-- What is to be recorded of a run: its verdict, under the key of its task. -/
def TaskRun.expected (r : TaskRun) : List (Uuid × PingKind) :=
  r.verdict.toList.filterMap fun kind => (cfg.pingKey r.task).map fun pingKey => (pingKey, kind)

end Runs

section ExitCodes

/-- The routes take a number for an exit code if it is one of three digits at most that is
within the range. -/
theorem parseExitCode_toString (code : ℤ) :
    parseExitCode (some (toString code).toList) =
      if 0 ≤ code ∧ code ≤ maxExitCode then some code else none := by
  unfold parseExitCode
  rw [Option.bind_some, Int.toString_eq_repr, Int.repr_eq_if]
  by_cases hsign : 0 ≤ code
  · obtain ⟨n, rfl⟩ := Int.eq_ofNat_of_zero_le hsign
    have hdigits : (Nat.toDigits 10 n).all Char.isDigit = true :=
      List.all_eq_true.mpr fun c hc => Nat.isDigit_of_mem_toDigits (by decide) (by decide) hc
    rw [if_pos hsign, Int.toNat_natCast, Nat.toList_repr, parseDigits,
      Numeral.value_toDigits (by decide) (by decide)]
    by_cases hlength : (Nat.toDigits 10 n).length ≤ 3
    · rw [if_pos ⟨Nat.toDigits_ne_nil, hlength, hdigits⟩]
      by_cases hrange : (n : ℤ) ≤ maxExitCode
      · simp [hrange]
      · rw [Option.filter_some, if_neg (by simpa only [decide_eq_true_iff] using hrange),
          if_neg fun h => hrange h.2]
    · rw [if_neg fun h => hlength h.2.1]
      rw [Nat.length_toDigits_le_iff (by decide) (by decide)] at hlength
      rw [if_neg, Option.filter_none]
      unfold maxExitCode
      omega
  · rw [if_neg hsign, if_neg fun h => hsign h.1, String.toList_append, parseDigits, if_neg]
    · rfl
    · rintro ⟨_, _, hdigits⟩
      revert hdigits
      simp

/-- What the routes make of an outcome. -/
theorem record?_outcomeRequest (pingKey : Uuid) (code : ℤ) (durationMs : Option ℤ) :
    ((outcomeRequest pingKey (.exitCode code) durationMs).record?).map RouteRecord.kind =
      if 0 ≤ code ∧ code ≤ maxExitCode then some (kindOfCode code) else none := by
  unfold OutcomeRequest.record? outcomeRequest PingRoute.kind?
  dsimp only
  rw [parseExitCode_toString]
  split
  · rfl
  · rfl

end ExitCodes

section Outcomes

variable {cfg : MonitorSettings} {times : CallTimes} {task : ScheduledTask} {pingKey : Uuid}
  {durationMs : Option ℤ} {m : MonitorState}

/-- In a process that no answer has stopped, a heartbeat is recorded or stops the next
ones. -/
theorem Client.ping_cases (times : CallTimes) (outcome : PingOutcome) (durationMs : Option ℤ)
    (hup : m.downUntil = 0) (hkey : cfg.pingKey task = some pingKey) :
    match ((outcomeRequest pingKey outcome durationMs).record?).map RouteRecord.kind with
    | some kind => (Client.ping cfg times task outcome durationMs m).1 = m ∧
        outcomes (Client.ping cfg times task outcome durationMs m).2 =
          if kind = .start then [] else [(pingKey, kind)]
    | none => (Client.ping cfg times task outcome durationMs m).2 = [] := by
  unfold Client.ping
  rw [hkey, hup]
  dsimp only
  rw [if_neg (Nat.not_lt_zero _)]
  cases hrecord : (outcomeRequest pingKey outcome durationMs).record? with
  | none => rfl
  | some record =>
    obtain ⟨kind, _, rfl⟩ := Option.map_eq_some_iff.mp hrecord
    refine ⟨rfl, ?_⟩
    unfold outcomes
    dsimp only
    split
    · next hstart => simp [hstart]
    · next hother => simp [hother, outcomeRequest]

theorem Client.ping_fail (times : CallTimes) (durationMs : Option ℤ) (hup : m.downUntil = 0)
    (hkey : cfg.pingKey task = some pingKey) :
    (Client.ping cfg times task .fail durationMs m).1 = m ∧
      outcomes (Client.ping cfg times task .fail durationMs m).2 = [(pingKey, .fail)] :=
  Client.ping_cases times .fail durationMs hup hkey

theorem Client.ping_exitCode {code : ℤ} (hup : m.downUntil = 0)
    (hkey : cfg.pingKey task = some pingKey) (hcode : 0 ≤ code ∧ code ≤ maxExitCode) :
    (Client.ping cfg times task (.exitCode code) durationMs m).1 = m ∧
      outcomes (Client.ping cfg times task (.exitCode code) durationMs m).2 =
        [(pingKey, kindOfCode code)] := by
  have hcases := Client.ping_cases times (.exitCode code) durationMs hup hkey
  rw [record?_outcomeRequest, if_pos hcode] at hcases
  refine ⟨hcases.1, hcases.2.trans ?_⟩
  unfold kindOfCode
  split_ifs <;> simp_all

theorem Client.ping_refused {code : ℤ} (hup : m.downUntil = 0)
    (hkey : cfg.pingKey task = some pingKey) (hcode : ¬ (0 ≤ code ∧ code ≤ maxExitCode)) :
    (Client.ping cfg times task (.exitCode code) durationMs m).2 = [] := by
  have hcases := Client.ping_cases times (.exitCode code) durationMs hup hkey
  rwa [record?_outcomeRequest, if_neg hcode] at hcases

/-- The start of a run forgets that the task was reported, and records no outcome. -/
theorem Monitor.starting_spec (times : CallTimes) (hup : m.downUntil = 0)
    (hkey : cfg.pingKey task = some pingKey) :
    (Monitor.starting cfg times task m).1 = { m with reported := m.reported.filter (· ≠ task) } ∧
      outcomes (Monitor.starting cfg times task m).2 = [] := by
  unfold Monitor.starting
  dsimp only
  split
  · exact Client.ping_cases times .start none hup hkey
  · exact ⟨rfl, rfl⟩

theorem outcomes_append (records records' : List RouteRecord) :
    outcomes (records ++ records') = outcomes records ++ outcomes records' := by
  unfold outcomes
  rw [List.filter_append, List.map_append]

/-- A heartbeat leaves what was reported. -/
theorem Client.ping_reported (times : CallTimes) (task : ScheduledTask) (outcome : PingOutcome)
    (durationMs : Option ℤ) (m : MonitorState) :
    (Client.ping cfg times task outcome durationMs m).1.reported = m.reported := by
  unfold Client.ping
  split
  · rfl
  · split
    · rfl
    · split
      · rfl
      · rfl

/-- What an exit code leads to: its outcome if the routes know it, and nothing otherwise. -/
theorem Client.ping_exitCode_iff {code : ℤ} {kind : PingKind} (hup : m.downUntil = 0)
    (hkey : cfg.pingKey task = some pingKey) :
    outcomes (Client.ping cfg times task (.exitCode code) durationMs m).2 = [(pingKey, kind)] ↔
      (0 ≤ code ∧ code ≤ maxExitCode) ∧ kindOfCode code = kind := by
  by_cases hcode : 0 ≤ code ∧ code ≤ maxExitCode
  · rw [(Client.ping_exitCode hup hkey hcode).2]
    simp [hcode]
  · rw [Client.ping_refused hup hkey hcode]
    simp [hcode, outcomes]

/-- The state after the start of a run. -/
def MonitorState.started (m : MonitorState) (task : ScheduledTask) : MonitorState :=
  { m with reported := m.reported.filter (· ≠ task) }

/-- The end of a task in the foreground is reported. -/
theorem Monitor.finished_spec (code : ℤ) {runtimeMs : ℤ} (h : task.runInBackground = false) :
    Monitor.finished cfg times task (some code) false runtimeMs m =
      Client.ping cfg times task (.exitCode code) (some runtimeMs)
        { m with reported := task :: m.reported } := by
  unfold Monitor.finished
  rw [h]
  rfl

theorem handleAll_cons (e : SchedulerEvent) (es : List (CallTimes × SchedulerEvent)) :
    m.handleAll cfg ((times, e) :: es) =
      (((m.handle cfg times e).1.handleAll cfg es).1,
        (m.handle cfg times e).2 ++ ((m.handle cfg times e).1.handleAll cfg es).2) := rfl

theorem handleAll_singleton (times : CallTimes) (e : SchedulerEvent) :
    m.handleAll cfg [(times, e)] = m.handle cfg times e := by
  rw [handleAll_cons, MonitorState.handleAll, List.append_nil]

/-- After the start, a run goes on as if it had begun without a report. -/
theorem handleAll_starting (times : CallTimes) (hup : m.downUntil = 0)
    (hkey : cfg.pingKey task = some pingKey) (es : List (CallTimes × SchedulerEvent)) :
    (m.handleAll cfg ((times, .starting task) :: es)).1 = ((m.started task).handleAll cfg es).1 ∧
      outcomes (m.handleAll cfg ((times, .starting task) :: es)).2 =
        outcomes ((m.started task).handleAll cfg es).2 := by
  obtain ⟨hstate, hstart⟩ := Monitor.starting_spec times hup hkey
  have hfirst : (m.handle cfg times (.starting task)).1 = m.started task := hstate
  have hnone : outcomes (m.handle cfg times (.starting task)).2 = [] := hstart
  rw [handleAll_cons, hfirst, outcomes_append, hnone]
  exact ⟨rfl, rfl⟩

/-- A failure after the end of a run that was reported adds nothing. -/
theorem handle_failed_of_reported (cfg : MonitorSettings) (times : CallTimes)
    (h : task ∈ m.reported) (runtimeMs : Option ℤ) :
    (m.handle cfg times (.failed task runtimeMs)).1.downUntil = m.downUntil ∧
      (m.handle cfg times (.failed task runtimeMs)).2 = [] := by
  unfold MonitorState.handle Monitor.failed
  dsimp only
  rw [if_pos h]
  exact ⟨rfl, rfl⟩

/-- A run that is not to be reported at its end leaves the state, and a failure after that
is reported. -/
theorem handleAll_of_silent (exitCode : Option ℤ) {flagged : Bool} (runtimeMs : ℤ)
    (times times' : CallTimes) (failureRuntimeMs : Option ℤ) (raised : Bool)
    (hsilent : (task.runInBackground || flagged) = true) (hup : m.downUntil = 0)
    (hkey : cfg.pingKey task = some pingKey) (hforgot : task ∉ m.reported) :
    let es : List (CallTimes × SchedulerEvent) :=
      [(times, .finished task exitCode flagged runtimeMs)] ++
        if raised then [(times', .failed task failureRuntimeMs)] else []
    (m.handleAll cfg es).1 = m ∧
      outcomes (m.handleAll cfg es).2 = if raised then [(pingKey, .fail)] else [] := by
  dsimp only
  have hfinished : m.handle cfg times (.finished task exitCode flagged runtimeMs) = (m, []) := by
    rw [MonitorState.handle, Monitor.finished, if_pos hsilent]
  rw [List.singleton_append, handleAll_cons, hfinished]
  cases raised with
  | false => exact ⟨rfl, rfl⟩
  | true =>
    rw [if_pos rfl, handleAll_singleton, MonitorState.handle, Monitor.failed, if_neg hforgot]
    exact Client.ping_fail times' failureRuntimeMs hup hkey

/-- A run that does not take place, but is not known for one, is reported as if it had. -/
theorem outcomes_of_unflagged {exitCode : Option ℤ} {runtimeMs : ℤ} (times times' : CallTimes)
    (failureRuntimeMs : Option ℤ) (raised : Bool) (hforeground : task.runInBackground = false)
    (hup : m.downUntil = 0) (hkey : cfg.pingKey task = some pingKey)
    (hcode : 0 ≤ exitCode.getD 0 ∧ exitCode.getD 0 ≤ maxExitCode) :
    outcomes (m.handleAll cfg ([(times, .finished task exitCode false runtimeMs)] ++
      if raised then [(times', .failed task failureRuntimeMs)] else [])).2 ≠ [] := by
  have hfinished : m.handle cfg times (.finished task exitCode false runtimeMs) =
      Client.ping cfg times task (.exitCode (exitCode.getD 0)) (some runtimeMs)
        { m with reported := task :: m.reported } := by
    rw [MonitorState.handle, Monitor.finished, hforeground]
    rfl
  rw [List.singleton_append, handleAll_cons, outcomes_append, hfinished,
    (Client.ping_exitCode ?_ hkey hcode).2]
  · exact List.cons_ne_nil _ _
  · exact hup

/-- **One run**: its outcome is recorded truthfully exactly if it is one that can be
reported, and then nothing keeps the next run from being reported. -/
theorem TaskRun.outcomes_iff {r : TaskRun} {codes : List ℤ} (hup : m.downUntil = 0)
    (hkey : cfg.pingKey r.task = some pingKey)
    (hcodes : ∀ code ∈ codes, 0 ≤ code ∧ code ≤ maxExitCode) (hemitted : r.Emitted codes) :
    (outcomes (m.handleAll cfg r.events).2 = r.expected cfg ↔ r.Reportable) ∧
      (r.Reportable → (m.handleAll cfg r.events).1.downUntil = 0) := by
  have hstarted : (m.started r.task).downUntil = 0 := hup
  have hforgot : r.task ∉ (m.started r.task).reported := by simp [MonitorState.started]
  unfold TaskRun.Emitted at hemitted
  unfold TaskRun.events TaskRun.expected TaskRun.verdict TaskRun.Reportable
  rw [hkey]
  cases hend : r.runEnd with
  | finished code =>
    rw [hend] at hemitted
    dsimp only at hemitted ⊢
    obtain ⟨hstate, houtcomes⟩ := handleAll_starting (r.times 0) hup hkey
      [(r.times 1, .finished r.task (some code) false r.runtimeMs)]
    rw [hstate, houtcomes, handleAll_singleton, MonitorState.handle,
      Monitor.finished_spec _ hemitted]
    refine ⟨(Client.ping_exitCode_iff ?_ hkey).trans (and_iff_left rfl), fun hcode => ?_⟩
    · exact hstarted
    · rw [(Client.ping_exitCode ?_ hkey hcode).1]
      · exact hstarted
      · exact hstarted
  | finishedThenFailed code =>
    rw [hend] at hemitted
    dsimp only at hemitted ⊢
    obtain ⟨hstate, houtcomes⟩ := handleAll_starting (r.times 0) hup hkey
      [(r.times 1, .finished r.task (some code) false r.runtimeMs),
        (r.times 2, .failed r.task r.failureRuntimeMs)]
    -- The end is reported whether or not the routes take it; the failure is not, after it.
    have hreported : r.task ∈ ((m.started r.task).handle cfg (r.times 1)
        (.finished r.task (some code) false r.runtimeMs)).1.reported := by
      rw [MonitorState.handle, Monitor.finished_spec _ hemitted, Client.ping_reported]
      exact List.mem_cons_self
    obtain ⟨hdown, hnothing⟩ := handle_failed_of_reported cfg (r.times 2) hreported
      r.failureRuntimeMs
    rw [hstate, houtcomes, handleAll_cons, handleAll_singleton, hnothing, List.append_nil, hdown,
      MonitorState.handle, Monitor.finished_spec _ hemitted]
    refine ⟨(Client.ping_exitCode_iff ?_ hkey).trans ?_, fun hcode => ?_⟩
    · exact hstarted
    · unfold kindOfCode
      split
      · next hzero =>
        refine iff_of_false (fun h => by cases h.2) ?_
        omega
      · next hnonzero =>
        rw [and_iff_left rfl]
        omega
    · rw [(Client.ping_exitCode ?_ hkey ⟨Int.le_of_lt hcode.1, hcode.2⟩).1]
      · exact hstarted
      · exact hstarted
  | failed =>
    dsimp only
    obtain ⟨hstate, houtcomes⟩ := handleAll_starting (r.times 0) hup hkey
      [(r.times 1, .failed r.task r.failureRuntimeMs)]
    rw [hstate, houtcomes, handleAll_singleton, MonitorState.handle, Monitor.failed,
      if_neg hforgot]
    obtain ⟨hkept, hfail⟩ := Client.ping_fail (r.times 1) r.failureRuntimeMs hstarted hkey
    rw [hkept, hfail]
    exact ⟨iff_of_true rfl trivial, fun _ => hstarted⟩
  | begun =>
    rw [hend] at hemitted
    dsimp only at hemitted ⊢
    obtain ⟨hstate, houtcomes⟩ := handleAll_starting (r.times 0) hup hkey
      [(r.times 1, .finished r.task none false r.runtimeMs)]
    rw [hstate, houtcomes, handleAll_singleton, MonitorState.handle, Monitor.finished, hemitted]
    exact ⟨iff_of_true rfl trivial, fun _ => hstarted⟩
  | begunThenFailed =>
    rw [hend] at hemitted
    dsimp only at hemitted ⊢
    have hsilent : (r.task.runInBackground || false) = true := by rw [hemitted, Bool.true_or]
    obtain ⟨_, houtcomes⟩ := handleAll_starting (r.times 0) hup hkey
      [(r.times 1, .finished r.task none false r.runtimeMs),
        (r.times 2, .failed r.task r.failureRuntimeMs)]
    have hfail := (handleAll_of_silent none r.runtimeMs (r.times 1) (r.times 2)
      r.failureRuntimeMs true hsilent hstarted hkey hforgot).2
    refine ⟨iff_of_false (fun h => ?_) id, False.elim⟩
    rw [houtcomes] at h
    cases hfail.symm.trans h
  | skipped exitCode flagged raised =>
    rw [hend] at hemitted
    dsimp only at hemitted ⊢
    obtain ⟨hstate, houtcomes⟩ := handleAll_starting (r.times 0) hup hkey
      ([(r.times 1, .finished r.task exitCode flagged r.runtimeMs)] ++
        if raised then [(r.times 2, .failed r.task r.failureRuntimeMs)] else [])
    rw [List.cons_append, hstate, houtcomes, Option.toList_none, List.filterMap_nil]
    cases hsilent : r.task.runInBackground || flagged with
    | true =>
      obtain ⟨hleft, hrecorded⟩ := handleAll_of_silent exitCode r.runtimeMs (r.times 1)
        (r.times 2) r.failureRuntimeMs raised hsilent hstarted hkey hforgot
      have hknown : flagged = true ∨ r.task.runInBackground = true :=
        (Bool.or_eq_true_iff.mp hsilent).symm
      rw [hleft, hrecorded, and_iff_right hknown]
      exact ⟨by cases raised <;> simp, fun _ => hstarted⟩
    | false =>
      obtain ⟨hforeground, rfl⟩ := Bool.or_eq_false_iff.mp hsilent
      have hcode : 0 ≤ exitCode.getD 0 ∧ exitCode.getD 0 ≤ maxExitCode := by
        cases exitCode with
        | none => exact ⟨Int.le_refl 0, by decide⟩
        | some code => exact hcodes code (hemitted code rfl)
      have hfalse : ¬ ((false = true ∨ r.task.runInBackground = true) ∧ raised = false) := by
        simp [hforeground]
      refine ⟨iff_of_false ?_ hfalse, fun h => absurd h hfalse⟩
      exact outcomes_of_unflagged (r.times 1) (r.times 2) r.failureRuntimeMs raised hforeground
        hstarted hkey hcode
  | ended code =>
    dsimp only
    rw [handleAll_singleton, MonitorState.handle, Monitor.backgroundFinished, Option.getD_some]
    refine ⟨(Client.ping_exitCode_iff hup hkey).trans (and_iff_left rfl), fun hcode => ?_⟩
    rw [(Client.ping_exitCode hup hkey hcode).1]
    exact hup

/-- A run that can be reported leaves an exit code that the routes know. -/
theorem TaskRun.Reportable.exitCode {r : TaskRun} (h : r.Reportable) :
    ∀ code ∈ r.exitCode?, 0 ≤ code ∧ code ≤ maxExitCode := by
  unfold TaskRun.Reportable at h
  unfold TaskRun.exitCode?
  intro code hcode
  cases hend : r.runEnd with
  | finished exitCode =>
    rw [hend] at h hcode
    exact Option.mem_some_iff.mp hcode ▸ h
  | finishedThenFailed exitCode =>
    rw [hend] at h hcode
    exact Option.mem_some_iff.mp hcode ▸ ⟨Int.le_of_lt h.1, h.2⟩
  | ended exitCode =>
    rw [hend] at h hcode
    exact Option.mem_some_iff.mp hcode ▸ h
  | _ =>
    rw [hend] at hcode
    cases hcode

/-- **The runs of one process.** -/
theorem processOutcomes_iff {runs : List TaskRun} {codes : List ℤ} (hup : m.downUntil = 0)
    (hkeys : ∀ r ∈ runs, cfg.pingKey r.task ≠ none)
    (hcodes : ∀ code ∈ codes, 0 ≤ code ∧ code ≤ maxExitCode) (hemitted : RunsEmitted codes runs) :
    processOutcomes cfg m runs = runs.map (TaskRun.expected cfg) ↔ ∀ r ∈ runs, r.Reportable := by
  induction runs generalizing m codes with
  | nil => simp [processOutcomes]
  | cons r rest ih =>
    obtain ⟨pingKey, hkey⟩ := Option.ne_none_iff_exists'.mp (hkeys r List.mem_cons_self)
    obtain ⟨hfirst, hnext⟩ := TaskRun.outcomes_iff hup hkey hcodes hemitted.1
    have hstep : processOutcomes cfg m (r :: rest) =
        outcomes (m.handleAll cfg r.events).2 ::
          processOutcomes cfg (m.handleAll cfg r.events).1 rest := rfl
    rw [hstep, List.map_cons, List.cons.injEq, hfirst, List.forall_mem_cons]
    refine and_congr_right fun hreportable => ?_
    refine ih (hnext hreportable) (fun r' h => hkeys r' (List.mem_cons_of_mem _ h))
      (fun code hcode => ?_) hemitted.2
    rcases List.mem_append.mp hcode with hcode | hcode
    · exact hreportable.exitCode code (Option.mem_toList.mp hcode)
    · exact hcodes code hcode

end Outcomes

/-- A task in the foreground and one in the background. -/
def foregroundTask : ScheduledTask := ⟨1, false⟩

def backgroundTask : ScheduledTask := ⟨2, true⟩

/-- The settings of a schedule whose tasks have their own numbers for ping keys. -/
def laravelSettings : MonitorSettings := ⟨true, fun task => some task.id⟩

/-- A run that takes no time. -/
def instantRun (task : ScheduledTask) (runEnd : RunEnd) : TaskRun :=
  ⟨task, runEnd, 0, none, fun _ => ⟨1000000, 1000000⟩⟩

/-- The runs of a day: a failure, an exception, a run that does not take place and a
background task, which another process finishes. -/
def dayOfRuns : List TaskRun :=
  [instantRun foregroundTask (.finishedThenFailed 3), instantRun foregroundTask .failed,
    instantRun foregroundTask (.skipped (some 3) true false), instantRun backgroundTask .begun,
    instantRun backgroundTask (.skipped none false false), instantRun foregroundTask (.finished 0)]

end SilenceWatch
