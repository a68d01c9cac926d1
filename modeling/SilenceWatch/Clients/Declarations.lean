import SilenceWatch.Clients.LaravelMonitor
import SilenceWatch.Clients.ScheduleReader
import SilenceWatch.Library.Run

/-!
# Declaring again

The monitors of the client libraries declare all that they know in one request for the jobs
that all instances share, and another one for the jobs of this instance. What the requests
return replaces the ping keys that were known, also where one of them failed; a job whose key
is gone is not reported any more. The runs below are the declarations of one process.
-/

namespace SilenceWatch

open Transition

section Answers

variable {Key : Type}

/-- Ping keys by the keys of their jobs, the one that counts first. -/
abbrev PingKeys (Key : Type) := List (Key × Uuid)

/-- What the server answers for a key: nothing for a job that it leaves out, and nothing at
all where the request fails. -/
abbrev SyncAnswer (Key : Type) := Key → Option Uuid

/-- The ping keys a request returns. -/
def SyncAnswer.pingKeys (answer : SyncAnswer Key) (keys : List Key) : PingKeys Key :=
  keys.filterMap fun key => (answer key).map fun pingKey => (key, pingKey)

/-- The jobs with a ping key are those that are listed with one. -/
theorem isSome_lookup_iff [BEq Key] [LawfulBEq Key] {keys : PingKeys Key} {key : Key} :
    (keys.lookup key).isSome = true ↔ key ∈ keys.map Prod.fst := by
  rw [List.lookup_isSome_iff, List.mem_map]
  constructor
  · rintro ⟨entry, hentry, hkey⟩
    exact ⟨entry, hentry, (beq_iff_eq.mp hkey).symm⟩
  · rintro ⟨entry, hentry, rfl⟩
    exact ⟨entry, hentry, beq_self_eq_true _⟩

/-- A request returns the keys of its jobs that are answered. -/
theorem SyncAnswer.mem_pingKeys {answer : SyncAnswer Key} {keys : List Key} {key : Key} :
    key ∈ (answer.pingKeys keys).map Prod.fst ↔ key ∈ keys ∧ (answer key).isSome = true := by
  unfold SyncAnswer.pingKeys
  rw [List.mem_map]
  constructor
  · rintro ⟨entry, hentry, rfl⟩
    obtain ⟨job, hjob, hanswer⟩ := List.mem_filterMap.mp hentry
    obtain ⟨pingKey, hpingKey, rfl⟩ := Option.map_eq_some_iff.mp hanswer
    exact ⟨hjob, by rw [hpingKey]; rfl⟩
  · rintro ⟨hkey, hanswer⟩
    obtain ⟨pingKey, hpingKey⟩ := Option.isSome_iff_exists.mp hanswer
    exact ⟨(key, pingKey), List.mem_filterMap.mpr ⟨key, hkey, by rw [hpingKey]; rfl⟩, rfl⟩

end Answers

section Groups

variable {Job Key : Type} {isShared : Job → Bool} {hasEnvironment : Bool} {jobs : List Job}

/-- The jobs that are watched for all instances, and those that are watched on this one alone. An
instance without an environment of its own watches none alone. -/
def splitBy (isShared : Job → Bool) (hasEnvironment : Bool) (jobs : List Job) :
    List Job × List Job :=
  let shared := jobs.filter isShared
  let perInstance := jobs.filter fun job => !isShared job
  if !perInstance.isEmpty && !hasEnvironment then (shared ++ perInstance, [])
  else (shared, perInstance)

/-- A split divides the jobs. -/
theorem mem_splitBy {job : Job} : job ∈ (splitBy isShared hasEnvironment jobs).1 ∨
    job ∈ (splitBy isShared hasEnvironment jobs).2 ↔ job ∈ jobs := by
  have hgroups : job ∈ jobs.filter isShared ∨ job ∈ jobs.filter (fun job => !isShared job) ↔
      job ∈ jobs := by
    rw [List.mem_filter, List.mem_filter]
    cases isShared job <;> simp
  unfold splitBy
  dsimp only
  split_ifs
  · rw [← hgroups, List.mem_append]
    simp
  · exact hgroups

/-- The same holds of what the groups are mapped to. -/
theorem mem_map_splitBy (keyOf : Job → Key) {key : Key} :
    key ∈ (splitBy isShared hasEnvironment jobs).1.map keyOf ∨
      key ∈ (splitBy isShared hasEnvironment jobs).2.map keyOf ↔ key ∈ jobs.map keyOf := by
  simp only [List.mem_map]
  constructor
  · rintro (⟨job, hjob, hkey⟩ | ⟨job, hjob, hkey⟩)
    · exact ⟨job, mem_splitBy.mp (Or.inl hjob), hkey⟩
    · exact ⟨job, mem_splitBy.mp (Or.inr hjob), hkey⟩
  · rintro ⟨job, hjob, hkey⟩
    rcases mem_splitBy.mpr hjob with hshared | hperInstance
    · exact Or.inl ⟨job, hshared, hkey⟩
    · exact Or.inr ⟨job, hperInstance, hkey⟩

end Groups

namespace Python

/-- The key that identifies a job. -/
abbrev JobKey := List Char

/-- What a declaration reads of a `DiscoveredJob`, apart from what it sends. -/
structure DiscoveredJob where
  key : JobKey
  cron : Option (List Char)
  deriving DecidableEq

/-- What a declaration reads of the configuration. -/
structure Config where
  usable : Bool
  autoRegister : Bool
  perInstanceJobs : List (List Char)
  instanceEnvironment : Option (List Char)

/-- `is_per_instance`. -/
def Config.isPerInstance (config : Config) (jobKey : JobKey) : Bool :=
  config.perInstanceJobs.any fun pattern =>
    let pattern := strip isPythonSpace pattern
    pattern.getLast? == some '*' && pattern.dropLast.isPrefixOf jobKey ||
      !pattern.isEmpty && jobKey == pattern

/-- A job that is watched for all instances. One worker runs each run of a Celery task, so that
the others would never report it. -/
def Config.isShared (config : Config) (job : DiscoveredJob) : Bool :=
  !config.isPerInstance job.key || "celery:".toList.isPrefixOf job.key

/-- `_split`. -/
def Config.split (config : Config) (jobs : List DiscoveredJob) :
    List DiscoveredJob × List DiscoveredJob :=
  splitBy config.isShared config.instanceEnvironment.isSome jobs

/-- What the requests for a list of jobs return, and whether each of them returned anything. A
group without jobs is not requested. -/
def Config.request (config : Config) (answer : SyncAnswer JobKey) (jobs : List DiscoveredJob) :
    PingKeys JobKey × Bool :=
  let (shared, perInstance) := config.split jobs
  let sharedKeys := answer.pingKeys (shared.map DiscoveredJob.key)
  let perInstanceKeys := answer.pingKeys (perInstance.map DiscoveredJob.key)
  (perInstanceKeys ++ sharedKeys,
    (shared.isEmpty || !sharedKeys.isEmpty) && (perInstance.isEmpty || !perInstanceKeys.isEmpty))

/-- `_supported_jobs`. -/
def supportedJobs (found : Keyed.OrderedMap String (List DiscoveredJob)) : List DiscoveredJob :=
  (found.entries.flatMap Prod.snd).foldl
    (fun jobs job =>
      if job.cron.isSome && !isSupported job.cron then jobs
      else if (jobs.map DiscoveredJob.key).contains job.key then jobs
      else jobs ++ [job])
    []

/-- `_RETRY_AFTER_SECONDS`, in the microseconds of the clock. -/
def retryAfter : ℕ := 60 * 1000000

/-- The monitor, with the ping keys of its sender. -/
structure Monitor where
  jobs : Keyed.OrderedMap String (List DiscoveredJob)
  nextAttempt : ℕ
  registered : Bool
  pingKeys : PingKeys JobKey
  /-- An observer's note: the jobs that had a ping key after a declaration that succeeded. -/
  had : List JobKey
  /-- An observer's note: the jobs of the last declaration to which any key was returned. -/
  answeredJobs : List JobKey

/-- A declaration by an integration, or a heartbeat of a job, which declares what is not yet
declared: with what the clock shows, and what the requests would return. -/
inductive MonitorEvent where
  | declare (integration : String) (jobs : List DiscoveredJob) (times : CallTimes)
    (answer : SyncAnswer JobKey)
  | report (times : CallTimes) (answer : SyncAnswer JobKey)

def MonitorEvent.times : MonitorEvent → CallTimes
  | .declare _ _ times _ => times
  | .report times _ => times

def MonitorEvent.answer : MonitorEvent → SyncAnswer JobKey
  | .declare _ _ _ answer => answer
  | .report _ answer => answer

namespace Monitor

/-- The monitor of a new process. -/
def fresh : Monitor := ⟨.empty, 0, false, [], [], []⟩

/-- `knows` of the sender. -/
def knows (m : Monitor) (jobKey : JobKey) : Bool := (m.pingKeys.lookup jobKey).isSome

/-- The keys of the jobs that a declaration sends. -/
def declared (m : Monitor) : List JobKey := (supportedJobs m.jobs).map DiscoveredJob.key

/-- `register` of the sender. -/
def register (m : Monitor) (keys : PingKeys JobKey) : Monitor :=
  { m with pingKeys := keys, answeredJobs := m.declared }

variable (config : Config)

/-- `ensure_registered`. -/
def ensureRegistered (times : CallTimes) (answer : SyncAnswer JobKey) (m : Monitor) :
    Monitor × Bool :=
  if !config.usable || !config.autoRegister then (m, false)
  else if m.registered then (m, true)
  else if times.before < m.nextAttempt then (m, false)
  else
    let jobs := supportedJobs m.jobs
    if jobs.isEmpty then (m, false)
    else
      let (keys, complete) := config.request answer jobs
      let m := if keys.isEmpty then m else m.register keys
      if complete then
        ({ m with registered := true, had := m.had ++ keys.map Prod.fst }, true)
      else ({ m with nextAttempt := times.answered + retryAfter }, false)

/-- What `declare` does before it calls `ensure_registered`. -/
def declaring (integration : String) (jobs : List DiscoveredJob) (m : Monitor) : Monitor :=
  { m with jobs := m.jobs.set integration jobs, registered := false, nextAttempt := 0 }

/-- The state in which an event calls `ensure_registered`. -/
def prepare (m : Monitor) : MonitorEvent → Monitor
  | .declare integration jobs _ _ => m.declaring integration jobs
  | .report _ _ => m

/-- What an event leads to. -/
def step (m : Monitor) (e : MonitorEvent) : Monitor :=
  ((m.prepare e).ensureRegistered config e.times e.answer).1

/-- Each job that has had a ping key and is declared is reported with one. -/
def KeepsReporting (m : Monitor) : Prop :=
  ∀ key ∈ m.had, key ∈ m.declared → m.knows key = true

/-- The monitor sends its declaration now. -/
def Due (times : CallTimes) (m : Monitor) : Prop :=
  config.usable = true ∧ config.autoRegister = true ∧ m.registered = false ∧
    m.nextAttempt ≤ times.before

/-- A key is returned for some job of the declaration. -/
def Answered (answer : SyncAnswer JobKey) (m : Monitor) : Prop :=
  ∃ key ∈ m.declared, (answer key).isSome = true

/-- If anything is returned, then a key for each declared job that has had one; if nothing is,
each of them was in the last declaration to which anything was returned. -/
def Covered (answer : SyncAnswer JobKey) (m : Monitor) : Prop :=
  ∀ key ∈ m.had, key ∈ m.declared →
    (m.Answered answer → (answer key).isSome = true) ∧
      (¬ m.Answered answer → key ∈ m.answeredJobs)

end Monitor

section Requests

variable {config : Config} {answer : SyncAnswer JobKey} {jobs : List DiscoveredJob}

/-- The requests return the keys of the jobs that are answered. -/
theorem Config.mem_request (config : Config) {key : JobKey} :
    key ∈ (config.request answer jobs).1.map Prod.fst ↔
      key ∈ jobs.map DiscoveredJob.key ∧ (answer key).isSome = true := by
  unfold Config.request Config.split
  dsimp only
  rw [List.map_append, List.mem_append, SyncAnswer.mem_pingKeys, SyncAnswer.mem_pingKeys,
    ← or_and_right, or_comm, mem_map_splitBy]

/-- Where each request returned something, something was returned. -/
theorem Config.request_complete (hjobs : jobs ≠ [])
    (hcomplete : (config.request answer jobs).2 = true) : (config.request answer jobs).1 ≠ [] := by
  intro hempty
  unfold Config.request Config.split at hcomplete hempty
  dsimp only at hcomplete hempty
  obtain ⟨hperInstance, hshared⟩ := List.append_eq_nil_iff.mp hempty
  rw [hperInstance, hshared] at hcomplete
  obtain ⟨job, hjob⟩ := List.exists_mem_of_ne_nil _ hjobs
  simp only [List.isEmpty_nil, Bool.not_true, Bool.or_false, Bool.and_eq_true,
    List.isEmpty_iff] at hcomplete
  have hgroup : job ∈ (splitBy config.isShared config.instanceEnvironment.isSome jobs).1 ∨
      job ∈ (splitBy config.isShared config.instanceEnvironment.isSome jobs).2 :=
    mem_splitBy.mpr hjob
  rw [hcomplete.1, hcomplete.2] at hgroup
  simp at hgroup

end Requests

namespace Monitor

variable {config : Config} {m : Monitor} {answer : SyncAnswer JobKey} {times : CallTimes}

/-- Nothing changes where nothing is sent. -/
theorem ensureRegistered_of_not_due (answer : SyncAnswer JobKey) (h : ¬ m.Due config times) :
    (m.ensureRegistered config times answer).1 = m := by
  unfold ensureRegistered
  split_ifs with hconfig hregistered hwait
  · rfl
  · rfl
  · rfl
  · refine absurd ⟨?_, ?_, ?_, ?_⟩ h
    · simp_all
    · simp_all
    · simpa using hregistered
    · exact Nat.not_lt.mp hwait

/-- The keys that are returned are there exactly if some job is answered. -/
theorem answered_iff (config : Config) :
    m.Answered answer ↔ (config.request answer (supportedJobs m.jobs)).1 ≠ [] := by
  unfold Answered declared
  simp only [← config.mem_request]
  constructor
  · rintro ⟨key, hkey⟩ hempty
    rw [hempty] at hkey
    exact List.not_mem_nil hkey
  · intro hkeys
    obtain ⟨entry, hentry⟩ := List.exists_mem_of_ne_nil _ hkeys
    exact ⟨entry.1, List.mem_map_of_mem hentry⟩

/-- What is sent where the jobs are declared. -/
theorem ensureRegistered_of_due (hdue : m.Due config times) (hjobs : supportedJobs m.jobs ≠ []) :
    (m.ensureRegistered config times answer).1 =
      let (keys, complete) := config.request answer (supportedJobs m.jobs)
      let m := if keys.isEmpty then m else m.register keys
      if complete then { m with registered := true, had := m.had ++ keys.map Prod.fst }
      else { m with nextAttempt := times.answered + retryAfter } := by
  obtain ⟨husable, hauto, hregistered, hwait⟩ := hdue
  unfold ensureRegistered
  rw [husable, hauto, hregistered, if_neg (by decide), if_neg (by decide),
    if_neg (Nat.not_lt.mpr hwait)]
  dsimp only
  rw [if_neg (by simpa using hjobs)]
  split_ifs <;> rfl

/-- What a declaration leads to where nothing is returned. -/
theorem ensureRegistered_of_unanswered (config : Config) (h : ¬ m.Answered answer) :
    let m' := (m.ensureRegistered config times answer).1
    m'.jobs = m.jobs ∧ m'.pingKeys = m.pingKeys ∧ m'.answeredJobs = m.answeredJobs ∧
      m'.had = m.had := by
  by_cases hdue : m.Due config times
  · by_cases hjobs : supportedJobs m.jobs = []
    · have hsame : (m.ensureRegistered config times answer).1 = m := by
        unfold ensureRegistered
        rw [hjobs]
        split_ifs <;> rfl
      rw [hsame]
      exact ⟨rfl, rfl, rfl, rfl⟩
    · have hkeys : (config.request answer (supportedJobs m.jobs)).1 = [] :=
        not_not.mp fun hkeys => h ((answered_iff config).mpr hkeys)
      have hcomplete : (config.request answer (supportedJobs m.jobs)).2 = false :=
        Bool.eq_false_iff.mpr fun hcomplete => Config.request_complete hjobs hcomplete hkeys
      rw [ensureRegistered_of_due hdue hjobs]
      dsimp only
      rw [hkeys, hcomplete]
      exact ⟨rfl, rfl, rfl, rfl⟩
  · rw [ensureRegistered_of_not_due _ hdue]
    exact ⟨rfl, rfl, rfl, rfl⟩

/-- What a declaration that is sent leads to where anything is returned. -/
theorem ensureRegistered_of_answered (hdue : m.Due config times) (h : m.Answered answer) :
    let m' := (m.ensureRegistered config times answer).1
    m'.jobs = m.jobs ∧ m'.answeredJobs = m.declared ∧
      (∀ key, m'.knows key = true ↔ key ∈ m.declared ∧ (answer key).isSome = true) ∧
      (∀ key ∈ m.had, key ∈ m'.had) ∧ ∀ key ∈ m'.had, key ∈ m.had ∨ m'.knows key = true := by
  have hjobs : supportedJobs m.jobs ≠ [] := by
    obtain ⟨key, hkey, _⟩ := h
    intro hempty
    unfold declared at hkey
    rw [hempty] at hkey
    exact List.not_mem_nil hkey
  have hkeys : (config.request answer (supportedJobs m.jobs)).1.isEmpty = false := by
    simpa using (answered_iff config).mp h
  rw [ensureRegistered_of_due hdue hjobs]
  dsimp only
  rw [hkeys]
  cases (config.request answer (supportedJobs m.jobs)).2 with
  | true =>
    refine ⟨rfl, rfl, fun key => isSome_lookup_iff.trans config.mem_request, fun key hkey => ?_,
      fun key hkey => ?_⟩
    · exact List.mem_append_left _ hkey
    · rcases List.mem_append.mp hkey with hhad | hnew
      · exact Or.inl hhad
      · exact Or.inr (isSome_lookup_iff.mpr hnew)
  | false =>
    exact ⟨rfl, rfl, fun key => isSome_lookup_iff.trans config.mem_request, fun key hkey => hkey,
      fun key hkey => Or.inl hkey⟩

/-- What holds between the declarations. -/
structure Sound (config : Config) (m : Monitor) : Prop where
  reporting : m.KeepsReporting
  known_answered : ∀ key, m.knows key = true → key ∈ m.answeredJobs
  had_known : ∀ key ∈ m.had, key ∈ m.answeredJobs → m.knows key = true
  had_enabled : ¬ (config.usable = true ∧ config.autoRegister = true) → m.had = []

theorem sound_fresh (config : Config) : fresh.Sound config where
  reporting := fun _ hkey => absurd hkey List.not_mem_nil
  known_answered := fun _ hkey => absurd hkey Bool.false_ne_true
  had_known := fun _ hkey => absurd hkey List.not_mem_nil
  had_enabled := fun _ => rfl

variable {e : MonitorEvent}

/-- An event before its request leaves what is known and noted as it is. -/
theorem prepare_eq (m : Monitor) (e : MonitorEvent) : (m.prepare e).pingKeys = m.pingKeys ∧
    (m.prepare e).had = m.had ∧ (m.prepare e).answeredJobs = m.answeredJobs := by
  cases e <;> exact ⟨rfl, rfl, rfl⟩

/-- A declaration is sent at once, unless it never is. -/
theorem prepare_of_not_due (h : ¬ (m.prepare e).Due config e.times) :
    m.prepare e = m ∨ ¬ (config.usable = true ∧ config.autoRegister = true) := by
  cases e with
  | declare integration jobs times answer =>
    exact Or.inr fun henabled => h ⟨henabled.1, henabled.2, rfl, Nat.zero_le _⟩
  | report times answer => exact Or.inl rfl

/-- **Step.** After an event each declared job that has had a key is reported, exactly if the
event covers them or sends nothing. -/
theorem Sound.keepsReporting_step_iff (h : m.Sound config) (e : MonitorEvent) :
    (m.step config e).KeepsReporting ↔
      ((m.prepare e).Due config e.times → (m.prepare e).Covered e.answer) := by
  obtain ⟨hpingKeys, hhad, hansweredJobs⟩ := prepare_eq m e
  unfold step
  by_cases hdue : (m.prepare e).Due config e.times
  · rw [imp_iff_right hdue]
    by_cases hanswered : (m.prepare e).Answered e.answer
    · obtain ⟨hjobs, _, hknows, hkept, hnew⟩ := ensureRegistered_of_answered hdue hanswered
      unfold KeepsReporting Covered
      rw [declared, hjobs]
      constructor
      · intro hreport key hkey hdeclared
        have hknown := hreport key (hkept key hkey) hdeclared
        exact ⟨fun _ => ((hknows key).mp hknown).2, fun hnone => absurd hanswered hnone⟩
      · intro hcovered key hkey hdeclared
        rcases hnew key hkey with hold | hknown
        · exact (hknows key).mpr ⟨hdeclared, (hcovered key hold hdeclared).1 hanswered⟩
        · exact hknown
    · obtain ⟨hjobs, hkeys, _, hsame⟩ :=
        ensureRegistered_of_unanswered config hanswered
      unfold KeepsReporting Covered knows
      rw [declared, hjobs, hkeys, hsame, hpingKeys, hhad, hansweredJobs]
      constructor
      · intro hreport key hkey hdeclared
        exact ⟨fun hsome => absurd hsome hanswered,
          fun _ => h.known_answered key (hreport key hkey hdeclared)⟩
      · intro hcovered key hkey hdeclared
        exact h.had_known key hkey ((hcovered key hkey hdeclared).2 hanswered)
  · rw [ensureRegistered_of_not_due _ hdue]
    refine ⟨fun _ hdue' => absurd hdue' hdue, fun _ => ?_⟩
    rcases prepare_of_not_due hdue with hsame | hdisabled
    · rw [hsame]
      exact h.reporting
    · intro key hkey
      rw [hhad, h.had_enabled hdisabled] at hkey
      exact absurd hkey List.not_mem_nil

/-- What is known and noted stays. -/
theorem Sound.of_same {m' : Monitor} (h : m.Sound config) (hreport : m'.KeepsReporting)
    (hkeys : m'.pingKeys = m.pingKeys) (hnote : m'.answeredJobs = m.answeredJobs)
    (hhad : m'.had = m.had) : m'.Sound config where
  reporting := hreport
  known_answered key hkey := by
    unfold knows at hkey
    rw [hkeys] at hkey
    exact hnote ▸ h.known_answered key hkey
  had_known key hkey hjob := by
    unfold knows
    rw [hkeys]
    exact h.had_known key (hhad ▸ hkey) (hnote ▸ hjob)
  had_enabled hdisabled := hhad ▸ h.had_enabled hdisabled

/-- What holds between the declarations lasts as long as the jobs are reported. -/
theorem Sound.step (h : m.Sound config) (hreport : (m.step config e).KeepsReporting) :
    (m.step config e).Sound config := by
  obtain ⟨hpingKeys, hhad, hansweredJobs⟩ := prepare_eq m e
  by_cases hdue : (m.prepare e).Due config e.times
  · by_cases hanswered : (m.prepare e).Answered e.answer
    · obtain ⟨hjobs, hnote, hknows, hkept, hnew⟩ := ensureRegistered_of_answered hdue hanswered
      have hdeclared : (m.step config e).declared = (m.prepare e).declared := by
        unfold Monitor.step declared
        rw [hjobs]
      refine ⟨hreport, fun key hkey => ?_, fun key hkey hjob => ?_, fun hdisabled => ?_⟩
      · exact hnote ▸ ((hknows key).mp hkey).1
      · exact hreport key hkey (hdeclared ▸ hnote ▸ hjob)
      · exact absurd ⟨hdue.1, hdue.2.1⟩ hdisabled
    · obtain ⟨_, hkeys, hnote, hsame⟩ :=
        ensureRegistered_of_unanswered config hanswered
      exact h.of_same hreport (hkeys.trans hpingKeys) (hnote.trans hansweredJobs)
        (hsame.trans hhad)
  · have hsame := ensureRegistered_of_not_due e.answer hdue
    exact h.of_same hreport ((congrArg pingKeys hsame).trans hpingKeys)
      ((congrArg answeredJobs hsame).trans hansweredJobs) ((congrArg had hsame).trans hhad)

/-- In a run the jobs are reported throughout, exactly if each declaration that is sent covers
those that have had a key. -/
theorem throughout_keepsReporting_iff (config : Config) (events : List MonitorEvent) :
    Throughout (step config) KeepsReporting fresh events ↔
      Along (step config)
        (fun m e => (m.prepare e).Due config e.times → (m.prepare e).Covered e.answer)
        fresh events :=
  throughout_iff_along_within (fun _ e h => h.keepsReporting_step_iff e)
    (fun _ _ h hreport => h.step hreport) (sound_fresh config) (sound_fresh config).reporting

end Monitor

end Python

namespace Laravel

/-- What a declaration reads of the settings. -/
structure Settings where
  environment : List Char
  prune : Bool
  defaultGrace : ℤ
  perInstanceTasks : List Bytes
  instanceEnvironment : Option (List Char)

/-- The body of a request; its source is always `laravel`. -/
structure Payload where
  environment : List Char
  prune : Bool
  checks : List (Task × ℤ)
  deriving DecidableEq

/-- `Monitor::payload`. -/
def Settings.payload (settings : Settings) (tasks : List Task) (environment : List Char) :
    Payload where
  environment := environment
  prune := settings.prune
  checks := tasks.map fun task => (task, max 0 settings.defaultGrace)

/-- `Monitor::isPerInstance`. -/
def Settings.isPerInstance (settings : Settings) (key : Bytes) : Bool :=
  settings.perInstanceTasks.any fun pattern =>
    let pattern := trim pattern
    if (bytes "*").isSuffixOf pattern then pattern.dropLast.isPrefixOf key
    else !pattern.isEmpty && key == pattern

/-- A task that is watched for all servers. One server runs each run of a task that runs on one
server, so that the others would never report it. -/
def Settings.isShared (settings : Settings) (runsOnOneServer : Bytes → Bool) (task : Task) :
    Bool :=
  !settings.isPerInstance task.key || runsOnOneServer task.key

/-- `Monitor::split`, without what it warns about. -/
def Settings.split (settings : Settings) (runsOnOneServer : Bytes → Bool) (tasks : List Task) :
    List Task × List Task :=
  splitBy (settings.isShared runsOnOneServer) settings.instanceEnvironment.isSome tasks

/-- The requests of a declaration. -/
def Settings.payloads (settings : Settings) (runsOnOneServer : Bytes → Bool)
    (tasks : List Task) : List Payload :=
  let (shared, perInstance) := settings.split runsOnOneServer tasks
  (if shared.isEmpty then [] else [settings.payload shared settings.environment]) ++
    if perInstance.isEmpty then []
    else [settings.payload perInstance (settings.instanceEnvironment.getD [])]

/-- What the cache keeps of a declaration. -/
structure CachedDeclaration (Hash : Type) where
  hash : Hash
  keys : PingKeys Bytes

/-- A call of `Monitor::declare`, with what the reader, the cache and the server give. -/
structure Declaration (Hash : Type) where
  force : Bool
  /-- None where reading the schedule raises. -/
  tasks : Option (List Task)
  runsOnOneServer : Bytes → Bool
  /-- None where reading the cache raises. -/
  cached : Option (Option (CachedDeclaration Hash))
  /-- The requests that are not answered with a success. -/
  refused : Payload → Bool
  answer : SyncAnswer Bytes
  /-- Writing to the cache does not raise. -/
  stores : Bool

/-- The monitor of a process. -/
structure Monitor where
  pingKeys : Option (PingKeys Bytes)
  /-- An observer's note: the tasks that had a ping key after a declaration that succeeded. -/
  had : List Bytes
  /-- An observer's note: the tasks of the latest declaration. -/
  declared : List Bytes

namespace Monitor

/-- The monitor of a new process. -/
def fresh : Monitor := ⟨none, [], []⟩

/-- A task is reported with a ping key. -/
def knows (m : Monitor) (key : Bytes) : Bool := ((m.pingKeys.getD []).lookup key).isSome

/-- A declaration that does not go through. -/
def fail (m : Monitor) : Monitor × Option ℕ := ({ m with pingKeys := some [] }, none)

/-- A declaration that goes through. -/
def install (m : Monitor) (keys : PingKeys Bytes) : Monitor × Option ℕ :=
  ({ m with pingKeys := some keys, had := m.had ++ keys.map Prod.fst }, some keys.length)

variable {Hash : Type} [DecidableEq Hash] (hash : List Payload → Hash) (settings : Settings)

/-- What the cache keeps of this very declaration, where it is asked. -/
def hit (d : Declaration Hash) (tasks : List Task) : Option (Option (PingKeys Bytes)) :=
  if d.force then some none
  else d.cached.map fun cached =>
    (cached.filter fun c => c.hash = hash (settings.payloads d.runsOnOneServer tasks)).map
      CachedDeclaration.keys

/-- `Monitor::declare`. -/
def declare (m : Monitor) (d : Declaration Hash) : Monitor × Option ℕ :=
  match d.tasks with
  | none => m.fail
  | some [] => ({ m with pingKeys := some [], declared := [] }, some 0)
  | some tasks =>
    let m := { m with declared := tasks.map Task.key }
    match hit hash settings d tasks with
    | none => m.fail
    | some (some keys) => m.install keys
    | some none =>
      let payloads := settings.payloads d.runsOnOneServer tasks
      if payloads.any d.refused then m.fail
      else if d.stores then
        m.install <| payloads.flatMap fun payload =>
          d.answer.pingKeys (payload.checks.map fun check => check.1.key)
      else m.fail

/-- What a declaration leads to. -/
def step (m : Monitor) (d : Declaration Hash) : Monitor := (m.declare hash settings d).1

/-- Each task that has had a ping key and is declared is reported with one. -/
def KeepsReporting (m : Monitor) : Prop :=
  ∀ key ∈ m.had, key ∈ m.declared → m.knows key = true

/-- The schedule is read, and each of its tasks that has had a key is in the cached declaration
if it is the same one, and else every request succeeds, the task is answered, and the cache takes
the keys. Where the schedule is not read, no task of the declaration before has had a key. -/
def Covered (m : Monitor) (d : Declaration Hash) : Prop :=
  match d.tasks with
  | none => ∀ key ∈ m.had, key ∉ m.declared
  | some tasks => ∀ key ∈ m.had, key ∈ tasks.map Task.key →
    match hit hash settings d tasks with
    | none => False
    | some (some keys) => key ∈ keys.map Prod.fst
    | some none =>
      (∀ payload ∈ settings.payloads d.runsOnOneServer tasks, d.refused payload = false) ∧
        (d.answer key).isSome = true ∧ d.stores = true

section Requests

variable {Hash : Type} {settings : Settings} {d : Declaration Hash}

/-- A request is sent for a group unless it is empty, which has nothing to return. -/
theorem mem_group {tasks : List Task} {environment : List Char} {key : Bytes} :
    key ∈ ((if tasks.isEmpty then [] else [settings.payload tasks environment]).flatMap
        fun payload =>
          d.answer.pingKeys (payload.checks.map fun check => check.1.key)).map Prod.fst ↔
      key ∈ tasks.map Task.key ∧ (d.answer key).isSome = true := by
  cases tasks with
  | nil => simp
  | cons task rest =>
    rw [List.isEmpty_cons, if_neg Bool.false_ne_true, List.flatMap_singleton,
      SyncAnswer.mem_pingKeys]
    unfold Settings.payload
    rw [List.map_map]
    rfl

/-- The requests of a declaration return the keys of the tasks that are answered. -/
theorem mem_payloads {tasks : List Task} {key : Bytes} :
    key ∈ ((settings.payloads d.runsOnOneServer tasks).flatMap fun payload =>
        d.answer.pingKeys (payload.checks.map fun check => check.1.key)).map Prod.fst ↔
      key ∈ tasks.map Task.key ∧ (d.answer key).isSome = true := by
  unfold Settings.payloads Settings.split
  dsimp only
  rw [List.flatMap_append, List.map_append, List.mem_append, mem_group, mem_group,
    ← or_and_right, mem_map_splitBy]

end Requests

variable {hash settings} {m : Monitor} {d : Declaration Hash}

/-- After a failure no task is reported. -/
theorem keepsReporting_fail : m.fail.1.KeepsReporting ↔ ∀ key ∈ m.had, key ∉ m.declared := by
  constructor
  · intro hreport key hkey hdeclared
    exact absurd (hreport key hkey hdeclared) Bool.false_ne_true
  · intro hnone key hkey hdeclared
    exact absurd hdeclared (hnone key hkey)

/-- After a success the tasks are reported whose keys came with it. -/
theorem keepsReporting_install {keys : PingKeys Bytes} : (m.install keys).1.KeepsReporting ↔
    ∀ key ∈ m.had, key ∈ m.declared → key ∈ keys.map Prod.fst := by
  constructor
  · intro hreport key hkey hdeclared
    exact isSome_lookup_iff.mp (hreport key (List.mem_append_left _ hkey) hdeclared)
  · intro hkeys key hkey hdeclared
    rcases List.mem_append.mp hkey with hold | hnew
    · exact isSome_lookup_iff.mpr (hkeys key hold hdeclared)
    · exact isSome_lookup_iff.mpr hnew

/-- **Step.** After a declaration each declared task that has had a key is reported, exactly if
the declaration covers them. -/
theorem keepsReporting_step_iff :
    (m.step hash settings d).KeepsReporting ↔ m.Covered hash settings d := by
  unfold step declare Covered
  cases d.tasks with
  | none => exact keepsReporting_fail
  | some tasks =>
    cases tasks with
    | nil =>
      constructor
      · intro _ key _ hkey
        exact absurd hkey List.not_mem_nil
      · intro _ key _ hkey
        exact absurd hkey List.not_mem_nil
    | cons task rest =>
      dsimp only
      cases hit hash settings d (task :: rest) with
      | none => exact keepsReporting_fail
      | some cached =>
        cases cached with
        | some keys => exact keepsReporting_install
        | none =>
          dsimp only
          have haccepted :
              (settings.payloads d.runsOnOneServer (task :: rest)).any d.refused = false ↔
                ∀ payload ∈ settings.payloads d.runsOnOneServer (task :: rest),
                d.refused payload = false := by
            simp only [List.any_eq_false, Bool.not_eq_true]
          split_ifs with hrefused hstores
          · rw [keepsReporting_fail]
            refine forall₂_congr fun key _ => imp_congr_right fun _ => ?_
            rw [← haccepted, hrefused]
            simp
          · rw [keepsReporting_install]
            refine forall₂_congr fun key _ => imp_congr_right fun hkey => ?_
            rw [mem_payloads, ← haccepted]
            simp only [Bool.not_eq_true] at hrefused
            exact ⟨fun h => ⟨hrefused, h.2, hstores⟩, fun h => ⟨hkey, h.2.1⟩⟩
          · rw [keepsReporting_fail]
            refine forall₂_congr fun key _ => imp_congr_right fun _ => ?_
            simp only [false_iff, not_and]
            exact fun _ _ => hstores

/-- In a run the tasks are reported throughout, exactly if each declaration covers those that
have had a key. -/
theorem throughout_keepsReporting_iff (hash : List Payload → Hash) (settings : Settings)
    (declarations : List (Declaration Hash)) :
    Throughout (step hash settings) KeepsReporting fresh declarations ↔
      Along (step hash settings) (Covered hash settings) fresh declarations := by
  have hfresh : fresh.KeepsReporting := fun _ hkey => absurd hkey List.not_mem_nil
  exact throughout_iff_along_within (I := fun _ => True)
    (fun _ _ _ => keepsReporting_step_iff)
    (fun _ _ _ _ => trivial) trivial hfresh

end Monitor

end Laravel

/-- **Declaring again.** In every run of declarations each declared job that has had a ping key
is reported with one, if and only if each declaration that is sent covers those jobs: for the
monitor of the Python client and for that of the Laravel client. -/
theorem declarations_keepReporting_iff (config : Python.Config)
    (events : List Python.MonitorEvent) {Hash : Type} [DecidableEq Hash]
    (hash : List Laravel.Payload → Hash) (settings : Laravel.Settings)
    (declarations : List (Laravel.Declaration Hash)) :
    (Throughout (Python.Monitor.step config) Python.Monitor.KeepsReporting Python.Monitor.fresh
        events ↔
      Along (Python.Monitor.step config)
        (fun m e => (m.prepare e).Due config e.times → (m.prepare e).Covered e.answer)
        Python.Monitor.fresh events) ∧
    (Throughout (Laravel.Monitor.step hash settings) Laravel.Monitor.KeepsReporting
        Laravel.Monitor.fresh declarations ↔
      Along (Laravel.Monitor.step hash settings) (Laravel.Monitor.Covered hash settings)
        Laravel.Monitor.fresh declarations) :=
  ⟨Python.Monitor.throughout_keepsReporting_iff config events,
    Laravel.Monitor.throughout_keepsReporting_iff hash settings declarations⟩

/-- A configuration that watches the job `b` on each instance. -/
def instanceConfig : Python.Config := ⟨true, true, [['b']], some ['p', '.', 'w']⟩

/-- A declaration of the jobs `a` and `b`, to which the keys of some are returned. -/
def declaresBoth (second : ℕ) (answered : List Python.JobKey) : Python.MonitorEvent :=
  .declare "celery" [⟨['a'], none⟩, ⟨['b'], none⟩] ⟨second * 1000000, second * 1000000⟩
    fun key => if answered.contains key then some 1 else none

/-- A forced declaration of one task, whose requests fail or succeed. -/
def declaresOne (refused : Bool) : Laravel.Declaration Unit where
  force := true
  tasks := some [⟨[97], [97], ['@'], ['U']⟩]
  runsOnOneServer _ := false
  cached := some none
  refused _ := refused
  answer _ := some 1
  stores := true

/-- The request for the jobs of the instance fails the second time, and one of them is not
reported any more; a forced declaration that fails leaves no task. -/
theorem not_declarations_keepReporting :
    ¬ (∀ config events, Throughout (Python.Monitor.step config) Python.Monitor.KeepsReporting
        Python.Monitor.fresh events) ∧
    ¬ (∀ settings declarations, Throughout
        (Laravel.Monitor.step (fun _ : List Laravel.Payload => ()) settings)
        Laravel.Monitor.KeepsReporting Laravel.Monitor.fresh declarations) := by
  constructor
  · intro h
    have hlast := (h instanceConfig [declaresBoth 1 [['a'], ['b']], declaresBoth 2 [['a']]]).2.2
    exact absurd (hlast ['b'] (by decide) (by decide)) (by decide)
  · intro h
    have hlast := (h ⟨['p'], true, 0, [], none⟩ [declaresOne false, declaresOne true]).2.2
    exact absurd (hlast [97] (by decide) (by decide)) (by decide)

end SilenceWatch
