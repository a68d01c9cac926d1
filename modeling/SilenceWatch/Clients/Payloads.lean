import SilenceWatch.Checks.Schema
import SilenceWatch.Clients.Discovery

/-!
# Payloads of the client libraries

What the Python and the Java client write for the jobs that were found, and when the server takes
it. A declaration is one request: the schema has bounds for every field of every job, and one job
outside of them costs the others their monitoring. The clients keep to some of the bounds only.
-/

namespace SilenceWatch

section Server

variable {isValidTimezone : String → Bool} {check parsed : SyncCheck} {payload : SyncPayload}

/-- The server takes a payload: its schema accepts it, and no two jobs have one key. -/
def SyncPayload.Declares (isValidTimezone : String → Bool) (payload : SyncPayload) : Prop :=
  ∃ request, syncRequestSchema isValidTimezone payload = some request ∧
    (request.checks.map SyncCheck.key).Nodup

/-- A text that is neither blank nor longer than it may be, in code points and trimmed. -/
def HasLength (max : ℕ) (text : String) : Prop :=
  1 ≤ (trimmed text).toList.length ∧ (trimmed text).toList.length ≤ max
  deriving Decidable

/-- A job whose schedule the server accepts, apart from the length of an interval. -/
structure SyncCheck.Scheduled (isValidTimezone : String → Bool) (check : SyncCheck) : Prop where
  one : check.cron.isNone = check.intervalSeconds.isSome
  cron : ∀ cron ∈ check.cron, (cronExpressionSchema cron).isSome
  timezone : ∀ timezone ∈ check.timezone, (timezoneSchema isValidTimezone timezone).isSome
  tags : check.tags = none

/-- A job within the bounds of the schema. -/
structure SyncCheck.Bounded (check : SyncCheck) : Prop where
  key : HasLength 300 check.key
  name : HasLength 120 check.name
  interval : ∀ seconds ∈ check.intervalSeconds, 30 ≤ seconds ∧ seconds ≤ 31536000
  grace : ∀ seconds ∈ check.graceSeconds, 0 ≤ seconds ∧ seconds ≤ 604800

/-- An optional field passes if its value does. -/
theorem exists_mapM_option {α β : Type} (schema : α → Option β) {field : Option α}
    (h : ∀ a ∈ field, (schema a).isSome) :
    ∃ value, field.mapM schema = some value ∧ value.isNone = field.isNone := by
  cases field with
  | none => exact ⟨none, rfl, rfl⟩
  | some a =>
    obtain ⟨b, hb⟩ := Option.isSome_iff_exists.mp (h a rfl)
    exact ⟨some b, by simp [hb], rfl⟩

theorem isSome_of_mapM_option {α β : Type} {schema : α → Option β} {field : Option α}
    {value : Option β} (h : field.mapM schema = some value) : ∀ a ∈ field, (schema a).isSome := by
  rintro a rfl
  cases hb : schema a with
  | none => simp [hb] at h
  | some b => rfl

theorem isSome_integerWithin {low high n : ℤ} :
    (integerWithin low high n).isSome ↔ low ≤ n ∧ n ≤ high := by
  unfold integerWithin
  split
  · next h => exact iff_of_true rfl h
  · next h => exact iff_of_false Bool.false_ne_true h

theorem isSome_trimmedString {max : ℕ} {text : String} :
    (trimmedString max text).isSome ↔ HasLength max text := by
  unfold trimmedString HasLength
  simp only [one_le_utf16Length_iff, maxLength_iff]
  split
  · next h => exact iff_of_true rfl h
  · next h => exact iff_of_false Bool.false_ne_true h

theorem eq_of_trimmedString {max : ℕ} {text value : String}
    (h : trimmedString max text = some value) : value = trimmed text := by
  unfold trimmedString at h
  dsimp only at h
  split at h
  · exact (Option.some.inj h).symm
  · cases h

/-- What the schema makes of a job keeps its key, trimmed. -/
theorem key_eq_of_syncCheckSchema (h : syncCheckSchema isValidTimezone check = some parsed) :
    parsed.key = trimmed check.key := by
  unfold syncCheckSchema at h
  simp only [Option.bind_eq_bind, Option.bind_eq_some_iff] at h
  obtain ⟨key, hkey, name, -, cron, -, interval, -, timezone, -, grace, -, tags, -, h⟩ := h
  split at h
  · cases h
  · cases h
    exact eq_of_trimmedString hkey

/-- **A job.** The schema accepts it exactly if it is within the bounds. -/
theorem SyncCheck.Scheduled.accepted_iff (h : check.Scheduled isValidTimezone) :
    (∃ parsed, syncCheckSchema isValidTimezone check = some parsed) ↔ check.Bounded := by
  constructor
  · rintro ⟨parsed, hparsed⟩
    unfold syncCheckSchema at hparsed
    simp only [Option.bind_eq_bind, Option.bind_eq_some_iff] at hparsed
    obtain ⟨key, hkey, name, hname, cron, -, interval, hinterval, timezone, -, grace, hgrace, -⟩ :=
      hparsed
    refine ⟨?_, ?_, fun seconds hseconds => ?_, fun seconds hseconds => ?_⟩
    · exact isSome_trimmedString.mp (Option.isSome_iff_exists.mpr ⟨key, hkey⟩)
    · exact isSome_trimmedString.mp (Option.isSome_iff_exists.mpr ⟨name, hname⟩)
    · exact isSome_integerWithin.mp (isSome_of_mapM_option hinterval seconds hseconds)
    · exact isSome_integerWithin.mp (isSome_of_mapM_option hgrace seconds hseconds)
  · intro hbounded
    obtain ⟨key, hkey⟩ := Option.isSome_iff_exists.mp (isSome_trimmedString.mpr hbounded.key)
    obtain ⟨name, hname⟩ := Option.isSome_iff_exists.mp (isSome_trimmedString.mpr hbounded.name)
    obtain ⟨cron, hcron, hcronNone⟩ := exists_mapM_option cronExpressionSchema h.cron
    obtain ⟨interval, hinterval, hintervalNone⟩ := exists_mapM_option (integerWithin 30 31536000)
      fun seconds hseconds => isSome_integerWithin.mpr (hbounded.interval seconds hseconds)
    obtain ⟨timezone, htimezone, -⟩ :=
      exists_mapM_option (timezoneSchema isValidTimezone) h.timezone
    obtain ⟨grace, hgrace, -⟩ := exists_mapM_option (integerWithin 0 604800)
      fun seconds hseconds => isSome_integerWithin.mpr (hbounded.grace seconds hseconds)
    have hone : ¬ cron.isNone = interval.isNone := by
      rw [hcronNone, hintervalNone, h.one]
      cases check.intervalSeconds <;> simp
    refine ⟨⟨key, name, cron, interval, timezone, grace, none⟩, ?_⟩
    unfold syncCheckSchema
    rw [hkey, hname, hcron, hinterval, htimezone, hgrace, h.tags]
    simp only [Option.bind_eq_bind, Option.bind_some, Option.mapM_none, Option.pure_def]
    rw [if_neg hone]

/-- A list passes if each of its elements does. -/
theorem exists_mapM_iff {α β : Type} {schema : α → Option β} {as : List α} :
    (∃ bs, as.mapM schema = some bs) ↔ ∀ a ∈ as, ∃ b, schema a = some b := by
  constructor
  · rintro ⟨bs, hbs⟩
    have hall := mapM_eq_some_iff.mp hbs
    clear hbs
    induction hall with
    | nil => exact fun a ha => absurd ha List.not_mem_nil
    | cons hfirst _ ih =>
      intro a ha
      rcases List.mem_cons.mp ha with rfl | ha
      · exact ⟨_, hfirst⟩
      · exact ih a ha
  · intro h
    induction as with
    | nil => exact ⟨[], rfl⟩
    | cons a as ih =>
      obtain ⟨b, hb⟩ := h a List.mem_cons_self
      obtain ⟨bs, hbs⟩ := ih fun a ha => h a (List.mem_cons_of_mem _ ha)
      exact ⟨b :: bs, by rw [List.mapM_cons, hb, hbs]; rfl⟩

/-- The keys that the schema leaves are those of the jobs, trimmed. -/
theorem keys_of_mapM_syncCheckSchema {checks parsed : List SyncCheck}
    (h : checks.mapM (syncCheckSchema isValidTimezone) = some parsed) :
    parsed.map SyncCheck.key = checks.map fun check => trimmed check.key := by
  have hall := mapM_eq_some_iff.mp h
  clear h
  induction hall with
  | nil => rfl
  | cons hfirst _ ih => rw [List.map_cons, List.map_cons, ih, key_eq_of_syncCheckSchema hfirst]

/-- **A payload** with jobs whose schedules the server accepts is declared exactly if each of
them is within the bounds, and their keys differ when they are trimmed. -/
theorem SyncPayload.declares_iff
    (henvironment : ∀ environment ∈ payload.environment, (environmentSchema environment).isSome)
    (hsource : ∀ source ∈ payload.source, (trimmedString 60 source).isSome)
    (hsome : payload.checks ≠ []) (hmost : payload.checks.length ≤ 500)
    (hjobs : ∀ check ∈ payload.checks, check.Scheduled isValidTimezone) :
    payload.Declares isValidTimezone ↔
      (∀ check ∈ payload.checks, check.Bounded) ∧
        (payload.checks.map fun check => trimmed check.key).Nodup := by
  constructor
  · rintro ⟨request, hrequest, hnodup⟩
    unfold syncRequestSchema at hrequest
    simp only [Option.bind_eq_bind, Option.bind_eq_some_iff] at hrequest
    obtain ⟨environment, -, source, -, checks, hchecks, hrequest⟩ := hrequest
    split at hrequest
    · cases hrequest
      rw [keys_of_mapM_syncCheckSchema hchecks] at hnodup
      exact ⟨fun check hcheck => (hjobs check hcheck).accepted_iff.mp
        (exists_mapM_iff.mp ⟨checks, hchecks⟩ check hcheck), hnodup⟩
    · cases hrequest
  · rintro ⟨hbounded, hnodup⟩
    obtain ⟨environment, henvironment, -⟩ := exists_mapM_option environmentSchema henvironment
    obtain ⟨source, hsource, -⟩ := exists_mapM_option (trimmedString 60) hsource
    obtain ⟨checks, hchecks⟩ := exists_mapM_iff.mpr fun check hcheck =>
      (hjobs check hcheck).accepted_iff.mpr (hbounded check hcheck)
    have hlength : checks.length = payload.checks.length :=
      (mapM_eq_some_iff.mp hchecks).length_eq.symm
    have hpos := List.length_pos_iff.mpr hsome
    refine ⟨⟨environment, payload.prune.getD true, checks⟩, ?_, ?_⟩
    · unfold syncRequestSchema
      rw [henvironment, hsource, hchecks]
      simp only [Option.bind_eq_bind, Option.bind_some]
      rw [if_pos (by omega)]
    · rw [keys_of_mapM_syncCheckSchema hchecks]
      exact hnodup

/-- A payload whose jobs are written one by one. -/
theorem SyncPayload.declares_map_iff {Job : Type} (write : Job → SyncCheck) {jobs : List Job}
    (hchecks : payload.checks = jobs.map write)
    (henvironment : ∀ environment ∈ payload.environment, (environmentSchema environment).isSome)
    (hsource : ∀ source ∈ payload.source, (trimmedString 60 source).isSome)
    (hsome : jobs ≠ []) (hmost : jobs.length ≤ 500)
    (hjobs : ∀ job ∈ jobs, (write job).Scheduled isValidTimezone) :
    payload.Declares isValidTimezone ↔
      (∀ job ∈ jobs, (write job).Bounded) ∧
        (jobs.map fun job => trimmed (write job).key).Nodup := by
  refine Iff.trans (payload.declares_iff henvironment hsource ?_ ?_ ?_) ?_
  · rw [hchecks]
    exact fun hnone => hsome (List.map_eq_nil_iff.mp hnone)
  · rw [hchecks, List.length_map]
    exact hmost
  · rw [hchecks]
    exact List.forall_mem_map.mpr hjobs
  · rw [hchecks, List.forall_mem_map, List.map_map]
    rfl

end Server

/-- `MINIMUM_INTERVAL_SECONDS`. -/
def minimumIntervalSeconds : ℤ := 30

namespace Python

/-- An integration. -/
inductive Integration where
  | apscheduler
  | celery
  deriving DecidableEq

/-- `name`, of an integration. -/
def Integration.name : Integration → String
  | .apscheduler => "apscheduler"
  | .celery => "celery"

/-- The source of a declaration, by the integrations that found jobs. -/
def source (integrations : List Integration) : List Char :=
  "python-".toList ++ ['+'].intercalate (integrations.map fun integration =>
    integration.name.toList)

namespace SilenceWatchClient

/-- `DiscoveredJob`, with durations in microseconds. Exactly one of a cron expression and an
interval is its schedule. -/
structure DiscoveredJob where
  key : String
  name : String
  cron : Option String
  interval : Option ℤ
  timezone : Option String
  grace : Option ℤ
  oneSchedule : cron.isNone = interval.isSome

/-- What a payload reads of the configuration. -/
structure Config where
  environment : String
  defaultGrace : ℤ
  timezone : String
  prune : Bool

/-- `a or b`, of texts. -/
def orElse (text : Option String) (default : String) : String :=
  match text with
  | some text => if text = "" then default else text
  | none => default

/-- `int(duration.total_seconds())`. Past two centuries the float may round up to the next
second. -/
def totalSeconds (duration : ℤ) : ℤ := duration.tdiv 1000000

variable (config : Config)

/-- `_job`. -/
def Config.job (job : DiscoveredJob) : SyncCheck where
  key := job.key
  name := job.name
  cron := job.cron
  intervalSeconds := job.interval.map fun interval =>
    if totalSeconds interval < minimumIntervalSeconds then minimumIntervalSeconds
    else totalSeconds interval
  timezone := job.cron.map fun _ => orElse job.timezone config.timezone
  graceSeconds := some (max 0 (totalSeconds (job.grace.getD config.defaultGrace)))
  tags := none

/-- `build_payload`. -/
def Config.buildPayload (jobs : List DiscoveredJob) (source : List Char)
    (environment : Option String) : SyncPayload where
  environment := some (orElse environment config.environment)
  source := some (String.ofList (source.take 60))
  prune := some config.prune
  checks := jobs.map config.job

/-- A declaration of at most five hundred jobs, with an environment, cron expressions and time
zones that the server accepts. -/
structure Acceptable (isValidTimezone : String → Bool) (jobs : List DiscoveredJob)
    (environment : Option String) : Prop where
  some : jobs ≠ []
  most : jobs.length ≤ 500
  environment : (environmentSchema (orElse environment config.environment)).isSome
  cron : ∀ job ∈ jobs, ∀ cron ∈ job.cron, (cronExpressionSchema cron).isSome
  timezone : ∀ job ∈ jobs, job.cron ≠ none →
    (timezoneSchema isValidTimezone (orElse job.timezone config.timezone)).isSome

/-- Jobs none of which spoils a declaration. -/
structure Unspoiled (jobs : List DiscoveredJob) : Prop where
  key : ∀ job ∈ jobs, HasLength 300 job.key
  name : ∀ job ∈ jobs, HasLength 120 job.name
  interval : ∀ job ∈ jobs, ∀ interval ∈ job.interval, interval < 31536001 * 1000000
  grace : ∀ job ∈ jobs, job.grace.getD config.defaultGrace < 604801 * 1000000
  distinct : (jobs.map fun job => trimmed job.key).Nodup

end SilenceWatchClient

end Python

namespace Java

/-- `appendJob`. -/
def appendJob (properties : QuartzJobDiscoverer.Properties) (job : DiscoveredJob) : SyncCheck where
  key := String.ofList job.key
  name := String.ofList job.name
  cron := job.cron.map String.ofList
  intervalSeconds := job.interval.map fun interval => max minimumIntervalSeconds (interval / 1000)
  timezone := job.cron.map fun _ => String.ofList (job.timezone.getD properties.timezone)
  graceSeconds := some (max 0 (job.grace / 1000))
  tags := none

/-- `buildSyncPayload`. -/
def buildSyncPayload (properties : QuartzJobDiscoverer.Properties) (jobs : List DiscoveredJob)
    (environment : String) : SyncPayload where
  environment := some environment
  source := some "spring-boot-starter"
  prune := some true
  checks := jobs.map (appendJob properties)

/-- A declaration of at most five hundred jobs, with an environment, cron expressions and time
zones that the server accepts. -/
structure Acceptable (properties : QuartzJobDiscoverer.Properties)
    (isValidTimezone : String → Bool) (jobs : List DiscoveredJob) (environment : String) :
    Prop where
  some : jobs ≠ []
  most : jobs.length ≤ 500
  environment : (environmentSchema environment).isSome
  cron : ∀ job ∈ jobs, ∀ cron ∈ job.cron, (cronExpressionSchema (String.ofList cron)).isSome
  timezone : ∀ job ∈ jobs, job.cron ≠ none →
    (timezoneSchema isValidTimezone
      (String.ofList (job.timezone.getD properties.timezone))).isSome

/-- Jobs none of which spoils a declaration. -/
structure Unspoiled (jobs : List DiscoveredJob) : Prop where
  key : ∀ job ∈ jobs, HasLength 300 (String.ofList job.key)
  name : ∀ job ∈ jobs, HasLength 120 (String.ofList job.name)
  interval : ∀ job ∈ jobs, ∀ interval ∈ job.interval, interval < 31536001 * 1000
  grace : ∀ job ∈ jobs, job.grace < 604801 * 1000
  distinct : (jobs.map fun job => trimmed (String.ofList job.key)).Nodup

end Java

namespace Python

/-- A source has no white space. -/
theorem isSpace_of_mem_source {integrations : List Integration} {c : Char}
    (hc : c ∈ source integrations) : isSpace c = false := by
  rw [← Bool.not_eq_true']
  rcases List.mem_append.mp hc with hc | hc
  · have hall : ("python-".toList.all fun c => !isSpace c) = true := rfl
    exact List.all_eq_true.mp hall c hc
  · rcases mem_intercalate hc with rfl | ⟨text, htext, hc⟩
    · rfl
    · obtain ⟨integration, -, rfl⟩ := List.mem_map.mp htext
      have hall : (integration.name.toList.all fun c => !isSpace c) = true := by
        cases integration with
        | apscheduler => rfl
        | celery => rfl
      exact List.all_eq_true.mp hall c hc

/-- The server accepts the source of every declaration. -/
theorem isSome_source (integrations : List Integration) :
    (trimmedString 60 (String.ofList ((source integrations).take 60))).isSome := by
  have hchars : ∀ c ∈ (String.ofList ((source integrations).take 60)).toList,
      isSpace c = false := by
    intro c hc
    rw [String.toList_ofList] at hc
    exact isSpace_of_mem_source (List.mem_of_mem_take hc)
  have hlength : (String.ofList ((source integrations).take 60)).toList.length =
      min 60 (source integrations).length := by
    rw [String.toList_ofList, List.length_take]
  have hpos : 7 ≤ (source integrations).length := by
    unfold source
    rw [List.length_append]
    exact Nat.le_add_right 7 _
  have htrimmed : IsTrimmedString 60 (String.ofList ((source integrations).take 60)) := by
    refine ⟨?_, ?_, ?_⟩
    · unfold trimmed
      rw [strip_of_forall hchars, String.ofList_toList]
    · omega
    · omega
  rw [trimmedString_of htrimmed]
  rfl

namespace SilenceWatchClient

variable {config : Config} {job : DiscoveredJob} {isValidTimezone : String → Bool}

/-- A number of seconds is within a bound if the duration is less than a second over it. -/
theorem totalSeconds_le_iff {duration bound : ℤ} (hbound : 0 ≤ bound) :
    totalSeconds duration ≤ bound ↔ duration < (bound + 1) * 1000000 := by
  unfold totalSeconds
  rcases Int.le_total 0 duration with hpos | hneg
  · rw [Int.tdiv_eq_ediv_of_nonneg hpos]
    omega
  · have hnone : 0 ≤ (-duration).tdiv 1000000 := Int.tdiv_nonneg (by omega) (by omega)
    rw [Int.neg_tdiv] at hnone
    omega

theorem scheduled_job (hcron : ∀ cron ∈ job.cron, (cronExpressionSchema cron).isSome)
    (htimezone : job.cron ≠ none →
      (timezoneSchema isValidTimezone (orElse job.timezone config.timezone)).isSome) :
    (config.job job).Scheduled isValidTimezone := by
  refine ⟨?_, hcron, fun timezone hmem => ?_, rfl⟩
  · change job.cron.isNone = (job.interval.map _).isSome
    rw [Option.isSome_map]
    exact job.oneSchedule
  · obtain ⟨cron, hsome, rfl⟩ := Option.map_eq_some_iff.mp hmem
    exact htimezone (by rw [hsome]; exact Option.some_ne_none cron)

/-- What `_job` writes is within the bounds if the job is; it takes care of the lower ones. -/
theorem bounded_job_iff : (config.job job).Bounded ↔
    HasLength 300 job.key ∧ HasLength 120 job.name ∧
      (∀ interval ∈ job.interval, interval < 31536001 * 1000000) ∧
      job.grace.getD config.defaultGrace < 604801 * 1000000 := by
  have hinterval (interval : ℤ) : totalSeconds interval ≤ 31536000 ↔
      interval < 31536001 * 1000000 := totalSeconds_le_iff (by omega)
  have hgrace : totalSeconds (job.grace.getD config.defaultGrace) ≤ 604800 ↔
      job.grace.getD config.defaultGrace < 604801 * 1000000 := totalSeconds_le_iff (by omega)
  constructor
  · intro h
    refine ⟨h.key, h.name, fun interval hmem => ?_, ?_⟩
    · have hseconds := h.interval _ (Option.mem_map_of_mem _ hmem)
      unfold minimumIntervalSeconds at hseconds
      apply (hinterval interval).mp
      split at hseconds <;> omega
    · have hseconds := h.grace _ rfl
      apply hgrace.mp
      omega
  · rintro ⟨hkey, hname, hintervals, hbelow⟩
    refine ⟨hkey, hname, fun seconds hmem => ?_, fun seconds hmem => ?_⟩
    · obtain ⟨interval, hjob, rfl⟩ := Option.map_eq_some_iff.mp hmem
      have hseconds := (hinterval interval).mpr (hintervals interval hjob)
      unfold minimumIntervalSeconds
      split <;> omega
    · obtain rfl := Option.some.inj hmem
      have hseconds := hgrace.mpr hbelow
      omega

/-- **The Python client.** A declaration goes through exactly if none of its jobs spoils it. -/
theorem declares_iff {jobs : List DiscoveredJob} {environment : Option String}
    (h : Acceptable config isValidTimezone jobs environment) (integrations : List Integration) :
    (config.buildPayload jobs (source integrations) environment).Declares isValidTimezone ↔
      Unspoiled config jobs := by
  have hwritten (job : DiscoveredJob) (hjob : job ∈ jobs) :
      (config.job job).Scheduled isValidTimezone :=
    scheduled_job (h.cron job hjob) (h.timezone job hjob)
  refine Iff.trans (SyncPayload.declares_map_iff config.job rfl ?_ ?_ h.some h.most hwritten)
    ⟨fun ⟨hbounded, hnodup⟩ => ?_, fun hclean => ⟨fun job hmem => ?_, hclean.distinct⟩⟩
  · rintro _ ⟨⟩
    exact h.environment
  · rintro _ ⟨⟩
    exact isSome_source integrations
  · have hjob (job : DiscoveredJob) (hmem : job ∈ jobs) := bounded_job_iff.mp (hbounded job hmem)
    exact ⟨fun job hmem => (hjob job hmem).1, fun job hmem => (hjob job hmem).2.1,
      fun job hmem => (hjob job hmem).2.2.1, fun job hmem => (hjob job hmem).2.2.2, hnodup⟩
  · exact bounded_job_iff.mpr ⟨hclean.key job hmem, hclean.name job hmem,
      hclean.interval job hmem, hclean.grace job hmem⟩

end SilenceWatchClient

end Python

namespace Java

variable {properties : QuartzJobDiscoverer.Properties} {job : DiscoveredJob}
  {isValidTimezone : String → Bool}

theorem scheduled_appendJob
    (hcron : ∀ cron ∈ job.cron, (cronExpressionSchema (String.ofList cron)).isSome)
    (htimezone : job.cron ≠ none → (timezoneSchema isValidTimezone
      (String.ofList (job.timezone.getD properties.timezone))).isSome) :
    (appendJob properties job).Scheduled isValidTimezone := by
  refine ⟨?_, fun cron hmem => ?_, fun timezone hmem => ?_, rfl⟩
  · change (job.cron.map String.ofList).isNone = (job.interval.map _).isSome
    rw [Option.isSome_map, Option.isNone_map]
    exact job.oneSchedule
  · obtain ⟨found, hsome, rfl⟩ := Option.map_eq_some_iff.mp hmem
    exact hcron found hsome
  · obtain ⟨found, hsome, rfl⟩ := Option.map_eq_some_iff.mp hmem
    exact htimezone (by rw [hsome]; exact Option.some_ne_none found)

/-- What `appendJob` writes is within the bounds if the job is; it takes care of the lower
ones. -/
theorem bounded_appendJob_iff : (appendJob properties job).Bounded ↔
    HasLength 300 (String.ofList job.key) ∧ HasLength 120 (String.ofList job.name) ∧
      (∀ interval ∈ job.interval, interval < 31536001 * 1000) ∧ job.grace < 604801 * 1000 := by
  constructor
  · intro h
    refine ⟨h.key, h.name, fun interval hmem => ?_, ?_⟩
    · have hseconds := h.interval _ (Option.mem_map_of_mem _ hmem)
      unfold minimumIntervalSeconds at hseconds
      omega
    · have hseconds := h.grace _ rfl
      omega
  · rintro ⟨hkey, hname, hintervals, hbelow⟩
    refine ⟨hkey, hname, fun seconds hmem => ?_, fun seconds hmem => ?_⟩
    · obtain ⟨interval, hjob, rfl⟩ := Option.map_eq_some_iff.mp hmem
      have hseconds := hintervals interval hjob
      unfold minimumIntervalSeconds
      omega
    · obtain rfl := Option.some.inj hmem
      omega

/-- The server accepts the source of the starter. -/
theorem isSome_starterSource : (trimmedString 60 "spring-boot-starter").isSome := by decide

/-- **The Java client.** A declaration goes through exactly if none of its jobs spoils it. -/
theorem declares_iff {jobs : List DiscoveredJob} {environment : String}
    (h : Acceptable properties isValidTimezone jobs environment) :
    (buildSyncPayload properties jobs environment).Declares isValidTimezone ↔ Unspoiled jobs := by
  have hwritten (job : DiscoveredJob) (hjob : job ∈ jobs) :
      (appendJob properties job).Scheduled isValidTimezone :=
    scheduled_appendJob (h.cron job hjob) (h.timezone job hjob)
  refine Iff.trans
    (SyncPayload.declares_map_iff (appendJob properties) rfl ?_ ?_ h.some h.most hwritten)
    ⟨fun ⟨hbounded, hnodup⟩ => ?_, fun hclean => ⟨fun job hmem => ?_, hclean.distinct⟩⟩
  · rintro _ ⟨⟩
    exact h.environment
  · rintro _ ⟨⟩
    exact isSome_starterSource
  · have hjob (job : DiscoveredJob) (hmem : job ∈ jobs) :=
      bounded_appendJob_iff.mp (hbounded job hmem)
    exact ⟨fun job hmem => (hjob job hmem).1, fun job hmem => (hjob job hmem).2.1,
      fun job hmem => (hjob job hmem).2.2.1, fun job hmem => (hjob job hmem).2.2.2, hnodup⟩
  · exact bounded_appendJob_iff.mpr ⟨hclean.key job hmem, hclean.name job hmem,
      hclean.interval job hmem, hclean.grace job hmem⟩

end Java

/-- **No job spoils a declaration** of the Python or of the Java client exactly if each has a key
and a name that fit, an interval of at most a year and a grace period of at most a week, and no
two have one key. -/
theorem declares_iff_unspoiled (isValidTimezone : String → Bool) :
    (∀ (config : Python.SilenceWatchClient.Config)
        (jobs : List Python.SilenceWatchClient.DiscoveredJob)
        (integrations : List Python.Integration) (environment : Option String),
      Python.SilenceWatchClient.Acceptable config isValidTimezone jobs environment →
        ((config.buildPayload jobs (Python.source integrations) environment).Declares
            isValidTimezone ↔ Python.SilenceWatchClient.Unspoiled config jobs)) ∧
      ∀ (properties : QuartzJobDiscoverer.Properties) (jobs : List DiscoveredJob)
          (environment : String),
        Java.Acceptable properties isValidTimezone jobs environment →
          ((Java.buildSyncPayload properties jobs environment).Declares isValidTimezone ↔
            Java.Unspoiled jobs) :=
  ⟨fun _ _ integrations _ h => Python.SilenceWatchClient.declares_iff h integrations,
    fun _ _ _ h => Java.declares_iff h⟩

/-- A task of a beat schedule, once a day. -/
def nightlyTask : Python.SilenceWatchClient.DiscoveredJob where
  key := "celery:shop.tasks.nightly"
  name := "nightly"
  cron := none
  interval := some (86400 * 1000000)
  timezone := none
  grace := none
  oneSchedule := rfl

/-- The default configuration. -/
def defaultConfig : Python.SilenceWatchClient.Config where
  environment := "production"
  defaultGrace := 300 * 1000000
  timezone := "UTC"
  prune := true

/-- A Quartz job that runs once a day. -/
def dailyJob (name : List Char) : QuartzJobDiscoverer.QuartzJob where
  group := "maintenance".toList
  name := name
  triggers := [.simple 86400000]

/-- What the starter finds of daily jobs. -/
def foundDaily (names : List (List Char)) : List DiscoveredJob :=
  SilenceWatchRegistrar.discover
    (QuartzJobDiscoverer.discover QuartzJobDiscoverer.sampleProperties (names.map dailyJob))

theorem foundDaily_eq (names : List (List Char)) : foundDaily names = names.map fun name =>
    .ofInterval (QuartzJobDiscoverer.keyOf (dailyJob name)) name 86400000 300000 := by
  induction names with
  | nil => rfl
  | cons name names ih => exact congrArg (List.cons _) ih

/-- Jobs with intervals have no cron expression that the server could refuse. -/
theorem acceptable_foundDaily {names : List (List Char)} (hsome : names ≠ [])
    (hmost : names.length ≤ 500) :
    Java.Acceptable QuartzJobDiscoverer.sampleProperties (fun _ => true) (foundDaily names)
      "production" := by
  have hcron : ∀ job ∈ foundDaily names, job.cron = none := by
    rw [foundDaily_eq]
    exact List.forall_mem_map.mpr fun _ _ => rfl
  refine ⟨?_, ?_, by decide, fun job hjob cron hmem => ?_, fun job hjob hmem => ?_⟩
  · rw [foundDaily_eq]
    exact fun hnone => hsome (List.map_eq_nil_iff.mp hnone)
  · rw [foundDaily_eq, List.length_map]
    exact hmost
  · rw [hcron job hjob] at hmem
    cases hmem
  · exact absurd (hcron job hjob) hmem

theorem acceptable_nightlyTask : Python.SilenceWatchClient.Acceptable defaultConfig (fun _ => true)
    [nightlyTask] none where
  some := List.cons_ne_nil _ _
  most := by decide
  environment := by decide
  cron := by simp [nightlyTask]
  timezone := by simp [nightlyTask]

theorem unspoiled_nightlyTask :
    Python.SilenceWatchClient.Unspoiled defaultConfig [nightlyTask] where
  key := by decide
  name := by decide
  interval := by decide
  grace := by decide
  distinct := List.nodup_singleton _

theorem unspoiled_backup : Java.Unspoiled (foundDaily ["backup".toList]) := by
  rw [foundDaily_eq]
  exact ⟨by decide, by decide, by decide, by decide,
    List.nodup_singleton _⟩

theorem declares_backup :
    (defaultConfig.buildPayload [nightlyTask] (Python.source [.celery]) none).Declares
        (fun _ => true) ∧
      (Java.buildSyncPayload QuartzJobDiscoverer.sampleProperties (foundDaily ["backup".toList])
        "production").Declares (fun _ => true) :=
  ⟨((declares_iff_unspoiled fun _ => true).1 _ _ [.celery] _ acceptable_nightlyTask).mpr
      unspoiled_nightlyTask,
    ((declares_iff_unspoiled fun _ => true).2 _ _ _
      (acceptable_foundDaily (List.cons_ne_nil _ _) (by decide))).mpr unspoiled_backup⟩

/-- A job whose name has a hundred and twenty-one letters. -/
def longName : List Char := List.replicate 121 'x'

/-- It costs the backup its monitoring. -/
theorem not_declares_longName :
    Java.Acceptable QuartzJobDiscoverer.sampleProperties (fun _ => true)
        (foundDaily ["backup".toList, longName]) "production" ∧
      ¬ (Java.buildSyncPayload QuartzJobDiscoverer.sampleProperties
        (foundDaily ["backup".toList, longName]) "production").Declares (fun _ => true) := by
  have hacceptable : Java.Acceptable QuartzJobDiscoverer.sampleProperties (fun _ => true)
      (foundDaily ["backup".toList, longName]) "production" :=
    acceptable_foundDaily (List.cons_ne_nil _ _) (by decide)
  refine ⟨hacceptable, fun h => ?_⟩
  have hname := ((Java.declares_iff hacceptable).mp h).name
  rw [foundDaily_eq] at hname
  have hlong := hname _ (List.mem_cons_of_mem _ List.mem_cons_self)
  exact absurd hlong (by decide +kernel)

end SilenceWatch
