import SilenceWatch.Clients.Quartz

/-!
# Quartz jobs

What the starter declares of the jobs of a Quartz scheduler. A job is declared with the
expression of its cron trigger as it is, unless `CronSupport` says that the server will not
accept it.
-/

namespace SilenceWatch

open Cron

/-- White space of a pattern that knows that of ASCII. -/
def isPatternSpace (c : Char) : Bool := [9, 10, 11, 12, 13, 32].contains c.toNat

/-- White space of a Java pattern. -/
def isJavaSpace (c : Char) : Bool := isPatternSpace c

/-- What ends a line, for the dot of a Java pattern. -/
def isLineTerminator (c : Char) : Bool := [10, 13, 0x85, 0x2028, 0x2029].contains c.toNat

/-- Somewhere in a text a character of one kind is followed by one of another. -/
def hasPair (first second : Char → Bool) : List Char → Bool
  | a :: b :: text => (first a && second b) || hasPair first second (b :: text)
  | _ => false

/-- `CronSupport.isSupported`. -/
def CronSupport.isSupported (expression : List Char) : Bool :=
  -- `trim` drops the control characters as well
  let trimmed := strip (fun c => c.toNat ≤ 32) expression
  if trimmed = [] then false
  else if trimmed.head? = some '@' then cronMacros.contains (trimmed.map Char.toLower)
  else
    let fields := (words isJavaSpace trimmed).length
    if fields ≠ 5 ∧ fields ≠ 6 then false
    else
      let upper := trimmed.map Char.toUpper
      -- the nearest weekday, `15W` and `LW`
      !(hasPair Char.isDigit (· == 'W') upper && !upper.any isLineTerminator) &&
        !hasPair (· == 'L') (· == 'W') upper

/-- `DiscoveredJob`, with durations in milliseconds. Exactly one of a cron expression and an
interval is its schedule. -/
structure DiscoveredJob where
  key : List Char
  name : List Char
  cron : Option (List Char)
  interval : Option ℤ
  timezone : Option (List Char)
  grace : ℤ
  oneSchedule : cron.isNone = interval.isSome

namespace DiscoveredJob

/-- `DiscoveredJob.cron`. -/
def ofCron (key name cron timezone : List Char) (grace : ℤ) : DiscoveredJob :=
  { key, name, cron := some cron, interval := none, timezone := some timezone, grace
    oneSchedule := rfl }

/-- `DiscoveredJob.interval`. -/
def ofInterval (key name : List Char) (interval grace : ℤ) : DiscoveredJob :=
  { key, name, cron := none, interval := some interval, timezone := none, grace
    oneSchedule := rfl }

end DiscoveredJob

namespace QuartzJobDiscoverer

/-- The units of a calendar interval. -/
inductive IntervalUnit where
  | millisecond | second | minute | hour | day | week | month | year

/-- The triggers of a job: a cron expression in a zone, an interval in milliseconds, so many
units of the calendar, or another kind. -/
inductive Trigger where
  | cron (cronExpression : List Char) (timeZone : Option (List Char))
  | simple (repeatInterval : ℤ)
  | calendarInterval (repeatInterval : ℤ) (repeatIntervalUnit : IntervalUnit)
  | other

/-- `SilenceWatchProperties`, as far as the discoverer reads them. -/
structure Properties where
  defaultGrace : ℤ
  timezone : List Char

/-- `toDuration`. -/
def toDuration (count : ℤ) : IntervalUnit → Option ℤ
  | .second => some (count * 1000)
  | .minute => some (count * 60000)
  | .hour => some (count * 3600000)
  | .day => some (count * 86400000)
  | .week => some (count * 7 * 86400000)
  | .month => some (count * 30 * 86400000)
  | .year => some (count * 365 * 86400000)
  | .millisecond => none

/-- `describe`, of one of the triggers of a job. -/
def describeTrigger (properties : Properties) (key name : List Char) (grace : ℤ) :
    Trigger → Option DiscoveredJob
  | .cron cronExpression timeZone =>
    some (.ofCron key name cronExpression (timeZone.getD properties.timezone) grace)
  | .simple repeatInterval =>
    if 0 < repeatInterval then some (.ofInterval key name repeatInterval grace) else none
  | .calendarInterval repeatInterval unit =>
    (toDuration repeatInterval unit).map fun interval => .ofInterval key name interval grace
  | .other => none

/-- The candidate takes the place of the job found so far: the first cron expression wins over
what comes later, and the shortest interval over other intervals. -/
def replaces (candidate mostFrequent : DiscoveredJob) : Bool :=
  match candidate.interval, mostFrequent.interval with
  | some interval, some shortest => interval < shortest
  | _, _ => false

/-- What `describe` does with one of the triggers. -/
def consider (mostFrequent : Option DiscoveredJob) : Option DiscoveredJob → Option DiscoveredJob
  | none => mostFrequent
  | some candidate =>
    match mostFrequent with
    | none => some candidate
    | some job => some (if replaces candidate job then candidate else job)

/-- A job of a scheduler. -/
structure QuartzJob where
  group : List Char
  name : List Char
  triggers : List Trigger

/-- `keyOf`. -/
def keyOf (quartzJob : QuartzJob) : List Char := quartzJob.group ++ '.' :: quartzJob.name

/-- `describe`, of a job. -/
def describe (properties : Properties) (quartzJob : QuartzJob) : Option DiscoveredJob :=
  quartzJob.triggers.foldl (fun mostFrequent trigger =>
    consider mostFrequent (describeTrigger properties (keyOf quartzJob) quartzJob.name
      properties.defaultGrace trigger)) none

/-- `discover`, of the jobs that the scheduler tells without failing. -/
def discover (properties : Properties) (scheduler : List QuartzJob) : List DiscoveredJob :=
  scheduler.filterMap (describe properties)

end QuartzJobDiscoverer

/-- `SilenceWatchRegistrar.discover`, of what the discoverers found. -/
def SilenceWatchRegistrar.discover (jobs : List DiscoveredJob) : List DiscoveredJob :=
  jobs.filter fun job => job.cron.all CronSupport.isSupported

namespace QuartzJobDiscoverer

variable {properties : Properties} {quartzJob : QuartzJob} {job : DiscoveredJob}

/-- A job is the one found so far or the candidate. -/
theorem consider_eq_some {mostFrequent candidate : Option DiscoveredJob}
    (hjob : consider mostFrequent candidate = some job) :
    mostFrequent = some job ∨ candidate = some job := by
  cases candidate with
  | none => exact Or.inl hjob
  | some candidate =>
    cases mostFrequent with
    | none => exact Or.inr hjob
    | some found =>
      simp only [consider, Option.some.injEq] at hjob
      split at hjob
      · exact Or.inr (congrArg some hjob)
      · exact Or.inl (congrArg some hjob)

/-- A job is what `describe` finds for one of its triggers. -/
theorem describe_mem (hjob : describe properties quartzJob = some job) :
    ∃ trigger ∈ quartzJob.triggers, describeTrigger properties (keyOf quartzJob) quartzJob.name
      properties.defaultGrace trigger = some job := by
  have hfold : ∀ (triggers : List Trigger) (mostFrequent : Option DiscoveredJob),
      triggers.foldl (fun mostFrequent trigger =>
        consider mostFrequent (describeTrigger properties (keyOf quartzJob) quartzJob.name
          properties.defaultGrace trigger)) mostFrequent = some job →
      mostFrequent = some job ∨ ∃ trigger ∈ triggers, describeTrigger properties
        (keyOf quartzJob) quartzJob.name properties.defaultGrace trigger = some job := by
    intro triggers
    induction triggers with
    | nil => exact fun mostFrequent h => Or.inl h
    | cons trigger triggers ih =>
      intro mostFrequent h
      rcases ih _ h with hfound | ⟨later, hlater, hdescribed⟩
      · rcases consider_eq_some hfound with hfound | hdescribed
        · exact Or.inl hfound
        · exact Or.inr ⟨trigger, List.mem_cons_self, hdescribed⟩
      · exact Or.inr ⟨later, List.mem_cons_of_mem trigger hlater, hdescribed⟩
  rcases hfold quartzJob.triggers none hjob with hnone | hmem
  · cases hnone
  · exact hmem

/-- A cron expression is the one of a trigger, in its zone. -/
theorem trigger_of_cron {trigger : Trigger} {key name sent : List Char} {grace : ℤ}
    (hjob : describeTrigger properties key name grace trigger = some job)
    (hcron : job.cron = some sent) :
    ∃ timeZone, trigger = .cron sent timeZone ∧
      job.timezone = some (timeZone.getD properties.timezone) := by
  cases trigger with
  | cron cronExpression timeZone =>
    cases hjob
    cases hcron
    exact ⟨timeZone, rfl, rfl⟩
  | simple repeatInterval =>
    simp only [describeTrigger, Option.ite_none_right_eq_some, Option.some.injEq] at hjob
    obtain ⟨-, rfl⟩ := hjob
    cases hcron
  | calendarInterval repeatInterval unit =>
    obtain ⟨interval, -, rfl⟩ := Option.map_eq_some_iff.mp hjob
    cases hcron
  | other => cases hjob

/-- A job with one cron trigger, in the zone of its properties. -/
def sampleJob (cronExpression : List Char) : QuartzJob :=
  { group := ['r'], name := ['b'], triggers := [.cron cronExpression none] }

def sampleProperties : Properties := { defaultGrace := 300000, timezone := ['U', 'T', 'C'] }

/-- What is declared of the sample. -/
theorem sampleJob_mem {cronExpression : List Char}
    (h : CronSupport.isSupported cronExpression = true) :
    DiscoveredJob.ofCron ['r', '.', 'b'] ['b'] cronExpression ['U', 'T', 'C'] 300000 ∈
      SilenceWatchRegistrar.discover (discover sampleProperties [sampleJob cronExpression]) := by
  refine List.mem_filter.mpr ⟨List.mem_filterMap.mpr ⟨sampleJob cronExpression, ?_, rfl⟩, h⟩
  exact List.mem_singleton.mpr rfl

/-- Two in the morning of a Monday. -/
def monday : Moment := january2024 1 2 (by decide) (by decide)

end QuartzJobDiscoverer

end SilenceWatch
