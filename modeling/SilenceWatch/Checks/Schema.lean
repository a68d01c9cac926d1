import SilenceWatch.Checks.Filters
import SilenceWatch.Checks.Sync

/-!
# The schema of a declaration

What `syncRequestSchema` accepts, of a payload whose texts and numbers are of the right kinds,
and what it makes of it.
-/

namespace SilenceWatch

/-- `trimmedString`. -/
def trimmedString (max : ℕ) (text : String) : Option String :=
  let value := trimmed text
  if 1 ≤ utf16Length value ∧ MaxLength max value then some value else none

/-- `cronExpressionSchema`. -/
def cronExpressionSchema (text : String) : Option String :=
  (trimmedString 200 text).filter fun value => isValidCronExpression value.toList

/-- `timezoneSchema`. Which zones there are is for the runtime to say. -/
def timezoneSchema (isValidTimezone : String → Bool) (text : String) : Option String :=
  let value := trimmed text
  if MaxLength 64 value ∧ isValidTimezone value then some value else none

/-- `[A-Za-z0-9._:-]`. -/
def isTagChar (c : Char) : Bool := c.isAlphanum || ['.', '_', ':', '-'].contains c

/-- `tagsSchema`. -/
def tagsSchema (tags : List String) : Option (List String) :=
  if tags.length ≤ 20 then
    tags.mapM fun tag => (trimmedString 40 tag).filter fun value => value.toList.all isTagChar
  else none

/-- `z.number().int().min(low).max(high)`, of an integer. -/
def integerWithin (low high n : ℤ) : Option ℤ := if low ≤ n ∧ n ≤ high then some n else none

/-- A payload, with its jobs as they are written. -/
structure SyncPayload where
  environment : Option String
  source : Option String
  prune : Option Bool
  checks : List SyncCheck

/-- `syncCheckSchema`. -/
def syncCheckSchema (isValidTimezone : String → Bool) (check : SyncCheck) : Option SyncCheck := do
  let key ← trimmedString 300 check.key
  let name ← trimmedString 120 check.name
  let cron ← check.cron.mapM cronExpressionSchema
  let intervalSeconds ← check.intervalSeconds.mapM (integerWithin 30 31536000)
  let timezone ← check.timezone.mapM (timezoneSchema isValidTimezone)
  let graceSeconds ← check.graceSeconds.mapM (integerWithin 0 604800)
  let tags ← check.tags.mapM tagsSchema
  -- exactly one of "cron" or "interval_seconds" is required
  if cron.isNone = intervalSeconds.isNone then none
  else some { key, name, cron, intervalSeconds, timezone, graceSeconds, tags }

/-- `syncRequestSchema`. -/
def syncRequestSchema (isValidTimezone : String → Bool) (payload : SyncPayload) :
    Option SyncRequest := do
  let environment ← payload.environment.mapM environmentSchema
  let _ ← payload.source.mapM (trimmedString 60)
  let checks ← payload.checks.mapM (syncCheckSchema isValidTimezone)
  if 1 ≤ checks.length ∧ checks.length ≤ 500 then
    some { environment, prune := payload.prune.getD true, checks }
  else none

/-- What a schema makes of every element of a list. -/
theorem mapM_eq_some_iff {α β : Type} {schema : α → Option β} {as : List α} {bs : List β} :
    as.mapM schema = some bs ↔ List.Forall₂ (fun a b => schema a = some b) as bs := by
  induction as generalizing bs with
  | nil => simp [eq_comm]
  | cons a as ih =>
    rw [List.mapM_cons]
    simp only [Option.bind_eq_bind, Option.bind_eq_some_iff, Option.pure_def, Option.some.injEq]
    constructor
    · rintro ⟨b, hb, bs', hbs, rfl⟩
      exact List.Forall₂.cons hb (ih.mp hbs)
    · intro h
      cases h with
      | cons hb hbs => exact ⟨_, hb, _, ih.mpr hbs, rfl⟩

/-- A text that is trimmed and of the right length. -/
structure IsTrimmedString (max : ℕ) (text : String) : Prop where
  trimmed : trimmed text = text
  pos : 1 ≤ text.toList.length
  le : text.toList.length ≤ max

/-- The text is taken as it is. -/
theorem trimmedString_of {max : ℕ} {text : String} (h : IsTrimmedString max text) :
    trimmedString max text = some text := by
  unfold trimmedString
  rw [h.trimmed]
  exact if_pos ⟨one_le_utf16Length_iff.mpr h.pos, maxLength_iff.mpr h.le⟩

end SilenceWatch
