import SilenceWatch.Library.OrderedMap
import SilenceWatch.Monitoring.Writers

/-!
# The metadata that ingestion keeps

A heartbeat needs the schedule of its check. An instance reads it once and keeps it for
some minutes, by ping key. Concurrent callers of a key that is not there share one load:
the query, then the store of its row, then the end of the load, each a step of its own.
-/

namespace SilenceWatch

open Keyed Relational

/-- Everything ingestion needs to know about a check. -/
structure CheckMetadata extends Schedule where
  id : Uuid
  deriving DecidableEq

/-- The metadata of a check. -/
def Check.metadata (c : Check) : CheckMetadata := { toSchedule := c.toSchedule, id := c.id }

/-- `LOOKUP_SQL`. -/
def lookupSql (pingKey : Uuid) (db : Database) : Option CheckMetadata :=
  (db.checks.rows.find? fun c => c.pingKey = pingKey).map Check.metadata

/-- What is kept of a lookup; a key without a check is kept as such. -/
structure CacheEntry where
  metadata : Option CheckMetadata
  expiresAt : ℤ
  deriving DecidableEq

/-- Where a load is: its query has not run, its answer is on the way, or the answer is
stored and the load is not over. -/
inductive LoadPhase where
  | querying
  | answered (metadata : Option CheckMetadata)
  | stored (metadata : Option CheckMetadata)
  deriving DecidableEq

/-- What a load has read. -/
def LoadPhase.metadata : LoadPhase → Option (Option CheckMetadata)
  | .querying => none
  | .answered metadata => some metadata
  | .stored metadata => some metadata

/-- A load, with those who wait for it. -/
structure Load (Caller : Type) where
  phase : LoadPhase
  callers : List Caller

/-- `CheckMetadataCache`. -/
structure CheckMetadataCache (Caller : Type) where
  entries : OrderedMap Uuid CacheEntry
  /-- Coalesces concurrent misses on the same key into one query. -/
  inFlight : OrderedMap Uuid (Load Caller)

/-- How long the metadata of a check is kept. -/
def positiveTtlMs : ℤ := 300000

/-- How long an unknown key is kept. -/
def negativeTtlMs : ℤ := 5000

/-- How many keys are kept. -/
def maxEntries : ℕ := 100000

namespace CheckMetadataCache

variable {Caller : Type} {cache : CheckMetadataCache Caller} {now : ℤ} {pingKey key : Uuid}
  {metadata : Option CheckMetadata} {db : Database} {entry : CacheEntry}

/-- The cache of an instance that starts. -/
def start : CheckMetadataCache Caller := ⟨OrderedMap.empty, OrderedMap.empty⟩

/-- The entry of a key while it lasts. -/
def fresh? (cache : CheckMetadataCache Caller) (now : ℤ) (pingKey : Uuid) : Option CacheEntry :=
  (cache.entries.get? pingKey).filter fun entry => now < entry.expiresAt

/-- The metadata of a key known and fresh in the cache. -/
def peek (cache : CheckMetadataCache Caller) (now : ℤ) (pingKey : Uuid) : Option CheckMetadata :=
  (cache.fresh? now pingKey).bind CacheEntry.metadata

/-- `invalidate`, and what a notification does. -/
def invalidate (cache : CheckMetadataCache Caller) (pingKey : Uuid) : CheckMetadataCache Caller :=
  { cache with entries := cache.entries.delete pingKey }

/-- Expired entries go; if there are still too many, the oldest tenth does. -/
def evict (cache : CheckMetadataCache Caller) (now : ℤ) : CheckMetadataCache Caller :=
  let entries := cache.entries.filter fun entry => ¬ entry.2.expiresAt ≤ now
  if entries.size < maxEntries then { cache with entries }
  else { cache with entries := entries.drop (maxEntries / 10) }

/-- An answer is kept. -/
def store (cache : CheckMetadataCache Caller) (now : ℤ) (pingKey : Uuid)
    (metadata : Option CheckMetadata) : CheckMetadataCache Caller :=
  let cache := if maxEntries ≤ cache.entries.size then cache.evict now else cache
  let expiresAt := now + if metadata = none then negativeTtlMs else positiveTtlMs
  { cache with entries := cache.entries.set pingKey { metadata, expiresAt } }

/-- `get`: the answer, or none for a caller who waits for a load. -/
def get (cache : CheckMetadataCache Caller) (now : ℤ) (pingKey : Uuid) (caller : Caller) :
    CheckMetadataCache Caller × Option (Option CheckMetadata) :=
  match cache.fresh? now pingKey with
  | some entry => (cache, some entry.metadata)
  | none =>
    let load :=
      match cache.inFlight.get? pingKey with
      | some pending => { pending with callers := pending.callers ++ [caller] }
      | none => ⟨.querying, [caller]⟩
    ({ cache with inFlight := cache.inFlight.set pingKey load }, none)

/-- The query of a load runs. -/
def query (cache : CheckMetadataCache Caller) (pingKey : Uuid) (db : Database) :
    CheckMetadataCache Caller :=
  match cache.inFlight.get? pingKey with
  | some ⟨.querying, callers⟩ =>
    { cache with
      inFlight := cache.inFlight.set pingKey ⟨.answered (lookupSql pingKey db), callers⟩ }
  | _ => cache

/-- The answer of a load arrives and is stored. -/
def answer (cache : CheckMetadataCache Caller) (now : ℤ) (pingKey : Uuid) :
    CheckMetadataCache Caller :=
  match cache.inFlight.get? pingKey with
  | some ⟨.answered metadata, callers⟩ =>
    { cache.store now pingKey metadata with
      inFlight := cache.inFlight.set pingKey ⟨.stored metadata, callers⟩ }
  | _ => cache

/-- A load is over: those who wait for it are told what it has read. -/
def settle (cache : CheckMetadataCache Caller) (pingKey : Uuid) :
    CheckMetadataCache Caller × List (Caller × Option CheckMetadata) :=
  match cache.inFlight.get? pingKey with
  | some ⟨.stored metadata, callers⟩ =>
    ({ cache with inFlight := cache.inFlight.delete pingKey },
      callers.map fun caller => (caller, metadata))
  | _ => (cache, [])

/-- The query of a load fails, and its callers with it. -/
def fail (cache : CheckMetadataCache Caller) (pingKey : Uuid) : CheckMetadataCache Caller :=
  match cache.inFlight.get? pingKey with
  | some ⟨.querying, _⟩ => { cache with inFlight := cache.inFlight.delete pingKey }
  | _ => cache

/-- A fresh entry is an entry. -/
theorem get?_of_fresh? (h : cache.fresh? now pingKey = some entry) :
    cache.entries.get? pingKey = some entry :=
  (Option.filter_eq_some_iff.mp h).1

/-- What a cache keeps after it has evicted entries it kept before. -/
theorem get?_of_evict (h : (cache.evict now).entries.get? pingKey = some entry) :
    cache.entries.get? pingKey = some entry := by
  unfold evict at h
  dsimp only at h
  split at h
  · exact OrderedMap.get?_of_filter h
  · exact OrderedMap.get?_of_filter (OrderedMap.get?_of_drop h)

/-- What a cache keeps after it has stored an answer is that answer, or it kept it before. -/
theorem get?_of_store (h : (cache.store now pingKey metadata).entries.get? key = some entry) :
    (key = pingKey ∧ entry.metadata = metadata) ∨ cache.entries.get? key = some entry := by
  simp only [store] at h
  rw [OrderedMap.get?_set] at h
  split at h
  · next hsame =>
    cases h
    exact Or.inl ⟨hsame, rfl⟩
  · right
    split at h
    · exact get?_of_evict h
    · exact h

/-- What is fresh is told; otherwise the caller waits for the load under way, or for one that
starts with it. -/
theorem get_cases (cache : CheckMetadataCache Caller) (now : ℤ) (pingKey : Uuid)
    (caller : Caller) :
    (∃ entry, cache.fresh? now pingKey = some entry ∧
        cache.get now pingKey caller = (cache, some entry.metadata)) ∨
      ∃ load, cache.get now pingKey caller =
          ({ cache with inFlight := cache.inFlight.set pingKey load }, none) ∧
        cache.fresh? now pingKey = none ∧
        ((∃ pending, cache.inFlight.get? pingKey = some pending ∧
            load = { pending with callers := pending.callers ++ [caller] }) ∨
          load = ⟨.querying, [caller]⟩) := by
  cases hfresh : cache.fresh? now pingKey with
  | some entry => exact Or.inl ⟨entry, rfl, by simp only [get, hfresh]⟩
  | none =>
    right
    cases hpending : cache.inFlight.get? pingKey with
    | some pending =>
      exact ⟨_, by simp only [get, hfresh, hpending], rfl, Or.inl ⟨pending, rfl, rfl⟩⟩
    | none => exact ⟨_, by simp only [get, hfresh, hpending], rfl, Or.inr rfl⟩

/-- The query of a load that waits for it runs, or nothing happens. -/
theorem query_cases (cache : CheckMetadataCache Caller) (pingKey : Uuid) (db : Database) :
    cache.query pingKey db = cache ∨ ∃ callers,
      cache.inFlight.get? pingKey = some ⟨.querying, callers⟩ ∧
        cache.query pingKey db =
          { cache with
            inFlight := cache.inFlight.set pingKey
              ⟨.answered (lookupSql pingKey db), callers⟩ } := by
  unfold query
  split
  · next callers hload => exact Or.inr ⟨callers, hload, rfl⟩
  · exact Or.inl rfl

/-- The answer of a load that has it is stored, or nothing happens. -/
theorem answer_cases (cache : CheckMetadataCache Caller) (now : ℤ) (pingKey : Uuid) :
    cache.answer now pingKey = cache ∨ ∃ metadata callers,
      cache.inFlight.get? pingKey = some ⟨.answered metadata, callers⟩ ∧
        cache.answer now pingKey =
          { cache.store now pingKey metadata with
            inFlight := cache.inFlight.set pingKey ⟨.stored metadata, callers⟩ } := by
  unfold answer
  split
  · next metadata callers hload => exact Or.inr ⟨metadata, callers, hload, rfl⟩
  · exact Or.inl rfl

/-- A load whose answer is stored is over, or nothing happens. -/
theorem settle_cases (cache : CheckMetadataCache Caller) (pingKey : Uuid) :
    cache.settle pingKey = (cache, []) ∨ ∃ metadata callers,
      cache.inFlight.get? pingKey = some ⟨.stored metadata, callers⟩ ∧
        cache.settle pingKey =
          ({ cache with inFlight := cache.inFlight.delete pingKey },
            callers.map fun caller => (caller, metadata)) := by
  unfold settle
  split
  · next metadata callers hload => exact Or.inr ⟨metadata, callers, hload, rfl⟩
  · exact Or.inl rfl

/-- A load that waits for its query is over, or nothing happens. -/
theorem fail_cases (cache : CheckMetadataCache Caller) (pingKey : Uuid) :
    cache.fail pingKey = cache ∨
      cache.fail pingKey = { cache with inFlight := cache.inFlight.delete pingKey } := by
  unfold fail
  split
  · exact Or.inr rfl
  · exact Or.inl rfl

end CheckMetadataCache

/-- The update sets a column of the schedule, or the grace. -/
def UpdateCheckRequest.SetsSchedule (input : UpdateCheckRequest) : Prop :=
  input.scheduleType.isSome ∨ input.graceSeconds.isSome
  deriving Decidable

/-- The ping keys that `check_schedule_changed` and `check_removed` notify every instance
of. No column that the other writes set fires a trigger. -/
def notifiedKeys (srv : Server) (db : Database) (e : Event) : List Uuid :=
  match e.write with
  | .update checkId input =>
    match db.findCheck checkId, updateCheck srv.cron e.now checkId input db with
    | some check, .ok _ => if input.SetsSchedule then [check.pingKey] else []
    | _, _ => []
  | .sync projectId request generated =>
    match syncWithinQuota srv.quotas srv.cron srv.syncSlug e.now projectId request generated db with
    | .ok (_, result) =>
      (result.checks.filter fun check => check.created = false).map UpsertedCheck.pingKey
    | .error _ => []
  | .remove checkId => ((db.findCheck checkId).map Check.pingKey).toList
  | _ => []

/-- The ping keys that `ChecksService` invalidates on the instance that served the write. -/
def invalidatedKeys (srv : Server) (db : Database) (e : Event) : List Uuid :=
  match e.write with
  | .update checkId input =>
    match db.findCheck checkId, updateCheck srv.cron e.now checkId input db with
    | some check, .ok _ => [check.pingKey]
    | _, _ => []
  | .rotatePingKey checkId pingKey =>
    match db.findCheck checkId, replacePingKey checkId pingKey db with
    | some check, .ok _ => [check.pingKey, pingKey]
    | _, _ => []
  | .remove checkId => ((db.findCheck checkId).map Check.pingKey).toList
  | _ => []

end SilenceWatch
