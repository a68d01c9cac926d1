import Mathlib.Order.MinMax
import SilenceWatch.Ingest.Cache

/-!
# What the cache tells of an edited check

An instance drops what it keeps of a key when it edits the check itself, and when it is
notified of an edit. A load that is under way then is not dropped: what it has read
before the edit it stores after it, and those who ask meanwhile are told the same.
-/

namespace SilenceWatch

open Keyed Relational Transition

/-- The invalidation of a key on its way to the instance, with the number of its edit. -/
structure Invalidation where
  pingKey : Uuid
  version : ℕ
  deriving DecidableEq

/-- What an instance was told of a key, with the number of the last edit whose invalidation
it had processed when it asked. -/
structure Answer where
  pingKey : Uuid
  since : ℕ
  metadata : Option CheckMetadata
  deriving DecidableEq

/-- An instance and its database. The last three are records that nothing reads: the
database after each commit, for every key the last edit whose invalidation was processed,
and what was answered. A caller is known by the edit it knows of. -/
structure CachedInstance where
  db : Database
  clock : ℤ
  cache : CheckMetadataCache ℕ
  coming : List Invalidation
  versions : List Database
  processed : Uuid → ℕ
  answers : List Answer

/-- Everything that happens to the cache of an instance. -/
inductive CacheEvent where
  /-- A write commits, on this instance or on another one. -/
  | commit (w : Write) (here : Bool)
  /-- A notification arrives, or the write path invalidates the key it has written. -/
  | invalidate (n : ℕ)
  | get (pingKey : Uuid)
  | peek (pingKey : Uuid)
  /-- The query of a load runs. -/
  | query (pingKey : Uuid)
  /-- The answer of a load is stored. -/
  | store (pingKey : Uuid)
  /-- A load is over. -/
  | settle (pingKey : Uuid)
  | fail (pingKey : Uuid)
  | elapse (ms : ℕ)

/-- What a lookup of the key found in each version of the database from one on. -/
def metadataSince (versions : List Database) (version : ℕ) (pingKey : Uuid) :
    List (Option CheckMetadata) :=
  (versions.drop version).map (lookupSql pingKey)

namespace CachedInstance

/-- The invalidations that a write gives rise to. -/
def invalidations (srv : Server) (s : CachedInstance) (w : Write) (here : Bool) :
    List Invalidation :=
  let keys := notifiedKeys srv s.db ⟨s.clock, w⟩ ++
    if here then invalidatedKeys srv s.db ⟨s.clock, w⟩ else []
  keys.map fun pingKey => ⟨pingKey, s.versions.length⟩

/-- The instance after one event. -/
def step (srv : Server) (s : CachedInstance) : CacheEvent → CachedInstance
  | .commit w here =>
    let db := perform srv s.db ⟨s.clock, w⟩
    { s with
      db
      versions := s.versions ++ [db]
      coming := s.coming ++ s.invalidations srv w here }
  | .invalidate n =>
    match s.coming[n]? with
    | none => s
    | some ⟨pingKey, version⟩ =>
      { s with
        cache := s.cache.invalidate pingKey
        coming := s.coming.eraseIdx n
        processed := Function.update s.processed pingKey (max (s.processed pingKey) version) }
  | .get pingKey =>
    let since := s.processed pingKey
    match s.cache.get s.clock pingKey since with
    | (cache, none) => { s with cache }
    | (cache, some metadata) =>
      { s with cache, answers := s.answers ++ [{ pingKey, since, metadata }] }
  | .peek pingKey =>
    match s.cache.peek s.clock pingKey with
    | none => s
    | some metadata =>
      { s with
        answers := s.answers ++
          [{ pingKey, since := s.processed pingKey, metadata := some metadata }] }
  | .query pingKey => { s with cache := s.cache.query pingKey s.db }
  | .store pingKey => { s with cache := s.cache.answer s.clock pingKey }
  | .settle pingKey =>
    let (cache, told) := s.cache.settle pingKey
    { s with
      cache
      answers := s.answers ++ told.map fun (since, metadata) => { pingKey, since, metadata } }
  | .fail pingKey => { s with cache := s.cache.fail pingKey }
  | .elapse ms => { s with clock := s.clock + ms }

/-- An instance that starts. -/
def start (db : Database) (clock : ℤ) : CachedInstance where
  db := db
  clock := clock
  cache := CheckMetadataCache.start
  coming := []
  versions := [db]
  processed := fun _ => 0
  answers := []

/-- No answer is from before an edit whose invalidation was processed when it was asked for. -/
def AnswersFresh (s : CachedInstance) : Prop :=
  ∀ answer ∈ s.answers,
    answer.metadata ∈ metadataSince s.versions answer.since answer.pingKey
  deriving Decidable

/-- The invalidation that the event is. -/
def arriving? (s : CachedInstance) : CacheEvent → Option Invalidation
  | .invalidate n => s.coming[n]?
  | _ => none

/-- When an invalidation is processed, no load of its key that has read the check holds
metadata from before the edit. -/
def LoadsCurrent (s : CachedInstance) (e : CacheEvent) : Prop :=
  ∀ invalidation ∈ s.arriving? e, ∀ load ∈ s.cache.inFlight.get? invalidation.pingKey,
    ∀ metadata ∈ load.phase.metadata,
      metadata ∈ metadataSince s.versions invalidation.version invalidation.pingKey
  deriving Decidable

end CachedInstance

section Since

variable {versions : List Database} {version version' : ℕ} {pingKey : Uuid}
  {metadata : Option CheckMetadata} {db : Database}

/-- What was found from a version on was found from any earlier one on. -/
theorem metadataSince_anti (hle : version ≤ version')
    (h : metadata ∈ metadataSince versions version' pingKey) :
    metadata ∈ metadataSince versions version pingKey := by
  obtain ⟨n, rfl⟩ := Nat.exists_eq_add_of_le hle
  unfold metadataSince at h ⊢
  rw [← List.drop_drop] at h
  exact ((List.drop_sublist n _).map _).subset h

/-- What was found is found in a longer record. -/
theorem metadataSince_append (h : metadata ∈ metadataSince versions version pingKey) :
    metadata ∈ metadataSince (versions ++ [db]) version pingKey := by
  unfold metadataSince at h ⊢
  rw [List.drop_append, List.map_append]
  exact List.mem_append_left _ h

/-- What is found now is found in every version that is no later. -/
theorem lookupSql_mem_metadataSince (hlatest : versions.getLast? = some db)
    (hversion : version < versions.length) :
    lookupSql pingKey db ∈ metadataSince versions version pingKey := by
  refine List.mem_map_of_mem (List.mem_of_getLast? ?_)
  rw [List.getLast?_drop, if_neg (Nat.not_le.mpr hversion)]
  exact hlatest

end Since

/-- What is known of a cache whose loads are current at each invalidation: what it keeps
and what its loads have read is from no edit before the last whose invalidation was
processed. -/
structure CachedInstance.Current (s : CachedInstance) : Prop where
  latest : s.versions.getLast? = some s.db
  processed : ∀ pingKey, s.processed pingKey < s.versions.length
  coming : ∀ invalidation ∈ s.coming, invalidation.version < s.versions.length
  kept : ∀ pingKey entry, s.cache.entries.get? pingKey = some entry →
    entry.metadata ∈ metadataSince s.versions (s.processed pingKey) pingKey
  loaded : ∀ pingKey load, s.cache.inFlight.get? pingKey = some load →
    (∀ metadata ∈ load.phase.metadata,
      metadata ∈ metadataSince s.versions (s.processed pingKey) pingKey) ∧
    ∀ since ∈ load.callers, since ≤ s.processed pingKey
  answered : s.AnswersFresh

section Step

variable {srv : Server} {s : CachedInstance} {pingKey : Uuid}

namespace CachedInstance.Current

/-- A commit adds a version. -/
theorem commit (h : s.Current) (w : Write) (here : Bool) :
    (s.step srv (.commit w here)).Current where
  latest := List.getLast?_concat
  processed pingKey := by
    have hlt := h.processed pingKey
    simp only [step, List.length_append, List.length_singleton]
    omega
  coming invalidation hcoming := by
    simp only [step, List.length_append, List.length_singleton]
    rcases List.mem_append.mp hcoming with hold | hnew
    · have hlt := h.coming invalidation hold
      omega
    · obtain ⟨_, _, rfl⟩ := List.mem_map.mp hnew
      exact Nat.lt_succ_self _
  kept pingKey entry hentry := metadataSince_append (h.kept pingKey entry hentry)
  loaded pingKey load hload := by
    obtain ⟨hread, hcallers⟩ := h.loaded pingKey load hload
    exact ⟨fun metadata hmetadata => metadataSince_append (hread metadata hmetadata), hcallers⟩
  answered answer hanswer := metadataSince_append (h.answered answer hanswer)

/-- An invalidation is processed while the loads of its key are current. -/
theorem invalidate (h : s.Current) (n : ℕ) (hloads : s.LoadsCurrent (.invalidate n)) :
    (s.step srv (.invalidate n)).Current := by
  cases hcoming : s.coming[n]? with
  | none =>
    simp only [CachedInstance.step, hcoming]
    exact h
  | some invalidation =>
    obtain ⟨pingKey, version⟩ := invalidation
    have hmem : ⟨pingKey, version⟩ ∈ s.coming := List.mem_of_getElem? hcoming
    simp only [CachedInstance.step, hcoming]
    constructor
    · exact h.latest
    · intro key
      dsimp only
      by_cases hkey : key = pingKey
      · subst hkey
        rw [Function.update_self]
        exact max_lt (h.processed key) (h.coming _ hmem)
      · rw [Function.update_of_ne hkey]
        exact h.processed key
    · exact fun invalidation hold => h.coming invalidation (List.mem_of_mem_eraseIdx hold)
    · intro key entry hentry
      dsimp only
      simp only [CheckMetadataCache.invalidate] at hentry
      rw [OrderedMap.get?_delete] at hentry
      by_cases hkey : key = pingKey
      · rw [if_pos hkey] at hentry
        cases hentry
      · rw [if_neg hkey] at hentry
        rw [Function.update_of_ne hkey]
        exact h.kept key entry hentry
    · intro key load hload
      obtain ⟨hread, hcallers⟩ := h.loaded key load hload
      dsimp only
      by_cases hkey : key = pingKey
      · subst hkey
        rw [Function.update_self]
        refine ⟨fun metadata hmetadata => ?_, fun since hsince =>
          (hcallers since hsince).trans (le_max_left _ _)⟩
        rcases max_choice (s.processed key) version with hmax | hmax
        · rw [hmax]
          exact hread metadata hmetadata
        · rw [hmax]
          exact hloads _ hcoming load hload metadata hmetadata
      · rw [Function.update_of_ne hkey]
        exact ⟨hread, hcallers⟩
    · exact h.answered

/-- A load that is put in the place of another one. -/
theorem loaded_set (h : s.Current) {load : Load ℕ}
    (hread : ∀ metadata ∈ load.phase.metadata,
      metadata ∈ metadataSince s.versions (s.processed pingKey) pingKey)
    (hcallers : ∀ since ∈ load.callers, since ≤ s.processed pingKey) {key : Uuid} {load' : Load ℕ}
    (hload' : (s.cache.inFlight.set pingKey load).get? key = some load') :
    (∀ metadata ∈ load'.phase.metadata,
      metadata ∈ metadataSince s.versions (s.processed key) key) ∧
    ∀ since ∈ load'.callers, since ≤ s.processed key := by
  rw [OrderedMap.get?_set] at hload'
  split at hload'
  · next hkey =>
    subst hkey
    cases hload'
    exact ⟨hread, hcallers⟩
  · exact h.loaded key load' hload'

/-- A load that is over. -/
theorem loaded_delete (h : s.Current) {key : Uuid} {load : Load ℕ}
    (hload : (s.cache.inFlight.delete pingKey).get? key = some load) :
    (∀ metadata ∈ load.phase.metadata,
      metadata ∈ metadataSince s.versions (s.processed key) key) ∧
    ∀ since ∈ load.callers, since ≤ s.processed key := by
  rw [OrderedMap.get?_delete] at hload
  split at hload
  · cases hload
  · exact h.loaded key load hload

/-- What was known before an answer is known after it. -/
theorem answered_append (h : s.Current) {told : List Answer}
    (htold : ∀ answer ∈ told,
      answer.metadata ∈ metadataSince s.versions answer.since answer.pingKey) :
    ∀ answer ∈ s.answers ++ told,
      answer.metadata ∈ metadataSince s.versions answer.since answer.pingKey := by
  intro answer hanswer
  rcases List.mem_append.mp hanswer with hold | hnew
  · exact h.answered answer hold
  · exact htold answer hnew

/-- A caller is told what is kept, or waits. -/
theorem get (h : s.Current) (pingKey : Uuid) : (s.step srv (.get pingKey)).Current := by
  simp only [CachedInstance.step]
  rcases s.cache.get_cases s.clock pingKey (s.processed pingKey) with
    ⟨entry, hfresh, hget⟩ | ⟨load, hget, _, hload⟩
  · rw [hget]
    have hkept := h.kept pingKey entry (CheckMetadataCache.get?_of_fresh? hfresh)
    refine { h with answered := h.answered_append fun answer hanswer => ?_ }
    obtain rfl := List.mem_singleton.mp hanswer
    exact hkept
  · rw [hget]
    refine { h with loaded := fun key load' hload' => h.loaded_set ?_ ?_ hload' }
    · rcases hload with ⟨pending, hpending, rfl⟩ | rfl
      · exact (h.loaded pingKey pending hpending).1
      · exact fun _ hnone => by cases hnone
    · intro since hsince
      rcases hload with ⟨pending, hpending, rfl⟩ | rfl
      · rcases List.mem_append.mp hsince with hold | hnew
        · exact (h.loaded pingKey pending hpending).2 since hold
        · exact (List.mem_singleton.mp hnew).le
      · exact (List.mem_singleton.mp hsince).le

/-- A caller who does not wait is told what is kept. -/
theorem peek (h : s.Current) (pingKey : Uuid) : (s.step srv (.peek pingKey)).Current := by
  simp only [CachedInstance.step]
  split
  · exact h
  · next metadata hpeek =>
    obtain ⟨entry, hfresh, hmetadata⟩ := Option.bind_eq_some_iff.mp hpeek
    have hkept := h.kept pingKey entry (CheckMetadataCache.get?_of_fresh? hfresh)
    refine { h with answered := h.answered_append fun answer hanswer => ?_ }
    obtain rfl := List.mem_singleton.mp hanswer
    exact hmetadata ▸ hkept

/-- The query of a load finds what there is now. -/
theorem query (h : s.Current) (pingKey : Uuid) : (s.step srv (.query pingKey)).Current := by
  simp only [CachedInstance.step]
  rcases s.cache.query_cases pingKey s.db with hsame | ⟨callers, hload, hquery⟩
  · rw [hsame]
    exact h
  · rw [hquery]
    refine { h with loaded := fun key load' hload' => h.loaded_set ?_ ?_ hload' }
    · intro metadata hmetadata
      cases hmetadata
      exact lookupSql_mem_metadataSince h.latest (h.processed pingKey)
    · exact (h.loaded pingKey _ hload).2

/-- A load stores what it has read. -/
theorem store (h : s.Current) (pingKey : Uuid) : (s.step srv (.store pingKey)).Current := by
  simp only [CachedInstance.step]
  rcases s.cache.answer_cases s.clock pingKey with hsame | ⟨metadata, callers, hload, hstore⟩
  · rw [hsame]
    exact h
  · rw [hstore]
    obtain ⟨hread, hcallers⟩ := h.loaded pingKey _ hload
    refine { h with
      kept := fun key entry hentry => ?_
      loaded := fun key load' hload' => h.loaded_set ?_ ?_ hload' }
    · rcases CheckMetadataCache.get?_of_store hentry with ⟨rfl, hmetadata⟩ | hold
      · rw [hmetadata]
        exact hread metadata rfl
      · exact h.kept key entry hold
    · exact hread
    · exact hcallers

/-- Those who waited are told what the load has read. -/
theorem settle (h : s.Current) (pingKey : Uuid) : (s.step srv (.settle pingKey)).Current := by
  simp only [CachedInstance.step]
  rcases s.cache.settle_cases pingKey with hsame | ⟨metadata, callers, hload, hsettle⟩
  · rw [hsame]
    simpa using h
  · rw [hsettle]
    obtain ⟨hread, hcallers⟩ := h.loaded pingKey _ hload
    refine { h with
      loaded := fun key load' hload' => h.loaded_delete hload'
      answered := h.answered_append fun answer hanswer => ?_ }
    obtain ⟨told, htold, rfl⟩ := List.mem_map.mp hanswer
    obtain ⟨since, hsince, rfl⟩ := List.mem_map.mp htold
    exact metadataSince_anti (hcallers since hsince) (hread metadata rfl)

/-- A load that fails tells nobody anything. -/
theorem fail (h : s.Current) (pingKey : Uuid) : (s.step srv (.fail pingKey)).Current := by
  simp only [CachedInstance.step]
  rcases s.cache.fail_cases pingKey with hsame | hfail
  · rw [hsame]
    exact h
  · rw [hfail]
    exact { h with loaded := fun key load' hload' => h.loaded_delete hload' }

/-- **An event keeps a cache current**, if no invalidation finds a load that has read the
check before the edit. -/
theorem step (h : s.Current) (e : CacheEvent) (hloads : s.LoadsCurrent e) :
    (s.step srv e).Current := by
  cases e with
  | commit w here => exact h.commit w here
  | invalidate n => exact h.invalidate n hloads
  | get pingKey => exact h.get pingKey
  | peek pingKey => exact h.peek pingKey
  | query pingKey => exact h.query pingKey
  | store pingKey => exact h.store pingKey
  | settle pingKey => exact h.settle pingKey
  | fail pingKey => exact h.fail pingKey
  | elapse ms => exact { h with }

end CachedInstance.Current

/-- An instance that starts keeps nothing. -/
theorem CachedInstance.start_current (db : Database) (clock : ℤ) :
    (CachedInstance.start db clock).Current where
  latest := rfl
  processed _ := Nat.zero_lt_one
  coming _ hcoming := absurd hcoming List.not_mem_nil
  kept _ _ hentry := by cases hentry
  loaded _ _ hload := by cases hload
  answered _ hanswer := absurd hanswer List.not_mem_nil

end Step

/-- **No caller is told what was before an edit that the instance knew of when it asked**,
as long as no invalidation finds a load of its key that has read the check before the
edit. -/
theorem answers_fresh (srv : Server) (db : Database) (clock : ℤ) (events : List CacheEvent)
    (hloads : Along (CachedInstance.step srv) CachedInstance.LoadsCurrent
      (CachedInstance.start db clock) events) :
    Throughout (CachedInstance.step srv) CachedInstance.AnswersFresh
      (CachedInstance.start db clock) events :=
  (throughout_of_step (fun _ e h hloads => h.step e hloads)
    (CachedInstance.start_current db clock) hloads).mono fun _ h => h.answered

/-- A check is created and its first heartbeat asks for its metadata. -/
def firstHeartbeat : List CacheEvent :=
  [.commit (.create 1 hourlyRequest "backup" 10 20) true, .get 20, .query 20]

/-- The check is edited on another instance, and the notification arrives. -/
def editedElsewhere : List CacheEvent := [.commit (.update 10 everyMinute) false, .invalidate 0]

/-- The load is over before the edit, and the next one finds the new schedule. -/
def editedBetweenLoads : List CacheEvent :=
  firstHeartbeat ++ [.store 20, .settle 20, .peek 20] ++ editedElsewhere ++
    [.peek 20, .get 20, .query 20, .store 20, .settle 20, .peek 20]

/-- Three heartbeats are told of the schedule they were to be told of. -/
theorem answers_fresh_editedBetweenLoads :
    Throughout (CachedInstance.step sampleServer) CachedInstance.AnswersFresh
      (CachedInstance.start sampleDatabase 0) editedBetweenLoads :=
  answers_fresh sampleServer sampleDatabase 0 editedBetweenLoads (by decide)

/-- The notification arrives while the load is on its way back from the database. -/
def editedDuringLoad : List CacheEvent :=
  firstHeartbeat ++ editedElsewhere ++ [.store 20, .settle 20, .elapse 299999, .peek 20]

/-- A load that is overtaken by an edit stores what was before it: five minutes later the
instance still tells of the old schedule. -/
theorem not_answersFresh_editedDuringLoad :
    ¬ ∀ (srv : Server) (db : Database) (clock : ℤ) (events : List CacheEvent),
      Throughout (CachedInstance.step srv) CachedInstance.AnswersFresh
        (CachedInstance.start db clock) events := by
  intro h
  have hlast := (h sampleServer sampleDatabase 0 editedDuringLoad).last
  revert hlast
  decide

end SilenceWatch
