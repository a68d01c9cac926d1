import SilenceWatch.Common.RateLimiter
import SilenceWatch.Ingest.Freshness
import SilenceWatch.Monitoring.Identity

/-!
# What becomes of a ping key

A rotation and a removal take a ping key away. The instance that serves them drops what it
keeps of the key; the others are notified of removals, and of rotations not at all. What
an instance still keeps of a key leads its heartbeats to the statement, which finds no
check and cannot tell a missing one from a paused one.
-/

namespace SilenceWatch

open Keyed Relational Transition

/-- `IngestOutcome`, with what is answered before the statement runs. -/
inductive IngestResult where
  | written (outcome : IngestOutcome)
  | unknown
  | rateLimited
  | invalid
  deriving DecidableEq

/-- A heartbeat request. -/
structure Heartbeat where
  /-- The text of the ping key matches `UUID_PATTERN`. -/
  wellFormed : Bool
  /-- The address it comes from. -/
  ip : Option String
  command : IngestCommand

/-- Whose budget of unknown keys the heartbeat is charged to. -/
def Heartbeat.source (heartbeat : Heartbeat) : String := heartbeat.ip.getD "unknown"

/-- A heartbeat that is being served, with a record of whether its key was revoked when it
came in. -/
structure PendingHeartbeat where
  heartbeat : Heartbeat
  revoked : Bool

/-- An `INGEST_SQL` on its way to the database, with the record of its heartbeat. -/
structure IngestStatement where
  params : IngestParams
  revoked : Bool

/-- `IngestService` of one instance. -/
structure ServerInstance where
  cache : CheckMetadataCache PendingHeartbeat
  perKeyLimiter : RateLimiter Uuid
  /-- Separate budget for unknown keys. -/
  unknownKeyLimiter : RateLimiter String
  writing : List IngestStatement

namespace ServerInstance

/-- `ingest` from the point where the lookup is over: a wasted one is charged, otherwise the
statement is bound. -/
def resume (cron : CronParser) (now : ℤ) (server : ServerInstance) (pending : PendingHeartbeat) :
    Option CheckMetadata → ServerInstance × Option IngestResult
  | none =>
    ({ server with
        unknownKeyLimiter := (server.unknownKeyLimiter.hit pending.heartbeat.source now).1 },
      some .unknown)
  | some metadata =>
    let params := ingestParams cron metadata.toSchedule now pending.heartbeat.command
    ({ server with writing := server.writing ++ [⟨params, pending.revoked⟩] }, none)

/-- `ingest` up to the answer, the statement or the wait for a load. -/
def ingest (cron : CronParser) (now : ℤ) (server : ServerInstance) (pending : PendingHeartbeat) :
    ServerInstance × Option IngestResult :=
  let pingKey := pending.heartbeat.command.pingKey
  if pending.heartbeat.wellFormed = false then (server, some .invalid)
  else
    let (perKeyLimiter, retryAfter) := server.perKeyLimiter.hit pingKey now
    let server := { server with perKeyLimiter }
    if 0 < retryAfter then (server, some .rateLimited)
    else
      match server.cache.peek now pingKey with
      | some metadata => server.resume cron now pending (some metadata)
      | none =>
        if server.unknownKeyLimiter.Exceeded pending.heartbeat.source now then
          (server, some .rateLimited)
        else
          match server.cache.get now pingKey pending with
          | (cache, none) => ({ server with cache }, none)
          | (cache, some metadata) => { server with cache }.resume cron now pending metadata

/-- Those who waited for a load go on, one after another. -/
def resumeAll (cron : CronParser) (now : ℤ) :
    ServerInstance → List (PendingHeartbeat × Option CheckMetadata) →
      ServerInstance × List (PendingHeartbeat × IngestResult)
  | server, [] => (server, [])
  | server, (pending, metadata) :: told =>
    let (server, result) := server.resume cron now pending metadata
    let (server, results) := resumeAll cron now server told
    (server, result.toList.map (fun result => (pending, result)) ++ results)

end ServerInstance

/-- The ping keys that a rotation or a removal takes away. -/
def revokedKeys (db : Database) : Write → List Uuid
  | .rotatePingKey checkId pingKey =>
    match db.findCheck checkId, replacePingKey checkId pingKey db with
    | some check, .ok _ => [check.pingKey]
    | _, _ => []
  | .remove checkId => ((db.findCheck checkId).map Check.pingKey).toList
  | _ => []

/-- The answer to a heartbeat, with the database before and after the step that gives it. -/
structure IngestReply where
  pingKey : Uuid
  revoked : Bool
  result : IngestResult
  before : Database
  after : Database

/-- Any number of instances and their database, with the invalidations on their way to each
of them. The last three are records that nothing reads: how many writes have committed,
the keys that were revoked with the numbers of their writes, and what was answered. -/
structure Cluster where
  db : Database
  clock : ℤ
  instances : List ServerInstance
  coming : List (ℕ × Invalidation)
  commits : ℕ
  revocations : List Invalidation
  replies : List IngestReply

/-- Everything that happens to the instances. -/
inductive ClusterEvent where
  /-- A write commits, served by one of the instances. -/
  | write (served : ℕ) (w : Write)
  /-- A notification arrives, or the write path invalidates a key. -/
  | invalidate (n : ℕ)
  | ingest (instance' : ℕ) (heartbeat : Heartbeat)
  | query (instance' : ℕ) (pingKey : Uuid)
  | store (instance' : ℕ) (pingKey : Uuid)
  | settle (instance' : ℕ) (pingKey : Uuid)
  | fail (instance' : ℕ) (pingKey : Uuid)
  /-- A statement of the instance runs. -/
  | execute (instance' : ℕ) (n : ℕ)
  | elapse (ms : ℕ)

namespace Cluster

/-- The key was revoked, and everything this gave rise to is processed everywhere. -/
def Revoked (s : Cluster) (pingKey : Uuid) : Prop :=
  ∃ revocation ∈ s.revocations, revocation.pingKey = pingKey ∧
    ∀ invalidation ∈ s.coming, invalidation.2.version ≠ revocation.version
  deriving Decidable

/-- The invalidations that a write gives rise to: every instance is notified, and the one
that served the write invalidates by itself. -/
def invalidations (srv : Server) (s : Cluster) (served : ℕ) (w : Write) :
    List (ℕ × Invalidation) :=
  let e : Event := ⟨s.clock, w⟩
  ((List.range s.instances.length).flatMap fun instance' =>
      (notifiedKeys srv s.db e).map fun pingKey => (instance', ⟨pingKey, s.commits⟩)) ++
    (invalidatedKeys srv s.db e).map fun pingKey => (served, ⟨pingKey, s.commits⟩)

/-- An answer that leaves the database as it is. -/
def reply (s : Cluster) (pending : PendingHeartbeat) (result : IngestResult) : IngestReply where
  pingKey := pending.heartbeat.command.pingKey
  revoked := pending.revoked
  result := result
  before := s.db
  after := s.db

/-- One cache of the instances changes. -/
def updateCache (s : Cluster) (instance' : ℕ)
    (f : CheckMetadataCache PendingHeartbeat → CheckMetadataCache PendingHeartbeat) : Cluster :=
  match s.instances[instance']? with
  | none => s
  | some server =>
    { s with instances := s.instances.set instance' { server with cache := f server.cache } }

/-- The instances after one event. -/
def step (srv : Server) (s : Cluster) : ClusterEvent → Cluster
  | .write served w =>
    { s with
      db := perform srv s.db ⟨s.clock, w⟩
      coming := s.coming ++ s.invalidations srv served w
      commits := s.commits + 1
      revocations := s.revocations ++
        (revokedKeys s.db w).map fun pingKey => ⟨pingKey, s.commits⟩ }
  | .invalidate n =>
    match s.coming[n]? with
    | none => s
    | some (instance', invalidation) =>
      { s.updateCache instance' fun cache => cache.invalidate invalidation.pingKey with
        coming := s.coming.eraseIdx n }
  | .ingest instance' heartbeat =>
    match s.instances[instance']? with
    | none => s
    | some server =>
      let revoked := heartbeat.wellFormed && decide (s.Revoked heartbeat.command.pingKey)
      let (server, result) := server.ingest srv.cron s.clock ⟨heartbeat, revoked⟩
      { s with
        instances := s.instances.set instance' server
        replies := s.replies ++ result.toList.map (s.reply ⟨heartbeat, revoked⟩) }
  | .query instance' pingKey => s.updateCache instance' fun cache => cache.query pingKey s.db
  | .store instance' pingKey => s.updateCache instance' fun cache => cache.answer s.clock pingKey
  | .settle instance' pingKey =>
    match s.instances[instance']? with
    | none => s
    | some server =>
      let (cache, told) := server.cache.settle pingKey
      let (server, results) := { server with cache }.resumeAll srv.cron s.clock told
      { s with
        instances := s.instances.set instance' server
        replies := s.replies ++ results.map fun (pending, result) => s.reply pending result }
  | .fail instance' pingKey => s.updateCache instance' fun cache => cache.fail pingKey
  | .execute instance' n =>
    match s.instances[instance']? with
    | none => s
    | some server =>
      match server.writing[n]? with
      | none => s
      | some statement =>
        let (db, rowCount) := ingestSql statement.params s.db
        { s with
          db
          instances := s.instances.set instance'
            { server with writing := server.writing.eraseIdx n }
          replies := s.replies ++
            [{ pingKey := statement.params.pingKey
               revoked := statement.revoked
               result := .written (if rowCount = 0 then .paused else .recorded)
               before := s.db
               after := db }] }
  | .elapse ms => { s with clock := s.clock + ms }

/-- The statement that the event runs. -/
def executing? (s : Cluster) : ClusterEvent → Option IngestStatement
  | .execute instance' n => s.instances[instance']?.bind fun server => server.writing[n]?
  | _ => none

end Cluster

/-- The write that the event is. -/
def ClusterEvent.write? : ClusterEvent → Option Write
  | .write _ w => some w
  | _ => none

/-- A pause is reported of a paused check that holds the key, and a heartbeat under a
revoked key records nothing and is told that the key is unknown, or to come back. -/
def IngestReply.Honest (reply : IngestReply) : Prop :=
  (reply.result = .written .paused →
    ∃ c ∈ reply.before.checks.rows, c.pingKey = reply.pingKey ∧ c.state = .paused) ∧
  (reply.revoked = true →
    reply.after = reply.before ∧ (reply.result = .unknown ∨ reply.result = .rateLimited))

namespace Cluster

/-- Every answer was honest. -/
def RepliesHonest (s : Cluster) : Prop := ∀ reply ∈ s.replies, reply.Honest

/-- When a statement runs, some check holds the key it presents. -/
def KeysHeld (s : Cluster) (e : ClusterEvent) : Prop :=
  ∀ statement ∈ s.executing? e, ∃ c ∈ s.db.checks.rows, c.pingKey = statement.params.pingKey
  deriving Decidable

/-- The keys a write generates are new: no check holds them, and none was revoked. -/
def NewKeys (s : Cluster) (e : ClusterEvent) : Prop :=
  ∀ w ∈ e.write?, ∀ pingKey ∈ w.newPingKeys,
    (∀ c ∈ s.db.checks.rows, c.pingKey ≠ pingKey) ∧
      ∀ revocation ∈ s.revocations, revocation.pingKey ≠ pingKey
  deriving Decidable

end Cluster

/-- A record of a revoked key is about a key that was revoked. -/
def Marked (revocations : List Invalidation) (revoked : Bool) (pingKey : Uuid) : Prop :=
  revoked = true → ∃ revocation ∈ revocations, revocation.pingKey = pingKey

/-- The records of an instance are about keys that were revoked. -/
structure ServerInstance.Tracked (revocations : List Invalidation) (server : ServerInstance) :
    Prop where
  writing : ∀ statement ∈ server.writing,
    Marked revocations statement.revoked statement.params.pingKey
  waiting : ∀ pingKey load, server.cache.inFlight.get? pingKey = some load →
    ∀ pending ∈ load.callers,
      Marked revocations pending.revoked pending.heartbeat.command.pingKey

section Instance

variable {cron : CronParser} {now : ℤ} {server : ServerInstance} {pending : PendingHeartbeat}
  {revocations : List Invalidation} {pingKey : Uuid} {db : Database}

namespace ServerInstance

/-- What `resume` leaves: nothing new that waits, and a statement of its heartbeat at most. -/
theorem resume_tracked (h : server.Tracked revocations)
    (hpending : Marked revocations pending.revoked pending.heartbeat.command.pingKey)
    (metadata : Option CheckMetadata) :
    (server.resume cron now pending metadata).1.Tracked revocations := by
  cases metadata with
  | none => exact ⟨h.writing, h.waiting⟩
  | some metadata =>
    refine ⟨fun statement hstatement => ?_, h.waiting⟩
    rcases List.mem_append.mp hstatement with hold | hnew
    · exact h.writing statement hold
    · obtain rfl := List.mem_singleton.mp hnew
      exact hpending

/-- What a caller is told without a load was kept or looked up, and is not a refusal. -/
theorem resume_result {metadata : Option CheckMetadata} {result : IngestResult}
    (h : (server.resume cron now pending metadata).2 = some result) : result = .unknown := by
  cases metadata with
  | none => exact (Option.some.inj h).symm
  | some metadata => cases h

/-- The caller of a load is one of those who wait. -/
theorem Tracked.get (h : server.Tracked revocations) (now : ℤ) (pingKey : Uuid)
    (hpending : Marked revocations pending.revoked pending.heartbeat.command.pingKey) :
    { server with cache := (server.cache.get now pingKey pending).1 }.Tracked revocations := by
  rcases server.cache.get_cases now pingKey pending with ⟨_, _, hget⟩ | ⟨load, hget, _, hload⟩
  · rw [hget]
    exact h
  · rw [hget]
    refine ⟨h.writing, fun key load' hload' => ?_⟩
    rw [OrderedMap.get?_set] at hload'
    split at hload'
    · cases hload'
      intro caller hcaller
      rcases hload with ⟨waiting, hwaiting, rfl⟩ | rfl
      · rcases List.mem_append.mp hcaller with hold | hnew
        · exact h.waiting pingKey waiting hwaiting caller hold
        · exact List.mem_singleton.mp hnew ▸ hpending
      · exact List.mem_singleton.mp hcaller ▸ hpending
    · exact h.waiting key load' hload'

/-- What `ingest` leaves: its heartbeat waits, or is written, or is answered. -/
theorem ingest_tracked (h : server.Tracked revocations)
    (hpending : Marked revocations pending.revoked pending.heartbeat.command.pingKey) :
    (server.ingest cron now pending).1.Tracked revocations := by
  have hlimited (perKeyLimiter : RateLimiter Uuid) :
      { server with perKeyLimiter }.Tracked revocations := ⟨h.writing, h.waiting⟩
  have hget (perKeyLimiter : RateLimiter Uuid) :=
    (hlimited perKeyLimiter).get now pending.heartbeat.command.pingKey hpending
  simp only [ingest]
  split
  · exact h
  · split
    · exact hlimited _
    · split
      · exact resume_tracked (hlimited _) hpending _
      · split
        · exact hlimited _
        · have hcache := hget (server.perKeyLimiter.hit pending.heartbeat.command.pingKey now).1
          split
          · next cache heq =>
            rw [heq] at hcache
            exact hcache
          · next cache metadata heq =>
            rw [heq] at hcache
            exact resume_tracked hcache hpending metadata

/-- What a heartbeat is told without its statement: the key is unknown, or it is to come back,
or it has no key. -/
theorem ingest_result {result : IngestResult}
    (h : (server.ingest cron now pending).2 = some result) :
    result = .unknown ∨ result = .rateLimited ∨
      (result = .invalid ∧ pending.heartbeat.wellFormed = false) := by
  simp only [ingest] at h
  split at h
  · next hmalformed => exact Or.inr (Or.inr ⟨(Option.some.inj h).symm, hmalformed⟩)
  · split at h
    · exact Or.inr (Or.inl (Option.some.inj h).symm)
    · split at h
      · exact Or.inl (resume_result h)
      · split at h
        · exact Or.inr (Or.inl (Option.some.inj h).symm)
        · split at h
          · cases h
          · exact Or.inl (resume_result h)

/-- Those who waited for a load leave statements of theirs at most. -/
theorem resumeAll_tracked {told : List (PendingHeartbeat × Option CheckMetadata)}
    (h : server.Tracked revocations)
    (htold : ∀ answer ∈ told,
      Marked revocations answer.1.revoked answer.1.heartbeat.command.pingKey) :
    (server.resumeAll cron now told).1.Tracked revocations := by
  induction told generalizing server with
  | nil => exact h
  | cons first told ih =>
    exact ih (resume_tracked h (htold _ List.mem_cons_self) first.2) fun answer hanswer =>
      htold answer (List.mem_cons_of_mem _ hanswer)

/-- Those who waited for a load are told that their key is unknown, or nothing yet. -/
theorem resumeAll_result {told : List (PendingHeartbeat × Option CheckMetadata)}
    {answer : PendingHeartbeat × IngestResult}
    (h : answer ∈ (server.resumeAll cron now told).2) : answer.2 = .unknown := by
  induction told generalizing server with
  | nil => cases h
  | cons first told ih =>
    rcases List.mem_append.mp h with hfirst | hlater
    · obtain ⟨result, hresult, rfl⟩ := List.mem_map.mp hfirst
      exact resume_result (Option.mem_toList.mp hresult)
    · exact ih hlater

/-- A load that goes on keeps those who wait for it. -/
theorem Tracked.set (h : server.Tracked revocations) {entries : OrderedMap Uuid CacheEntry}
    {phase phase' : LoadPhase} {callers : List PendingHeartbeat}
    (hload : server.cache.inFlight.get? pingKey = some ⟨phase, callers⟩) :
    { server with
      cache := ⟨entries, server.cache.inFlight.set pingKey ⟨phase', callers⟩⟩ }.Tracked
        revocations := by
  refine ⟨h.writing, fun key load hkey => ?_⟩
  rw [OrderedMap.get?_set] at hkey
  split at hkey
  · cases hkey
    exact fun pending hpending => h.waiting pingKey ⟨phase, callers⟩ hload pending hpending
  · exact h.waiting key load hkey

/-- A load that is over leaves those who wait for another one. -/
theorem Tracked.delete (h : server.Tracked revocations) :
    { server with
      cache := { server.cache with
        inFlight := server.cache.inFlight.delete pingKey } }.Tracked revocations := by
  refine ⟨h.writing, fun key load hkey => ?_⟩
  rw [OrderedMap.get?_delete] at hkey
  split at hkey
  · cases hkey
  · exact h.waiting key load hkey

/-- The query of a load runs. -/
theorem Tracked.query (h : server.Tracked revocations) :
    { server with cache := server.cache.query pingKey db }.Tracked revocations := by
  rcases server.cache.query_cases pingKey db with hsame | ⟨callers, hload, hquery⟩
  · rw [hsame]
    exact h
  · rw [hquery]
    exact h.set hload

/-- The answer of a load is stored. -/
theorem Tracked.answer (h : server.Tracked revocations) :
    { server with cache := server.cache.answer now pingKey }.Tracked revocations := by
  rcases server.cache.answer_cases now pingKey with hsame | ⟨metadata, callers, hload, hanswer⟩
  · rw [hsame]
    exact h
  · rw [hanswer]
    exact h.set hload

/-- A load fails. -/
theorem Tracked.fail (h : server.Tracked revocations) :
    { server with cache := server.cache.fail pingKey }.Tracked revocations := by
  rcases server.cache.fail_cases pingKey with hsame | hfail
  · rw [hsame]
    exact h
  · rw [hfail]
    exact h.delete

/-- More keys are revoked. -/
theorem Tracked.mono {revocations' : List Invalidation} (h : server.Tracked revocations)
    (hsub : revocations ⊆ revocations') : server.Tracked revocations' := by
  have hmarked {revoked : Bool} {pingKey : Uuid} (hmark : Marked revocations revoked pingKey) :
      Marked revocations' revoked pingKey := by
    intro hrevoked
    obtain ⟨revocation, hmem, hkey⟩ := hmark hrevoked
    exact ⟨revocation, hsub hmem, hkey⟩
  exact ⟨fun statement hstatement => hmarked (h.writing statement hstatement),
    fun key load hload pending hpending => hmarked (h.waiting key load hload pending hpending)⟩

end ServerInstance

end Instance

/-- What is known of the instances and of what was revoked: no check holds a revoked key,
and the records are about revoked keys. -/
structure Cluster.Tracked (s : Cluster) : Prop where
  unheld : ∀ revocation ∈ s.revocations, ∀ c ∈ s.db.checks.rows, c.pingKey ≠ revocation.pingKey
  instances : ∀ server ∈ s.instances, server.Tracked s.revocations

section Step

variable {srv : Server} {s : Cluster} {e : ClusterEvent}

/-- A key that a write takes away no check holds after it. -/
theorem not_held_of_mem_revokedKeys {db : Database} {now : ℤ} {w : Write} {pingKey : Uuid}
    (hrevoked : pingKey ∈ revokedKeys db w)
    (hnew : ∀ key ∈ w.newPingKeys, ∀ c ∈ db.checks.rows, c.pingKey ≠ key) :
    ∀ c ∈ (perform srv db ⟨now, w⟩).checks.rows, c.pingKey ≠ pingKey := by
  have hother {check c : Check} (hcheck : check ∈ db.checks.rows) (hc : c ∈ db.checks.rows)
      (hne : c.id ≠ check.id) : c.pingKey ≠ check.pingKey := by
    intro hsame
    have heq : c = check :=
      db.checks.eq_of_key_eq Check.pingKey (fun _ _ h => h.2.1) hc hcheck hsame
    exact hne (congrArg Check.id heq)
  have hfound {checkId : Uuid} {check : Check} (hfind : db.findCheck checkId = some check) :
      check ∈ db.checks.rows ∧ check.id = checkId :=
    ⟨List.mem_of_find?_eq_some hfind, by simpa using List.find?_some hfind⟩
  cases w with
  | rotatePingKey checkId newKey =>
    simp only [revokedKeys] at hrevoked
    split at hrevoked
    · next check db' hfind hreplace =>
      obtain rfl := List.mem_singleton.mp hrevoked
      obtain ⟨hcheck, hid⟩ := hfound hfind
      intro c' hc'
      simp only [perform, hreplace, orUnchanged, (replacePingKey_cases hreplace).1] at hc'
      obtain ⟨c, hc, ⟨_, rfl⟩ | ⟨hne, rfl⟩⟩ := mem_map_updateRow.mp hc'
      · exact (hnew newKey List.mem_cons_self check hcheck).symm
      · exact hother hcheck hc (hid ▸ hne)
    · cases hrevoked
  | remove checkId =>
    simp only [revokedKeys] at hrevoked
    obtain ⟨check, hfind, rfl⟩ := Option.map_eq_some_iff.mp (Option.mem_toList.mp hrevoked)
    obtain ⟨hcheck, hid⟩ := hfound hfind
    intro c' hc'
    simp only [perform, removeCheck, hfind, orUnchanged] at hc'
    obtain ⟨hc, hne⟩ := Table.mem_delete.mp hc'
    exact hother hcheck hc (hid ▸ hne)
  | _ => cases hrevoked

namespace Cluster

/-- One of the instances goes on. -/
theorem Tracked.set (h : s.Tracked) {instance' : ℕ} {server : ServerInstance}
    (hserver : server.Tracked s.revocations) :
    ∀ server' ∈ s.instances.set instance' server, server'.Tracked s.revocations := by
  intro server' hserver'
  rcases List.mem_or_eq_of_mem_set hserver' with hold | rfl
  · exact h.instances server' hold
  · exact hserver

/-- One cache of the instances changes. -/
theorem Tracked.updateCache (h : s.Tracked) (instance' : ℕ)
    (f : CheckMetadataCache PendingHeartbeat → CheckMetadataCache PendingHeartbeat)
    (hf : ∀ server : ServerInstance, server.Tracked s.revocations →
      { server with cache := f server.cache }.Tracked s.revocations) :
    (s.updateCache instance' f).Tracked := by
  unfold Cluster.updateCache
  split
  · exact h
  · next server hget =>
    exact ⟨h.unheld, h.set (hf server (h.instances server (List.mem_of_getElem? hget)))⟩

/-- A change of a cache answers nobody. -/
theorem updateCache_replies (instance' : ℕ)
    (f : CheckMetadataCache PendingHeartbeat → CheckMetadataCache PendingHeartbeat) :
    (s.updateCache instance' f).replies = s.replies := by
  unfold Cluster.updateCache
  split <;> rfl

/-- A write that generates new keys revokes keys that no check holds any more. -/
theorem Tracked.write (h : s.Tracked) (served : ℕ) (w : Write)
    (hnew : s.NewKeys (.write served w)) : (s.step srv (.write served w)).Tracked := by
  have hkeys := hnew w rfl
  refine ⟨fun revocation hrevocation c' hc' => ?_, fun server hserver => ?_⟩
  · rcases List.mem_append.mp hrevocation with hold | hrevoked
    · rcases perform_pingKey srv s.db ⟨s.clock, w⟩ hc' with ⟨c, hc, _, hsame⟩ | hgenerated
      · rw [← hsame]
        exact h.unheld revocation hold c hc
      · exact fun heq => (hkeys _ hgenerated).2 revocation hold heq.symm
    · obtain ⟨pingKey, hmem, rfl⟩ := List.mem_map.mp hrevoked
      exact not_held_of_mem_revokedKeys hmem (fun key hkey => (hkeys key hkey).1) c' hc'
  · exact (h.instances server hserver).mono (List.subset_append_left _ _)

/-- The mark of a heartbeat that comes in is about a key that was revoked. -/
theorem marked_of_revoked (s : Cluster) (wellFormed : Bool) (pingKey : Uuid) :
    Marked s.revocations (wellFormed && decide (s.Revoked pingKey)) pingKey := by
  intro hrevoked
  obtain ⟨revocation, hmem, hkey, _⟩ := of_decide_eq_true (Bool.and_eq_true_iff.mp hrevoked).2
  exact ⟨revocation, hmem, hkey⟩

/-- A statement writes no ping key. -/
theorem ingestSql_pingKey {params : IngestParams} {db : Database} {c' : Check}
    (hc' : c' ∈ (ingestSql params db).1.checks.rows) :
    ∃ c ∈ db.checks.rows, c.pingKey = c'.pingKey := by
  unfold ingestSql at hc'
  split at hc'
  · exact ⟨c', hc', rfl⟩
  · obtain ⟨c, hc, ⟨_, rfl⟩ | ⟨_, rfl⟩⟩ := mem_map_updateRow.mp hc'
    · exact ⟨c, hc, rfl⟩
    · exact ⟨_, hc, rfl⟩

/-- The instances are tracked through an event whose keys are new. -/
theorem Tracked.step (h : s.Tracked) (hnew : s.NewKeys e) : (s.step srv e).Tracked := by
  cases e with
  | write served w => exact h.write served w hnew
  | invalidate n =>
    simp only [Cluster.step]
    split
    · exact h
    · next instance' invalidation hcoming =>
      have hupdated : (s.updateCache instance' fun cache =>
          cache.invalidate invalidation.pingKey).Tracked :=
        h.updateCache _ _ fun server hserver => ⟨hserver.writing, hserver.waiting⟩
      exact ⟨hupdated.unheld, hupdated.instances⟩
  | ingest instance' heartbeat =>
    simp only [Cluster.step]
    split
    · exact h
    · next server hget =>
      have hserver := h.instances server (List.mem_of_getElem? hget)
      exact ⟨h.unheld, h.set (ServerInstance.ingest_tracked hserver (s.marked_of_revoked _ _))⟩
  | query instance' pingKey =>
    exact h.updateCache _ (fun cache => cache.query pingKey s.db) fun _ hserver => hserver.query
  | store instance' pingKey =>
    exact h.updateCache _ (fun cache => cache.answer s.clock pingKey) fun _ hserver =>
      hserver.answer
  | settle instance' pingKey =>
    simp only [Cluster.step]
    split
    · exact h
    · next server hget =>
      have hserver := h.instances server (List.mem_of_getElem? hget)
      rcases server.cache.settle_cases pingKey with hsame | ⟨metadata, callers, hload, hsettle⟩
      · rw [hsame]
        exact ⟨h.unheld, h.set hserver⟩
      · rw [hsettle]
        refine ⟨h.unheld, h.set (ServerInstance.resumeAll_tracked hserver.delete ?_)⟩
        intro answer hanswer
        obtain ⟨pending, hpending, rfl⟩ := List.mem_map.mp hanswer
        exact hserver.waiting pingKey _ hload pending hpending
  | fail instance' pingKey =>
    exact h.updateCache _ (fun cache => cache.fail pingKey) fun _ hserver => hserver.fail
  | execute instance' n =>
    simp only [Cluster.step]
    split
    · exact h
    · next server hget =>
      split
      · exact h
      · next statement hstatement =>
        have hserver := h.instances server (List.mem_of_getElem? hget)
        refine ⟨fun revocation hrevocation c' hc' => ?_, h.set ⟨fun other hother => ?_, ?_⟩⟩
        · obtain ⟨c, hc, hsame⟩ := ingestSql_pingKey hc'
          rw [← hsame]
          exact h.unheld revocation hrevocation c hc
        · exact hserver.writing other (List.mem_of_mem_eraseIdx hother)
        · exact hserver.waiting
  | elapse ms => exact ⟨h.unheld, h.instances⟩

/-- An answer without a statement is honest, if it is no refusal of a key. -/
theorem reply_honest {pending : PendingHeartbeat} {result : IngestResult}
    (hresult : result = .unknown ∨ result = .rateLimited ∨
      (result = .invalid ∧ pending.revoked = false)) : (s.reply pending result).Honest := by
  constructor
  · intro hpaused
    rcases hresult with rfl | rfl | ⟨rfl, _⟩ <;> cases hpaused
  · intro hrevoked
    rcases hresult with rfl | rfl | ⟨_, hnot⟩
    · exact ⟨rfl, Or.inl rfl⟩
    · exact ⟨rfl, Or.inr rfl⟩
    · exact absurd (hnot.symm.trans hrevoked) Bool.false_ne_true

/-- Honest answers stay so, and new ones add to them. -/
theorem repliesHonest_append {replies told : List IngestReply}
    (h : ∀ reply ∈ replies, reply.Honest) :
    (∀ reply ∈ replies ++ told, reply.Honest) ↔ ∀ reply ∈ told, reply.Honest := by
  simp only [List.forall_mem_append]
  exact ⟨fun hall => hall.2, fun htold => ⟨h, htold⟩⟩

/-- **The answer of a statement is honest if, and only if, some check holds its key.** -/
theorem Tracked.executed_honest (h : s.Tracked) {statement : IngestStatement}
    (hmarked : Marked s.revocations statement.revoked statement.params.pingKey) :
    IngestReply.Honest
        { pingKey := statement.params.pingKey
          revoked := statement.revoked
          result :=
            .written (if (ingestSql statement.params s.db).2 = 0 then .paused else .recorded)
          before := s.db
          after := (ingestSql statement.params s.db).1 } ↔
      ∃ c ∈ s.db.checks.rows, c.pingKey = statement.params.pingKey := by
  constructor
  · intro hhonest
    cases hfind : s.db.checks.rows.find? statement.params.Finds with
    | some c =>
      have hfinds : statement.params.Finds c := by simpa using List.find?_some hfind
      exact ⟨c, List.mem_of_find?_eq_some hfind, hfinds.1⟩
    | none =>
      obtain ⟨c, hc, hkey, _⟩ := hhonest.1 (by simp only [ingestSql, hfind, if_true])
      exact ⟨c, hc, hkey⟩
  · rintro ⟨c, hc, hkey⟩
    constructor
    · intro hpaused
      refine ⟨c, hc, hkey, ?_⟩
      by_contra hstate
      have hfinds : statement.params.Finds c := ⟨hkey, hstate⟩
      cases hfind : s.db.checks.rows.find? statement.params.Finds with
      | none => exact absurd (decide_eq_true hfinds) (List.find?_eq_none.mp hfind c hc)
      | some prev => simp [ingestSql, hfind] at hpaused
    · intro hrevoked
      obtain ⟨revocation, hrevocation, hsame⟩ := hmarked hrevoked
      exact absurd (hkey.trans hsame.symm) (h.unheld revocation hrevocation c hc)

/-- **An event keeps the answers honest if, and only if, the statement it runs presents a key
that some check holds.** -/
theorem Tracked.honest_iff (h : s.Tracked) (hhonest : s.RepliesHonest) :
    (s.step srv e).RepliesHonest ↔ s.KeysHeld e := by
  have hquiet (hreplies : (s.step srv e).RepliesHonest) (hnone : s.executing? e = none) :
      (s.step srv e).RepliesHonest ↔ s.KeysHeld e := by
    refine iff_of_true hreplies fun statement hstatement => ?_
    rw [hnone] at hstatement
    cases hstatement
  cases e with
  | ingest instance' heartbeat =>
    refine hquiet ?_ rfl
    simp only [Cluster.step]
    split
    · exact hhonest
    · next server hget =>
      refine (repliesHonest_append hhonest).mpr fun reply hreply => ?_
      obtain ⟨result, hresult, rfl⟩ := List.mem_map.mp hreply
      refine reply_honest ?_
      rcases ServerInstance.ingest_result (Option.mem_toList.mp hresult) with
        hunknown | hlimited | ⟨hinvalid, hmalformed⟩
      · exact Or.inl hunknown
      · exact Or.inr (Or.inl hlimited)
      · refine Or.inr (Or.inr ⟨hinvalid, ?_⟩)
        dsimp only at hmalformed ⊢
        rw [hmalformed, Bool.false_and]
  | settle instance' pingKey =>
    refine hquiet ?_ rfl
    simp only [Cluster.step]
    split
    · exact hhonest
    · next server hget =>
      refine (repliesHonest_append hhonest).mpr fun reply hreply => ?_
      obtain ⟨answer, hanswer, rfl⟩ := List.mem_map.mp hreply
      exact reply_honest (Or.inl (ServerInstance.resumeAll_result hanswer))
  | execute instance' n =>
    cases hget : s.instances[instance']? with
    | none =>
      refine hquiet ?_ (by simp only [executing?, hget, Option.bind_none])
      simp only [Cluster.step, hget]
      exact hhonest
    | some server =>
      cases hstatement : server.writing[n]? with
      | none =>
        refine hquiet ?_ (by simp only [executing?, hget, Option.bind_some, hstatement])
        simp only [Cluster.step, hget, hstatement]
        exact hhonest
      | some statement =>
        have hmarked := (h.instances server (List.mem_of_getElem? hget)).writing statement
          (List.mem_of_getElem? hstatement)
        have hexecuted := h.executed_honest hmarked
        simp only [Cluster.step, KeysHeld, executing?, hget, hstatement, Option.bind_some,
          Option.mem_some_iff, forall_eq']
        refine (repliesHonest_append hhonest).trans ?_
        rw [List.forall_mem_singleton]
        exact hexecuted
  | write served w => exact hquiet hhonest rfl
  | elapse ms => exact hquiet hhonest rfl
  | invalidate n =>
    refine hquiet ?_ rfl
    simp only [Cluster.step]
    split
    · exact hhonest
    · unfold RepliesHonest
      simp only [updateCache_replies]
      exact hhonest
  | query instance' pingKey =>
    refine hquiet ?_ rfl
    unfold RepliesHonest
    simp only [Cluster.step, updateCache_replies]
    exact hhonest
  | store instance' pingKey =>
    refine hquiet ?_ rfl
    unfold RepliesHonest
    simp only [Cluster.step, updateCache_replies]
    exact hhonest
  | fail instance' pingKey =>
    refine hquiet ?_ rfl
    unfold RepliesHonest
    simp only [Cluster.step, updateCache_replies]
    exact hhonest

end Cluster

end Step

/-- Nothing was revoked or answered yet; what the instances keep, and whom they serve, is
arbitrary. -/
structure Cluster.Starts (s : Cluster) : Prop where
  revocations : s.revocations = []
  replies : s.replies = []
  writing : ∀ server ∈ s.instances, ∀ statement ∈ server.writing, statement.revoked = false
  waiting : ∀ server ∈ s.instances, ∀ pingKey load,
    server.cache.inFlight.get? pingKey = some load →
      ∀ pending ∈ load.callers, pending.revoked = false

/-- At the start no record is about a revoked key. -/
theorem Cluster.Starts.tracked {s : Cluster} (h : s.Starts) : s.Tracked where
  unheld revocation hrevocation := by
    rw [h.revocations] at hrevocation
    cases hrevocation
  instances server hserver := by
    refine ⟨fun statement hstatement hrevoked => ?_,
      fun pingKey load hload pending hpending hrevoked => ?_⟩
    · rw [h.writing server hserver statement hstatement] at hrevoked
      cases hrevoked
    · rw [h.waiting server hserver pingKey load hload pending hpending] at hrevoked
      cases hrevoked

/-- **A revoked key is unknown everywhere, and a pause is reported of paused checks only, if
and only if no statement of a heartbeat ever presents a key that no check holds.** -/
theorem replies_honest_iff (srv : Server) (s : Cluster) (events : List ClusterEvent)
    (hstart : s.Starts) (hnew : Along (Cluster.step srv) Cluster.NewKeys s events) :
    Throughout (Cluster.step srv) Cluster.RepliesHonest s events ↔
      Along (Cluster.step srv) Cluster.KeysHeld s events := by
  have hhonest : s.RepliesHonest := by
    intro reply hreply
    rw [hstart.replies] at hreply
    cases hreply
  have htracked : Throughout (Cluster.step srv) Cluster.Tracked s events :=
    throughout_of_step (fun _ _ h hnew => h.step hnew) hstart.tracked hnew
  have hiff : Throughout (Cluster.step srv) (fun s => s.Tracked ∧ s.RepliesHonest) s events ↔
      Along (Cluster.step srv) Cluster.KeysHeld s events := by
    refine throughout_iff_along ?_ ⟨hstart.tracked, hhonest⟩ hnew
    rintro s e ⟨htracked, hhonest⟩ hnew
    rw [← htracked.honest_iff hhonest]
    exact ⟨fun h => h.2, fun h => ⟨htracked.step hnew, h⟩⟩
  rw [← hiff]
  exact ⟨fun h => htracked.and h, fun h => h.mono fun _ h => h.2⟩

/-- An instance that starts, with the default limits. -/
def newServerInstance : ServerInstance where
  cache := CheckMetadataCache.start
  perKeyLimiter := RateLimiter.new 120 60000
  unknownKeyLimiter := RateLimiter.new 60 60000 20000
  writing := []

/-- The sample account, with two instances that start. -/
def twoServers : Cluster where
  db := sampleDatabase
  clock := 0
  instances := [newServerInstance, newServerInstance]
  coming := []
  commits := 0
  revocations := []
  replies := []

/-- They serve nobody yet. -/
theorem twoServers_starts : twoServers.Starts := by
  have hnew {server : ServerInstance} (hserver : server ∈ twoServers.instances) :
      server = newServerInstance := by
    simpa [twoServers] using hserver
  refine ⟨rfl, rfl, fun server hserver statement hstatement => ?_,
    fun server hserver pingKey load hload => ?_⟩
  · rw [hnew hserver] at hstatement
    cases hstatement
  · rw [hnew hserver] at hload
    cases hload

/-- A heartbeat under a ping key. -/
def heartbeatOf (pingKey : Uuid) : Heartbeat where
  wellFormed := true
  ip := some "192.0.2.1"
  command := successCommand pingKey

/-- An instance looks a key up for the heartbeat that comes in. -/
def lookedUp (instance' : ℕ) (pingKey : Uuid) : List ClusterEvent :=
  [.ingest instance' (heartbeatOf pingKey), .query instance' pingKey, .store instance' pingKey,
    .settle instance' pingKey]

/-- A check is created, and the second instance records a heartbeat of it. -/
def recordedElsewhere : List ClusterEvent :=
  .write 0 (.create 1 hourlyRequest "backup" 10 20) :: lookedUp 1 20 ++ [.execute 1 0]

/-- The first instance rotates the key, and drops what it keeps of both. -/
def rotatedHere : List ClusterEvent :=
  [.write 0 (.rotatePingKey 10 21), .invalidate 0, .invalidate 0]

/-- The check is paused, rotated and removed, and every key is asked for again. -/
def rotatedAndRemoved : List ClusterEvent :=
  recordedElsewhere ++
    [.write 0 (.update 10 (pauseRequest true)), .invalidate 0, .ingest 1 (heartbeatOf 20),
      .execute 1 0] ++
    rotatedHere ++ .elapse 300000 :: lookedUp 1 20 ++
    [.write 0 (.remove 10), .invalidate 0, .invalidate 0, .invalidate 0] ++ lookedUp 1 21

/-- When what the second instance keeps of the old key has expired, both revoked keys are
unknown to it. -/
theorem replies_honest_rotatedAndRemoved :
    Throughout (Cluster.step sampleServer) Cluster.RepliesHonest twoServers rotatedAndRemoved ∧
      (run (Cluster.step sampleServer) twoServers rotatedAndRemoved).replies.map
          (fun reply => (reply.pingKey, reply.revoked, reply.result)) =
        [(20, false, .written .recorded), (20, false, .written .paused), (20, true, .unknown),
          (21, true, .unknown)] :=
  ⟨(replies_honest_iff sampleServer twoServers rotatedAndRemoved twoServers_starts
    (by decide)).mpr (by decide), by decide⟩

/-- After a rotation the second instance still keeps the old key, and nobody tells it. -/
def rotatedElsewhere : List ClusterEvent :=
  recordedElsewhere ++ rotatedHere ++ [.ingest 1 (heartbeatOf 20), .execute 1 0]

/-- A heartbeat under a rotated key is told that its check is paused. -/
theorem not_repliesHonest_rotatedElsewhere :
    ¬ ∀ (srv : Server) (s : Cluster) (events : List ClusterEvent), s.Starts →
      Along (Cluster.step srv) Cluster.NewKeys s events →
      Throughout (Cluster.step srv) Cluster.RepliesHonest s events := by
  intro h
  have hlast := (h sampleServer twoServers rotatedElsewhere twoServers_starts
    (by decide)).last
  have hunknown : ∀ reply ∈
      (run (Cluster.step sampleServer) twoServers rotatedElsewhere).replies,
      reply.revoked = true → reply.result = .unknown ∨ reply.result = .rateLimited :=
    fun reply hreply hrevoked => ((hlast reply hreply).2 hrevoked).2
  revert hunknown
  decide

end SilenceWatch
