import SilenceWatch.Checks.Sync
import SilenceWatch.Detection.Statements
import SilenceWatch.Ingest.Service
import SilenceWatch.Library.Run
import SilenceWatch.Quotas.Enforcer

/-!
# Everything that writes a check

The writers of the `check` table as the events of one machine, each applied as
one transaction. `perform_cases` says once what a write can do to a row; the
invariants of the following files are read off its cases.
-/

namespace SilenceWatch

open Relational Transition

/-- The configuration and the third-party functions a server runs with. -/
structure Server where
  quotas : QuotaConfig
  cron : CronParser
  syncSlug : SyncSlug

/-- The writes of the `check` table, with what each is given. The two writes of
the quota loop carry the numbers some plan gives rise to. -/
inductive Write where
  | create (projectId : Uuid) (input : CreateCheckRequest) (slug : String) (id pingKey : Uuid)
  | sync (projectId : Uuid) (request : SyncRequest) (generated : String → Uuid × Uuid)
  | update (checkId : Uuid) (input : UpdateCheckRequest)
  | rotatePingKey (checkId pingKey : Uuid)
  | remove (checkId : Uuid)
  | ingest (metadata : Schedule) (command : IngestCommand)
  | setPlan (userId : Uuid) (plan : Option String)
  | pauseExcess (userId : Uuid) (count : ℕ)
  | resume (userId : Uuid) (room : ℤ)
  | advance (limit : ℕ) (locked : Uuid → Bool)

/-- A write at an instant of the clock. -/
structure Event where
  now : ℤ
  write : Write

/-- The database after a request; a refused one changes nothing. -/
def orUnchanged (db : Database) (result : Except ServiceError Database) : Database :=
  match result with
  | .ok db' => db'
  | .error _ => db

/-- Changing a plan touches no indexed column. -/
theorem setPlan_keepsDistinct (plan : Option String) :
    KeepsDistinct User.Distinct fun u => { u with plan } :=
  fun _ _ h => ⟨h, h⟩

/-- The database after one event. -/
def perform (srv : Server) (db : Database) (e : Event) : Database :=
  match e.write with
  | .create projectId input slug id pingKey =>
    orUnchanged db (createWithinQuota srv.quotas srv.cron e.now projectId input slug id pingKey db)
  | .sync projectId request generated =>
    orUnchanged db ((syncWithinQuota srv.quotas srv.cron srv.syncSlug e.now projectId request
      generated db).map Prod.fst)
  | .update checkId input => orUnchanged db (updateCheck srv.cron e.now checkId input db)
  | .rotatePingKey checkId pingKey => orUnchanged db (replacePingKey checkId pingKey db)
  | .remove checkId => orUnchanged db (removeCheck checkId db)
  | .ingest metadata command => (ingest srv.cron metadata e.now command db).1
  | .setPlan userId plan =>
    { db with
      users := db.users.update (fun u => u.id = userId) (fun u => { u with plan })
        (setPlan_keepsDistinct plan) }
  | .pauseExcess userId count => (pauseExcess userId count db).1
  | .resume userId room => (resume userId room db).1
  | .advance limit locked => (advanceSql e.now limit locked db).1

/-- What a sync may do to an existing row: rewrite what is declared, and its
deadline with its schedule. -/
structure Resynced (cron : CronParser) (now : ℤ) (c c' : Check) : Prop where
  id : c'.id = c.id
  projectId : c'.projectId = c.projectId
  state : c'.state = c.state
  pausedReason : c'.pausedReason = c.pausedReason
  createdAt : c'.createdAt = c.createdAt
  deadline : (c'.toSchedule = c.toSchedule ∧ c'.nextDueAt = c.nextDueAt) ∨
    ∃ due, computeNextDueAt cron c'.toSchedule now = .ok due ∧ c'.nextDueAt = some due

/-- How a row is created: watched from the start, with a deadline of its own. -/
structure Created (cron : CronParser) (now : ℤ) (c : Check) : Prop where
  state : c.state = .new
  pausedReason : c.pausedReason = none
  deadline : ∃ due, computeNextDueAt cron c.toSchedule now = .ok due ∧ c.nextDueAt = some due

/-- The write is a heartbeat of this check that is recorded. -/
def Write.Records : Write → Check → Prop
  | .ingest _ command, c => c.pingKey = command.pingKey ∧ c.state ≠ .paused
  | _, _ => False

/-- What a write may do to a row that exists. -/
inductive Effect (srv : Server) (db : Database) (now : ℤ) : Write → Check → Check → Prop
  | kept {w : Write} {c : Check} : ¬ w.Records c → Effect srv db now w c c
  | updated {checkId : Uuid} {input : UpdateCheckRequest} {data : CheckUpdateInput} {c : Check} :
      c.id = checkId → updateData srv.cron now input c = .ok data →
      Effect srv db now (.update checkId input) c (data.apply c)
  | resynced {projectId : Uuid} {request : SyncRequest} {generated : String → Uuid × Uuid}
      {c c' : Check} : Resynced srv.cron now c c' →
      Effect srv db now (.sync projectId request generated) c c'
  | rekeyed {checkId pingKey : Uuid} {c : Check} :
      Effect srv db now (.rotatePingKey checkId pingKey) c { c with pingKey }
  | heartbeat {metadata : Schedule} {command : IngestCommand} {c : Check} :
      c.pingKey = command.pingKey → c.state ≠ .paused →
      Effect srv db now (.ingest metadata command) c
        ((ingestParams srv.cron metadata now command).write c c)
  | quotaPaused {userId : Uuid} {count : ℕ} {c : Check} : c ∈ db.doomed userId count →
      Effect srv db now (.pauseExcess userId count) c c.quotaPause
  | quotaResumed {userId : Uuid} {room : ℤ} {c : Check} : 0 < room → c ∈ db.revived userId room →
      Effect srv db now (.resume userId room) c c.quotaResume
  | advanced {limit : ℕ} {locked : Uuid → Bool} {c : Check} : c.Due now →
      Effect srv db now (.advance limit locked) c { c with state := c.nextState now }

section Sync

variable {cron : CronParser} {now : ℤ}

/-- A sync that leaves a row alone. -/
theorem Resynced.refl (c : Check) : Resynced cron now c c :=
  ⟨rfl, rfl, rfl, rfl, rfl, Or.inl ⟨rfl, rfl⟩⟩

/-- Two rewrites of one sync make one. -/
theorem Resynced.trans {c c' c'' : Check} (h : Resynced cron now c c')
    (h' : Resynced cron now c' c'') : Resynced cron now c c'' where
  id := h'.id.trans h.id
  projectId := h'.projectId.trans h.projectId
  state := h'.state.trans h.state
  pausedReason := h'.pausedReason.trans h.pausedReason
  createdAt := h'.createdAt.trans h.createdAt
  deadline := by
    rcases h'.deadline with ⟨hschedule, hdue⟩ | hnew
    · rcases h.deadline with ⟨hschedule', hdue'⟩ | hnew
      · exact Or.inl ⟨hschedule.trans hschedule', hdue.trans hdue'⟩
      · right
        rw [hschedule, hdue]
        exact hnew
    · exact Or.inr hnew

/-- A created row stays one under the rest of its sync. -/
theorem Created.resynced {c c' : Check} (h : Created cron now c) (h' : Resynced cron now c c') :
    Created cron now c' where
  state := h'.state.trans h.state
  pausedReason := h'.pausedReason.trans h.pausedReason
  deadline := by
    rcases h'.deadline with ⟨hschedule, hdue⟩ | hnew
    · rw [hschedule, hdue]
      exact h.deadline
    · exact hnew

/-- Every row of an accepted payload carries the deadline of its schedule. -/
theorem syncRows_deadline {syncSlug : SyncSlug} {environment : Option String}
    {seen : List String} {incoming : List SyncCheck} {rows : List SyncRow}
    (h : syncRows cron syncSlug now environment seen incoming = .ok rows) :
    ∀ row ∈ rows, computeNextDueAt cron row.schedule now = .ok row.nextDueAt := by
  induction incoming generalizing seen rows with
  | nil =>
    cases h
    simp
  | cons first rest ih =>
    unfold syncRows at h
    split at h
    · cases h
    · cases hrow : first.toRow cron syncSlug now environment with
      | error e => simp [hrow, Bind.bind, Except.bind] at h
      | ok row =>
        cases hrest : syncRows cron syncSlug now environment (first.key :: seen) rest with
        | error e => simp [hrow, hrest, Bind.bind, Except.bind] at h
        | ok others =>
          simp only [hrow, hrest, Bind.bind, Except.bind, Except.ok.injEq] at h
          subst h
          intro r hr
          rcases List.mem_cons.mp hr with rfl | hr
          · unfold SyncCheck.toRow at hrow
            split at hrow
            · cases hrow
            · next due hdue =>
              cases hrow
              exact hdue
          · exact ih hrest r hr

/-- The conflict branch of the upsert, on a row with the deadline of its schedule. -/
theorem SyncRow.onConflict_resynced {row : SyncRow}
    (hrow : computeNextDueAt cron row.schedule now = .ok row.nextDueAt) (c : Check) :
    Resynced cron now c (row.onConflict c) where
  id := rfl
  projectId := rfl
  state := rfl
  pausedReason := rfl
  createdAt := rfl
  deadline := by
    by_cases h : c.toSchedule = row.schedule
    · left
      simp [SyncRow.onConflict, h]
    · right
      exact ⟨row.nextDueAt, hrow, by simp [SyncRow.onConflict, h]⟩

/-- The insert branch of the upsert, on a row with the deadline of its schedule. -/
theorem SyncRow.toCheck_created {row : SyncRow} {projectId id pingKey : Uuid}
    {environment : Option String}
    (hrow : computeNextDueAt cron row.schedule now = .ok row.nextDueAt) :
    Created cron now (row.toCheck projectId environment id pingKey now) :=
  ⟨rfl, rfl, row.nextDueAt, hrow, rfl⟩

/-- The rows `rows'` come from the rows `rows` by rewrites of a sync and by
creations under new ids. -/
def SyncedFrom (cron : CronParser) (now : ℤ) (rows rows' : List Check) : Prop :=
  (∀ c ∈ rows, ∃ c' ∈ rows', c'.id = c.id) ∧
    ∀ c' ∈ rows', (∃ c ∈ rows, Resynced cron now c c') ∨
      (Created cron now c' ∧ ∀ c ∈ rows, c.id ≠ c'.id)

/-- Nothing synced. -/
theorem SyncedFrom.refl (rows : List Check) : SyncedFrom cron now rows rows :=
  ⟨fun c hc => ⟨c, hc, rfl⟩, fun c hc => Or.inl ⟨c, hc, Resynced.refl c⟩⟩

/-- The statements of one sync compose. -/
theorem SyncedFrom.trans {rows rows' rows'' : List Check} (h : SyncedFrom cron now rows rows')
    (h' : SyncedFrom cron now rows' rows'') : SyncedFrom cron now rows rows'' := by
  refine ⟨fun c hc => ?_, fun c'' hc'' => ?_⟩
  · obtain ⟨c', hc', hid⟩ := h.1 c hc
    obtain ⟨c'', hc'', hid'⟩ := h'.1 c' hc'
    exact ⟨c'', hc'', hid'.trans hid⟩
  · rcases h'.2 c'' hc'' with ⟨c', hc', hsync⟩ | ⟨hcreated, hnew⟩
    · rcases h.2 c' hc' with ⟨c, hc, hsync'⟩ | ⟨hcreated, hnew⟩
      · exact Or.inl ⟨c, hc, hsync'.trans hsync⟩
      · right
        refine ⟨hcreated.resynced hsync, fun c hc => ?_⟩
        rw [hsync.id]
        exact hnew c hc
    · right
      refine ⟨hcreated, fun c hc => ?_⟩
      obtain ⟨c', hc', hid⟩ := h.1 c hc
      rw [← hid]
      exact hnew c' hc'

/-- A statement that rewrites rows in place, each as a sync may. -/
theorem SyncedFrom.of_update {rows : List Check} {p : Check → Prop} [DecidablePred p]
    {f : Check → Check} (hf : ∀ c, Resynced cron now c (f c)) :
    SyncedFrom cron now rows (rows.map (updateRow p f)) := by
  have hupdate : ∀ c, Resynced cron now c (updateRow p f c) := by
    intro c
    unfold updateRow
    split
    · exact hf c
    · exact Resynced.refl c
  refine ⟨fun c hc => ⟨_, List.mem_map_of_mem hc, (hupdate c).id⟩, fun c' hc' => ?_⟩
  obtain ⟨c, hc, rfl⟩ := List.mem_map.mp hc'
  exact Or.inl ⟨c, hc, hupdate c⟩

/-- What one row of the upsert can do. -/
theorem upsertRow_cases {projectId : Uuid} {environment : Option String}
    {generated : String → Uuid × Uuid} {checks checks' : Table Check Check.Distinct}
    {row : SyncRow} {upserted : UpsertedCheck}
    (hrow : computeNextDueAt cron row.schedule now = .ok row.nextDueAt)
    (h : upsertRow projectId environment generated now checks row = some (checks', upserted)) :
    SyncedFrom cron now checks.rows checks'.rows := by
  unfold upsertRow at h
  split at h
  · cases h
    exact SyncedFrom.of_update (row.onConflict_resynced hrow)
  · obtain ⟨table, htable, heq⟩ := Option.map_eq_some_iff.mp h
    cases heq
    have hdistinct := checks'.distinct
    rw [Table.insert?_eq_some htable] at hdistinct ⊢
    refine ⟨fun c hc => ⟨c, List.mem_append_left _ hc, rfl⟩, fun c' hc' => ?_⟩
    rcases List.mem_append.mp hc' with hc' | hc'
    · exact Or.inl ⟨c', hc', Resynced.refl c'⟩
    · right
      have hall := (List.pairwise_append.mp hdistinct).2.2
      refine ⟨?_, fun c hc => (hall c hc c' hc').1⟩
      rw [List.mem_singleton.mp hc']
      exact SyncRow.toCheck_created hrow

/-- What the whole upsert can do. -/
theorem upsertRows_cases {projectId : Uuid} {environment : Option String}
    {generated : String → Uuid × Uuid} {checks checks' : Table Check Check.Distinct}
    {rows : List SyncRow} {upserted : List UpsertedCheck}
    (hrows : ∀ row ∈ rows, computeNextDueAt cron row.schedule now = .ok row.nextDueAt)
    (h : upsertRows projectId environment generated now checks rows = some (checks', upserted)) :
    SyncedFrom cron now checks.rows checks'.rows := by
  induction rows generalizing checks upserted with
  | nil =>
    cases h
    exact SyncedFrom.refl _
  | cons row rest ih =>
    unfold upsertRows at h
    split at h
    · cases h
    · next middle first hfirst =>
      obtain ⟨⟨table, others⟩, hrest, heq⟩ := Option.map_eq_some_iff.mp h
      cases heq
      exact (upsertRow_cases (hrows row (by simp)) hfirst).trans
        (ih (fun r hr => hrows r (List.mem_cons_of_mem _ hr)) hrest)

/-- Flagging rows as orphaned leaves their schedules and deadlines alone. -/
theorem orphanSql_cases {projectId : Uuid} {environment : Option String} {keys : List String}
    {checks : Table Check Check.Distinct} :
    SyncedFrom cron now checks.rows (orphanSql now projectId environment keys checks).1.rows :=
  SyncedFrom.of_update fun _ => ⟨rfl, rfl, rfl, rfl, rfl, Or.inl ⟨rfl, rfl⟩⟩

/-- What a sync that succeeds can do to the checks; it writes no other table. -/
theorem syncWithinQuota_cases {quotas : QuotaConfig} {syncSlug : SyncSlug} {projectId : Uuid}
    {request : SyncRequest} {generated : String → Uuid × Uuid} {db db' : Database}
    {result : SyncResult}
    (h : syncWithinQuota quotas cron syncSlug now projectId request generated db =
      .ok (db', result)) :
    SyncedFrom cron now db.checks.rows db'.checks.rows ∧
      db' = { db with checks := db'.checks } := by
  unfold syncWithinQuota at h
  cases hrows : syncRows cron syncSlug now request.environment [] request.checks with
  | error e => simp [hrows, Bind.bind, Except.bind] at h
  | ok rows =>
    simp only [hrows, Bind.bind, Except.bind] at h
    split at h
    · cases h
    · next checks upserted hupsert =>
      have hupserted := upsertRows_cases
        (fun row hrow => syncRows_deadline hrows row (List.mem_filter.mp hrow).1) hupsert
      cases h
      refine ⟨?_, rfl⟩
      cases request.prune with
      | false => exact hupserted
      | true => exact hupserted.trans orphanSql_cases

end Sync

section Cases

variable {srv : Server} {db : Database} {now : ℤ}

/-- The row found under an id is the only one with it. -/
theorem Database.findCheck_eq_some {checkId : Uuid} {existing : Check}
    (h : db.findCheck checkId = some existing) {c : Check} (hc : c ∈ db.checks.rows)
    (hid : c.id = checkId) : c = existing := by
  have hmem : existing ∈ db.checks.rows := List.mem_of_find?_eq_some h
  have hexisting : existing.id = checkId := by simpa using List.find?_some h
  exact db.eq_of_check_id hc hmem (hid.trans hexisting.symm)

/-- What a creation that succeeds does. -/
theorem createWithinQuota_cases {projectId id pingKey : Uuid} {input : CreateCheckRequest}
    {slug : String} {db' : Database}
    (h : createWithinQuota srv.quotas srv.cron now projectId input slug id pingKey db = .ok db') :
    ∃ due, computeNextDueAt srv.cron (toSchedule input.toScheduleFields) now = .ok due ∧
      db'.checks.rows = db.checks.rows ++ [input.toCheck projectId slug id pingKey due now] ∧
      db' = { db with checks := db'.checks } := by
  unfold createWithinQuota nextDueOrThrow at h
  cases hquota : srv.quotas.assertCanAddCheck db projectId with
  | error e => simp [hquota, Except.mapError, Bind.bind, Except.bind] at h
  | ok _ =>
    cases hdue : computeNextDueAt srv.cron (toSchedule input.toScheduleFields) now with
    | error e => simp [hquota, hdue, Except.mapError, Bind.bind, Except.bind] at h
    | ok due =>
      simp only [hquota, hdue, Except.mapError, Bind.bind, Except.bind] at h
      split at h
      · next checks hinsert =>
        cases h
        exact ⟨due, rfl, Table.insert?_eq_some hinsert, rfl⟩
      · cases h

/-- What an update that succeeds does. -/
theorem updateCheck_cases {cron : CronParser} {checkId : Uuid} {input : UpdateCheckRequest}
    {db' : Database} (h : updateCheck cron now checkId input db = .ok db') :
    ∃ existing data, db.findCheck checkId = some existing ∧
      updateData cron now input existing = .ok data ∧
      db'.checks.rows = db.checks.rows.map (updateRow (fun c => c.id = checkId) data.apply) ∧
      db' = { db with checks := db'.checks } := by
  unfold updateCheck at h
  split at h
  · cases h
  · next existing hfind =>
    cases hdata : updateData cron now input existing with
    | error e => simp [hdata, Bind.bind, Except.bind] at h
    | ok data =>
      simp only [hdata, Bind.bind, Except.bind] at h
      split at h
      · next checks hupdate =>
        cases h
        exact ⟨existing, data, hfind, hdata, Table.update?_eq_some hupdate, rfl⟩
      · cases h

/-- What a key rotation that succeeds does. -/
theorem replacePingKey_cases {checkId pingKey : Uuid} {db' : Database}
    (h : replacePingKey checkId pingKey db = .ok db') :
    db'.checks.rows =
        db.checks.rows.map (updateRow (fun c => c.id = checkId) fun c => { c with pingKey }) ∧
      db' = { db with checks := db'.checks } := by
  unfold replacePingKey at h
  split at h
  · cases h
  · split at h
    · next checks hupdate =>
      cases h
      exact ⟨Table.update?_eq_some hupdate, rfl⟩
    · cases h

/-- **Every write, once.** A row after an event is a row before it under one of the
effects of the event, or a row created under an id that was not in use. -/
theorem perform_cases (srv : Server) (db : Database) (e : Event) {c' : Check}
    (hc' : c' ∈ (perform srv db e).checks.rows) :
    (∃ c ∈ db.checks.rows, Effect srv db e.now e.write c c') ∨
      (Created srv.cron e.now c' ∧ ∀ c ∈ db.checks.rows, c.id ≠ c'.id) := by
  obtain ⟨now, write⟩ := e
  have hkept (h : c' ∈ db.checks.rows) (hrecords : ¬ write.Records c' := by exact fun h => h) :
      (∃ c ∈ db.checks.rows, Effect srv db now write c c') ∨
        (Created srv.cron now c' ∧ ∀ c ∈ db.checks.rows, c.id ≠ c'.id) :=
    Or.inl ⟨c', h, Effect.kept hrecords⟩
  cases write with
  | create projectId input slug id pingKey =>
    simp only [perform] at hc'
    cases h : createWithinQuota srv.quotas srv.cron now projectId input slug id pingKey db with
    | error e => exact hkept (by simpa only [h, orUnchanged] using hc')
    | ok db' =>
      obtain ⟨due, hdue, hrows, -⟩ := createWithinQuota_cases h
      simp only [h, orUnchanged] at hc'
      have hdistinct := db'.checks.distinct
      rw [hrows] at hdistinct hc'
      rcases List.mem_append.mp hc' with hmem | hmem
      · exact hkept hmem
      · have hall := (List.pairwise_append.mp hdistinct).2.2
        refine Or.inr ⟨?_, fun c hc => (hall c hc c' hmem).1⟩
        rw [List.mem_singleton.mp hmem]
        exact ⟨rfl, rfl, due, hdue, rfl⟩
  | sync projectId request generated =>
    simp only [perform] at hc'
    cases h : syncWithinQuota srv.quotas srv.cron srv.syncSlug now projectId request generated
        db with
    | error e => exact hkept (by simpa only [h, orUnchanged, Except.map] using hc')
    | ok result =>
      simp only [h, orUnchanged, Except.map] at hc'
      rcases (syncWithinQuota_cases h).1.2 c' hc' with ⟨c, hc, hsync⟩ | hcreated
      · exact Or.inl ⟨c, hc, Effect.resynced hsync⟩
      · exact Or.inr hcreated
  | update checkId input =>
    simp only [perform] at hc'
    cases h : updateCheck srv.cron now checkId input db with
    | error e => exact hkept (by simpa only [h, orUnchanged] using hc')
    | ok db' =>
      obtain ⟨existing, data, hfind, hdata, hrows, -⟩ := updateCheck_cases h
      simp only [h, orUnchanged, hrows, mem_map_updateRow] at hc'
      obtain ⟨c, hc, ⟨hid, rfl⟩ | ⟨_, rfl⟩⟩ := hc'
      · rw [← Database.findCheck_eq_some hfind hc hid] at hdata
        exact Or.inl ⟨c, hc, Effect.updated hid hdata⟩
      · exact hkept hc
  | rotatePingKey checkId pingKey =>
    simp only [perform] at hc'
    cases h : replacePingKey checkId pingKey db with
    | error e => exact hkept (by simpa only [h, orUnchanged] using hc')
    | ok db' =>
      simp only [h, orUnchanged, (replacePingKey_cases h).1, mem_map_updateRow] at hc'
      obtain ⟨c, hc, ⟨_, rfl⟩ | ⟨_, rfl⟩⟩ := hc'
      · exact Or.inl ⟨c, hc, Effect.rekeyed⟩
      · exact hkept hc
  | remove checkId =>
    simp only [perform, removeCheck] at hc'
    split at hc'
    · exact hkept hc'
    · exact hkept (Table.mem_delete.mp hc').1
  | ingest metadata command =>
    simp only [perform, ingest, ingestSql] at hc'
    split at hc'
    · next hnone =>
      refine hkept hc' fun hrecords => ?_
      exact List.find?_eq_none.mp hnone c' hc' (decide_eq_true hrecords)
    · simp only [Table.update_rows, mem_map_updateRow] at hc'
      obtain ⟨c, hc, ⟨hfinds, rfl⟩ | ⟨hfinds, rfl⟩⟩ := hc'
      · exact Or.inl ⟨c, hc, Effect.heartbeat hfinds.1 hfinds.2⟩
      · exact hkept hc hfinds
  | setPlan userId plan => exact hkept hc'
  | pauseExcess userId count =>
    simp only [perform, pauseExcess, Table.update_rows, mem_map_updateRow] at hc'
    obtain ⟨c, hc, ⟨hid, rfl⟩ | ⟨_, rfl⟩⟩ := hc'
    · obtain ⟨d, hd, heq⟩ := List.mem_map.mp hid
      have hdc := db.eq_of_check_id (mem_of_mem_select _ _ hd).1 hc heq
      exact Or.inl ⟨c, hc, Effect.quotaPaused (hdc ▸ hd)⟩
    · exact hkept hc
  | resume userId room =>
    simp only [perform, resume] at hc'
    split at hc'
    · exact hkept hc'
    · next hroom =>
      simp only [Table.update_rows, mem_map_updateRow] at hc'
      obtain ⟨c, hc, ⟨hid, rfl⟩ | ⟨_, rfl⟩⟩ := hc'
      · obtain ⟨d, hd, heq⟩ := List.mem_map.mp hid
        have hdc := db.eq_of_check_id (mem_of_mem_select _ _ hd).1 hc heq
        exact Or.inl ⟨c, hc, Effect.quotaResumed (by omega) (hdc ▸ hd)⟩
      · exact hkept hc
  | advance limit locked =>
    simp only [perform, advanceSql, advanceBatch, Table.update_rows, mem_map_updateRow] at hc'
    obtain ⟨c, hc, ⟨⟨hid, _⟩, rfl⟩ | ⟨_, rfl⟩⟩ := hc'
    · obtain ⟨d, hd, heq⟩ := List.mem_map.mp hid
      have hdue := mem_of_mem_select _ _ hd
      have hdc := db.eq_of_check_id hdue.1 hc heq
      exact Or.inl ⟨c, hc, Effect.advanced (hdc ▸ hdue.2.1)⟩
    · exact hkept hc

/-- A write rewrites rows in place: only a removal takes one away. -/
theorem perform_persists (srv : Server) (db : Database) (e : Event) {c : Check}
    (hc : c ∈ db.checks.rows) (hkeep : e.write ≠ .remove c.id) :
    ∃ c' ∈ (perform srv db e).checks.rows, c'.id = c.id := by
  obtain ⟨now, write⟩ := e
  have hupdated {p : Check → Prop} [DecidablePred p] {f : Check → Check}
      (hf : ∀ c, (f c).id = c.id) : ∃ c' ∈ db.checks.rows.map (updateRow p f), c'.id = c.id := by
    refine ⟨_, List.mem_map_of_mem hc, ?_⟩
    unfold updateRow
    split
    · exact hf c
    · rfl
  cases write with
  | create projectId input slug id pingKey =>
    simp only [perform]
    cases h : createWithinQuota srv.quotas srv.cron now projectId input slug id pingKey db with
    | error e => exact ⟨c, hc, rfl⟩
    | ok db' =>
      obtain ⟨due, _, hrows, _⟩ := createWithinQuota_cases h
      refine ⟨c, ?_, rfl⟩
      simp only [orUnchanged, hrows]
      exact List.mem_append_left _ hc
  | sync projectId request generated =>
    simp only [perform]
    cases h : syncWithinQuota srv.quotas srv.cron srv.syncSlug now projectId request generated
        db with
    | error e => exact ⟨c, hc, rfl⟩
    | ok result => exact (syncWithinQuota_cases h).1.1 c hc
  | update checkId input =>
    simp only [perform]
    cases h : updateCheck srv.cron now checkId input db with
    | error e => exact ⟨c, hc, rfl⟩
    | ok db' =>
      obtain ⟨existing, data, _, _, hrows, _⟩ := updateCheck_cases h
      simp only [orUnchanged, hrows]
      exact hupdated fun _ => rfl
  | rotatePingKey checkId pingKey =>
    simp only [perform]
    cases h : replacePingKey checkId pingKey db with
    | error e => exact ⟨c, hc, rfl⟩
    | ok db' =>
      simp only [orUnchanged, (replacePingKey_cases h).1]
      exact hupdated fun _ => rfl
  | remove checkId =>
    simp only [perform, removeCheck]
    split
    · exact ⟨c, hc, rfl⟩
    · refine ⟨c, Table.mem_delete.mpr ⟨hc, ?_⟩, rfl⟩
      intro hid
      exact hkeep (congrArg Write.remove hid.symm)
  | ingest metadata command =>
    simp only [perform, ingest, ingestSql]
    split
    · exact ⟨c, hc, rfl⟩
    · exact hupdated fun _ => rfl
  | setPlan userId plan => exact ⟨c, hc, rfl⟩
  | pauseExcess userId count => exact hupdated fun _ => rfl
  | resume userId room =>
    simp only [perform, resume]
    split
    · exact ⟨c, hc, rfl⟩
    · exact hupdated fun _ => rfl
  | advance limit locked => exact hupdated fun _ => rfl

/-- A write keeps the id of a row. -/
theorem Effect.id_eq {w : Write} {c c' : Check} (h : Effect srv db now w c c') :
    c'.id = c.id := by
  cases h with
  | resynced hsync => exact hsync.id
  | _ => rfl

/-- What a write does to a row that it does not remove. -/
theorem perform_effect (srv : Server) (db : Database) (e : Event) {c : Check}
    (hc : c ∈ db.checks.rows) (hkeep : e.write ≠ .remove c.id) :
    ∃ c' ∈ (perform srv db e).checks.rows, Effect srv db e.now e.write c c' := by
  obtain ⟨c', hc', hid⟩ := perform_persists srv db e hc hkeep
  refine ⟨c', hc', ?_⟩
  rcases perform_cases srv db e hc' with ⟨d, hd, heffect⟩ | ⟨_, hnew⟩
  · have hsame : d = c := db.eq_of_check_id hd hc (heffect.id_eq.symm.trans hid)
    rwa [← hsame]
  · exact absurd hid.symm (hnew c hc)

/-- A write of a check that is no removal touches no incident, channel or delivery; a
removal takes the incidents of its check and their deliveries with it. -/
theorem perform_frame (srv : Server) (db : Database) (e : Event) :
    (perform srv db e).channels = db.channels ∧
      (((perform srv db e).incidents = db.incidents ∧
          (perform srv db e).deliveries = db.deliveries) ∨
        ∃ checkId, e.write = .remove checkId ∧
          (perform srv db e).checks = db.checks.delete (fun c => c.id = checkId) ∧
          (perform srv db e).incidents = db.incidents.delete (fun i => i.checkId = checkId) ∧
          (perform srv db e).deliveries = db.deliveries.delete fun d =>
            ∃ i ∈ db.incidents.rows, i.id = d.incidentId ∧ i.checkId = checkId) := by
  obtain ⟨now, write⟩ := e
  have hunchanged {result : Except ServiceError Database}
      (hresult : ∀ db', result = .ok db' → db' = { db with checks := db'.checks }) :
      (orUnchanged db result).channels = db.channels ∧
        (orUnchanged db result).incidents = db.incidents ∧
        (orUnchanged db result).deliveries = db.deliveries := by
    cases result with
    | error e => exact ⟨rfl, rfl, rfl⟩
    | ok db' =>
      rw [orUnchanged, hresult db' rfl]
      exact ⟨rfl, rfl, rfl⟩
  cases write with
  | create projectId input slug id pingKey =>
    have hchecks (db' : Database) (h : createWithinQuota srv.quotas srv.cron now projectId input
        slug id pingKey db = .ok db') : db' = { db with checks := db'.checks } := by
      obtain ⟨_, _, _, hchecks⟩ := createWithinQuota_cases h
      exact hchecks
    exact ⟨(hunchanged hchecks).1, Or.inl (hunchanged hchecks).2⟩
  | sync projectId request generated =>
    have hchecks (db' : Database) (h : (syncWithinQuota srv.quotas srv.cron srv.syncSlug now
        projectId request generated db).map Prod.fst = .ok db') :
        db' = { db with checks := db'.checks } := by
      cases hsync : syncWithinQuota srv.quotas srv.cron srv.syncSlug now projectId request
          generated db with
      | error e => simp [hsync, Except.map] at h
      | ok result =>
        simp only [hsync, Except.map, Except.ok.injEq] at h
        subst h
        exact (syncWithinQuota_cases hsync).2
    exact ⟨(hunchanged hchecks).1, Or.inl (hunchanged hchecks).2⟩
  | update checkId input =>
    have hchecks (db' : Database) (h : updateCheck srv.cron now checkId input db = .ok db') :
        db' = { db with checks := db'.checks } := by
      obtain ⟨_, _, _, _, _, hchecks⟩ := updateCheck_cases h
      exact hchecks
    exact ⟨(hunchanged hchecks).1, Or.inl (hunchanged hchecks).2⟩
  | rotatePingKey checkId pingKey =>
    have hchecks (db' : Database) (h : replacePingKey checkId pingKey db = .ok db') :
        db' = { db with checks := db'.checks } := (replacePingKey_cases h).2
    exact ⟨(hunchanged hchecks).1, Or.inl (hunchanged hchecks).2⟩
  | remove checkId =>
    simp only [perform, removeCheck]
    split
    · exact ⟨rfl, Or.inl ⟨rfl, rfl⟩⟩
    · exact ⟨rfl, Or.inr ⟨checkId, rfl, rfl, rfl, rfl⟩⟩
  | ingest metadata command =>
    simp only [perform, ingest, ingestSql]
    split
    · exact ⟨rfl, Or.inl ⟨rfl, rfl⟩⟩
    · exact ⟨rfl, Or.inl ⟨rfl, rfl⟩⟩
  | setPlan userId plan => exact ⟨rfl, Or.inl ⟨rfl, rfl⟩⟩
  | pauseExcess userId count => exact ⟨rfl, Or.inl ⟨rfl, rfl⟩⟩
  | resume userId room =>
    simp only [perform, SilenceWatch.resume]
    split
    · exact ⟨rfl, Or.inl ⟨rfl, rfl⟩⟩
    · exact ⟨rfl, Or.inl ⟨rfl, rfl⟩⟩
  | advance limit locked => exact ⟨rfl, Or.inl ⟨rfl, rfl⟩⟩

/-- What a write does to the heartbeats: one that is recorded is added, and a removal
takes those of its check. -/
theorem perform_pings (srv : Server) (db : Database) (e : Event) :
    ((perform srv db e).pings = db.pings ∧ ∀ c ∈ db.checks.rows, ¬ e.write.Records c) ∨
      (∃ checkId, e.write = .remove checkId ∧
        (perform srv db e).checks = db.checks.delete (fun c => c.id = checkId) ∧
        (perform srv db e).pings = db.pings.delete fun p => p.checkId = checkId) ∨
      ∃ metadata command, e.write = .ingest metadata command ∧ ∃ prev ∈ db.checks.rows,
        prev.pingKey = command.pingKey ∧ prev.state ≠ .paused ∧
          (perform srv db e).pings = db.pings.insertOrSkip
            ((ingestParams srv.cron metadata e.now command).toPing prev) fun _ => rfl := by
  obtain ⟨now, write⟩ := e
  have hunchanged {result : Except ServiceError Database}
      (hresult : ∀ db', result = .ok db' → db' = { db with checks := db'.checks }) :
      (orUnchanged db result).pings = db.pings := by
    cases result with
    | error e => rfl
    | ok db' => rw [orUnchanged, hresult db' rfl]
  cases write with
  | create _ _ _ _ _ =>
    refine Or.inl ⟨hunchanged fun db' h => ?_, fun _ _ => id⟩
    obtain ⟨_, _, _, hchecks⟩ := createWithinQuota_cases h
    exact hchecks
  | sync projectId request generated =>
    refine Or.inl ⟨hunchanged fun db' h => ?_, fun _ _ => id⟩
    cases hsync : syncWithinQuota srv.quotas srv.cron srv.syncSlug now projectId request generated
        db with
    | error e => simp [hsync, Except.map] at h
    | ok result =>
      simp only [hsync, Except.map, Except.ok.injEq] at h
      subst h
      exact (syncWithinQuota_cases hsync).2
  | update _ _ =>
    refine Or.inl ⟨hunchanged fun db' h => ?_, fun _ _ => id⟩
    obtain ⟨_, _, _, _, _, hchecks⟩ := updateCheck_cases h
    exact hchecks
  | rotatePingKey _ _ =>
    exact Or.inl ⟨hunchanged fun db' h => (replacePingKey_cases h).2, fun _ _ => id⟩
  | remove checkId =>
    simp only [perform, removeCheck]
    split
    · exact Or.inl ⟨rfl, fun _ _ => id⟩
    · exact Or.inr (Or.inl ⟨checkId, rfl, rfl, rfl⟩)
  | ingest metadata command =>
    simp only [perform, ingest, ingestSql]
    split
    · next hnone =>
      refine Or.inl ⟨rfl, fun c hc hrecords => ?_⟩
      exact List.find?_eq_none.mp hnone c hc (decide_eq_true hrecords)
    · next prev hfind =>
      have hfinds : (ingestParams srv.cron metadata now command).Finds prev := by
        simpa using List.find?_some hfind
      exact Or.inr (Or.inr ⟨metadata, command, rfl, prev, List.mem_of_find?_eq_some hfind,
        hfinds.1, hfinds.2, rfl⟩)
  | resume userId room =>
    simp only [perform, SilenceWatch.resume]
    split <;> exact Or.inl ⟨rfl, fun _ _ => id⟩
  | _ => exact Or.inl ⟨rfl, fun _ _ => id⟩

end Cases

section Sample

/-- A server with quotas on, one plan of one check, and no cron evaluator. -/
def sampleServer : Server where
  quotas := { enabled := true, planLimits := [("free", ⟨some 1, none, none, none⟩)] }
  cron := fun _ _ _ => .error "no cron evaluator"
  syncSlug := fun name _ _ => name

/-- One account that owns one project without checks. -/
def sampleDatabase : Database where
  users := ⟨[⟨1, "owner@example.com", none⟩], List.pairwise_singleton _ _⟩
  members := ⟨[⟨1, 1, .owner⟩], List.pairwise_singleton _ _⟩
  checks := Table.empty
  pings := SerialTable.empty
  incidents := SerialTable.empty
  channels := Table.empty
  deliveries := SerialTable.empty

/-- The request for a check that reports every hour, with five minutes of grace. -/
def hourlyRequest : CreateCheckRequest where
  scheduleType := some .interval
  periodSeconds := some 3600
  cronExpression := none
  timezone := none
  name := "backup"
  graceSeconds := 300
  environment := none
  tags := none

/-- A schedule edit that makes a check report every minute. -/
def everyMinute : UpdateCheckRequest where
  scheduleType := some .interval
  periodSeconds := some 60
  cronExpression := none
  timezone := none
  name := none
  graceSeconds := none
  environment := none
  tags := none
  paused := none

/-- The request that changes nothing but the pause. -/
def pauseRequest (paused : Bool) : UpdateCheckRequest where
  scheduleType := none
  periodSeconds := none
  cronExpression := none
  timezone := none
  name := none
  graceSeconds := none
  environment := none
  tags := none
  paused := some paused

/-- A success reported under a ping key. -/
def successCommand (pingKey : Uuid) : IngestCommand :=
  ⟨pingKey, .success, none, none, none, none, none⟩

end Sample

end SilenceWatch
