import SilenceWatch.Checks.Upsert
import SilenceWatch.Monitoring.Writers

/-!
# The identity of a check

The id, the project, the slug, the key and the source of a check are written once, when
the row is inserted. The environment is the one part of a declared identity that a
later write may change, and only an update does.
-/

namespace SilenceWatch

open Relational Transition

/-- Two states of one row: what no write of an existing check assigns is the same. -/
structure Check.SameRow (c c' : Check) : Prop where
  id : c'.id = c.id
  projectId : c'.projectId = c.projectId
  slug : c'.slug = c.slug
  key : c'.key = c.key
  source : c'.source = c.source

theorem Check.SameRow.refl (c : Check) : c.SameRow c := ⟨rfl, rfl, rfl, rfl, rfl⟩

theorem Check.SameRow.trans {c c' c'' : Check} (h : c.SameRow c') (h' : c'.SameRow c'') :
    c.SameRow c'' :=
  ⟨h'.id.trans h.id, h'.projectId.trans h.projectId, h'.slug.trans h.slug, h'.key.trans h.key,
    h'.source.trans h.source⟩

/-- What exactly a write makes of a row that was there. -/
inductive Rewritten (srv : Server) (db : Database) (now : ℤ) : Write → Check → Check → Prop
  | kept {w : Write} {c : Check} : ¬ w.Records c → Rewritten srv db now w c c
  | synced {projectId : Uuid} {request : SyncRequest} {generated : String → Uuid × Uuid}
      {accepted : List SyncRow} {c : Check} :
      Rewritten srv db now (.sync projectId request generated) c
        (c.synced now projectId request accepted)
  | updated {checkId : Uuid} {input : UpdateCheckRequest} {data : CheckUpdateInput} {c : Check} :
      c.id = checkId → updateData srv.cron now input c = .ok data →
      Rewritten srv db now (.update checkId input) c (data.apply c)
  | rekeyed {checkId pingKey : Uuid} {c : Check} :
      Rewritten srv db now (.rotatePingKey checkId pingKey) c { c with pingKey }
  | heartbeat {metadata : Schedule} {command : IngestCommand} {c : Check} :
      c.pingKey = command.pingKey → c.state ≠ .paused →
      Rewritten srv db now (.ingest metadata command) c
        ((ingestParams srv.cron metadata now command).write c c)
  | quotaPaused {userId : Uuid} {count : ℕ} {c : Check} :
      Rewritten srv db now (.pauseExcess userId count) c c.quotaPause
  | quotaResumed {userId : Uuid} {room : ℤ} {c : Check} :
      Rewritten srv db now (.resume userId room) c c.quotaResume
  | advanced {limit : ℕ} {locked : Uuid → Bool} {c : Check} :
      Rewritten srv db now (.advance limit locked) c { c with state := c.nextState now }

/-- What exactly a write inserts. -/
inductive Inserted (srv : Server) (db : Database) (now : ℤ) : Write → Check → Prop
  | created {projectId id pingKey : Uuid} {input : CreateCheckRequest} {slug : String} {due : ℤ} :
      Inserted srv db now (.create projectId input slug id pingKey)
        (input.toCheck projectId slug id pingKey due now)
  | declared {projectId : Uuid} {request : SyncRequest} {generated : String → Uuid × Uuid}
      {rows : List SyncRow} {row : SyncRow} :
      syncRows srv.cron srv.syncSlug now request.environment [] request.checks = .ok rows →
      row ∈ rows → ¬ DeclaredIn projectId request.environment row.key db.checks.rows →
      Inserted srv db now (.sync projectId request generated)
        (row.inserted projectId request.environment generated now)

/-- A sync keeps the identity of a row it rewrites. -/
theorem Check.synced_sameRow {now : ℤ} {projectId : Uuid} {request : SyncRequest}
    {accepted : List SyncRow} (c : Check) :
    c.SameRow (c.synced now projectId request accepted) ∧
      (c.synced now projectId request accepted).environment = c.environment := by
  unfold Check.synced Check.flagged Check.upserted
  split <;> split <;> exact ⟨⟨rfl, rfl, rfl, rfl, rfl⟩, rfl⟩

/-- A rewritten row keeps its id. -/
theorem Rewritten.id_eq {srv : Server} {db : Database} {now : ℤ} {w : Write} {c c' : Check}
    (h : Rewritten srv db now w c c') : c'.id = c.id := by
  cases h with
  | synced => exact c.synced_sameRow.1.id
  | _ => rfl

/-- **Every row after a write**: one that was there, rewritten, or an inserted one, under an
id that was not in use. -/
theorem perform_rows (srv : Server) (db : Database) (e : Event) {c' : Check}
    (hc' : c' ∈ (perform srv db e).checks.rows) :
    (∃ c ∈ db.checks.rows, Rewritten srv db e.now e.write c c') ∨
      (Inserted srv db e.now e.write c' ∧ ∀ c ∈ db.checks.rows, c.id ≠ c'.id) := by
  obtain ⟨now, write⟩ := e
  have hkept (h : c' ∈ db.checks.rows) (hrecords : ¬ write.Records c' := by exact fun h => h) :
      (∃ c ∈ db.checks.rows, Rewritten srv db now write c c') ∨
        (Inserted srv db now write c' ∧ ∀ c ∈ db.checks.rows, c.id ≠ c'.id) :=
    Or.inl ⟨c', h, Rewritten.kept hrecords⟩
  cases write with
  | create projectId input slug id pingKey =>
    simp only [perform] at hc'
    cases h : createWithinQuota srv.quotas srv.cron now projectId input slug id pingKey db with
    | error e => exact hkept (by simpa only [h, orUnchanged] using hc')
    | ok db' =>
      obtain ⟨due, _, hrows, _⟩ := createWithinQuota_cases h
      simp only [h, orUnchanged] at hc'
      have hdistinct := db'.checks.distinct
      rw [hrows] at hdistinct hc'
      rcases List.mem_append.mp hc' with hmem | hmem
      · exact hkept hmem
      · have hall := (List.pairwise_append.mp hdistinct).2.2
        refine Or.inr ⟨?_, fun c hc => (hall c hc c' hmem).1⟩
        rw [List.mem_singleton.mp hmem]
        exact Inserted.created
  | sync projectId request generated =>
    simp only [perform] at hc'
    cases h : syncWithinQuota srv.quotas srv.cron srv.syncSlug now projectId request generated
        db with
    | error e => exact hkept (by simpa only [h, orUnchanged, Except.map] using hc')
    | ok result =>
      obtain ⟨rows, accepted, hsynced⟩ := syncWithinQuota_synced h
      simp only [h, orUnchanged, Except.map] at hc'
      have hdistinct := result.1.checks.distinct
      rw [hsynced.table] at hdistinct hc'
      rcases List.mem_append.mp hc' with hmem | hmem
      · obtain ⟨c, hc, rfl⟩ := List.mem_map.mp hmem
        exact Or.inl ⟨c, hc, Rewritten.synced⟩
      · have hall := (List.pairwise_append.mp hdistinct).2.2
        refine Or.inr ⟨?_, fun c hc hid => ?_⟩
        · obtain ⟨row, hrow, rfl⟩ := List.mem_map.mp hmem
          obtain ⟨haccepted, hnew⟩ := List.mem_filter.mp hrow
          rw [hsynced.kept] at haccepted
          exact Inserted.declared hsynced.parsed (List.mem_filter.mp haccepted).1
            (by simpa using hnew)
        · exact (hall _ (List.mem_map_of_mem hc) c' hmem).1 (c.synced_sameRow.1.id.trans hid)
  | update checkId input =>
    simp only [perform] at hc'
    cases h : updateCheck srv.cron now checkId input db with
    | error e => exact hkept (by simpa only [h, orUnchanged] using hc')
    | ok db' =>
      obtain ⟨existing, data, hfind, hdata, hrows, _⟩ := updateCheck_cases h
      simp only [h, orUnchanged, hrows, mem_map_updateRow] at hc'
      obtain ⟨c, hc, ⟨hid, rfl⟩ | ⟨_, rfl⟩⟩ := hc'
      · rw [← Database.findCheck_eq_some hfind hc hid] at hdata
        exact Or.inl ⟨c, hc, Rewritten.updated hid hdata⟩
      · exact hkept hc
  | rotatePingKey checkId pingKey =>
    simp only [perform] at hc'
    cases h : replacePingKey checkId pingKey db with
    | error e => exact hkept (by simpa only [h, orUnchanged] using hc')
    | ok db' =>
      simp only [h, orUnchanged, (replacePingKey_cases h).1, mem_map_updateRow] at hc'
      obtain ⟨c, hc, ⟨_, rfl⟩ | ⟨_, rfl⟩⟩ := hc'
      · exact Or.inl ⟨c, hc, Rewritten.rekeyed⟩
      · exact hkept hc
  | remove checkId =>
    simp only [perform, removeCheck] at hc'
    split at hc'
    · exact hkept hc'
    · exact hkept (Table.mem_delete.mp hc').1
  | ingest metadata command =>
    simp only [perform, ingest, ingestSql] at hc'
    split at hc'
    · next hnone =>
      refine hkept hc' fun hrecords => ?_
      exact List.find?_eq_none.mp hnone c' hc' (decide_eq_true hrecords)
    · simp only [Table.update_rows, mem_map_updateRow] at hc'
      obtain ⟨c, hc, ⟨hfinds, rfl⟩ | ⟨hfinds, rfl⟩⟩ := hc'
      · exact Or.inl ⟨c, hc, Rewritten.heartbeat hfinds.1 hfinds.2⟩
      · exact hkept hc hfinds
  | setPlan userId plan => exact hkept hc'
  | pauseExcess userId count =>
    obtain ⟨c, hc, ⟨_, rfl⟩ | ⟨_, rfl⟩⟩ := mem_map_updateRow.mp hc'
    · exact Or.inl ⟨c, hc, Rewritten.quotaPaused⟩
    · exact hkept hc
  | resume userId room =>
    simp only [perform, resume] at hc'
    split at hc'
    · exact hkept hc'
    · obtain ⟨c, hc, ⟨_, rfl⟩ | ⟨_, rfl⟩⟩ := mem_map_updateRow.mp hc'
      · exact Or.inl ⟨c, hc, Rewritten.quotaResumed⟩
      · exact hkept hc
  | advance limit locked =>
    obtain ⟨c, hc, ⟨_, rfl⟩ | ⟨_, rfl⟩⟩ := mem_map_updateRow.mp hc'
    · exact Or.inl ⟨c, hc, Rewritten.advanced⟩
    · exact hkept hc

/-- Where a row of the table after an event comes from. -/
inductive Origin (srv : Server) (db : Database) (now : ℤ) : Write → Check → Prop
  | kept {w : Write} {c c' : Check} : c ∈ db.checks.rows → c.SameRow c' →
      c'.environment = c.environment → Origin srv db now w c'
  | moved {checkId : Uuid} {input : UpdateCheckRequest} {environment : Option String}
      {c c' : Check} : c ∈ db.checks.rows → c.id = checkId → c.SameRow c' →
      input.environment = some environment → c'.environment = environment →
      Origin srv db now (.update checkId input) c'
  | created {projectId id pingKey : Uuid} {input : CreateCheckRequest} {slug : String} {due : ℤ} :
      Origin srv db now (.create projectId input slug id pingKey)
        (input.toCheck projectId slug id pingKey due now)
  | declared {projectId : Uuid} {request : SyncRequest} {generated : String → Uuid × Uuid}
      {rows : List SyncRow} {row : SyncRow} :
      syncRows srv.cron srv.syncSlug now request.environment [] request.checks = .ok rows →
      row ∈ rows → ¬ DeclaredIn projectId request.environment row.key db.checks.rows →
      Origin srv db now (.sync projectId request generated)
        (row.inserted projectId request.environment generated now)

/-- An update writes the environment that its request names. -/
theorem updateData_environment {cron : CronParser} {now : ℤ} {input : UpdateCheckRequest}
    {existing : Check} {data : CheckUpdateInput}
    (h : updateData cron now input existing = .ok data) :
    data.environment = input.environment := by
  unfold updateData nextDueOrThrow at h
  cases hedit : input.scheduleType.isSome with
  | false =>
    simp only [hedit, Bool.false_eq_true, if_false, pure_bind] at h
    split at h
    · cases h
      rfl
    · cases h
      rfl
    · split at h
      · cases hdue : computeNextDueAt cron existing.toSchedule now with
        | error e => simp [hdue, Except.mapError, Bind.bind, Except.bind] at h
        | ok due =>
          simp [hdue, Except.mapError, Bind.bind, Except.bind, Pure.pure, Except.pure] at h
          rw [← h]
      · cases h
        rfl
  | true =>
    cases hdue : computeNextDueAt cron (toSchedule input.toScheduleFields) now with
    | error e => simp [hedit, hdue, Except.mapError, Bind.bind, Except.bind] at h
    | ok due =>
      simp only [hedit, hdue, if_true, Except.mapError, Bind.bind, Except.bind, Pure.pure,
        Except.pure, Option.getD_some] at h
      split at h
      · cases h
        rfl
      · cases h
        rfl
      · split at h
        · cases h
          rfl
        · cases h
          rfl

/-- **Where rows come from.** -/
theorem perform_origin (srv : Server) (db : Database) (e : Event) {c' : Check}
    (hc' : c' ∈ (perform srv db e).checks.rows) : Origin srv db e.now e.write c' := by
  obtain ⟨now, write⟩ := e
  rcases perform_rows srv db ⟨now, write⟩ hc' with ⟨c, hc, hrewritten⟩ | ⟨hinserted, _⟩
  · cases hrewritten with
    | kept _ => exact Origin.kept hc (Check.SameRow.refl c') rfl
    | synced => exact Origin.kept hc c.synced_sameRow.1 c.synced_sameRow.2
    | @updated _ input data _ hid hdata =>
      have henvironment := updateData_environment hdata
      cases hinput : input.environment with
      | none =>
        refine Origin.kept hc ⟨rfl, rfl, rfl, rfl, rfl⟩ ?_
        simp only [CheckUpdateInput.apply, henvironment, hinput, Option.getD_none]
      | some environment =>
        refine Origin.moved hc hid ⟨rfl, rfl, rfl, rfl, rfl⟩ hinput ?_
        simp only [CheckUpdateInput.apply, henvironment, hinput, Option.getD_some]
    | _ => exact Origin.kept hc ⟨rfl, rfl, rfl, rfl, rfl⟩ rfl
  · cases hinserted with
    | created => exact Origin.created
    | declared hrows hrow hnew => exact Origin.declared hrows hrow hnew

/-- The ping keys that a write generates. -/
def Write.newPingKeys : Write → List Uuid
  | .create _ _ _ _ pingKey => [pingKey]
  | .sync _ request generated => request.keys.map fun key => (generated key).2
  | .rotatePingKey _ pingKey => [pingKey]
  | _ => []

/-- A sync keeps the ping key of a row it rewrites. -/
theorem Check.synced_pingKey {now : ℤ} {projectId : Uuid} {request : SyncRequest}
    {accepted : List SyncRow} (c : Check) :
    (c.synced now projectId request accepted).pingKey = c.pingKey := by
  unfold Check.synced Check.flagged Check.upserted
  split <;> split <;> rfl

/-- **Where ping keys come from.** The ping key of a check after a write is its own, or the
write generated it. -/
theorem perform_pingKey (srv : Server) (db : Database) (e : Event) {c' : Check}
    (hc' : c' ∈ (perform srv db e).checks.rows) :
    (∃ c ∈ db.checks.rows, c.id = c'.id ∧ c.pingKey = c'.pingKey) ∨
      c'.pingKey ∈ e.write.newPingKeys := by
  obtain ⟨now, write⟩ := e
  rcases perform_rows srv db ⟨now, write⟩ hc' with ⟨c, hc, hrewritten⟩ | ⟨hinserted, _⟩
  · cases hrewritten with
    | synced => exact Or.inl ⟨c, hc, c.synced_sameRow.1.id.symm, c.synced_pingKey.symm⟩
    | rekeyed => exact Or.inr List.mem_cons_self
    | kept _ => exact Or.inl ⟨c', hc, rfl, rfl⟩
    | _ => exact Or.inl ⟨_, hc, rfl, rfl⟩
  · cases hinserted with
    | created => exact Or.inr List.mem_cons_self
    | @declared _ request _ _ row hrows hrow _ =>
      have hkey : row.key ∈ request.keys := by
        rw [SyncRequest.keys, ← syncRows_keys hrows]
        exact List.mem_map_of_mem hrow
      exact Or.inr (List.mem_map.mpr ⟨row.key, hkey, rfl⟩)

/-- What the schemas promise of a request: an environment that is named is not empty. -/
def Write.Valid : Write → Prop
  | .create _ input _ _ _ => input.environment ≠ some ""
  | .sync _ request _ => request.environment ≠ some ""
  | .update _ input => input.environment ≠ some (some "")
  | _ => True

/-- What holds of every stored check: a key comes from a declaration, and an
environment is not empty. -/
structure Check.Stored (c : Check) : Prop where
  keyed : c.key ≠ none → c.source = .auto
  environment : c.environment ≠ some ""

/-- Every check of the table is one the requests can have stored. -/
def Database.ChecksStored (db : Database) : Prop := ∀ c ∈ db.checks.rows, c.Stored

/-- A valid write stores valid checks. -/
theorem perform_stored {srv : Server} {db : Database} {e : Event} (hstored : db.ChecksStored)
    (hvalid : e.write.Valid) : (perform srv db e).ChecksStored := by
  intro c' hc'
  obtain ⟨now, write⟩ := e
  cases perform_origin srv db ⟨now, write⟩ hc' with
  | kept hc hsame henvironment =>
    refine ⟨fun hkey => ?_, ?_⟩
    · rw [hsame.source]
      exact (hstored _ hc).keyed (hsame.key ▸ hkey)
    · rw [henvironment]
      exact (hstored _ hc).environment
  | moved hc hid hsame hinput henvironment =>
    refine ⟨fun hkey => ?_, ?_⟩
    · rw [hsame.source]
      exact (hstored _ hc).keyed (hsame.key ▸ hkey)
    · rw [henvironment]
      rintro rfl
      exact hvalid hinput
  | created => exact ⟨fun hkey => absurd rfl hkey, hvalid⟩
  | declared _ _ _ => exact ⟨fun _ => rfl, hvalid⟩

/-- **Checks stay as the requests can store them, in every run of valid writes.** -/
theorem run_stored {srv : Server} {db : Database} {es : List Event} (hstored : db.ChecksStored)
    (hvalid : ∀ e ∈ es, e.write.Valid) :
    Throughout (perform srv) Database.ChecksStored db es :=
  throughout_of_step (P := fun _ e => e.write.Valid) (fun _ _ => perform_stored) hstored
    (along_of_forall hvalid)

end SilenceWatch
