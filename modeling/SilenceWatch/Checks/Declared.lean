import SilenceWatch.Monitoring.Identity

/-!
# A sync does what it declares

The keys of the payload are either upserted or skipped, what exists is updated, what is
absent is flagged where the request asks for it, and nothing else is touched.
-/

namespace SilenceWatch

open Relational Transition

variable {quotas : QuotaConfig} {cron : CronParser} {syncSlug : SyncSlug} {now : ℤ}
  {projectId : Uuid} {request : SyncRequest} {generated : String → Uuid × Uuid}
  {db db' : Database} {result : SyncResult} {rows accepted : List SyncRow}

/-- Some check of the project has this key in this environment. -/
def Database.HasKey (db : Database) (projectId : Uuid) (environment : Option String)
    (key : String) : Prop :=
  ∃ c ∈ db.checks.rows, c.projectId = projectId ∧ c.environment = environment ∧ c.key = some key
  deriving Decidable

/-- The search for existing keys finds those of the payload that some check has. -/
theorem mem_findExistingKeys {environment : Option String} {keys : List String} {key : String} :
    key ∈ findExistingKeys db projectId keys environment ↔
      key ∈ keys ∧ db.HasKey projectId environment key := by
  unfold findExistingKeys Database.HasKey
  simp only [List.mem_filterMap, List.mem_filter, decide_eq_true_eq, Option.filter_eq_some_iff]
  constructor
  · rintro ⟨c, ⟨hc, hproject, henvironment⟩, hkey, hmem⟩
    exact ⟨hmem, c, hc, hproject, henvironment, hkey⟩
  · rintro ⟨hmem, c, hc, hproject, henvironment, hkey⟩
    exact ⟨c, ⟨hc, hproject, henvironment⟩, hkey, hmem⟩

/-- The keys that a quota holds back, written without the statement that finds them:
the new keys past the room that is left. -/
def SyncRequest.beyondQuota (quotas : QuotaConfig) (db : Database) (projectId : Uuid)
    (request : SyncRequest) : List String :=
  match quotas.remainingChecks db projectId with
  | none => []
  | some room =>
    (request.keys.filter fun key => ¬ db.HasKey projectId request.environment key).drop room

/-- The quota holds back exactly those keys. -/
theorem applyCheckQuota_eq (hkeys : rows.map SyncRow.key = request.keys) :
    applyCheckQuota quotas db projectId rows request.environment =
      request.beyondQuota quotas db projectId := by
  unfold applyCheckQuota SyncRequest.beyondQuota
  cases quotas.remainingChecks db projectId with
  | none => rfl
  | some room =>
    have hnew : (rows.filter fun row =>
        row.key ∉ findExistingKeys db projectId (rows.map SyncRow.key) request.environment).map
          SyncRow.key =
        request.keys.filter fun key => ¬ db.HasKey projectId request.environment key := by
      rw [← hkeys, List.filter_map]
      congr 1
      refine List.filter_congr fun row hrow => ?_
      have hmem : row.key ∈ rows.map SyncRow.key := List.mem_map_of_mem hrow
      simp [mem_findExistingKeys, hmem]
    simp only [← hnew, ← List.map_drop]
    split
    · next hroom => rw [List.drop_eq_nil_of_le hroom, List.map_nil]
    · rfl

/-- What the job of a payload makes of the check it declares. -/
structure SyncCheck.Updates (cron : CronParser) (now : ℤ) (job : SyncCheck) (c c' : Check) :
    Prop where
  sameRow : c.SameRow c'
  environment : c'.environment = c.environment
  pingKey : c'.pingKey = c.pingKey
  state : c'.state = c.state
  name : c'.name = job.name
  schedule : c'.toSchedule = job.schedule
  graceSeconds : c'.graceSeconds = job.graceSeconds.getD defaultGraceSeconds
  tags : c'.tags = job.tags.getD []
  orphanedAt : c'.orphanedAt = none
  deadline : (c.toSchedule = job.schedule ∧ c'.nextDueAt = c.nextDueAt) ∨
    (c.toSchedule ≠ job.schedule ∧
      ∃ due, computeNextDueAt cron job.schedule now = .ok due ∧ c'.nextDueAt = some due)

/-- The check that the job of a payload declares anew. -/
structure SyncCheck.Creates (cron : CronParser) (now : ℤ) (projectId : Uuid)
    (environment : Option String) (job : SyncCheck) (c' : Check) : Prop where
  projectId : c'.projectId = projectId
  environment : c'.environment = environment
  key : c'.key = some job.key
  source : c'.source = .auto
  state : c'.state = .new
  pausedReason : c'.pausedReason = none
  name : c'.name = job.name
  schedule : c'.toSchedule = job.schedule
  graceSeconds : c'.graceSeconds = job.graceSeconds.getD defaultGraceSeconds
  tags : c'.tags = job.tags.getD []
  orphanedAt : c'.orphanedAt = none
  lastPingAt : c'.lastPingAt = none
  createdAt : c'.createdAt = now
  deadline : ∃ due, computeNextDueAt cron job.schedule now = .ok due ∧ c'.nextDueAt = some due

/-- What a sync declares of the database it leaves. -/
structure Declares (quotas : QuotaConfig) (cron : CronParser) (now : ℤ) (projectId : Uuid)
    (request : SyncRequest) (db db' : Database) (result : SyncResult) : Prop where
  /-- Every key of the payload is upserted or skipped, and none of them twice. -/
  partition : (result.checks.map UpsertedCheck.key ++ result.skipped).Perm request.keys ∧
    request.keys.Nodup
  /-- A key that exists in the environment is updated from its job. -/
  updated : ∀ c ∈ db.checks.rows, ∀ job ∈ request.checks, c.projectId = projectId →
    c.environment = request.environment → c.key = some job.key →
      ⟨c.id, job.key, c.pingKey, false⟩ ∈ result.checks ∧
        ∃ c' ∈ db'.checks.rows, job.Updates cron now c c'
  /-- A key that does not exist in the environment and is not skipped is created from its job. -/
  created : ∀ job ∈ request.checks, ¬ db.HasKey projectId request.environment job.key →
    job.key ∉ result.skipped → ∃ c' ∈ db'.checks.rows,
      job.Creates cron now projectId request.environment c' ∧
        ⟨c'.id, job.key, c'.pingKey, true⟩ ∈ result.checks
  /-- Skipped are the new keys beyond the quota, in the order of the payload. -/
  skipped : result.skipped = request.beyondQuota quotas db projectId
  /-- Nothing is deleted, and flagged is what the payload no longer names. -/
  orphaned : ∀ c ∈ db.checks.rows, ∃ c' ∈ db'.checks.rows, c.SameRow c' ∧
    (c.orphanedAt = none ∧ c'.orphanedAt ≠ none ↔
      request.prune = true ∧ c.orphanedAt = none ∧ c.source = .auto ∧ c.projectId = projectId ∧
        c.environment = request.environment ∧ ∃ key ∈ c.key, key ∉ request.keys)
  /-- What is added is created from a job whose key was not there. -/
  added : ∀ c' ∈ db'.checks.rows, (∃ c ∈ db.checks.rows, c.SameRow c') ∨
    ∃ job ∈ request.checks, job.Creates cron now projectId request.environment c' ∧
      job.key ∉ result.skipped ∧ ¬ db.HasKey projectId request.environment job.key
  /-- Other projects, other environments and checks that were not declared stay as they are. -/
  unchanged : ∀ c ∈ db.checks.rows, c.projectId ≠ projectId ∨
    c.environment ≠ request.environment ∨ c.source ≠ .auto → c ∈ db'.checks.rows
  /-- No other table is written. -/
  frame : db' = { db with checks := db'.checks }

/-- The part of a list that another one without repetition picks from it. -/
theorem filter_notMem_append_perm {α : Type} [DecidableEq α] {l picked : List α}
    (hl : l.Nodup) (hpicked : picked.Nodup) (hsub : picked ⊆ l) :
    (l.filter (fun a => a ∉ picked) ++ picked).Perm l := by
  have hrest : (l.filter fun a => ¬ a ∉ picked).Perm picked := by
    rw [List.perm_ext_iff_of_nodup (hl.filter _) hpicked]
    intro a
    simp only [List.mem_filter, not_not, decide_eq_true_eq]
    exact ⟨And.right, fun h => ⟨hsub h, h⟩⟩
  have hsplit := List.filter_append_perm (fun a => decide (a ∉ picked)) l
  refine (hrest.symm.append_left _).trans ?_
  convert hsplit using 3
  funext a
  simp

/-- A job and the row of the payload it became. -/
theorem syncRows_job {environment : Option String} {incoming : List SyncCheck}
    (h : syncRows cron syncSlug now environment [] incoming = .ok rows) {job : SyncCheck}
    (hjob : job ∈ incoming) :
    ∃ row ∈ rows, job.toRow cron syncSlug now environment = .ok row := by
  obtain ⟨hall, -, -⟩ := syncRows_cases h
  clear h
  induction hall with
  | nil => cases hjob
  | cons hrow _ ih =>
    rcases List.mem_cons.mp hjob with rfl | hjob
    · exact ⟨_, List.mem_cons_self, hrow⟩
    · obtain ⟨row, hmem, htoRow⟩ := ih hjob
      exact ⟨row, List.mem_cons_of_mem _ hmem, htoRow⟩

/-- A row of the payload and the job it came from. -/
theorem job_of_syncRows {environment : Option String} {incoming : List SyncCheck}
    (h : syncRows cron syncSlug now environment [] incoming = .ok rows) {row : SyncRow}
    (hrow : row ∈ rows) :
    ∃ job ∈ incoming, job.toRow cron syncSlug now environment = .ok row := by
  obtain ⟨hall, -, -⟩ := syncRows_cases h
  clear h
  induction hall with
  | nil => cases hrow
  | cons hfirst _ ih =>
    rcases List.mem_cons.mp hrow with rfl | hrow
    · exact ⟨_, List.mem_cons_self, hfirst⟩
    · obtain ⟨job, hmem, htoRow⟩ := ih hrow
      exact ⟨job, List.mem_cons_of_mem _ hmem, htoRow⟩

/-- The insertion branch of the upsert creates a check from its job. -/
theorem SyncCheck.creates_inserted {job : SyncCheck} {row : SyncRow} {environment : Option String}
    (h : job.toRow cron syncSlug now environment = .ok row) :
    job.Creates cron now projectId environment
      (row.inserted projectId environment generated now) := by
  unfold SyncCheck.toRow at h
  cases hdue : computeNextDueAt cron job.schedule now with
  | error e => simp [hdue] at h
  | ok due =>
    simp only [hdue, Except.ok.injEq] at h
    subst h
    exact ⟨rfl, rfl, rfl, rfl, rfl, rfl, rfl, rfl, rfl, rfl, rfl, rfl, rfl, due, hdue, rfl⟩

/-- The conflict branch of the upsert updates a check from its job. -/
theorem SyncCheck.updates_onConflict {job : SyncCheck} {row : SyncRow}
    {environment : Option String}
    (h : job.toRow cron syncSlug now environment = .ok row) (c : Check) :
    job.Updates cron now c (row.onConflict c) := by
  unfold SyncCheck.toRow at h
  cases hdue : computeNextDueAt cron job.schedule now with
  | error e => simp [hdue] at h
  | ok due =>
    simp only [hdue, Except.ok.injEq] at h
    subst h
    refine ⟨⟨rfl, rfl, rfl, rfl, rfl⟩, rfl, rfl, rfl, rfl, rfl, rfl, rfl, rfl, ?_⟩
    by_cases hsame : c.toSchedule = job.schedule
    · exact Or.inl ⟨hsame, if_neg (not_not.mpr hsame)⟩
    · exact Or.inr ⟨hsame, due, hdue, if_pos hsame⟩

/-- Where no environment is the empty text, the identity of a check tells them apart. -/
theorem environment_eq {environment environment' : Option String}
    (h : environment ≠ some "") (h' : environment' ≠ some "")
    (heq : environment.getD "" = environment'.getD "") : environment = environment' := by
  cases environment with
  | none =>
    cases environment' with
    | none => rfl
    | some name => exact absurd (congrArg some heq.symm) h'
  | some name =>
    cases environment' with
    | none => exact absurd (congrArg some heq) h
    | some name' => exact congrArg some heq

/-- No check has the identity of a key that does not exist in the environment. -/
theorem not_declaredIn_of_new (hstored : db.ChecksStored) (hvalid : request.environment ≠ some "")
    {key : String} (hnew : ¬ db.HasKey projectId request.environment key) :
    ¬ DeclaredIn projectId request.environment key db.checks.rows := by
  rintro ⟨c, hc, hproject, hkey, henvironment⟩
  exact hnew ⟨c, hc, hproject, environment_eq (hstored c hc).environment hvalid henvironment, hkey⟩

/-- A sync leaves a check alone that is not declared in its project and environment. -/
theorem Check.synced_of_elsewhere {c : Check} (hc : c.Stored)
    (hvalid : request.environment ≠ some "")
    (h : c.projectId ≠ projectId ∨ c.environment ≠ request.environment ∨ c.source ≠ .auto) :
    c.synced now projectId request accepted = c := by
  have hupserted : c.upserted projectId request.environment accepted = c := by
    refine Check.upserted_of_not_declared fun row _ hdeclared => ?_
    obtain ⟨hproject, hkey, henvironment⟩ := hdeclared
    rcases h with h | h | h
    · exact h hproject
    · exact h (environment_eq hc.environment hvalid henvironment)
    · exact h (hc.keyed (by simp [hkey]))
  rw [Check.synced, hupserted]
  refine if_neg fun hflagged => ?_
  obtain ⟨_, hproject, hsource, _, henvironment, _⟩ := hflagged
  rcases h with h | h | h
  · exact h hproject
  · exact h henvironment
  · exact h hsource

namespace Synced

variable (hs : Synced quotas cron syncSlug now projectId request generated db db' result
  rows accepted)

include hs

theorem keys_eq : rows.map SyncRow.key = request.keys := syncRows_keys hs.parsed

theorem skipped_eq : result.skipped = request.beyondQuota quotas db projectId :=
  hs.skipped.trans (applyCheckQuota_eq hs.keys_eq)

/-- A sync skips new keys only. -/
theorem of_mem_skipped {key : String} (h : key ∈ result.skipped) :
    key ∈ request.keys ∧ ¬ db.HasKey projectId request.environment key := by
  rw [hs.skipped_eq, SyncRequest.beyondQuota] at h
  split at h
  · cases h
  · have hmem := List.mem_filter.mp (List.mem_of_mem_drop h)
    exact ⟨hmem.1, by simpa using hmem.2⟩

theorem keys_nodup : request.keys.Nodup := by
  rw [← hs.keys_eq]
  exact (syncRows_cases hs.parsed).2.1

theorem accepted_nodup : (accepted.map SyncRow.key).Nodup := by
  rw [hs.kept]
  exact (syncRows_cases hs.parsed).2.1.sublist (List.filter_sublist.map _)

theorem mem_accepted {row : SyncRow} :
    row ∈ accepted ↔ row ∈ rows ∧ row.key ∉ result.skipped := by
  rw [hs.kept, List.mem_filter, decide_eq_true_eq]

theorem skipped_nodup : result.skipped.Nodup := by
  rw [hs.skipped_eq, SyncRequest.beyondQuota]
  split
  · exact List.nodup_nil
  · exact ((hs.keys_nodup.filter _).sublist (List.drop_sublist _ _))

/-- The upserted and the skipped keys make up the payload. -/
theorem partition :
    (result.checks.map UpsertedCheck.key ++ result.skipped).Perm request.keys := by
  have hreturned : result.checks.map UpsertedCheck.key =
      request.keys.filter fun key => key ∉ result.skipped := by
    have hkey : ∀ row : SyncRow, (row.upsertedCheck projectId request.environment generated
        db.checks.rows).key = row.key := by
      intro row
      unfold SyncRow.upsertedCheck
      split <;> rfl
    rw [hs.returned, List.map_map, ← hs.keys_eq, List.filter_map, hs.kept]
    exact List.map_congr_left fun row _ => hkey row
  rw [hreturned]
  exact filter_notMem_append_perm hs.keys_nodup hs.skipped_nodup fun key hkey =>
    (hs.of_mem_skipped hkey).1

/-- A check that the payload does not name is not rewritten. -/
theorem upserted_of_unnamed {c : Check} (h : ∀ key ∈ c.key, key ∉ request.keys) :
    c.upserted projectId request.environment accepted = c := by
  refine Check.upserted_of_not_declared fun row hrow hdeclared => ?_
  refine h row.key hdeclared.2.1 ?_
  rw [← hs.keys_eq]
  exact List.mem_map_of_mem (hs.mem_accepted.mp hrow).1

/-- A row of the table after the sync. -/
theorem mem_rows {c' : Check} :
    c' ∈ db'.checks.rows ↔
      (∃ c ∈ db.checks.rows, c.synced now projectId request accepted = c') ∨
        ∃ row ∈ accepted, ¬ DeclaredIn projectId request.environment row.key db.checks.rows ∧
          row.inserted projectId request.environment generated now = c' := by
  rw [hs.table, List.mem_append, List.mem_map, List.mem_map]
  simp only [List.mem_filter, decide_eq_true_eq, and_assoc]

/-- The check that an existing key names is rewritten from its job. -/
theorem updated {c : Check} (hc : c ∈ db.checks.rows) {job : SyncCheck}
    (hjob : job ∈ request.checks) (hproject : c.projectId = projectId)
    (henvironment : c.environment = request.environment) (hkey : c.key = some job.key) :
    ⟨c.id, job.key, c.pingKey, false⟩ ∈ result.checks ∧
      job.Updates cron now c (c.synced now projectId request accepted) := by
  obtain ⟨row, hrow, htoRow⟩ := syncRows_job hs.parsed hjob
  have hrowKey : row.key = job.key := SyncCheck.toRow_key htoRow
  have haccepted : row ∈ accepted := by
    refine hs.mem_accepted.mpr ⟨hrow, fun hskipped => ?_⟩
    refine (hs.of_mem_skipped hskipped).2 ⟨c, hc, hproject, henvironment, ?_⟩
    rw [hrowKey, hkey]
  have hdeclared : c.DeclaredAs projectId request.environment row.key :=
    ⟨hproject, by rw [hrowKey, hkey], by rw [henvironment]⟩
  constructor
  · rw [hs.returned]
    refine List.mem_map.mpr ⟨row, haccepted, ?_⟩
    have hfound : db.checks.rows.find?
        (Check.DeclaredAs projectId request.environment row.key) = some c :=
      find?_declaredAs hc hdeclared
    unfold SyncRow.upsertedCheck
    rw [hfound, ← hrowKey]
  · have hupserted := Check.upserted_of_declared hs.accepted_nodup haccepted hdeclared
    have hnamed : job.key ∈ request.keys := List.mem_map_of_mem hjob
    have hkept : (row.onConflict c).key = some job.key := hkey
    rw [Check.synced, hupserted, Check.flagged_of_named hkept hnamed]
    exact SyncCheck.updates_onConflict htoRow c

/-- The check that a new key names is inserted from its job. -/
theorem created {job : SyncCheck} (hjob : job ∈ request.checks)
    (hnew : ¬ DeclaredIn projectId request.environment job.key db.checks.rows)
    (hunskipped : job.key ∉ result.skipped) :
    ∃ c' ∈ db'.checks.rows, job.Creates cron now projectId request.environment c' ∧
      ⟨c'.id, job.key, c'.pingKey, true⟩ ∈ result.checks := by
  obtain ⟨row, hrow, htoRow⟩ := syncRows_job hs.parsed hjob
  have hrowKey : row.key = job.key := SyncCheck.toRow_key htoRow
  rw [← hrowKey] at hnew hunskipped ⊢
  have haccepted : row ∈ accepted := hs.mem_accepted.mpr ⟨hrow, hunskipped⟩
  refine ⟨_, hs.mem_rows.mpr (Or.inr ⟨row, haccepted, hnew, rfl⟩),
    SyncCheck.creates_inserted htoRow, ?_⟩
  rw [hs.returned]
  refine List.mem_map.mpr ⟨row, haccepted, ?_⟩
  have hnone : db.checks.rows.find?
      (Check.DeclaredAs projectId request.environment row.key) = none :=
    List.find?_eq_none.mpr fun c hc hdeclared => hnew ⟨c, hc, of_decide_eq_true hdeclared⟩
  unfold SyncRow.upsertedCheck
  rw [hnone]
  rfl

/-- Flagged are the declared checks that the payload does not name. -/
theorem orphaned_iff (c : Check) :
    (c.orphanedAt = none ∧ (c.synced now projectId request accepted).orphanedAt ≠ none) ↔
      request.prune = true ∧ c.orphanedAt = none ∧ c.source = .auto ∧ c.projectId = projectId ∧
        c.environment = request.environment ∧ ∃ key ∈ c.key, key ∉ request.keys := by
  by_cases hnamed : ∃ key ∈ c.key, key ∈ request.keys
  · obtain ⟨key, hkey, hmem⟩ := hnamed
    have hother : ¬ ∃ key ∈ c.key, key ∉ request.keys := by
      rintro ⟨key', hkey', hunnamed⟩
      obtain rfl : key = key' := Option.some.inj (hkey.symm.trans hkey')
      exact hunnamed hmem
    have hkept : (c.upserted projectId request.environment accepted).key = some key := by
      unfold Check.upserted
      split <;> exact hkey
    rw [Check.synced, Check.flagged_of_named hkept hmem]
    constructor
    · rintro ⟨hnone, hflagged⟩
      refine absurd ?_ hflagged
      unfold Check.upserted
      split
      · rfl
      · exact hnone
    · rintro ⟨_, _, _, _, _, hunnamed⟩
      exact absurd hunnamed hother
  · have hunnamed : ∀ key ∈ c.key, key ∉ request.keys := fun key hkey hmem =>
      hnamed ⟨key, hkey, hmem⟩
    rw [Check.synced, hs.upserted_of_unnamed hunnamed]
    unfold Check.flagged
    split
    · next h =>
      obtain ⟨hprune, hproject, hsource, hnone, henvironment, hkey⟩ := h
      exact ⟨fun _ => ⟨hprune, hnone, hsource, hproject, henvironment, hkey⟩,
        fun _ => ⟨hnone, by simp⟩⟩
    · next h =>
      constructor
      · rintro ⟨hnone, hflagged⟩
        exact absurd hnone hflagged
      · rintro ⟨hprune, hnone, hsource, hproject, henvironment, hkey⟩
        exact absurd ⟨hprune, hproject, hsource, hnone, henvironment, hkey⟩ h

end Synced

/-- **A sync that succeeds does exactly what it declares.** -/
theorem syncWithinQuota_declares (hstored : db.ChecksStored)
    (hvalid : request.environment ≠ some "")
    (h : syncWithinQuota quotas cron syncSlug now projectId request generated db =
      .ok (db', result)) :
    Declares quotas cron now projectId request db db' result := by
  obtain ⟨rows, accepted, hs⟩ := syncWithinQuota_synced h
  constructor
  case partition => exact ⟨hs.partition, hs.keys_nodup⟩
  case updated =>
    intro c hc job hjob hproject henvironment hkey
    obtain ⟨hreturned, hupdates⟩ := hs.updated hc hjob hproject henvironment hkey
    exact ⟨hreturned, _, hs.mem_rows.mpr (Or.inl ⟨c, hc, rfl⟩), hupdates⟩
  case created =>
    exact fun job hjob hnew hunskipped =>
      hs.created hjob (not_declaredIn_of_new hstored hvalid hnew) hunskipped
  case skipped => exact hs.skipped_eq
  case orphaned =>
    exact fun c hc => ⟨_, hs.mem_rows.mpr (Or.inl ⟨c, hc, rfl⟩), c.synced_sameRow.1,
      hs.orphaned_iff c⟩
  case added =>
    intro c' hc'
    rcases hs.mem_rows.mp hc' with ⟨c, hc, rfl⟩ | ⟨row, hrow, hnew, rfl⟩
    · exact Or.inl ⟨c, hc, c.synced_sameRow.1⟩
    · obtain ⟨hmem, hunskipped⟩ := hs.mem_accepted.mp hrow
      obtain ⟨job, hjob, htoRow⟩ := job_of_syncRows hs.parsed hmem
      rw [SyncCheck.toRow_key htoRow] at hnew hunskipped
      refine Or.inr ⟨job, hjob, SyncCheck.creates_inserted htoRow, hunskipped, ?_⟩
      rintro ⟨c, hc, hproject, henvironment, hkey⟩
      exact hnew ⟨c, hc, hproject, hkey, by rw [henvironment]⟩
  case unchanged =>
    intro c hc helsewhere
    refine hs.mem_rows.mpr (Or.inl ⟨c, hc, ?_⟩)
    exact Check.synced_of_elsewhere (hstored c hc) hvalid helsewhere
  case frame => exact hs.frame

/-- A payload of hourly jobs for production that flags what it does not name. -/
def declareRequest (keys : List String) : SyncRequest where
  environment := some "production"
  prune := true
  checks := keys.map fun key => ⟨key, key, none, some 3600, none, none, none⟩

/-- An account over its limit of one check, with two declared jobs. -/
def declaredDatabase : Database :=
  run (perform sampleServer) sampleDatabase
    [⟨0, .sync 1 (declareRequest ["import", "report"]) fun key =>
        if key = "import" then (5, 5) else (6, 6)⟩,
      ⟨0, .setPlan 1 (some "free")⟩]

/-- A limit of three checks. -/
def threeChecks : QuotaConfig := ⟨true, [("free", ⟨some 3, none, none, none⟩)]⟩

/-- One key exists, one is created in the room that is left, and one is beyond it. -/
theorem syncWithinQuota_declares_report :
    ∃ db' result, syncWithinQuota threeChecks sampleServer.cron sampleServer.syncSlug 1000 1
        (declareRequest ["report", "backup", "cleanup"]) (fun _ => (9, 9)) declaredDatabase =
          .ok (db', result) ∧
      result = ⟨[⟨6, "report", 6, false⟩, ⟨9, "backup", 9, true⟩], ["import"], ["cleanup"]⟩ ∧
      Declares threeChecks sampleServer.cron 1000 1
        (declareRequest ["report", "backup", "cleanup"]) declaredDatabase db' result := by
  obtain ⟨⟨db', result⟩, hsync⟩ : ∃ r, syncWithinQuota threeChecks sampleServer.cron
      sampleServer.syncSlug 1000 1 (declareRequest ["report", "backup", "cleanup"])
        (fun _ => (9, 9)) declaredDatabase = .ok r := ⟨_, rfl⟩
  have hresult : result =
      ⟨[⟨6, "report", 6, false⟩, ⟨9, "backup", 9, true⟩], ["import"], ["cleanup"]⟩ := by
    cases hsync
    rfl
  have hstored : declaredDatabase.ChecksStored := by
    intro c hc
    rcases List.mem_cons.mp hc with rfl | hc
    · exact ⟨fun _ => rfl, by decide⟩
    · rw [List.mem_singleton.mp hc]
      exact ⟨fun _ => rfl, by decide⟩
  exact ⟨db', result, hsync, hresult, syncWithinQuota_declares hstored (by decide) hsync⟩

end SilenceWatch
