import SilenceWatch.Checks.Slug

/-!
# Racing for the last check of a plan

Creations and syncs count, decide and insert in separate statements, under a lock on the
account that pays. Updates and removals take no lock. Any number of clients, with their
statements interleaved: as long as no update moves a check away from a key that a sync
under way has counted as existing, the account stays within what it had or may have.
-/

namespace SilenceWatch

open Relational Transition

/-- The requests that `serialised` guards, with what the search for a slug ends on and
what the database generates. -/
inductive GuardedWork where
  | create (projectId : Uuid) (input : CreateCheckRequest) (slug : String) (id pingKey : Uuid)
  | sync (projectId : Uuid) (request : SyncRequest) (generated : String → Uuid × Uuid)

/-- The project a guarded request is about. -/
def GuardedWork.projectId : GuardedWork → Uuid
  | .create projectId _ _ _ _ => projectId
  | .sync projectId _ _ => projectId

/-- How far a client is with its request. The `known` keys of a sync are those it found
to exist, which decide what it skips. -/
inductive Stage where
  | idle
  | locked (work : GuardedWork)
  | admitted (projectId : Uuid) (input : CreateCheckRequest) (slug : String) (id pingKey : Uuid)
  | counted (projectId : Uuid) (request : SyncRequest) (generated : String → Uuid × Uuid)
      (rows : List SyncRow) (remaining : Option ℕ)
  | partitioned (projectId : Uuid) (request : SyncRequest) (generated : String → Uuid × Uuid)
      (rows : List SyncRow) (known skipped : List String)
  | upserted (projectId : Uuid)
  | updating (checkId : Uuid) (data : CheckUpdateInput)

/-- The project whose owner is locked while a client is in this stage. -/
def Stage.project : Stage → Option Uuid
  | .idle => none
  | .locked work => some work.projectId
  | .admitted projectId _ _ _ _ => some projectId
  | .counted projectId _ _ _ _ => some projectId
  | .partitioned projectId _ _ _ _ _ => some projectId
  | .upserted projectId => some projectId
  | .updating _ _ => none

/-- The database, the advisory locks by account, and the clients. -/
structure QuotaRace where
  db : Database
  locks : Uuid → Option ℕ
  clients : ℕ → Stage

/-- What may happen next: a client begins a guarded request or an update, removes a check,
issues its next statement, or fails. -/
inductive QuotaRaceEvent where
  | begin (client : ℕ) (work : GuardedWork)
  | update (client : ℕ) (now : ℤ) (checkId : Uuid) (input : UpdateCheckRequest)
  | remove (checkId : Uuid)
  | proceed (client : ℕ) (now : ℤ)
  | abort (client : ℕ)

/-- The keys past the first `remaining` new ones, in payload order. -/
def heldBack (remaining : ℕ) (known : List String) (rows : List SyncRow) : List String :=
  let wouldCreate := rows.filter fun row => row.key ∉ known
  if wouldCreate.length ≤ remaining then [] else (wouldCreate.drop remaining).map SyncRow.key

/-- `CheckSyncRepository.upsert` of the rows that are not skipped. -/
def upsertAccepted (now : ℤ) (projectId : Uuid) (request : SyncRequest)
    (generated : String → Uuid × Uuid) (rows : List SyncRow) (skipped : List String)
    (db : Database) : Option Database :=
  (upsertRows projectId request.environment generated now db.checks
    (rows.filter fun row => row.key ∉ skipped)).map fun (checks, _) =>
      { db with
        checks :=
          if request.prune then
            (orphanSql now projectId request.environment (rows.map SyncRow.key) checks).1
          else checks }

/-- What a quota skips, once the room and the existing keys are known. -/
theorem applyCheckQuota_heldBack (quotas : QuotaConfig) (db : Database) (projectId : Uuid)
    (rows : List SyncRow) (environment : Option String) :
    applyCheckQuota quotas db projectId rows environment =
      match quotas.remainingChecks db projectId with
      | none => []
      | some remaining => heldBack remaining
          (findExistingKeys db projectId (rows.map SyncRow.key) environment) rows := rfl

/-- A sync is its parts, one after the other. -/
theorem syncWithinQuota_eq (quotas : QuotaConfig) (cron : CronParser) (slugOf : SyncSlug)
    (now : ℤ) (projectId : Uuid) (request : SyncRequest) (generated : String → Uuid × Uuid)
    (db : Database) :
    (syncWithinQuota quotas cron slugOf now projectId request generated db).map Prod.fst =
      (syncRows cron slugOf now request.environment [] request.checks).bind fun rows =>
        (upsertAccepted now projectId request generated rows
          (applyCheckQuota quotas db projectId rows request.environment) db).elim
            (.error .uniqueViolation) .ok := by
  unfold syncWithinQuota upsertAccepted
  cases syncRows cron slugOf now request.environment [] request.checks with
  | error e => rfl
  | ok rows =>
    simp only [Bind.bind, Except.bind]
    cases upsertRows projectId request.environment generated now db.checks (rows.filter fun row =>
        row.key ∉ applyCheckQuota quotas db projectId rows request.environment) with
    | none => rfl
    | some upserted =>
      cases hprune : request.prune with
      | false => rfl
      | true => rfl

namespace QuotaRace

/-- A client goes on to another stage. -/
def setClient (s : QuotaRace) (client : ℕ) (stage : Stage) : QuotaRace :=
  { s with clients := Function.update s.clients client stage }

/-- A request ends, and with its transaction the lock it held. -/
def finish (s : QuotaRace) (client : ℕ) : QuotaRace :=
  { s with
    locks := fun userId => if s.locks userId = some client then none else s.locks userId
    clients := Function.update s.clients client .idle }

@[simp] theorem setClient_self (s : QuotaRace) (client : ℕ) (stage : Stage) :
    (s.setClient client stage).clients client = stage := by
  simp only [setClient, Function.update_self]

theorem setClient_of_ne (s : QuotaRace) {client other : ℕ} (stage : Stage)
    (h : other ≠ client) : (s.setClient client stage).clients other = s.clients other := by
  simp only [setClient, Function.update_of_ne h]

@[simp] theorem finish_self (s : QuotaRace) (client : ℕ) :
    (s.finish client).clients client = .idle := by
  simp only [finish, Function.update_self]

theorem finish_of_ne (s : QuotaRace) {client other : ℕ} (h : other ≠ client) :
    (s.finish client).clients other = s.clients other := by
  simp only [finish, Function.update_of_ne h]

/-- `QuotaService.serialised`: a request waits while another one holds the lock. -/
def serialised (srv : Server) (s : QuotaRace) (client : ℕ) (work : GuardedWork) : QuotaRace :=
  if !srv.quotas.enabled then s.setClient client (.locked work)
  else
    match s.db.ownerOf work.projectId with
    | none => s.setClient client (.locked work)
    | some owner =>
      if s.locks owner.id = none then
        { s.setClient client (.locked work) with
          locks := Function.update s.locks owner.id (some client) }
      else s

/-- The next statement of a client. -/
def next (srv : Server) (s : QuotaRace) (client : ℕ) (now : ℤ) : QuotaRace :=
  match s.clients client with
  | .idle => s
  | .locked (.create projectId input slug id pingKey) =>
    match srv.quotas.assertCanAddCheck s.db projectId with
    | .error _ => s.finish client
    | .ok _ => s.setClient client (.admitted projectId input slug id pingKey)
  | .admitted projectId input slug id pingKey =>
    match nextDueOrThrow srv.cron (toSchedule input.toScheduleFields) now with
    | .error _ => s.finish client
    | .ok nextDueAt =>
      match s.db.checks.insert? (input.toCheck projectId slug id pingKey nextDueAt now) with
      | none => s.finish client
      | some checks => { s with db := { s.db with checks } }.finish client
  | .locked (.sync projectId request generated) =>
    match syncRows srv.cron srv.syncSlug now request.environment [] request.checks with
    | .error _ => s.finish client
    | .ok rows =>
      s.setClient client
        (.counted projectId request generated rows (srv.quotas.remainingChecks s.db projectId))
  | .counted projectId request generated rows none =>
    s.setClient client (.partitioned projectId request generated rows [] [])
  | .counted projectId request generated rows (some remaining) =>
    let known := findExistingKeys s.db projectId (rows.map SyncRow.key) request.environment
    s.setClient client
      (.partitioned projectId request generated rows known (heldBack remaining known rows))
  | .partitioned projectId request generated rows _ skipped =>
    -- The upsert commits in a transaction of its own, before the lock is released.
    match upsertAccepted now projectId request generated rows skipped s.db with
    | none => s.finish client
    | some db => { s with db }.setClient client (.upserted projectId)
  | .upserted _ => s.finish client
  | .updating checkId data =>
    match s.db.checks.update? (fun c => c.id = checkId) data.apply with
    | none => s.setClient client .idle
    | some checks => { s with db := { s.db with checks } }.setClient client .idle

/-- The state after an event. -/
def step (srv : Server) (s : QuotaRace) : QuotaRaceEvent → QuotaRace
  | .begin client work =>
    match s.clients client with
    | .idle => s.serialised srv client work
    | _ => s
  | .update client now checkId input =>
    match s.clients client, s.db.findCheck checkId with
    | .idle, some existing =>
      match updateData srv.cron now input existing with
      | .error _ => s
      | .ok data => s.setClient client (.updating checkId data)
    | _, _ => s
  | .remove checkId => { s with db := orUnchanged s.db (removeCheck checkId s.db) }
  | .proceed client now => s.next srv client now
  | .abort client => s.finish client

/-- An update that moves no check away from a key that a sync under way has counted as
existing in its project and environment. -/
def MovesNoKnown (s : QuotaRace) : QuotaRaceEvent → Prop
  | .proceed client _ =>
    match s.clients client with
    | .updating checkId data =>
      ∀ other projectId request generated rows known skipped,
        s.clients other = .partitioned projectId request generated rows known skipped →
          ∀ c ∈ s.db.checks.rows, c.id = checkId →
            ∀ key ∈ known, c.DeclaredAs projectId request.environment key →
              (data.environment.getD c.environment).getD "" = c.environment.getD ""
    | _ => True
  | _ => True

end QuotaRace

section Counting

variable {db db' : Database} {userId projectId : Uuid} {rows : List SyncRow}

/-- How many checks an account owns, as a count over the table. -/
theorem countOwnedChecks_eq_countP (db : Database) (userId : Uuid) :
    db.countOwnedChecks userId =
      db.checks.rows.countP fun c => decide (db.Owns userId c.projectId) := by
  rw [Database.countOwnedChecks, Database.ownedChecks, List.countP_eq_length_filter]

/-- Who owns a project is read off the members. -/
theorem owns_iff_of_members (h : db'.members = db.members) :
    db'.Owns userId projectId ↔ db.Owns userId projectId := by
  unfold Database.Owns
  rw [h]

/-- The inserts that a sync may still need: its accepted rows that it did not find, and
those it found that are gone by now. -/
def pendingInserts (projectId : Uuid) (request : SyncRequest) (rows : List SyncRow)
    (known skipped : List String) (checks : List Check) : ℕ :=
  (rows.filter fun row => row.key ∉ skipped).countP fun row =>
    row.key ∉ known ∨ ¬ DeclaredIn projectId request.environment row.key checks

/-- As long as the known keys stay declared, nothing more is to be inserted. -/
theorem pendingInserts_mono {request : SyncRequest} {known skipped : List String}
    {checks checks' : List Check}
    (h : ∀ key ∈ known, DeclaredIn projectId request.environment key checks →
      DeclaredIn projectId request.environment key checks') :
    pendingInserts projectId request rows known skipped checks' ≤
      pendingInserts projectId request rows known skipped checks := by
  refine List.countP_mono_left fun row _ hpending => ?_
  have hpending := of_decide_eq_true hpending
  refine decide_eq_true ?_
  by_cases hknown : row.key ∈ known
  · right
    intro hdeclared
    rcases hpending with hunknown | hgone
    · exact hunknown hknown
    · exact hgone (h row.key hknown hdeclared)
  · exact Or.inl hknown

/-- What a quota accepts is at most as many new keys as there is room. -/
theorem pendingInserts_heldBack {request : SyncRequest} {remaining : ℕ} :
    pendingInserts projectId request rows
        (findExistingKeys db projectId (rows.map SyncRow.key) request.environment)
        (heldBack remaining
          (findExistingKeys db projectId (rows.map SyncRow.key) request.environment) rows)
        db.checks.rows ≤ remaining := by
  set known := findExistingKeys db projectId (rows.map SyncRow.key) request.environment with hknown
  have hdeclared : ∀ key ∈ known, DeclaredIn projectId request.environment key db.checks.rows := by
    intro key hkey
    rw [hknown, mem_findExistingKeys] at hkey
    obtain ⟨_, c, hc, hproject, henvironment, hkey⟩ := hkey
    exact ⟨c, hc, hproject, hkey, by rw [henvironment]⟩
  have hnew : pendingInserts projectId request rows known (heldBack remaining known rows)
      db.checks.rows = (rows.filter fun row => row.key ∉ known).countP fun row =>
        row.key ∉ heldBack remaining known rows := by
    unfold pendingInserts
    rw [List.countP_filter, List.countP_filter]
    refine List.countP_congr fun row _ => ?_
    simp only [Bool.and_eq_true, decide_eq_true_eq]
    constructor
    · rintro ⟨hunknown | hgone, hkept⟩
      · exact ⟨hkept, hunknown⟩
      · exact ⟨hkept, fun h => hgone (hdeclared row.key h)⟩
    · rintro ⟨hkept, hunknown⟩
      exact ⟨Or.inl hunknown, hkept⟩
  rw [hnew, ← List.take_append_drop remaining (rows.filter fun row => row.key ∉ known),
    List.countP_append]
  have hfirst := List.countP_le_length (p := fun row => decide (row.key ∉ heldBack remaining known
    rows)) (l := (rows.filter fun row => row.key ∉ known).take remaining)
  have hrest : ((rows.filter fun row => row.key ∉ known).drop remaining).countP
      (fun row => decide (row.key ∉ heldBack remaining known rows)) = 0 := by
    refine List.countP_eq_zero.mpr fun row hrow hkept => ?_
    refine of_decide_eq_true hkept ?_
    unfold heldBack
    dsimp only
    split
    · next hroom =>
      rw [List.drop_eq_nil_of_le hroom] at hrow
      cases hrow
    · exact List.mem_map_of_mem hrow
  rw [List.length_take] at hfirst
  omega

/-- What a removal takes from the account it gives to the inserts that are pending at most. -/
theorem count_add_pendingInserts_delete {request : SyncRequest} {known skipped : List String}
    {checkId : Uuid} (hkeys : (rows.map SyncRow.key).Nodup) (howns : db.Owns userId projectId) :
    (db.checks.delete fun c => c.id = checkId).rows.countP
          (fun c => decide (db.Owns userId c.projectId)) +
        pendingInserts projectId request rows known skipped
          (db.checks.delete fun c => c.id = checkId).rows ≤
      db.checks.rows.countP (fun c => decide (db.Owns userId c.projectId)) +
        pendingInserts projectId request rows known skipped db.checks.rows := by
  have hsplit := List.countP_eq_countP_filter_add db.checks.rows
    (fun c => decide (db.Owns userId c.projectId)) (fun c => decide (¬ c.id = checkId))
  rw [Table.delete_rows]
  by_cases hgone : ∃ c ∈ db.checks.rows, c.id = checkId ∧ c.projectId = projectId
  · obtain ⟨gone, hmem, hid, hproject⟩ := hgone
    have hremoved : 0 < (db.checks.rows.filter fun c => !decide (¬ c.id = checkId)).countP
        fun c => decide (db.Owns userId c.projectId) := by
      refine List.countP_pos_iff.mpr ⟨gone, List.mem_filter.mpr ⟨hmem, by simpa using hid⟩, ?_⟩
      rw [hproject]
      exact decide_eq_true howns
    have hpending : pendingInserts projectId request rows known skipped
        (db.checks.rows.filter fun c => ¬ c.id = checkId) ≤
          pendingInserts projectId request rows known skipped db.checks.rows +
            (rows.filter fun row => row.key ∉ skipped).countP
              fun row => row.key ∈ gone.key.toList := by
      refine countP_le_add fun row _ hrow => ?_
      have hrow := of_decide_eq_true hrow
      by_cases hsame : row.key ∈ gone.key.toList
      · exact Or.inr (decide_eq_true hsame)
      · left
        refine decide_eq_true (hrow.imp_right fun hout hdeclared => hout ?_)
        obtain ⟨c, hc, hdeclared⟩ := hdeclared
        refine ⟨c, List.mem_filter.mpr ⟨hc, ?_⟩, hdeclared⟩
        have hother : ¬ c.id = checkId := by
          intro hc'
          have hcgone := db.eq_of_check_id hc hmem (hc'.trans hid.symm)
          rw [hcgone] at hdeclared
          exact hsame (by simp [hdeclared.2.1])
        simpa using hother
    have hone : (rows.filter fun row => row.key ∉ skipped).countP
        (fun row => row.key ∈ gone.key.toList) ≤ gone.key.toList.length :=
      countP_key_mem_le SyncRow.key (hkeys.sublist (List.filter_sublist.map _)) _
    have hlength : gone.key.toList.length ≤ 1 := by
      cases gone.key <;> simp
    omega
  · have hpending : pendingInserts projectId request rows known skipped
        (db.checks.rows.filter fun c => ¬ c.id = checkId) ≤
          pendingInserts projectId request rows known skipped db.checks.rows := by
      refine pendingInserts_mono fun key _ hdeclared => ?_
      obtain ⟨c, hc, hdeclared⟩ := hdeclared
      refine ⟨c, List.mem_filter.mpr ⟨hc, ?_⟩, hdeclared⟩
      have hother : ¬ c.id = checkId := fun hid => hgone ⟨c, hc, hid, hdeclared.1⟩
      simpa using hother
    omega

/-- Counting checks of an account is counting over their projects. -/
theorem countP_owns (checks : List Check) :
    checks.countP (fun c => decide (db.Owns userId c.projectId)) =
      (checks.map Check.projectId).countP fun id => decide (db.Owns userId id) := by
  rw [List.countP_map]
  rfl

/-- What the upsert of a sync leaves: the rows there were, in place, and one new row of the
project for each accepted row that is declared nowhere. -/
theorem upsertAccepted_cases {now : ℤ} {request : SyncRequest}
    {generated : String → Uuid × Uuid} {skipped : List String}
    (hkeys : (rows.map SyncRow.key).Nodup)
    (h : upsertAccepted now projectId request generated rows skipped db = some db') :
    db' = { db with checks := db'.checks } ∧
      (∀ id environment key, DeclaredIn id environment key db.checks.rows →
        DeclaredIn id environment key db'.checks.rows) ∧
      db'.checks.rows.map Check.projectId = db.checks.rows.map Check.projectId ++
        List.replicate ((rows.filter fun row => row.key ∉ skipped).countP fun row =>
          ¬ DeclaredIn projectId request.environment row.key db.checks.rows) projectId := by
  obtain ⟨⟨checks, upserted⟩, hupsert, rfl⟩ := Option.map_eq_some_iff.mp h
  obtain ⟨_, hrows⟩ := upsertRows_rows (hkeys.sublist (List.filter_sublist.map SyncRow.key)) hupsert
  have hflag : ∃ f : Check → Check, (∀ c, c.SameRow (f c) ∧ (f c).environment = c.environment) ∧
      (if request.prune then
        (orphanSql now projectId request.environment (rows.map SyncRow.key) checks).1
        else checks).rows = checks.rows.map f := by
    split
    · refine ⟨updateRow (Check.Orphaned projectId request.environment (rows.map SyncRow.key))
        fun c => { c with orphanedAt := some now }, fun c => ?_, rfl⟩
      unfold updateRow
      split <;> exact ⟨⟨rfl, rfl, rfl, rfl, rfl⟩, rfl⟩
    · exact ⟨id, fun c => ⟨Check.SameRow.refl c, rfl⟩, (List.map_id _).symm⟩
  have hupserted : ∀ c : Check, ∀ accepted, c.SameRow (c.upserted projectId request.environment
      accepted) ∧ (c.upserted projectId request.environment accepted).environment =
        c.environment := by
    intro c accepted
    unfold Check.upserted
    split <;> exact ⟨⟨rfl, rfl, rfl, rfl, rfl⟩, rfl⟩
  obtain ⟨f, hf, hflagged⟩ := hflag
  refine ⟨rfl, ?_, ?_⟩
  · rintro id environment key ⟨c, hc, hproject, hkey, henvironment⟩
    obtain ⟨hsame, henv⟩ := hupserted c (rows.filter fun row => row.key ∉ skipped)
    obtain ⟨hsame', henv'⟩ := hf (c.upserted projectId request.environment
      (rows.filter fun row => row.key ∉ skipped))
    refine ⟨f (c.upserted projectId request.environment
      (rows.filter fun row => row.key ∉ skipped)), ?_, ?_, ?_, ?_⟩
    · dsimp only
      rw [hflagged, hrows, List.map_append]
      exact List.mem_append_left _ (List.mem_map_of_mem (List.mem_map_of_mem hc))
    · rw [hsame'.projectId, hsame.projectId, hproject]
    · rw [hsame'.key, hsame.key, hkey]
    · rw [henv', henv, henvironment]
  · dsimp only
    rw [hflagged, hrows, List.map_append, List.map_append, List.map_map, List.map_map, List.map_map,
      List.countP_eq_length_filter]
    congr 1
    · refine List.map_congr_left fun c _ => ?_
      exact (hf _).1.projectId.trans (hupserted c _).1.projectId
    · refine List.eq_replicate_iff.mpr ⟨?_, fun id hid => ?_⟩
      · rw [List.length_map, List.length_map]
      · obtain ⟨c, hc, rfl⟩ := List.mem_map.mp hid
        obtain ⟨row, _, rfl⟩ := List.mem_map.mp hc
        exact (hf _).1.projectId

end Counting

section Invariant

variable {srv : Server} {owner : User} {limit most : ℕ}

/-- An account with a limit on checks that is the one owner of each project it owns. -/
structure Limited (srv : Server) (owner : User) (limit : ℕ) (db : Database) : Prop where
  limit : (srv.quotas.limitsFor owner.plan).checks = some limit
  sole : ∀ projectId, db.Owns owner.id projectId → db.ownerOf projectId = some owner

/-- What a stage has left of the room that its request counted. -/
def Stage.Fits (userId : Uuid) (limit most : ℕ) (db : Database) : Stage → Prop
  | .admitted projectId _ _ _ _ =>
    db.Owns userId projectId → db.countOwnedChecks userId + 1 ≤ limit
  | .counted projectId _ _ rows remaining =>
    (rows.map SyncRow.key).Nodup ∧ (db.Owns userId projectId →
      ∃ room, remaining = some room ∧ (room = 0 ∨ db.countOwnedChecks userId + room ≤ limit))
  | .partitioned projectId request _ rows known skipped =>
    (rows.map SyncRow.key).Nodup ∧ (db.Owns userId projectId →
      db.countOwnedChecks userId +
        pendingInserts projectId request rows known skipped db.checks.rows ≤ most)
  | _ => True

/-- The account is within its bound, whoever works on its projects has its lock, and the
inserts that are still to come fit as well. -/
structure Guarded (srv : Server) (owner : User) (limit most : ℕ) (s : QuotaRace) : Prop where
  limited : Limited srv owner limit s.db
  holds : ∀ client projectId, (s.clients client).project = some projectId →
    s.db.Owns owner.id projectId → s.locks owner.id = some client
  count : s.db.countOwnedChecks owner.id ≤ most
  fits : ∀ client, (s.clients client).Fits owner.id limit most s.db

/-- The counts of a stage stay right while the account shrinks and its keys stay. -/
theorem Stage.Fits.mono {stage : Stage} {userId : Uuid} {db db' : Database}
    (h : stage.Fits userId limit most db)
    (howns : ∀ projectId, db'.Owns userId projectId ↔ db.Owns userId projectId)
    (hcount : db'.countOwnedChecks userId ≤ db.countOwnedChecks userId)
    (hknown : ∀ projectId request generated rows known skipped,
      stage = .partitioned projectId request generated rows known skipped →
        db.Owns userId projectId → ∀ key ∈ known,
          DeclaredIn projectId request.environment key db.checks.rows →
            DeclaredIn projectId request.environment key db'.checks.rows) :
    stage.Fits userId limit most db' := by
  cases stage with
  | admitted projectId input slug id pingKey =>
    intro hown
    exact (Nat.add_le_add_right hcount 1).trans (h ((howns projectId).mp hown))
  | counted projectId request generated rows remaining =>
    refine ⟨h.1, fun hown => ?_⟩
    obtain ⟨room, hroom, hfits⟩ := h.2 ((howns projectId).mp hown)
    exact ⟨room, hroom, hfits.imp_right (Nat.add_le_add_right hcount room).trans⟩
  | partitioned projectId request generated rows known skipped =>
    refine ⟨h.1, fun hown => ?_⟩
    have hown' := (howns projectId).mp hown
    refine (Nat.add_le_add hcount (pendingInserts_mono ?_)).trans (h.2 hown')
    exact hknown projectId request generated rows known skipped rfl hown'
  | _ => trivial

namespace Guarded

variable {s : QuotaRace} (h : Guarded srv owner limit most s)

include h

/-- One client at most works on the projects of the account. -/
theorem alone {client client' : ℕ} {projectId projectId' : Uuid}
    (hclient : (s.clients client).project = some projectId)
    (hclient' : (s.clients client').project = some projectId')
    (hown : s.db.Owns owner.id projectId) (hown' : s.db.Owns owner.id projectId') :
    client = client' :=
  Option.some.inj ((h.holds client projectId hclient hown).symm.trans
    (h.holds client' projectId' hclient' hown'))

/-- A client goes on within its project, or lets go of it. -/
theorem setClient {client : ℕ} {stage : Stage}
    (hproject : stage.project = (s.clients client).project ∨ stage.project = none)
    (hfits : stage.Fits owner.id limit most s.db) :
    Guarded srv owner limit most (s.setClient client stage) where
  limited := h.limited
  holds := by
    intro other projectId hother hown
    by_cases hsame : other = client
    · subst hsame
      rw [QuotaRace.setClient_self] at hother
      rcases hproject with hproject | hnone
      · exact h.holds other projectId (hproject ▸ hother) hown
      · rw [hnone] at hother
        cases hother
    · rw [QuotaRace.setClient_of_ne _ _ hsame] at hother
      exact h.holds other projectId hother hown
  count := h.count
  fits := by
    intro other
    by_cases hsame : other = client
    · subst hsame
      rw [QuotaRace.setClient_self]
      exact hfits
    · rw [QuotaRace.setClient_of_ne _ _ hsame]
      exact h.fits other

/-- A request that ends leaves the others their locks. -/
theorem finish (client : ℕ) : Guarded srv owner limit most (s.finish client) where
  limited := h.limited
  holds := by
    intro other projectId hother hown
    by_cases hsame : other = client
    · subst hsame
      rw [QuotaRace.finish_self] at hother
      cases hother
    · rw [QuotaRace.finish_of_ne _ hsame] at hother
      have hlock := h.holds other projectId hother hown
      have hkept : ¬ s.locks owner.id = some client := fun heq =>
        hsame (Option.some.inj (hlock.symm.trans heq))
      exact (if_neg hkept).trans hlock
  count := h.count
  fits := by
    intro other
    by_cases hsame : other = client
    · subst hsame
      rw [QuotaRace.finish_self]
      trivial
    · rw [QuotaRace.finish_of_ne _ hsame]
      exact h.fits other

/-- A statement that takes no lock may only shrink the account, and must leave every stage
what it counted on. -/
theorem write {db' : Database} (hmembers : db'.members = s.db.members)
    (husers : db'.users = s.db.users)
    (hcount : db'.countOwnedChecks owner.id ≤ s.db.countOwnedChecks owner.id)
    (hfits : ∀ client, (s.clients client).Fits owner.id limit most db') :
    Guarded srv owner limit most { s with db := db' } where
  limited :=
    { limit := h.limited.limit
      sole := by
        intro projectId hown
        unfold Database.ownerOf
        rw [hmembers, husers]
        exact h.limited.sole projectId ((owns_iff_of_members hmembers).mp hown) }
  holds := fun client projectId hclient hown =>
    h.holds client projectId hclient ((owns_iff_of_members hmembers).mp hown)
  count := hcount.trans h.count
  fits := hfits

/-- The holder of a lock inserts checks into its project. -/
theorem insert {db' : Database} {client : ℕ} {projectId : Uuid} {n : ℕ}
    (hclient : s.clients client = .upserted projectId)
    (hframe : db' = { s.db with checks := db'.checks })
    (hprojects : db'.checks.rows.map Check.projectId =
      s.db.checks.rows.map Check.projectId ++ List.replicate n projectId)
    (hdeclared : ∀ id environment key, DeclaredIn id environment key s.db.checks.rows →
      DeclaredIn id environment key db'.checks.rows)
    (hroom : s.db.Owns owner.id projectId → s.db.countOwnedChecks owner.id + n ≤ most) :
    Guarded srv owner limit most { s with db := db' } := by
  have hmembers : db'.members = s.db.members := by rw [hframe]
  have husers : db'.users = s.db.users := by rw [hframe]
  have howns (id : Uuid) : db'.Owns owner.id id ↔ s.db.Owns owner.id id :=
    owns_iff_of_members hmembers
  have hcount : db'.countOwnedChecks owner.id = s.db.countOwnedChecks owner.id +
      (List.replicate n projectId).countP fun id => decide (s.db.Owns owner.id id) := by
    rw [countOwnedChecks_eq_countP, countOwnedChecks_eq_countP, countP_owns, countP_owns, hprojects,
      List.countP_append]
    simp only [howns]
  by_cases hown : s.db.Owns owner.id projectId
  · constructor
    case limited =>
      refine ⟨h.limited.limit, fun id hid => ?_⟩
      unfold Database.ownerOf
      rw [hmembers, husers]
      exact h.limited.sole id ((howns id).mp hid)
    case holds => exact fun other id hother hid => h.holds other id hother ((howns id).mp hid)
    case count =>
      have hall : (List.replicate n projectId).countP
          (fun id => decide (s.db.Owns owner.id id)) ≤ n := by
        simpa using List.countP_le_length (p := fun id => decide (s.db.Owns owner.id id))
          (l := List.replicate n projectId)
      have hroom := hroom hown
      dsimp only
      omega
    case fits =>
      -- whoever else is at work is not at work on this account
      intro other
      by_cases hsame : other = client
      · subst hsame
        rw [hclient]
        trivial
      · have hapart : ∀ id, (s.clients other).project = some id → ¬ db'.Owns owner.id id := by
          intro id hid howned
          refine hsame (h.alone hid ?_ ((howns id).mp howned) hown)
          rw [hclient]
          rfl
        have hfits := h.fits other
        dsimp only
        generalize s.clients other = stage at hapart hfits
        cases stage with
        | admitted id input slug checkId pingKey =>
          exact fun howned => absurd howned (hapart id rfl)
        | counted id request generated rows remaining =>
          exact ⟨hfits.1, fun howned => absurd howned (hapart id rfl)⟩
        | partitioned id request generated rows known skipped =>
          exact ⟨hfits.1, fun howned => absurd howned (hapart id rfl)⟩
        | _ => trivial
  · have hnone : (List.replicate n projectId).countP
        (fun id => decide (s.db.Owns owner.id id)) = 0 := by
      refine List.countP_eq_zero.mpr fun id hid howned => hown ?_
      rw [List.eq_of_mem_replicate hid] at howned
      exact of_decide_eq_true howned
    refine h.write hmembers husers (by omega) fun other => ?_
    refine (h.fits other).mono howns (by omega) ?_
    intro id request generated rows known skipped _ _ key _ hkey
    exact hdeclared id request.environment key hkey

/-- A request takes a lock that nobody holds. -/
theorem serialised {client : ℕ} (work : GuardedWork) :
    Guarded srv owner limit most (s.serialised srv client work) := by
  have henabled := QuotaConfig.enabled_of_limitsFor h.limited.limit
  unfold QuotaRace.serialised
  simp only [henabled, Bool.not_true, Bool.false_eq_true, if_false]
  -- a project of the account has no other owner, so its lock is the one that is looked up
  have hunowned (hother : ∀ user, s.db.ownerOf work.projectId = some user → user.id ≠ owner.id) :
      ¬ s.db.Owns owner.id work.projectId := fun hown =>
    hother owner (h.limited.sole work.projectId hown) rfl
  have hwithout (hnot : ¬ s.db.Owns owner.id work.projectId) (locks : Uuid → Option ℕ)
      (hlocks : locks owner.id = s.locks owner.id) :
      Guarded srv owner limit most { s.setClient client (.locked work) with locks } := by
    refine ⟨h.limited, fun other projectId hother hown => ?_, h.count, fun other => ?_⟩
    · by_cases hsame : other = client
      · subst hsame
        simp only [QuotaRace.setClient_self] at hother
        cases hother
        exact absurd hown hnot
      · simp only [QuotaRace.setClient_of_ne _ _ hsame] at hother
        exact hlocks.trans (h.holds other projectId hother hown)
    · by_cases hsame : other = client
      · subst hsame
        simp only [QuotaRace.setClient_self]
        trivial
      · simp only [QuotaRace.setClient_of_ne _ _ hsame]
        exact h.fits other
  split
  · next hnone => exact hwithout (hunowned fun user huser => by simp [hnone] at huser) s.locks rfl
  · next user huser =>
    split
    · next hfree =>
      by_cases hid : user.id = owner.id
      · refine ⟨h.limited, fun other projectId hother hown => ?_, h.count, fun other => ?_⟩
        · by_cases hsame : other = client
          · rw [hsame, ← hid]
            simp only [Function.update_self]
          · simp only [QuotaRace.setClient_of_ne _ _ hsame] at hother
            have hlock := h.holds other projectId hother hown
            rw [← hid, hfree] at hlock
            cases hlock
        · by_cases hsame : other = client
          · subst hsame
            simp only [QuotaRace.setClient_self]
            trivial
          · simp only [QuotaRace.setClient_of_ne _ _ hsame]
            exact h.fits other
      · refine hwithout (hunowned fun user' huser' => ?_) _
          (Function.update_of_ne (fun heq => hid heq.symm) _ _)
        rw [huser] at huser'
        cases huser'
        exact hid
    · exact h

/-- The room that a count on a project of the account finds. -/
theorem remainingChecks_eq {projectId : Uuid} (hown : s.db.Owns owner.id projectId) :
    srv.quotas.remainingChecks s.db projectId =
      some (limit - s.db.countOwnedChecks owner.id) := by
  unfold QuotaConfig.remainingChecks
  simp [QuotaConfig.enabled_of_limitsFor h.limited.limit, h.limited.sole projectId hown,
    h.limited.limit]

/-- A removal takes no lock, and makes no stage exceed its room. -/
theorem remove (checkId : Uuid) :
    Guarded srv owner limit most { s with db := orUnchanged s.db (removeCheck checkId s.db) } := by
  unfold removeCheck
  split
  · exact h
  · have hcount : (s.db.checks.delete fun c => c.id = checkId).rows.countP
        (fun c => decide (s.db.Owns owner.id c.projectId)) ≤
          s.db.checks.rows.countP fun c => decide (s.db.Owns owner.id c.projectId) :=
      List.Sublist.countP_le List.filter_sublist
    refine h.write rfl rfl ?_ fun client => ?_
    · rw [countOwnedChecks_eq_countP, countOwnedChecks_eq_countP]
      exact hcount
    · have hfits := h.fits client
      generalize s.clients client = stage at hfits
      cases stage with
      | partitioned projectId request generated rows known skipped =>
        refine ⟨hfits.1, fun hown => ?_⟩
        have hown' : s.db.Owns owner.id projectId := hown
        refine le_trans ?_ (hfits.2 hown')
        rw [countOwnedChecks_eq_countP, countOwnedChecks_eq_countP]
        exact count_add_pendingInserts_delete hfits.1 hown'
      | _ =>
        refine hfits.mono (fun _ => Iff.rfl) ?_ fun _ _ _ _ _ _ hstage => by cases hstage
        rw [countOwnedChecks_eq_countP, countOwnedChecks_eq_countP]
        exact hcount

/-- The write of an update keeps the account and, where it moves no known key, its stages. -/
theorem update {client : ℕ} {checkId : Uuid} {data : CheckUpdateInput}
    {checks : Table Check Check.Distinct} (hstage : s.clients client = .updating checkId data)
    (hmoves : ∀ now, s.MovesNoKnown (.proceed client now))
    (hupdate : s.db.checks.update? (fun c => c.id = checkId) data.apply = some checks) :
    Guarded srv owner limit most { s with db := { s.db with checks } } := by
  have hrows := Table.update?_eq_some hupdate
  have hcount : ({ s.db with checks } : Database).countOwnedChecks owner.id =
      s.db.countOwnedChecks owner.id := by
    rw [countOwnedChecks_eq_countP, countOwnedChecks_eq_countP, hrows, List.countP_map]
    refine List.countP_congr fun c _ => ?_
    have hproject : (updateRow (fun c => c.id = checkId) data.apply c).projectId = c.projectId := by
      unfold updateRow
      split <;> rfl
    rw [Function.comp_apply, hproject]
    exact Iff.rfl
  refine h.write rfl rfl hcount.le fun other => ?_
  refine (h.fits other).mono (fun _ => Iff.rfl) hcount.le ?_
  rintro projectId request generated rows known skipped hother _ key hkey ⟨c, hc, hdeclared⟩
  have hkept := hmoves 0
  unfold QuotaRace.MovesNoKnown at hkept
  simp only [hstage] at hkept
  refine ⟨updateRow (fun c => c.id = checkId) data.apply c, ?_, ?_⟩
  · rw [hrows]
    exact List.mem_map_of_mem hc
  · unfold updateRow
    split
    · next hid =>
      have henvironment := hkept other projectId request generated rows known skipped hother c hc
        hid key hkey hdeclared
      exact ⟨hdeclared.1, hdeclared.2.1, henvironment.trans hdeclared.2.2⟩
    · exact hdeclared

/-- A creation inserts its row while it holds the lock. -/
theorem create {client : ℕ} {projectId id pingKey : Uuid} {input : CreateCheckRequest}
    {slug : String} {due now : ℤ} {checks : Table Check Check.Distinct} (hmost : limit ≤ most)
    (hstage : s.clients client = .admitted projectId input slug id pingKey)
    (hinsert : s.db.checks.insert? (input.toCheck projectId slug id pingKey due now) =
      some checks) :
    Guarded srv owner limit most ({ s with db := { s.db with checks } }.finish client) := by
  have hfits := h.fits client
  rw [hstage] at hfits
  have hupserted : Guarded srv owner limit most (s.setClient client (.upserted projectId)) :=
    h.setClient (Or.inl (by rw [hstage]; rfl)) trivial
  have hrows := Table.insert?_eq_some hinsert
  have hprojects : ({ s.db with checks } : Database).checks.rows.map Check.projectId =
      s.db.checks.rows.map Check.projectId ++ List.replicate 1 projectId := by
    simp only [hrows, List.map_append]
    rfl
  have hdeclared : ∀ id environment key, DeclaredIn id environment key s.db.checks.rows →
      DeclaredIn id environment key ({ s.db with checks } : Database).checks.rows := by
    rintro id environment key ⟨c, hc, hdeclared⟩
    refine ⟨c, ?_, hdeclared⟩
    simp only [hrows]
    exact List.mem_append_left _ hc
  have hinserted := hupserted.insert (QuotaRace.setClient_self s client _) rfl hprojects hdeclared
    fun hown => (hfits hown).trans hmost
  have hfinish := hinserted.finish client
  have hsame : ({ s.setClient client (.upserted projectId) with
      db := { s.db with checks } } : QuotaRace).finish client =
        ({ s with db := { s.db with checks } } : QuotaRace).finish client := by
    unfold QuotaRace.finish QuotaRace.setClient
    simp only [Function.update_idem]
  rwa [hsame] at hfinish

/-- A sync inserts what it accepted while it holds the lock. -/
theorem upsert {client : ℕ} {projectId : Uuid} {request : SyncRequest}
    {generated : String → Uuid × Uuid} {rows : List SyncRow} {known skipped : List String}
    {now : ℤ} {db' : Database}
    (hstage : s.clients client = .partitioned projectId request generated rows known skipped)
    (hupsert : upsertAccepted now projectId request generated rows skipped s.db = some db') :
    Guarded srv owner limit most ({ s with db := db' }.setClient client (.upserted projectId)) := by
  have hfits := h.fits client
  rw [hstage] at hfits
  have hupserted : Guarded srv owner limit most (s.setClient client (.upserted projectId)) :=
    h.setClient (Or.inl (by rw [hstage]; rfl)) trivial
  obtain ⟨hframe, hdeclared, hprojects⟩ := upsertAccepted_cases hfits.1 hupsert
  refine hupserted.insert (QuotaRace.setClient_self s client _) hframe hprojects hdeclared ?_
  intro hown
  refine le_trans (Nat.add_le_add_left ?_ _) (hfits.2 hown)
  refine List.countP_mono_left fun row _ hgone => ?_
  simpa using Or.inr (of_decide_eq_true hgone)

/-- **Every statement of every client keeps the account within its bound.** -/
theorem step {e : QuotaRaceEvent} (hmost : limit ≤ most) (hmoves : s.MovesNoKnown e) :
    Guarded srv owner limit most (s.step srv e) := by
  cases e with
  | begin client work =>
    dsimp only [QuotaRace.step]
    split
    · exact h.serialised work
    · exact h
  | update client now checkId input =>
    dsimp only [QuotaRace.step]
    split
    · split
      · exact h
      · exact h.setClient (Or.inr rfl) trivial
    · exact h
  | remove checkId => exact h.remove checkId
  | abort client => exact h.finish client
  | proceed client now =>
    dsimp only [QuotaRace.step]
    unfold QuotaRace.next
    split
    next => exact h
    next projectId input slug id pingKey hstage =>
      split
      · exact h.finish client
      · next hadmitted =>
        refine h.setClient (Or.inl (by rw [hstage]; rfl)) fun hown => ?_
        unfold QuotaConfig.assertCanAddCheck at hadmitted
        simp only [QuotaConfig.enabled_of_limitsFor h.limited.limit, h.limited.sole projectId hown,
          h.limited.limit, Bool.not_true, Bool.false_eq_true, if_false] at hadmitted
        split at hadmitted
        · cases hadmitted
        · next hroom => omega
    next projectId input slug id pingKey hstage =>
      split
      · exact h.finish client
      · split
        · exact h.finish client
        · next hinsert => exact h.create hmost hstage hinsert
    next projectId request generated hstage =>
      split
      · exact h.finish client
      · next rows hparsed =>
        refine h.setClient (Or.inl (by rw [hstage]; rfl)) ⟨(syncRows_cases hparsed).2.1, ?_⟩
        intro hown
        refine ⟨_, h.remainingChecks_eq hown, ?_⟩
        omega
    next projectId request generated rows hstage =>
      have hfits := h.fits client
      rw [hstage] at hfits
      refine h.setClient (Or.inl (by rw [hstage]; rfl)) ⟨hfits.1, fun hown => ?_⟩
      obtain ⟨room, hroom, _⟩ := hfits.2 hown
      cases hroom
    next projectId request generated rows remaining hstage =>
      have hfits := h.fits client
      rw [hstage] at hfits
      refine h.setClient (Or.inl (by rw [hstage]; rfl)) ⟨hfits.1, fun hown => ?_⟩
      obtain ⟨room, hroom, hroom'⟩ := hfits.2 hown
      cases hroom
      have hpending : pendingInserts projectId request rows _ _ s.db.checks.rows ≤ remaining :=
        pendingInserts_heldBack
      have hcount := h.count
      rcases hroom' with hzero | hroom'
      · omega
      · omega
    next projectId request generated rows known skipped hstage =>
      split
      · exact h.finish client
      · next hupsert => exact h.upsert hstage hupsert
    next => exact h.finish client
    next checkId data hstage =>
      split
      · exact h.setClient (Or.inr rfl) trivial
      · next hupdate =>
        have hwritten := h.update hstage (fun _ => hmoves) hupdate
        exact hwritten.setClient (Or.inr rfl) trivial

end Guarded

/-- **The quota cannot be raced past**, in any run in which no update moves a check away
from a key that a sync under way has counted as existing. -/
theorem owned_checks_bounded {s : QuotaRace} {es : List QuotaRaceEvent}
    (hidle : ∀ client, s.clients client = .idle) (hlimited : Limited srv owner limit s.db)
    (hmoves : Along (QuotaRace.step srv) QuotaRace.MovesNoKnown s es) :
    Throughout (QuotaRace.step srv) (fun s' => s'.db.countOwnedChecks owner.id ≤
      max (s.db.countOwnedChecks owner.id) limit) s es := by
  have hstart : Guarded srv owner limit (max (s.db.countOwnedChecks owner.id) limit) s := by
    refine ⟨hlimited, fun client projectId hproject => ?_, Nat.le_max_left _ _, fun client => ?_⟩
    · rw [hidle client] at hproject
      cases hproject
    · rw [hidle client]
      trivial
  have hguarded := throughout_of_step (P := QuotaRace.MovesNoKnown)
    (fun _ _ h hmoves => Guarded.step h (Nat.le_max_right _ _) hmoves) hstart hmoves
  exact hguarded.mono fun _ h => h.count

/-- A database that nobody is working on. -/
def quietRace (db : Database) : QuotaRace := ⟨db, fun _ => none, fun _ => .idle⟩

/-- A server whose slugs are those of the code. -/
def slugServer : Server := { sampleServer with syncSlug := syncSlug id sampleSha256Hex }

/-- The owner of the sample project, on the plan of one check. -/
def freeOwner : User := ⟨1, "owner@example.com", some "free"⟩

/-- Its account, before and after it declares its one check. -/
def freeDatabase (es : List Event) : Database :=
  run (perform slugServer) sampleDatabase (es ++ [⟨0, .setPlan 1 (some "free")⟩])

/-- Two clients create a check each; the second waits for the lock of the first. -/
def twoCreations : List QuotaRaceEvent :=
  [.begin 0 (.create 1 hourlyRequest "a" 5 5), .begin 1 (.create 1 hourlyRequest "b" 6 6),
    .proceed 0 1000, .proceed 0 1000, .begin 1 (.create 1 hourlyRequest "b" 6 6),
    .proceed 1 1000, .proceed 1 1000]

theorem owned_checks_bounded_two_creations :
    Throughout (QuotaRace.step slugServer) (fun s => s.db.countOwnedChecks 1 ≤ max 0 1)
      (quietRace (freeDatabase [])) twoCreations := by
  have hlimited : Limited slugServer freeOwner 1 (freeDatabase []) := by
    refine ⟨rfl, fun projectId hown => ?_⟩
    obtain ⟨member, hmember, rfl, _⟩ := hown
    rw [List.mem_singleton.mp hmember]
    rfl
  have hmoves : Along (QuotaRace.step slugServer) QuotaRace.MovesNoKnown
      (quietRace (freeDatabase [])) twoCreations :=
    ⟨trivial, trivial, trivial, trivial, trivial, trivial, trivial, trivial⟩
  exact owned_checks_bounded (fun _ => rfl) hlimited hmoves

/-- The account with its one check. -/
def fullDatabase : Database :=
  freeDatabase [⟨0, .sync 1 (declareEvery "production" 3600) fun _ => (5, 5)⟩]

/-- The payload that declares the check under another name. -/
def renameRequest : SyncRequest :=
  { declareEvery "production" 3600 with
    checks := [⟨"import", "ingest", none, some 3600, none, none, none⟩] }

/-- A sync counts the job of its payload as existing; before its upsert the check is moved
to staging, and the upsert inserts the job again. -/
theorem owned_checks_exceed_limit :
    Limited slugServer freeOwner 1 fullDatabase ∧
      ¬ Throughout (QuotaRace.step slugServer)
        (fun s => s.db.countOwnedChecks 1 ≤ max (fullDatabase.countOwnedChecks 1) 1)
        (quietRace fullDatabase)
        [.begin 0 (.sync 1 renameRequest fun _ => (6, 6)), .proceed 0 1000, .proceed 0 1000,
          .update 1 1000 5 (moveRequest "staging"), .proceed 1 1000, .proceed 0 1000] := by
  refine ⟨⟨rfl, fun projectId hown => ?_⟩, by decide⟩
  obtain ⟨member, hmember, rfl, _⟩ := hown
  rw [List.mem_singleton.mp hmember]
  rfl

end Invariant

section Undisturbed

variable {srv : Server} {s : QuotaRace} {client : ℕ} {now : ℤ}

/-- Where no lock is held, a request takes what it needs and writes nothing yet. -/
theorem QuotaRace.serialised_free (hfree : ∀ userId, s.locks userId = none)
    (work : GuardedWork) :
    (s.serialised srv client work).db = s.db ∧
      (s.serialised srv client work).clients client = .locked work := by
  unfold QuotaRace.serialised
  split
  · exact ⟨rfl, s.setClient_self client _⟩
  · split
    · exact ⟨rfl, s.setClient_self client _⟩
    · next owner _ =>
      rw [if_pos (hfree owner.id)]
      exact ⟨rfl, s.setClient_self client _⟩

/-- **A sync whose statements nothing interrupts is the transaction of `perform`.** -/
theorem run_sync_undisturbed {projectId : Uuid} {request : SyncRequest}
    {generated : String → Uuid × Uuid} (hidle : s.clients client = .idle)
    (hfree : ∀ userId, s.locks userId = none) :
    (run (QuotaRace.step srv) s (.begin client (.sync projectId request generated) ::
        List.replicate 3 (.proceed client now))).db =
      perform srv s.db ⟨now, .sync projectId request generated⟩ := by
  have hbegin : s.step srv (.begin client (.sync projectId request generated)) =
      s.serialised srv client (.sync projectId request generated) := by
    dsimp only [QuotaRace.step]
    rw [hidle]
  obtain ⟨hdb, hstage⟩ : (s.serialised srv client (.sync projectId request generated)).db = s.db ∧
      _ := s.serialised_free hfree (.sync projectId request generated)
  rw [run_cons, hbegin]
  generalize s.serialised srv client (.sync projectId request generated) = s' at hdb hstage
  have hperform : perform srv s.db ⟨now, .sync projectId request generated⟩ =
      orUnchanged s'.db ((syncRows srv.cron srv.syncSlug now request.environment []
        request.checks).bind fun rows => (upsertAccepted now projectId request generated rows
          (applyCheckQuota srv.quotas s'.db projectId rows request.environment) s'.db).elim
            (.error .uniqueViolation) .ok) := by
    rw [← syncWithinQuota_eq, hdb]
    rfl
  rw [hperform]
  cases hparsed : syncRows srv.cron srv.syncSlug now request.environment [] request.checks with
  | error e =>
    simp only [List.replicate, run_cons, run_nil, QuotaRace.step, QuotaRace.next, hstage, hparsed,
      QuotaRace.finish_self]
    rfl
  | ok rows =>
    have hcounted : ∃ known, (s'.step srv (.proceed client now)).step srv (.proceed client now) =
        (s'.setClient client (.counted projectId request generated rows
          (srv.quotas.remainingChecks s'.db projectId))).setClient client
            (.partitioned projectId request generated rows known
              (applyCheckQuota srv.quotas s'.db projectId rows request.environment)) := by
      rw [applyCheckQuota_heldBack]
      simp only [QuotaRace.step, QuotaRace.next, hstage, hparsed, QuotaRace.setClient_self]
      cases srv.quotas.remainingChecks s'.db projectId with
      | none => exact ⟨_, rfl⟩
      | some remaining => exact ⟨_, rfl⟩
    obtain ⟨known, hknown⟩ := hcounted
    simp only [List.replicate, run_cons, run_nil, hknown]
    simp only [QuotaRace.step, QuotaRace.next, QuotaRace.setClient_self]
    have hdb' (stage stage' : Stage) :
        ((s'.setClient client stage).setClient client stage').db = s'.db := rfl
    simp only [hdb', Except.bind]
    cases upsertAccepted now projectId request generated rows
        (applyCheckQuota srv.quotas s'.db projectId rows request.environment) s'.db with
    | none => rfl
    | some db' => rfl

end Undisturbed

end SilenceWatch
