import SilenceWatch.Quotas.Service
import SilenceWatch.Library.Selection

/-!
# Reconciling accounts with their plans

An account above the ceiling of its plan has its newest checks paused, one below
it has the checks that quota paused resumed, oldest first. What quota paused is
told apart from what a person paused by `paused_reason`.
-/

namespace SilenceWatch

open Relational

/-- `Number.MAX_SAFE_INTEGER`. -/
def maxSafeInteger : ℤ := 9007199254740991

/-- One account that owns checks, with what it is using. -/
structure OwnerWithChecks where
  userId : Uuid
  email : String
  plan : Option String
  activeChecks : ℕ
  pausedByQuota : ℕ
  deriving DecidableEq

/-- The account as the query over its checks counts it. -/
def Database.ownerWithChecks (db : Database) (u : User) : OwnerWithChecks where
  userId := u.id
  email := u.email
  plan := u.plan
  activeChecks := (db.ownedChecks u.id).countP fun c => c.pausedReason ≠ some .quota
  pausedByQuota := (db.ownedChecks u.id).countP fun c => c.pausedReason = some .quota

/-- One row per account that owns at least one check. -/
def Database.ownersWithChecks (db : Database) : List OwnerWithChecks :=
  (db.users.rows.filter fun u => db.ownedChecks u.id ≠ []).map db.ownerWithChecks

/-- `ORDER BY created_at DESC, id DESC`. -/
def Check.NewestFirst (c c' : Check) : Prop :=
  c'.createdAt < c.createdAt ∨ (c'.createdAt = c.createdAt ∧ c'.id ≤ c.id)
  deriving Decidable

/-- `ORDER BY created_at ASC, id ASC`. -/
def Check.OldestFirst (c c' : Check) : Prop :=
  c.createdAt < c'.createdAt ∨ (c.createdAt = c'.createdAt ∧ c.id ≤ c'.id)
  deriving Decidable

/-- The newest `count` checks of an account that carry no reason for a pause. -/
def Database.doomed (db : Database) (userId : Uuid) (count : ℕ) : List Check :=
  select (fun c => db.Owns userId c.projectId ∧ c.pausedReason = none) Check.NewestFirst count
    db.checks.rows

/-- The oldest `room` checks of an account that quota paused. -/
def Database.revived (db : Database) (userId : Uuid) (room : ℤ) : List Check :=
  select (fun c => db.Owns userId c.projectId ∧ c.pausedReason = some .quota) Check.OldestFirst
    room.toNat db.checks.rows

/-- What `pauseExcess` writes: the deadline is cleared with the state. -/
def Check.quotaPause (c : Check) : Check :=
  { c with state := .paused, pausedReason := some .quota, nextDueAt := none }

/-- What `resume` writes: back to `NEW`, and no longer paused by quota. -/
def Check.quotaResume (c : Check) : Check := { c with state := .new, pausedReason := none }

/-- A quota pause touches no indexed column. -/
theorem Check.quotaPause_keepsDistinct : KeepsDistinct Check.Distinct Check.quotaPause :=
  Check.keepsDistinct (fun _ => rfl) (fun _ => rfl) (fun _ => rfl) (fun _ => rfl) (fun _ => rfl)
    (fun _ => rfl)

/-- A quota resumption touches no indexed column. -/
theorem Check.quotaResume_keepsDistinct : KeepsDistinct Check.Distinct Check.quotaResume :=
  Check.keepsDistinct (fun _ => rfl) (fun _ => rfl) (fun _ => rfl) (fun _ => rfl) (fun _ => rfl)
    (fun _ => rfl)

/-- `pauseExcess`, with the names it returns. -/
def pauseExcess (userId : Uuid) (count : ℕ) (db : Database) : Database × List String :=
  let doomed := db.doomed userId count
  let ids := doomed.map Check.id
  ({ db with
      checks := db.checks.update (fun c => c.id ∈ ids) Check.quotaPause
        Check.quotaPause_keepsDistinct },
    doomed.map Check.name)

/-- `resume`, with the number of checks it gives back. -/
def resume (userId : Uuid) (room : ℤ) (db : Database) : Database × ℕ :=
  if room ≤ 0 then (db, 0)
  else
    let revived := db.revived userId room
    let ids := revived.map Check.id
    ({ db with
        checks := db.checks.update (fun c => c.id ∈ ids) Check.quotaResume
          Check.quotaResume_keepsDistinct },
      revived.length)

/-- What one pass reports. -/
structure ReconcileResult where
  paused : ℕ
  resumed : ℕ
  accounts : ℕ
  deriving DecidableEq

/-- The visit of one account by a pass. -/
def reconcileOwner (quotas : QuotaConfig) (owner : OwnerWithChecks)
    (state : Database × ReconcileResult) : Database × ReconcileResult :=
  let (db, result) := state
  match (quotas.limitsFor owner.plan).checks with
  | none =>
    -- Moved to an unlimited plan: give back everything quota took.
    let (db, back) := resume owner.userId maxSafeInteger db
    (db, { result with
      resumed := result.resumed + back
      accounts := result.accounts + if back > 0 then 1 else 0 })
  | some limit =>
    if owner.activeChecks > limit then
      let (db, stopped) := pauseExcess owner.userId (owner.activeChecks - limit) db
      (db, { result with
        paused := result.paused + stopped.length
        accounts := result.accounts + if stopped.length > 0 then 1 else 0 })
    else if owner.pausedByQuota > 0 then
      let (db, back) := resume owner.userId (limit - owner.activeChecks) db
      (db, { result with
        resumed := result.resumed + back
        accounts := result.accounts + if back > 0 then 1 else 0 })
    else (db, result)

/-- One pass over the accounts it reads at its start. -/
def reconcile (quotas : QuotaConfig) (db : Database) : Database × ReconcileResult :=
  if !quotas.enabled then (db, ⟨0, 0, 0⟩)
  else
    db.ownersWithChecks.foldl (fun state owner => reconcileOwner quotas owner state)
      (db, ⟨0, 0, 0⟩)

end SilenceWatch
