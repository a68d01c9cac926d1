import SilenceWatch.Database.Schema

/-!
# Plan limits

Limits attach to the owner of a project, not to whoever is acting. Quotas are
off unless they were turned on, and an unknown plan is an unlimited one.
-/

namespace SilenceWatch

/-- What one plan is allowed; an absent field means unlimited. -/
structure PlanLimits where
  checks : Option ℕ
  projects : Option ℕ
  channelsPerProject : Option ℕ
  retentionDays : Option ℕ
  deriving DecidableEq

/-- Unlimited on every axis, what a self-hosted install always gets. -/
def unlimited : PlanLimits := ⟨none, none, none, none⟩

/-- `QUOTAS_ENABLED` and the parsed `PLAN_LIMITS`. -/
structure QuotaConfig where
  enabled : Bool
  planLimits : List (String × PlanLimits)

/-- The resources a plan may limit. -/
inductive QuotaResource where
  | checks
  | projects
  | channels
  deriving DecidableEq

/-- The refusal of a creation past the ceiling of a plan. -/
structure QuotaExceededError where
  resource : QuotaResource
  used : ℕ
  limit : ℕ
  plan : Option String
  deriving DecidableEq

/-- Limits for a plan name. -/
def QuotaConfig.limitsFor (quotas : QuotaConfig) : Option String → PlanLimits
  | none => unlimited
  | some plan =>
    if quotas.enabled then (quotas.planLimits.lookup plan).getD unlimited else unlimited

/-- Only a server that enforces quotas limits a plan. -/
theorem QuotaConfig.enabled_of_limitsFor {quotas : QuotaConfig} {plan : Option String} {limit : ℕ}
    (h : (quotas.limitsFor plan).checks = some limit) : quotas.enabled = true := by
  cases hoff : quotas.enabled with
  | true => rfl
  | false =>
    cases plan with
    | none => simp [QuotaConfig.limitsFor, unlimited] at h
    | some plan => simp [QuotaConfig.limitsFor, hoff, unlimited] at h

/-- A server that enforces no quotas limits no plan. -/
theorem QuotaConfig.limitsFor_of_off {quotas : QuotaConfig} (hoff : quotas.enabled = false)
    (plan : Option String) : quotas.limitsFor plan = unlimited := by
  cases plan with
  | none => rfl
  | some plan => simp [QuotaConfig.limitsFor, hoff]

/-- The account owns the project. -/
def Database.Owns (db : Database) (userId projectId : Uuid) : Prop :=
  ∃ m ∈ db.members.rows, m.projectId = projectId ∧ m.userId = userId ∧ m.role = .owner
  deriving Decidable

/-- The user behind some owner membership of a project. -/
def Database.ownerOf (db : Database) (projectId : Uuid) : Option User :=
  (db.members.rows.find? fun m => m.projectId = projectId ∧ m.role = .owner).bind fun m =>
    db.users.rows.find? fun u => u.id = m.userId

/-- Checks in every project the account owns. -/
def Database.ownedChecks (db : Database) (userId : Uuid) : List Check :=
  db.checks.rows.filter fun c => db.Owns userId c.projectId

/-- How many checks the account owns. -/
def Database.countOwnedChecks (db : Database) (userId : Uuid) : ℕ := (db.ownedChecks userId).length

/-- Refuses the creation of a check when the owner's account is at its ceiling. -/
def QuotaConfig.assertCanAddCheck (quotas : QuotaConfig) (db : Database) (projectId : Uuid) :
    Except QuotaExceededError Unit :=
  if !quotas.enabled then .ok ()
  else
    match db.ownerOf projectId with
    | none => .ok ()
    | some owner =>
      match (quotas.limitsFor owner.plan).checks with
      | none => .ok ()
      | some limit =>
        let used := db.countOwnedChecks owner.id
        if used + 1 > limit then .error ⟨.checks, used, limit, owner.plan⟩ else .ok ()

/-- How many more checks fit, or none where nothing limits them. -/
def QuotaConfig.remainingChecks (quotas : QuotaConfig) (db : Database) (projectId : Uuid) :
    Option ℕ :=
  if !quotas.enabled then none
  else
    match db.ownerOf projectId with
    | none => none
    | some owner =>
      match (quotas.limitsFor owner.plan).checks with
      | none => none
      | some limit => some (limit - db.countOwnedChecks owner.id)

end SilenceWatch
