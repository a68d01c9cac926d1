import SilenceWatch.Library.Guarded
import SilenceWatch.Projects.LastProject

/-!
# The projects of an account

`ProjectsService.create` counts the projects that the account owns under the account's lock.
Whatever order the statements of any number of creations and removals come in, of this account
and of others, an account has no more projects than its plan allows, or than it had to begin
with.
-/

namespace SilenceWatch

open Relational Transition

/-- A call of `ProjectsService.create`, with what the search for a slug ends on and the id
that the database generates. -/
structure NewProject where
  userId : Uuid
  name : String
  slug : String
  id : Uuid
  deriving DecidableEq

namespace ProjectsDatabase

variable {db db' : ProjectsDatabase}

/-- `projectMember.count({ where: { userId, role: 'owner' } })`. -/
def countOwned (db : ProjectsDatabase) (userId : Uuid) : ℕ :=
  db.members.rows.countP fun m => m.userId = userId ∧ m.role = .owner

/-- The plan of the account. -/
def planOf (db : ProjectsDatabase) (userId : Uuid) : Option String :=
  (db.users.rows.find? fun u => u.id = userId).bind User.plan

/-- The deletion of `ProjectsService.remove`; where it fails it changes nothing. -/
def remove (db : ProjectsDatabase) (projectId : Uuid) : ProjectsDatabase :=
  match db.delete projectId with
  | .error _ => db
  | .ok db' => db'

/-- A creation adds one membership, of the owner, and changes no user. -/
theorem createOwnedBy_eq_ok {userId id : Uuid} {name slug : String}
    (h : db.createOwnedBy userId name slug id = .ok db') :
    db'.members.rows = db.members.rows ++ [⟨id, userId, .owner⟩] ∧ db'.users = db.users := by
  unfold createOwnedBy at h
  split at h
  · cases h
  · split at h
    · next hmembers =>
      cases h
      exact ⟨Table.insert?_eq_some hmembers, rfl⟩
    · cases h

/-- A removal takes memberships away, and changes no user. -/
theorem remove_frame (db : ProjectsDatabase) (projectId : Uuid) :
    (db.remove projectId).members.rows.Sublist db.members.rows ∧
      (db.remove projectId).users = db.users := by
  unfold remove
  split
  · exact ⟨List.Sublist.refl _, rfl⟩
  · next hdelete =>
    unfold delete at hdelete
    split at hdelete
    · cases hdelete
    · cases hdelete
      exact ⟨List.filter_sublist, rfl⟩

end ProjectsDatabase

/-- `ProjectsService.create` and the lock that `QuotaService.serialised` takes for it. -/
def projectsService (quotas : QuotaConfig) :
    Guarded.Service Uuid NewProject Uuid ProjectsDatabase where
  welcomes _ _ := true
  key _ input := if !quotas.enabled then none else some input.userId
  admits db input := (db.assertCanAddProject quotas input.userId).isOk
  create db input := (db.createOwnedBy input.userId input.name input.slug input.id).toOption
  write db projectId := db.remove projectId

section Ceiling

variable {quotas : QuotaConfig} {userId : Uuid} {plan : Option String} {limit : ℕ}

/-- The projects of an account under a limit are a ceiling of its lock. -/
theorem projects_ceiling (hlimit : (quotas.limitsFor plan).projects = some limit) :
    Guarded.Ceiling (projectsService quotas) (fun db => db.countOwned userId) limit userId
      (fun db => db.planOf userId = plan) (fun _ => True) (fun input => input.userId = userId) := by
  have henabled : quotas.enabled = true := by
    by_contra hoff
    rw [QuotaConfig.limitsFor_of_off (Bool.not_eq_true _ ▸ hoff)] at hlimit
    cases hlimit
  constructor
  case key_eq =>
    intro db input _ _ hinput
    simp only [projectsService, henabled, hinput]
    rfl
  case room =>
    intro db input hplan _ hinput hadmits
    have hlimit' : (quotas.limitsFor ((db.users.rows.find? fun u => u.id = userId).bind
        User.plan)).projects = some limit := by
      rw [← hlimit, ← hplan]
      rfl
    simp only [projectsService, ProjectsDatabase.assertCanAddProject, henabled, hinput, hlimit',
      Bool.not_true, Bool.false_eq_true, if_false] at hadmits
    by_contra hfull
    unfold ProjectsDatabase.countOwned at hfull
    rw [if_pos (by omega)] at hadmits
    cases hadmits
  case create =>
    intro db input db' hplan hcreate
    have hok : db.createOwnedBy input.userId input.name input.slug input.id = .ok db' := by
      cases hresult : db.createOwnedBy input.userId input.name input.slug input.id with
      | error e => simp [projectsService, hresult, Except.toOption] at hcreate
      | ok db'' =>
        simp only [projectsService, hresult, Except.toOption] at hcreate
        rw [Option.some.inj hcreate]
    obtain ⟨hmembers, husers⟩ := ProjectsDatabase.createOwnedBy_eq_ok hok
    refine ⟨?_, fun _ => trivial, ?_, fun hnot => ?_⟩
    · rw [← hplan]
      unfold ProjectsDatabase.planOf
      rw [husers]
    · simp only [ProjectsDatabase.countOwned, hmembers, List.countP_append]
      exact Nat.add_le_add_left List.countP_le_length _
    · have hother : input.userId ≠ userId := fun heq => hnot ⟨trivial, heq⟩
      simp [ProjectsDatabase.countOwned, hmembers, List.countP_append, hother]
  case write =>
    intro db projectId hplan
    obtain ⟨hmembers, husers⟩ := db.remove_frame projectId
    refine ⟨?_, fun _ => trivial, hmembers.countP_le⟩
    rw [← hplan]
    unfold ProjectsDatabase.planOf
    rw [show ((projectsService quotas).write db projectId).users = db.users from husers]

/-- **The project ceiling holds under concurrency.** Whatever order the statements of any number
of creations and removals come in, an account whose plan allows `limit` projects owns no more
than these, or than it had to begin with. -/
theorem owned_projects_bounded {s : Guarded.State ℕ Uuid NewProject ProjectsDatabase}
    (hlimit : (quotas.limitsFor (s.store.planOf userId)).projects = some limit)
    (hidle : ∀ client, s.clients client = .idle) (es : List (Guarded.Event ℕ NewProject Uuid)) :
    Throughout (Guarded.State.step (projectsService quotas))
      (fun s' => s'.store.countOwned userId ≤ max limit (s.store.countOwned userId)) s es :=
  Guarded.count_throughout (projects_ceiling hlimit) rfl hidle es

end Ceiling

/-- Two projects for an account, on the one plan there is. -/
def twoProjectPlan : QuotaConfig := ⟨true, [("free", ⟨none, some 2, none, none⟩)]⟩

/-- An account on that plan with one project. -/
def accountWithProject : ProjectsDatabase where
  users := ⟨[⟨1, "erin@example.com", some "free"⟩], List.pairwise_singleton _ _⟩
  members := ⟨[⟨6, 1, .owner⟩], List.pairwise_singleton _ _⟩
  checks := .empty
  pings := .empty
  incidents := .empty
  channels := .empty
  deliveries := .empty
  projects := ⟨[⟨6, "Invoices", "invoices"⟩], List.pairwise_singleton _ _⟩
  member_project := by decide

/-- Two clients that create together, of which the second waits for the first. -/
def twoProjects : List (Guarded.Event ℕ NewProject Uuid) :=
  [.ask 0 ⟨1, "Reports", "reports", 8⟩, .ask 1 ⟨1, "Mail", "mail", 9⟩, .proceed 0, .proceed 1,
    .proceed 0, .proceed 1, .proceed 0, .proceed 0, .proceed 1, .proceed 1, .proceed 1]

theorem owned_projects_bounded_twoProjects :
    Throughout (Guarded.State.step (projectsService twoProjectPlan))
      (fun s => s.store.countOwned 1 ≤ 2) ⟨accountWithProject, fun _ => none, fun _ => .idle⟩
      twoProjects :=
  @owned_projects_bounded twoProjectPlan 1 2 ⟨accountWithProject, fun _ => none, fun _ => .idle⟩
    rfl (fun _ => rfl) twoProjects

end SilenceWatch
