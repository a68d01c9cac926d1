import SilenceWatch.Database.Schema

/-!
# Who may touch which project

Two kinds of principals, a browser session and a machine. Whether one may touch a project is
asked in one place, which answers that there is no such project where it may not.
-/

namespace SilenceWatch

/-- Who is calling. -/
inductive Principal where
  /-- A browser session, scoped to the projects the user belongs to. -/
  | user (userId : Uuid)
  /-- A machine credential, scoped to exactly one project. -/
  | apiKey (apiKeyId : Uuid) (projectId : Uuid)
  deriving DecidableEq

/-- The refusals of `ProjectAccessService`. -/
inductive AccessError where
  | notFound (message : String)
  | forbidden (message : String)
  deriving DecidableEq

/-- `RANK`. A higher rank satisfies any lower requirement. -/
def ProjectRole.rank : ProjectRole → ℕ
  | .member => 1
  | .admin => 2
  | .owner => 3

/-- The text of a role. -/
def ProjectRole.text : ProjectRole → String
  | .member => "member"
  | .admin => "admin"
  | .owner => "owner"

namespace Database

/-- `findRole`. -/
def findRole (db : Database) (projectId userId : Uuid) : Option ProjectRole :=
  (db.members.rows.find? fun m => m.projectId = projectId ∧ m.userId = userId).map
    ProjectMember.role

/-- `listProjectIds`. -/
def listProjectIds (db : Database) (userId : Uuid) : List Uuid :=
  (db.members.rows.filter fun m => m.userId = userId).map ProjectMember.projectId

/-- `findCheckProjectId`. -/
def findCheckProjectId (db : Database) (checkId : Uuid) : Option Uuid :=
  (db.findCheck checkId).map Check.projectId

/-- `assertAccess`. -/
def assertAccess (db : Database) (principal : Principal) (projectId : Uuid)
    (minimumRole : ProjectRole) : Except AccessError Unit :=
  match principal with
  | .apiKey _ bound =>
    if bound ≠ projectId then .error (.notFound "Project not found")
    else if ProjectRole.member.rank < minimumRole.rank then
      .error (.forbidden "This operation requires a user session")
    else .ok ()
  | .user userId =>
    match db.findRole projectId userId with
    | none => .error (.notFound "Project not found")
    | some role =>
      if role.rank < minimumRole.rank then
        .error (.forbidden ("This operation requires the " ++ minimumRole.text ++ " role"))
      else .ok ()

/-- Project ids the principal may read. -/
def visibleProjectIds (db : Database) : Principal → List Uuid
  | .apiKey _ projectId => [projectId]
  | .user userId => db.listProjectIds userId

/-- `assertCheckAccess`: the project a check belongs to, if it may be touched. -/
def assertCheckAccess (db : Database) (principal : Principal) (checkId : Uuid)
    (minimumRole : ProjectRole) : Except AccessError Uuid :=
  match db.findCheckProjectId checkId with
  | none => .error (.notFound "Check not found")
  | some projectId => (db.assertAccess principal projectId minimumRole).map fun _ => projectId

variable {db : Database} {principal : Principal} {projectId checkId : Uuid}

/-- Every role satisfies the lowest requirement. -/
theorem member_rank_le (role : ProjectRole) : ¬ role.rank < ProjectRole.member.rank := by
  cases role <;> decide

/-- Members may touch the projects they see, and no others. -/
theorem assertAccess_member :
    db.assertAccess principal projectId .member = .ok () ↔
      projectId ∈ db.visibleProjectIds principal := by
  cases principal with
  | apiKey apiKeyId bound =>
    simp only [assertAccess, visibleProjectIds, List.mem_singleton]
    by_cases hbound : bound = projectId
    · simp [hbound]
    · simp [hbound, Ne.symm hbound]
  | user userId =>
    simp only [assertAccess, visibleProjectIds, listProjectIds, List.mem_map, List.mem_filter,
      decide_eq_true_eq]
    cases hrole : db.findRole projectId userId with
    | none =>
      simp only [reduceCtorEq, false_iff]
      rintro ⟨m, ⟨hmem, huser⟩, hproject⟩
      have hnone := List.find?_eq_none.mp (Option.map_eq_none_iff.mp hrole) m hmem
      exact hnone (by simp [huser, hproject])
    | some role =>
      obtain ⟨m, hfind, -⟩ := Option.map_eq_some_iff.mp hrole
      have hm := List.find?_some hfind
      simp only [decide_eq_true_eq] at hm
      simp only [if_neg (member_rank_le role), true_iff]
      exact ⟨m, ⟨List.mem_of_find?_eq_some hfind, hm.2⟩, hm.1⟩

/-- The checks that a principal may read are those of the projects it sees. -/
theorem assertCheckAccess_member :
    db.assertCheckAccess principal checkId .member = .ok projectId ↔
      ∃ c, db.findCheck checkId = some c ∧ c.projectId = projectId ∧
        projectId ∈ db.visibleProjectIds principal := by
  unfold assertCheckAccess findCheckProjectId
  cases db.findCheck checkId with
  | none => simp
  | some c =>
    rw [← assertAccess_member]
    simp only [Option.map_some, Option.some.injEq]
    cases haccess : db.assertAccess principal c.projectId .member with
    | error error =>
      simp only [Except.map, reduceCtorEq, false_iff]
      rintro ⟨_, rfl, rfl, hok⟩
      rw [haccess] at hok
      cases hok
    | ok =>
      simp only [Except.map, Except.ok.injEq]
      constructor
      · rintro rfl
        exact ⟨c, rfl, rfl, haccess⟩
      · rintro ⟨_, rfl, hproject, -⟩
        exact hproject

end Database

end SilenceWatch
