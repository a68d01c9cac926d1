import SilenceWatch.Library.Run
import SilenceWatch.Quotas.Service

/-!
# The last project of a user

`ProjectsService.remove` counts the memberships of the caller and deletes the project in
a later statement, under no lock. Any number of clients of one user, with the statements
of their creations and removals interleaved: the user keeps a project as long as every
removal that counts leaves one that no removal under way is about to delete. A removal
that does not can always be followed by deletions that leave the user with nothing.
-/

namespace SilenceWatch

open Relational Transition

/-- The database with its projects. -/
structure ProjectsDatabase extends Database where
  projects : Table Project Project.Distinct
  /-- `project_member_project_id_fkey`. -/
  member_project : ∀ m ∈ members.rows, ∃ p ∈ projects.rows, p.id = m.projectId

/-- The refusals of the service, and the failures of its statements. -/
inductive ProjectsError where
  | conflict (message : String)
  | quotaExceeded (error : QuotaExceededError)
  | uniqueViolation
  | foreignKeyViolation
  | recordNotFound
  deriving DecidableEq

namespace ProjectsDatabase

variable {db db' : ProjectsDatabase} {userId projectId id : Uuid} {name slug : String}

/-- The user belongs to a project that exists. -/
def HasProject (db : ProjectsDatabase) (userId : Uuid) : Prop :=
  ∃ p ∈ db.projects.rows, ∃ m ∈ db.members.rows, m.projectId = p.id ∧ m.userId = userId
  deriving Decidable

/-- `ProjectsRepository.countMemberships`. -/
def countMemberships (db : ProjectsDatabase) (userId : Uuid) : ℕ :=
  db.members.rows.countP fun m => m.userId = userId

/-- `ProjectsRepository.createOwnedBy`: the project and its owner, in one transaction, with
the id that the database generates. -/
def createOwnedBy (db : ProjectsDatabase) (userId : Uuid) (name slug : String) (id : Uuid) :
    Except ProjectsError ProjectsDatabase :=
  if ¬ ∃ u ∈ db.users.rows, u.id = userId then .error .foreignKeyViolation
  else
    match hprojects : db.projects.insert? ⟨id, name, slug⟩,
      hmembers : db.members.insert? ⟨id, userId, .owner⟩ with
    | some projects, some members =>
      .ok { db with
        projects := projects
        members := members
        member_project := by
          intro m hm
          rw [Table.insert?_eq_some hmembers] at hm
          rw [Table.insert?_eq_some hprojects]
          rcases List.mem_append.mp hm with hold | hnew
          · obtain ⟨p, hp, hid⟩ := db.member_project m hold
            exact ⟨p, List.mem_append_left _ hp, hid⟩
          · rw [List.mem_singleton.mp hnew]
            exact ⟨_, List.mem_append_right _ (List.mem_singleton_self _), rfl⟩ }
    | _, _ => .error .uniqueViolation

/-- `ProjectsRepository.delete`: the project and what goes with it. -/
def delete (db : ProjectsDatabase) (projectId : Uuid) : Except ProjectsError ProjectsDatabase :=
  if ¬ ∃ p ∈ db.projects.rows, p.id = projectId then .error .recordNotFound
  else
    .ok
      { toDatabase := removeProject projectId db.toDatabase
        projects := db.projects.delete fun p => p.id = projectId
        member_project := by
          intro m hm
          obtain ⟨hm, hother⟩ := Table.mem_delete.mp hm
          obtain ⟨p, hp, hid⟩ := db.member_project m hm
          exact ⟨p, Table.mem_delete.mpr ⟨hp, hid ▸ hother⟩, hid⟩ }

/-- `assertCanAddProject`: refuses a project past the ceiling of the user's plan. -/
def assertCanAddProject (quotas : QuotaConfig) (db : ProjectsDatabase) (userId : Uuid) :
    Except ProjectsError Unit :=
  if !quotas.enabled then .ok ()
  else
    let plan := (db.users.rows.find? fun u => u.id = userId).bind User.plan
    match (quotas.limitsFor plan).projects with
    | none => .ok ()
    | some limit =>
      let used := db.members.rows.countP fun m => m.userId = userId ∧ m.role = .owner
      if used + 1 > limit then .error (.quotaExceeded ⟨.projects, used, limit, plan⟩) else .ok ()

/-- The first statement of `ProjectsService.remove` and what it decides. -/
def assertNotLast (db : ProjectsDatabase) (userId : Uuid) : Except ProjectsError Unit :=
  if db.countMemberships userId ≤ 1 then
    .error (.conflict
      "This is your last project, and an account needs one. Create another before deleting it.")
  else .ok ()

/-- A membership is of a project that exists. -/
theorem hasProject_iff : db.HasProject userId ↔ ∃ m ∈ db.members.rows, m.userId = userId := by
  constructor
  · rintro ⟨_, _, m, hm, _, huser⟩
    exact ⟨m, hm, huser⟩
  · rintro ⟨m, hm, huser⟩
    obtain ⟨p, hp, hid⟩ := db.member_project m hm
    exact ⟨p, hp, m, hm, hid.symm, huser⟩

/-- A creation takes nobody's membership away. -/
theorem members_createOwnedBy (h : db.createOwnedBy userId name slug id = .ok db')
    {m : ProjectMember} (hm : m ∈ db.members.rows) : m ∈ db'.members.rows := by
  unfold createOwnedBy at h
  split at h
  · cases h
  · split at h
    · next hmembers =>
      cases h
      rw [Table.insert?_eq_some hmembers]
      exact List.mem_append_left _ hm
    · cases h

/-- A deletion takes the memberships of its project away. -/
theorem members_delete (h : db.delete projectId = .ok db') {m : ProjectMember} :
    m ∈ db'.members.rows ↔ m ∈ db.members.rows ∧ m.projectId ≠ projectId := by
  unfold delete at h
  split at h
  · cases h
  · cases h
    exact Table.mem_delete

/-- A deletion that fails had no memberships to take away. -/
theorem members_of_delete_error {e : ProjectsError} (h : db.delete projectId = .error e)
    {m : ProjectMember} (hm : m ∈ db.members.rows) : m.projectId ≠ projectId := by
  unfold delete at h
  split at h
  · next hmissing =>
    intro hproject
    obtain ⟨p, hp, hid⟩ := db.member_project m hm
    exact hmissing ⟨p, hp, hid.trans hproject⟩
  · cases h

end ProjectsDatabase

/-- How far a client is with its call. A creation carries what the search for a slug ends
on and the id that the database generates. -/
inductive ProjectStage where
  | idle
  | locked (name slug : String) (id : Uuid)
  | admitted (name slug : String) (id : Uuid)
  | counted (projectId : Uuid)
  deriving DecidableEq

/-- The database, the advisory lock of the user's account, and the clients of the user. -/
structure ProjectRace where
  db : ProjectsDatabase
  lock : Option ℕ
  clients : ℕ → ProjectStage

/-- What may happen next: a client calls `create` or `remove`, issues its next statement,
or fails. -/
inductive ProjectEvent where
  | create (client : ℕ) (name slug : String) (id : Uuid)
  | remove (client : ℕ) (projectId : Uuid)
  | proceed (client : ℕ)
  | abort (client : ℕ)

namespace ProjectRace

/-- A client goes on to another stage. -/
def setClient (s : ProjectRace) (client : ℕ) (stage : ProjectStage) : ProjectRace :=
  { s with clients := Function.update s.clients client stage }

/-- A call ends, and with its transaction the lock it held. -/
def finish (s : ProjectRace) (client : ℕ) : ProjectRace :=
  { s.setClient client .idle with lock := if s.lock = some client then none else s.lock }

/-- `QuotaService.serialised`: a creation waits while another one holds the lock. -/
def serialised (quotas : QuotaConfig) (s : ProjectRace) (client : ℕ) (stage : ProjectStage) :
    ProjectRace :=
  if !quotas.enabled then s.setClient client stage
  else if s.lock = none then { s.setClient client stage with lock := some client }
  else s

/-- The next statement of a client. -/
def next (quotas : QuotaConfig) (userId : Uuid) (s : ProjectRace) (client : ℕ) : ProjectRace :=
  match s.clients client with
  | .idle => s
  | .locked name slug id =>
    match s.db.assertCanAddProject quotas userId with
    | .error _ => s.finish client
    | .ok _ => s.setClient client (.admitted name slug id)
  | .admitted name slug id =>
    match s.db.createOwnedBy userId name slug id with
    | .error _ => s.finish client
    | .ok db => { s with db }.finish client
  | .counted projectId =>
    match s.db.delete projectId with
    | .error _ => s.finish client
    | .ok db => { s with db }.finish client

/-- The state after an event. -/
def step (quotas : QuotaConfig) (userId : Uuid) (s : ProjectRace) : ProjectEvent → ProjectRace
  | .create client name slug id =>
    match s.clients client with
    | .idle => s.serialised quotas client (.locked name slug id)
    | _ => s
  | .remove client projectId =>
    match s.clients client with
    | .idle =>
      match s.db.assertNotLast userId with
      | .error _ => s
      | .ok _ => s.setClient client (.counted projectId)
    | _ => s
  | .proceed client => s.next quotas userId client
  | .abort client => s.finish client

/-- A removal that has counted is still to delete the project. -/
def Doomed (s : ProjectRace) (projectId : Uuid) : Prop :=
  ∃ client, s.clients client = .counted projectId

/-- A removal that counts more than one membership leaves the user a project that neither
it nor another removal under way is about to delete. -/
def LeavesAnother (userId : Uuid) (s : ProjectRace) : ProjectEvent → Prop
  | .remove client projectId => s.clients client = .idle → 1 < s.db.countMemberships userId →
      ∃ m ∈ s.db.members.rows, m.userId = userId ∧ m.projectId ≠ projectId ∧
        ¬ s.Doomed m.projectId
  | _ => True

/-- The user has a project that no removal under way is about to delete. -/
def Spared (userId : Uuid) (s : ProjectRace) : Prop :=
  ∃ m ∈ s.db.members.rows, m.userId = userId ∧ ¬ s.Doomed m.projectId

section

variable {quotas : QuotaConfig} {userId projectId : Uuid} {s s' : ProjectRace} {client : ℕ}
  {stage : ProjectStage} {cs : List ℕ} {e : ProjectEvent}

@[simp] theorem setClient_self : (s.setClient client stage).clients client = stage :=
  Function.update_self ..

theorem setClient_of_ne {other : ℕ} (h : other ≠ client) :
    (s.setClient client stage).clients other = s.clients other :=
  Function.update_of_ne h ..

theorem doomed_setClient (h : (s.setClient client stage).Doomed projectId) :
    s.Doomed projectId ∨ stage = .counted projectId := by
  obtain ⟨other, hother⟩ := h
  by_cases hsame : other = client
  · subst hsame
    rw [setClient_self] at hother
    exact Or.inr hother
  · rw [setClient_of_ne hsame] at hother
    exact Or.inl ⟨other, hother⟩

theorem doomed_finish (h : (s.finish client).Doomed projectId) : s.Doomed projectId := by
  have hidle : (s.setClient client .idle).Doomed projectId := h
  exact (doomed_setClient hidle).resolve_right ProjectStage.noConfusion

/-- A step that dooms nothing and takes no spared membership away. -/
theorem Spared.of_kept (hspared : s.Spared userId)
    (hmembers : ∀ m ∈ s.db.members.rows, ¬ s.Doomed m.projectId → m ∈ s'.db.members.rows)
    (hdoomed : ∀ projectId, s'.Doomed projectId → s.Doomed projectId) : s'.Spared userId := by
  obtain ⟨m, hm, huser, hfree⟩ := hspared
  exact ⟨m, hmembers m hm hfree, huser, fun h => hfree (hdoomed _ h)⟩

/-- The statements after the first one keep the user a spared project. -/
theorem Spared.next (hspared : s.Spared userId) (client : ℕ) :
    (s.next quotas userId client).Spared userId := by
  unfold ProjectRace.next
  split
  · exact hspared
  · split
    · exact hspared.of_kept (fun _ hm _ => hm) fun _ => doomed_finish
    · refine hspared.of_kept (fun _ hm _ => hm) fun projectId h => ?_
      exact (doomed_setClient h).resolve_right (by simp)
  · split
    · exact hspared.of_kept (fun _ hm _ => hm) fun _ => doomed_finish
    · next hcreated =>
      have hkept := fun m hm => ProjectsDatabase.members_createOwnedBy hcreated (m := m) hm
      exact hspared.of_kept (fun m hm _ => hkept m hm) fun _ h => doomed_finish (s := s) h
  · next projectId hcounted =>
    split
    · exact hspared.of_kept (fun _ hm _ => hm) fun _ => doomed_finish
    · next hdeleted =>
      refine hspared.of_kept (fun m hm hfree => ?_) fun _ h => doomed_finish (s := s) h
      refine (ProjectsDatabase.members_delete hdeleted).mpr ⟨hm, fun hsame => ?_⟩
      -- The project of this removal is doomed, so it is not the spared one.
      exact hfree (hsame ▸ ⟨client, hcounted⟩)

/-- **One step.** A removal counts only beside a spared project, and nothing else dooms one. -/
theorem Spared.step (hspared : s.Spared userId)
    (he : s.LeavesAnother userId e) : (s.step quotas userId e).Spared userId := by
  cases e with
  | create client name slug id =>
    unfold ProjectRace.step serialised
    dsimp only
    have hlocked : ∀ projectId, (s.setClient client (.locked name slug id)).Doomed projectId →
        s.Doomed projectId := fun _ h => (doomed_setClient h).resolve_right (by simp)
    split
    · split
      · exact hspared.of_kept (fun _ hm _ => hm) hlocked
      · split
        · exact hspared.of_kept (fun _ hm _ => hm) hlocked
        · exact hspared
    · exact hspared
  | remove client projectId =>
    unfold ProjectRace.step
    dsimp only
    split
    · next hidle =>
      unfold ProjectsDatabase.assertNotLast
      split
      · next hrefused =>
        split at hrefused
        · exact hspared
        · cases hrefused
      · next hpassed =>
        split at hpassed
        · cases hpassed
        · next hmany =>
          obtain ⟨m, hm, huser, hother, hfree⟩ := he hidle (by omega)
          refine ⟨m, hm, huser, fun h => ?_⟩
          rcases doomed_setClient h with hbefore | hthis
          · exact hfree hbefore
          · cases hthis
            exact hother rfl
    · exact hspared
  | proceed client => exact hspared.next client
  | abort client => exact hspared.of_kept (fun _ hm _ => hm) fun _ => doomed_finish

variable (quotas userId) in
/-- A client that has counted deletes its project, and is done. -/
theorem next_counted (hcounted : s.clients client = .counted projectId) :
    (s.next quotas userId client).clients = Function.update s.clients client .idle ∧
      ∀ m ∈ (s.next quotas userId client).db.members.rows,
        m ∈ s.db.members.rows ∧ m.projectId ≠ projectId := by
  unfold ProjectRace.next
  rw [hcounted]
  dsimp only
  split
  · next hmissing =>
    exact ⟨rfl, fun m hm => ⟨hm, ProjectsDatabase.members_of_delete_error hmissing hm⟩⟩
  · next hdeleted =>
    exact ⟨rfl, fun m hm => (ProjectsDatabase.members_delete hdeleted).mp hm⟩

/-- Once the removals under way have gone on, the projects they counted for are gone. -/
theorem members_run_proceed
    (hcs : ∀ client ∈ cs, s.clients client = .idle ∨ ∃ p, s.clients client = .counted p) :
    ∀ m ∈ (run (step quotas userId) s (cs.map .proceed)).db.members.rows,
      m ∈ s.db.members.rows ∧ ∀ client ∈ cs, s.clients client ≠ .counted m.projectId := by
  induction cs generalizing s with
  | nil => exact fun m hm => ⟨hm, fun _ h => absurd h List.not_mem_nil⟩
  | cons client cs ih =>
    rw [List.map_cons, run_cons]
    have hrest := fun other h => hcs other (List.mem_cons_of_mem client h)
    rcases hcs client List.mem_cons_self with hidle | ⟨p, hcounted⟩
    · have hsame : s.step quotas userId (.proceed client) = s := by
        simp only [step, ProjectRace.next, hidle]
      rw [hsame]
      intro m hm
      obtain ⟨hbefore, hlater⟩ := ih hrest m hm
      refine ⟨hbefore, fun other hother => ?_⟩
      rcases List.mem_cons.mp hother with rfl | hother
      · rw [hidle]
        exact ProjectStage.noConfusion
      · exact hlater other hother
    · obtain ⟨hclients, hmembers⟩ := next_counted quotas userId hcounted
      have hclients : (s.step quotas userId (.proceed client)).clients =
        Function.update s.clients client .idle := hclients
      intro m hm
      obtain ⟨hbefore, hlater⟩ := ih (s := s.step quotas userId (.proceed client)) (by
        intro other hother
        rw [hclients]
        by_cases hsame : other = client
        · subst hsame
          exact Or.inl (Function.update_self ..)
        · rw [Function.update_of_ne hsame]
          exact hrest other hother) m hm
      obtain ⟨hbefore, hproject⟩ := hmembers m hbefore
      refine ⟨hbefore, fun other hother => ?_⟩
      by_cases hsame : other = client
      · rw [hsame, hcounted]
        exact fun h => hproject (ProjectStage.counted.inj h).symm
      · have hmem := (List.mem_cons.mp hother).resolve_left hsame
        have hnot := hlater other hmem
        rwa [hclients, Function.update_of_ne hsame] at hnot

variable (quotas) in
/-- A removal that counts and leaves nothing can be followed by deletions that leave the
user without a project. -/
theorem exists_bereft (he : ¬ s.LeavesAnother userId e) :
    ∃ es, ¬ (run (step quotas userId) s (e :: es)).db.HasProject userId := by
  cases e with
  | create client name slug id => exact absurd trivial he
  | proceed client => exact absurd trivial he
  | abort client => exact absurd trivial he
  | remove client projectId =>
    simp only [LeavesAnother, Classical.not_imp, not_exists, not_and, not_not] at he
    obtain ⟨hidle, hmany, hdoomed⟩ := he
    have hstep : s.step quotas userId (.remove client projectId) =
        s.setClient client (.counted projectId) := by
      simp only [step, hidle, ProjectsDatabase.assertNotLast, if_neg (Nat.not_le_of_lt hmany)]
    -- Every membership of the user is of a project that some removal has counted for.
    have hcovered : ∀ m ∈ s.db.members.rows, m.userId = userId →
        ∃ other, (s.setClient client (.counted projectId)).clients other =
          .counted m.projectId := by
      intro m hm huser
      by_cases hsame : m.projectId = projectId
      · exact ⟨client, by rw [setClient_self, hsame]⟩
      · obtain ⟨other, hother⟩ := hdoomed m hm huser hsame
        refine ⟨other, ?_⟩
        have hne : other ≠ client := by
          rintro rfl
          rw [hidle] at hother
          cases hother
        rwa [setClient_of_ne hne]
    let own := s.db.members.rows.filter fun m => m.userId = userId
    have hown : ∀ m ∈ own, ∃ other,
        (s.setClient client (.counted projectId)).clients other = .counted m.projectId :=
      fun m hm => hcovered m (List.mem_filter.mp hm).1
        (of_decide_eq_true (List.mem_filter.mp hm).2)
    choose remover hremover using hown
    let cs := own.attach.map fun m => remover m.1 m.2
    refine ⟨cs.map .proceed, fun hproject => ?_⟩
    obtain ⟨m, hm, huser⟩ := ProjectsDatabase.hasProject_iff.mp hproject
    rw [run_cons, hstep] at hm
    obtain ⟨hbefore, hcounted⟩ := members_run_proceed (fun other hother => by
      obtain ⟨m, _, rfl⟩ := List.mem_map.mp hother
      exact Or.inr ⟨_, hremover m.1 m.2⟩) m hm
    have hmem : m ∈ own := List.mem_filter.mpr ⟨hbefore, decide_eq_true huser⟩
    exact hcounted _ (List.mem_map.mpr ⟨⟨m, hmem⟩, List.mem_attach _ _, rfl⟩) (hremover m hmem)

/-- **The last project.** A user with a project keeps one in every run whose removals leave
another one when they count; after a removal that does not, further steps may take the
last one. -/
theorem project_remains (quotas : QuotaConfig) (hidle : ∀ client, s.clients client = .idle)
    (hproject : s.db.HasProject userId) :
    (∀ es, Along (step quotas userId) (LeavesAnother userId) s es →
        Throughout (step quotas userId) (fun s => s.db.HasProject userId) s es) ∧
      ∀ es e, ¬ (run (step quotas userId) s es).LeavesAnother userId e →
        ∃ es', ¬ (run (step quotas userId) s (es ++ e :: es')).db.HasProject userId := by
  constructor
  · intro es hes
    have hspared : s.Spared userId := by
      obtain ⟨m, hm, huser⟩ := ProjectsDatabase.hasProject_iff.mp hproject
      refine ⟨m, hm, huser, ?_⟩
      rintro ⟨client, hcounted⟩
      rw [hidle] at hcounted
      cases hcounted
    have hthroughout := throughout_of_step (I := Spared userId)
      (fun _ _ hspared he => hspared.step he) hspared hes
    refine hthroughout.mono fun s hspared => ?_
    obtain ⟨m, hm, huser, _⟩ := hspared
    exact ProjectsDatabase.hasProject_iff.mpr ⟨m, hm, huser⟩
  · intro es e he
    obtain ⟨es', hbereft⟩ := exists_bereft quotas he
    exact ⟨es', by rwa [run_append]⟩

end

/-- A user with two projects, and clients that have called nothing. -/
def ofTwoProjects : ProjectRace where
  db :=
    { users := ⟨[⟨1, "ann@example.com", none⟩], List.pairwise_singleton _ _⟩
      members := ⟨[⟨10, 1, .owner⟩, ⟨11, 1, .owner⟩], by decide⟩
      projects := ⟨[⟨10, "Backups", "backups"⟩, ⟨11, "Reports", "reports"⟩], by decide⟩
      member_project := by decide
      checks := Table.empty
      pings := SerialTable.empty
      incidents := SerialTable.empty
      channels := Table.empty
      deliveries := SerialTable.empty }
  lock := none
  clients _ := .idle

/-- Removals one after the other, with a creation in between. -/
theorem project_remains_ofTwoProjects :
    Throughout (step ⟨false, []⟩ 1) (fun s => s.db.HasProject 1) ofTwoProjects
      [.remove 0 10, .create 1 "Mails" "mails" 12, .proceed 0, .proceed 1, .proceed 1,
        .remove 0 11, .proceed 0] := by
  have hfree : ∀ (s : ProjectRace) (projectId : Uuid), (∀ client, s.clients client = .idle) →
      ¬ s.Doomed projectId := by
    rintro s projectId hidle ⟨client, hcounted⟩
    rw [hidle] at hcounted
    cases hcounted
  refine (project_remains ⟨false, []⟩ (fun _ => rfl) (by decide)).1 _ ⟨?_, ?_⟩
  · exact fun _ _ => ⟨⟨11, 1, .owner⟩, by decide, rfl, by decide, hfree _ _ fun _ => rfl⟩
  · refine ⟨trivial, trivial, trivial, trivial, ?_, trivial, trivial⟩
    refine fun _ _ => ⟨⟨12, 1, .owner⟩, by decide, rfl, by decide, hfree _ _ fun client => ?_⟩
    rcases client with _ | _ | client
    · rfl
    · rfl
    · rfl

/-- Two removals that both count before either deletes. -/
theorem not_project_remains_twoRemovals :
    ¬ ∀ (quotas : QuotaConfig) (userId : Uuid) (s : ProjectRace) (es : List ProjectEvent),
      (∀ client, s.clients client = .idle) → s.db.HasProject userId →
        Throughout (step quotas userId) (fun s => s.db.HasProject userId) s es := by
  intro h
  have hlost := h ⟨false, []⟩ 1 ofTwoProjects
    [.remove 0 10, .remove 1 11, .proceed 0, .proceed 1] (fun _ => rfl) (by decide)
  revert hlost
  decide

end ProjectRace

end SilenceWatch
