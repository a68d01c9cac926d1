import SilenceWatch.Library.Guarded
import SilenceWatch.Projects.LastProject

/-!
# The channels of a project

`ChannelsService.create` counts the channels of the project twice: on arrival, before the
target is looked up, and again under the lock of the account that pays. Whatever order the
statements of any number of creations, changes, removals and tests come in, a project has no
more channels than the plan of its owner allows, or than it had to begin with.
-/

namespace SilenceWatch

open Relational Transition

/-- The database with its channels. -/
structure ChannelsDatabase extends ProjectsDatabase where
  /-- The column `last_tested_at`, by channel. -/
  lastTestedAt : Uuid → Option ℤ
  /-- `notification_channel_project_id_fkey`. -/
  channel_project : ∀ ch ∈ channels.rows, ∃ p ∈ projects.rows, p.id = ch.projectId

/-- A creation that the schema accepted, with the id that `ChannelsRepository.create` draws. -/
structure CreateChannelRequest where
  projectId : Uuid
  id : Uuid
  deriving DecidableEq

/-- What is written to the channels under no lock. -/
inductive ChannelWrite where
  | update (projectId channelId : Uuid) (enabled : Option Bool)
  | remove (projectId channelId : Uuid)
  | claimTest (projectId channelId : Uuid) (cooldownSeconds : ℕ) (now : ℤ)
  | removeProject (projectId : Uuid)
  deriving DecidableEq

namespace ChannelsDatabase

variable {db db' : ChannelsDatabase} {projectId channelId id : Uuid}

/-- The channel, in that project. -/
def findInProject (db : ChannelsDatabase) (projectId channelId : Uuid) : Option Channel :=
  db.channels.rows.find? fun ch => ch.id = channelId ∧ ch.projectId = projectId

/-- `notificationChannel.count({ where: { projectId } })`. -/
def countChannels (db : ChannelsDatabase) (projectId : Uuid) : ℕ :=
  db.channels.rows.countP fun ch => ch.projectId = projectId

/-- `QuotaService.assertCanAddChannel`. -/
def assertCanAddChannel (quotas : QuotaConfig) (db : ChannelsDatabase) (projectId : Uuid) :
    Except QuotaExceededError Unit :=
  if !quotas.enabled then .ok ()
  else
    let plan := (db.ownerOf projectId).bind User.plan
    match (quotas.limitsFor plan).channelsPerProject with
    | none => .ok ()
    | some limit =>
      let used := db.countChannels projectId
      if used + 1 > limit then .error ⟨.channels, used, limit, plan⟩ else .ok ()

/-- `ChannelsRepository.create`: none where the project is gone or the id is taken. -/
def create (db : ChannelsDatabase) (input : CreateChannelRequest) : Option ChannelsDatabase :=
  if hproject : ∃ p ∈ db.projects.rows, p.id = input.projectId then
    match hchannels : db.channels.insert? ⟨input.id, input.projectId, true⟩ with
    | none => none
    | some channels =>
      some { db with
        channels := channels
        lastTestedAt := Function.update db.lastTestedAt input.id none
        channel_project := by
          intro ch hch
          rw [Table.insert?_eq_some hchannels] at hch
          rcases List.mem_append.mp hch with hold | hnew
          · exact db.channel_project ch hold
          · rw [List.mem_singleton.mp hnew]
            exact hproject }
  else none

/-- No index covers what a change of a channel writes. -/
theorem keepsDistinct_enabled (enabled : Option Bool) :
    KeepsDistinct Channel.Distinct fun ch => { ch with enabled := enabled.getD ch.enabled } :=
  fun _ _ h => ⟨h, h⟩

/-- `ChannelsRepository.update`, of the column that the queue reads. -/
def update (db : ChannelsDatabase) (projectId channelId : Uuid) (enabled : Option Bool) :
    ChannelsDatabase :=
  { db with
    channels := db.channels.update (fun ch => ch.id = channelId ∧ ch.projectId = projectId)
      (fun ch => { ch with enabled := enabled.getD ch.enabled }) (keepsDistinct_enabled enabled)
    channel_project := by
      intro ch hch
      obtain ⟨old, hold, ⟨_, rfl⟩ | ⟨_, rfl⟩⟩ := mem_map_updateRow.mp hch
      · exact db.channel_project old hold
      · exact db.channel_project ch hold }

/-- `ChannelsRepository.delete`. -/
def delete (db : ChannelsDatabase) (projectId channelId : Uuid) : ChannelsDatabase :=
  { db with
    channels := db.channels.delete fun ch => ch.id = channelId ∧ ch.projectId = projectId
    channel_project := fun ch hch => db.channel_project ch (Table.mem_delete.mp hch).1 }

/-- The rows that the statement of `ChannelsRepository.claimTest` marks. -/
def Testable (db : ChannelsDatabase) (projectId channelId : Uuid) (cooldownSeconds : ℕ)
    (now : ℤ) : Prop :=
  (∃ ch ∈ db.channels.rows, ch.id = channelId ∧ ch.projectId = projectId) ∧
    ∀ tested ∈ db.lastTestedAt channelId, tested < now - cooldownSeconds * 1000
  deriving Decidable

/-- The statement of `ChannelsRepository.claimTest`, where it marks a row. -/
def markTested (db : ChannelsDatabase) (channelId : Uuid) (now : ℤ) : ChannelsDatabase :=
  { db with lastTestedAt := Function.update db.lastTestedAt channelId (some now) }

/-- `ProjectsRepository.delete`; of a project that is not there it changes nothing. -/
def removeProject (db : ChannelsDatabase) (projectId : Uuid) : ChannelsDatabase :=
  match hprojects : db.toProjectsDatabase.delete projectId with
  | .error _ => db
  | .ok projects =>
    { toProjectsDatabase := projects
      lastTestedAt := db.lastTestedAt
      channel_project := by
        intro ch hch
        unfold ProjectsDatabase.delete at hprojects
        split at hprojects
        · cases hprojects
        · cases hprojects
          obtain ⟨hch, hother⟩ := Table.mem_delete.mp hch
          obtain ⟨p, hp, hid⟩ := db.channel_project ch hch
          exact ⟨p, Table.mem_delete.mpr ⟨hp, hid ▸ hother⟩, hid⟩ }

/-- The database after one of the statements that take no lock. -/
def write (db : ChannelsDatabase) : ChannelWrite → ChannelsDatabase
  | .update projectId channelId enabled => db.update projectId channelId enabled
  | .remove projectId channelId => db.delete projectId channelId
  | .claimTest projectId channelId cooldownSeconds now =>
    if db.Testable projectId channelId cooldownSeconds now then db.markTested channelId now
    else db
  | .removeProject projectId => db.removeProject projectId

/-- The project is there. -/
def HasProject (db : ChannelsDatabase) (projectId : Uuid) : Prop :=
  ∃ p ∈ db.projects.rows, p.id = projectId
  deriving Decidable

/-- A creation adds one channel to its project, and changes nothing that quotas read. -/
theorem create_eq_some {input : CreateChannelRequest} (h : db.create input = some db') :
    db'.channels.rows = db.channels.rows ++ [⟨input.id, input.projectId, true⟩] ∧
      db'.projects = db.projects ∧ db'.members = db.members ∧ db'.users = db.users ∧
      db.HasProject input.projectId ∧
      db'.lastTestedAt = Function.update db.lastTestedAt input.id none := by
  unfold create at h
  split at h
  · next hproject =>
    split at h
    · cases h
    · next hchannels =>
      cases h
      exact ⟨Table.insert?_eq_some hchannels, rfl, rfl, rfl, hproject, rfl⟩
  · cases h

/-- What is found in a project is a row of it. -/
theorem findInProject_eq_some {ch : Channel} (h : db.findInProject projectId channelId = some ch) :
    ch ∈ db.channels.rows ∧ ch.id = channelId ∧ ch.projectId = projectId := by
  unfold findInProject at h
  have hsuits := List.find?_some h
  exact ⟨List.mem_of_find?_eq_some h, of_decide_eq_true hsuits⟩

/-- The removal of a project takes its channels and memberships, and nothing else of these. -/
theorem removeProject_cases (db : ChannelsDatabase) (projectId : Uuid) :
    (¬ db.HasProject projectId ∧ db.removeProject projectId = db) ∨
      ((db.removeProject projectId).projects = db.projects.delete (fun p => p.id = projectId) ∧
        (db.removeProject projectId).members =
          db.members.delete (fun m => m.projectId = projectId) ∧
        (db.removeProject projectId).channels =
          db.channels.delete (fun ch => ch.projectId = projectId) ∧
        (db.removeProject projectId).users = db.users ∧
        (db.removeProject projectId).lastTestedAt = db.lastTestedAt) := by
  unfold removeProject
  split
  · next hprojects =>
    unfold ProjectsDatabase.delete at hprojects
    split at hprojects
    · next hmissing => exact Or.inl ⟨hmissing, rfl⟩
    · cases hprojects
  · next hprojects =>
    unfold ProjectsDatabase.delete at hprojects
    split at hprojects
    · cases hprojects
    · cases hprojects
      exact Or.inr ⟨rfl, rfl, rfl, rfl, rfl⟩

/-- Every channel after a statement that takes no lock was one before it, with the same id and
in the same project. -/
theorem exists_of_mem_write {w : ChannelWrite} {ch : Channel}
    (hch : ch ∈ (db.write w).channels.rows) :
    ∃ old ∈ db.channels.rows, old.id = ch.id ∧ old.projectId = ch.projectId := by
  cases w with
  | update projectId channelId enabled =>
    obtain ⟨old, hold, ⟨_, rfl⟩ | ⟨_, rfl⟩⟩ := mem_map_updateRow.mp hch
    · exact ⟨old, hold, rfl, rfl⟩
    · exact ⟨ch, hold, rfl, rfl⟩
  | remove projectId channelId => exact ⟨ch, (Table.mem_delete.mp hch).1, rfl, rfl⟩
  | claimTest projectId channelId cooldownSeconds now =>
    simp only [write] at hch
    split at hch
    · exact ⟨ch, hch, rfl, rfl⟩
    · exact ⟨ch, hch, rfl, rfl⟩
  | removeProject projectId =>
    rcases db.removeProject_cases projectId with ⟨_, hsame⟩ | ⟨_, _, hchannels, _, _⟩
    · rw [write, hsame] at hch
      exact ⟨ch, hch, rfl, rfl⟩
    · rw [write, hchannels] at hch
      exact ⟨ch, (Table.mem_delete.mp hch).1, rfl, rfl⟩

/-- No statement that takes no lock adds a channel to a project. -/
theorem countChannels_write_le (db : ChannelsDatabase) (w : ChannelWrite) (projectId : Uuid) :
    (db.write w).countChannels projectId ≤ db.countChannels projectId := by
  unfold countChannels
  cases w with
  | update ofProject channelId enabled =>
    apply le_of_eq
    simp only [write, update]
    rw [Table.update_rows, List.countP_map]
    congr 1
    funext ch
    simp only [Function.comp_apply, updateRow]
    split <;> rfl
  | remove ofProject channelId => exact List.Sublist.countP_le List.filter_sublist
  | claimTest ofProject channelId cooldownSeconds now =>
    simp only [write]
    split
    · exact le_refl _
    · exact le_refl _
  | removeProject ofProject =>
    rcases db.removeProject_cases ofProject with ⟨_, hsame⟩ | ⟨_, _, hchannels, _, _⟩
    · rw [write, hsame]
    · rw [write, hchannels]
      exact List.Sublist.countP_le List.filter_sublist

end ChannelsDatabase

section Ceiling

variable {quotas : QuotaConfig} {db db' : ChannelsDatabase} {projectId : Uuid} {owner : User}
  {limit : ℕ}

/-- `ChannelsService.create` and the lock that `QuotaService.serialised` takes for it. -/
def channelsService (quotas : QuotaConfig) :
    Guarded.Service Uuid CreateChannelRequest ChannelWrite ChannelsDatabase where
  welcomes db input := (db.assertCanAddChannel quotas input.projectId).isOk
  key db input := if !quotas.enabled then none else (db.ownerOf input.projectId).map User.id
  admits db input := (db.assertCanAddChannel quotas input.projectId).isOk
  create db input := db.create input
  write db w := db.write w

/-- The project, while it is there, is the account's. -/
def ChannelsDatabase.OwnedBy (db : ChannelsDatabase) (projectId : Uuid) (owner : User) : Prop :=
  db.HasProject projectId → db.ownerOf projectId = some owner
  deriving Decidable

/-- Nothing that is written under no lock brings a project back or gives it another owner. -/
theorem ownedBy_write (hown : db.OwnedBy projectId owner) (w : ChannelWrite) :
    (db.write w).OwnedBy projectId owner ∧
      ((db.write w).HasProject projectId → db.HasProject projectId) := by
  cases w with
  | update ofProject channelId enabled => exact ⟨hown, id⟩
  | remove ofProject channelId => exact ⟨hown, id⟩
  | claimTest ofProject channelId cooldownSeconds now =>
    simp only [ChannelsDatabase.write]
    split
    · exact ⟨hown, id⟩
    · exact ⟨hown, id⟩
  | removeProject ofProject =>
    rcases db.removeProject_cases ofProject with ⟨_, hsame⟩ | ⟨hprojects, hmembers, _, husers, _⟩
    · rw [ChannelsDatabase.write, hsame]
      exact ⟨hown, id⟩
    · have hstays (h : (db.removeProject ofProject).HasProject projectId) :
          db.HasProject projectId ∧ projectId ≠ ofProject := by
        obtain ⟨p, hp, hid⟩ := h
        rw [hprojects] at hp
        obtain ⟨hp, hother⟩ := Table.mem_delete.mp hp
        exact ⟨⟨p, hp, hid⟩, fun heq => hother (hid.trans heq)⟩
      refine ⟨fun h => ?_, fun h => (hstays h).1⟩
      obtain ⟨hbefore, hother⟩ := hstays h
      rw [← hown hbefore]
      unfold Database.ownerOf
      rw [ChannelsDatabase.write, hmembers, husers, Table.delete_rows, List.find?_filter]
      congr 2
      funext m
      by_cases hm : m.projectId = projectId
      · simp [hm, hother]
      · simp [hm]

/-- Only a server that enforces quotas limits the channels of a plan. -/
theorem enabled_of_channels_limit {plan : Option String}
    (hlimit : (quotas.limitsFor plan).channelsPerProject = some limit) :
    quotas.enabled = true := by
  by_contra hoff
  rw [QuotaConfig.limitsFor_of_off (Bool.not_eq_true _ ▸ hoff)] at hlimit
  cases hlimit

/-- The channels of a project under a limit are a ceiling of its owner's lock. -/
theorem channels_ceiling (hlimit : (quotas.limitsFor owner.plan).channelsPerProject = some limit) :
    Guarded.Ceiling (channelsService quotas) (fun db => db.countChannels projectId) limit owner.id
      (fun db => db.OwnedBy projectId owner) (fun db => db.HasProject projectId)
      (fun input => input.projectId = projectId) where
  key_eq := by
    intro db input hown hproject hinput
    have henabled := enabled_of_channels_limit hlimit
    simp only [channelsService, henabled, hinput, hown hproject]
    rfl
  room := by
    intro db input hown hproject hinput hadmits
    have henabled := enabled_of_channels_limit hlimit
    have hplan : (db.ownerOf projectId).bind User.plan = owner.plan := by
      rw [hown hproject]
      rfl
    simp only [channelsService, ChannelsDatabase.assertCanAddChannel, henabled, hinput, hplan,
      hlimit, Bool.not_true, Bool.false_eq_true, if_false] at hadmits
    by_contra hfull
    rw [if_pos (by omega)] at hadmits
    cases hadmits
  create := by
    intro db input db' hown hcreate
    obtain ⟨hchannels, hprojects, hmembers, husers, hproject, _⟩ :=
      ChannelsDatabase.create_eq_some hcreate
    have hsame : db'.HasProject projectId ↔ db.HasProject projectId := by
      unfold ChannelsDatabase.HasProject
      rw [hprojects]
    refine ⟨fun h => ?_, hsame.mp, ?_, fun hnot => ?_⟩
    · rw [← hown (hsame.mp h)]
      unfold Database.ownerOf
      rw [hmembers, husers]
    · simp only [ChannelsDatabase.countChannels, hchannels, List.countP_append]
      exact Nat.add_le_add_left List.countP_le_length _
    · have hother : input.projectId ≠ projectId := fun heq => hnot ⟨heq ▸ hproject, heq⟩
      simp [ChannelsDatabase.countChannels, hchannels, List.countP_append, hother]
  write := by
    intro db w hown
    obtain ⟨hkept, hlive⟩ := ownedBy_write hown w
    exact ⟨hkept, hlive, db.countChannels_write_le w projectId⟩

/-- **The channel ceiling holds under concurrency.** Whatever order the statements of any
number of clients come in, a project of an account whose plan allows `limit` channels has no
more than these, or than it had to begin with. -/
theorem project_channels_bounded {s : Guarded.State ℕ Uuid CreateChannelRequest ChannelsDatabase}
    (hlimit : (quotas.limitsFor owner.plan).channelsPerProject = some limit)
    (hown : s.store.ownerOf projectId = some owner) (hidle : ∀ client, s.clients client = .idle)
    (es : List (Guarded.Event ℕ CreateChannelRequest ChannelWrite)) :
    Throughout (Guarded.State.step (channelsService quotas))
      (fun s' => s'.store.countChannels projectId ≤ max limit (s.store.countChannels projectId))
      s es :=
  Guarded.count_throughout (channels_ceiling hlimit) (fun _ => hown) hidle es

end Ceiling

/-- One channel for a project, on the one plan there is. -/
def oneChannelPlan : QuotaConfig := ⟨true, [("free", ⟨none, none, some 1, none⟩)]⟩

/-- An account on that plan with a project and no channel. -/
def ownedProject : ChannelsDatabase where
  users := ⟨[⟨1, "owner@example.com", some "free"⟩], List.pairwise_singleton _ _⟩
  members := ⟨[⟨7, 1, .owner⟩], List.pairwise_singleton _ _⟩
  checks := .empty
  pings := .empty
  incidents := .empty
  channels := .empty
  deliveries := .empty
  projects := ⟨[⟨7, "Backups", "backups"⟩], List.pairwise_singleton _ _⟩
  member_project := by decide
  lastTestedAt := fun _ => none
  channel_project := by decide

/-- Two clients, both welcomed before either creates. -/
def twoChannels : List (Guarded.Event ℕ CreateChannelRequest ChannelWrite) :=
  [.ask 0 ⟨7, 40⟩, .ask 1 ⟨7, 41⟩, .proceed 0, .proceed 1, .proceed 0, .proceed 1, .proceed 0,
    .proceed 0, .proceed 1, .proceed 1, .proceed 1]

theorem project_channels_bounded_twoChannels :
    Throughout (Guarded.State.step (channelsService oneChannelPlan))
      (fun s => s.store.countChannels 7 ≤ 1) ⟨ownedProject, fun _ => none, fun _ => .idle⟩
      twoChannels :=
  @project_channels_bounded oneChannelPlan 7 ⟨1, "owner@example.com", some "free"⟩ 1
    ⟨ownedProject, fun _ => none, fun _ => .idle⟩ rfl rfl (fun _ => rfl) twoChannels

end SilenceWatch
