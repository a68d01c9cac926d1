import SilenceWatch.Monitoring.Deadlines

/-!
# Quota against people

The quota loop and the people who use an account pause the same checks, through
the same column `state`, and are told apart by `paused_reason` alone. A pass of
the loop is a run of its two writes, so what holds over every run of writes holds
across its passes.
-/

namespace SilenceWatch

open Relational Transition

/-- The writes of the visit of one account. -/
def ownerWrites (quotas : QuotaConfig) (owner : OwnerWithChecks) : List Write :=
  match (quotas.limitsFor owner.plan).checks with
  | none => [.resume owner.userId maxSafeInteger]
  | some limit =>
    if owner.activeChecks > limit then [.pauseExcess owner.userId (owner.activeChecks - limit)]
    else if owner.pausedByQuota > 0 then [.resume owner.userId (limit - owner.activeChecks)]
    else []

/-- The writes of a pass over the accounts it reads at its start. -/
def reconcileWrites (quotas : QuotaConfig) (db : Database) : List Write :=
  if quotas.enabled then db.ownersWithChecks.flatMap (ownerWrites quotas) else []

/-- The visit of an account is the run of its writes. -/
theorem reconcileOwner_fst (srv : Server) (now : ℤ) (owner : OwnerWithChecks)
    (state : Database × ReconcileResult) :
    (reconcileOwner srv.quotas owner state).1 =
      run (perform srv) state.1 ((ownerWrites srv.quotas owner).map (Event.mk now)) := by
  unfold reconcileOwner ownerWrites
  cases (srv.quotas.limitsFor owner.plan).checks with
  | none => rfl
  | some limit =>
    dsimp only
    split
    · rfl
    · split
      · rfl
      · rfl

/-- **A pass is a run of writes.** -/
theorem reconcile_eq_run (srv : Server) (now : ℤ) (db : Database) :
    (reconcile srv.quotas db).1 =
      run (perform srv) db ((reconcileWrites srv.quotas db).map (Event.mk now)) := by
  have hfold (owners : List OwnerWithChecks) (state : Database × ReconcileResult) :
      (owners.foldl (fun state owner => reconcileOwner srv.quotas owner state) state).1 =
        run (perform srv) state.1
          ((owners.flatMap (ownerWrites srv.quotas)).map (Event.mk now)) := by
    induction owners generalizing state with
    | nil => rfl
    | cons owner owners ih =>
      rw [List.foldl_cons, ih, List.flatMap_cons, List.map_append, run_append,
        ← reconcileOwner_fst]
  unfold reconcile reconcileWrites
  cases srv.quotas.enabled with
  | false => rfl
  | true => exact hfold _ _

section DeliberatePause

/-- The check is there and paused. -/
def Database.PausedAt (checkId : Uuid) (db : Database) : Prop :=
  ∃ c ∈ db.checks.rows, c.id = checkId ∧ c.state = .paused
  deriving Decidable

/-- No person resumes or removes the check by this write. -/
def Write.LeavesPause (checkId : Uuid) : Write → Prop
  | .update id input => id = checkId → input.paused ≠ some false
  | .remove id => id ≠ checkId
  | _ => True

instance (checkId : Uuid) (w : Write) : Decidable (w.LeavesPause checkId) := by
  unfold Write.LeavesPause
  split <;> infer_instance

/-- The checks a write pauses on behalf of the quota. -/
def Database.doomedBy (db : Database) : Write → List Check
  | .pauseExcess userId count => db.doomed userId count
  | _ => []

/-- A pause of quota does not pick the check. -/
def SparedByQuota (checkId : Uuid) (db : Database) (e : Event) : Prop :=
  ∀ c ∈ db.doomedBy e.write, c.id ≠ checkId
  deriving Decidable

/-- A resumption of quota does not pick the check. -/
def NotGivenBack (checkId : Uuid) (db : Database) (e : Event) : Prop :=
  ∀ c ∈ db.revivedBy e.write, c.id ≠ checkId
  deriving Decidable

/-- What a write leaves of a paused check that no person resumes: it stays paused and
keeps its reason, or quota pauses it, or quota gives it back. -/
theorem Effect.of_paused {srv : Server} {db : Database} {now : ℤ} {w : Write} {c c' : Check}
    (h : Effect srv db now w c c') (hstate : c.state = .paused) (hperson : w.LeavesPause c.id) :
    (c'.state = .paused ∧ c'.pausedReason = c.pausedReason) ∨
      (c'.state = .paused ∧ c ∈ db.doomedBy w) ∨ (c' = c.quotaResume ∧ c ∈ db.revivedBy w) := by
  cases h with
  | kept _ => exact Or.inl ⟨hstate, rfl⟩
  | @updated _ _ data _ hid hdata =>
    have hwritten : (data.apply c).state = data.state.getD c.state := rfl
    refine Or.inl ⟨?_, rfl⟩
    rcases (updateData_cases hdata).2 with ⟨hnone, _⟩ | ⟨hpaused, _⟩ | ⟨_, _, hresumed, _⟩
    · rw [hwritten, hnone]
      exact hstate
    · rw [hwritten, hpaused]
      rfl
    · exact absurd hresumed (hperson hid.symm)
  | resynced hsync => exact Or.inl ⟨hsync.state.trans hstate, hsync.pausedReason⟩
  | rekeyed => exact Or.inl ⟨hstate, rfl⟩
  | heartbeat _ hnot => exact absurd hstate hnot
  | quotaPaused hdoomed => exact Or.inr (Or.inl ⟨rfl, hdoomed⟩)
  | quotaResumed _ hrevived => exact Or.inr (Or.inr ⟨rfl, hrevived⟩)
  | advanced hdue =>
    obtain ⟨_, _, _, hwatched, _⟩ := hdue
    simp [hstate] at hwatched

/-- A check that no person removes is still there after a write. -/
theorem Write.LeavesPause.ne_remove {w : Write} {checkId : Uuid} (h : w.LeavesPause checkId) :
    w ≠ .remove checkId := by
  rintro rfl
  exact h rfl

/-- A paused check stays paused under a write that is no person's resumption exactly if
quota does not give it back. -/
theorem pausedAt_perform_iff {srv : Server} {db : Database} {e : Event} {checkId : Uuid}
    (h : db.PausedAt checkId) (hperson : e.write.LeavesPause checkId) :
    (perform srv db e).PausedAt checkId ↔ NotGivenBack checkId db e := by
  obtain ⟨c, hc, rfl, hstate⟩ := h
  constructor
  · rintro ⟨c', hc', hid, hpaused⟩ d hd hdid
    have hresumed : d.quotaResume ∈ (perform srv db e).checks.rows := Database.quotaResume_mem hd
    have hsame : c' = d.quotaResume :=
      (perform srv db e).eq_of_check_id hc' hresumed (hid.trans hdid.symm)
    rw [hsame] at hpaused
    cases hpaused
  · intro hquota
    obtain ⟨c', hc', heffect⟩ := perform_effect srv db e hc hperson.ne_remove
    refine ⟨c', hc', heffect.id_eq, ?_⟩
    rcases heffect.of_paused hstate hperson with ⟨hpaused, _⟩ | ⟨hpaused, _⟩ | ⟨_, hrevived⟩
    · exact hpaused
    · exact hpaused
    · exact absurd rfl (hquota c hrevived)

/-- The check is paused, and nothing marks it as paused by quota. -/
def Database.PausedByPerson (checkId : Uuid) (db : Database) : Prop :=
  ∃ c ∈ db.checks.rows, c.id = checkId ∧ c.state = .paused ∧ c.pausedReason = none

/-- Quota does not give back a check that it did not pause. -/
theorem Database.PausedByPerson.notGivenBack {db : Database} {e : Event} {checkId : Uuid}
    (h : db.PausedByPerson checkId) : NotGivenBack checkId db e := by
  obtain ⟨c, hc, rfl, _, hreason⟩ := h
  intro d hd hid
  obtain ⟨now, write⟩ := e
  cases write with
  | resume userId room =>
    obtain ⟨hmem, _, hquota⟩ := mem_of_mem_select _ _ hd
    have hsame : d = c := db.eq_of_check_id hmem hc hid
    rw [hsame, hreason] at hquota
    cases hquota
  | _ => simp [Database.revivedBy] at hd

/-- A write that is no person's resumption keeps a deliberate pause deliberate, if no
pause of quota picks the check. -/
theorem Database.PausedByPerson.perform {srv : Server} {db : Database} {e : Event}
    {checkId : Uuid} (h : db.PausedByPerson checkId) (hperson : e.write.LeavesPause checkId)
    (hquota : SparedByQuota checkId db e) : (perform srv db e).PausedByPerson checkId := by
  have hnot : NotGivenBack checkId db e := h.notGivenBack
  obtain ⟨c, hc, rfl, hstate, hreason⟩ := h
  obtain ⟨c', hc', heffect⟩ := perform_effect srv db e hc hperson.ne_remove
  refine ⟨c', hc', heffect.id_eq, ?_⟩
  rcases heffect.of_paused hstate hperson with ⟨hpaused, hkept⟩ | ⟨_, hdoomed⟩ | ⟨_, hrevived⟩
  · exact ⟨hpaused, hkept.trans hreason⟩
  · exact absurd rfl (hquota c hdoomed)
  · exact absurd rfl (hnot c hrevived)

/-- A person's pause that is accepted pauses the check, and leaves its reason. -/
theorem exists_paused_of_update {srv : Server} {db : Database} {now : ℤ} {checkId : Uuid}
    {input : UpdateCheckRequest} (hpaused : input.paused = some true)
    (hok : (updateCheck srv.cron now checkId input db).isOk = true) :
    ∃ c ∈ db.checks.rows, c.id = checkId ∧
      ∃ c' ∈ (perform srv db ⟨now, .update checkId input⟩).checks.rows,
        c'.id = checkId ∧ c'.state = .paused ∧ c'.pausedReason = c.pausedReason := by
  simp only [perform]
  cases h : updateCheck srv.cron now checkId input db with
  | error e => simp [h, Except.isOk, Except.toBool] at hok
  | ok db' =>
    obtain ⟨existing, data, hfind, hdata, hrows, _⟩ := updateCheck_cases h
    have hmem : existing ∈ db.checks.rows := List.mem_of_find?_eq_some hfind
    have hid : existing.id = checkId := by simpa using List.find?_some hfind
    have hstate : data.state = some .paused := by
      rcases (updateData_cases hdata).2 with ⟨_, hnot⟩ | ⟨hstate, _⟩ | ⟨_, _, hresumed, _⟩
      · exact absurd hpaused hnot
      · exact hstate
      · rw [hpaused] at hresumed
        cases hresumed
    refine ⟨existing, hmem, hid, data.apply existing, ?_, hid, ?_, rfl⟩
    · simp only [orUnchanged, hrows, mem_map_updateRow]
      exact ⟨existing, hmem, Or.inl ⟨hid, rfl⟩⟩
    · simp [CheckUpdateInput.apply, hstate]

/-- **A deliberate pause is undone by quota exactly when a resumption of quota picks the
check.** After a person's pause and until the person resumes or removes the check, it
is `PAUSED` throughout if and only if no resumption of quota picks it; and none does if
the check carried no reason when the person paused it and no pause of quota picks it
while it is paused. -/
theorem deliberate_pause_kept (srv : Server) (db : Database) (now : ℤ) (checkId : Uuid)
    (input : UpdateCheckRequest) (es : List Event) (hpaused : input.paused = some true)
    (hok : (updateCheck srv.cron now checkId input db).isOk = true)
    (hperson : ∀ e ∈ es, e.write.LeavesPause checkId) :
    let db' := perform srv db ⟨now, .update checkId input⟩
    (Throughout (perform srv) (Database.PausedAt checkId) db' es ↔
        Along (perform srv) (NotGivenBack checkId) db' es) ∧
      ((∀ c ∈ db.checks.rows, c.id = checkId → c.pausedReason = none) →
        Along (perform srv) (SparedByQuota checkId) db' es →
        Along (perform srv) (NotGivenBack checkId) db' es) := by
  intro db'
  obtain ⟨c, hc, hid, c', hc', hid', hstate, hreason⟩ := exists_paused_of_update hpaused hok
  have halong : Along (perform srv) (fun _ e => e.write.LeavesPause checkId) db' es :=
    along_of_forall hperson
  constructor
  · exact throughout_iff_along (fun _ _ h hperson => pausedAt_perform_iff h hperson)
      ⟨c', hc', hid', hstate⟩ halong
  · intro hnone hspared
    have hdeliberate : db'.PausedByPerson checkId :=
      ⟨c', hc', hid', hstate, hreason.trans (hnone c hc hid)⟩
    exact along_of_step (fun _ _ h hboth => h.perform hboth.1 hboth.2)
      (fun _ _ h _ => h.notGivenBack) hdeliberate (halong.and hspared)

/-- A check is paused by a person before the account moves to a plan that has no room
for it and back. -/
theorem deliberate_pause_kept_sample :
    let db := run (perform sampleServer) sampleDatabase
      [⟨0, .create 1 hourlyRequest "backup" 10 20⟩, ⟨0, .create 1 hourlyRequest "report" 11 21⟩]
    let db' := perform sampleServer db ⟨1000, .update 10 (pauseRequest true)⟩
    Throughout (perform sampleServer) (Database.PausedAt 10) db'
      [⟨2000, .pauseExcess 1 1⟩, ⟨3000, .resume 1 maxSafeInteger⟩] := by
  intro db db'
  exact (deliberate_pause_kept sampleServer db 1000 10 (pauseRequest true)
    [⟨2000, .pauseExcess 1 1⟩, ⟨3000, .resume 1 maxSafeInteger⟩] rfl (by decide)
    (by decide)).1.mpr (by decide)

/-- A check that a person has paused is watched again after the account moved to a
smaller plan and back: quota counts it as active, pauses it and resumes it. -/
theorem deliberate_pause_undone :
    ¬ ∀ (srv : Server) (db : Database) (before es : List Event) (now : ℤ) (checkId : Uuid)
        (input : UpdateCheckRequest), db.checks.rows = [] → input.paused = some true →
      (updateCheck srv.cron now checkId input (run (perform srv) db before)).isOk = true →
      (∀ e ∈ es, e.write.LeavesPause checkId) →
      Throughout (perform srv) (Database.PausedAt checkId)
        (perform srv (run (perform srv) db before) ⟨now, .update checkId input⟩) es := by
  intro h
  have hrun := h sampleServer sampleDatabase
    [⟨0, .create 1 hourlyRequest "backup" 10 20⟩, ⟨0, .create 1 hourlyRequest "report" 11 21⟩]
    [⟨2000, .setPlan 1 (some "free")⟩, ⟨3000, .pauseExcess 1 1⟩, ⟨4000, .setPlan 1 none⟩,
      ⟨5000, .resume 1 maxSafeInteger⟩]
    1000 11 (pauseRequest true) rfl rfl (by decide) (by decide)
  revert hrun
  decide

end DeliberatePause

section Ceiling

/-- A project has one owner. -/
def Database.SingleOwner (db : Database) : Prop :=
  ∀ m ∈ db.members.rows, ∀ m' ∈ db.members.rows, m.role = .owner → m'.role = .owner →
    m.projectId = m'.projectId → m.userId = m'.userId
  deriving Decidable

/-- How many of an account's checks are not paused. -/
def Database.running (db : Database) (userId : Uuid) : ℕ :=
  (db.ownedChecks userId).countP fun c => c.state ≠ .paused

/-- A check marked as paused by quota is paused. -/
def Database.QuotaMarksPaused (db : Database) : Prop :=
  ∀ c ∈ db.checks.rows, c.pausedReason = some .quota → c.state = .paused

/-- By this write a person resumes a check that quota paused. -/
def Write.ResumesQuotaPause (db : Database) : Write → Prop
  | .update checkId input => input.paused = some false ∧
      ∃ c ∈ db.checks.rows, c.id = checkId ∧ c.state = .paused ∧ c.pausedReason = some .quota
  | _ => False

instance (db : Database) (w : Write) : Decidable (w.ResumesQuotaPause db) := by
  unfold Write.ResumesQuotaPause
  split <;> infer_instance

/-- No person resumes by this event a check that quota paused. -/
def LeavesQuotaPauses (db : Database) (e : Event) : Prop := ¬ e.write.ResumesQuotaPause db
  deriving Decidable

/-- The mark of quota stays on paused checks only, unless a person resumes one. -/
theorem Database.QuotaMarksPaused.perform {srv : Server} {db : Database} {e : Event}
    (h : db.QuotaMarksPaused) (hperson : LeavesQuotaPauses db e) :
    (perform srv db e).QuotaMarksPaused := by
  intro c' hc' hreason
  rcases perform_cases srv db e hc' with ⟨c, hc, heffect⟩ | ⟨hcreated, _⟩
  · obtain ⟨now, write⟩ := e
    cases heffect with
    | kept _ => exact h _ hc hreason
    | @updated _ _ data _ hid hdata =>
      have hstate : c.state = .paused := h c hc hreason
      have hwritten : (data.apply c).state = data.state.getD c.state := rfl
      rcases (updateData_cases hdata).2 with ⟨hnone, _⟩ | ⟨hpaused, _⟩ | ⟨_, _, hresumed, _⟩
      · rw [hwritten, hnone]
        exact hstate
      · rw [hwritten, hpaused]
        rfl
      · exact absurd ⟨hresumed, c, hc, hid, hstate, hreason⟩ hperson
    | resynced hsync =>
      rw [hsync.state]
      exact h c hc (hsync.pausedReason ▸ hreason)
    | rekeyed => exact h c hc hreason
    | heartbeat _ hnot => exact absurd (h c hc hreason) hnot
    | quotaPaused _ => rfl
    | quotaResumed _ _ => cases hreason
    | advanced hdue => exact absurd (h c hc hreason) hdue.monitored.ne_paused
  · rw [hcreated.pausedReason] at hreason
    cases hreason

/-- The writes of the visit of one account. -/
inductive Write.Visits (userId : Uuid) : Write → Prop
  | pauseExcess (count : ℕ) : Write.Visits userId (.pauseExcess userId count)
  | resume (room : ℤ) : Write.Visits userId (.resume userId room)

/-- A visit consists of writes for its account. -/
theorem visits_of_mem_ownerWrites {quotas : QuotaConfig} {owner : OwnerWithChecks} {w : Write}
    (h : w ∈ ownerWrites quotas owner) : w.Visits owner.userId := by
  unfold ownerWrites at h
  split at h
  · rw [List.mem_singleton.mp h]
    exact Write.Visits.resume _
  · split at h
    · rw [List.mem_singleton.mp h]
      exact Write.Visits.pauseExcess _
    · split at h
      · rw [List.mem_singleton.mp h]
        exact Write.Visits.resume _
      · simp at h

/-- The writes of a visit rewrite checks of its account only, and nothing but checks. -/
theorem Write.Visits.perform_eq (srv : Server) (db : Database) (now : ℤ) {w : Write}
    {userId : Uuid} (h : w.Visits userId) :
    ∃ ids : List Uuid, ∃ f : Check → Check,
      (∀ c ∈ db.checks.rows, c.id ∈ ids → db.Owns userId c.projectId) ∧
        (∀ c, (f c).projectId = c.projectId) ∧
        (perform srv db ⟨now, w⟩).checks.rows =
          db.checks.rows.map (updateRow (fun c => c.id ∈ ids) f) ∧
        (perform srv db ⟨now, w⟩).members = db.members ∧
        (perform srv db ⟨now, w⟩).users = db.users := by
  have howned {p : Check → Prop} [DecidablePred p] {le : Check → Check → Prop} [DecidableRel le]
      {n : ℕ} (hp : ∀ c, p c → db.Owns userId c.projectId) :
      ∀ c ∈ db.checks.rows, c.id ∈ (select p le n db.checks.rows).map Check.id →
        db.Owns userId c.projectId := by
    intro c hc hid
    obtain ⟨d, hd, heq⟩ := List.mem_map.mp hid
    obtain ⟨hmem, hpd⟩ := mem_of_mem_select _ _ hd
    have hsame : d = c := db.eq_of_check_id hmem hc heq
    exact hsame ▸ hp d hpd
  cases h with
  | pauseExcess count =>
    exact ⟨(db.doomed userId count).map Check.id, Check.quotaPause, howned fun _ h => h.1,
      fun _ => rfl, rfl, rfl, rfl⟩
  | resume room =>
    by_cases hroom : room ≤ 0
    · refine ⟨[], id, by simp, fun _ => rfl, ?_, ?_, ?_⟩
      · have hnone : updateRow (fun c : Check => c.id ∈ ([] : List Uuid)) id = id := by
          funext c
          exact if_neg List.not_mem_nil
        rw [hnone, List.map_id]
        simp [perform, SilenceWatch.resume, hroom]
      · simp [perform, SilenceWatch.resume, hroom]
      · simp [perform, SilenceWatch.resume, hroom]
    · refine ⟨(db.revived userId room).map Check.id, Check.quotaResume, howned fun _ h => h.1,
        fun _ => rfl, ?_, ?_, ?_⟩
      · simp [perform, SilenceWatch.resume, hroom]
      · simp [perform, SilenceWatch.resume, hroom]
      · simp [perform, SilenceWatch.resume, hroom]

/-- A visit of one account leaves the checks of every other account alone. -/
theorem Write.Visits.ownedChecks_eq {srv : Server} {db : Database} {now : ℤ} {w : Write}
    {userId other : Uuid} (h : w.Visits userId) (hsingle : db.SingleOwner) (hne : userId ≠ other) :
    (perform srv db ⟨now, w⟩).ownedChecks other = db.ownedChecks other := by
  obtain ⟨ids, f, howned, hproject, hrows, hmembers, _⟩ := h.perform_eq srv db now
  have howns (projectId : Uuid) :
      (perform srv db ⟨now, w⟩).Owns other projectId ↔ db.Owns other projectId := by
    unfold Database.Owns
    rw [hmembers]
  unfold Database.ownedChecks
  rw [hrows]
  simp only [howns]
  refine filter_map_updateRow (fun c => by rw [hproject]) ?_
  rintro c hc ⟨m, hm, hmproject, hmuser, hmrole⟩ hid
  obtain ⟨m', hm', hproject', huser', hrole'⟩ := howned c hc hid
  have hsame := hsingle m' hm' m hm hrole' hmrole (hproject'.trans hmproject.symm)
  exact hne (huser'.symm.trans (hsame.trans hmuser))

/-- An update that leaves every check in its project rewrites the checks of an account in
place. -/
theorem Database.ownedChecks_of_updateRow (db db' : Database) (ids : List Uuid) (f : Check → Check)
    (hproject : ∀ c, (f c).projectId = c.projectId) (hmembers : db'.members = db.members)
    (hrows : db'.checks.rows = db.checks.rows.map (updateRow (fun c => c.id ∈ ids) f))
    (userId : Uuid) :
    db'.ownedChecks userId =
      (db.ownedChecks userId).map (updateRow (fun c => c.id ∈ ids) f) := by
  have howns (projectId : Uuid) : db'.Owns userId projectId ↔ db.Owns userId projectId := by
    unfold Database.Owns
    rw [hmembers]
  have hsame (c : Check) : (updateRow (fun c => c.id ∈ ids) f c).projectId = c.projectId := by
    unfold updateRow
    split
    · exact hproject c
    · rfl
  unfold Database.ownedChecks
  rw [hrows, List.filter_map]
  congr 1
  refine List.filter_congr fun c _ => ?_
  simp [hsame, howns]

/-- How many checks an account runs after an update, counted over the rows before it. -/
theorem Database.running_of_updateRow (db db' : Database) (ids : List Uuid) (f : Check → Check)
    (hproject : ∀ c, (f c).projectId = c.projectId) (hmembers : db'.members = db.members)
    (hrows : db'.checks.rows = db.checks.rows.map (updateRow (fun c => c.id ∈ ids) f))
    (userId : Uuid) :
    db'.running userId = db.checks.rows.countP fun c =>
      db.Owns userId c.projectId ∧ (updateRow (fun c => c.id ∈ ids) f c).state ≠ .paused := by
  unfold Database.running
  rw [db.ownedChecks_of_updateRow db' ids f hproject hmembers hrows, List.countP_map,
    Database.ownedChecks, List.countP_filter]
  refine List.countP_congr fun c _ => ?_
  simp [and_comm]

/-- An account runs no more checks than carry no mark of quota. -/
theorem Database.QuotaMarksPaused.unmarked {db : Database} (h : db.QuotaMarksPaused) {c : Check}
    (hc : c ∈ db.checks.rows) (hstate : c.state ≠ .paused) : c.pausedReason = none := by
  cases hreason : c.pausedReason with
  | none => rfl
  | some reason => exact absurd (h c hc hreason) hstate

/-- A pause of quota leaves an account with the active checks it does not pick. -/
theorem running_pauseExcess {db : Database} (h : db.QuotaMarksPaused) (userId : Uuid)
    (count : ℕ) :
    (pauseExcess userId count db).1.running userId ≤
      (db.checks.rows.countP fun c => db.Owns userId c.projectId ∧ c.pausedReason = none) -
        count := by
  have hselected := countP_not_selected
    (fun c : Check => db.Owns userId c.projectId ∧ c.pausedReason = none) Check.NewestFirst
    Check.id count db.check_ids_nodup
  have hrunning := Database.running_of_updateRow db (pauseExcess userId count db).1
    ((db.doomed userId count).map Check.id) Check.quotaPause (fun _ => rfl) rfl rfl userId
  rw [← hselected, hrunning]
  refine List.countP_mono_left fun c hc hrunning => ?_
  obtain ⟨howns, hstate⟩ := of_decide_eq_true hrunning
  have hspared : c.id ∉ (db.doomed userId count).map Check.id := by
    intro hid
    rw [updateRow, if_pos hid] at hstate
    exact hstate rfl
  rw [updateRow, if_neg hspared] at hstate
  exact decide_eq_true ⟨⟨howns, h.unmarked hc hstate⟩, hspared⟩

/-- A resumption of quota adds at most as many checks as it has room for. -/
theorem running_resume {db : Database} (h : db.QuotaMarksPaused) (userId : Uuid) (room : ℤ) :
    (resume userId room db).1.running userId ≤
      (db.checks.rows.countP fun c => db.Owns userId c.projectId ∧ c.pausedReason = none) +
        room.toNat := by
  have hactive {c : Check} (hc : c ∈ db.checks.rows)
      (hrunning : db.Owns userId c.projectId ∧ c.state ≠ .paused) :
      db.Owns userId c.projectId ∧ c.pausedReason = none :=
    ⟨hrunning.1, h.unmarked hc hrunning.2⟩
  by_cases hroom : room ≤ 0
  · have hsame : (resume userId room db).1 = db := by simp [resume, hroom]
    unfold Database.running Database.ownedChecks
    rw [hsame, List.countP_filter]
    refine (List.countP_mono_left fun c hc hrunning => ?_).trans (Nat.le_add_right _ _)
    simp only [Bool.and_eq_true, decide_eq_true_eq] at hrunning ⊢
    exact hactive hc hrunning.symm
  · have hresumed : (resume userId room db).1 =
        { db with
          checks := db.checks.update (fun c => c.id ∈ (db.revived userId room).map Check.id)
            Check.quotaResume Check.quotaResume_keepsDistinct } := by
      simp [resume, hroom]
    have hlength : ((db.revived userId room).map Check.id).length ≤ room.toNat := by
      rw [List.length_map]
      exact length_select_le _ _ _ _
    have hrevived := countP_key_mem_le Check.id db.check_ids_nodup
      ((db.revived userId room).map Check.id)
    have hrunning := Database.running_of_updateRow db (resume userId room db).1
      ((db.revived userId room).map Check.id) Check.quotaResume (fun _ => rfl) (by rw [hresumed])
      (by rw [hresumed]; rfl) userId
    rw [hrunning]
    refine (countP_le_add fun c hc hrunning => ?_).trans
      (Nat.add_le_add_left (hrevived.trans hlength) _)
    obtain ⟨howns, hstate⟩ := of_decide_eq_true hrunning
    by_cases hid : c.id ∈ (db.revived userId room).map Check.id
    · exact Or.inr (decide_eq_true hid)
    · rw [updateRow, if_neg hid] at hstate
      exact Or.inl (decide_eq_true (hactive hc ⟨howns, hstate⟩))

/-- The active checks of an account, counted over the whole table. -/
theorem Database.activeChecks_eq (db : Database) (userId : Uuid) :
    ((db.ownedChecks userId).countP fun c => c.pausedReason ≠ some .quota) =
      db.checks.rows.countP fun c => db.Owns userId c.projectId ∧ c.pausedReason = none := by
  unfold Database.ownedChecks
  rw [List.countP_filter]
  refine List.countP_congr fun c _ => ?_
  have hreason : c.pausedReason ≠ some .quota ↔ c.pausedReason = none := by
    cases c.pausedReason with
    | none => simp
    | some reason => simp
  simp [hreason, and_comm]

/-- The visit of an account, as it was read at the start of the pass, brings it down to
the limit of its plan. -/
theorem running_ownerWrites (srv : Server) (now : ℤ) {db start : Database} {u : User} {limit : ℕ}
    (h : db.QuotaMarksPaused) (hsame : db.ownedChecks u.id = start.ownedChecks u.id)
    (hlimit : (srv.quotas.limitsFor u.plan).checks = some limit) :
    (run (perform srv) db
      ((ownerWrites srv.quotas (start.ownerWithChecks u)).map (Event.mk now))).running u.id ≤
        limit := by
  have hactive : (start.ownerWithChecks u).activeChecks =
      db.checks.rows.countP fun c => db.Owns u.id c.projectId ∧ c.pausedReason = none := by
    rw [← Database.activeChecks_eq, hsame]
    rfl
  have hplan : (srv.quotas.limitsFor (start.ownerWithChecks u).plan).checks = some limit := hlimit
  unfold ownerWrites
  rw [hplan]
  dsimp only
  split
  · next hexcess =>
    refine (running_pauseExcess h u.id _).trans ?_
    omega
  · next hwithin =>
    split
    · refine (running_resume h u.id _).trans ?_
      omega
    · refine le_trans ?_ (Nat.le_of_not_lt hwithin)
      rw [hactive]
      unfold Database.running Database.ownedChecks
      rw [List.map_nil, run_nil, List.countP_filter]
      refine List.countP_mono_left fun c hc hrunning => ?_
      simp only [Bool.and_eq_true, decide_eq_true_eq] at hrunning ⊢
      exact ⟨hrunning.2, h.unmarked hc hrunning.1⟩

/-- Visits keep the memberships. -/
theorem run_visits_members (srv : Server) {db : Database} {es : List Event}
    (hvisits : ∀ e ∈ es, ∃ userId, e.write.Visits userId) :
    (run (perform srv) db es).members = db.members := by
  refine run_of_step (I := fun s : Database => s.members = db.members) ?_ rfl
    (along_of_forall hvisits)
  rintro s ⟨now, write⟩ hmembers ⟨userId, hvisit⟩
  obtain ⟨_, _, _, _, _, hmembers', _⟩ := hvisit.perform_eq srv s now
  exact hmembers'.trans hmembers

/-- Visits keep the accounts. -/
theorem run_visits_users (srv : Server) {db : Database} {es : List Event}
    (hvisits : ∀ e ∈ es, ∃ userId, e.write.Visits userId) :
    (run (perform srv) db es).users = db.users := by
  refine run_of_step (I := fun s : Database => s.users = db.users) ?_ rfl
    (along_of_forall hvisits)
  rintro s ⟨now, write⟩ husers ⟨userId, hvisit⟩
  obtain ⟨_, _, _, _, _, _, husers'⟩ := hvisit.perform_eq srv s now
  exact husers'.trans husers

/-- Visits keep the marks of quota on paused checks. -/
theorem run_visits_marks (srv : Server) {db : Database} {es : List Event}
    (h : db.QuotaMarksPaused) (hvisits : ∀ e ∈ es, ∃ userId, e.write.Visits userId) :
    (run (perform srv) db es).QuotaMarksPaused := by
  refine run_of_step (I := Database.QuotaMarksPaused) ?_ h (along_of_forall hvisits)
  rintro s ⟨now, write⟩ hmarks ⟨userId, hvisit⟩
  refine hmarks.perform fun hresumes => ?_
  cases hvisit with
  | pauseExcess count => exact hresumes
  | resume room => exact hresumes

/-- The visits of other accounts leave an account's checks alone. -/
theorem run_visits_other {srv : Server} {db : Database} {es : List Event} {other : Uuid}
    (hsingle : db.SingleOwner)
    (hvisits : ∀ e ∈ es, ∃ userId, userId ≠ other ∧ e.write.Visits userId) :
    (run (perform srv) db es).ownedChecks other = db.ownedChecks other := by
  have hrun : (run (perform srv) db es).members = db.members ∧
      (run (perform srv) db es).ownedChecks other = db.ownedChecks other := by
    refine run_of_step (I := fun s : Database => s.members = db.members ∧
      s.ownedChecks other = db.ownedChecks other) ?_ ⟨rfl, rfl⟩ (along_of_forall hvisits)
    rintro s ⟨now, write⟩ ⟨hmembers, howned⟩ ⟨userId, hne, hvisit⟩
    have hsingle' : s.SingleOwner := by
      unfold Database.SingleOwner
      rw [hmembers]
      exact hsingle
    obtain ⟨_, _, _, _, _, hmembers', _⟩ := hvisit.perform_eq srv s now
    exact ⟨hmembers'.trans hmembers, (hvisit.ownedChecks_eq hsingle' hne).trans howned⟩
  exact hrun.2

/-- The accounts that a pass visits, one visit each. -/
theorem Database.nodup_owning (db : Database) :
    ((db.users.rows.filter fun v => db.ownedChecks v.id ≠ []).map User.id).Nodup :=
  (db.users.nodup_map User.id fun _ _ h => h.1).sublist (List.filter_sublist.map User.id)

/-- Around the visit of one account, a pass visits other accounts only. -/
theorem Database.owning_split {db : Database} {u : User} (hu : u ∈ db.users.rows)
    (hsome : db.ownedChecks u.id ≠ []) :
    ∃ before after, (db.users.rows.filter fun v => db.ownedChecks v.id ≠ []) =
      before ++ u :: after ∧ (∀ v ∈ before, v.id ≠ u.id) ∧ ∀ v ∈ after, v.id ≠ u.id := by
  have hmem : u ∈ db.users.rows.filter fun v => db.ownedChecks v.id ≠ [] :=
    List.mem_filter.mpr ⟨hu, decide_eq_true hsome⟩
  have hnodup := db.nodup_owning
  obtain ⟨before, after, hsplit⟩ := List.append_of_mem hmem
  rw [hsplit, List.map_append, List.map_cons] at hnodup
  obtain ⟨_, hrest, hdisjoint⟩ := List.nodup_append.mp hnodup
  refine ⟨before, after, hsplit, fun v hv => ?_, fun v hv hid => ?_⟩
  · exact hdisjoint _ (List.mem_map_of_mem hv) _ List.mem_cons_self
  · exact (List.nodup_cons.mp hrest).1 (hid ▸ List.mem_map_of_mem hv)

/-- The writes of a pass over some accounts, as it sees them at its start. -/
def passWrites (quotas : QuotaConfig) (db : Database) (users : List User) : List Event :=
  (users.flatMap fun v => ownerWrites quotas (db.ownerWithChecks v)).map (Event.mk 0)

theorem passWrites_append (quotas : QuotaConfig) (db : Database) (users users' : List User) :
    passWrites quotas db (users ++ users') =
      passWrites quotas db users ++ passWrites quotas db users' := by
  unfold passWrites
  rw [List.flatMap_append, List.map_append]

theorem visits_of_mem_passWrites {quotas : QuotaConfig} {db : Database} {users : List User}
    {e : Event} (he : e ∈ passWrites quotas db users) : ∃ v ∈ users, e.write.Visits v.id := by
  obtain ⟨w, hw, rfl⟩ := List.mem_map.mp he
  obtain ⟨v, hv, hw⟩ := List.mem_flatMap.mp hw
  exact ⟨v, hv, visits_of_mem_ownerWrites hw⟩

/-- A pass leaves an account without checks as it is. -/
theorem ownedChecks_reconcile_nil (srv : Server) {db : Database} {u : User}
    (hsingle : db.SingleOwner) (hnone : db.ownedChecks u.id = []) :
    (reconcile srv.quotas db).1.ownedChecks u.id = [] := by
  rw [reconcile_eq_run srv 0 db, reconcileWrites]
  split
  · rw [← hnone]
    refine run_visits_other hsingle fun e he => ?_
    obtain ⟨w, hw, rfl⟩ := List.mem_map.mp he
    obtain ⟨owner, howner, hw⟩ := List.mem_flatMap.mp hw
    obtain ⟨v, hv, rfl⟩ := List.mem_map.mp howner
    refine ⟨v.id, fun hid => ?_, visits_of_mem_ownerWrites hw⟩
    have hsome := of_decide_eq_true (List.mem_filter.mp hv).2
    rw [hid] at hsome
    exact hsome hnone
  · exact hnone

/-- To the checks of an account a pass does what the visit of that account does, among
visits that leave them alone. -/
theorem ownedChecks_reconcile (srv : Server) {db : Database} {u : User}
    (henabled : srv.quotas.enabled = true) (hsingle : db.SingleOwner) (hu : u ∈ db.users.rows)
    (hsome : db.ownedChecks u.id ≠ []) :
    ∃ middle : Database, middle.members = db.members ∧
      (db.QuotaMarksPaused → middle.QuotaMarksPaused) ∧
      middle.ownedChecks u.id = db.ownedChecks u.id ∧
      (reconcile srv.quotas db).1.ownedChecks u.id =
        (run (perform srv) middle ((ownerWrites srv.quotas (db.ownerWithChecks u)).map
          (Event.mk 0))).ownedChecks u.id := by
  have hwrites : (reconcile srv.quotas db).1 = run (perform srv) db (passWrites srv.quotas db
      (db.users.rows.filter fun v => db.ownedChecks v.id ≠ [])) := by
    rw [reconcile_eq_run srv 0 db, reconcileWrites, if_pos henabled, Database.ownersWithChecks,
      List.flatMap_map]
    rfl
  have hothers {users : List User} (hne : ∀ v ∈ users, v.id ≠ u.id) :
      ∀ e ∈ passWrites srv.quotas db users, ∃ userId, userId ≠ u.id ∧ e.write.Visits userId := by
    intro e he
    obtain ⟨v, hv, hvisit⟩ := visits_of_mem_passWrites he
    exact ⟨v.id, hne v hv, hvisit⟩
  obtain ⟨before, after, hsplit, hbefore, hafter⟩ := Database.owning_split hu hsome
  rw [hwrites, hsplit, ← List.singleton_append, passWrites_append, passWrites_append, run_append,
    run_append]
  have hvisits := fun e he => (hothers hbefore e he).imp fun _ hvisit => hvisit.2
  have hmembers : (run (perform srv) db _).members = db.members := run_visits_members srv hvisits
  refine ⟨_, hmembers, fun h => run_visits_marks srv h hvisits,
    run_visits_other hsingle (hothers hbefore), ?_⟩
  set middle := run (perform srv) db (passWrites srv.quotas db before) with hmiddle
  have hvisit : passWrites srv.quotas db [u] =
      (ownerWrites srv.quotas (db.ownerWithChecks u)).map (Event.mk 0) := by
    rw [passWrites, List.flatMap_singleton]
  rw [hvisit]
  have howns : ∀ e ∈ (ownerWrites srv.quotas (db.ownerWithChecks u)).map (Event.mk 0),
      ∃ userId, e.write.Visits userId := by
    intro e he
    obtain ⟨w, hw, rfl⟩ := List.mem_map.mp he
    exact ⟨_, visits_of_mem_ownerWrites hw⟩
  have hmembers' : (run (perform srv) middle _).members = middle.members :=
    run_visits_members srv howns
  refine run_visits_other ?_ (hothers hafter)
  unfold Database.SingleOwner
  rw [hmembers', hmembers]
  exact hsingle

/-- **A pass brings every account down to the limit of its plan**, if the marks of
quota are on paused checks only. -/
theorem running_reconcile {srv : Server} {db : Database} {u : User} {limit : ℕ}
    (h : db.QuotaMarksPaused) (hsingle : db.SingleOwner) (hu : u ∈ db.users.rows)
    (hlimit : (srv.quotas.limitsFor u.plan).checks = some limit) :
    (reconcile srv.quotas db).1.running u.id ≤ limit := by
  by_cases hnone : db.ownedChecks u.id = []
  · unfold Database.running
    rw [ownedChecks_reconcile_nil srv hsingle hnone]
    exact Nat.zero_le _
  · obtain ⟨middle, _, hmarks, howned, hpass⟩ := ownedChecks_reconcile srv
      (QuotaConfig.enabled_of_limitsFor hlimit) hsingle hu hnone
    have hvisit := running_ownerWrites srv 0 (hmarks h) howned hlimit
    unfold Database.running at hvisit ⊢
    rw [hpass]
    exact hvisit

/-- **Enforcement is effective, as long as nobody resumes what quota paused.** After a
run that starts without checks and in which no person resumes a check that quota
paused, a pass leaves every account whose plan has a limit with at most that many
checks that are not paused. -/
theorem quota_enforced (srv : Server) (db : Database) (es : List Event)
    (hstart : db.checks.rows = []) (hperson : Along (perform srv) LeavesQuotaPauses db es)
    (hsingle : (run (perform srv) db es).SingleOwner) :
    ∀ u ∈ (run (perform srv) db es).users.rows, ∀ limit ∈ (srv.quotas.limitsFor u.plan).checks,
      (reconcile srv.quotas (run (perform srv) db es)).1.running u.id ≤ limit := by
  intro u hu limit hlimit
  have hmarks : (run (perform srv) db es).QuotaMarksPaused := by
    refine run_of_step (fun _ _ h hperson => h.perform hperson) ?_ hperson
    intro c hc
    simp [hstart] at hc
  exact running_reconcile hmarks hsingle hu hlimit

/-- Two checks of an account that moves to a plan of one. -/
def outgrown : List Event :=
  [⟨0, .create 1 hourlyRequest "backup" 10 20⟩,
    ⟨0, .create 1 hourlyRequest "report" 11 21⟩,
    ⟨1000, .setPlan 1 (some "free")⟩]

/-- The account that outgrew its plan is left with one check. -/
theorem quota_enforced_outgrown :
    (reconcile sampleServer.quotas
      (run (perform sampleServer) sampleDatabase outgrown)).1.running 1 ≤ 1 :=
  quota_enforced sampleServer sampleDatabase outgrown rfl (by decide) (by decide)
    ⟨1, "owner@example.com", some "free"⟩ (by decide) 1 (by decide)

/-- A person who resumes the check that quota paused keeps it, mark and all: the next
passes count it as paused and leave two checks running on a plan of one. -/
theorem not_quota_enforced :
    ¬ ∀ (srv : Server) (db : Database) (es : List Event), db.checks.rows = [] →
      (run (perform srv) db es).SingleOwner →
      ∀ u ∈ (run (perform srv) db es).users.rows, ∀ limit ∈ (srv.quotas.limitsFor u.plan).checks,
        (reconcile srv.quotas (run (perform srv) db es)).1.running u.id ≤ limit := by
  intro h
  have hrun := h sampleServer sampleDatabase
    (outgrown ++ [⟨2000, .pauseExcess 1 1⟩, ⟨3000, .update 11 (pauseRequest false)⟩]) rfl
    (by decide) ⟨1, "owner@example.com", some "free"⟩ (by decide) 1 (by decide)
  revert hrun
  decide

end Ceiling

end SilenceWatch
