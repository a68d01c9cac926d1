import SilenceWatch.Checks.Isolation
import SilenceWatch.Retention.Purge

/-!
# What the purge deletes

A run of the purge deletes the pings and the incidents that expired, and no others, and the
horizon that the statements compute is the one `QuotaService` reports. All of it rests on the
plans being one value that the database can read: a configuration whose plans it can not read
purges nothing.
-/

namespace SilenceWatch

open Json Relational

namespace RetentionTables

variable {cfg : RetentionConfig} {t s : RetentionTables}

/-- A row of a check expired, by the days that its project keeps. -/
def Overdue (cfg : RetentionConfig) (t : RetentionTables) (checkId : Uuid) (Expired : ℕ → Prop) :
    Prop :=
  ∃ c ∈ t.checks.rows, c.id = checkId ∧
    ∃ pr ∈ t.projects.rows, pr.id = c.projectId ∧ Expired (t.retentionDays cfg pr)

instance (checkId : Uuid) (Expired : ℕ → Prop) [DecidablePred Expired] :
    Decidable (t.Overdue cfg checkId Expired) :=
  inferInstanceAs (Decidable (∃ c ∈ t.checks.rows, c.id = checkId ∧
    ∃ pr ∈ t.projects.rows, pr.id = c.projectId ∧ Expired (t.retentionDays cfg pr)))

/-- A ping received longer ago than its project keeps. -/
def PingExpired (cfg : RetentionConfig) (t : RetentionTables) (now : ℤ) (p : Ping) : Prop :=
  t.Overdue cfg p.checkId (ReceivedBefore now p)
  deriving Decidable

/-- An incident resolved longer ago than its project keeps. -/
def IncidentExpired (cfg : RetentionConfig) (t : RetentionTables) (now : ℤ) (i : Incident) : Prop :=
  t.Overdue cfg i.checkId (ResolvedBefore now i)
  deriving Decidable

/-- What a purge promises of the rows of a table: it adds none, deletes only what expired at one
of its batches, and ends with a batch that left none that expired if its batches could hold
them. -/
structure DeletesExpired {Row : Type} (Expired : ℕ → Row → Prop) [∀ b, DecidablePred (Expired b)]
    (before after : List Row) : Prop where
  kept : ∀ r ∈ after, r ∈ before
  expired : ∀ r ∈ before, r ∉ after → ∃ b < maxPurgeBatches, Expired b r
  gone : (before.countP fun r => ∃ b < maxPurgeBatches, Expired b r) <
      maxPurgeBatches * purgeBatchSize →
    ∃ b < maxPurgeBatches, ∀ r ∈ after, ¬ Expired b r

/-- Retention deletes exactly what has expired. -/
structure PurgeLaw (cfg : RetentionConfig) (run : PurgeRun) (t : RetentionTables) : Prop where
  /-- The statements apply to each project what `QuotaService` reports for it. -/
  horizon : ∀ caps, planCaps cfg.retentionCaps = some caps →
    t.projectRetention caps cfg.pingRetentionDays =
      t.projects.rows.map fun pr => (pr.id, t.retentionDays cfg pr)
  pings : DeletesExpired (fun b => t.PingExpired cfg (run.pingsNow b)) t.pings.rows
    (purge cfg run t).1.pings.rows
  incidents : DeletesExpired (fun b => t.IncidentExpired cfg (run.incidentsNow b)) t.incidents.rows
    (purge cfg run t).1.incidents.rows
  opened : ∀ i ∈ t.incidents.rows, i.resolvedAt = none → i ∈ (purge cfg run t).1.incidents.rows

/-- The tables from which the horizon of a row is read. -/
structure SameHorizon (t s : RetentionTables) : Prop where
  projects : s.projects = t.projects
  members : s.members = t.members
  users : s.users = t.users
  checks : s.checks = t.checks

/-- The row of a check expired by the project of the check. -/
theorem overdue_iff {c : Check} (hc : c ∈ t.checks.rows) {Expired : ℕ → Prop} :
    t.Overdue cfg c.id Expired ↔
      ∃ pr ∈ t.projects.rows, pr.id = c.projectId ∧ Expired (t.retentionDays cfg pr) := by
  constructor
  · rintro ⟨c', hc', hid, hproject⟩
    rwa [t.checks.eq_of_key_eq Check.id (fun _ _ h => h.1) hc' hc hid] at hproject
  · exact fun hproject => ⟨c, hc, rfl, hproject⟩

/-- It expired by the days that this project keeps. -/
theorem overdue_iff_expired {c : Check} (hc : c ∈ t.checks.rows) {pr : RetainedProject}
    (hpr : pr ∈ t.projects.rows) (hid : pr.id = c.projectId) {Expired : ℕ → Prop} :
    t.Overdue cfg c.id Expired ↔ Expired (t.retentionDays cfg pr) := by
  rw [overdue_iff hc]
  constructor
  · rintro ⟨pr', hpr', hid', hexpired⟩
    rwa [t.projects.eq_of_key_eq RetainedProject.id (fun _ _ h => h) hpr' hpr
      (hid'.trans hid.symm)] at hexpired
  · exact fun hexpired => ⟨pr, hpr, hid, hexpired⟩

/-- What `doomed` finds for a row of a check: its id where it expired. -/
theorem doomedIds_eq {retention : List (Uuid × ℕ)} (checkId id : Uuid) (Expired : ℕ → Prop)
    [DecidablePred Expired]
    (h : retention = t.projects.rows.map fun pr => (pr.id, t.retentionDays cfg pr)) :
    t.doomedIds retention checkId id Expired =
      if t.Overdue cfg checkId Expired then [id] else [] := by
  unfold doomedIds
  rcases t.checks.filter_key_cases Check.id (fun _ _ h => h.1) checkId with
    hnone | ⟨c, hc, rfl, hone⟩
  · have hnot : ¬ t.Overdue cfg checkId Expired := fun ⟨c, hc, hid, _⟩ =>
      List.not_mem_nil (hnone ▸ List.mem_filter.mpr ⟨hc, decide_eq_true hid⟩)
    rw [hnone, if_neg hnot, List.flatMap_nil]
  · rw [hone, List.flatMap_singleton, h, List.filter_map, List.map_map]
    have hsplit : (t.projects.rows.filter
        ((fun r : Uuid × ℕ => decide (r.1 = c.projectId ∧ Expired r.2)) ∘
          fun pr => (pr.id, t.retentionDays cfg pr))) =
        (t.projects.rows.filter fun pr => pr.id = c.projectId).filter
          fun pr => Expired (t.retentionDays cfg pr) := by
      rw [List.filter_filter]
      refine List.filter_congr fun pr _ => ?_
      rw [Function.comp_apply, Bool.decide_and, Bool.and_comm]
    rw [hsplit]
    rcases t.projects.filter_key_cases RetainedProject.id (fun _ _ h => h) c.projectId with
      hnone | ⟨pr, hpr, hid, hproject⟩
    · have hnot : ¬ t.Overdue cfg c.id Expired := by
        rw [overdue_iff hc]
        rintro ⟨pr, hpr, hid, -⟩
        exact List.not_mem_nil (hnone ▸ List.mem_filter.mpr ⟨hpr, decide_eq_true hid⟩)
      rw [hnone, if_neg hnot]
      rfl
    · rw [hproject]
      by_cases hexpired : Expired (t.retentionDays cfg pr)
      · rw [if_pos ((overdue_iff_expired hc hpr hid).mpr hexpired),
          List.filter_cons_of_pos (by simpa using hexpired)]
        rfl
      · rw [if_neg fun h => hexpired ((overdue_iff_expired hc hpr hid).mp h),
          List.filter_cons_of_neg (by simpa using hexpired)]
        rfl

namespace SameHorizon

theorem refl (t : RetentionTables) : SameHorizon t t := ⟨rfl, rfl, rfl, rfl⟩

theorem trans {t s r : RetentionTables} (h : SameHorizon t s) (h' : SameHorizon s r) :
    SameHorizon t r where
  projects := h'.projects.trans h.projects
  members := h'.members.trans h.members
  users := h'.users.trans h.users
  checks := h'.checks.trans h.checks

theorem singleOwner (h : SameHorizon t s) (howner : t.SingleOwner) : s.SingleOwner := by
  unfold SingleOwner
  rw [h.projects, h.members]
  exact howner

theorem overdue_eq (h : SameHorizon t s) : s.Overdue cfg = t.Overdue cfg := by
  unfold Overdue retentionDays RetentionConfig.retentionDaysFor RetentionConfig.limitsForProject
    Database.ownerOf
  rw [h.projects, h.members, h.users, h.checks]

end SameHorizon

/-- **The rows that a batch takes.** What `doomed` finds among the rows of checks, before the
limit, are the keys of those that expired by the horizon. -/
theorem flatMap_doomedIds {Row : Type} {caps : List (List Char × ℕ)} (checkId id : Row → Uuid)
    (Expired : Row → ℕ → Prop) [∀ r, DecidablePred (Expired r)] (hsame : SameHorizon t s)
    (howner : t.SingleOwner) (hcaps : planCaps cfg.retentionCaps = some caps) (rows : List Row) :
    (rows.flatMap fun r => s.doomedIds (s.projectRetention caps cfg.pingRetentionDays) (checkId r)
      (id r) (Expired r)) =
      (rows.filter fun r => t.Overdue cfg (checkId r) (Expired r)).map id := by
  have hretention := projectRetention_eq (hsame.singleOwner howner) hcaps
  rw [← flatMap_ite_eq id fun r => t.Overdue cfg (checkId r) (Expired r)]
  refine List.flatMap_congr fun r _ => ?_
  rw [doomedIds_eq (checkId r) (id r) (Expired r) hretention]
  simp only [hsame.overdue_eq]

/-- **A batch of pings** deletes pings that expired, and nothing else. -/
theorem purgePingsSql_spec {caps : List (List Char × ℕ)} (hsame : SameHorizon t s)
    (howner : t.SingleOwner) (hcaps : planCaps cfg.retentionCaps = some caps)
    (limit : Limit purgeBatchSize ℕ) (now : ℤ) :
    ∃ s' count,
      purgePingsSql cfg.retentionCaps cfg.pingRetentionDays limit now s = some (s', count) ∧
        (SameHorizon t s' ∧ s'.incidents = s.incidents) ∧
        DeletesDue purgeBatchSize (t.PingExpired cfg now) s.pings.rows s'.pings.rows count := by
  unfold purgePingsSql
  rw [hcaps, Option.map_some]
  refine ⟨_, _, rfl, ⟨hsame.trans ⟨rfl, rfl, rfl, rfl⟩, rfl⟩, ?_⟩
  dsimp only
  exact deletesDue_of_limit limit Ping.id (t.PingExpired cfg now)
    (s.pings.nodup_map Ping.id fun _ _ h => h) (congrArg limit.pick
      (flatMap_doomedIds Ping.checkId Ping.id (ReceivedBefore now) hsame howner hcaps s.pings.rows))

/-- **A batch of incidents** deletes incidents that expired, with their deliveries. -/
theorem purgeIncidentsBatch_spec {caps : List (List Char × ℕ)} (hsame : SameHorizon t s)
    (howner : t.SingleOwner) (hcaps : planCaps cfg.retentionCaps = some caps)
    (limit : Limit purgeBatchSize Uuid) (now : ℤ) :
    ∃ s' count,
      purgeIncidentsBatch cfg.retentionCaps cfg.pingRetentionDays limit now s = some (s', count) ∧
        (SameHorizon t s' ∧ s'.pings = s.pings) ∧
        DeletesDue purgeBatchSize (t.IncidentExpired cfg now) s.incidents.rows s'.incidents.rows
          count := by
  unfold purgeIncidentsBatch
  rw [hcaps, Option.map_some]
  refine ⟨_, _, rfl, ⟨hsame.trans ⟨rfl, rfl, rfl, rfl⟩, rfl⟩, ?_⟩
  dsimp only
  exact deletesDue_of_limit limit Incident.id (t.IncidentExpired cfg now)
    (s.incidents.nodup_map Incident.id fun _ _ h => h.1) (congrArg limit.pick
      (flatMap_doomedIds Incident.checkId Incident.id (ResolvedBefore now) hsame howner hcaps
        s.incidents.rows))

/-- **The batches of a table** delete what expired at one of them. -/
theorem deletesExpired_of_batches {Row : Type} (Expired : ℕ → Row → Prop)
    [∀ b, DecidablePred (Expired b)] (rows : RetentionTables → List Row)
    (I : RetentionTables → Prop) {batch : ℕ → RetentionTables → Option (RetentionTables × ℕ)}
    (hbatch : ∀ b s, I s → ∃ s' count, batch b s = some (s', count) ∧ I s' ∧
      DeletesDue purgeBatchSize (Expired b) (rows s) (rows s') count) (hs : I s) :
    ∃ s' total, batches purgeBatchSize batch maxPurgeBatches 0 s = (s', some total) ∧ I s' ∧
      DeletesExpired Expired (rows s) (rows s') := by
  obtain ⟨s', total, hbatches, hs', ⟨removed, hperm, hlength, hdue⟩, hend⟩ :=
    batches_spec hbatch maxPurgeBatches 0 hs
  refine ⟨s', total, hbatches, hs', fun r hr => ?_, fun r hr hgone => ?_, fun hfew => ?_⟩
  · exact hperm.mem_iff.mpr (List.mem_append_left _ hr)
  · obtain hkept | hremoved := List.mem_append.mp (hperm.mem_iff.mp hr)
    · exact absurd hkept hgone
    · obtain ⟨b, -, hb, hexpired⟩ := hdue r hremoved
      exact ⟨b, by omega, hexpired⟩
  · obtain ⟨b, -, hb, hnone⟩ := not_due_of_batches hperm hlength hdue hend
      (fun r => decide (∃ b < maxPurgeBatches, Expired b r))
      (fun r b _ hb hexpired => decide_eq_true ⟨b, by omega, hexpired⟩) hfew
    exact ⟨b, by omega, hnone⟩

/-- **The purge**, where the database can read the plans. -/
theorem purgeLaw_of_planCaps {caps : List (List Char × ℕ)} (run : PurgeRun)
    (howner : t.SingleOwner) (hcaps : planCaps cfg.retentionCaps = some caps) :
    PurgeLaw cfg run t := by
  -- The pings go first; what the horizon is read from, and the incidents, they leave alone.
  obtain ⟨t₁, pings, hpings, ⟨hsame₁, hincidents₁⟩, hdeleted₁⟩ :=
    deletesExpired_of_batches (fun b => t.PingExpired cfg (run.pingsNow b))
      (fun s => s.pings.rows) (fun s => SameHorizon t s ∧ s.incidents = t.incidents)
      (fun b s hs => by
        obtain ⟨s', count, hbatch, ⟨hsame, hincidents⟩, hdeleted⟩ :=
          purgePingsSql_spec hs.1 howner hcaps (run.pingsLimit b) (run.pingsNow b)
        exact ⟨s', count, hbatch, ⟨hsame, hincidents.trans hs.2⟩, hdeleted⟩)
      ⟨SameHorizon.refl t, rfl⟩
  obtain ⟨t₂, incidents, hincidents, ⟨hsame₂, hpings₂⟩, hdeleted₂⟩ :=
    deletesExpired_of_batches (fun b => t.IncidentExpired cfg (run.incidentsNow b))
      (fun s => s.incidents.rows) (fun s => SameHorizon t s ∧ s.pings = t₁.pings)
      (fun b s hs => by
        obtain ⟨s', count, hbatch, ⟨hsame, hpings⟩, hdeleted⟩ :=
          purgeIncidentsBatch_spec hs.1 howner hcaps (run.incidentsLimit b) (run.incidentsNow b)
        exact ⟨s', count, hbatch, ⟨hsame, hpings.trans hs.2⟩, hdeleted⟩)
      ⟨hsame₁, rfl⟩
  have hpurge : (purge cfg run t).1 = (purgeDeliveries run.deliveriesNow t₂).1 := by
    unfold purge
    dsimp only
    rw [hpings]
    dsimp only
    rw [hincidents]
  have hfinalPings : (purge cfg run t).1.pings = t₁.pings := by
    rw [hpurge]
    exact hpings₂
  have hfinalIncidents : (purge cfg run t).1.incidents = t₂.incidents := by
    rw [hpurge]
    rfl
  have hlawIncidents : DeletesExpired (fun b => t.IncidentExpired cfg (run.incidentsNow b))
      t.incidents.rows (purge cfg run t).1.incidents.rows := by
    rw [hfinalIncidents, ← hincidents₁]
    exact hdeleted₂
  refine ⟨fun caps' hcaps' => projectRetention_eq howner hcaps', ?_, hlawIncidents,
    fun i hi hopen => ?_⟩
  · rw [hfinalPings]
    exact hdeleted₁
  · by_contra hgone
    obtain ⟨b, -, c, -, -, pr, -, -, resolvedAt, hresolved, -⟩ := hlawIncidents.expired i hi hgone
    rw [hopen] at hresolved
    nomatch hresolved

/-- A purge whose plans the database can not read changes nothing. -/
theorem purge_of_planCaps_none (run : PurgeRun) (h : planCaps cfg.retentionCaps = none) :
    (purge cfg run t).1 = t := by
  have hbatches : batches purgeBatchSize (fun b =>
      purgePingsSql cfg.retentionCaps cfg.pingRetentionDays (run.pingsLimit b) (run.pingsNow b))
      maxPurgeBatches 0 t = (t, none) := by
    unfold maxPurgeBatches batches purgePingsSql
    rw [h]
    rfl
  unfold purge
  dsimp only
  rw [hbatches]

end RetentionTables

/-- No plan extends what a project asks for. -/
theorem RetentionConfig.retentionDaysFor_le (cfg : RetentionConfig) (db : Database)
    (projectId : Uuid) (requested : ℕ) :
    cfg.retentionDaysFor db projectId requested ≤ requested := by
  unfold retentionDaysFor
  split
  · exact Nat.le_refl requested
  · exact min_le_left _ _

/-- Every plan that caps retention has a name that the database can hold. -/
def RetentionConfig.CapsAreTexts (cfg : RetentionConfig) : Prop :=
  cfg.quotasEnabled = true →
    ∀ entry ∈ cfg.planLimits, entry.2.retentionDays ≠ none → isText entry.1 = true
  deriving Decidable

/-- The caps are one value that the database can read if their names are texts. -/
theorem RetentionConfig.capsAreTexts_iff {cfg : RetentionConfig} :
    cfg.CapsAreTexts ↔ ∃ caps, planCaps cfg.retentionCaps = some caps := by
  have hread : (∃ caps, planCaps cfg.retentionCaps = some caps) ↔
      ∀ entry ∈ cfg.retentionCaps, isText entry.1 = true := by
    unfold planCaps
    rw [← List.all_eq_true]
    split
    · next hall => exact iff_of_true ⟨_, rfl⟩ hall
    · next hnot => exact iff_of_false (fun ⟨_, h⟩ => by cases h) hnot
  rw [hread]
  unfold CapsAreTexts retentionCaps
  split
  · next henabled =>
    refine ⟨fun h entry hentry => ?_, fun h _ entry hentry hdays => ?_⟩
    · obtain ⟨plan, hplan, hmap⟩ := List.mem_filterMap.mp hentry
      obtain ⟨days, hdays, rfl⟩ := Option.map_eq_some_iff.mp hmap
      exact h henabled plan hplan (by rw [hdays]; exact Option.some_ne_none days)
    · obtain ⟨days, hdays⟩ := Option.ne_none_iff_exists'.mp hdays
      exact h (entry.1, days) (List.mem_filterMap.mpr ⟨entry, hentry, by rw [hdays]; rfl⟩)
  · next hoff =>
    exact iff_of_true (fun henabled => absurd henabled hoff)
      fun entry hentry => absurd hentry List.not_mem_nil

namespace RetentionTables

/-- A project that keeps its history for the default number of days, with a check that was pinged
once. -/
def pingedOnce : RetentionTables where
  users := Table.empty
  members := Table.empty
  checks := ⟨[Database.plainCheck 10 1 30 0], List.pairwise_singleton _ _⟩
  pings := ⟨⟨[⟨1, 10, 0, .success, none, none, none, none, none⟩], List.pairwise_singleton _ _⟩, 2,
    by decide⟩
  incidents := SerialTable.empty
  channels := Table.empty
  deliveries := SerialTable.empty
  projects := ⟨[⟨1, none, nofun⟩], List.pairwise_singleton _ _⟩

/-- A purge whose statements all read one instant. -/
def purgeAt (now : ℤ) : PurgeRun where
  pingsNow _ := now
  incidentsNow _ := now
  deliveriesNow := now
  pingsLimit _ := Limit.first purgeBatchSize
  incidentsLimit _ := Limit.first purgeBatchSize

theorem singleOwner_pingedOnce : pingedOnce.SingleOwner := fun _ _ => Nat.zero_le 1

/-- Eleven years later the ping expired, whatever the default. -/
theorem pingExpired_pingedOnce {cfg : RetentionConfig} :
    ∀ p ∈ pingedOnce.pings.rows, pingedOnce.PingExpired cfg (4015 * oneDay) p := by
  intro p hp
  obtain rfl := List.mem_singleton.mp hp
  refine ⟨_, List.mem_singleton_self _, rfl, _, List.mem_singleton_self _, rfl, ?_⟩
  have hdays : pingedOnce.retentionDays cfg ⟨1, none, nofun⟩ ≤ cfg.pingRetentionDays :=
    cfg.retentionDaysFor_le _ _ _
  have hle := cfg.days_le
  unfold ReceivedBefore oneDay
  dsimp only
  omega

/-- A purge whose plans the database can not read leaves a ping that expired. -/
theorem not_purgeLaw_of_planCaps_none {cfg : RetentionConfig}
    (h : planCaps cfg.retentionCaps = none) :
    ¬ PurgeLaw cfg (purgeAt (4015 * oneDay)) pingedOnce := by
  intro hlaw
  have hfew : (pingedOnce.pings.rows.countP fun p => ∃ b < maxPurgeBatches,
      pingedOnce.PingExpired cfg ((purgeAt (4015 * oneDay)).pingsNow b) p) <
        maxPurgeBatches * purgeBatchSize := by
    refine lt_of_le_of_lt List.countP_le_length ?_
    decide
  obtain ⟨b, -, hnone⟩ := hlaw.pings.gone hfew
  rw [purge_of_planCaps_none _ h] at hnone
  exact hnone _ (List.mem_singleton_self _) (pingExpired_pingedOnce _ (List.mem_singleton_self _))

/-- **Retention.** A configuration deletes exactly what has expired, from every database whose
projects have single owners, if every plan that caps retention has a name that the database can
hold. Otherwise it deletes nothing at all. -/
theorem purgeLaw_iff (cfg : RetentionConfig) :
    ((∀ run t, t.SingleOwner → PurgeLaw cfg run t) ↔ cfg.CapsAreTexts) ∧
      (¬ cfg.CapsAreTexts → ∀ run t, (purge cfg run t).1 = t) := by
  have hnone : ¬ cfg.CapsAreTexts → planCaps cfg.retentionCaps = none := fun h =>
    Option.eq_none_iff_forall_ne_some.mpr fun caps hcaps =>
      h (RetentionConfig.capsAreTexts_iff.mpr ⟨caps, hcaps⟩)
  refine ⟨⟨fun hlaw => ?_, fun h run t howner => ?_⟩, fun h run t => ?_⟩
  · by_contra h
    exact not_purgeLaw_of_planCaps_none (hnone h) (hlaw _ _ singleOwner_pingedOnce)
  · obtain ⟨caps, hcaps⟩ := RetentionConfig.capsAreTexts_iff.mp h
    exact purgeLaw_of_planCaps run howner hcaps
  · exact purge_of_planCaps_none run (hnone h)

/-- Two plans, one of which has a name with a NUL, written `"x\u0000"`. -/
def nulPlan : RetentionConfig where
  quotasEnabled := true
  pingRetentionDays := 90
  planLimits := [(units "free".toList, ⟨none, none, none, some 7⟩),
    ([0x78, 0], ⟨none, none, none, some 90⟩)]
  names_nodup := by decide
  caps_le := by decide
  days_le := by decide

theorem not_purgeLaw_nulPlan :
    pingedOnce.SingleOwner ∧ ¬ PurgeLaw nulPlan (purgeAt (4015 * oneDay)) pingedOnce :=
  ⟨singleOwner_pingedOnce, not_purgeLaw_of_planCaps_none rfl⟩

end RetentionTables

end SilenceWatch
