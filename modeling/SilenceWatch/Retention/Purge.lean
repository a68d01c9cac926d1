import SilenceWatch.Library.Batches
import SilenceWatch.Library.CodePoints
import SilenceWatch.Quotas.Service
import SilenceWatch.Retention.Service

/-!
# The purge

How long a project keeps its history is computed twice: in SQL, over joins of the projects with
their owners and with the plans of the configuration, and by `QuotaService.retentionDaysFor`.
Here both are modelled, and the batches that delete what has expired. The statement takes the
plans as `jsonb`, which cannot hold every name that the configuration accepts.
-/

namespace SilenceWatch

open Json Relational

/-- `BATCH_SIZE`. -/
def purgeBatchSize : ℕ := 10000

/-- `MAX_BATCHES`. -/
def maxPurgeBatches : ℕ := 200

/-- The settings of the purge: the plans as they were parsed, by name. -/
structure RetentionConfig where
  quotasEnabled : Bool
  pingRetentionDays : ℕ
  planLimits : List (Units × PlanLimits)
  /-- The plans are the properties of an object. -/
  names_nodup : (planLimits.map Prod.fst).Nodup
  caps_le : ∀ entry ∈ planLimits, ∀ days ∈ entry.2.retentionDays, days ≤ 3650
  days_le : pingRetentionDays ≤ 3650

/-- A row of `project`, as far as the purge reads it. -/
structure RetainedProject where
  id : Uuid
  /-- Null falls back to the server-wide setting. -/
  pingRetentionDays : Option ℕ
  days_le : ∀ days ∈ pingRetentionDays, days ≤ 3650

/-- `project_pkey`. -/
def RetainedProject.Distinct (pr pr' : RetainedProject) : Prop := pr.id ≠ pr'.id

/-- The database with its projects. -/
structure RetentionTables extends Database where
  projects : Table RetainedProject RetainedProject.Distinct

/-- What the purge reports of pings, incidents and deliveries. -/
structure PurgeSummary where
  pings : ℕ
  incidents : ℕ
  deliveries : ℕ

/-- The instants that the statements of a purge read, and the rows that their limits take. -/
structure PurgeRun where
  pingsNow : ℕ → ℤ
  incidentsNow : ℕ → ℤ
  deliveriesNow : ℤ
  pingsLimit : ℕ → Limit purgeBatchSize ℕ
  incidentsLimit : ℕ → Limit purgeBatchSize Uuid

section Settings

variable (cfg : RetentionConfig)

/-- `retentionCapsJson`, before it is printed. -/
def RetentionConfig.retentionCaps : List (Units × ℕ) :=
  if cfg.quotasEnabled then
    cfg.planLimits.filterMap fun entry => entry.2.retentionDays.map fun days => (entry.1, days)
  else []

/-- `QuotaService.limitsFor`. -/
def RetentionConfig.limitsFor : Option String → PlanLimits
  | none => unlimited
  | some plan =>
    if cfg.quotasEnabled then (cfg.planLimits.lookup (units plan.toList)).getD unlimited
    else unlimited

/-- `QuotaService.limitsForProject`. -/
def RetentionConfig.limitsForProject (db : Database) (projectId : Uuid) : PlanLimits :=
  if cfg.quotasEnabled then cfg.limitsFor ((db.ownerOf projectId).bind User.plan) else unlimited

/-- `QuotaService.retentionDaysFor`. -/
def RetentionConfig.retentionDaysFor (db : Database) (projectId : Uuid) (requested : ℕ) : ℕ :=
  match (cfg.limitsForProject db projectId).retentionDays with
  | none => requested
  | some ceiling => min requested ceiling

end Settings

/-- A string that `text` can hold: no half of a pair stands alone, and there is no NUL. -/
def isText (string : Units) : Bool :=
  (codePoints string).all fun p =>
    match p with
    | .char c => c.toNat ≠ 0
    | .lone _ _ => false

/-- The characters of a string. -/
def charsOf (string : Units) : List Char :=
  (codePoints string).filterMap fun p =>
    match p with
    | .char c => some c
    | .lone _ _ => none

/-- `jsonb_each_text($3::jsonb)`, which fails where a name is no text. -/
def planCaps (caps : List (Units × ℕ)) : Option (List (List Char × ℕ)) :=
  if caps.all fun entry => isText entry.1 then
    some (caps.map fun entry => (charsOf entry.1, entry.2))
  else none

/-- The rows that a `LEFT JOIN` puts beside one. -/
def leftJoin {Row : Type} (rows : List Row) (on : Row → Prop) [DecidablePred on] :
    List (Option Row) :=
  match rows.filter on with
  | [] => [none]
  | r :: rest => (r :: rest).map some

namespace RetentionTables

variable (t : RetentionTables)

/-- `project_retention`. -/
def projectRetention (caps : List (List Char × ℕ)) (defaultDays : ℕ) : List (Uuid × ℕ) :=
  t.projects.rows.flatMap fun pr =>
    (leftJoin t.members.rows fun m => m.projectId = pr.id ∧ m.role = .owner).flatMap fun pm =>
      (leftJoin t.users.rows fun u => pm.map ProjectMember.userId = some u.id).flatMap fun u =>
        (leftJoin caps fun pc =>
          (u.bind User.plan).map String.toList = some pc.1).map fun pc =>
            (pr.id, min (pr.pingRetentionDays.getD defaultDays) ((pc.map Prod.snd).getD 2147483647))

/-- The ids that `doomed` finds for one row, which belongs to a check. -/
def doomedIds (retention : List (Uuid × ℕ)) (checkId id : Uuid) (Expired : ℕ → Prop)
    [DecidablePred Expired] : List Uuid :=
  (t.checks.rows.filter fun c => c.id = checkId).flatMap fun c =>
    (retention.filter fun r => r.1 = c.projectId ∧ Expired r.2).map fun _ => id

/-- `received_at < now() - make_interval(days => pr.days)`. -/
def ReceivedBefore (now : ℤ) (p : Ping) (days : ℕ) : Prop := p.receivedAt < now - days * oneDay
  deriving Decidable

/-- The same of `resolved_at`, which an open incident has not. -/
def ResolvedBefore (now : ℤ) (i : Incident) (days : ℕ) : Prop :=
  ∃ resolvedAt ∈ i.resolvedAt, resolvedAt < now - days * oneDay
  deriving Decidable

/-- `PURGE_PINGS_SQL`: one batch, with the number of rows deleted. -/
def purgePingsSql (caps : List (Units × ℕ)) (defaultDays : ℕ) (limit : Limit purgeBatchSize ℕ)
    (now : ℤ) (t : RetentionTables) : Option (RetentionTables × ℕ) :=
  (planCaps caps).map fun caps =>
    let retention := t.projectRetention caps defaultDays
    let doomed := limit.pick (t.pings.rows.flatMap fun p =>
      t.doomedIds retention p.checkId p.id (ReceivedBefore now p))
    ({ t with pings := t.pings.delete fun p => p.id ∈ doomed },
      t.pings.rows.countP fun p => p.id ∈ doomed)

/-- `PURGE_INCIDENTS_SQL`: one batch, with the number of incidents deleted. -/
def purgeIncidentsBatch (caps : List (Units × ℕ)) (defaultDays : ℕ)
    (limit : Limit purgeBatchSize Uuid)
    (now : ℤ) (t : RetentionTables) : Option (RetentionTables × ℕ) :=
  (planCaps caps).map fun caps =>
    let retention := t.projectRetention caps defaultDays
    let doomed := limit.pick (t.incidents.rows.flatMap fun i =>
      t.doomedIds retention i.checkId i.id (ResolvedBefore now i))
    ({ t with toDatabase := t.deleteIncidents doomed },
      t.incidents.rows.countP fun i => i.id ∈ doomed)

/-- `PURGE_DELIVERIES_SQL`, with the number of rows deleted. -/
def purgeDeliveries (now : ℤ) (t : RetentionTables) : RetentionTables × ℕ :=
  ({ t with toDatabase := purgeDeliveriesSql now t.toDatabase },
    t.deliveries.rows.countP fun d => d.Finished now)

/-- `purge`, of pings, incidents and deliveries. What fails is logged, and ends it. -/
def purge (cfg : RetentionConfig) (run : PurgeRun) (t : RetentionTables) :
    RetentionTables × PurgeSummary :=
  let caps := cfg.retentionCaps
  let (t, pings) := batches purgeBatchSize
    (fun batch => purgePingsSql caps cfg.pingRetentionDays (run.pingsLimit batch)
      (run.pingsNow batch))
    maxPurgeBatches 0 t
  match pings with
  | none => (t, ⟨0, 0, 0⟩)
  | some pings =>
    let (t, incidents) := batches purgeBatchSize
      (fun batch => purgeIncidentsBatch caps cfg.pingRetentionDays (run.incidentsLimit batch)
        (run.incidentsNow batch))
      maxPurgeBatches 0 t
    match incidents with
    | none => (t, ⟨pings, 0, 0⟩)
    | some incidents =>
      let (t, deliveries) := purgeDeliveries run.deliveriesNow t
      (t, ⟨pings, incidents, deliveries⟩)

end RetentionTables

section Settings

variable {cfg : RetentionConfig} {plan : String}

/-- A text is the code units of its characters. -/
theorem units_charsOf {string : Units} (h : isText string = true) :
    units (charsOf string) = string := by
  have hchars : ∀ points : List CodePoint,
      (points.all fun p => match p with | .char c => c.toNat ≠ 0 | .lone _ _ => false) = true →
        encode points =
          units (points.filterMap fun p =>
            match p with
            | .char c => some c
            | .lone _ _ => none) := by
    intro points hall
    induction points with
    | nil => rfl
    | cons p points ih =>
      rw [List.all_cons, Bool.and_eq_true] at hall
      cases p with
      | lone u h => cases hall.1
      | char c =>
        rw [encode_cons, ih hall.2]
        rfl
  have hthis := hchars (codePoints string) h
  rw [encode_codePoints] at hthis
  exact hthis.symm

/-- Looking up a plan by its characters is looking it up by its code units. -/
theorem find?_planCaps {caps : List (Units × ℕ)} {plans : List (List Char × ℕ)}
    (h : planCaps caps = some plans) (plan : String) :
    (plans.find? fun pc => some plan.toList = some pc.1).map Prod.snd =
      caps.lookup (units plan.toList) := by
  unfold planCaps at h
  split at h
  · next hall =>
    cases h
    induction caps with
    | nil => rfl
    | cons entry caps ih =>
      obtain ⟨name, days⟩ := entry
      rw [List.all_cons, Bool.and_eq_true] at hall
      have hname := units_charsOf hall.1
      rw [List.map_cons, List.find?_cons, List.lookup_cons]
      by_cases hsame : plan.toList = charsOf name
      · have hlookup : (units plan.toList == name) = true := by rw [hsame, hname, beq_self_eq_true]
        rw [decide_eq_true (congrArg some hsame), hlookup]
        rfl
      · have hlookup : (units plan.toList == name) = false := by
          refine beq_eq_false_iff_ne.mpr fun heq => hsame (units_injective ?_)
          rw [heq, hname]
        rw [decide_eq_false fun heq => hsame (Option.some.inj heq), hlookup]
        exact ih hall.2
  · cases h

/-- No two names that are texts have the same characters. -/
theorem nodup_planCaps {caps : List (Units × ℕ)} {plans : List (List Char × ℕ)}
    (h : planCaps caps = some plans) (hnodup : (caps.map Prod.fst).Nodup) :
    (plans.map Prod.fst).Nodup := by
  unfold planCaps at h
  split at h
  · next hall =>
    cases h
    have hback : (caps.map fun entry => (charsOf entry.1, entry.2)).map (fun pc => units pc.1) =
        caps.map Prod.fst := by
      rw [List.map_map]
      exact List.map_congr_left fun entry hentry =>
        units_charsOf (List.all_eq_true.mp hall entry hentry)
    rw [← hback] at hnodup
    refine List.Nodup.of_map units ?_
    rw [List.map_map]
    exact hnodup
  · cases h

/-- The ceilings by name are those of the plans. -/
theorem lookup_retentionCaps (henabled : cfg.quotasEnabled = true) (name : Units) :
    cfg.retentionCaps.lookup name = (cfg.planLimits.lookup name).bind PlanLimits.retentionDays := by
  have hlookup : ∀ plans : List (Units × PlanLimits), (plans.map Prod.fst).Nodup →
      (plans.filterMap fun entry => entry.2.retentionDays.map fun days => (entry.1, days)).lookup
        name = (plans.lookup name).bind PlanLimits.retentionDays := by
    intro plans hnodup
    induction plans with
    | nil => rfl
    | cons entry plans ih =>
      obtain ⟨first, limits⟩ := entry
      rw [List.map_cons, List.nodup_cons] at hnodup
      have hrest := ih hnodup.2
      rw [List.lookup_cons]
      by_cases hsame : name = first
      · -- No later plan has the name.
        have hbeq : (name == first) = true := beq_iff_eq.mpr hsame
        rw [hbeq]
        dsimp only
        have hlater : plans.lookup name = none := by
          refine List.lookup_eq_none_iff.mpr fun entry hentry => bne_iff_ne.mpr fun heq => ?_
          exact hnodup.1 (List.mem_map.mpr ⟨entry, hentry, heq.symm.trans hsame⟩)
        cases hdays : limits.retentionDays with
        | none =>
          rw [List.filterMap_cons_none (by rw [hdays]; rfl), hrest, hlater]
          exact hdays.symm
        | some days =>
          rw [List.filterMap_cons_some (by rw [hdays]; rfl), List.lookup_cons, hbeq]
          exact hdays.symm
      · have hbeq : (name == first) = false := beq_eq_false_iff_ne.mpr hsame
        rw [hbeq]
        cases hdays : limits.retentionDays with
        | none => rw [List.filterMap_cons_none (by rw [hdays]; rfl), hrest]
        | some days =>
          rw [List.filterMap_cons_some (by rw [hdays]; rfl), List.lookup_cons, hbeq]
          exact hrest
  unfold RetentionConfig.retentionCaps
  rw [if_pos henabled]
  exact hlookup _ cfg.names_nodup

theorem nodup_retentionCaps (cfg : RetentionConfig) : (cfg.retentionCaps.map Prod.fst).Nodup := by
  unfold RetentionConfig.retentionCaps
  split
  · have hfirst : (cfg.planLimits.filterMap fun entry =>
        entry.2.retentionDays.map fun days => (entry.1, days)).map Prod.fst =
        cfg.planLimits.filterMap fun entry => entry.2.retentionDays.map fun _ => entry.1 := by
      rw [List.map_filterMap]
      refine List.filterMap_congr fun entry _ => ?_
      rw [Option.map_map]
      rfl
    have hsublist : (cfg.planLimits.filterMap fun entry =>
        entry.2.retentionDays.map fun _ => entry.1).Sublist (cfg.planLimits.map Prod.fst) := by
      generalize cfg.planLimits = plans
      induction plans with
      | nil => exact List.Sublist.refl _
      | cons entry plans ih =>
        cases hdays : entry.2.retentionDays with
        | none =>
          rw [List.filterMap_cons_none (by rw [hdays]; rfl)]
          exact ih.cons _
        | some days =>
          rw [List.filterMap_cons_some (by rw [hdays]; rfl)]
          exact ih.cons_cons _
    rw [hfirst]
    exact hsublist.nodup cfg.names_nodup
  · exact List.nodup_nil

end Settings

section Joins

variable {Row : Type} {rows : List Row} {on : Row → Prop} [DecidablePred on]

/-- A join that finds at most one row puts it beside, or nothing. -/
theorem leftJoin_eq (h : (rows.filter on).length ≤ 1) :
    leftJoin rows on = [rows.find? fun r => on r] := by
  rw [← List.head?_filter]
  unfold leftJoin
  generalize rows.filter on = found at h ⊢
  match found with
  | [] => rfl
  | [r] => rfl
  | r :: r' :: rest => exact absurd h (by simp)

/-- A key that is unique is found at most once. -/
theorem length_filter_le_one {Key : Type} [DecidableEq Key] (key : Row → Key)
    (hnodup : (rows.map key).Nodup) (hon : ∀ r r', on r → on r' → key r = key r') :
    (rows.filter on).length ≤ 1 := by
  have hkeys : ((rows.filter on).map key).Nodup := (List.filter_sublist.map key).nodup hnodup
  have hmatch : ∀ r ∈ rows.filter on, on r :=
    fun r hr => of_decide_eq_true (List.mem_filter.mp hr).2
  generalize rows.filter on = found at hkeys hmatch ⊢
  match found with
  | [] => exact Nat.zero_le 1
  | [r] => exact Nat.le_refl 1
  | r :: r' :: rest =>
    have hsame := hon r r' (hmatch r List.mem_cons_self)
      (hmatch r' (List.mem_cons_of_mem _ List.mem_cons_self))
    rw [List.map_cons, List.map_cons, hsame] at hkeys
    exact absurd List.mem_cons_self (List.nodup_cons.mp hkeys).1

end Joins

namespace RetentionTables

variable {cfg : RetentionConfig} {t : RetentionTables} {caps : List (List Char × ℕ)}

/-- No project has two owners. -/
def SingleOwner (t : RetentionTables) : Prop :=
  ∀ pr ∈ t.projects.rows,
    (t.members.rows.filter fun m => m.projectId = pr.id ∧ m.role = .owner).length ≤ 1

/-- The days a project keeps its history, as `QuotaService` reports them for its own setting or
the default. -/
def retentionDays (cfg : RetentionConfig) (t : RetentionTables) (pr : RetainedProject) : ℕ :=
  cfg.retentionDaysFor t.toDatabase pr.id (pr.pingRetentionDays.getD cfg.pingRetentionDays)

theorem requested_le (cfg : RetentionConfig) (pr : RetainedProject) :
    pr.pingRetentionDays.getD cfg.pingRetentionDays ≤ 2147483647 := by
  have hdefault := cfg.days_le
  cases hdays : pr.pingRetentionDays with
  | none =>
    rw [Option.getD_none]
    omega
  | some days =>
    have hle := pr.days_le days hdays
    rw [Option.getD_some]
    omega

/-- The ceiling that the join finds for the plan of an owner, or for none. -/
theorem find?_caps (hcaps : planCaps cfg.retentionCaps = some caps) (plan : Option String) :
    (caps.find? fun pc => plan.map String.toList = some pc.1).map Prod.snd =
      (cfg.limitsFor plan).retentionDays := by
  cases plan with
  | none =>
    have hnone : (caps.find? fun pc =>
      (none : Option String).map String.toList = some pc.1) = none :=
      List.find?_eq_none.mpr fun pc _ h => by simp at h
    rw [hnone]
    rfl
  | some plan =>
    have hfind := find?_planCaps hcaps plan
    have hsame : (caps.find? fun pc => (some plan).map String.toList = some pc.1) =
        caps.find? fun pc => some plan.toList = some pc.1 := rfl
    rw [hsame, hfind]
    cases henabled : cfg.quotasEnabled with
    | true =>
      rw [lookup_retentionCaps henabled, RetentionConfig.limitsFor, if_pos henabled]
      cases cfg.planLimits.lookup (units plan.toList) with
      | none => rfl
      | some limits => rfl
    | false =>
      have hoff : ¬ cfg.quotasEnabled = true := by
        rw [henabled]
        exact Bool.false_ne_true
      rw [RetentionConfig.retentionCaps, if_neg hoff, RetentionConfig.limitsFor, if_neg hoff]
      rfl

/-- **The horizon.** With single owners, the joins find for each project the days that
`QuotaService.retentionDaysFor` reports. -/
theorem projectRetention_eq (howner : t.SingleOwner)
    (hcaps : planCaps cfg.retentionCaps = some caps) :
    t.projectRetention caps cfg.pingRetentionDays =
      t.projects.rows.map fun pr => (pr.id, t.retentionDays cfg pr) := by
  have husers : (t.users.rows.map User.id).Nodup := t.users.nodup_map User.id fun _ _ h => h.1
  have hplans := nodup_planCaps hcaps (nodup_retentionCaps cfg)
  unfold projectRetention
  rw [← List.flatMap_singleton' (t.projects.rows.map _), List.flatMap_map]
  refine List.flatMap_congr fun pr hpr => ?_
  rw [leftJoin_eq (howner pr hpr), List.flatMap_singleton]
  generalize hpm : (t.members.rows.find? fun m =>
    decide (m.projectId = pr.id ∧ m.role = .owner)) = pm
  have huser : (t.users.rows.filter fun u => pm.map ProjectMember.userId = some u.id).length ≤ 1 :=
    length_filter_le_one User.id husers fun u u' hu hu' => Option.some.inj (hu.symm.trans hu')
  rw [leftJoin_eq huser, List.flatMap_singleton]
  generalize hu : (t.users.rows.find? fun u => decide (pm.map ProjectMember.userId = some u.id)) = u
  have hplan : (caps.filter fun pc =>
    (u.bind User.plan).map String.toList = some pc.1).length ≤ 1 :=
    length_filter_le_one Prod.fst hplans fun pc pc' h h' => Option.some.inj (h.symm.trans h')
  have howned : t.ownerOf pr.id = u := by
    unfold Database.ownerOf
    rw [hpm, ← hu]
    cases pm with
    | none => exact (List.find?_eq_none.mpr fun u _ h => by simp at h).symm
    | some m =>
      rw [Option.bind_some]
      refine congrArg (fun p => t.users.rows.find? p) (funext fun u => ?_)
      exact decide_eq_decide.mpr ⟨fun h => congrArg some h.symm, fun h => (Option.some.inj h).symm⟩
  rw [leftJoin_eq hplan, List.map_singleton, find?_caps hcaps]
  have hlimits : cfg.limitsForProject t.toDatabase pr.id = cfg.limitsFor (u.bind User.plan) := by
    unfold RetentionConfig.limitsForProject
    rw [howned]
    split
    · rfl
    · next hoff =>
      cases u.bind User.plan with
      | none => rfl
      | some plan => rw [RetentionConfig.limitsFor, if_neg hoff]
  have hrequested := requested_le cfg pr
  unfold retentionDays RetentionConfig.retentionDaysFor
  rw [hlimits]
  cases (cfg.limitsFor (u.bind User.plan)).retentionDays with
  | none =>
    rw [Option.getD_none]
    dsimp only
    rw [min_eq_left hrequested]
  | some ceiling => rfl

end RetentionTables

end SilenceWatch
