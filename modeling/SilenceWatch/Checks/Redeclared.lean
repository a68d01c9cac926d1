import SilenceWatch.Checks.Declared

/-!
# Declaring the same checks again

An application syncs on every deployment. The second of two equal syncs finds every
accepted key declared and every absent one flagged, so it writes each row as it is; and
syncs of two environments meet in no row, so their order does not matter.
-/

namespace SilenceWatch

open Relational Transition

section Rows

variable {cron : CronParser} {syncSlug syncSlug' : SyncSlug} {now now' : ℤ}
  {environment : Option String} {counts : String → String → String}

/-- Two rows for one job, parsed at two instants: they differ in the deadline, and in what of
the slug does not count under the name. -/
structure SyncRow.SameJob (counts : String → String → String) (row row' : SyncRow) : Prop where
  key : row'.key = row.key
  name : row'.name = row.name
  slug : counts row.name row'.slug = counts row.name row.slug
  schedule : row'.schedule = row.schedule
  graceSeconds : row'.graceSeconds = row.graceSeconds
  tags : row'.tags = row.tags

/-- One job gives such rows. -/
theorem SyncCheck.toRow_sameJob {job : SyncCheck} {row row' : SyncRow}
    (hslug : counts job.name (syncSlug' job.name job.key environment) =
      counts job.name (syncSlug job.name job.key environment))
    (h : job.toRow cron syncSlug now environment = .ok row)
    (h' : job.toRow cron syncSlug' now' environment = .ok row') : row.SameJob counts row' := by
  unfold SyncCheck.toRow at h h'
  split at h
  · cases h
  · cases h
    split at h'
    · cases h'
    · cases h'
      exact ⟨rfl, rfl, hslug, rfl, rfl, rfl⟩

/-- One payload gives such rows, in one order. -/
theorem syncRows_sameJob {incoming : List SyncCheck} {rows rows' : List SyncRow}
    (hslug : ∀ job ∈ incoming, counts job.name (syncSlug' job.name job.key environment) =
      counts job.name (syncSlug job.name job.key environment))
    (h : syncRows cron syncSlug now environment [] incoming = .ok rows)
    (h' : syncRows cron syncSlug' now' environment [] incoming = .ok rows') :
    List.Forall₂ (SyncRow.SameJob counts) rows rows' := by
  obtain ⟨hall, -, -⟩ := syncRows_cases h
  obtain ⟨hall', -, -⟩ := syncRows_cases h'
  clear h h'
  induction hall generalizing rows' with
  | nil =>
    cases hall'
    exact List.Forall₂.nil
  | cons hrow _ ih =>
    cases hall' with
    | cons hrow' hrest' =>
      refine List.Forall₂.cons ?_ (ih (fun job hjob => ?_) hrest')
      · exact SyncCheck.toRow_sameJob (hslug _ List.mem_cons_self) hrow hrow'
      · exact hslug job (List.mem_cons_of_mem _ hjob)

/-- Every row of the one parse has its row in the other. -/
theorem exists_sameJob {rows rows' : List SyncRow}
    (h : List.Forall₂ (SyncRow.SameJob counts) rows rows') {row' : SyncRow} (hrow' : row' ∈ rows') :
    ∃ row ∈ rows, row.SameJob counts row' := by
  induction h with
  | nil => cases hrow'
  | cons hsame _ ih =>
    rcases List.mem_cons.mp hrow' with rfl | hrow'
    · exact ⟨_, List.mem_cons_self, hsame⟩
    · obtain ⟨row, hrow, hsame⟩ := ih hrow'
      exact ⟨row, List.mem_cons_of_mem _ hrow, hsame⟩

end Rows

section Quota

variable {quotas : QuotaConfig} {cron : CronParser} {syncSlug : SyncSlug} {now : ℤ}
  {projectId : Uuid} {request : SyncRequest} {generated : String → Uuid × Uuid}
  {db db' : Database} {result : SyncResult} {rows accepted : List SyncRow}

/-- Taking elements out of the first `n` and dropping as many fewer leaves the rest. -/
theorem drop_filter_notMem {α : Type} [DecidableEq α] {l taken : List α} {n : ℕ} (hl : l.Nodup)
    (htaken : taken.Nodup) (hsub : taken ⊆ l.take n) :
    (l.filter fun a => a ∉ taken).drop (n - taken.length) = l.drop n := by
  have hsplit : (l.take n ++ l.drop n).Nodup := by rwa [List.take_append_drop]
  have hrest : (l.drop n).filter (fun a => a ∉ taken) = l.drop n := by
    refine List.filter_eq_self.mpr fun a ha => ?_
    have hnot : a ∉ taken := fun h => (List.disjoint_of_nodup_append hsplit) (hsub h) ha
    simpa using hnot
  have hlength : ((l.take n).filter fun a => a ∉ taken).length =
      (l.take n).length - taken.length := by
    have hperm := (filter_notMem_append_perm (hsplit.of_append_left) htaken hsub).length_eq
    rw [List.length_append] at hperm
    omega
  conv_lhs => rw [← List.take_append_drop n l]
  rw [List.filter_append, hrest, List.drop_append, List.drop_eq_nil_of_le, List.nil_append]
  · rw [hlength, List.length_take]
    rcases Nat.le_total n l.length with hle | hle
    · rw [Nat.min_eq_left hle, Nat.sub_self, List.drop_zero]
    · rw [List.drop_eq_nil_of_le hle, List.drop_nil]
  · rw [hlength, List.length_take]
    omega

/-- The owner that the quota looks up owns the project. -/
theorem Database.owns_of_ownerOf {owner : User} (h : db.ownerOf projectId = some owner) :
    db.Owns owner.id projectId := by
  unfold Database.ownerOf at h
  obtain ⟨member, hmember, huser⟩ := Option.bind_eq_some_iff.mp h
  obtain ⟨hproject, hrole⟩ : member.projectId = projectId ∧ member.role = .owner := by
    simpa using List.find?_some hmember
  have hid : owner.id = member.userId := by simpa using List.find?_some huser
  exact ⟨member, List.mem_of_find?_eq_some hmember, hproject, hid.symm, hrole⟩

namespace Synced

variable (hs : Synced quotas cron syncSlug now projectId request generated db db' result
  rows accepted)

include hs

/-- The rows of the payload that a sync inserts. -/
theorem countOwnedChecks_eq {userId : Uuid} (howns : db.Owns userId projectId) :
    db'.countOwnedChecks userId = db.countOwnedChecks userId +
      (accepted.filter fun row =>
        ¬ DeclaredIn projectId request.environment row.key db.checks.rows).length := by
  have howns' : ∀ id, db'.Owns userId id ↔ db.Owns userId id := by
    intro id
    rw [hs.frame]
    rfl
  unfold Database.countOwnedChecks Database.ownedChecks
  simp only [howns', hs.table, List.filter_append, List.length_append]
  congr 1
  · rw [List.filter_map, List.length_map]
    congr 2
    funext c
    simp only [Function.comp_apply, c.synced_sameRow.1.projectId]
  · rw [List.filter_eq_self.mpr, List.length_map]
    intro c hc
    obtain ⟨row, _, rfl⟩ := List.mem_map.mp hc
    exact decide_eq_true howns

/-- The keys that exist after a sync: those before it and those it inserted. -/
theorem hasKey_iff {key : String} :
    db'.HasKey projectId request.environment key ↔
      db.HasKey projectId request.environment key ∨
        key ∈ (accepted.filter fun row =>
          ¬ DeclaredIn projectId request.environment row.key db.checks.rows).map SyncRow.key := by
  unfold Database.HasKey
  constructor
  · rintro ⟨c', hc', hproject, henvironment, hkey⟩
    rcases hs.mem_rows.mp hc' with ⟨c, hc, rfl⟩ | ⟨row, hrow, hnew, rfl⟩
    · rw [c.synced_sameRow.1.projectId] at hproject
      rw [c.synced_sameRow.2] at henvironment
      rw [c.synced_sameRow.1.key] at hkey
      exact Or.inl ⟨c, hc, hproject, henvironment, hkey⟩
    · right
      refine List.mem_map.mpr ⟨row, List.mem_filter.mpr ⟨hrow, by simpa using hnew⟩, ?_⟩
      exact Option.some.inj hkey
  · rintro (⟨c, hc, hproject, henvironment, hkey⟩ | hinserted)
    · refine ⟨_, hs.mem_rows.mpr (Or.inl ⟨c, hc, rfl⟩), ?_, ?_, ?_⟩
      · rw [c.synced_sameRow.1.projectId, hproject]
      · rw [c.synced_sameRow.2, henvironment]
      · rw [c.synced_sameRow.1.key, hkey]
    · obtain ⟨row, hrow, rfl⟩ := List.mem_map.mp hinserted
      obtain ⟨haccepted, hnew⟩ := List.mem_filter.mp hrow
      exact ⟨_, hs.mem_rows.mpr (Or.inr ⟨row, haccepted, by simpa using hnew, rfl⟩), rfl, rfl, rfl⟩

/-- **The quota holds back the same keys the second time.** -/
theorem beyondQuota_eq :
    request.beyondQuota quotas db' projectId = request.beyondQuota quotas db projectId := by
  have howner : db'.ownerOf projectId = db.ownerOf projectId := by
    rw [hs.frame]
    rfl
  have hskipped := hs.skipped_eq
  unfold SyncRequest.beyondQuota QuotaConfig.remainingChecks at hskipped ⊢
  rw [howner]
  cases hon : quotas.enabled with
  | false => rfl
  | true =>
    simp only [hon, Bool.not_true, Bool.false_eq_true, if_false] at hskipped ⊢
    cases hfound : db.ownerOf projectId with
    | none => rfl
    | some owner =>
      simp only [hfound] at hskipped ⊢
      cases hlimit : (quotas.limitsFor owner.plan).checks with
      | none => rfl
      | some limit =>
        simp only [hlimit] at hskipped ⊢
        rw [hs.countOwnedChecks_eq (Database.owns_of_ownerOf hfound)]
        set room := limit - db.countOwnedChecks owner.id with hroom
        set inserted := (accepted.filter fun row =>
          ¬ DeclaredIn projectId request.environment row.key db.checks.rows).map SyncRow.key
          with hinserted
        have hlength : inserted.length = (accepted.filter fun row =>
            ¬ DeclaredIn projectId request.environment row.key db.checks.rows).length :=
          List.length_map _
        have hnew : (request.keys.filter fun key => ¬ db'.HasKey projectId request.environment key)
            = (request.keys.filter fun key =>
                ¬ db.HasKey projectId request.environment key).filter fun key =>
                  key ∉ inserted := by
          rw [List.filter_filter]
          refine List.filter_congr fun key _ => ?_
          simp only [hs.hasKey_iff, not_or, Bool.decide_and]
          rw [Bool.and_comm]
        rw [hnew, ← hlength, ← Nat.sub_sub, ← hroom]
        refine drop_filter_notMem (hs.keys_nodup.filter _)
          (hs.accepted_nodup.sublist (List.filter_sublist.map _)) fun key hkey => ?_
        obtain ⟨row, hrow, rfl⟩ := List.mem_map.mp hkey
        obtain ⟨haccepted, hundeclared⟩ := List.mem_filter.mp hrow
        obtain ⟨hmem, hunskipped⟩ := hs.mem_accepted.mp haccepted
        have hcandidate : row.key ∈ request.keys.filter fun key =>
            ¬ db.HasKey projectId request.environment key := by
          refine List.mem_filter.mpr ⟨hs.keys_eq ▸ List.mem_map_of_mem hmem, ?_⟩
          have hmissing : ¬ db.HasKey projectId request.environment row.key := by
            rintro ⟨c, hc, hproject, henvironment, hkey⟩
            have hdeclared : DeclaredIn projectId request.environment row.key db.checks.rows :=
              ⟨c, hc, hproject, hkey, by rw [henvironment]⟩
            simp [hdeclared] at hundeclared
          simpa using hmissing
        rw [← List.take_append_drop room (request.keys.filter _)] at hcandidate
        rcases List.mem_append.mp hcandidate with hkept | hdropped
        · exact hkept
        · rw [hskipped] at hunskipped
          exact absurd hdropped hunskipped

end Synced

end Quota

section Again

variable {quotas : QuotaConfig} {cron : CronParser} {syncSlug syncSlug' : SyncSlug} {now now' : ℤ}
  {projectId : Uuid} {request : SyncRequest} {generated generated' : String → Uuid × Uuid}
  {db db' : Database} {result : SyncResult} {rows rows' accepted : List SyncRow}
  {counts : String → String → String}

/-- A check with what a row of a payload writes. -/
structure Check.Follows (c : Check) (row : SyncRow) : Prop where
  schedule : c.toSchedule = row.schedule
  name : c.name = row.name
  graceSeconds : c.graceSeconds = row.graceSeconds
  tags : c.tags = row.tags
  orphanedAt : c.orphanedAt = none

/-- Such a check is written as it is. -/
theorem Check.Follows.onConflict_eq {c : Check} {row : SyncRow} (h : c.Follows row) :
    row.onConflict c = c := by
  obtain ⟨hschedule, hname, hgrace, htags, horphaned⟩ := h
  cases c
  simp only [SyncRow.onConflict, ← hschedule, ← hname, ← hgrace, ← htags, ← horphaned, ne_eq,
    not_true_eq_false, if_false]

theorem Check.Follows.sameJob {c : Check} {row row' : SyncRow} (h : c.Follows row)
    (hsame : row.SameJob counts row') : c.Follows row' where
  schedule := h.schedule.trans hsame.schedule.symm
  name := h.name.trans hsame.name.symm
  graceSeconds := h.graceSeconds.trans hsame.graceSeconds.symm
  tags := h.tags.trans hsame.tags.symm
  orphanedAt := h.orphanedAt

/-- An upsert whose rows are all declared inserts nothing, so no index refuses it. -/
theorem upsertRows_declared {environment : Option String} {checks : Table Check Check.Distinct}
    (h : ∀ row ∈ rows, DeclaredIn projectId environment row.key checks.rows) :
    ∃ checks' upserted,
      upsertRows projectId environment generated now checks rows = some (checks', upserted) := by
  induction rows generalizing checks with
  | nil => exact ⟨checks, [], rfl⟩
  | cons row rest ih =>
    obtain ⟨c, hc, hdeclared⟩ := h row List.mem_cons_self
    have hfirst : upsertRow projectId environment generated now checks row =
        some (checks.update (Check.DeclaredAs projectId environment row.key) row.onConflict
          row.onConflict_keepsDistinct, ⟨c.id, row.key, c.pingKey, false⟩) := by
      unfold upsertRow
      rw [find?_declaredAs hc hdeclared]
    have hothers : ∀ other ∈ rest, DeclaredIn projectId environment other.key
        (checks.update (Check.DeclaredAs projectId environment row.key) row.onConflict
          row.onConflict_keepsDistinct).rows := by
      intro other hother
      rw [Table.update_rows, declaredIn_map_updateRow]
      exact h other (List.mem_cons_of_mem _ hother)
    obtain ⟨checks', upserted, hrest⟩ := ih hothers
    refine ⟨checks', ⟨c.id, row.key, c.pingKey, false⟩ :: upserted, ?_⟩
    unfold upsertRows
    rw [hfirst]
    simp only [hrest, Option.map_some]

namespace Synced

variable (hs : Synced quotas cron syncSlug now projectId request generated db db' result
  rows accepted)

include hs

/-- After a sync every accepted row is declared, and its check has what it writes. -/
theorem follows {row : SyncRow} (hrow : row ∈ accepted) :
    ∃ c ∈ db'.checks.rows, c.DeclaredAs projectId request.environment row.key ∧ c.Follows row := by
  by_cases hdeclared : DeclaredIn projectId request.environment row.key db.checks.rows
  · obtain ⟨c, hc, hdeclared⟩ := hdeclared
    refine ⟨_, hs.mem_rows.mpr (Or.inl ⟨c, hc, rfl⟩), ?_⟩
    have hkept : (row.onConflict c).key = some row.key := hdeclared.2.1
    have hnamed : row.key ∈ request.keys :=
      hs.keys_eq ▸ List.mem_map_of_mem (hs.mem_accepted.mp hrow).1
    rw [Check.synced, Check.upserted_of_declared hs.accepted_nodup hrow hdeclared,
      Check.flagged_of_named hkept hnamed]
    exact ⟨hdeclared, rfl, rfl, rfl, rfl, rfl⟩
  · refine ⟨_, hs.mem_rows.mpr (Or.inr ⟨row, hrow, hdeclared, rfl⟩), ?_⟩
    exact ⟨SyncRow.inserted_declaredAs.mpr rfl, rfl, rfl, rfl, rfl, rfl⟩

/-- What a sync was asked to flag is flagged. -/
theorem not_orphaned {c : Check} (hc : c ∈ db'.checks.rows) (hprune : request.prune = true) :
    ¬ c.Orphaned projectId request.environment request.keys := by
  rcases hs.mem_rows.mp hc with ⟨c, _, rfl⟩ | ⟨row, hrow, _, rfl⟩
  · unfold Check.synced Check.flagged
    split
    · rintro ⟨_, _, hnone, _⟩
      cases hnone
    · next h => exact fun hflagged => h ⟨hprune, hflagged⟩
  · have hnamed : row.key ∈ request.keys :=
      hs.keys_eq ▸ List.mem_map_of_mem (hs.mem_accepted.mp hrow).1
    have hkey : (row.inserted projectId request.environment generated now).key =
        some row.key := rfl
    exact Check.not_orphaned_of_named hkey hnamed

/-- **The second of two equal syncs goes through and changes nothing.** -/
theorem again
    (hparsed : syncRows cron syncSlug' now' request.environment [] request.checks = .ok rows') :
    ∃ result', syncWithinQuota quotas cron syncSlug' now' projectId request generated' db' =
        .ok (db', result') ∧
      (∀ upserted ∈ result'.checks, upserted.created = false) ∧ result'.orphaned = [] ∧
      result'.skipped = result.skipped := by
  have hskipped : applyCheckQuota quotas db' projectId rows' request.environment =
      result.skipped := by
    rw [applyCheckQuota_eq (syncRows_keys hparsed), hs.beyondQuota_eq, hs.skipped_eq]
  -- which slugs the second call gives does not matter
  have hjobs : List.Forall₂ (SyncRow.SameJob fun _ _ => "") rows rows' :=
    syncRows_sameJob (fun _ _ => rfl) hs.parsed hparsed
  -- each accepted row of the second parse has its row in the first
  have hfirst : ∀ row' ∈ rows', row'.key ∉ result.skipped →
      ∃ row ∈ accepted, row.SameJob (fun _ _ => "") row' := by
    intro row' hrow' hunskipped
    obtain ⟨row, hrow, hsame⟩ := exists_sameJob hjobs hrow'
    exact ⟨row, hs.mem_accepted.mpr ⟨hrow, hsame.key ▸ hunskipped⟩, hsame⟩
  have hfollows : ∀ row' ∈ rows', row'.key ∉ result.skipped → ∃ c ∈ db'.checks.rows,
      c.DeclaredAs projectId request.environment row'.key ∧ c.Follows row' := by
    intro row' hrow' hunskipped
    obtain ⟨row, hrow, hsame⟩ := hfirst row' hrow' hunskipped
    obtain ⟨c, hc, hdeclared, hfollows⟩ := hs.follows hrow
    exact ⟨c, hc, hsame.key ▸ hdeclared, hfollows.sameJob hsame⟩
  obtain ⟨checks', upserted, hupsert⟩ : ∃ checks' upserted, upsertRows projectId
      request.environment generated' now' db'.checks
        (rows'.filter fun row => row.key ∉ result.skipped) = some (checks', upserted) := by
    refine upsertRows_declared fun row' hrow' => ?_
    obtain ⟨hmem, hunskipped⟩ := List.mem_filter.mp hrow'
    obtain ⟨c, hc, hdeclared, _⟩ := hfollows row' hmem (by simpa using hunskipped)
    exact ⟨c, hc, hdeclared⟩
  obtain ⟨⟨db'', result'⟩, hok⟩ : ∃ r, syncWithinQuota quotas cron syncSlug' now' projectId
      request generated' db' = .ok r := by
    unfold syncWithinQuota
    simp only [hparsed, hskipped, hupsert, Bind.bind, Except.bind]
    exact ⟨_, rfl⟩
  obtain ⟨rows'', accepted', hs'⟩ := syncWithinQuota_synced hok
  obtain rfl : rows' = rows'' := Except.ok.inj (hparsed.symm.trans hs'.parsed)
  have hskipped' : result'.skipped = result.skipped := hs'.skipped.trans hskipped
  have hupserted : ∀ c ∈ db'.checks.rows,
      c.upserted projectId request.environment accepted' = c := by
    intro c hc
    by_cases hdeclared : ∃ row' ∈ accepted', c.DeclaredAs projectId request.environment row'.key
    · obtain ⟨row', hrow', hdeclared⟩ := hdeclared
      obtain ⟨hmem, hunskipped⟩ := hs'.mem_accepted.mp hrow'
      obtain ⟨c', hc', hdeclared', hfollows⟩ := hfollows row' hmem (hskipped' ▸ hunskipped)
      obtain rfl : c = c' := eq_of_declaredAs hc hc' hdeclared hdeclared'
      rw [Check.upserted_of_declared hs'.accepted_nodup hrow' hdeclared, hfollows.onConflict_eq]
    · exact Check.upserted_of_not_declared fun row' hrow' h => hdeclared ⟨row', hrow', h⟩
  have hrows : db''.checks.rows = db'.checks.rows := by
    have hinserted : (accepted'.filter fun row' =>
        ¬ DeclaredIn projectId request.environment row'.key db'.checks.rows) = [] := by
      refine List.filter_eq_nil_iff.mpr fun row' hrow' => ?_
      obtain ⟨hmem, hunskipped⟩ := hs'.mem_accepted.mp hrow'
      obtain ⟨c, hc, hdeclared, _⟩ := hfollows row' hmem (hskipped' ▸ hunskipped)
      have hin : DeclaredIn projectId request.environment row'.key db'.checks.rows :=
        ⟨c, hc, hdeclared⟩
      simpa using hin
    rw [hs'.table, hinserted, List.map_nil, List.append_nil]
    refine (List.map_congr_left fun c hc => ?_).trans (List.map_id _)
    rw [Check.synced, hupserted c hc]
    exact if_neg fun h => hs.not_orphaned hc h.1 h.2
  have hdb : db'' = db' := by
    rw [hs'.frame, Table.eq_of_rows_eq hrows]
  subst hdb
  refine ⟨result', hok, ?_, ?_, hskipped'⟩
  · intro upserted hmem
    rw [hs'.returned] at hmem
    obtain ⟨row', hrow', rfl⟩ := List.mem_map.mp hmem
    obtain ⟨hmem, hunskipped⟩ := hs'.mem_accepted.mp hrow'
    obtain ⟨c, hc, hdeclared, _⟩ := hfollows row' hmem (hskipped' ▸ hunskipped)
    unfold SyncRow.upsertedCheck
    rw [find?_declaredAs hc hdeclared]
  · rw [hs'.orphaned, List.filter_eq_nil_iff.mpr, List.filterMap_nil]
    intro c' hc' hflagged
    obtain ⟨c, hc, rfl⟩ := List.mem_map.mp hc'
    rw [hupserted c hc] at hflagged
    have h := of_decide_eq_true hflagged
    exact hs.not_orphaned hc h.1 h.2

end Synced

end Again

section Environments

variable {now now' : ℤ} {projectId : Uuid} {request : SyncRequest}
  {generated generated' : String → Uuid × Uuid} {rows rows' : List SyncRow}
  {counts : String → String → String}

/-- A check without what is generated for it and what the clock decides, and with what of its
slug counts under its name. -/
def Check.timeless (counts : String → String → String) (c : Check) : Check :=
  { c with
    id := 0
    slug := counts c.name c.slug
    pingKey := 0
    createdAt := 0
    nextDueAt := c.nextDueAt.map fun _ => 0
    orphanedAt := c.orphanedAt.map fun _ => 0 }

/-- A sync of one environment leaves the checks of another alone. -/
theorem Check.synced_of_other {c : Check}
    (h : c.environment.getD "" ≠ request.environment.getD "") :
    c.synced now projectId request rows = c := by
  have hupserted : c.upserted projectId request.environment rows = c :=
    Check.upserted_of_not_declared fun row _ hdeclared => h hdeclared.2.2
  rw [Check.synced, hupserted]
  refine if_neg fun hflagged => h ?_
  rw [hflagged.2.2.2.2.1]

theorem SyncRow.onConflict_timeless {row row' : SyncRow} (h : row.SameJob counts row') (c : Check) :
    (row.onConflict c).timeless counts = (row'.onConflict c).timeless counts := by
  unfold SyncRow.onConflict Check.timeless
  rw [h.name, h.schedule, h.graceSeconds, h.tags]
  split <;> rfl

/-- What a payload makes of a check does not depend on the instant, up to timestamps. -/
theorem Check.upserted_timeless {environment : Option String}
    (h : List.Forall₂ (SyncRow.SameJob counts) rows rows') (c : Check) :
    (c.upserted projectId environment rows).timeless counts =
      (c.upserted projectId environment rows').timeless counts := by
  induction h with
  | nil => rfl
  | @cons row row' _ _ hsame _ ih =>
    unfold Check.upserted at ih ⊢
    by_cases hdeclared : c.DeclaredAs projectId environment row.key
    · have hdeclared' : c.DeclaredAs projectId environment row'.key := by rwa [hsame.key]
      rw [List.find?_cons_of_pos (by simpa using hdeclared),
        List.find?_cons_of_pos (by simpa using hdeclared')]
      exact SyncRow.onConflict_timeless hsame c
    · have hdeclared' : ¬ c.DeclaredAs projectId environment row'.key := by rwa [hsame.key]
      rw [List.find?_cons_of_neg (by simpa using hdeclared),
        List.find?_cons_of_neg (by simpa using hdeclared')]
      exact ih

theorem Check.flagged_timeless {environment : Option String} {prune : Bool} {keys : List String}
    {c c' : Check} (h : c.timeless counts = c'.timeless counts) :
    (c.flagged prune now projectId environment keys).timeless counts =
      (c'.flagged prune now' projectId environment keys).timeless counts := by
  have hproject : c.projectId = c'.projectId := (congrArg Check.projectId h :)
  have hsource : c.source = c'.source := (congrArg Check.source h :)
  have henvironment : c.environment = c'.environment := (congrArg Check.environment h :)
  have hkey : c.key = c'.key := (congrArg Check.key h :)
  have horphaned : c.orphanedAt = none ↔ c'.orphanedAt = none := by
    have hmap : c.orphanedAt.map (fun _ => (0 : ℤ)) = c'.orphanedAt.map fun _ => 0 :=
      (congrArg Check.orphanedAt h :)
    rw [← Option.map_eq_none_iff (f := fun _ => (0 : ℤ)), hmap, Option.map_eq_none_iff]
  have hiff : c.Orphaned projectId environment keys ↔ c'.Orphaned projectId environment keys := by
    unfold Check.Orphaned
    rw [hproject, hsource, henvironment, hkey, horphaned]
  unfold Check.flagged
  by_cases hflag : prune ∧ c.Orphaned projectId environment keys
  · rw [if_pos hflag, if_pos ⟨hflag.1, hiff.mp hflag.2⟩]
    exact (congrArg (fun d : Check => { d with orphanedAt := some 0 }) h :)
  · rw [if_neg hflag, if_neg fun h => hflag ⟨h.1, hiff.mpr h.2⟩]
    exact h

theorem Check.synced_timeless (h : List.Forall₂ (SyncRow.SameJob counts) rows rows') (c : Check) :
    (c.synced now projectId request rows).timeless counts =
      (c.synced now' projectId request rows').timeless counts :=
  Check.flagged_timeless (Check.upserted_timeless h c)

/-- What a payload inserts does not depend on the instant, up to timestamps. -/
theorem inserted_timeless {environment : Option String} {checks checks' : List Check}
    (h : List.Forall₂ (SyncRow.SameJob counts) rows rows')
    (hdeclared : ∀ key, DeclaredIn projectId environment key checks ↔
      DeclaredIn projectId environment key checks') :
    ((rows.filter fun row => ¬ DeclaredIn projectId environment row.key checks).map
        (SyncRow.inserted projectId environment generated now)).map (Check.timeless counts) =
      ((rows'.filter fun row => ¬ DeclaredIn projectId environment row.key checks').map
        (SyncRow.inserted projectId environment generated' now')).map (Check.timeless counts) := by
  induction h with
  | nil => rfl
  | @cons row row' _ _ hsame _ ih =>
    have hrow : (row.inserted projectId environment generated now).timeless counts =
        (row'.inserted projectId environment generated' now').timeless counts := by
      simp only [SyncRow.inserted, SyncRow.toCheck, Check.timeless, hsame.key, hsame.name,
        hsame.slug, hsame.schedule, hsame.graceSeconds, hsame.tags, Option.map_some]
    have hiff : DeclaredIn projectId environment row.key checks ↔
        DeclaredIn projectId environment row'.key checks' := by
      rw [hsame.key]
      exact hdeclared row.key
    by_cases hin : DeclaredIn projectId environment row.key checks
    · have hin' := hiff.mp hin
      rw [List.filter_cons_of_neg (by simpa using hin),
        List.filter_cons_of_neg (by simpa using hin')]
      exact ih
    · have hin' := fun h => hin (hiff.mpr h)
      rw [List.filter_cons_of_pos (by simpa using hin),
        List.filter_cons_of_pos (by simpa using hin')]
      simp only [List.map_cons, hrow, ih]

end Environments

section Orders

variable {quotas : QuotaConfig} {cron : CronParser} {syncSlug syncSlug' : SyncSlug} {now now' : ℤ}
  {projectId : Uuid} {request request' : SyncRequest} {generated generated' : String → Uuid × Uuid}
  {db db' db'' : Database} {result result' : SyncResult}

/-- The state of a check is kept, and its deadline too, unless its schedule or its time
zone is another one: then it is the deadline of the new schedule from `now` on. -/
def Check.Redated (cron : CronParser) (now : ℤ) (c c' : Check) : Prop :=
  c'.state = c.state ∧
    ((c'.toSchedule = c.toSchedule ∧ c'.nextDueAt = c.nextDueAt) ∨
      (c'.toSchedule ≠ c.toSchedule ∧
        ∃ due, computeNextDueAt cron c'.toSchedule now = .ok due ∧ c'.nextDueAt = some due))

/-- A sync within its quota that follows a sync of another environment: every row in
terms of the database before both. -/
theorem Synced.afterOther {rows rows' accepted accepted' : List SyncRow}
    (hs : Synced quotas cron syncSlug now projectId request generated db db' result rows accepted)
    (hs' : Synced quotas cron syncSlug' now' projectId request' generated' db' db'' result' rows'
      accepted')
    (hother : request.environment.getD "" ≠ request'.environment.getD "")
    (hroom : result.skipped = []) (hroom' : result'.skipped = []) :
    db''.checks.rows =
      db.checks.rows.map (fun c => (c.synced now projectId request rows).synced now' projectId
          request' rows') ++
        (rows.filter fun row =>
          ¬ DeclaredIn projectId request.environment row.key db.checks.rows).map
            (SyncRow.inserted projectId request.environment generated now) ++
        (rows'.filter fun row =>
          ¬ DeclaredIn projectId request'.environment row.key db.checks.rows).map
            (SyncRow.inserted projectId request'.environment generated' now') := by
  have haccepted : accepted = rows := by
    rw [hs.kept, hroom]
    simp
  have haccepted' : accepted' = rows' := by
    rw [hs'.kept, hroom']
    simp
  subst haccepted haccepted'
  rw [hs'.table, hs.table, List.map_append, List.map_map]
  congr 2
  · rw [List.map_map]
    exact List.map_congr_left fun row _ => Check.synced_of_other hother
  · refine List.filter_congr fun row _ => ?_
    have hiff : DeclaredIn projectId request'.environment row.key db'.checks.rows ↔
        DeclaredIn projectId request'.environment row.key db.checks.rows := by
      unfold DeclaredIn
      constructor
      · rintro ⟨c', hc', hdeclared⟩
        rcases hs.mem_rows.mp hc' with ⟨c, hc, rfl⟩ | ⟨new, _, _, rfl⟩
        · obtain ⟨hproject, hkey, henvironment⟩ := hdeclared
          rw [c.synced_sameRow.1.projectId] at hproject
          rw [c.synced_sameRow.1.key] at hkey
          rw [c.synced_sameRow.2] at henvironment
          exact ⟨c, hc, hproject, hkey, henvironment⟩
        · exact absurd hdeclared.2.2 hother
      · rintro ⟨c, hc, hproject, hkey, henvironment⟩
        refine ⟨_, hs.mem_rows.mpr (Or.inl ⟨c, hc, rfl⟩), ?_, ?_, ?_⟩
        · rw [c.synced_sameRow.1.projectId, hproject]
        · rw [c.synced_sameRow.1.key, hkey]
        · rw [c.synced_sameRow.2, henvironment]
    rw [← hs.table]
    simp only [hiff]

/-- What a sync makes of an existing check: its deadline is computed anew exactly where
its schedule or its time zone is another one. -/
theorem Synced.deadline {rows accepted : List SyncRow}
    (hs : Synced quotas cron syncSlug now projectId request generated db db' result rows accepted)
    (c : Check) :
    c.Redated cron now (c.synced now projectId request accepted) := by
  have hflagged (c : Check) :
      (c.flagged request.prune now projectId request.environment request.keys).state = c.state ∧
        (c.flagged request.prune now projectId request.environment request.keys).toSchedule =
          c.toSchedule ∧
        (c.flagged request.prune now projectId request.environment request.keys).nextDueAt =
          c.nextDueAt := by
    unfold Check.flagged
    split <;> exact ⟨rfl, rfl, rfl⟩
  obtain ⟨hstate, hschedule, hdue⟩ := hflagged (c.upserted projectId request.environment accepted)
  unfold Check.Redated Check.synced
  rw [hstate, hschedule, hdue]
  unfold Check.upserted
  split
  · next row hfind =>
    have hrow : row ∈ rows := (hs.mem_accepted.mp (List.mem_of_find?_eq_some hfind)).1
    refine ⟨rfl, ?_⟩
    by_cases hsame : c.toSchedule = row.schedule
    · exact Or.inl ⟨hsame.symm, if_neg (not_not.mpr hsame)⟩
    · exact Or.inr ⟨fun h => hsame h.symm, row.nextDueAt, syncRows_deadline hs.parsed row hrow,
        if_pos hsame⟩
  · exact ⟨rfl, Or.inl ⟨rfl, rfl⟩⟩

/-- A sync as it is called: when, with what, with the slugs it gives (their roots are
random where a name folds to nothing), and what the database generates for it. -/
structure SyncCall where
  now : ℤ
  request : SyncRequest
  syncSlug : SyncSlug
  generated : String → Uuid × Uuid

/-- Two syncs of a project, one after the other, both successful and within the quota. -/
def SyncedBoth (quotas : QuotaConfig) (cron : CronParser) (projectId : Uuid)
    (first second : SyncCall) (db db'' : Database) : Prop :=
  ∃ db' result result',
    syncWithinQuota quotas cron first.syncSlug first.now projectId first.request first.generated
        db = .ok (db', result) ∧
      syncWithinQuota quotas cron second.syncSlug second.now projectId second.request
        second.generated db' = .ok (db'', result') ∧
      result.skipped = [] ∧ result'.skipped = []

/-- The same payload at two calls, which agree for each job on what of its slug counts. -/
structure SyncCall.SameRequest (counts : String → String → String) (call call' : SyncCall) :
    Prop where
  request : call'.request = call.request
  slug : ∀ job ∈ call.request.checks,
    counts job.name (call'.syncSlug job.name job.key call.request.environment) =
      counts job.name (call.syncSlug job.name job.key call.request.environment)

/-- Two databases that came from one: their checks are the same up to what is generated
and timed, the checks they came from kept their ids and keys, and nothing else changed. -/
structure SameChecks (counts : String → String → String) (db db' db'' : Database) : Prop where
  perm : (db'.checks.rows.map (Check.timeless counts)).Perm
    (db''.checks.rows.map (Check.timeless counts))
  kept : ∀ c ∈ db.checks.rows, ∃ c' ∈ db'.checks.rows, ∃ c'' ∈ db''.checks.rows,
    c.SameRow c' ∧ c.SameRow c'' ∧ c'.pingKey = c.pingKey ∧ c''.pingKey = c.pingKey ∧
      c'.timeless counts = c''.timeless counts
  frame : db' = { db with checks := db'.checks } ∧ db'' = { db with checks := db''.checks }

/-- **Syncs of two environments commute.** -/
theorem SyncedBoth.sameChecks {counts : String → String → String}
    {first second first' second' : SyncCall} {swapped : Database} (hfirst : first.SameRequest counts first')
    (hsecond : second.SameRequest counts second')
    (henvironment : first.request.environment.getD "" ≠ second.request.environment.getD "")
    (h : SyncedBoth quotas cron projectId first second db db'')
    (h' : SyncedBoth quotas cron projectId second' first' db swapped) :
    SameChecks counts db db'' swapped := by
  obtain ⟨_, _, _, hone, htwo, hroom, hroom'⟩ := h
  obtain ⟨_, _, _, hone', htwo', hroomS, hroomS'⟩ := h'
  rw [hsecond.request] at hone'
  rw [hfirst.request] at htwo'
  obtain ⟨rows, accepted, hs⟩ := syncWithinQuota_synced hone
  obtain ⟨rows', accepted', hs'⟩ := syncWithinQuota_synced htwo
  obtain ⟨swappedRows, kept, ht⟩ := syncWithinQuota_synced hone'
  obtain ⟨swappedRows', kept', ht'⟩ := syncWithinQuota_synced htwo'
  have htable := hs.afterOther hs' henvironment hroom hroom'
  have htable' := ht.afterOther ht' henvironment.symm hroomS hroomS'
  have hjobs := syncRows_sameJob hfirst.slug hs.parsed ht'.parsed
  have hjobs' := syncRows_sameJob hsecond.slug hs'.parsed ht.parsed
  -- a check of one environment meets one of the two syncs only, and keeps its slug in it
  have hrows : ∀ c : Check,
      ((c.synced first.now projectId first.request rows).synced second.now projectId
          second.request rows').timeless counts =
        ((c.synced second'.now projectId second.request swappedRows).synced first'.now projectId
          first.request swappedRows').timeless counts := by
    intro c
    by_cases hc : c.environment.getD "" = first.request.environment.getD ""
    · have hother : c.environment.getD "" ≠ second.request.environment.getD "" :=
        fun h => henvironment (hc.symm.trans h)
      rw [Check.synced_of_other (c := c) hother, Check.synced_of_other]
      · exact Check.synced_timeless hjobs c
      · rwa [c.synced_sameRow.2]
    · rw [Check.synced_of_other hc]
      rw [Check.synced_of_other (c := c.synced second'.now projectId second.request swappedRows)]
      · exact Check.synced_timeless hjobs' c
      · rwa [c.synced_sameRow.2]
  refine ⟨?_, fun c hc => ?_, ?_, ?_⟩
  · rw [htable, htable']
    simp only [List.map_append, List.append_assoc]
    refine List.Perm.append ?_ ?_
    · refine List.Perm.of_eq ?_
      rw [List.map_map, List.map_map]
      exact List.map_congr_left fun c _ => hrows c
    · refine List.Perm.trans (List.Perm.of_eq ?_) List.perm_append_comm
      exact congrArg₂ (· ++ ·) (inserted_timeless hjobs fun _ => Iff.rfl)
        (inserted_timeless hjobs' fun _ => Iff.rfl)
  · refine ⟨_, ?_, _, ?_, ?_, ?_, ?_, ?_, hrows c⟩
    · rw [htable]
      exact List.mem_append_left _ (List.mem_append_left _ (List.mem_map_of_mem hc))
    · rw [htable']
      exact List.mem_append_left _ (List.mem_append_left _ (List.mem_map_of_mem hc))
    · exact (Check.synced_sameRow _).1.trans (Check.synced_sameRow _).1
    · exact (Check.synced_sameRow _).1.trans (Check.synced_sameRow _).1
    · rw [Check.synced_pingKey, Check.synced_pingKey]
    · rw [Check.synced_pingKey, Check.synced_pingKey]
  · rw [hs'.frame, hs.frame]
  · rw [ht'.frame, ht.frame]

/-- A payload of one job, with its period in seconds. -/
def declareEvery (environment : String) (seconds : ℤ) : SyncRequest where
  environment := some environment
  prune := true
  checks := [⟨"import", "import", none, some seconds, none, none, none⟩]

/-- A slug that spells the identity out. -/
def identitySlug : SyncSlug := fun _ key environment => environment.getD "" ++ "|" ++ key

/-- One job that was declared at the start, to run every hour. -/
def hourlyDatabase : Database :=
  run (perform { sampleServer with syncSlug := identitySlug }) sampleDatabase
    [⟨0, .sync 1 (declareEvery "production" 3600) fun _ => (5, 5)⟩]

/-- Such a payload with a second job, whose name has no letter that a slug may have. -/
def declareNamed (environment : String) : SyncRequest :=
  { declareEvery environment 60 with
    checks := [⟨"import", "import", none, some 60, none, none, none⟩,
      ⟨"report", "日報", none, some 60, none, none, none⟩] }

/-- A slug that spells the identity out behind the name, or behind eight drawn characters. -/
def drawnSlug (drawn : String) : SyncSlug := fun name key environment =>
  (if name = "日報" then drawn else name) ++ "-" ++ identitySlug name key environment

/-- Such a slug without what was drawn for it. -/
def withoutDrawn (name slug : String) : String :=
  if name = "日報" then String.ofList (slug.toList.drop 8) else slug

end Orders

end SilenceWatch
