import SilenceWatch.Checks.Sync

/-!
# What a sync leaves

The upsert handles its rows one after the other. Since a payload has no key twice, the
rows do not meet each other: each declared row is rewritten or inserted as if it were
alone, and the flag for orphans spares what the payload names. That gives every row of
a synced table in closed form.
-/

namespace SilenceWatch

open Relational

section Rows

variable {cron : CronParser} {syncSlug : SyncSlug} {now : ℤ} {environment : Option String}

/-- The payload of a sync that is not refused has no key twice, and each of its jobs
has its row. -/
theorem syncRows_cases {seen : List String} {incoming : List SyncCheck} {rows : List SyncRow}
    (h : syncRows cron syncSlug now environment seen incoming = .ok rows) :
    List.Forall₂ (fun job row => job.toRow cron syncSlug now environment = .ok row) incoming rows ∧
      (rows.map SyncRow.key).Nodup ∧ ∀ row ∈ rows, row.key ∉ seen := by
  induction incoming generalizing seen rows with
  | nil =>
    cases h
    exact ⟨List.Forall₂.nil, List.nodup_nil, by simp⟩
  | cons job rest ih =>
    unfold syncRows at h
    split at h
    · cases h
    · next hunseen =>
      cases hrow : job.toRow cron syncSlug now environment with
      | error e => simp [hrow, Bind.bind, Except.bind] at h
      | ok row =>
        cases hrest : syncRows cron syncSlug now environment (job.key :: seen) rest with
        | error e => simp [hrow, hrest, Bind.bind, Except.bind] at h
        | ok others =>
          simp only [hrow, hrest, Bind.bind, Except.bind, Except.ok.injEq] at h
          subst h
          have hkey : row.key = job.key := by
            unfold SyncCheck.toRow at hrow
            split at hrow
            · cases hrow
            · cases hrow
              rfl
          obtain ⟨hall, hnodup, hfresh⟩ := ih hrest
          refine ⟨List.Forall₂.cons hrow hall, ?_, ?_⟩
          · rw [List.map_cons, List.nodup_cons]
            refine ⟨fun hmem => ?_, hnodup⟩
            obtain ⟨other, hother, hsame⟩ := List.mem_map.mp hmem
            exact hfresh other hother (hsame.trans hkey ▸ List.mem_cons_self)
          · intro r hr
            rcases List.mem_cons.mp hr with rfl | hr
            · rwa [hkey]
            · exact fun hseen => hfresh r hr (List.mem_cons_of_mem _ hseen)

/-- A declared job keeps its key in its row. -/
theorem SyncCheck.toRow_key {job : SyncCheck} {row : SyncRow}
    (h : job.toRow cron syncSlug now environment = .ok row) : row.key = job.key := by
  unfold SyncCheck.toRow at h
  split at h
  · cases h
  · cases h
    rfl

/-- The rows of a payload carry its keys in its order. -/
theorem syncRows_keys {seen : List String} {incoming : List SyncCheck} {rows : List SyncRow}
    (h : syncRows cron syncSlug now environment seen incoming = .ok rows) :
    rows.map SyncRow.key = incoming.map SyncCheck.key := by
  obtain ⟨hall, -, -⟩ := syncRows_cases h
  clear h
  induction hall with
  | nil => rfl
  | cons hrow _ ih => rw [List.map_cons, List.map_cons, ih, SyncCheck.toRow_key hrow]

end Rows

section Upsert

variable {projectId : Uuid} {environment : Option String} {generated : String → Uuid × Uuid}
  {now : ℤ}

/-- The row after the upsert: rewritten where the payload declares it. -/
def Check.upserted (projectId : Uuid) (environment : Option String) (rows : List SyncRow)
    (c : Check) : Check :=
  match rows.find? fun row => c.DeclaredAs projectId environment row.key with
  | some row => row.onConflict c
  | none => c

/-- Some check has the declared identity. -/
def DeclaredIn (projectId : Uuid) (environment : Option String) (key : String)
    (checks : List Check) : Prop :=
  ∃ c ∈ checks, c.DeclaredAs projectId environment key
  deriving Decidable

/-- What the upsert returns for a row of the payload. -/
def SyncRow.upsertedCheck (projectId : Uuid) (environment : Option String)
    (generated : String → Uuid × Uuid) (checks : List Check) (row : SyncRow) : UpsertedCheck :=
  match checks.find? (Check.DeclaredAs projectId environment row.key) with
  | some existing => ⟨existing.id, row.key, existing.pingKey, false⟩
  | none => ⟨(generated row.key).1, row.key, (generated row.key).2, true⟩

/-- The row that the upsert inserts for a row of the payload. -/
def SyncRow.inserted (projectId : Uuid) (environment : Option String)
    (generated : String → Uuid × Uuid) (now : ℤ) (row : SyncRow) : Check :=
  row.toCheck projectId environment (generated row.key).1 (generated row.key).2 now

theorem updateRow_onConflict_declaredAs {p : Check → Prop} [DecidablePred p] {row : SyncRow}
    {c : Check} {key : String} :
    (updateRow p row.onConflict c).DeclaredAs projectId environment key ↔
      c.DeclaredAs projectId environment key := by
  unfold updateRow
  split <;> rfl

/-- A check has one key. -/
theorem Check.DeclaredAs.key_eq {c : Check} {key key' : String}
    (h : c.DeclaredAs projectId environment key) (h' : c.DeclaredAs projectId environment key') :
    key = key' :=
  Option.some.inj (h.2.1.symm.trans h'.2.1)

/-- A declared identity belongs to one check. -/
theorem eq_of_declaredAs {checks : Table Check Check.Distinct} {c c' : Check} {key : String}
    (hc : c ∈ checks.rows) (hc' : c' ∈ checks.rows) (h : c.DeclaredAs projectId environment key)
    (h' : c'.DeclaredAs projectId environment key) : c = c' := by
  have hapart {d d' : Check} (hd : d.DeclaredAs projectId environment key)
      (hd' : d'.DeclaredAs projectId environment key) : ¬ d.Distinct d' := fun hdistinct =>
    hdistinct.2.2.2 ⟨by simp [hd.2.1], hd.1.trans hd'.1.symm, hd.2.1.trans hd'.2.1.symm,
      hd.2.2.trans hd'.2.2.symm⟩
  have hone : checks.rows.Pairwise fun d d' => d.DeclaredAs projectId environment key →
      d'.DeclaredAs projectId environment key → d = d' :=
    checks.distinct.imp fun hdistinct hd hd' => absurd hdistinct (hapart hd hd')
  have hone' : checks.rows.Pairwise (flip fun d d' => d.DeclaredAs projectId environment key →
      d'.DeclaredAs projectId environment key → d = d') :=
    checks.distinct.imp fun hdistinct hd' hd => absurd hdistinct (hapart hd hd')
  exact hone.forall_of_forall_of_flip (fun _ _ _ _ => rfl) hone' hc hc' h h'

/-- The search for a declared identity finds the check that has it. -/
theorem find?_declaredAs {checks : Table Check Check.Distinct} {c : Check} {key : String}
    (hc : c ∈ checks.rows) (h : c.DeclaredAs projectId environment key) :
    checks.rows.find? (Check.DeclaredAs projectId environment key) = some c := by
  cases hfind : checks.rows.find? (Check.DeclaredAs projectId environment key) with
  | none => exact absurd (decide_eq_true h) (List.find?_eq_none.mp hfind c hc)
  | some found =>
    have hfound : found.DeclaredAs projectId environment key := by
      simpa using List.find?_some hfind
    rw [eq_of_declaredAs hc (List.mem_of_find?_eq_some hfind) h hfound]

/-- An inserted row has the identity it was declared under. -/
theorem SyncRow.inserted_declaredAs {row : SyncRow} {key : String} :
    (row.inserted projectId environment generated now).DeclaredAs projectId environment key ↔
      row.key = key := by
  simp [Check.DeclaredAs, SyncRow.inserted, SyncRow.toCheck]

/-- A row that no row of the payload declares is left alone. -/
theorem Check.upserted_of_not_declared {rows : List SyncRow} {c : Check}
    (h : ∀ row ∈ rows, ¬ c.DeclaredAs projectId environment row.key) :
    c.upserted projectId environment rows = c := by
  have hnone : rows.find? (fun row => c.DeclaredAs projectId environment row.key) = none := by
    refine List.find?_eq_none.mpr fun row hrow => ?_
    simpa using h row hrow
  unfold Check.upserted
  rw [hnone]

/-- A row that the payload declares is rewritten from what declares it. -/
theorem Check.upserted_of_declared {rows : List SyncRow} (hkeys : (rows.map SyncRow.key).Nodup)
    {c : Check} {row : SyncRow} (hrow : row ∈ rows)
    (h : c.DeclaredAs projectId environment row.key) :
    c.upserted projectId environment rows = row.onConflict c := by
  unfold Check.upserted
  cases hfind : rows.find? (fun row => c.DeclaredAs projectId environment row.key) with
  | none => exact absurd (decide_eq_true h) (List.find?_eq_none.mp hfind row hrow)
  | some found =>
    have hdeclared : c.DeclaredAs projectId environment found.key := by
      simpa using List.find?_some hfind
    have hsame : found = row := List.inj_on_of_nodup_map hkeys (List.mem_of_find?_eq_some hfind)
      hrow (hdeclared.key_eq h)
    rw [hsame]

/-- Whether a key is declared is not changed by rewriting rows. -/
theorem declaredIn_map_updateRow {p : Check → Prop} [DecidablePred p] {row : SyncRow}
    {checks : List Check} {key : String} :
    DeclaredIn projectId environment key (checks.map (updateRow p row.onConflict)) ↔
      DeclaredIn projectId environment key checks := by
  unfold DeclaredIn
  constructor
  · rintro ⟨c', hc', h⟩
    obtain ⟨c, hc, rfl⟩ := List.mem_map.mp hc'
    exact ⟨c, hc, updateRow_onConflict_declaredAs.mp h⟩
  · rintro ⟨c, hc, h⟩
    exact ⟨_, List.mem_map_of_mem hc, updateRow_onConflict_declaredAs.mpr h⟩

/-- The first row of an upsert: rewrites what it declares, or inserts it. -/
theorem upsertRow_rows {checks checks' : Table Check Check.Distinct} {row : SyncRow}
    {upserted : UpsertedCheck}
    (h : upsertRow projectId environment generated now checks row = some (checks', upserted)) :
    upserted = row.upsertedCheck projectId environment generated checks.rows ∧
      ((DeclaredIn projectId environment row.key checks.rows ∧
          checks'.rows = checks.rows.map
            (updateRow (Check.DeclaredAs projectId environment row.key) row.onConflict)) ∨
        (¬ DeclaredIn projectId environment row.key checks.rows ∧
          checks'.rows = checks.rows ++ [row.inserted projectId environment generated now])) := by
  unfold upsertRow at h
  cases hfind : checks.rows.find? (Check.DeclaredAs projectId environment row.key) with
  | some existing =>
    simp only [hfind, Option.some.injEq, Prod.mk.injEq] at h
    obtain ⟨rfl, rfl⟩ := h
    have hdeclared : existing.DeclaredAs projectId environment row.key := by
      simpa using List.find?_some hfind
    refine ⟨?_, Or.inl ⟨⟨existing, List.mem_of_find?_eq_some hfind, hdeclared⟩, rfl⟩⟩
    simp only [SyncRow.upsertedCheck, hfind]
  | none =>
    simp only [hfind] at h
    obtain ⟨table, htable, heq⟩ := Option.map_eq_some_iff.mp h
    cases heq
    refine ⟨?_, Or.inr ⟨?_, Table.insert?_eq_some htable⟩⟩
    · simp only [SyncRow.upsertedCheck, hfind]
    · rintro ⟨c, hc, hdeclared⟩
      exact List.find?_eq_none.mp hfind c hc (decide_eq_true hdeclared)

/-- What a row of the payload returns does not depend on the rows handled before it. -/
theorem SyncRow.upsertedCheck_updateRow {row row' : SyncRow} {p : Check → Prop}
    [DecidablePred p] (checks : List Check) :
    row.upsertedCheck projectId environment generated (checks.map (updateRow p row'.onConflict)) =
      row.upsertedCheck projectId environment generated checks := by
  have hfind : (checks.map (updateRow p row'.onConflict)).find?
      (Check.DeclaredAs projectId environment row.key) =
        (checks.find? (Check.DeclaredAs projectId environment row.key)).map
          (updateRow p row'.onConflict) := by
    rw [List.find?_map]
    congr 2
    funext c
    simp only [Function.comp_apply, updateRow_onConflict_declaredAs]
  unfold SyncRow.upsertedCheck
  rw [hfind]
  cases checks.find? (Check.DeclaredAs projectId environment row.key) with
  | none => rfl
  | some existing =>
    simp only [Option.map_some, updateRow]
    split <;> rfl

theorem SyncRow.upsertedCheck_inserted {row row' : SyncRow} (hne : row'.key ≠ row.key)
    (checks : List Check) :
    row.upsertedCheck projectId environment generated
        (checks ++ [row'.inserted projectId environment generated now]) =
      row.upsertedCheck projectId environment generated checks := by
  have hnot : ¬ (row'.inserted projectId environment generated now).DeclaredAs projectId
      environment row.key := fun h => hne (SyncRow.inserted_declaredAs.mp h)
  have hfind : (checks ++ [row'.inserted projectId environment generated now]).find?
      (Check.DeclaredAs projectId environment row.key) =
        checks.find? (Check.DeclaredAs projectId environment row.key) := by
    rw [List.find?_append, List.find?_cons_of_neg (by simpa using hnot), List.find?_nil,
      Option.or_none]
  unfold SyncRow.upsertedCheck
  rw [hfind]

/-- **The upsert in closed form.** Every declared row is rewritten where it is, and the
declared rows that no check had are inserted after the others. -/
theorem upsertRows_rows {checks checks' : Table Check Check.Distinct} {rows : List SyncRow}
    {upserted : List UpsertedCheck} (hkeys : (rows.map SyncRow.key).Nodup)
    (h : upsertRows projectId environment generated now checks rows = some (checks', upserted)) :
    upserted = rows.map (SyncRow.upsertedCheck projectId environment generated checks.rows) ∧
      checks'.rows = checks.rows.map (Check.upserted projectId environment rows) ++
        (rows.filter fun row => ¬ DeclaredIn projectId environment row.key checks.rows).map
          (SyncRow.inserted projectId environment generated now) := by
  induction rows generalizing checks upserted with
  | nil =>
    cases h
    refine ⟨rfl, ?_⟩
    rw [List.filter_nil, List.map_nil, List.append_nil]
    exact (List.map_id _).symm
  | cons row rest ih =>
    unfold upsertRows at h
    split at h
    · cases h
    · next middle first hfirst =>
      obtain ⟨⟨table, others⟩, hrest, heq⟩ := Option.map_eq_some_iff.mp h
      cases heq
      have hkeys' := hkeys
      rw [List.map_cons, List.nodup_cons] at hkeys'
      have hother : ∀ other ∈ rest, row.key ≠ other.key := fun other hmem hsame =>
        hkeys'.1 (hsame ▸ List.mem_map_of_mem hmem)
      obtain ⟨hothers, hrows⟩ := ih hkeys'.2 hrest
      obtain ⟨hreturned, ⟨hdeclared, hmiddle⟩ | ⟨hnew, hmiddle⟩⟩ := upsertRow_rows hfirst
      · constructor
        · rw [hothers, hreturned, List.map_cons, hmiddle]
          congr 1
          exact List.map_congr_left fun other _ => SyncRow.upsertedCheck_updateRow _
        · rw [hrows, hmiddle, List.map_map, List.filter_cons_of_neg (by simpa using hdeclared)]
          congr 1
          · refine List.map_congr_left fun c _ => ?_
            by_cases hc : c.DeclaredAs projectId environment row.key
            · have hself : updateRow (Check.DeclaredAs projectId environment row.key)
                  row.onConflict c = row.onConflict c := if_pos hc
              rw [Function.comp_apply, hself, Check.upserted_of_declared hkeys
                List.mem_cons_self hc, Check.upserted_of_not_declared]
              exact fun other hmem hdeclared =>
                hother other hmem (Check.DeclaredAs.key_eq hc hdeclared)
            · have hself : updateRow (Check.DeclaredAs projectId environment row.key)
                  row.onConflict c = c := if_neg hc
              rw [Function.comp_apply, hself]
              unfold Check.upserted
              rw [List.find?_cons_of_neg (by simpa using hc)]
          · congr 1
            refine List.filter_congr fun other _ => ?_
            simp only [declaredIn_map_updateRow]
      · constructor
        · rw [hothers, hreturned, List.map_cons, hmiddle]
          congr 1
          exact List.map_congr_left fun other hmem =>
            SyncRow.upsertedCheck_inserted (hother other hmem) _
        · have hkept : (row.inserted projectId environment generated now).upserted projectId
              environment rest = row.inserted projectId environment generated now := by
            refine Check.upserted_of_not_declared fun other hmem hdeclared => ?_
            exact hother other hmem (SyncRow.inserted_declaredAs.mp hdeclared)
          rw [hrows, hmiddle, List.map_append, List.map_singleton, hkept,
            List.filter_cons_of_pos (by simpa using hnew), List.map_cons, List.append_assoc,
            List.singleton_append]
          congr 1
          · refine List.map_congr_left fun c hc => ?_
            have hnot : ¬ c.DeclaredAs projectId environment row.key := fun h => hnew ⟨c, hc, h⟩
            unfold Check.upserted
            rw [List.find?_cons_of_neg (by simpa using hnot)]
          · congr 2
            refine List.filter_congr fun other hmem => ?_
            have hiff : DeclaredIn projectId environment other.key
                (checks.rows ++ [row.inserted projectId environment generated now]) ↔
                  DeclaredIn projectId environment other.key checks.rows := by
              constructor
              · rintro ⟨c, hc, hdeclared⟩
                rcases List.mem_append.mp hc with hc | hc
                · exact ⟨c, hc, hdeclared⟩
                · rw [List.mem_singleton.mp hc] at hdeclared
                  exact absurd (SyncRow.inserted_declaredAs.mp hdeclared) (hother other hmem)
              · rintro ⟨c, hc, hdeclared⟩
                exact ⟨c, List.mem_append_left _ hc, hdeclared⟩
            simp only [hiff]

end Upsert

section Sync

variable {quotas : QuotaConfig} {cron : CronParser} {syncSlug : SyncSlug} {now : ℤ}
  {projectId : Uuid} {environment : Option String} {request : SyncRequest}
  {generated : String → Uuid × Uuid} {db db' : Database} {result : SyncResult}

/-- The row after `ORPHAN_SQL`, where the request asks for it. -/
def Check.flagged (prune : Bool) (now : ℤ) (projectId : Uuid) (environment : Option String)
    (keysToKeep : List String) (c : Check) : Check :=
  if prune ∧ c.Orphaned projectId environment keysToKeep then { c with orphanedAt := some now }
  else c

/-- What the payload names is never orphaned. -/
theorem Check.not_orphaned_of_named {keysToKeep : List String} {c : Check} {key : String}
    (hkey : c.key = some key) (hnamed : key ∈ keysToKeep) :
    ¬ c.Orphaned projectId environment keysToKeep := by
  rintro ⟨_, _, _, _, key', hkey', hunnamed⟩
  obtain rfl : key = key' := Option.some.inj (hkey.symm.trans hkey')
  exact hunnamed hnamed

theorem Check.flagged_of_named {prune : Bool} {keysToKeep : List String} {c : Check} {key : String}
    (hkey : c.key = some key) (hnamed : key ∈ keysToKeep) :
    c.flagged prune now projectId environment keysToKeep = c :=
  if_neg fun h => Check.not_orphaned_of_named hkey hnamed h.2

/-- The keys of a payload. -/
def SyncRequest.keys (request : SyncRequest) : List String := request.checks.map SyncCheck.key

/-- The row after a sync that accepted these rows of its payload. -/
def Check.synced (now : ℤ) (projectId : Uuid) (request : SyncRequest) (accepted : List SyncRow)
    (c : Check) : Check :=
  (c.upserted projectId request.environment accepted).flagged request.prune now projectId
    request.environment request.keys

/-- A sync that went through: its payload as rows, those that the quota accepted, and in
closed form what the statements returned and left. -/
structure Synced (quotas : QuotaConfig) (cron : CronParser) (syncSlug : SyncSlug) (now : ℤ)
    (projectId : Uuid) (request : SyncRequest) (generated : String → Uuid × Uuid)
    (db db' : Database) (result : SyncResult) (rows accepted : List SyncRow) : Prop where
  parsed : syncRows cron syncSlug now request.environment [] request.checks = .ok rows
  skipped : result.skipped = applyCheckQuota quotas db projectId rows request.environment
  kept : accepted = rows.filter fun row => row.key ∉ result.skipped
  returned : result.checks = accepted.map
    (SyncRow.upsertedCheck projectId request.environment generated db.checks.rows)
  table : db'.checks.rows = db.checks.rows.map (Check.synced now projectId request accepted) ++
    (accepted.filter fun row =>
      ¬ DeclaredIn projectId request.environment row.key db.checks.rows).map
        (SyncRow.inserted projectId request.environment generated now)
  orphaned : result.orphaned =
    ((db.checks.rows.map (Check.upserted projectId request.environment accepted)).filter fun c =>
      request.prune ∧ c.Orphaned projectId request.environment request.keys).filterMap Check.key
  frame : db' = { db with checks := db'.checks }

/-- **Every sync that succeeds has this form.** -/
theorem syncWithinQuota_synced
    (h : syncWithinQuota quotas cron syncSlug now projectId request generated db =
      .ok (db', result)) :
    ∃ rows accepted, Synced quotas cron syncSlug now projectId request generated db db' result
      rows accepted := by
  unfold syncWithinQuota at h
  cases hrows : syncRows cron syncSlug now request.environment [] request.checks with
  | error e => simp [hrows, Bind.bind, Except.bind] at h
  | ok rows =>
    simp only [hrows, Bind.bind, Except.bind] at h
    split at h
    · cases h
    · next checks upserted hupsert =>
      obtain ⟨_, hnodup, _⟩ := syncRows_cases hrows
      have hkeys := syncRows_keys hrows
      obtain ⟨hreturned, htable⟩ := upsertRows_rows
        (hnodup.sublist (List.filter_sublist.map SyncRow.key)) hupsert
      set accepted := rows.filter fun row =>
        row.key ∉ applyCheckQuota quotas db projectId rows request.environment with haccepted
      have hkey (row : SyncRow) : (row.inserted projectId request.environment generated now).key =
          some row.key := rfl
      have hnamed : ∀ row ∈ accepted, row.key ∈ request.keys := by
        intro row hrow
        rw [SyncRequest.keys, ← hkeys]
        exact List.mem_map_of_mem (List.mem_filter.mp hrow).1
      have hsynced : db'.checks.rows = checks.rows.map fun c => c.flagged request.prune now
          projectId request.environment request.keys := by
        cases hprune : request.prune with
        | false =>
          simp only [hprune, Bool.false_eq_true, if_false] at h
          cases h
          exact (List.map_congr_left fun c _ => by simp [Check.flagged]).trans (List.map_id _)
            |>.symm
        | true =>
          simp only [hprune, if_true] at h
          cases h
          refine List.map_congr_left fun c _ => ?_
          simp [updateRow, Check.flagged, SyncRequest.keys, hkeys]
      have hskipped : result.skipped =
          applyCheckQuota quotas db projectId rows request.environment := by
        cases h
        rfl
      have hchecks : result.checks = upserted := by
        cases h
        rfl
      have horphaned : result.orphaned = (checks.rows.filter fun c =>
          request.prune ∧ c.Orphaned projectId request.environment request.keys).filterMap
            Check.key := by
        cases hprune : request.prune with
        | false =>
          simp only [hprune, Bool.false_eq_true, if_false] at h
          cases h
          simp
        | true =>
          simp only [hprune, if_true] at h
          cases h
          simp [orphanSql, SyncRequest.keys, hkeys]
      refine ⟨rows, accepted, hrows, hskipped, ?_, ?_, ?_, ?_, ?_⟩
      · rw [hskipped]
      · rw [hchecks, hreturned]
      · rw [hsynced, htable, List.map_append, List.map_map, List.map_map]
        congr 1
        refine List.map_congr_left fun row hrow => ?_
        exact Check.flagged_of_named (hkey row) (hnamed row (List.mem_filter.mp hrow).1)
      · rw [horphaned, htable, List.filter_append, List.filterMap_append]
        refine (congrArg _ ?_).trans (List.append_nil _)
        rw [List.filter_eq_nil_iff.mpr, List.filterMap_nil]
        intro c hc
        obtain ⟨row, hrow, rfl⟩ := List.mem_map.mp hc
        intro hflagged
        exact Check.not_orphaned_of_named (hkey row) (hnamed row (List.mem_filter.mp hrow).1)
          (of_decide_eq_true hflagged).2
      · cases h
        rfl

end Sync

end SilenceWatch
