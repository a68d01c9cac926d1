import Mathlib.Data.List.DropRight
import Mathlib.Data.Set.Function
import SilenceWatch.Checks.Redeclared

/-!
# Slugs of declared checks

The slug of a declared check ends in a fingerprint of its environment and its key. As
long as checks stay in the environment they were declared in, two different identities
have two different slugs, and no sync meets the index on (project, slug).
-/

namespace SilenceWatch

open Relational Transition

/-- What is left of a name at the start of a slug: forty characters, without the dashes at
their end. -/
def slugRoot (slugify : String → String) (name : String) : List Char :=
  ((slugify name).toList.take 40).rdropWhile (· = '-')

/-- The first eight digits of the hash of an identity. -/
def slugFingerprint (sha256Hex : String → String) (environment key : String) : List Char :=
  (sha256Hex (environment ++ "|" ++ key)).toList.take 8

/-- `syncSlug`. Of `slugify`, which is random on a name that folds to nothing, and of the
hash only the results matter here. -/
def syncSlug (slugify sha256Hex : String → String) : SyncSlug := fun name key environment =>
  let root := slugRoot slugify name
  String.ofList ((if root.length > 0 then root ++ ['-'] else []) ++
    slugFingerprint sha256Hex (environment.getD "") key)

/-- A write, with what `slugify` returns while it runs. -/
structure SlugEvent extends Event where
  slugify : String → String

/-- The database after a write whose slugs come from `syncSlug`. -/
def performWithSlugs (srv : Server) (sha256Hex : String → String) (db : Database)
    (e : SlugEvent) : Database :=
  perform { srv with syncSlug := syncSlug e.slugify sha256Hex } db e.toEvent

/-- The writes of a project whose checks are all declared, under identities of `declared`. -/
def SlugEvent.Admitted (projectId : Uuid) (declared : Set (String × String)) (e : SlugEvent) :
    Prop :=
  match e.write with
  | .create project _ _ _ _ => project ≠ projectId
  | .sync project request _ => project = projectId →
      ∀ key ∈ request.keys, (request.environment.getD "", key) ∈ declared
  | _ => True

/-- The write moves no check of the project to another environment. -/
def KeepsEnvironment (projectId : Uuid) (db : Database) (e : SlugEvent) : Prop :=
  match e.write with
  | .update checkId input => ∀ c ∈ db.checks.rows, c.id = checkId → c.projectId = projectId →
      ∀ environment, input.environment = some environment →
        environment.getD "" = c.environment.getD ""
  | _ => True

/-- The slug of a check ends in the fingerprint of the identity that the check has now. -/
def Check.SlugDerived (sha256Hex : String → String) (declared : Set (String × String))
    (c : Check) : Prop :=
  ∃ key, c.key = some key ∧ (c.environment.getD "", key) ∈ declared ∧
    ∃ root, c.slug.toList = root ++ slugFingerprint sha256Hex (c.environment.getD "") key

/-- Every check of the project has such a slug. -/
def Database.SlugsDerived (sha256Hex : String → String) (declared : Set (String × String))
    (projectId : Uuid) (db : Database) : Prop :=
  ∀ c ∈ db.checks.rows, c.projectId = projectId → c.SlugDerived sha256Hex declared

section Slugs

variable {srv : Server} {slugify sha256Hex : String → String} {declared : Set (String × String)}
  {projectId : Uuid} {db : Database} {cron : CronParser} {now : ℤ}

/-- A slug ends in the fingerprint of its identity. -/
theorem syncSlug_toList (slugify sha256Hex : String → String) (name key : String)
    (environment : Option String) :
    ∃ root, (syncSlug slugify sha256Hex name key environment).toList =
      root ++ slugFingerprint sha256Hex (environment.getD "") key := by
  unfold syncSlug
  rw [String.toList_ofList]
  exact ⟨_, rfl⟩

/-- What of the slug of a declared check is not drawn at random: its fingerprint where `drawn`
says that the name folds to nothing, all of it elsewhere. -/
def slugWithoutDraw (drawn : String → Bool) (name slug : String) : String :=
  if drawn name then String.ofList (slug.toList.rtake 8) else slug

/-- The slugs of a call come from `syncSlug`, whatever `slugify` returned for the names that fold
to nothing. -/
def DrawsSlugs (sha256Hex foldName : String → String) (drawn : String → Bool)
    (call : SyncCall) : Prop :=
  ∃ slugify, call.syncSlug = syncSlug slugify sha256Hex ∧
    ∀ name, drawn name = false → slugify name = foldName name

/-- Whatever a call draws, the rest of the slug of each job is the same. -/
theorem DrawsSlugs.slug {foldName : String → String} {drawn : String → Bool} {call : SyncCall}
    (hhash : ∀ text, 8 ≤ (sha256Hex text).length) (h : DrawsSlugs sha256Hex foldName drawn call)
    (name key : String) (environment : Option String) :
    slugWithoutDraw drawn name (call.syncSlug name key environment) =
      slugWithoutDraw drawn name (syncSlug foldName sha256Hex name key environment) := by
  obtain ⟨slugify, hslugs, hfolded⟩ := h
  have hfingerprint : ∀ slugify, (syncSlug slugify sha256Hex name key environment).toList.rtake 8 =
      slugFingerprint sha256Hex (environment.getD "") key := by
    intro slugify
    obtain ⟨root, hroot⟩ := syncSlug_toList slugify sha256Hex name key environment
    have hlength : (slugFingerprint sha256Hex (environment.getD "") key).length = 8 := by
      have hlong := hhash (environment.getD "" ++ "|" ++ key)
      rw [← String.length_toList] at hlong
      rw [slugFingerprint, List.length_take, Nat.min_eq_left hlong]
    rw [hroot, List.rtake, List.length_append, hlength, Nat.add_sub_cancel, List.drop_left]
  rw [hslugs]
  unfold slugWithoutDraw
  split
  · rw [hfingerprint, hfingerprint]
  · next hkept =>
    unfold syncSlug slugRoot
    rw [hfolded name (Bool.eq_false_iff.mpr hkept)]

/-- **Two syncs of two environments commute, up to the random roots of slugs.** -/
theorem SyncedBoth.sameChecks_of_draws {quotas : QuotaConfig} {foldName : String → String}
    {drawn : String → Bool} {first second first' second' : SyncCall} {db' db'' : Database}
    (hhash : ∀ text, 8 ≤ (sha256Hex text).length)
    (hdraws : ∀ call ∈ [first, second, first', second'], DrawsSlugs sha256Hex foldName drawn call)
    (hrequest : first'.request = first.request) (hrequest' : second'.request = second.request)
    (henvironment : first.request.environment.getD "" ≠ second.request.environment.getD "")
    (h : SyncedBoth quotas cron projectId first second db db')
    (h' : SyncedBoth quotas cron projectId second' first' db db'') :
    SameChecks (slugWithoutDraw drawn) db db' db'' := by
  simp only [List.forall_mem_cons, List.not_mem_nil, false_implies, implies_true, and_true]
    at hdraws
  obtain ⟨hfirst, hsecond, hfirst', hsecond'⟩ := hdraws
  refine h.sameChecks ⟨hrequest, fun job _ => ?_⟩ ⟨hrequest', fun job _ => ?_⟩ henvironment h'
  · rw [hfirst'.slug hhash, hfirst.slug hhash]
  · rw [hsecond'.slug hhash, hsecond.slug hhash]

/-- The slug of a row of a payload is that of its job. -/
theorem syncRows_slug {environment : Option String} {incoming : List SyncCheck}
    {rows : List SyncRow} {slugOf : SyncSlug}
    (h : syncRows cron slugOf now environment [] incoming = .ok rows) {row : SyncRow}
    (hrow : row ∈ rows) : row.slug = slugOf row.name row.key environment := by
  obtain ⟨hall, -, -⟩ := syncRows_cases h
  clear h
  induction hall with
  | nil => cases hrow
  | cons hfirst _ ih =>
    rcases List.mem_cons.mp hrow with rfl | hrow
    · unfold SyncCheck.toRow at hfirst
      split at hfirst
      · cases hfirst
      · cases hfirst
        rfl
    · exact ih hrow

/-- A payload that cannot be parsed is a bad request. -/
theorem syncRows_error {environment : Option String} {seen : List String}
    {incoming : List SyncCheck} {slugOf : SyncSlug} {e : ServiceError}
    (h : syncRows cron slugOf now environment seen incoming = .error e) :
    ∃ message, e = .badRequest message := by
  induction incoming generalizing seen with
  | nil => cases h
  | cons job rest ih =>
    unfold syncRows at h
    split at h
    · cases h
      exact ⟨_, rfl⟩
    · cases hrow : job.toRow cron slugOf now environment with
      | error e' =>
        simp only [hrow, Bind.bind, Except.bind] at h
        cases h
        unfold SyncCheck.toRow at hrow
        split at hrow
        · cases hrow
          exact ⟨_, rfl⟩
        · cases hrow
      | ok row =>
        cases hrest : syncRows cron slugOf now environment (job.key :: seen) rest with
        | error e' =>
          simp only [hrow, hrest, Bind.bind, Except.bind] at h
          cases h
          exact ih hrest
        | ok rows => simp [hrow, hrest, Bind.bind, Except.bind] at h

/-- Slugs that end in equal fingerprints of declared identities are of one identity. -/
theorem identity_eq_of_slug {slug : String} {root root' : List Char}
    {environment environment' key key' : String}
    (hlength : ∀ text, (sha256Hex text).toList.length = 64)
    (hinjective : declared.InjOn fun identity => slugFingerprint sha256Hex identity.1 identity.2)
    (hdeclared : (environment, key) ∈ declared) (hdeclared' : (environment', key') ∈ declared)
    (h : slug.toList = root ++ slugFingerprint sha256Hex environment key)
    (h' : slug.toList = root' ++ slugFingerprint sha256Hex environment' key') :
    environment = environment' ∧ key = key' := by
  have hsize : ∀ environment key, (slugFingerprint sha256Hex environment key).length = 8 := by
    intro environment key
    unfold slugFingerprint
    rw [List.length_take, hlength]
    rfl
  have hsame := (List.append_inj' (h.symm.trans h') ((hsize _ _).trans (hsize _ _).symm)).2
  exact Prod.ext_iff.mp (hinjective hdeclared hdeclared' hsame)

/-- A write that moves no check leaves every slug derived from the identity of its check. -/
theorem performWithSlugs_derived {e : SlugEvent} (h : db.SlugsDerived sha256Hex declared projectId)
    (hadmitted : e.Admitted projectId declared) (hkeeps : KeepsEnvironment projectId db e) :
    (performWithSlugs srv sha256Hex db e).SlugsDerived sha256Hex declared projectId := by
  intro c' hc' hproject
  obtain ⟨⟨now, write⟩, slugify⟩ := e
  cases perform_origin _ db ⟨now, write⟩ hc' with
  | @kept _ c _ hc hsame henvironment =>
    rw [hsame.projectId] at hproject
    obtain ⟨key, hkey, hmem, root, hslug⟩ := h c hc hproject
    refine ⟨key, hsame.key.trans hkey, ?_, root, ?_⟩
    · rwa [henvironment]
    · rw [hsame.slug, henvironment, hslug]
  | @moved checkId input environment c _ hc hid hsame hinput henvironment =>
    rw [hsame.projectId] at hproject
    obtain ⟨key, hkey, hmem, root, hslug⟩ := h c hc hproject
    have hunmoved : c'.environment.getD "" = c.environment.getD "" := by
      rw [henvironment]
      exact hkeeps c hc hid hproject environment hinput
    refine ⟨key, hsame.key.trans hkey, ?_, root, ?_⟩
    · rwa [hunmoved]
    · rw [hsame.slug, hunmoved, hslug]
  | created => exact absurd hproject hadmitted
  | declared hparsed hrow _ =>
    obtain ⟨root, hslug⟩ := syncSlug_toList slugify sha256Hex _ _ _
    refine ⟨_, rfl, hadmitted hproject _ ?_, root, ?_⟩
    · rw [SyncRequest.keys, ← syncRows_keys hparsed]
      exact List.mem_map_of_mem hrow
    · exact (congrArg String.toList (syncRows_slug hparsed hrow)).trans hslug

/-- **Every slug is derived from the identity its check has, in every run without moves.** -/
theorem run_derived {es : List SlugEvent} (h : db.SlugsDerived sha256Hex declared projectId)
    (hadmitted : ∀ e ∈ es, e.Admitted projectId declared)
    (hkeeps : Along (performWithSlugs srv sha256Hex) (KeepsEnvironment projectId) db es) :
    (run (performWithSlugs srv sha256Hex) db es).SlugsDerived sha256Hex declared projectId :=
  run_of_step (P := fun db e => e.Admitted projectId declared ∧ KeepsEnvironment projectId db e)
    (fun _ _ h hstep => performWithSlugs_derived h hstep.1 hstep.2) h
    ((along_of_forall hadmitted).and hkeeps)

end Slugs

section Upsert

variable {projectId : Uuid} {environment : Option String} {generated : String → Uuid × Uuid}
  {now : ℤ}

/-- What the database generates for a payload is in use nowhere. -/
structure FreshFor (db : Database) (keys : List String) (generated : String → Uuid × Uuid) :
    Prop where
  unused : ∀ key ∈ keys, ∀ c ∈ db.checks.rows,
    c.id ≠ (generated key).1 ∧ c.pingKey ≠ (generated key).2
  distinct : ∀ key ∈ keys, ∀ key' ∈ keys, key ≠ key' →
    (generated key).1 ≠ (generated key').1 ∧ (generated key).2 ≠ (generated key').2

/-- The check has nothing in common with what the upsert would insert for the row. -/
structure Check.ApartFrom (projectId : Uuid) (generated : String → Uuid × Uuid) (row : SyncRow)
    (c : Check) : Prop where
  id : c.id ≠ (generated row.key).1
  pingKey : c.pingKey ≠ (generated row.key).2
  slug : ¬ (c.projectId = projectId ∧ c.slug = row.slug)

/-- Only the identity, the slug and what is generated can refuse an upsert. -/
theorem exists_upsertRows {checks : Table Check Check.Distinct} {rows : List SyncRow}
    (hrows : ∀ row ∈ rows, ¬ DeclaredIn projectId environment row.key checks.rows →
      ∀ c ∈ checks.rows, c.ApartFrom projectId generated row)
    (hpairs : rows.Pairwise fun row row' =>
      (row.inserted projectId environment generated now).ApartFrom projectId generated row') :
    ∃ checks' upserted,
      upsertRows projectId environment generated now checks rows = some (checks', upserted) := by
  induction rows generalizing checks with
  | nil => exact ⟨checks, [], rfl⟩
  | cons row rest ih =>
    rw [List.pairwise_cons] at hpairs
    have hrest := fun r hr => hrows r (List.mem_cons_of_mem row hr)
    unfold upsertRows
    cases hfind : checks.rows.find? (Check.DeclaredAs projectId environment row.key) with
    | some existing =>
      have hothers : ∀ other ∈ rest, ¬ DeclaredIn projectId environment other.key
          (checks.rows.map (updateRow (Check.DeclaredAs projectId environment row.key)
            row.onConflict)) → ∀ c' ∈ checks.rows.map (updateRow (Check.DeclaredAs projectId
              environment row.key) row.onConflict), c'.ApartFrom projectId generated other := by
        intro other hother hundeclared c' hc'
        rw [declaredIn_map_updateRow] at hundeclared
        obtain ⟨c, hc, ⟨_, rfl⟩ | ⟨_, rfl⟩⟩ := mem_map_updateRow.mp hc'
        · obtain ⟨hid, hping, hslug⟩ := hrest other hother hundeclared c hc
          exact ⟨hid, hping, hslug⟩
        · exact hrest other hother hundeclared _ hc
      obtain ⟨checks', upserted, hupsert⟩ : ∃ checks' upserted, upsertRows projectId environment
          generated now (checks.update (Check.DeclaredAs projectId environment row.key)
            row.onConflict row.onConflict_keepsDistinct) rest = some (checks', upserted) :=
        ih hothers hpairs.2
      refine ⟨checks', ⟨existing.id, row.key, existing.pingKey, false⟩ :: upserted, ?_⟩
      simp only [upsertRow, hfind, hupsert, Option.map_some]
    | none =>
      have hundeclared : ¬ DeclaredIn projectId environment row.key checks.rows := by
        rintro ⟨c, hc, hdeclared⟩
        exact List.find?_eq_none.mp hfind c hc (decide_eq_true hdeclared)
      have hdistinct : ∀ c ∈ checks.rows,
          c.Distinct (row.inserted projectId environment generated now) := by
        intro c hc
        obtain ⟨hid, hping, hslug⟩ := hrows row List.mem_cons_self hundeclared c hc
        refine ⟨hid, hping, hslug, ?_⟩
        rintro ⟨_, hproject, hkey, henvironment⟩
        exact hundeclared ⟨c, hc, hproject, hkey, henvironment⟩
      obtain ⟨table, htable⟩ := Table.exists_insert? hdistinct
      have hmiddle := Table.insert?_eq_some htable
      have hothers : ∀ other ∈ rest, ¬ DeclaredIn projectId environment other.key table.rows →
          ∀ c' ∈ table.rows, c'.ApartFrom projectId generated other := by
        intro other hother hundeclared c' hc'
        rw [hmiddle] at hc' hundeclared
        rcases List.mem_append.mp hc' with hc' | hc'
        · refine hrest other hother (fun h => hundeclared ?_) c' hc'
          obtain ⟨c, hc, hdeclared⟩ := h
          exact ⟨c, List.mem_append_left _ hc, hdeclared⟩
        · rw [List.mem_singleton.mp hc']
          exact hpairs.1 other hother
      obtain ⟨checks', upserted, hupsert⟩ := ih hothers hpairs.2
      refine ⟨checks', ⟨(generated row.key).1, row.key, (generated row.key).2, true⟩ :: upserted,
        ?_⟩
      have hinsert : checks.insert? (row.toCheck projectId environment (generated row.key).1
          (generated row.key).2 now) = some table := htable
      simp only [upsertRow, hfind, hinsert, hupsert, Option.map_some]

end Upsert

section Collisions

variable {srv : Server} {sha256Hex : String → String} {declared : Set (String × String)}
  {projectId : Uuid} {db : Database}

/-- No slug of a payload collides: a check of the project holds it only where it is the
check of the row, and the unique indexes refuse the upsert only for what is generated. -/
def SlugsFree (srv : Server) (sha256Hex : String → String) (projectId : Uuid) (db : Database)
    (slugify : String → String) (now : ℤ) (request : SyncRequest) : Prop :=
  (∀ rows, syncRows srv.cron (syncSlug slugify sha256Hex) now request.environment []
      request.checks = .ok rows → ∀ row ∈ rows,
      ¬ DeclaredIn projectId request.environment row.key db.checks.rows →
        ∀ c ∈ db.checks.rows, c.projectId = projectId → c.slug ≠ row.slug) ∧
    ∀ generated, FreshFor db request.keys generated →
      syncWithinQuota srv.quotas srv.cron (syncSlug slugify sha256Hex) now projectId request
        generated db ≠ .error .uniqueViolation

/-- Where every slug is derived from the identity of its check, no payload collides. -/
theorem slugsFree_of_derived (hlength : ∀ text, (sha256Hex text).toList.length = 64)
    (hinjective : declared.InjOn fun identity => slugFingerprint sha256Hex identity.1 identity.2)
    (h : db.SlugsDerived sha256Hex declared projectId) (slugify : String → String) (now : ℤ)
    {request : SyncRequest}
    (hdeclared : ∀ key ∈ request.keys, (request.environment.getD "", key) ∈ declared) :
    SlugsFree srv sha256Hex projectId db slugify now request := by
  have hslugs : ∀ rows, syncRows srv.cron (syncSlug slugify sha256Hex) now request.environment []
      request.checks = .ok rows → ∀ row ∈ rows, (request.environment.getD "", row.key) ∈ declared ∧
        ∃ root, row.slug.toList =
          root ++ slugFingerprint sha256Hex (request.environment.getD "") row.key := by
    intro rows hparsed row hrow
    refine ⟨hdeclared row.key ?_, ?_⟩
    · rw [SyncRequest.keys, ← syncRows_keys hparsed]
      exact List.mem_map_of_mem hrow
    · rw [syncRows_slug hparsed hrow]
      exact syncSlug_toList slugify sha256Hex _ _ _
  have hfree : ∀ rows, syncRows srv.cron (syncSlug slugify sha256Hex) now request.environment []
      request.checks = .ok rows → ∀ row ∈ rows,
        ¬ DeclaredIn projectId request.environment row.key db.checks.rows →
          ∀ c ∈ db.checks.rows, c.projectId = projectId → c.slug ≠ row.slug := by
    intro rows hparsed row hrow hundeclared c hc hproject hslug
    obtain ⟨key, hkey, hmem, root, hroot⟩ := h c hc hproject
    obtain ⟨hmem', root', hroot'⟩ := hslugs rows hparsed row hrow
    rw [← hslug] at hroot'
    obtain ⟨henvironment, rfl⟩ :=
      identity_eq_of_slug hlength hinjective hmem hmem' hroot hroot'
    exact hundeclared ⟨c, hc, hproject, hkey, henvironment⟩
  refine ⟨hfree, fun generated hfresh hviolation => ?_⟩
  unfold syncWithinQuota at hviolation
  cases hparsed : syncRows srv.cron (syncSlug slugify sha256Hex) now request.environment []
      request.checks with
  | error e =>
    simp only [hparsed, Bind.bind, Except.bind, Except.error.injEq] at hviolation
    obtain ⟨message, rfl⟩ := syncRows_error hparsed
    cases hviolation
  | ok rows =>
    have hkeys : ∀ row ∈ rows, row.key ∈ request.keys := by
      intro row hrow
      rw [SyncRequest.keys, ← syncRows_keys hparsed]
      exact List.mem_map_of_mem hrow
    set accepted := rows.filter fun row =>
      row.key ∉ applyCheckQuota srv.quotas db projectId rows request.environment with haccepted
    have hrows : ∀ row ∈ accepted, row ∈ rows := fun row hrow => (List.mem_filter.mp hrow).1
    obtain ⟨checks', upserted, hupsert⟩ : ∃ checks' upserted, upsertRows projectId
        request.environment generated now db.checks accepted = some (checks', upserted) := by
      refine exists_upsertRows (fun row hrow hundeclared c hc => ?_) ?_
      · obtain ⟨hid, hping⟩ := hfresh.unused row.key (hkeys row (hrows row hrow)) c hc
        refine ⟨hid, hping, ?_⟩
        rintro ⟨hproject, hslug⟩
        exact hfree rows hparsed row (hrows row hrow) hundeclared c hc hproject hslug
      · have hnodup : (accepted.map SyncRow.key).Nodup :=
          (syncRows_cases hparsed).2.1.sublist (List.filter_sublist.map SyncRow.key)
        refine (List.pairwise_map.mp hnodup).imp_of_mem fun {row row'} hrow hrow' hne => ?_
        obtain ⟨hid, hping⟩ := hfresh.distinct row.key (hkeys row (hrows row hrow)) row'.key
          (hkeys row' (hrows row' hrow')) hne
        refine ⟨hid, hping, ?_⟩
        rintro ⟨_, hslug⟩
        obtain ⟨hmem, root, hroot⟩ := hslugs rows hparsed row (hrows row hrow)
        obtain ⟨hmem', root', hroot'⟩ := hslugs rows hparsed row' (hrows row' hrow')
        have hsame : row.slug = row'.slug := hslug
        rw [← hsame] at hroot'
        exact hne (identity_eq_of_slug hlength hinjective hmem hmem' hroot hroot').2
    simp only [hparsed, Bind.bind, Except.bind, ← haccepted, hupsert] at hviolation
    cases hviolation

/-- **A sync never fails on a slug**, in every run of a project that starts without checks,
declares them by syncs and moves none of them to another environment. -/
theorem sync_slugs_free {es : List SlugEvent}
    (hlength : ∀ text, (sha256Hex text).toList.length = 64)
    (hinjective : declared.InjOn fun identity => slugFingerprint sha256Hex identity.1 identity.2)
    (hempty : ∀ c ∈ db.checks.rows, c.projectId ≠ projectId)
    (hadmitted : ∀ e ∈ es, e.Admitted projectId declared)
    (hkeeps : Along (performWithSlugs srv sha256Hex) (KeepsEnvironment projectId) db es)
    (slugify : String → String) (now : ℤ) (request : SyncRequest)
    (hdeclared : ∀ key ∈ request.keys, (request.environment.getD "", key) ∈ declared) :
    SlugsFree srv sha256Hex projectId (run (performWithSlugs srv sha256Hex) db es) slugify now
      request :=
  slugsFree_of_derived hlength hinjective
    (run_derived (fun c hc hproject => absurd hproject (hempty c hc)) hadmitted hkeeps) slugify now
    hdeclared

/-- SHA-256 of the two identities below; elsewhere the value does not matter. -/
def sampleSha256Hex (text : String) : String :=
  if text = "production|import" then
    "6affb62010db0b7e9505f097330fe71e77940b6e42029923220cab87f7d80e83"
  else if text = "staging|import" then
    "9ebfd76751fd1189f07cecc8caf6acd9bd4aca8ffd6ba84c6c865e6425677778"
  else "0000000000000000000000000000000000000000000000000000000000000000"

/-- The two identities. -/
def importIdentities : Set (String × String) :=
  fun identity => identity = ("production", "import") ∨ identity = ("staging", "import")

theorem sampleSha256Hex_length (text : String) : (sampleSha256Hex text).toList.length = 64 := by
  unfold sampleSha256Hex
  split
  · decide
  · split <;> decide

/-- Their fingerprints differ. -/
theorem importIdentities_injOn : importIdentities.InjOn fun identity =>
    slugFingerprint sampleSha256Hex identity.1 identity.2 := by
  rintro _ (rfl | rfl) _ (rfl | rfl) h
  · rfl
  · exact absurd h (by decide)
  · exact absurd h (by decide)
  · rfl

/-- The request that moves a check to another environment. -/
def moveRequest (environment : String) : UpdateCheckRequest :=
  { pauseRequest false with environment := some (some environment), paused := none }

theorem sync_slugs_free_import :
    SlugsFree sampleServer sampleSha256Hex 1
      (run (performWithSlugs sampleServer sampleSha256Hex) sampleDatabase
        [⟨⟨0, .sync 1 (declareEvery "production" 3600) fun _ => (5, 5)⟩, id⟩]) id 1000
      (declareEvery "staging" 3600) := by
  have hempty : ∀ c ∈ sampleDatabase.checks.rows, c.projectId ≠ 1 := List.forall_mem_nil _
  refine sync_slugs_free sampleSha256Hex_length importIdentities_injOn hempty ?_ ?_ id 1000 _ ?_
  · intro e he
    rw [List.mem_singleton.mp he]
    intro _ key hkey
    rw [List.mem_singleton.mp hkey]
    exact Or.inl rfl
  · exact ⟨trivial, trivial⟩
  · intro key hkey
    rw [List.mem_singleton.mp hkey]
    exact Or.inr rfl

/-- A check is declared in production and moved to staging; the next sync of production
inserts its row again, under the slug that the moved check still has. -/
theorem sync_collides_after_move :
    (importIdentities.InjOn fun identity =>
        slugFingerprint sampleSha256Hex identity.1 identity.2) ∧
      ∃ es : List SlugEvent, (∀ e ∈ es, e.Admitted 1 importIdentities) ∧
        ¬ SlugsFree sampleServer sampleSha256Hex 1
          (run (performWithSlugs sampleServer sampleSha256Hex) sampleDatabase es) id 2000
          (declareEvery "production" 3600) := by
  refine ⟨importIdentities_injOn,
    [⟨⟨0, .sync 1 (declareEvery "production" 3600) fun _ => (5, 5)⟩, id⟩,
      ⟨⟨1000, .update 5 (moveRequest "staging")⟩, id⟩], ?_, ?_⟩
  · intro e he
    rcases List.mem_cons.mp he with rfl | he
    · intro _ key hkey
      rw [List.mem_singleton.mp hkey]
      exact Or.inl rfl
    · rw [List.mem_singleton.mp he]
      trivial
  · rintro ⟨_, hsync⟩
    refine hsync (fun _ => (6, 6)) ⟨fun key hkey c hc => ?_, fun key hkey key' hkey' hne => ?_⟩ rfl
    · rw [List.mem_singleton.mp hc]
      decide
    · exact absurd ((List.mem_singleton.mp hkey).trans (List.mem_singleton.mp hkey').symm) hne

end Collisions

end SilenceWatch
