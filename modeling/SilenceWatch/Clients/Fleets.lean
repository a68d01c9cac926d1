import SilenceWatch.Clients.Declarations
import SilenceWatch.Clients.Payloads
import SilenceWatch.Checks.Declared

/-!
# Many instances of one application

Every process of an application declares the jobs that it finds. A job that runs in each of them
is declared in an environment of its instance, the others in the one that all share. A declaration
is complete: what it leaves out is flagged as orphaned. Here any number of processes declare in
any order, among everything else that writes checks, and none of them orphans what another one
declared.
-/

namespace SilenceWatch

open Relational Transition

section Names

/-- The longest environment name the server accepts. -/
def maxEnvironmentLength : ℕ := 40

/-- Anything but letters, digits, dots, dashes and underscores becomes a dash. -/
def dashed (name : List Char) : List Char :=
  name.map fun c => if isEnvironmentChar c then c else '-'

/-- The last characters of a name. -/
def lastChars (room : ℕ) (name : List Char) : List Char := name.drop (name.length - room)

/-- The environment of an instance: a dot after the shared one, and as much of the end of its
name as there is room for. None where there is no room. -/
def environmentOf (environment name : List Char) : Option (List Char) :=
  let room := (maxEnvironmentLength : ℤ) - environment.length - 1
  if room ≤ 0 then none else some (environment ++ '.' :: lastChars room.toNat (dashed name))

/-- `instance_environment` of the Python client. -/
def Python.instanceEnvironment (environment : List Char) (instanceId : Option (List Char)) :
    Option (List Char) :=
  let name := strip isPythonSpace (instanceId.getD [])
  if name = [] then none else environmentOf environment name

variable {environment name name' : List Char}

/-- What is left of a name in the environment of its instance. -/
def keptEnd (environment name : List Char) : List Char :=
  lastChars (maxEnvironmentLength - environment.length - 1) (dashed name)

theorem environmentOf_eq_some {result : List Char}
    (h : environmentOf environment name = some result) :
    result = environment ++ '.' :: keptEnd environment name ∧
      environment.length + 1 < maxEnvironmentLength := by
  unfold environmentOf at h
  dsimp only at h
  split at h
  · cases h
  · next hroom =>
    have hnat : ((maxEnvironmentLength : ℤ) - environment.length - 1).toNat =
        maxEnvironmentLength - environment.length - 1 := by
      omega
    rw [hnat] at h
    exact ⟨(Option.some.inj h).symm, by omega⟩

theorem lastChars_subset {room : ℕ} : lastChars room name ⊆ name :=
  List.drop_subset _ _

theorem length_lastChars_le {room : ℕ} : (lastChars room name).length ≤ room := by
  unfold lastChars
  rw [List.length_drop]
  omega

theorem isEnvironmentChar_of_mem_dashed {c : Char} (h : c ∈ dashed name) :
    isEnvironmentChar c = true := by
  obtain ⟨d, _, rfl⟩ := List.mem_map.mp h
  split
  · next hd => exact hd
  · rfl

/-- **The server takes the environment of an instance as it is**, if it takes the shared one. -/
theorem environmentOf_valid {result : List Char} (hall : ∀ c ∈ environment, isEnvironmentChar c)
    (h : environmentOf environment name = some result) :
    result.length ≤ 40 ∧ result ≠ [] ∧ (∀ c ∈ result, isEnvironmentChar c = true) ∧
      result ≠ environment := by
  obtain ⟨rfl, hroom⟩ := environmentOf_eq_some h
  have hlength : (keptEnd environment name).length ≤
      maxEnvironmentLength - environment.length - 1 := length_lastChars_le
  refine ⟨?_, ?_, ?_, ?_⟩
  · unfold maxEnvironmentLength at hroom hlength
    rw [List.length_append, List.length_cons]
    omega
  · simp
  · intro c hc
    rcases List.mem_append.mp hc with hold | hnew
    · exact hall c hold
    · rcases List.mem_cons.mp hnew with rfl | htail
      · rfl
      · exact isEnvironmentChar_of_mem_dashed (lastChars_subset htail)
  · simp

/-- Instances that differ in what is kept of their names have environments of their own. -/
theorem environmentOf_ne {result result' : List Char}
    (h : environmentOf environment name = some result)
    (h' : environmentOf environment name' = some result')
    (hkept : keptEnd environment name ≠ keptEnd environment name') : result ≠ result' := by
  rintro rfl
  have heq := (environmentOf_eq_some h).1.symm.trans (environmentOf_eq_some h').1
  have htail := List.append_cancel_left heq
  exact hkept (List.cons.inj htail).2

end Names

/-! ### What a process declares -/

/-- A declaration is read with the environment and the keys that were written, trimmed. -/
theorem syncRequestSchema_eq {isValidTimezone : String → Bool} {payload : SyncPayload}
    {request : SyncRequest} (h : syncRequestSchema isValidTimezone payload = some request) :
    request.environment = payload.environment.map trimmed ∧
      request.keys = payload.checks.map fun check => trimmed check.key := by
  unfold syncRequestSchema at h
  simp only [Option.bind_eq_bind, Option.bind_eq_some_iff] at h
  obtain ⟨environment, henvironment, source, -, checks, hchecks, h⟩ := h
  split at h
  · cases h
    refine ⟨?_, keys_of_mapM_syncCheckSchema hchecks⟩
    cases hwritten : payload.environment with
    | none =>
      rw [hwritten] at henvironment
      exact (Option.some.inj henvironment).symm
    | some text =>
      cases hvalue : environmentSchema text with
      | none => simp [hwritten, hvalue] at henvironment
      | some value =>
        have hread : some value = environment := by simpa [hwritten, hvalue] using henvironment
        rw [← hread, environmentSchema_eq_some hvalue]
        rfl
  · cases h

/-- A name of characters that an environment may have needs no trimming. -/
theorem trimmed_of_environment {text : String}
    (h : ∀ c ∈ text.toList, isEnvironmentChar c = true) : trimmed text = text := by
  have hspace : ∀ c ∈ text.toList, isSpace c = false := by
    intro c hc
    have hchar := h c hc
    simp only [isEnvironmentChar, Bool.or_eq_true, List.contains_iff_mem, List.mem_cons,
      List.not_mem_nil, or_false] at hchar
    rcases hchar with halphanum | rfl | rfl | rfl
    · exact (isSpace_of_isAlphanum halphanum).1
    all_goals decide
  unfold trimmed
  rw [strip_of_forall hspace, String.ofList_toList]

namespace Python

open SilenceWatchClient

/-- The processes of one application under the Python client. They have the same settings, apart
from what they are called, and find the same jobs. -/
structure Fleet (ι : Type) where
  config : SilenceWatchClient.Config
  perInstanceJobs : List (List Char)
  jobs : List SilenceWatchClient.DiscoveredJob
  integrations : List Integration
  instanceId : ι → List Char
  /-- The server takes the environment as it is written. -/
  nonempty : config.environment ≠ ""
  accepted : ∀ c ∈ config.environment.toList, isEnvironmentChar c = true
  named : ∀ i, strip isPythonSpace (instanceId i) ≠ []
  /-- Where there is room for names, they differ in what is kept of them. -/
  apart : config.environment.length + 1 < maxEnvironmentLength → ∀ i j,
    keptEnd config.environment.toList (strip isPythonSpace (instanceId i)) =
      keptEnd config.environment.toList (strip isPythonSpace (instanceId j)) → i = j

namespace Fleet

variable {ι : Type} (fleet : Fleet ι)

/-- The environment of a process. -/
def environment (i : ι) : Option String :=
  (instanceEnvironment fleet.config.environment.toList (some (fleet.instanceId i))).map
    String.ofList

/-- What a declaration reads of the settings of a process. -/
def settings (i : ι) : Python.Config where
  usable := true
  autoRegister := true
  perInstanceJobs := fleet.perInstanceJobs
  instanceEnvironment :=
    instanceEnvironment fleet.config.environment.toList (some (fleet.instanceId i))

/-- `_split`, of the jobs that all instances share and those of this one. -/
def groups (i : ι) :
    List SilenceWatchClient.DiscoveredJob × List SilenceWatchClient.DiscoveredJob :=
  splitBy (fun job => (fleet.settings i).isShared ⟨job.key.toList, job.cron.map String.toList⟩)
    (fleet.settings i).instanceEnvironment.isSome fleet.jobs

/-- The declarations of `ensure_registered`. A group without jobs is not declared. -/
def payloads (i : ι) : List SyncPayload :=
  let (shared, perInstance) := fleet.groups i
  [(shared, none), (perInstance, fleet.environment i)].filterMap fun (group, environment) =>
    if group.isEmpty then none
    else some (fleet.config.buildPayload group (source fleet.integrations) environment)

/-- The server reads a request from a declaration of the process. -/
def Sends (isValidTimezone : String → Bool) (i : ι) (request : SyncRequest) : Prop :=
  ∃ payload ∈ fleet.payloads i, syncRequestSchema isValidTimezone payload = some request
  deriving Decidable

variable {fleet} {isValidTimezone : String → Bool} {request request' : SyncRequest} {i j : ι}

/-- The environment of a process. -/
theorem environment_eq_some {own : String} (h : fleet.environment i = some own) :
    own = String.ofList (fleet.config.environment.toList ++ '.' ::
        keptEnd fleet.config.environment.toList (strip isPythonSpace (fleet.instanceId i))) ∧
      environmentOf fleet.config.environment.toList (strip isPythonSpace (fleet.instanceId i)) =
        some own.toList := by
  obtain ⟨name, hname, rfl⟩ := Option.map_eq_some_iff.mp h
  unfold instanceEnvironment at hname
  dsimp only [Option.getD_some] at hname
  rw [if_neg (fleet.named i)] at hname
  rw [(environmentOf_eq_some hname).1, String.toList_ofList, ← (environmentOf_eq_some hname).1]
  exact ⟨rfl, hname⟩

/-- The environment of a process needs no trimming, and is not the one that all share. -/
theorem environment_valid {own : String} (h : fleet.environment i = some own) :
    trimmed own = own ∧ own ≠ "" ∧ own ≠ fleet.config.environment := by
  obtain ⟨-, hname⟩ := environment_eq_some h
  obtain ⟨-, hne, hchars, hother⟩ := environmentOf_valid fleet.accepted hname
  refine ⟨trimmed_of_environment hchars, ?_, ?_⟩
  · rintro rfl
    exact hne rfl
  · rintro rfl
    exact hother rfl

/-- **No two processes have one environment.** -/
theorem environment_injective {own : String} (h : fleet.environment i = some own)
    (h' : fleet.environment j = some own) : i = j := by
  obtain ⟨-, hname⟩ := environment_eq_some h
  obtain ⟨-, hname'⟩ := environment_eq_some h'
  have hroom := (environmentOf_eq_some hname).2
  rw [String.length_toList] at hroom
  by_contra hne
  exact environmentOf_ne hname hname' (fun hkept => hne (fleet.apart hroom i j hkept)) rfl

/-- Whether there is room for a name is the same for all of them. -/
theorem isSome_instanceEnvironment (i : ι) :
    (fleet.settings i).instanceEnvironment.isSome = true ↔
      fleet.config.environment.length + 1 < maxEnvironmentLength := by
  unfold settings instanceEnvironment environmentOf
  dsimp only [Option.getD_some]
  rw [if_neg (fleet.named i), ← String.length_toList]
  split
  · next hroom =>
    refine iff_of_false Bool.false_ne_true ?_
    omega
  · next hroom =>
    refine iff_of_true rfl ?_
    omega

/-- The jobs are divided the same way everywhere. -/
theorem groups_eq (i j : ι) : fleet.groups i = fleet.groups j := by
  have hsome : (fleet.settings i).instanceEnvironment.isSome =
      (fleet.settings j).instanceEnvironment.isSome := by
    rw [Bool.eq_iff_iff, isSome_instanceEnvironment, isSome_instanceEnvironment]
  unfold groups
  rw [hsome]
  rfl

/-- A process without an environment of its own has no jobs of its own. -/
theorem groups_of_none (h : fleet.environment i = none) : (fleet.groups i).2 = [] := by
  have hnone : (fleet.settings i).instanceEnvironment.isSome = false := by
    rw [show (fleet.settings i).instanceEnvironment = none from Option.map_eq_none_iff.mp h]
    rfl
  unfold groups splitBy
  dsimp only
  rw [hnone]
  split
  · rfl
  · next hnot => simpa using hnot

/-- **What a process sends**: the jobs that all instances share, in the environment that they
share, or its own jobs in its own environment. -/
theorem Sends.cases (h : fleet.Sends isValidTimezone i request) :
    (request.environment = some fleet.config.environment ∧
        request.keys = (fleet.groups i).1.map fun job => trimmed job.key) ∨
      ∃ own, fleet.environment i = some own ∧ request.environment = some own ∧
        request.keys = (fleet.groups i).2.map fun job => trimmed job.key := by
  obtain ⟨payload, hpayload, hschema⟩ := h
  obtain ⟨henvironment, hkeys⟩ := syncRequestSchema_eq hschema
  have hkeysOf (group : List SilenceWatchClient.DiscoveredJob) (environment : Option String)
      (hpayload : fleet.config.buildPayload group (source fleet.integrations) environment =
        payload) :
      request.environment = some (trimmed (orElse environment fleet.config.environment)) ∧
        request.keys = group.map fun job => trimmed job.key := by
    rw [henvironment, hkeys, ← hpayload]
    refine ⟨rfl, ?_⟩
    exact List.map_map
  obtain ⟨⟨group, environment⟩, hgroup, hpayload⟩ := List.mem_filterMap.mp hpayload
  obtain ⟨hempty, hpayload⟩ := Option.ite_none_left_eq_some.mp hpayload
  obtain ⟨henvironment, hkeys⟩ := hkeysOf group environment (Option.some.inj hpayload)
  simp only [List.mem_cons, List.not_mem_nil, or_false, Prod.mk.injEq] at hgroup
  rcases hgroup with ⟨rfl, rfl⟩ | ⟨rfl, rfl⟩
  · left
    rw [henvironment, hkeys, show orElse none fleet.config.environment =
      fleet.config.environment from rfl, trimmed_of_environment fleet.accepted]
    exact ⟨rfl, rfl⟩
  · right
    cases hown : fleet.environment i with
    | none => exact absurd (List.isEmpty_iff.mpr (groups_of_none hown)) hempty
    | some own =>
      obtain ⟨htrimmed, hne, -⟩ := environment_valid hown
      refine ⟨own, rfl, ?_, hkeys⟩
      rw [henvironment, hown, orElse, if_neg hne, htrimmed]

/-- Two processes that declare in one environment declare the same jobs. -/
theorem Sends.keys_eq (h : fleet.Sends isValidTimezone i request)
    (h' : fleet.Sends isValidTimezone j request')
    (henvironment : request'.environment = request.environment) :
    request'.keys = request.keys := by
  rcases h.cases with ⟨hshared, hkeys⟩ | ⟨own, hown, hmine, hkeys⟩
  · rcases h'.cases with ⟨-, hkeys'⟩ | ⟨own', hown', hmine', -⟩
    · rw [hkeys, hkeys', groups_eq i j]
    · rw [hshared, hmine'] at henvironment
      exact absurd (Option.some.inj henvironment) (environment_valid hown').2.2
  · rcases h'.cases with ⟨hshared', -⟩ | ⟨own', hown', hmine', hkeys'⟩
    · rw [hmine, hshared'] at henvironment
      exact absurd (Option.some.inj henvironment).symm (environment_valid hown).2.2
    · rw [hmine, hmine'] at henvironment
      rw [Option.some.inj henvironment] at hown'
      rw [hkeys, hkeys', environment_injective hown hown']

/-- The environment of a declaration is not empty. -/
theorem Sends.environment_ne (h : fleet.Sends isValidTimezone i request) :
    ∃ environment, request.environment = some environment ∧ environment ≠ "" := by
  rcases h.cases with ⟨hshared, -⟩ | ⟨own, hown, hmine, -⟩
  · exact ⟨_, hshared, fleet.nonempty⟩
  · exact ⟨own, hmine, (environment_valid hown).2.1⟩

end Fleet

end Python

/-! ### Declaring in any order -/

/-- None of the jobs that a request names is flagged as orphaned. -/
def SyncRequest.Watched (projectId : Uuid) (request : SyncRequest) (db : Database) : Prop :=
  ∀ c ∈ db.checks.rows, ∀ key ∈ request.keys,
    c.DeclaredAs projectId request.environment key → c.orphanedAt = none
  deriving Decidable

/-- A request keeps the jobs of another one: it is for another project or environment, or it names
all of them. -/
def SyncRequest.Spares (projectId : Uuid) (request : SyncRequest) (otherProject : Uuid)
    (other : SyncRequest) : Prop :=
  otherProject = projectId → other.environment = request.environment → request.keys ⊆ other.keys

/-- What may happen to the jobs of a request that they stay watched: declarations that spare them,
updates that move no check into their environment, and whatever else. -/
def SyncRequest.Allows (projectId : Uuid) (request : SyncRequest) : Write → Prop
  | .sync otherProject other _ => request.Spares projectId otherProject other
  | .update _ input => input.environment ≠ some request.environment
  | _ => True

section Server

variable {srv : Server} {db : Database} {projectId : Uuid} {request other : SyncRequest}
  {environment : String}

/-- In an environment that is not empty, a declared check has that very environment. -/
theorem Check.DeclaredAs.environment_eq {c : Check} {key : String}
    (h : c.DeclaredAs projectId (some environment) key) (hne : environment ≠ "") :
    c.environment = some environment := by
  have hsame : c.environment.getD "" = environment := h.2.2
  cases hc : c.environment with
  | none =>
    rw [hc] at hsame
    exact absurd hsame.symm hne
  | some own =>
    rw [hc] at hsame
    exact congrArg some hsame

/-- A sync that spares a job does not flag it. -/
theorem Check.synced_orphanedAt {c : Check} {key : String} {otherProject : Uuid} {now : ℤ}
    {accepted : List SyncRow} (hspares : request.Spares projectId otherProject other)
    (hkey : key ∈ request.keys) (hproject : c.projectId = projectId)
    (hnamed : c.key = some key) (henvironment : c.environment = request.environment)
    (hwatched : c.orphanedAt = none) :
    (c.synced now otherProject other accepted).orphanedAt = none := by
  have hupserted : (c.upserted otherProject other.environment accepted).orphanedAt = none ∧
      c.SameRow (c.upserted otherProject other.environment accepted) ∧
      (c.upserted otherProject other.environment accepted).environment = c.environment := by
    unfold Check.upserted
    split
    · exact ⟨rfl, ⟨rfl, rfl, rfl, rfl, rfl⟩, rfl⟩
    · exact ⟨hwatched, Check.SameRow.refl c, rfl⟩
  obtain ⟨hnone, hsame, hmoved⟩ := hupserted
  unfold Check.synced Check.flagged
  split
  · next hflagged =>
    have hother := hflagged.2.1
    have hin := hflagged.2.2.2.2.1
    rw [hsame.projectId, hproject] at hother
    rw [hmoved, henvironment] at hin
    have hnamed' := hspares hother.symm hin.symm hkey
    exact absurd hflagged.2 (Check.not_orphaned_of_named (hsame.key.trans hnamed) hnamed')
  · exact hnone

/-- **A step.** What the request may be exposed to leaves its jobs watched. -/
theorem SyncRequest.Watched.perform {e : Event} (h : request.Watched projectId db)
    (henvironment : request.environment = some environment) (hne : environment ≠ "")
    (hallows : request.Allows projectId e.write) :
    request.Watched projectId (perform srv db e) := by
  intro c' hc' key hkey hdeclared
  have hplace : c'.environment = request.environment := by
    rw [henvironment] at hdeclared ⊢
    exact hdeclared.environment_eq hne
  obtain ⟨hproject, hnamed, hsame⟩ := hdeclared
  rcases perform_rows srv db e hc' with ⟨c, hc, hrewritten⟩ | ⟨hinserted, -⟩
  · have hwatched (hproject : c.projectId = projectId) (hnamed : c.key = some key)
        (hplace : c.environment = request.environment) : c.orphanedAt = none :=
      h c hc key hkey ⟨hproject, hnamed, congrArg (fun environment => environment.getD "") hplace⟩
    generalize e.write = w at hrewritten hallows
    cases hrewritten with
    | synced =>
      rw [c.synced_sameRow.1.projectId] at hproject
      rw [c.synced_sameRow.1.key] at hnamed
      rw [c.synced_sameRow.2] at hplace
      exact Check.synced_orphanedAt hallows hkey hproject hnamed hplace
        (hwatched hproject hnamed hplace)
    | @updated _ input data _ _ hdata =>
      refine hwatched hproject hnamed ?_
      have hkept : data.environment.getD c.environment = request.environment := hplace
      rw [updateData_environment hdata] at hkept
      cases hinput : input.environment with
      | none => simpa [hinput] using hkept
      | some moved =>
        rw [hinput] at hkept
        exact absurd (hinput.trans (congrArg some hkept)) hallows
    | _ => exact hwatched hproject hnamed hplace
  · generalize e.write = w at hinserted
    cases hinserted <;> rfl

/-- After a sync its jobs are watched. -/
theorem SyncRequest.watched_of_sync {quotas : QuotaConfig} {cron : CronParser}
    {syncSlug : SyncSlug} {now : ℤ} {generated : String → Uuid × Uuid} {db' : Database}
    {result : SyncResult}
    (henvironment : request.environment = some environment) (hne : environment ≠ "")
    (hsync : syncWithinQuota quotas cron syncSlug now projectId request generated db =
      .ok (db', result)) :
    request.Watched projectId db' := by
  obtain ⟨rows, accepted, hs⟩ := syncWithinQuota_synced hsync
  intro c' hc' key hkey hdeclared
  rcases hs.mem_rows.mp hc' with ⟨c, hc, rfl⟩ | ⟨row, hrow, hnew, rfl⟩
  · obtain ⟨job, hjob, rfl⟩ := List.mem_map.mp hkey
    have hplace : (c.synced now projectId request accepted).environment = request.environment := by
      rw [henvironment] at hdeclared ⊢
      exact hdeclared.environment_eq hne
    obtain ⟨hproject, hnamed, -⟩ := hdeclared
    rw [c.synced_sameRow.1.projectId] at hproject
    rw [c.synced_sameRow.1.key] at hnamed
    rw [c.synced_sameRow.2] at hplace
    exact (hs.updated hc hjob hproject hplace hnamed).2.orphanedAt
  · rfl

end Server

namespace Python.Fleet

variable {ι : Type} (fleet : Fleet ι) (isValidTimezone : String → Bool)

/-- What may happen to a project besides: what others declare is in other environments, and no
check is moved into one of a process. -/
def Leaves (projectId : Uuid) : Write → Prop
  | .sync otherProject other _ => otherProject = projectId →
      (∃ j, fleet.Sends isValidTimezone j other) ∨
        ∀ j request, fleet.Sends isValidTimezone j request →
          other.environment ≠ request.environment
  | .update _ input => ∀ j request, fleet.Sends isValidTimezone j request →
      input.environment ≠ some request.environment
  | _ => True

variable {fleet isValidTimezone}

/-- Other processes spare the jobs of a request. -/
theorem Sends.allows {projectId : Uuid} {request : SyncRequest} {i : ι} {w : Write}
    (hsends : fleet.Sends isValidTimezone i request)
    (hleaves : fleet.Leaves isValidTimezone projectId w) : request.Allows projectId w := by
  cases w with
  | sync otherProject other generated =>
    intro hproject henvironment
    rcases hleaves hproject with ⟨j, hother⟩ | hapart
    · rw [hsends.keys_eq hother henvironment]
      exact List.Subset.refl _
    · exact absurd henvironment (hapart i request hsends)
  | update checkId input => exact hleaves i request hsends
  | _ => trivial

/-- **No process orphans what another one declared**, in whatever order any number of them
declare, once or again. -/
theorem no_instance_orphans (srv : Server) (projectId : Uuid) (i : ι) {request : SyncRequest}
    (hsends : fleet.Sends isValidTimezone i request) (now : ℤ) (generated : String → Uuid × Uuid)
    {db db' : Database} {result : SyncResult}
    (hsync : syncWithinQuota srv.quotas srv.cron srv.syncSlug now projectId request generated db =
      .ok (db', result))
    {es : List Event} (hes : ∀ e ∈ es, fleet.Leaves isValidTimezone projectId e.write) :
    Throughout (perform srv) (request.Watched projectId) db' es := by
  obtain ⟨environment, henvironment, hne⟩ := hsends.environment_ne
  refine throughout_of_step (P := fun _ e => fleet.Leaves isValidTimezone projectId e.write) ?_ ?_
    (along_of_forall hes)
  · intro db e hwatched hleaves
    exact hwatched.perform henvironment hne (hsends.allows hleaves)
  · exact SyncRequest.watched_of_sync henvironment hne hsync

/-- A job that each worker cleans up after itself with. -/
def cleanupJob : SilenceWatchClient.DiscoveredJob :=
  { nightlyTask with
    key := "apscheduler:cleanup"
    name := "cleanup"
    interval := some (3600 * 1000000) }

/-- Two workers. -/
def twoWorkers : Fleet Bool where
  config := defaultConfig
  perInstanceJobs := ["apscheduler:*".toList]
  jobs := [nightlyTask, cleanupJob]
  integrations := [.apscheduler, .celery]
  instanceId first := if first then "web 1".toList else "web 2".toList
  nonempty := by decide
  accepted := List.all_eq_true.mp (by decide)
  named := by decide
  apart _ := by decide

/-- What the server reads from the declaration that the workers share. -/
def sharedRequest : SyncRequest where
  environment := some "production"
  prune := true
  checks := [defaultConfig.job nightlyTask]

/-- What the server reads from the declaration of a worker. -/
def workerRequest (first : Bool) : SyncRequest where
  environment := some (if first then "production.web-1" else "production.web-2")
  prune := true
  checks := [defaultConfig.job cleanupJob]

theorem sends_sharedRequest (first : Bool) :
    twoWorkers.Sends (fun _ => true) first sharedRequest := by
  cases first <;> decide

theorem sends_workerRequest (first : Bool) :
    twoWorkers.Sends (fun _ => true) first (workerRequest first) := by
  cases first <;> decide

/-- A server without quotas, whose slugs name the environment. -/
def workerServer : Server where
  quotas := ⟨false, []⟩
  cron := fun _ _ _ => .error "no cron evaluator"
  syncSlug := fun name _ environment => name ++ environment.getD ""

/-- What the second worker declares after the first one. -/
def laterDeclarations : List Event :=
  [⟨2000, .sync 1 sharedRequest fun _ => (21, 22)⟩,
    ⟨3000, .sync 1 (workerRequest false) fun _ => (31, 32)⟩,
    ⟨4000, .sync 1 sharedRequest fun _ => (41, 42)⟩]

theorem no_instance_orphans_twoWorkers : ∃ db' result,
    syncWithinQuota workerServer.quotas workerServer.cron workerServer.syncSlug 1000 1
        (workerRequest true) (fun _ => (11, 12)) sampleDatabase = .ok (db', result) ∧
      Throughout (perform workerServer) ((workerRequest true).Watched 1) db' laterDeclarations := by
  obtain ⟨⟨db', result⟩, hsync⟩ : ∃ r, syncWithinQuota workerServer.quotas workerServer.cron
      workerServer.syncSlug 1000 1 (workerRequest true) (fun _ => (11, 12)) sampleDatabase =
        .ok r := ⟨_, rfl⟩
  refine ⟨db', result, hsync, no_instance_orphans workerServer 1 true (sends_workerRequest true)
    1000 (fun _ => (11, 12)) hsync ?_⟩
  intro e he
  simp only [laterDeclarations, List.mem_cons, List.not_mem_nil, or_false] at he
  rcases he with rfl | rfl | rfl
  · exact fun _ => Or.inl ⟨false, sends_sharedRequest false⟩
  · exact fun _ => Or.inl ⟨false, sends_workerRequest false⟩
  · exact fun _ => Or.inl ⟨true, sends_sharedRequest true⟩

end Python.Fleet

end SilenceWatch
