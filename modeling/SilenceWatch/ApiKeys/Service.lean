import SilenceWatch.Database.Schema
import SilenceWatch.Library.Run

/-!
# The ceiling on live API keys

`ApiKeyService.create` counts the live keys of the project in one statement and inserts the
new one in another, under no lock. Any number of creations and revocations with their
statements interleaved: the project stays within the ceiling as long as a count lets a
creation pass only where there is room for it beside the creations that were let pass
before it.
-/

namespace SilenceWatch

open Relational Transition

/-- A row of `api_key`. -/
structure ApiKey where
  id : Uuid
  projectId : Uuid
  name : List Char
  lookupId : List Char
  secretHash : List Char
  keyPrefix : List Char
  expiresAt : Option ℤ
  revokedAt : Option ℤ
  createdAt : ℤ
  deriving DecidableEq

/-- `api_key_pkey` and `api_key_lookup_id_key`. -/
def ApiKey.Distinct (k k' : ApiKey) : Prop := k.id ≠ k'.id ∧ k.lookupId ≠ k'.lookupId
  deriving Decidable

/-- Not revoked, and not expired at an instant. -/
def ApiKey.IsLive (instant : ℤ) (k : ApiKey) : Prop :=
  k.revokedAt = none ∧ ∀ expiresAt ∈ k.expiresAt, instant < expiresAt
  deriving Decidable

/-- The arguments of `create`. -/
structure CreateApiKey where
  projectId : Uuid
  name : List Char
  expiresInDays : Option ℕ
  deriving DecidableEq

/-- `NewApiKey`. -/
structure NewApiKey where
  projectId : Uuid
  name : List Char
  lookupId : List Char
  secretHash : List Char
  keyPrefix : List Char
  expiresAt : Option ℤ
  deriving DecidableEq

/-- How far a call of `create` has come. -/
inductive CreateCall where
  /-- It has read the clock for the count. -/
  | counting (request : CreateApiKey) (instant : ℤ)
  /-- The count let it pass. -/
  | admitted (request : CreateApiKey)
  /-- It has sent the row. -/
  | inserting (key : NewApiKey)
  deriving DecidableEq

/-- The table, the clock, and the calls of `create` under way. -/
structure ApiKeys where
  now : ℤ
  keys : Table ApiKey ApiKey.Distinct
  calls : List CreateCall

/-- What happens. The instants that a statement carries are read by its server before it. -/
inductive ApiKeysEvent where
  | elapse (ms : ℕ)
  | create (request : CreateApiKey)
  | count (request : CreateApiKey) (instant : ℤ)
  | generate (request : CreateApiKey) (lookupId secret : List Char)
  | insert (key : NewApiKey) (id : Uuid)
  /-- A call ends with whatever it had reached. -/
  | fail (call : CreateCall)
  | revoke (projectId apiKeyId : Uuid) (instant : ℤ)
  | purgeDead (instant : ℤ)

/-- `MAX_LIVE_KEYS_PER_PROJECT`. -/
def maxLiveKeysPerProject : ℕ := 25

/-- `DEAD_KEY_RETENTION_MS`. -/
def deadKeyRetentionMs : ℤ := 30 * 86400000

section Statements

variable (sha256Hex : List Char → List Char)

/-- The row that `create` sends, with what `generateApiKey` draws. -/
def CreateApiKey.toNewApiKey (request : CreateApiKey) (now : ℤ) (lookupId secret : List Char) :
    NewApiKey where
  projectId := request.projectId
  name := request.name
  lookupId := lookupId
  secretHash := sha256Hex secret
  keyPrefix := "sw_".toList ++ lookupId
  expiresAt := request.expiresInDays.map fun days => now + days * 86400000

/-- The row that the database stores, with its defaults. -/
def NewApiKey.toApiKey (key : NewApiKey) (id : Uuid) (now : ℤ) : ApiKey where
  id := id
  projectId := key.projectId
  name := key.name
  lookupId := key.lookupId
  secretHash := key.secretHash
  keyPrefix := key.keyPrefix
  expiresAt := key.expiresAt
  revokedAt := none
  createdAt := now

namespace ApiKeys

/-- `ApiKeysRepository.countLive`. -/
def countLive (s : ApiKeys) (projectId : Uuid) (instant : ℤ) : ℕ :=
  s.keys.rows.countP fun k => k.projectId = projectId ∧ k.IsLive instant

/-- The keys of a project that open the API now. -/
def liveKeys (s : ApiKeys) (projectId : Uuid) : ℕ := s.countLive projectId s.now

/-- `ApiKeysRepository.revoke`, the update. -/
def revoke (s : ApiKeys) (projectId apiKeyId : Uuid) (instant : ℤ) : ApiKeys :=
  { s with
    keys := s.keys.update
      (fun k => k.id = apiKeyId ∧ k.projectId = projectId ∧ k.revokedAt = none)
      (fun k => { k with revokedAt := some instant }) fun _ _ h => ⟨h, h⟩ }

/-- `ApiKeysRepository.deleteDeadBefore`. -/
def deleteDeadBefore (s : ApiKeys) (cutoff : ℤ) : ApiKeys :=
  { s with
    keys := s.keys.delete fun k =>
      (∃ revokedAt ∈ k.revokedAt, revokedAt < cutoff) ∨ ∃ expiresAt ∈ k.expiresAt,
        expiresAt < cutoff }

/-- The count of `create`: it refuses, or lets the call pass. -/
def checkCeiling (s : ApiKeys) (request : CreateApiKey) (instant : ℤ) : ApiKeys :=
  if maxLiveKeysPerProject ≤ s.countLive request.projectId instant then s
  else { s with calls := s.calls ++ [.admitted request] }

/-- The insert of `create`, which a unique index may refuse. -/
def insertKey (s : ApiKeys) (key : NewApiKey) (id : Uuid) : ApiKeys :=
  match s.keys.insert? (key.toApiKey id s.now) with
  | none => s
  | some keys => { s with keys := keys }

/-- A call leaves the state it was in. -/
def take (s : ApiKeys) (call : CreateCall) : ApiKeys := { s with calls := s.calls.erase call }

/-- The state after an event. -/
def step (s : ApiKeys) : ApiKeysEvent → ApiKeys
  | .elapse ms => { s with now := s.now + ms }
  | .create request => { s with calls := s.calls ++ [.counting request s.now] }
  | .count request instant =>
    if .counting request instant ∈ s.calls then
      (s.take (.counting request instant)).checkCeiling request instant
    else s
  | .generate request lookupId secret =>
    if .admitted request ∈ s.calls then
      let rest := s.take (.admitted request)
      { rest with
        calls := rest.calls ++ [.inserting (request.toNewApiKey sha256Hex s.now lookupId secret)] }
    else s
  | .insert key id =>
    if .inserting key ∈ s.calls then (s.take (.inserting key)).insertKey key id else s
  | .fail call => s.take call
  | .revoke projectId apiKeyId instant => s.revoke projectId apiKeyId instant
  | .purgeDead instant => s.deleteDeadBefore (instant - deadKeyRetentionMs)

end ApiKeys

/-- The call was let pass and has yet to insert a key of the project. -/
def CreateCall.WillInsert (projectId : Uuid) : CreateCall → Prop
  | .counting _ _ => False
  | .admitted request => request.projectId = projectId
  | .inserting key => key.projectId = projectId

instance (projectId : Uuid) : ∀ call : CreateCall, Decidable (call.WillInsert projectId)
  | .counting _ _ => .isFalse id
  | .admitted request => inferInstanceAs (Decidable (request.projectId = projectId))
  | .inserting key => inferInstanceAs (Decidable (key.projectId = projectId))

namespace ApiKeys

/-- The creations that were let pass and have yet to insert. -/
def pendingKeys (s : ApiKeys) (projectId : Uuid) : ℕ :=
  s.calls.countP fun call => call.WillInsert projectId

/-- A count that lets a creation of the project pass finds room for it beside the live keys
and the creations that were let pass before. -/
def AdmitsWithRoom (projectId : Uuid) (s : ApiKeys) : ApiKeysEvent → Prop
  | .count request instant =>
    .counting request instant ∈ s.calls → request.projectId = projectId →
      s.countLive projectId instant < maxLiveKeysPerProject →
        s.liveKeys projectId + s.pendingKeys projectId < maxLiveKeysPerProject
  | _ => True

end ApiKeys

end Statements

namespace ApiKeys

variable {sha256Hex : List Char → List Char} {s : ApiKeys} {projectId : Uuid} {e : ApiKeysEvent}
  {call : CreateCall}

/-- The live keys and those to come stay within the ceiling. -/
def RoomForAll (projectId : Uuid) (s : ApiKeys) : Prop :=
  s.liveKeys projectId + s.pendingKeys projectId ≤ maxLiveKeysPerProject

/-- A key that lives later lives now. -/
theorem countLive_anti (s : ApiKeys) (projectId : Uuid) {instant instant' : ℤ}
    (h : instant ≤ instant') : s.countLive projectId instant' ≤ s.countLive projectId instant := by
  refine List.countP_mono_left fun k _ hk => ?_
  obtain ⟨hproject, hrevoked, hexpires⟩ := of_decide_eq_true hk
  exact decide_eq_true ⟨hproject, hrevoked, fun e he => Int.lt_of_le_of_lt h (hexpires e he)⟩

variable (projectId) in
/-- A call that leaves takes its key to come with it. -/
theorem pendingKeys_take (hcall : call ∈ s.calls) :
    (s.take call).pendingKeys projectId + (if call.WillInsert projectId then 1 else 0) =
      s.pendingKeys projectId := by
  have herase := countP_erase_add (fun c => decide (CreateCall.WillInsert projectId c)) hcall
  simp only [decide_eq_true_eq] at herase
  exact herase

theorem pendingKeys_take_le (s : ApiKeys) (call : CreateCall) (projectId : Uuid) :
    (s.take call).pendingKeys projectId ≤ s.pendingKeys projectId :=
  List.erase_sublist.countP_le

@[simp] theorem liveKeys_take (s : ApiKeys) (call : CreateCall) :
    (s.take call).liveKeys projectId = s.liveKeys projectId := rfl

/-- A call that comes brings its key to come. -/
theorem pendingKeys_snoc (s : ApiKeys) (call : CreateCall) :
    ({ s with calls := s.calls ++ [call] } : ApiKeys).pendingKeys projectId =
      s.pendingKeys projectId + (if call.WillInsert projectId then 1 else 0) := by
  unfold pendingKeys
  rw [List.countP_append, List.countP_singleton]
  simp only [decide_eq_true_eq]

theorem liveKeys_revoke_le (s : ApiKeys) (apiKeyId projectId' : Uuid) (instant : ℤ) :
    (s.revoke projectId' apiKeyId instant).liveKeys projectId ≤ s.liveKeys projectId := by
  unfold liveKeys countLive revoke Table.update
  dsimp only
  rw [List.countP_map]
  refine List.countP_mono_left fun k _ hk => ?_
  unfold Function.comp updateRow at hk
  split at hk
  · obtain ⟨_, hrevoked, _⟩ := of_decide_eq_true hk
    cases hrevoked
  · exact hk

theorem liveKeys_deleteDeadBefore_le (s : ApiKeys) (cutoff : ℤ) :
    (s.deleteDeadBefore cutoff).liveKeys projectId ≤ s.liveKeys projectId :=
  List.filter_sublist.countP_le

/-- An insert adds at most its own key. -/
theorem liveKeys_insertKey_le (s : ApiKeys) (key : NewApiKey) (id projectId : Uuid) :
    (s.insertKey key id).liveKeys projectId ≤
      s.liveKeys projectId + (if key.projectId = projectId then 1 else 0) := by
  unfold insertKey
  split
  · exact Nat.le_add_right _ _
  · next keys hinsert =>
    unfold liveKeys countLive
    dsimp only
    rw [Table.insert?_eq_some hinsert, List.countP_append, List.countP_singleton]
    refine Nat.add_le_add_left ?_ _
    split
    · next hlive =>
      have hproject : key.projectId = projectId := (of_decide_eq_true hlive).1
      exact Nat.le_of_eq (if_pos hproject).symm
    · exact Nat.zero_le _

theorem pendingKeys_insertKey (s : ApiKeys) (key : NewApiKey) (id : Uuid) :
    (s.insertKey key id).pendingKeys projectId = s.pendingKeys projectId := by
  unfold insertKey
  split
  · rfl
  · rfl

/-- A count keeps room for all where it lets a creation pass with room. -/
theorem RoomForAll.count {request : CreateApiKey} {instant : ℤ} (h : s.RoomForAll projectId)
    (hcall : .counting request instant ∈ s.calls)
    (hroom : AdmitsWithRoom projectId s (.count request instant)) :
    ((s.take (.counting request instant)).checkCeiling request instant).RoomForAll projectId := by
  have hpending := s.pendingKeys_take_le (.counting request instant) projectId
  unfold RoomForAll at h ⊢
  unfold checkCeiling
  split
  · rw [liveKeys_take]
    omega
  · next hbelow =>
    rw [pendingKeys_snoc]
    change s.liveKeys projectId + _ ≤ _
    split
    · next hproject =>
      have hproject : request.projectId = projectId := hproject
      subst hproject
      have hfree := hroom hcall rfl (Nat.lt_of_not_le hbelow)
      omega
    · omega

/-- The key to come of a call becomes a key. -/
theorem RoomForAll.insert {key : NewApiKey} (h : s.RoomForAll projectId)
    (hcall : .inserting key ∈ s.calls) (id : Uuid) :
    ((s.take (.inserting key)).insertKey key id).RoomForAll projectId := by
  have hlive := (s.take (.inserting key)).liveKeys_insertKey_le key id projectId
  have hpending := pendingKeys_take projectId hcall
  have hsame : (if CreateCall.WillInsert projectId (.inserting key) then 1 else 0) =
      if key.projectId = projectId then 1 else 0 := rfl
  rw [liveKeys_take] at hlive
  unfold RoomForAll at h ⊢
  rw [pendingKeys_insertKey]
  omega

/-- **One step.** What lets creations pass with room keeps room for all. -/
theorem RoomForAll.step (h : s.RoomForAll projectId) (he : AdmitsWithRoom projectId s e) :
    (s.step sha256Hex e).RoomForAll projectId := by
  cases e with
  | elapse ms =>
    have hlater : s.now ≤ s.now + ms := by omega
    exact Nat.le_trans (Nat.add_le_add_right (s.countLive_anti projectId hlater) _) h
  | create request =>
    unfold RoomForAll ApiKeys.step
    dsimp only
    rw [pendingKeys_snoc]
    exact h
  | count request instant =>
    unfold ApiKeys.step
    dsimp only
    split
    · next hcall => exact h.count hcall he
    · exact h
  | generate request lookupId secret =>
    unfold ApiKeys.step
    dsimp only
    split
    · next hcall =>
      -- The call changes its state and stays pending for the same project.
      have hpending := pendingKeys_take projectId hcall
      have hsame : (if CreateCall.WillInsert projectId
            (.inserting (request.toNewApiKey sha256Hex s.now lookupId secret)) then 1 else 0) =
          if CreateCall.WillInsert projectId (.admitted request) then 1 else 0 := rfl
      unfold RoomForAll at h ⊢
      rw [pendingKeys_snoc]
      change s.liveKeys projectId + _ ≤ _
      omega
    · exact h
  | insert key id =>
    unfold ApiKeys.step
    dsimp only
    split
    · next hcall => exact h.insert hcall id
    · exact h
  | fail call =>
    exact Nat.le_trans (Nat.add_le_add_left (s.pendingKeys_take_le call projectId) _) h
  | revoke projectId' apiKeyId instant =>
    exact Nat.le_trans
      (Nat.add_le_add_right (s.liveKeys_revoke_le apiKeyId projectId' instant) _) h
  | purgeDead instant =>
    exact Nat.le_trans (Nat.add_le_add_right (s.liveKeys_deleteDeadBefore_le _) _) h

/-- A creation that counts while no other of the project is pending has room: a key that
lived when it read the clock and is still there was counted. -/
theorem admitsWithRoom_of_alone {request : CreateApiKey} {instant : ℤ}
    (hpast : instant ≤ s.now) (halone : s.pendingKeys projectId = 0) :
    AdmitsWithRoom projectId s (.count request instant) := by
  intro _ _ hbelow
  have hlive := s.countLive_anti projectId hpast
  rw [halone]
  exact Nat.lt_of_le_of_lt hlive hbelow

/-- **The ceiling.** Where no call is under way, a project within the ceiling stays within
it along every run whose counts let creations pass only with room. -/
theorem liveKeys_le_of_admitsWithRoom (hlive : s.liveKeys projectId ≤ maxLiveKeysPerProject)
    (hidle : s.calls = []) (es : List ApiKeysEvent)
    (hroom : Along (step sha256Hex) (AdmitsWithRoom projectId) s es) :
    Throughout (step sha256Hex) (fun s => s.liveKeys projectId ≤ maxLiveKeysPerProject) s es := by
  have hstart : s.RoomForAll projectId := by
    unfold RoomForAll pendingKeys
    rw [hidle]
    exact hlive
  exact (throughout_of_step (fun _ _ h he => h.step he) hstart hroom).mono
    fun _ h => Nat.le_trans (Nat.le_add_right _ _) h

/-- Twenty-four keys of one project, and nothing under way. -/
def oneBelow : ApiKeys where
  now := 0
  keys :=
    { rows := (List.range 24).map fun id =>
        ⟨id, 0, "deploy".toList, List.replicate id '0', [], [], none, none, 0⟩
      distinct := by
        refine List.pairwise_map.mpr (List.pairwise_lt_range.imp fun {id id'} hlt => ⟨?_, ?_⟩)
        · exact Nat.ne_of_lt hlt
        · intro hsame
          have hlength := congrArg List.length hsame
          rw [List.length_replicate, List.length_replicate] at hlength
          omega }
  calls := []

/-- Two creations in that project. -/
def starterKey : CreateApiKey := ⟨0, "starter".toList, none⟩

def scriptKey : CreateApiKey := ⟨0, "script".toList, some 30⟩

/-- Both count before either inserts. -/
def bothCount : List ApiKeysEvent :=
  [.create starterKey, .create scriptKey, .count starterKey 0, .count scriptKey 0,
    .generate starterKey "a".toList "x".toList, .generate scriptKey "b".toList "y".toList,
    .insert (starterKey.toNewApiKey id 0 "a".toList "x".toList) 24,
    .insert (scriptKey.toNewApiKey id 0 "b".toList "y".toList) 25]

/-- The second one is refused, and passes when a key was revoked. -/
def afterRevocation : List ApiKeysEvent :=
  [.create starterKey, .count starterKey 0, .generate starterKey "a".toList "x".toList,
    .insert (starterKey.toNewApiKey id 0 "a".toList "x".toList) 24, .create scriptKey,
    .count scriptKey 0, .revoke 0 3 0, .create scriptKey, .count scriptKey 0,
    .generate scriptKey "b".toList "y".toList,
    .insert (scriptKey.toNewApiKey id 0 "b".toList "y".toList) 25]

theorem liveKeys_le_of_turns :
    Throughout (step id) (fun s => s.liveKeys 0 ≤ maxLiveKeysPerProject) oneBelow
        afterRevocation ∧
      (run (step id) oneBelow afterRevocation).liveKeys 0 = 25 := by
  have halone : ∀ {s : ApiKeys}, s.now = 0 → s.pendingKeys 0 = 0 → ∀ request,
      AdmitsWithRoom 0 s (.count request 0) := fun hnow hnone request =>
    admitsWithRoom_of_alone (hnow ▸ Int.le_refl 0) hnone
  refine ⟨liveKeys_le_of_admitsWithRoom (by decide) rfl _ ⟨trivial, ?_, trivial, trivial, trivial,
    ?_, trivial, trivial, ?_, trivial, trivial, trivial⟩, by decide⟩
  · exact halone rfl rfl starterKey
  · exact halone rfl rfl scriptKey
  · exact halone rfl rfl scriptKey

/-- The ceiling does not hold for every interleaving. -/
theorem not_liveKeys_le :
    ¬ ∀ (s : ApiKeys) (projectId : Uuid) (es : List ApiKeysEvent),
      s.liveKeys projectId ≤ maxLiveKeysPerProject → s.calls = [] →
        Throughout (step id) (fun s => s.liveKeys projectId ≤ maxLiveKeysPerProject) s es := by
  intro hall
  have hlast := (hall oneBelow 0 bothCount (by decide) rfl).last
  exact absurd hlast (by decide)

end ApiKeys

end SilenceWatch
