import SilenceWatch.Channels.Service

/-!
# Test alerts

`ChannelsService.sendTest` lets a test through when its statement marks the channel, or when
no channel is left to mark. Whatever order the statements of any number of requests come in,
and whatever the clocks of their instances say, the tests let through of a channel that is
still there are more than the cooldown apart.
-/

namespace SilenceWatch

open Relational Transition

/-- `TEST_ALERT_MAX_PER_HOUR` and `TEST_ALERT_COOLDOWN_SECONDS`; zero turns a bound off. -/
structure TestLimits where
  maxPerHour : ℕ
  cooldownSeconds : ℕ

/-- A test that was let through, with the instant it was let through at. -/
structure TestPass where
  channelId : Uuid
  passedAt : ℤ
  deriving DecidableEq

/-- How far a request for a test is: `refused` by the statement at an instant, it reads the
channel again. -/
inductive TestStage where
  | idle
  | found (projectId channelId : Uuid)
  | counted (projectId channelId : Uuid)
  | refused (projectId channelId : Uuid) (now : ℤ)
  deriving DecidableEq

/-- The channel that a request has found, with its project. -/
def TestStage.target : TestStage → Option (Uuid × Uuid)
  | .idle => none
  | .found projectId channelId | .counted projectId channelId
  | .refused projectId channelId _ => some (projectId, channelId)

/-- The database, the requests and the tests let through, the latest last. -/
structure TestRace where
  db : ChannelsDatabase
  testers : ℕ → TestStage
  passed : List TestPass

/-- What may happen next: a request for a test arrives, counts what `countRecent` answers,
issues its next statement by its own clock or fails, or the channels are written. -/
inductive TestEvent where
  | test (tester : ℕ) (projectId channelId : Uuid)
  | count (tester used : ℕ)
  | proceed (tester : ℕ) (now : ℤ)
  | abort (tester : ℕ)
  | create (input : CreateChannelRequest)
  | write (w : ChannelWrite)
  deriving DecidableEq

/-- `Math.max(1, Math.ceil(wait / 1000))` for what is left of the cooldown. -/
def retryAfterSeconds (cooldownSeconds : ℕ) (now lastTestedAt : ℤ) : ℤ :=
  max 1 (-(-(cooldownSeconds * 1000 - (now - lastTestedAt)) / 1000))

/-- The second half of `ChannelsRepository.claimTest`: the seconds to wait, or 0. -/
def ChannelsDatabase.waitFor (db : ChannelsDatabase) (limits : TestLimits)
    (projectId channelId : Uuid) (now : ℤ) : ℤ :=
  match db.findInProject projectId channelId with
  | none => 0
  | some ch =>
    match db.lastTestedAt ch.id with
    | none => 0
    | some lastTestedAt => retryAfterSeconds limits.cooldownSeconds now lastTestedAt

namespace TestRace

/-- A request goes on to another stage. -/
def setTester (s : TestRace) (tester : ℕ) (stage : TestStage) : TestRace :=
  { s with testers := Function.update s.testers tester stage }

/-- A test is let through. -/
def pass (s : TestRace) (tester : ℕ) (channelId : Uuid) (now : ℤ) : TestRace :=
  { s.setTester tester .idle with passed := s.passed ++ [⟨channelId, now⟩] }

/-- The state after an event. -/
def step (limits : TestLimits) (s : TestRace) : TestEvent → TestRace
  | .test tester projectId channelId =>
    match s.testers tester, s.db.findInProject projectId channelId with
    | .idle, some _ => s.setTester tester (.found projectId channelId)
    | _, _ => s
  | .count tester used =>
    match s.testers tester with
    | .found projectId channelId =>
      if 0 < limits.maxPerHour ∧ limits.maxPerHour ≤ used then s.setTester tester .idle
      else s.setTester tester (.counted projectId channelId)
    | _ => s
  | .proceed tester now =>
    match s.testers tester with
    | .counted projectId channelId =>
      if limits.cooldownSeconds = 0 then s.pass tester channelId now
      else if s.db.Testable projectId channelId limits.cooldownSeconds now then
        { s with db := s.db.markTested channelId now }.pass tester channelId now
      else s.setTester tester (.refused projectId channelId now)
    | .refused projectId channelId refusedAt =>
      if 0 < s.db.waitFor limits projectId channelId refusedAt then s.setTester tester .idle
      else s.pass tester channelId now
    | _ => s
  | .abort tester => s.setTester tester .idle
  | .create input => { s with db := (s.db.create input).getD s.db }
  | .write w => { s with db := s.db.write w }

/-- The tests let through of one channel. -/
def passedOf (s : TestRace) (channelId : Uuid) : List TestPass :=
  s.passed.filter fun p => p.channelId = channelId

/-- A drawn id is of no channel that was tested or is about to be. -/
def Fresh (s : TestRace) : TestEvent → Prop
  | .create input =>
    (∀ p ∈ s.passed, p.channelId ≠ input.id) ∧
      ∀ tester projectId, (s.testers tester).target ≠ some (projectId, input.id)
  | _ => True

/-- The tests of a channel are more than the cooldown apart, in the order they were let
through. -/
def Apart (limits : TestLimits) (s : TestRace) (channelId : Uuid) : Prop :=
  (s.passedOf channelId).Pairwise fun (p p' : TestPass) =>
    p.passedAt + limits.cooldownSeconds * 1000 < p'.passedAt
  deriving Decidable

/-- Of a channel that is there the tests are apart and no later than its mark, whoever found it
knows its project, and whoever was refused was refused because of the mark. -/
structure Marked (limits : TestLimits) (s : TestRace) (ch : Channel) : Prop where
  apart : s.Apart limits ch.id
  mark : ∀ p ∈ s.passed, p.channelId = ch.id →
    ∃ tested ∈ s.db.lastTestedAt ch.id, p.passedAt ≤ tested
  project : ∀ tester projectId, (s.testers tester).target = some (projectId, ch.id) →
    projectId = ch.projectId
  refused : ∀ tester projectId now, s.testers tester = .refused projectId ch.id now →
    s.db.lastTestedAt ch.id ≠ none

section Steps

variable {limits : TestLimits} {s : TestRace} {ch : Channel} {tester : ℕ}

namespace Marked

variable (h : s.Marked limits ch)

include h

/-- A request goes on to a stage that suits the channel. -/
theorem setTester {stage : TestStage}
    (hproject : ∀ projectId, stage.target = some (projectId, ch.id) → projectId = ch.projectId)
    (hrefused : ∀ projectId now, stage = .refused projectId ch.id now →
      s.db.lastTestedAt ch.id ≠ none) : (s.setTester tester stage).Marked limits ch where
  apart := h.apart
  mark := h.mark
  project := by
    intro other projectId hother
    by_cases hsame : other = tester
    · simp only [hsame, TestRace.setTester, Function.update_self] at hother
      exact hproject projectId hother
    · simp only [TestRace.setTester, Function.update_of_ne hsame] at hother
      exact h.project other projectId hother
  refused := by
    intro other projectId now hother
    by_cases hsame : other = tester
    · simp only [hsame, TestRace.setTester, Function.update_self] at hother
      exact hrefused projectId now hother
    · simp only [TestRace.setTester, Function.update_of_ne hsame] at hother
      exact h.refused other projectId now hother

/-- A request ends. -/
theorem idle (tester : ℕ) : (s.setTester tester .idle).Marked limits ch := by
  apply h.setTester
  · intro projectId htarget
    cases htarget
  · intro projectId now hstage
    cases hstage

/-- A test of another channel is let through. -/
theorem pass_other {channelId : Uuid} (hother : channelId ≠ ch.id) (now : ℤ) :
    (s.pass tester channelId now).Marked limits ch := by
  have hidle := h.idle tester
  constructor
  case apart =>
    simpa [TestRace.Apart, TestRace.passedOf, TestRace.pass, List.filter_append, hother]
      using h.apart
  case mark =>
    intro p hp hid
    rcases List.mem_append.mp hp with hold | hnew
    · exact h.mark p hold hid
    · rw [List.mem_singleton.mp hnew] at hid
      exact absurd hid hother
  case project => exact hidle.project
  case refused => exact hidle.refused

/-- The mark of the channel moves on to a later instant, or stays. -/
theorem write {db : ChannelsDatabase} {ch' : Channel} (hid : ch.id = ch'.id)
    (hproject : ch.projectId = ch'.projectId)
    (hmark : ∀ tested ∈ s.db.lastTestedAt ch.id,
      ∃ later ∈ db.lastTestedAt ch.id, tested ≤ later) :
    { s with db }.Marked limits ch' where
  apart := hid ▸ h.apart
  mark := by
    intro p hp hch
    obtain ⟨tested, htested, hle⟩ := h.mark p hp (hch.trans hid.symm)
    obtain ⟨later, hlater, hle'⟩ := hmark tested htested
    exact ⟨later, hid ▸ hlater, hle.trans hle'⟩
  project := fun other projectId hother =>
    (h.project other projectId (hid ▸ hother)).trans hproject
  refused := by
    intro other projectId now hother
    obtain ⟨tested, htested⟩ :=
      Option.ne_none_iff_exists'.mp (h.refused other projectId now (hid ▸ hother))
    obtain ⟨later, hlater, _⟩ := hmark tested htested
    rw [← hid, Option.mem_def.mp hlater]
    exact Option.some_ne_none later

/-- The statement marks the channel, and its test is let through. -/
theorem claim {projectId : Uuid} {now : ℤ}
    (htestable : s.db.Testable projectId ch.id limits.cooldownSeconds now) :
    ({ s with db := s.db.markTested ch.id now }.pass tester ch.id now).Marked limits ch := by
  have hlast (p : TestPass) (hp : p ∈ s.passed) (hid : p.channelId = ch.id) :
      p.passedAt + limits.cooldownSeconds * 1000 < now := by
    obtain ⟨tested, htested, hle⟩ := h.mark p hp hid
    have hbefore := htestable.2 tested htested
    omega
  have hmark : (s.db.markTested ch.id now).lastTestedAt ch.id = some now :=
    Function.update_self _ _ _
  have hidle := h.idle tester
  constructor
  case apart =>
    have hpassed : ({ s with db := s.db.markTested ch.id now }.pass tester ch.id now).passedOf
        ch.id = s.passedOf ch.id ++ [⟨ch.id, now⟩] := by
      simp [TestRace.passedOf, TestRace.pass, List.filter_append]
    unfold TestRace.Apart
    rw [hpassed]
    refine List.pairwise_append.mpr ⟨h.apart, List.pairwise_singleton _ _, ?_⟩
    intro p hp p' hp'
    obtain ⟨hp, hid⟩ := List.mem_filter.mp hp
    rw [List.mem_singleton.mp hp']
    exact hlast p hp (of_decide_eq_true hid)
  case mark =>
    intro p hp hid
    refine ⟨now, hmark, ?_⟩
    rcases List.mem_append.mp hp with hold | hnew
    · have hbefore := hlast p hold hid
      omega
    · rw [List.mem_singleton.mp hnew]
  case project => exact hidle.project
  case refused =>
    intro other otherProject refusedAt _
    exact hmark ▸ Option.some_ne_none now

end Marked

/-- What is written under no lock keeps the mark of every channel, or moves it on. -/
theorem lastTestedAt_write (db : ChannelsDatabase) (w : ChannelWrite) (channelId : Uuid) :
    ∀ tested ∈ db.lastTestedAt channelId,
      ∃ later ∈ (db.write w).lastTestedAt channelId, tested ≤ later := by
  intro tested htested
  cases w with
  | update projectId other enabled => exact ⟨tested, htested, le_refl _⟩
  | remove projectId other => exact ⟨tested, htested, le_refl _⟩
  | claimTest projectId other cooldownSeconds now =>
    simp only [ChannelsDatabase.write]
    split
    · next htestable =>
      by_cases hsame : channelId = other
      · have hbefore := htestable.2 tested (hsame ▸ htested)
        refine ⟨now, ?_, by omega⟩
        rw [hsame]
        exact Function.update_self _ _ _
      · refine ⟨tested, ?_, le_refl _⟩
        exact (Function.update_of_ne hsame _ _).trans htested
    · exact ⟨tested, htested, le_refl _⟩
  | removeProject projectId =>
    rcases db.removeProject_cases projectId with ⟨_, hsame⟩ | ⟨_, _, _, _, hlast⟩
    · rw [ChannelsDatabase.write, hsame]
      exact ⟨tested, htested, le_refl _⟩
    · rw [ChannelsDatabase.write, hlast]
      exact ⟨tested, htested, le_refl _⟩

/-- An id belongs to one channel. -/
theorem eq_of_channel_id {db : ChannelsDatabase} {ch ch' : Channel} (hch : ch ∈ db.channels.rows)
    (hch' : ch' ∈ db.channels.rows) (hid : ch.id = ch'.id) : ch = ch' :=
  db.channels.eq_of_key_eq Channel.id (fun _ _ h => h) hch hch' hid

/-- Whoever finds a channel finds its project. -/
theorem project_of_find {db : ChannelsDatabase} {projectId channelId : Uuid} {found : Channel}
    (hfound : db.findInProject projectId channelId = some found) (hch : ch ∈ db.channels.rows)
    (hid : channelId = ch.id) : projectId = ch.projectId := by
  obtain ⟨hmem, hfoundId, hproject⟩ := ChannelsDatabase.findInProject_eq_some hfound
  rw [eq_of_channel_id hch hmem (hid.symm.trans hfoundId.symm)]
  exact hproject.symm

/-- A request that was refused is let through only when its channel is gone. -/
theorem waitFor_pos {projectId : Uuid} {now : ℤ} (h : s.Marked limits ch)
    (hch : ch ∈ s.db.channels.rows)
    (hstage : s.testers tester = .refused projectId ch.id now) :
    0 < s.db.waitFor limits projectId ch.id now := by
  have hproject := h.project tester projectId (by rw [hstage]; rfl)
  have hfound : s.db.findInProject projectId ch.id = some ch := by
    cases hfind : s.db.findInProject projectId ch.id with
    | none =>
      have hnone := List.find?_eq_none.mp hfind ch hch
      simp [hproject] at hnone
    | some other =>
      obtain ⟨hmem, hid, _⟩ := ChannelsDatabase.findInProject_eq_some hfind
      rw [eq_of_channel_id hch hmem hid.symm]
  obtain ⟨tested, htested⟩ :=
    Option.ne_none_iff_exists'.mp (h.refused tester projectId now hstage)
  simp only [ChannelsDatabase.waitFor, hfound, htested, retryAfterSeconds]
  omega

/-- Every step keeps what is known of the channels that are there. -/
theorem marked_step (hcooldown : 0 < limits.cooldownSeconds)
    (h : ∀ ch ∈ s.db.channels.rows, s.Marked limits ch) {e : TestEvent} (hfresh : s.Fresh e) :
    ∀ ch ∈ (s.step limits e).db.channels.rows, (s.step limits e).Marked limits ch := by
  cases e with
  | test tester projectId channelId =>
    simp only [TestRace.step]
    split
    · next found hidle hfound =>
      intro ch hch
      apply (h ch hch).setTester
      · intro ofProject htarget
        obtain ⟨rfl, hid⟩ := Prod.mk.inj (Option.some.inj htarget)
        exact project_of_find hfound hch hid
      · intro ofProject now hstage
        cases hstage
    · exact h
  | count tester used =>
    simp only [TestRace.step]
    split
    · next projectId channelId hstage =>
      split
      · exact fun ch hch => (h ch hch).idle tester
      · intro ch hch
        apply (h ch hch).setTester
        · intro ofProject htarget
          exact (h ch hch).project tester ofProject (by rw [hstage]; exact htarget)
        · intro ofProject now hcounted
          cases hcounted
    · exact h
  | proceed tester now =>
    simp only [TestRace.step]
    split
    · next projectId channelId hstage =>
      rw [if_neg (by omega)]
      split
      · next htestable =>
        intro ch hch
        by_cases hid : channelId = ch.id
        · subst hid
          exact (h ch hch).claim htestable
        · have hmarked : { s with db := s.db.markTested channelId now }.Marked limits ch := by
            refine (h ch hch).write rfl rfl fun tested htested => ⟨tested, ?_, le_refl _⟩
            exact (Function.update_of_ne (fun heq => hid heq.symm) _ _).trans htested
          exact hmarked.pass_other hid now
      · next hrefused =>
        intro ch hch
        have hproject (ofProject : Uuid) (hid : (projectId, channelId) = (ofProject, ch.id)) :
            ofProject = ch.projectId :=
          (h ch hch).project tester ofProject (by rw [hstage]; exact congrArg some hid)
        apply (h ch hch).setTester
        · exact fun ofProject htarget => hproject ofProject (Option.some.inj htarget)
        · intro ofProject refusedAt heq hnone
          cases heq
          refine hrefused ⟨⟨ch, hch, rfl, (hproject projectId rfl).symm⟩, ?_⟩
          rw [hnone]
          intro tested htested
          cases htested
    · next projectId channelId refusedAt hstage =>
      split
      · exact fun ch hch => (h ch hch).idle tester
      · next hgone =>
        intro ch hch
        refine (h ch hch).pass_other (fun hid => hgone ?_) now
        subst hid
        exact waitFor_pos (h ch hch) hch hstage
    · exact h
  | abort tester => exact fun ch hch => (h ch hch).idle tester
  | create input =>
    simp only [TestRace.step]
    cases hcreate : s.db.create input with
    | none => exact h
    | some db =>
      obtain ⟨hrows, _, _, _, _, hlast⟩ := ChannelsDatabase.create_eq_some hcreate
      intro ch hch
      have hdistinct := db.channels.distinct
      rw [hrows] at hdistinct
      simp only [Option.getD_some, hrows] at hch
      rcases List.mem_append.mp hch with hold | hnew
      · have hother : ch.id ≠ input.id :=
          (List.pairwise_append.mp hdistinct).2.2 ch hold _ (List.mem_singleton_self _)
        refine (h ch hold).write rfl rfl fun tested htested => ⟨tested, ?_, le_refl _⟩
        rw [Option.getD_some, hlast, Function.update_of_ne hother]
        exact htested
      · rw [List.mem_singleton.mp hnew]
        have hnone : s.passedOf input.id = [] := by
          refine List.filter_eq_nil_iff.mpr fun p hp hid => ?_
          exact hfresh.1 p hp (of_decide_eq_true hid)
        constructor
        case apart =>
          show (s.passedOf input.id).Pairwise _
          rw [hnone]
          exact List.Pairwise.nil
        case mark => exact fun p hp hid => absurd hid (hfresh.1 p hp)
        case project =>
          exact fun other projectId hother => absurd hother (hfresh.2 other projectId)
        case refused =>
          intro other projectId now hother
          refine absurd ?_ (hfresh.2 other projectId)
          dsimp only at hother
          rw [hother]
          rfl
  | write w =>
    intro ch hch
    obtain ⟨old, hold, hid, hproject⟩ := ChannelsDatabase.exists_of_mem_write hch
    exact (h old hold).write hid hproject (lastTestedAt_write s.db w old.id)

end Steps

end TestRace

/-- The project with a channel that was never tested. -/
def testedProject : ChannelsDatabase :=
  { ownedProject with
    channels := ⟨[⟨40, 7, true⟩], List.pairwise_singleton _ _⟩
    channel_project := by decide }

/-- Two requests together, of which one is told to wait, and one more after the cooldown. -/
def twoTests : List TestEvent :=
  [.test 0 7 40, .test 1 7 40, .count 0 0, .count 1 0, .proceed 0 1000, .proceed 1 1000,
    .proceed 1 1000, .test 1 7 40, .count 1 1, .proceed 1 61001]

end SilenceWatch
