import SilenceWatch.Billing.Repository
import SilenceWatch.Pipeline.Ceiling

/-!
# Deleting an account

A deletion ends the subscription at Stripe, then looks for projects that would be left
without an owner, and last deletes the user and the projects only it belonged to. Each
of the first two may refuse. Stripe is a service of its own: all that is known of it is
what a request to cancel does there and what it answers.
-/

namespace SilenceWatch

open Relational

/-- `StripeError`. -/
structure StripeError where
  /-- Null when there was no answer. -/
  status : Option ℕ
  code : Option String
  deriving DecidableEq

/-- Stripe as this application sees it: a request to cancel a subscription changes
something there or does not, and is answered or fails. -/
abbrev StripeCancel (Stripe : Type*) := Stripe → String → Stripe × Except StripeError Unit

/-- The tables of an account, and the state of Stripe. -/
structure AccountWorld (Stripe : Type*) where
  db : Database
  projects : Table Project Project.Distinct
  subscriptions : Table Subscription Subscription.Distinct
  stripe : Stripe

/-- What a deletion is refused with. -/
inductive AccountError where
  /-- `findUniqueOrThrow` found no user. -/
  | notFound
  | badGateway (message : String)
  | conflict (message : String)
  deriving DecidableEq

/-- `MembershipWithPeers`. -/
structure MembershipWithPeers where
  projectId : Uuid
  role : ProjectRole
  projectName : String
  peers : List ProjectMember

/-- `HttpStripeApi.cancelSubscription`: a subscription that is already gone is no error. -/
def cancelSubscription {Stripe : Type*} (call : StripeCancel Stripe) (stripe : Stripe)
    (subscriptionId : String) : Stripe × Except StripeError Unit :=
  match call stripe subscriptionId with
  | (stripe, .error error) =>
    if error.code = some "resource_missing" then (stripe, .ok ()) else (stripe, .error error)
  | (stripe, .ok ()) => (stripe, .ok ())

namespace AccountWorld

variable {Stripe : Type*}

/-- `BillingRepository.findByUser`. -/
def findByUser (w : AccountWorld Stripe) (userId : Uuid) : Option Subscription :=
  w.subscriptions.rows.find? fun r => r.userId = userId

/-- The subscription that `cancelForAccount` asks Stripe to end. -/
def subscriptionToCancel (w : AccountWorld Stripe) (enabled : Bool) (userId : Uuid) :
    Option String :=
  if enabled then
    match w.findByUser userId with
    | none => none
    | some subscription =>
      if subscription.status = "canceled" then none else subscription.stripeSubscriptionId
  else none

/-- `BillingService.cancelForAccount`. -/
def cancelForAccount (call : StripeCancel Stripe) (enabled : Bool) (w : AccountWorld Stripe)
    (userId : Uuid) : AccountWorld Stripe × Except AccountError Unit :=
  match w.subscriptionToCancel enabled userId with
  | none => (w, .ok ())
  | some subscriptionId =>
    match cancelSubscription call w.stripe subscriptionId with
    | (stripe, .ok ()) => ({ w with stripe }, .ok ())
    | (stripe, .error _) =>
      ({ w with stripe }, .error (.badGateway
        "The payment service is not answering right now: try again in a moment."))

/-- `UsersRepository.listMembershipsWithPeers`. -/
def listMembershipsWithPeers (w : AccountWorld Stripe) (userId : Uuid) :
    List MembershipWithPeers :=
  (w.db.members.rows.filter fun m => m.userId = userId).map fun membership =>
    { projectId := membership.projectId
      role := membership.role
      projectName := ((w.projects.rows.find? fun p => p.id = membership.projectId).map
        Project.name).getD ""
      peers := (w.db.members.rows.filter fun m => m.projectId = membership.projectId).filter
        fun m => m.userId ≠ userId }

/-- `UsersRepository.deleteWithProjects`, with what the schema deletes along. -/
def deleteWithProjects (w : AccountWorld Stripe) (userId : Uuid) (projectIds : List Uuid) :
    AccountWorld Stripe :=
  let db := projectIds.foldl (fun db projectId => removeProject projectId db) w.db
  { w with
    db :=
      { db with
        users := db.users.delete fun u => u.id = userId
        members := db.members.delete fun m => m.userId = userId }
    projects := w.projects.delete fun p => p.id ∈ projectIds
    subscriptions := w.subscriptions.delete fun r => r.userId = userId }

end AccountWorld

/-- The project would be left without an owner. -/
def MembershipWithPeers.Orphans (membership : MembershipWithPeers) : Prop :=
  membership.peers ≠ [] ∧ membership.role = .owner ∧ ∀ m ∈ membership.peers, m.role ≠ .owner
  deriving Decidable

/-- `AccountService.projectsToDelete`, over the memberships it lists. -/
def projectsToDelete : List MembershipWithPeers → Except AccountError (List Uuid)
  | [] => .ok []
  | membership :: rest =>
    if membership.peers = [] then
      match projectsToDelete rest with
      | .ok sole => .ok (membership.projectId :: sole)
      | .error error => .error error
    else if membership.role = .owner ∧ ¬ ∃ m ∈ membership.peers, m.role = .owner then
      .error (.conflict ("You are the only owner of \"" ++ membership.projectName ++
        "\", which has other members, so deleting your account would leave it without one."))
    else projectsToDelete rest

namespace AccountWorld

variable {Stripe : Type*} (call : StripeCancel Stripe) (enabled : Bool)

/-- `AccountService.delete`. -/
def delete (w : AccountWorld Stripe) (userId : Uuid) :
    AccountWorld Stripe × Except AccountError Unit :=
  match w.db.users.rows.find? fun u => u.id = userId with
  | none => (w, .error .notFound)
  | some _ =>
    match cancelForAccount call enabled w userId with
    | (w, .error error) => (w, .error error)
    | (w, .ok ()) =>
      match projectsToDelete (w.listMembershipsWithPeers userId) with
      | .error error => (w, .error error)
      | .ok soleProjects => (w.deleteWithProjects userId soleProjects, .ok ())

/-- The user is the only owner of a project that others belong to. -/
def OnlyOwner (w : AccountWorld Stripe) (userId : Uuid) : Prop :=
  ∃ m ∈ w.db.members.rows, m.userId = userId ∧ m.role = .owner ∧
    (∃ peer ∈ w.db.members.rows, peer.projectId = m.projectId ∧ peer.userId ≠ userId) ∧
    ∀ peer ∈ w.db.members.rows, peer.projectId = m.projectId → peer.userId ≠ userId →
      peer.role ≠ .owner

variable {call enabled} {w : AccountWorld Stripe} {userId : Uuid}

/-- Looking for projects to delete fails exactly on one that would be orphaned. -/
theorem projectsToDelete_refuses_iff (memberships : List MembershipWithPeers) :
    (∃ error, projectsToDelete memberships = .error error) ↔
      ∃ membership ∈ memberships, membership.Orphans := by
  induction memberships with
  | nil => simp [projectsToDelete]
  | cons membership rest ih =>
    simp only [projectsToDelete]
    rw [List.exists_mem_cons_iff, ← ih]
    by_cases hpeers : membership.peers = []
    · have hkept : ¬ membership.Orphans := fun h => h.1 hpeers
      rw [if_pos hpeers]
      cases projectsToDelete rest with
      | ok sole => simp [hkept]
      | error error => simp
    · rw [if_neg hpeers]
      by_cases howner : membership.role = .owner ∧ ¬ ∃ m ∈ membership.peers, m.role = .owner
      · have horphans : membership.Orphans :=
          ⟨hpeers, howner.1, fun m hm hrole => howner.2 ⟨m, hm, hrole⟩⟩
        rw [if_pos howner]
        simp [horphans]
      · have hkept : ¬ membership.Orphans := by
          rintro ⟨_, hrole, hnone⟩
          exact howner ⟨hrole, fun ⟨m, hm, hm'⟩ => hnone m hm hm'⟩
        rw [if_neg howner]
        simp [hkept]

/-- A project would be orphaned exactly if the user is its only owner. -/
theorem orphans_iff_onlyOwner :
    (∃ membership ∈ w.listMembershipsWithPeers userId, membership.Orphans) ↔
      w.OnlyOwner userId := by
  have hpeers : ∀ m p : ProjectMember,
      p ∈ (w.db.members.rows.filter fun p => p.projectId = m.projectId).filter
        (fun p => p.userId ≠ userId) ↔
          p ∈ w.db.members.rows ∧ p.projectId = m.projectId ∧ p.userId ≠ userId := by
    intro m p
    simp only [List.mem_filter, decide_eq_true_eq, and_assoc]
  constructor
  · rintro ⟨_, hmembership, hne, hrole, hnone⟩
    obtain ⟨m, hm, rfl⟩ := List.mem_map.mp hmembership
    obtain ⟨hmem, huser⟩ := List.mem_filter.mp hm
    obtain ⟨peer, hpeer⟩ := List.exists_mem_of_ne_nil _ hne
    exact ⟨m, hmem, of_decide_eq_true huser, hrole, ⟨peer, (hpeers m peer).mp hpeer⟩,
      fun p hp hproject huser => hnone p ((hpeers m p).mpr ⟨hp, hproject, huser⟩)⟩
  · rintro ⟨m, hmem, huser, hrole, ⟨peer, hpeer⟩, hnone⟩
    refine ⟨_, List.mem_map.mpr ⟨m, List.mem_filter.mpr ⟨hmem, decide_eq_true huser⟩, rfl⟩,
      List.ne_nil_of_mem ((hpeers m peer).mpr hpeer), hrole, fun p hp => ?_⟩
    obtain ⟨hp', hproject, hother⟩ := (hpeers m p).mp hp
    exact hnone p hp' hproject hother

/-- Ending the subscription leaves the tables alone, and refuses with Stripe. -/
theorem cancelForAccount_eq (call : StripeCancel Stripe) (enabled : Bool)
    (w : AccountWorld Stripe) (userId : Uuid) :
    (w.subscriptionToCancel enabled userId = none ∧
        cancelForAccount call enabled w userId = (w, .ok ())) ∨
      ∃ subscriptionId, w.subscriptionToCancel enabled userId = some subscriptionId ∧
        (cancelForAccount call enabled w userId).1 =
          { w with stripe := (call w.stripe subscriptionId).1 } ∧
        ((cancelForAccount call enabled w userId).2 = .ok () ↔
          (cancelSubscription call w.stripe subscriptionId).2 = .ok ()) := by
  unfold cancelForAccount
  cases hcancel : w.subscriptionToCancel enabled userId with
  | none => exact Or.inl ⟨rfl, rfl⟩
  | some subscriptionId =>
    right
    refine ⟨subscriptionId, rfl, ?_⟩
    have hstripe : (cancelSubscription call w.stripe subscriptionId).1 =
        (call w.stripe subscriptionId).1 := by
      unfold cancelSubscription
      rcases call w.stripe subscriptionId with ⟨stripe, error | ⟨⟩⟩
      · dsimp only
        split <;> rfl
      · rfl
    rw [← hstripe]
    dsimp only
    rcases cancelSubscription call w.stripe subscriptionId with ⟨stripe, error | ⟨⟩⟩
    · simp
    · simp

/-- **A refused deletion changes nothing** exactly if the request to cancel changes nothing
at Stripe, or is answered and the user is not the only owner of a shared project: the
subscription is ended before the projects are looked at. -/
theorem refused_deletion_changes_nothing_iff (call : StripeCancel Stripe) (enabled : Bool)
    (w : AccountWorld Stripe) (userId : Uuid) :
    (∀ error, (w.delete call enabled userId).2 = .error error →
        (w.delete call enabled userId).1 = w) ↔
      ∀ subscriptionId, (∃ u ∈ w.db.users.rows, u.id = userId) →
        w.subscriptionToCancel enabled userId = some subscriptionId →
          (call w.stripe subscriptionId).1 = w.stripe ∨
            ((cancelSubscription call w.stripe subscriptionId).2 = .ok () ∧
              ¬ w.OnlyOwner userId) := by
  have hsame : ∀ stripe, ({ w with stripe } : AccountWorld Stripe) = w ↔ stripe = w.stripe := by
    intro stripe
    constructor
    · intro h
      exact congrArg AccountWorld.stripe h
    · rintro rfl
      rfl
  unfold delete
  cases huser : w.db.users.rows.find? fun u => u.id = userId with
  | none =>
    have hnobody : ¬ ∃ u ∈ w.db.users.rows, u.id = userId := by simpa using huser
    simp [hnobody]
  | some user =>
    have hsomebody : ∃ u ∈ w.db.users.rows, u.id = userId :=
      ⟨user, List.mem_of_find?_eq_some huser, by simpa using List.find?_some huser⟩
    rcases cancelForAccount_eq call enabled w userId with
      ⟨hnothing, hcancel⟩ | ⟨subscriptionId, hcancel, hworld, hanswer⟩
    · simp only [hcancel, hnothing]
      cases projectsToDelete (w.listMembershipsWithPeers userId) with
      | error error => simp
      | ok soleProjects => simp
    · have hrefuses := (projectsToDelete_refuses_iff
        (w.listMembershipsWithPeers userId)).trans orphans_iff_onlyOwner
      rcases hresult : cancelForAccount call enabled w userId with ⟨w', error | ⟨⟩⟩
      · rw [hresult] at hworld hanswer
        simp only [reduceCtorEq, false_iff] at hanswer
        simp only at hworld
        subst hworld
        simp only [hcancel, Option.some.injEq, forall_eq', hsame, hsomebody, forall_const,
          hanswer, false_and, or_false]
        simp
      · rw [hresult] at hworld hanswer
        simp only [true_iff] at hanswer
        simp only at hworld
        subst hworld
        have hmemberships : ({ w with stripe := (call w.stripe subscriptionId).1 } :
            AccountWorld Stripe).listMembershipsWithPeers userId =
              w.listMembershipsWithPeers userId := rfl
        simp only [hmemberships, hcancel, Option.some.injEq, forall_eq', hsomebody,
          forall_const, hanswer, true_and]
        cases hprojects : projectsToDelete (w.listMembershipsWithPeers userId) with
        | error error =>
          have honly : w.OnlyOwner userId := hrefuses.mp ⟨error, hprojects⟩
          simp [hsame, honly]
        | ok soleProjects =>
          have hnot : ¬ w.OnlyOwner userId := by
            intro honly
            obtain ⟨error, herror⟩ := hrefuses.mpr honly
            rw [hprojects] at herror
            cases herror
          simp [hnot]

end AccountWorld

/-- A Stripe that knows which subscriptions run, and ends one at once. -/
def endAtOnce : StripeCancel (List String) := fun running subscriptionId =>
  if subscriptionId ∈ running then (running.erase subscriptionId, .ok ())
  else (running, .error ⟨some 404, some "resource_missing"⟩)

/-- The only owner of a project with another member, who pays for a subscription. -/
def sharedProject : AccountWorld (List String) where
  db :=
    { users := ⟨[⟨1, "ann@example.com", some "pro"⟩, ⟨2, "bob@example.com", some "free"⟩],
        by decide⟩
      members := ⟨[⟨1, 1, .owner⟩, ⟨1, 2, .member⟩], by decide⟩
      checks := Table.empty
      pings := SerialTable.empty
      incidents := SerialTable.empty
      channels := Table.empty
      deliveries := SerialTable.empty }
  projects := ⟨[⟨1, "Backups", "backups"⟩], List.pairwise_singleton _ _⟩
  subscriptions :=
    ⟨[⟨1, "cus_1", some "sub_1", some "pro", "active", none, false, some 100000⟩],
      List.pairwise_singleton _ _⟩
  stripe := ["sub_1"]

/-- The deletion is refused for the other member's sake, and the subscription is gone. -/
theorem refused_deletion_ends_subscription :
    (sharedProject.delete endAtOnce true 1).2 = .error (.conflict ("You are the only owner of " ++
        "\"Backups\", which has other members, so deleting your account would leave it " ++
        "without one.")) ∧
      sharedProject.stripe = ["sub_1"] ∧ (sharedProject.delete endAtOnce true 1).1.stripe = [] := by
  decide

end SilenceWatch
