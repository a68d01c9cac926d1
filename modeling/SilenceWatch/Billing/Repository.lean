import SilenceWatch.Billing.Events
import SilenceWatch.Database.Schema
import SilenceWatch.Library.Run

/-!
# Applying a subscription event

The transaction that records an event, finds the subscription it is about, decides
what it means and writes the subscription and the account's plan. Early returns
record the event and leave the rest alone; a statement that fails takes the whole
transaction back.
-/

namespace SilenceWatch

open Relational

/-- A row of `subscription`. -/
structure Subscription where
  userId : Uuid
  stripeCustomerId : String
  stripeSubscriptionId : Option String
  /-- The paid plan the subscription grants, or null when it grants none. -/
  plan : Option String
  status : String
  currentPeriodEnd : Option ℤ
  cancelAtPeriodEnd : Bool
  /-- Creation time of the newest event applied. -/
  lastEventAt : Option ℤ
  deriving DecidableEq

/-- The three unique indexes of `subscription`, where nulls do not collide. -/
def Subscription.Distinct (r r' : Subscription) : Prop :=
  r.userId ≠ r'.userId ∧ r.stripeCustomerId ≠ r'.stripeCustomerId ∧
    ¬ (r.stripeSubscriptionId ≠ none ∧ r.stripeSubscriptionId = r'.stripeSubscriptionId)
  deriving Decidable

/-- A row of `stripe_event`. -/
structure HandledEvent where
  id : String
  type : String
  deriving DecidableEq

/-- `stripe_event_pkey`. -/
def HandledEvent.Distinct (e e' : HandledEvent) : Prop := e.id ≠ e'.id
  deriving Decidable

/-- The tables that an event is applied to. -/
structure BillingTables where
  users : Table User User.Distinct
  subscriptions : Table Subscription Subscription.Distinct
  stripeEvents : Table HandledEvent HandledEvent.Distinct

/-- The configured plans with their prices, and the plan everyone starts on. -/
structure BillingConfig where
  stripePlans : List (String × StripePlan)
  defaultPlan : Option String

/-- `ApplyOutcome`. -/
inductive ApplyOutcome where
  | duplicate
  | unknownCustomer
  | stale
  | otherSubscription
  | applied (userId : Uuid) (email : String) (source target : Option String) (status : String)
      (unknownPrice : Bool)
  deriving DecidableEq

/-- The two early returns after the row is read: the event is older than the newest
applied, or the account runs another subscription. -/
def Subscription.ignores (row : Subscription) (createdAt : ℤ) (change : SubscriptionChange) :
    Option ApplyOutcome :=
  if row.lastEventAt.any (createdAt < ·) then some .stale
  else if row.stripeSubscriptionId.any (· ≠ change.subscriptionId) ∧
      row.status ∈ liveStatuses then
    some .otherSubscription
  else none

/-- `plan` of the row after a decision. -/
def PlanDecision.rowPlan (current : Option String) : PlanDecision → Option String
  | .grant plan => some plan
  | .end => none
  | .keep _ => current

/-- `userPlan`, the plan of the account after a decision. -/
def PlanDecision.userPlan (config : BillingConfig) (current : Option String) :
    PlanDecision → Option String
  | .grant plan => some plan
  | .end => config.defaultPlan
  | .keep _ => current

/-- The data of `subscription.update`, on the row the decision was made on. -/
def SubscriptionChange.assign (change : SubscriptionChange) (createdAt : ℤ)
    (plan : Option String) (r : Subscription) : Subscription :=
  { r with
    stripeSubscriptionId := some change.subscriptionId
    plan := plan
    status := change.status
    currentPeriodEnd := change.currentPeriodEnd
    cancelAtPeriodEnd := change.cancelAtPeriodEnd
    lastEventAt := some createdAt }

/-- The data of `user.update`. -/
def User.assignPlan (plan : Option String) (u : User) : User := { u with plan }

/-- The plan of an account may be written freely. -/
theorem User.keepsDistinct_assignPlan (plan : Option String) :
    KeepsDistinct User.Distinct (User.assignPlan plan) := by
  intro u u' h
  exact ⟨h, h⟩

namespace BillingTables

/-- `stripeEvent.createMany` with `skipDuplicates`, `none` when nothing was inserted. -/
def record (db : BillingTables) (event : StripeEvent) : Option BillingTables :=
  (db.stripeEvents.insert? ⟨event.id, event.type⟩).map fun stripeEvents =>
    { db with stripeEvents }

/-- `subscription.findUnique({ where: { stripeCustomerId } })`. -/
def findSubscription (db : BillingTables) (customerId : String) : Option Subscription :=
  db.subscriptions.rows.find? fun r => r.stripeCustomerId = customerId

/-- `user.findUniqueOrThrow({ where: { id } })`. -/
def findUser (db : BillingTables) (userId : Uuid) : Option User :=
  db.users.rows.find? fun u => u.id = userId

/-- `subscription.update`, and `user.update` if the plan is not the one that was read. -/
def write (db : BillingTables) (config : BillingConfig) (event : StripeEvent)
    (change : SubscriptionChange) (row : Subscription) (user : User) : Option BillingTables :=
  let decision := decidePlan change config.stripePlans
  let userPlan := decision.userPlan config user.plan
  (db.subscriptions.update? (fun r => r.userId = row.userId)
      (change.assign event.createdAt (decision.rowPlan row.plan))).map fun subscriptions =>
    { db with
      subscriptions
      users :=
        if userPlan ≠ user.plan then
          db.users.update (fun u => u.id = row.userId) (User.assignPlan userPlan)
            (User.keepsDistinct_assignPlan userPlan)
        else db.users }

/-- What the transaction reports when it has written. -/
def appliedOutcome (config : BillingConfig) (change : SubscriptionChange) (row : Subscription)
    (user : User) : ApplyOutcome :=
  let decision := decidePlan change config.stripePlans
  .applied row.userId user.email user.plan (decision.userPlan config user.plan) change.status
    (decision = .keep .unknownPrice)

/-- `BillingRepository.apply`, `none` when it throws. -/
def apply (db : BillingTables) (config : BillingConfig) (event : StripeEvent)
    (change : SubscriptionChange) : Option (BillingTables × ApplyOutcome) :=
  match db.record event with
  | none => some (db, .duplicate)
  | some db =>
    match db.findSubscription change.customerId with
    | none => some (db, .unknownCustomer)
    | some row =>
      match row.ignores event.createdAt change with
      | some outcome => some (db, outcome)
      | none =>
        match db.findUser row.userId with
        | none => none
        | some user =>
          (db.write config event change row user).map fun db =>
            (db, appliedOutcome config change row user)

/-- The tables after the transaction, which an exception rolls back. -/
def applied (db : BillingTables) (config : BillingConfig) (event : StripeEvent)
    (change : SubscriptionChange) : BillingTables :=
  match db.apply config event change with
  | none => db
  | some (db, _) => db

/-- `BillingService.handleEvent`: the tables when the request is over. -/
def handleEvent (config : BillingConfig) (db : BillingTables) (event : StripeEvent) :
    BillingTables :=
  match readSubscriptionEvent event with
  | none => db
  | some change => db.applied config event change

end BillingTables

/-- What the events of one customer read and write: the ids already handled, the row of
its subscription and the user it belongs to. -/
structure Account where
  handled : List String
  row : Subscription
  user : User
  deriving DecidableEq

/-- The account of a known customer. -/
def BillingTables.account? (db : BillingTables) (customerId : String) : Option Account :=
  match db.findSubscription customerId with
  | none => none
  | some row =>
    match db.findUser row.userId with
    | none => none
    | some user => some ⟨db.stripeEvents.rows.map HandledEvent.id, row, user⟩

/-- The account after an event that changes it. -/
def Account.write (config : BillingConfig) (event : StripeEvent) (change : SubscriptionChange)
    (account : Account) : Account :=
  let decision := decidePlan change config.stripePlans
  { handled := account.handled ++ [event.id]
    row := change.assign event.createdAt (decision.rowPlan account.row.plan) account.row
    user := account.user.assignPlan (decision.userPlan config account.user.plan) }

/-- The account after an event that has been handled. -/
def Account.handle (config : BillingConfig) (event : StripeEvent) (change : SubscriptionChange)
    (account : Account) : Account :=
  if event.id ∈ account.handled then account
  else
    match account.row.ignores event.createdAt change with
    | some _ => { account with handled := account.handled ++ [event.id] }
    | none => account.write config event change

/-- No other customer's row names the subscription. -/
def BillingTables.Owns (db : BillingTables) (customerId subscriptionId : String) : Prop :=
  ∀ r ∈ db.subscriptions.rows, r.stripeSubscriptionId = some subscriptionId →
    r.stripeCustomerId = customerId

namespace BillingTables

variable {db db' : BillingTables} {config : BillingConfig} {event : StripeEvent}
  {change : SubscriptionChange} {customerId : String} {account : Account}

/-- The parts an account is read from. -/
theorem account?_eq_some :
    db.account? customerId = some account ↔
      db.findSubscription customerId = some account.row ∧
        db.findUser account.row.userId = some account.user ∧
        db.stripeEvents.rows.map HandledEvent.id = account.handled := by
  unfold account?
  constructor
  · intro h
    split at h
    · cases h
    · next row hrow =>
      split at h
      · cases h
      · next user huser =>
        cases h
        exact ⟨hrow, huser, rfl⟩
  · rintro ⟨hrow, huser, hhandled⟩
    simp only [hrow, huser, hhandled]

/-- The row that a query by customer finds. -/
theorem findSubscription_eq_some {row : Subscription}
    (h : db.findSubscription customerId = some row) :
    row ∈ db.subscriptions.rows ∧ row.stripeCustomerId = customerId :=
  ⟨List.mem_of_find?_eq_some h, by simpa using List.find?_some h⟩

/-- An event is recorded unless its id is there already. -/
theorem record_cases (db : BillingTables) (event : StripeEvent) :
    (event.id ∈ db.stripeEvents.rows.map HandledEvent.id ∧ db.record event = none) ∨
      (event.id ∉ db.stripeEvents.rows.map HandledEvent.id ∧
        ∃ stripeEvents, db.record event = some { db with stripeEvents } ∧
          stripeEvents.rows = db.stripeEvents.rows ++ [⟨event.id, event.type⟩]) := by
  by_cases hmem : event.id ∈ db.stripeEvents.rows.map HandledEvent.id
  · left
    refine ⟨hmem, ?_⟩
    obtain ⟨e, he, hid⟩ := List.mem_map.mp hmem
    have hcollide :
        ¬ List.Pairwise HandledEvent.Distinct
          (db.stripeEvents.rows ++ [⟨event.id, event.type⟩]) := by
      intro hpairwise
      exact (List.pairwise_append.mp hpairwise).2.2 e he _ (List.mem_singleton.mpr rfl) hid
    simp [record, Table.insert?, Table.ofRows?, hcollide]
  · right
    refine ⟨hmem, ?_⟩
    have hfree : ∀ r ∈ db.stripeEvents.rows,
        HandledEvent.Distinct r ⟨event.id, event.type⟩ := by
      intro r hr hid
      exact hmem (List.mem_map.mpr ⟨r, hr, hid⟩)
    obtain ⟨stripeEvents, hinsert⟩ := Table.exists_insert? hfree
    refine ⟨stripeEvents, ?_, Table.insert?_eq_some hinsert⟩
    simp [record, hinsert]

/-- A customer's row belongs to no other user, and no other row to its user. -/
theorem eq_of_userId (db : BillingTables) {r r' : Subscription}
    (hr : r ∈ db.subscriptions.rows) (hr' : r' ∈ db.subscriptions.rows)
    (h : r.userId = r'.userId) : r = r' :=
  db.subscriptions.eq_of_key_eq Subscription.userId (fun _ _ h => h.1) hr hr' h

/-- The update of the row succeeds if the subscription is nobody else's. -/
theorem exists_update_subscriptions {row : Subscription} (createdAt : ℤ) (plan : Option String)
    (hrow : db.findSubscription customerId = some row)
    (howns : db.Owns customerId change.subscriptionId) :
    ∃ subscriptions, db.subscriptions.update? (fun r => r.userId = row.userId)
      (change.assign createdAt plan) = some subscriptions := by
  obtain ⟨hmem, hcustomer⟩ := findSubscription_eq_some hrow
  have hforeign : ∀ r ∈ db.subscriptions.rows, r.stripeCustomerId ≠ row.stripeCustomerId →
      r.stripeSubscriptionId ≠ some change.subscriptionId := by
    intro r hr hne hsub
    exact hne ((howns r hr hsub).trans hcustomer.symm)
  refine Table.exists_update? row (fun h => h.1 rfl)
    (fun r hr huser => db.eq_of_userId hr hmem huser) fun r hr => ⟨?_, ?_⟩
  · rintro ⟨huser, hcust, _⟩
    exact ⟨huser, hcust, fun hsub => hforeign r hr hcust hsub.2⟩
  · rintro ⟨huser, hcust, _⟩
    exact ⟨huser, hcust, fun hsub => hforeign r hr (Ne.symm hcust) hsub.2.symm⟩

/-- What a write leaves in the tables. -/
theorem write_eq_some {row : Subscription} {user : User}
    (h : db.write config event change row user = some db') :
    db'.subscriptions.rows = db.subscriptions.rows.map (updateRow (fun r => r.userId = row.userId)
        (change.assign event.createdAt
          ((decidePlan change config.stripePlans).rowPlan row.plan))) ∧
      db'.stripeEvents = db.stripeEvents ∧
      db'.users =
        if (decidePlan change config.stripePlans).userPlan config user.plan ≠ user.plan then
          db.users.update (fun u => u.id = row.userId)
            (User.assignPlan ((decidePlan change config.stripePlans).userPlan config user.plan))
            (User.keepsDistinct_assignPlan _)
        else db.users := by
  unfold write at h
  obtain ⟨subscriptions, hupdate, rfl⟩ := Option.map_eq_some_iff.mp h
  exact ⟨Table.update?_eq_some hupdate, rfl, rfl⟩

/-- The user after a write has the plan that was decided, whether or not it was written. -/
theorem findUser_write {row : Subscription} {user : User}
    (huser : db.findUser row.userId = some user)
    (h : db.write config event change row user = some db') :
    db'.findUser row.userId =
      some (user.assignPlan
        ((decidePlan change config.stripePlans).userPlan config user.plan)) := by
  obtain ⟨_, _, husers⟩ := write_eq_some h
  have hid : user.id = row.userId := by simpa using List.find?_some huser
  unfold findUser at huser ⊢
  rw [husers]
  generalize (decidePlan change config.stripePlans).userPlan config user.plan = plan
  split
  · have hkeeps : ∀ u : User, (u.assignPlan plan).id = row.userId ↔ u.id = row.userId :=
      fun _ => Iff.rfl
    rw [Table.update_rows, find?_map_updateRow hkeeps, huser]
    simp only [Option.map_some, updateRow, hid, if_true]
  · next hkept =>
    rw [huser, User.assignPlan, not_not.mp hkept]

/-- What a transaction leaves: the tables as they were, its record and nothing else, or
the record and what the decision on the row it found writes. -/
theorem applied_cases (db : BillingTables) (config : BillingConfig) (event : StripeEvent)
    (change : SubscriptionChange) :
    db.applied config event change = db ∨
      ∃ stripeEvents, db.record event = some { db with stripeEvents } ∧
        stripeEvents.rows = db.stripeEvents.rows ++ [⟨event.id, event.type⟩] ∧
        (db.applied config event change = { db with stripeEvents } ∨
          ∃ row user, db.findSubscription change.customerId = some row ∧
            row.ignores event.createdAt change = none ∧
            ({ db with stripeEvents } : BillingTables).write config event change row user =
              some (db.applied config event change)) := by
  rcases db.record_cases event with ⟨_, hrecord⟩ | ⟨_, stripeEvents, hrecord, hevents⟩
  · left
    simp only [applied, apply, hrecord]
  · by_cases hsame : db.applied config event change = db
    · exact Or.inl hsame
    · right
      refine ⟨stripeEvents, hrecord, hevents, ?_⟩
      simp only [applied, apply, hrecord] at hsame ⊢
      cases hrow : ({ db with stripeEvents } : BillingTables).findSubscription
          change.customerId with
      | none => exact Or.inl rfl
      | some row =>
        simp only [hrow] at hsame ⊢
        cases hignores : row.ignores event.createdAt change with
        | some outcome => exact Or.inl rfl
        | none =>
          simp only [hignores] at hsame ⊢
          cases huser : ({ db with stripeEvents } : BillingTables).findUser row.userId with
          | none => simp only [huser, not_true_eq_false] at hsame
          | some user =>
            simp only [huser] at hsame ⊢
            cases hwrite : ({ db with stripeEvents } : BillingTables).write config event change
                row user with
            | none => simp only [hwrite, Option.map_none, not_true_eq_false] at hsame
            | some db' => exact Or.inr ⟨row, user, hrow, hignores, hwrite⟩

/-- The row of a customer after a write about one. -/
theorem findSubscription_write {row : Subscription} {user : User}
    (h : db.write config event change row user = some db') (customerId : String) :
    db'.findSubscription customerId = (db.findSubscription customerId).map
      (updateRow (fun r => r.userId = row.userId) (change.assign event.createdAt
        ((decidePlan change config.stripePlans).rowPlan row.plan))) := by
  have hkeeps : ∀ r, (change.assign event.createdAt
      ((decidePlan change config.stripePlans).rowPlan row.plan) r).stripeCustomerId
        = customerId ↔ r.stripeCustomerId = customerId := fun _ => Iff.rfl
  unfold findSubscription
  rw [(write_eq_some h).1, find?_map_updateRow hkeeps]

/-- **Refinement.** The transaction does to the tables what the handled event does to the
account of its customer. -/
theorem account?_handleEvent (haccount : db.account? customerId = some account)
    (hread : readSubscriptionEvent event = some change)
    (hcustomer : change.customerId = customerId)
    (howns : db.Owns customerId change.subscriptionId) :
    (db.handleEvent config event).account? customerId =
      some (account.handle config event change) := by
  obtain ⟨hrow, huser, hhandled⟩ := account?_eq_some.mp haccount
  simp only [handleEvent, hread, applied, apply, Account.handle, ← hhandled]
  rcases db.record_cases event with ⟨hmem, hrecord⟩ | ⟨hmem, stripeEvents, hrecord, hevents⟩
  · rw [hrecord, if_pos hmem]
    exact haccount
  · rw [hrecord, if_neg hmem]
    have hrow' : ({ db with stripeEvents } : BillingTables).findSubscription change.customerId =
        some account.row := by
      rw [hcustomer]
      exact hrow
    have huser' : ({ db with stripeEvents } : BillingTables).findUser account.row.userId =
        some account.user := huser
    have hids : stripeEvents.rows.map HandledEvent.id =
        db.stripeEvents.rows.map HandledEvent.id ++ [event.id] := by
      rw [hevents, List.map_append]
      rfl
    simp only [hrow']
    cases hignores : account.row.ignores event.createdAt change with
    | some outcome =>
      exact account?_eq_some.mpr ⟨hrow, huser, hids⟩
    | none =>
      simp only [huser']
      obtain ⟨subscriptions, hupdate⟩ := exists_update_subscriptions event.createdAt
        ((decidePlan change config.stripePlans).rowPlan account.row.plan) hrow howns
      cases hwrite : ({ db with stripeEvents } : BillingTables).write config event change
          account.row account.user with
      | none => simp [write, hupdate] at hwrite
      | some db' =>
        have hfound := findUser_write huser' hwrite
        have hrows := findSubscription_write hwrite customerId
        rw [hcustomer] at hrow'
        rw [hrow', Option.map_some, updateRow, if_pos rfl] at hrows
        simp only [Option.map_some]
        refine account?_eq_some.mpr ⟨hrows, hfound, ?_⟩
        rw [(write_eq_some hwrite).2.1]
        exact hids.trans (by rw [hhandled]; rfl)

/-- An event leaves every row alone, or writes its subscription to its customer's. -/
theorem rows_applied {r : Subscription}
    (hr : r ∈ (db.applied config event change).subscriptions.rows) :
    r ∈ db.subscriptions.rows ∨
      (r.stripeCustomerId = change.customerId ∧
        r.stripeSubscriptionId = some change.subscriptionId) := by
  rcases db.applied_cases config event change with
    hsame | ⟨stripeEvents, _, _, hrecorded | ⟨row, user, hrow, _, hwrite⟩⟩
  · rw [hsame] at hr
    exact Or.inl hr
  · rw [hrecorded] at hr
    exact Or.inl hr
  · rw [(write_eq_some hwrite).1] at hr
    obtain ⟨old, hold, ⟨hhit, rfl⟩ | ⟨_, rfl⟩⟩ := mem_map_updateRow.mp hr
    · obtain ⟨hmem, hcustomer⟩ := findSubscription_eq_some hrow
      have hsame := db.eq_of_userId hold hmem hhit
      rw [← hsame] at hcustomer
      exact Or.inr ⟨hcustomer, rfl⟩
    · exact Or.inl hold

/-- The events of a customer keep a subscription its own. -/
theorem Owns.handleEvent {subscriptionId : String} (howns : db.Owns customerId subscriptionId)
    (hread : readSubscriptionEvent event = some change)
    (hcustomer : change.customerId = customerId) :
    (db.handleEvent config event).Owns customerId subscriptionId := by
  intro r hr hsub
  simp only [BillingTables.handleEvent, hread] at hr
  rcases rows_applied hr with hold | ⟨hcust, _⟩
  · exact howns r hold hsub
  · exact hcust.trans hcustomer

end BillingTables

end SilenceWatch
