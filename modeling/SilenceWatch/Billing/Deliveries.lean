import SilenceWatch.Billing.Repository

/-!
# Events in any order

Stripe delivers at least once and in no particular order, and a delivery whose
transaction is rolled back comes again. What a customer's account holds once every
event has been handled is what its newest event says, as far as that event was not
ignored when its turn came.
-/

namespace SilenceWatch

open Relational Transition

/-- A delivery of an event, whose transaction commits or is rolled back. -/
structure WebhookAttempt where
  event : StripeEvent
  rolledBack : Bool

/-- The tables after a delivery. -/
def BillingTables.receive (config : BillingConfig) (db : BillingTables)
    (attempt : WebhookAttempt) : BillingTables :=
  if attempt.rolledBack then db else db.handleEvent config attempt.event

/-- Events of one customer about the given subscriptions, no two of them with the same
id or created in the same second. -/
structure SubscriptionEvents (customerId : String) (subscriptionIds : List String)
    (events : List StripeEvent) : Prop where
  ids : ∀ e ∈ events, ∀ e' ∈ events, e.id = e'.id → e = e'
  created : ∀ e ∈ events, ∀ e' ∈ events, e.created = e'.created → e = e'
  reads : ∀ e ∈ events, ∃ change, readSubscriptionEvent e = some change ∧
    change.customerId = customerId ∧ change.subscriptionId ∈ subscriptionIds

/-- Deliveries of these events and no others, each of them committed at least once. -/
def DeliversAll (events : List StripeEvent) (attempts : List WebhookAttempt) : Prop :=
  (∀ attempt ∈ attempts, attempt.event ∈ events) ∧
    ∀ e ∈ events, ∃ attempt ∈ attempts, attempt.event = e ∧ attempt.rolledBack = false

/-- The event grants a plan or ends the subscription. -/
def SubscriptionChange.Settles (change : SubscriptionChange)
    (plans : List (String × StripePlan)) : Prop :=
  ∀ reason, decidePlan change plans ≠ .keep reason

/-- The account is as the event left it. -/
structure Account.Reflects (config : BillingConfig) (event : StripeEvent)
    (change : SubscriptionChange) (account : Account) : Prop where
  handled : event.id ∈ account.handled
  subscription : account.row.stripeSubscriptionId = some change.subscriptionId
  status : account.row.status = change.status
  lastEventAt : account.row.lastEventAt = some event.createdAt
  plan : account.user.plan =
    (decidePlan change config.stripePlans).userPlan config account.user.plan

/-- Dates compare as the seconds they were read from. -/
theorem StripeEvent.createdAt_lt {e e' : StripeEvent} :
    e.createdAt < e'.createdAt ↔ e.created < e'.created := by
  unfold StripeEvent.createdAt
  omega

namespace Account

variable {config : BillingConfig} {event newest : StripeEvent}
  {change newestChange : SubscriptionChange} {account : Account}

/-- An event changes nothing but the list of handled ones, or it is neither handled nor
ignored and is written. -/
theorem handle_cases (config : BillingConfig) (event : StripeEvent)
    (change : SubscriptionChange) (account : Account) :
    (∃ handled, account.handle config event change = { account with handled } ∧
        (∀ id ∈ account.handled, id ∈ handled) ∧
        ∀ id ∈ handled, id ∈ account.handled ∨ id = event.id) ∨
      (event.id ∉ account.handled ∧ account.row.ignores event.createdAt change = none ∧
        account.handle config event change = account.write config event change) := by
  unfold handle
  by_cases hmem : event.id ∈ account.handled
  · left
    exact ⟨account.handled, if_pos hmem, fun _ h => h, fun _ h => Or.inl h⟩
  · rw [if_neg hmem]
    cases hignores : account.row.ignores event.createdAt change with
    | some outcome =>
      left
      refine ⟨account.handled ++ [event.id], rfl, fun _ h => List.mem_append_left _ h, ?_⟩
      intro id hid
      rcases List.mem_append.mp hid with hold | hnew
      · exact Or.inl hold
      · exact Or.inr (List.mem_singleton.mp hnew)
    | none => exact Or.inr ⟨hmem, rfl, rfl⟩

/-- A decision that is no keep gives the same plan whatever the account had. -/
theorem userPlan_of_settles (h : change.Settles config.stripePlans)
    (current current' : Option String) :
    (decidePlan change config.stripePlans).userPlan config current =
      (decidePlan change config.stripePlans).userPlan config current' := by
  cases hdecision : decidePlan change config.stripePlans with
  | grant plan => rfl
  | «end» => rfl
  | keep reason => exact absurd hdecision (h reason)

/-- A settling event that is written leaves the account as it says. -/
theorem reflects_write (hsettles : change.Settles config.stripePlans) :
    (account.write config event change).Reflects config event change where
  handled := List.mem_append_right _ (List.mem_singleton.mpr rfl)
  subscription := rfl
  status := rfl
  lastEventAt := rfl
  plan := userPlan_of_settles hsettles _ _

/-- An older event, and one about another subscription than the live one, is ignored. -/
theorem Reflects.ignores (hreflects : account.Reflects config newest newestChange)
    (h : event.created < newest.created ∨ (change.subscriptionId ≠ newestChange.subscriptionId ∧
      newestChange.status ∈ liveStatuses)) :
    account.row.ignores event.createdAt change ≠ none := by
  unfold Subscription.ignores
  rw [hreflects.lastEventAt, hreflects.subscription, hreflects.status]
  rcases h with hold | ⟨hother, hlive⟩
  · have hstale : (some newest.createdAt).any (event.createdAt < ·) := by
      simpa using StripeEvent.createdAt_lt.mpr hold
    rw [if_pos hstale]
    simp
  · have hdifferent : (some newestChange.subscriptionId).any (· ≠ change.subscriptionId) := by
      simpa using Ne.symm hother
    split
    · simp
    · rw [if_pos ⟨hdifferent, hlive⟩]
      simp

/-- From then on such events, and repeats, leave the account as it is. -/
theorem Reflects.handle (hreflects : account.Reflects config newest newestChange)
    (h : event.id = newest.id ∨ event.created < newest.created ∨
      (change.subscriptionId ≠ newestChange.subscriptionId ∧
        newestChange.status ∈ liveStatuses)) :
    (account.handle config event change).Reflects config newest newestChange := by
  rcases handle_cases config event change account with
    ⟨handled, hhandle, hkept, _⟩ | ⟨hnew, hignores, _⟩
  · rw [hhandle]
    exact
      { handled := hkept _ hreflects.handled
        subscription := hreflects.subscription
        status := hreflects.status
        lastEventAt := hreflects.lastEventAt
        plan := hreflects.plan }
  · rcases h with hsame | hrest
    · rw [hsame] at hnew
      exact absurd hreflects.handled hnew
    · exact absurd hignores (hreflects.ignores hrest)

/-- An event that is neither handled nor ignored leaves the account as it says. -/
theorem reflects_handle (hnew : event.id ∉ account.handled)
    (hcurrent : account.row.ignores event.createdAt change = none)
    (hsettles : change.Settles config.stripePlans) :
    (account.handle config event change).Reflects config event change := by
  have hwrite : account.handle config event change = account.write config event change := by
    simp only [handle, if_neg hnew, hcurrent]
  rw [hwrite]
  exact reflects_write hsettles

end Account

namespace BillingTables

variable {config : BillingConfig} {db : BillingTables} {customerId : String}
  {subscriptionIds : List String} {events : List StripeEvent} {newest : StripeEvent}
  {newestChange : SubscriptionChange} {attempts : List WebhookAttempt}

/-- The customer is known, the subscriptions are its own, and its account has a property. -/
def Holds (customerId : String) (subscriptionIds : List String) (P : Account → Prop)
    (db : BillingTables) : Prop :=
  (∀ subscriptionId ∈ subscriptionIds, db.Owns customerId subscriptionId) ∧
    ∃ account, db.account? customerId = some account ∧ P account

/-- A delivery of one of the customer's events keeps a property of its account if the
handled event does. -/
theorem Holds.receive {P Q : Account → Prop} {attempt : WebhookAttempt}
    {change : SubscriptionChange}
    (hevents : SubscriptionEvents customerId subscriptionIds events)
    (hattempt : attempt.event ∈ events)
    (hread : readSubscriptionEvent attempt.event = some change)
    (hholds : db.Holds customerId subscriptionIds P)
    (hrolledBack : attempt.rolledBack = true → ∀ account, P account → Q account)
    (hhandle : attempt.rolledBack = false → ∀ account, db.account? customerId = some account →
      P account → Q (account.handle config attempt.event change)) :
    (db.receive config attempt).Holds customerId subscriptionIds Q := by
  obtain ⟨howns, account, haccount, hP⟩ := hholds
  obtain ⟨change', hread', hcustomer, hmem⟩ := hevents.reads _ hattempt
  have hchange : change' = change := Option.some.inj (hread'.symm.trans hread)
  subst hchange
  unfold BillingTables.receive
  cases hback : attempt.rolledBack with
  | true => exact ⟨howns, account, haccount, hrolledBack hback account hP⟩
  | false =>
    refine ⟨fun subscriptionId hsub => (howns _ hsub).handleEvent hread hcustomer, _,
      account?_handleEvent haccount hread hcustomer (howns _ hmem), ?_⟩
    exact hhandle hback account haccount hP

/-- When the event is handled for the first time, it is not ignored: nothing newer was
applied, and the account runs no other subscription. -/
def Current (customerId : String) (event : StripeEvent) (change : SubscriptionChange)
    (db : BillingTables) (attempt : WebhookAttempt) : Prop :=
  attempt.event = event → attempt.rolledBack = false →
    ∀ account, db.account? customerId = some account → event.id ∉ account.handled →
      account.row.ignores event.createdAt change = none

/-- Once a current event has been handled that is newer than the others of a subscription,
the account reflects it for good. -/
theorem reflects_run (hevents : SubscriptionEvents customerId subscriptionIds events)
    (hmem : newest ∈ events) (hread : readSubscriptionEvent newest = some newestChange)
    (hsettles : newestChange.Settles config.stripePlans)
    (hnewest : ∀ e ∈ events, ∀ change, readSubscriptionEvent e = some change →
      e = newest ∨ e.created < newest.created ∨
        (change.subscriptionId ≠ newestChange.subscriptionId ∧
          newestChange.status ∈ liveStatuses))
    (hawaits : db.Holds customerId subscriptionIds fun account => newest.id ∉ account.handled)
    (hdelivers : DeliversAll events attempts)
    (hcurrent : Along (receive config) (Current customerId newest newestChange) db attempts) :
    (run (receive config) db attempts).Holds customerId subscriptionIds
      fun account => account.Reflects config newest newestChange := by
  have hadmitted : Along (receive config)
      (fun db attempt => attempt.event ∈ events ∧
        Current customerId newest newestChange db attempt) db attempts :=
    (along_of_forall hdelivers.1).and hcurrent
  refine run_of_leadsTo (E := fun attempt => attempt.event = newest ∧ attempt.rolledBack = false)
    ?wait ?reach ?stay hawaits hadmitted (hdelivers.2 newest hmem)
  case wait =>
    rintro db attempt hholds ⟨hattempt, _⟩ hother
    obtain ⟨change, hreads, _, _⟩ := hevents.reads _ hattempt
    refine Holds.receive hevents hattempt hreads hholds (fun _ _ h => h) ?_
    intro hback account _ hnew
    have hids : newest.id ≠ attempt.event.id := by
      intro hid
      exact hother ⟨(hevents.ids _ hmem _ hattempt hid).symm, hback⟩
    rcases Account.handle_cases config attempt.event change account with
      ⟨handled, hhandle, _, honly⟩ | ⟨_, _, hhandle⟩
    · rw [hhandle]
      intro hin
      exact (honly _ hin).elim hnew hids
    · rw [hhandle]
      intro hin
      rcases List.mem_append.mp hin with hold | hlast
      · exact hnew hold
      · exact hids (List.mem_singleton.mp hlast)
  case reach =>
    rintro db attempt hholds ⟨hattempt, hnow⟩ ⟨hevent, hback⟩
    have hreads : readSubscriptionEvent attempt.event = some newestChange := by rw [hevent, hread]
    refine Holds.receive hevents hattempt hreads hholds (fun h => absurd (hback.symm.trans h) ?_) ?_
    · exact Bool.false_ne_true
    · intro _ account haccount hnew
      rw [hevent]
      exact Account.reflects_handle hnew (hnow hevent hback account haccount hnew) hsettles
  case stay =>
    rintro db attempt hholds ⟨hattempt, _⟩
    obtain ⟨change, hreads, _, _⟩ := hevents.reads _ hattempt
    refine Holds.receive hevents hattempt hreads hholds (fun _ _ h => h) ?_
    intro _ account _ hreflects
    refine hreflects.handle ?_
    rcases hnewest _ hattempt _ hreads with hsame | hrest
    · exact Or.inl (by rw [hsame])
    · exact Or.inr hrest

/-- With one subscription its newest event is always current: no other subscription is in
the way, and nothing newer is ever applied. -/
theorem current_of_single {subscriptionId : String}
    (hevents : SubscriptionEvents customerId [subscriptionId] events)
    (hnewest : ∀ e ∈ events, e.created ≤ newest.created)
    (hsubscription : newestChange.subscriptionId = subscriptionId)
    (hholds : db.Holds customerId [subscriptionId] fun account =>
      (∀ id ∈ account.row.stripeSubscriptionId, id = subscriptionId) ∧
        ∀ t ∈ account.row.lastEventAt, t ≤ newest.createdAt)
    (hdelivers : ∀ attempt ∈ attempts, attempt.event ∈ events) :
    Along (receive config) (Current customerId newest newestChange) db attempts := by
  refine along_of_step (I := Holds customerId [subscriptionId] fun account =>
      (∀ id ∈ account.row.stripeSubscriptionId, id = subscriptionId) ∧
        ∀ t ∈ account.row.lastEventAt, t ≤ newest.createdAt)
    (P := fun _ attempt => attempt.event ∈ events) ?keep ?current hholds
    (along_of_forall hdelivers)
  case keep =>
    intro db attempt hholds hattempt
    obtain ⟨change, hreads, _, hsub⟩ := hevents.reads _ hattempt
    refine Holds.receive hevents hattempt hreads hholds (fun _ _ h => h) ?_
    intro _ account _ hrow
    rcases Account.handle_cases config attempt.event change account with
      ⟨handled, hhandle, _, _⟩ | ⟨_, _, hhandle⟩
    · rw [hhandle]
      exact hrow
    · rw [hhandle]
      constructor
      · rintro id hid
        rw [← Option.mem_some.mp hid]
        exact List.mem_singleton.mp hsub
      · rintro t ht
        rw [← Option.mem_some.mp ht]
        have hle := hnewest _ hattempt
        unfold StripeEvent.createdAt
        omega
  case current =>
    rintro db attempt ⟨_, account, haccount, hsub, hlast⟩ _ _ _ account' haccount' _
    have hsame : account' = account := Option.some.inj (haccount'.symm.trans haccount)
    rw [hsame]
    unfold Subscription.ignores
    have hfresh : ¬ account.row.lastEventAt.any (newest.createdAt < ·) := by
      cases hrow : account.row.lastEventAt with
      | none => simp
      | some t => simpa using hlast t (by rw [hrow]; rfl)
    have hown : ¬ account.row.stripeSubscriptionId.any (· ≠ newestChange.subscriptionId) := by
      cases hrow : account.row.stripeSubscriptionId with
      | none => simp
      | some id => simpa [hsubscription] using hsub id (by rw [hrow]; rfl)
    rw [if_neg hfresh, if_neg fun h => hown h.1]

end BillingTables

/-- An event about a subscription at the price of the sample configuration. -/
def sampleEvent (id type : String) (created : ℤ) (subscriptionId status : String) :
    StripeEvent where
  id := id
  type := type
  created := created
  object :=
    [("id", .string subscriptionId), ("customer", .string "cus_1"), ("status", .string status),
      ("items", .object [("data", .array [.object [("price", .object
        [("id", .string "price_pro")])]])])]

/-- One paid plan. -/
def sampleBilling : BillingConfig where
  stripePlans := [("pro", ⟨"price_pro", 499⟩)]
  defaultPlan := some "free"

/-- The row of a customer who has not subscribed yet. -/
def freshSubscription (userId : Uuid) (customerId : String) : Subscription where
  userId := userId
  stripeCustomerId := customerId
  stripeSubscriptionId := none
  plan := none
  status := "none"
  currentPeriodEnd := none
  cancelAtPeriodEnd := false
  lastEventAt := none

/-- An account on the default plan whose customer is known. -/
def knownCustomer : BillingTables where
  users := ⟨[⟨1, "ann@example.com", some "free"⟩], List.pairwise_singleton _ _⟩
  subscriptions := ⟨[freshSubscription 1 "cus_1"], List.pairwise_singleton _ _⟩
  stripeEvents := Table.empty

theorem account?_knownCustomer : knownCustomer.account? "cus_1" =
    some ⟨[], freshSubscription 1 "cus_1", ⟨1, "ann@example.com", some "free"⟩⟩ := by
  decide

theorem knownCustomer_owns (subscriptionId : String) :
    knownCustomer.Owns "cus_1" subscriptionId := by
  simp [BillingTables.Owns, knownCustomer, freshSubscription]

/-- The reading of such an event. -/
theorem readSubscriptionEvent_sampleEvent {id type : String} {created : ℤ}
    {subscriptionId status : String} (htype : type ∈ subscriptionEvents)
    (hsubscription : subscriptionId ≠ "") (hstatus : status ≠ "") :
    readSubscriptionEvent (sampleEvent id type created subscriptionId status) =
      some ⟨"cus_1", subscriptionId,
        if type = "customer.subscription.deleted" then "canceled" else status,
        some "price_pro", none, false⟩ := by
  simp [readSubscriptionEvent, sampleEvent, htype, List.lookup_cons, asString, idOf, firstItem,
    StripeValue.get?, StripeValue.orElse, asDate, hsubscription, hstatus]

/-- A first subscription of it begins. -/
def subscribed : StripeEvent :=
  sampleEvent "evt_1" "customer.subscription.created" 100 "sub_1" "active"

/-- It ends, at a time of its own. -/
def cancelled (created : ℤ) : StripeEvent :=
  sampleEvent "evt_2" "customer.subscription.deleted" created "sub_1" "canceled"

/-- A second subscription begins. -/
def resubscribed : StripeEvent :=
  sampleEvent "evt_3" "customer.subscription.created" 200 "sub_2" "active"

theorem sample_events (created : ℤ) (hcreated : created ≠ 100 ∧ created ≠ 200) :
    SubscriptionEvents "cus_1" ["sub_2", "sub_1"]
      [subscribed, cancelled created, resubscribed] where
  ids := by
    simp only [List.mem_cons, List.not_mem_nil, or_false]
    rintro e (rfl | rfl | rfl) e' (rfl | rfl | rfl) h
    all_goals first
      | rfl
      | exact absurd h (by simp [subscribed, cancelled, resubscribed, sampleEvent])
  created := by
    simp only [List.mem_cons, List.not_mem_nil, or_false]
    rintro e (rfl | rfl | rfl) e' (rfl | rfl | rfl) h
    all_goals first
      | rfl
      | simp only [subscribed, cancelled, resubscribed, sampleEvent] at h
        omega
  reads := by
    simp only [List.mem_cons, List.not_mem_nil, or_false]
    rintro e (rfl | rfl | rfl)
    · exact ⟨_, readSubscriptionEvent_sampleEvent (by decide) (by decide) (by decide), rfl,
        Or.inr rfl⟩
    · exact ⟨_, readSubscriptionEvent_sampleEvent (by decide) (by decide) (by decide), rfl,
        Or.inr rfl⟩
    · exact ⟨_, readSubscriptionEvent_sampleEvent (by decide) (by decide) (by decide), rfl,
        Or.inl rfl⟩

namespace BillingTables

variable {config : BillingConfig} {db : BillingTables} {customerId : String}
  {subscriptionIds : List String} {events : List StripeEvent} {newest : StripeEvent}
  {newestChange : SubscriptionChange} {attempts : List WebhookAttempt}

/-- **Order does not matter for one subscription.** Whatever the order of the deliveries,
their repetitions and the attempts rolled back, the account is left with the plan, the
status and the date of the newest event. -/
theorem newest_event_settles_account {subscriptionId : String} {account : Account}
    (hevents : SubscriptionEvents customerId [subscriptionId] events)
    (hsettles : ∀ e ∈ events, ∀ change, readSubscriptionEvent e = some change →
      change.Settles config.stripePlans)
    (hmem : newest ∈ events) (hnewest : ∀ e ∈ events, e.created ≤ newest.created)
    (hread : readSubscriptionEvent newest = some newestChange)
    (hknown : db.account? customerId = some account)
    (howns : db.Owns customerId subscriptionId)
    (hrow : ∀ id ∈ account.row.stripeSubscriptionId, id = subscriptionId)
    (hlast : ∀ t ∈ account.row.lastEventAt, t ≤ newest.createdAt)
    (hawaits : ∀ e ∈ events, e.id ∉ account.handled)
    (hdelivers : DeliversAll events attempts) :
    ∃ settled, (run (receive config) db attempts).account? customerId = some settled ∧
      (∀ current, settled.user.plan =
        (decidePlan newestChange config.stripePlans).userPlan config current) ∧
      settled.row.status = newestChange.status ∧
      settled.row.lastEventAt = some newest.createdAt := by
  obtain ⟨change, hread', _, hsub⟩ := hevents.reads _ hmem
  have hchange : change = newestChange := Option.some.inj (hread'.symm.trans hread)
  have hsubscription : newestChange.subscriptionId = subscriptionId := by
    rw [← hchange]
    exact List.mem_singleton.mp hsub
  have howns' : ∀ id ∈ [subscriptionId], db.Owns customerId id := by
    intro id hid
    rw [List.mem_singleton.mp hid]
    exact howns
  have holder : ∀ e ∈ events, ∀ change, readSubscriptionEvent e = some change →
      e = newest ∨ e.created < newest.created ∨
        (change.subscriptionId ≠ newestChange.subscriptionId ∧
          newestChange.status ∈ liveStatuses) := by
    intro e he change' _
    rcases Int.lt_or_eq_of_le (hnewest e he) with hlt | heq
    · exact Or.inr (Or.inl hlt)
    · exact Or.inl (hevents.created e he newest hmem heq)
  have hcurrent : Along (receive config) (Current customerId newest newestChange) db attempts :=
    current_of_single hevents hnewest hsubscription
      ⟨howns', account, hknown, hrow, hlast⟩ hdelivers.1
  obtain ⟨_, settled, hsettled, hreflects⟩ := reflects_run hevents hmem hread
    (hsettles newest hmem newestChange hread) holder
    ⟨howns', account, hknown, hawaits newest hmem⟩ hdelivers hcurrent
  refine ⟨settled, hsettled, fun current => ?_, hreflects.status, hreflects.lastEventAt⟩
  exact hreflects.plan.trans
    (Account.userPlan_of_settles (hsettles newest hmem newestChange hread) _ current)

/-- One subscription that begins and ends, its end delivered first, twice, and once more in
an attempt that is rolled back. -/
theorem newest_event_settles_sample :
    ∃ settled, (run (receive sampleBilling) knownCustomer
        [⟨cancelled 300, true⟩, ⟨cancelled 300, false⟩, ⟨subscribed, false⟩,
          ⟨cancelled 300, false⟩]).account? "cus_1" = some settled ∧
      (∀ current, settled.user.plan =
        (decidePlan ⟨"cus_1", "sub_1", "canceled", some "price_pro", none, false⟩
          sampleBilling.stripePlans).userPlan sampleBilling current) ∧
      settled.row.status = "canceled" ∧
      settled.row.lastEventAt = some (cancelled 300).createdAt := by
  have hread : readSubscriptionEvent (cancelled 300) =
      some ⟨"cus_1", "sub_1", "canceled", some "price_pro", none, false⟩ :=
    readSubscriptionEvent_sampleEvent (by decide) (by decide) (by decide)
  have hread' : readSubscriptionEvent subscribed =
      some ⟨"cus_1", "sub_1", "active", some "price_pro", none, false⟩ :=
    readSubscriptionEvent_sampleEvent (by decide) (by decide) (by decide)
  have hevents : SubscriptionEvents "cus_1" ["sub_1"] [subscribed, cancelled 300] := by
    have hall := sample_events 300 (by decide)
    refine ⟨fun e he e' he' => hall.ids e (by simp at he ⊢; tauto) e' (by simp at he' ⊢; tauto),
      fun e he e' he' => hall.created e (by simp at he ⊢; tauto) e' (by simp at he' ⊢; tauto), ?_⟩
    simp only [List.mem_cons, List.not_mem_nil, or_false]
    rintro e (rfl | rfl)
    · exact ⟨_, hread', rfl, rfl⟩
    · exact ⟨_, hread, rfl, rfl⟩
  refine newest_event_settles_account hevents ?_ (List.mem_cons_of_mem _ List.mem_cons_self) ?_
    hread account?_knownCustomer (knownCustomer_owns "sub_1") (by simp [freshSubscription])
    (by simp [freshSubscription]) (by simp) ?_
  · simp only [List.mem_cons, List.not_mem_nil, or_false]
    rintro e (rfl | rfl) change hchange
    · rw [← Option.some.inj (hread'.symm.trans hchange)]
      intro reason
      simp [decidePlan, endedStatuses, liveStatuses, sampleBilling, planOfPrice]
    · rw [← Option.some.inj (hread.symm.trans hchange)]
      intro reason
      simp [decidePlan, endedStatuses]
  · simp [subscribed, cancelled, sampleEvent]
  · simp [DeliversAll]

/-- **A live subscription keeps its plan**, where its newest event is not ignored when it is
handled: then the account ends with the plan of its price, wherever the events of the other
subscription come. -/
theorem live_subscription_keeps_plan {live other plan : String} {account : Account}
    (hevents : SubscriptionEvents customerId [live, other] events)
    (hmem : newest ∈ events) (hread : readSubscriptionEvent newest = some newestChange)
    (hlive : newestChange.subscriptionId = live)
    (hnewest : ∀ e ∈ events, ∀ change, readSubscriptionEvent e = some change →
      change.subscriptionId = live → e.created ≤ newest.created)
    (hgrant : decidePlan newestChange config.stripePlans = .grant plan)
    (hknown : db.account? customerId = some account)
    (howns : db.Owns customerId live ∧ db.Owns customerId other)
    (hawaits : ∀ e ∈ events, e.id ∉ account.handled)
    (hdelivers : DeliversAll events attempts)
    (hcurrent : Along (receive config) (Current customerId newest newestChange) db attempts) :
    ∃ settled, (run (receive config) db attempts).account? customerId = some settled ∧
      settled.user.plan = some plan := by
  have howns' : ∀ id ∈ [live, other], db.Owns customerId id := by
    intro id hid
    rcases List.mem_cons.mp hid with rfl | hid
    · exact howns.1
    · rw [List.mem_singleton.mp hid]
      exact howns.2
  have holder : ∀ e ∈ events, ∀ change, readSubscriptionEvent e = some change →
      e = newest ∨ e.created < newest.created ∨
        (change.subscriptionId ≠ newestChange.subscriptionId ∧
          newestChange.status ∈ liveStatuses) := by
    intro e he change hreads
    by_cases hsame : change.subscriptionId = live
    · rcases Int.lt_or_eq_of_le (hnewest e he change hreads hsame) with hlt | heq
      · exact Or.inr (Or.inl hlt)
      · exact Or.inl (hevents.created e he newest hmem heq)
    · right
      right
      rw [hlive]
      exact ⟨hsame, (decidePlan_eq_grant.mp hgrant).1⟩
  have hsettles : newestChange.Settles config.stripePlans := by
    intro reason
    rw [hgrant]
    simp
  obtain ⟨_, settled, hsettled, hreflects⟩ := reflects_run hevents hmem hread hsettles holder
    ⟨howns', account, hknown, hawaits newest hmem⟩ hdelivers hcurrent
  refine ⟨settled, hsettled, ?_⟩
  rw [hreflects.plan, hgrant]
  rfl

/-- A subscription that ends before the next one begins, with the end repeated later. -/
theorem live_subscription_keeps_sample :
    ∃ settled, (run (receive sampleBilling) knownCustomer
        [⟨subscribed, false⟩, ⟨cancelled 150, false⟩, ⟨resubscribed, false⟩,
          ⟨cancelled 150, false⟩]).account? "cus_1" = some settled ∧
      settled.user.plan = some "pro" := by
  have hread : readSubscriptionEvent resubscribed =
      some ⟨"cus_1", "sub_2", "active", some "price_pro", none, false⟩ :=
    readSubscriptionEvent_sampleEvent (by decide) (by decide) (by decide)
  refine live_subscription_keeps_plan (sample_events 150 (by decide))
    (List.mem_cons_of_mem _ (List.mem_cons_of_mem _ List.mem_cons_self)) hread rfl ?_ ?_
    account?_knownCustomer ⟨knownCustomer_owns _, knownCustomer_owns _⟩ (by simp) ?_ ?_
  · simp [subscribed, cancelled, resubscribed, sampleEvent]
  · decide
  · simp [DeliversAll]
  · refine ⟨?_, ?_, ?_, ?_, trivial⟩
    · intro h
      exact absurd (congrArg StripeEvent.id h) (by decide)
    · intro h
      exact absurd (congrArg StripeEvent.id h) (by decide)
    · intro _ _ account haccount _
      have hcurrent : ((run (receive sampleBilling) knownCustomer
          [⟨subscribed, false⟩, ⟨cancelled 150, false⟩]).account? "cus_1").all (fun account =>
            account.row.ignores resubscribed.createdAt
              ⟨"cus_1", "sub_2", "active", some "price_pro", none, false⟩ = none) := by
        decide
      rw [run_cons, run_cons, run_nil, haccount] at hcurrent
      exact of_decide_eq_true hcurrent
    · intro h
      exact absurd (congrArg StripeEvent.id h) (by decide)

/-- Delivered in the order they were created, the second subscription is ignored while the
first runs, and the end of the first takes the plan away. -/
theorem ended_subscription_takes_plan :
    let events := [subscribed, resubscribed, cancelled 300]
    let attempts := events.map fun event => (⟨event, false⟩ : WebhookAttempt)
    SubscriptionEvents "cus_1" ["sub_2", "sub_1"] [subscribed, cancelled 300, resubscribed] ∧
      DeliversAll [subscribed, cancelled 300, resubscribed] attempts ∧
      ((readSubscriptionEvent resubscribed).map fun change =>
        (change.subscriptionId, decidePlan change sampleBilling.stripePlans)) =
          some ("sub_2", .grant "pro") ∧
      ((run (receive sampleBilling) knownCustomer attempts).account? "cus_1").map
        (fun account => account.user.plan) = some (some "free") := by
  refine ⟨sample_events 300 (by decide), ?_, ?_, ?_⟩
  · simp [DeliversAll]
  · decide
  · decide

end BillingTables

end SilenceWatch
