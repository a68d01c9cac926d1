import Mathlib.Data.List.Basic
import Mathlib.Data.Int.Notation

/-!
# What a Stripe event says

The reading of a subscription event and the decision it means for the account's
plan. The object of an event is JSON of any shape; what is read from it is the
customer, the subscription, its status, its first price and its paid period.
-/

namespace SilenceWatch

/-- A JSON value inside the object of an event. -/
inductive StripeValue where
  | null
  | bool (b : Bool)
  | number (n : ℤ)
  | string (s : String)
  | array (items : List StripeValue)
  | object (fields : List (String × StripeValue))

/-- `StripeEvent`. Times are whole Unix seconds. -/
structure StripeEvent where
  id : String
  type : String
  created : ℤ
  /-- `data.object`. -/
  object : List (String × StripeValue)

/-- `new Date(event.created * 1000)`. -/
def StripeEvent.createdAt (event : StripeEvent) : ℤ := event.created * 1000

/-- `SubscriptionChange`. -/
structure SubscriptionChange where
  customerId : String
  subscriptionId : String
  /-- Stripe's own word. -/
  status : String
  priceId : Option String
  currentPeriodEnd : Option ℤ
  cancelAtPeriodEnd : Bool
  deriving DecidableEq

/-- `LIVE_STATUSES`. -/
def liveStatuses : List String := ["active", "trialing", "past_due"]

/-- `ENDED_STATUSES`. -/
def endedStatuses : List String := ["canceled", "unpaid", "incomplete_expired", "paused"]

/-- `SUBSCRIPTION_EVENTS`. -/
def subscriptionEvents : List String :=
  ["customer.subscription.created", "customer.subscription.updated",
    "customer.subscription.deleted", "customer.subscription.paused",
    "customer.subscription.resumed"]

/-- A property of an object, where a value that is no object has none. -/
def StripeValue.get? (name : String) : StripeValue → Option StripeValue
  | .object fields => fields.lookup name
  | _ => none

/-- `asString`. -/
def asString : Option StripeValue → Option String
  | some (.string s) => if s = "" then none else some s
  | _ => none

/-- `idOf`: an object that Stripe sends either bare or expanded. -/
def idOf (value : Option StripeValue) : Option String :=
  (asString value).or (asString (value.bind (StripeValue.get? "id")))

/-- `value ?? other`: an explicit `null` counts as missing. -/
def StripeValue.orElse : Option StripeValue → Option StripeValue → Option StripeValue
  | none, other => other
  | some .null, other => other
  | some value, _ => some value

/-- `typeof value === 'number' ? new Date(value * 1000) : null`. -/
def asDate : Option StripeValue → Option ℤ
  | some (.number n) => some (n * 1000)
  | _ => none

/-- The first of a subscription's items, if its `items.data` is an array. -/
def firstItem (subscription : List (String × StripeValue)) : Option StripeValue :=
  match (subscription.lookup "items").bind (StripeValue.get? "data") with
  | some (.array items) => items.head?
  | _ => none

/-- `readSubscriptionEvent`. -/
def readSubscriptionEvent (event : StripeEvent) : Option SubscriptionChange :=
  if event.type ∉ subscriptionEvents then none
  else
    match idOf (event.object.lookup "customer"), asString (event.object.lookup "id") with
    | some customerId, some subscriptionId =>
      let item := firstItem event.object
      some
        { customerId := customerId
          subscriptionId := subscriptionId
          -- A deleted subscription is over, whatever status it still carries.
          status :=
            if event.type = "customer.subscription.deleted" then "canceled"
            else (asString (event.object.lookup "status")).getD "incomplete"
          priceId := idOf (item.bind (StripeValue.get? "price"))
          currentPeriodEnd :=
            asDate (StripeValue.orElse (event.object.lookup "current_period_end")
              (item.bind (StripeValue.get? "current_period_end")))
          cancelAtPeriodEnd :=
            match event.object.lookup "cancel_at_period_end" with
            | some (.bool b) => b
            | _ => false }
    | _, _ => none

/-- `StripePlan`. -/
structure StripePlan where
  price : String
  amount : ℤ
  deriving DecidableEq

/-- `reason` of a decision to keep the plan. -/
inductive KeepReason where
  | unknownPrice
  | notSettled
  deriving DecidableEq

/-- `PlanDecision`. -/
inductive PlanDecision where
  | grant (plan : String)
  | end
  | keep (reason : KeepReason)
  deriving DecidableEq

/-- The plan a price buys, the first of the configured ones that names it. -/
def planOfPrice (plans : List (String × StripePlan)) (priceId : Option String) : Option String :=
  (plans.find? fun entry => some entry.2.price = priceId).map Prod.fst

/-- `decidePlan`. -/
def decidePlan (change : SubscriptionChange) (plans : List (String × StripePlan)) :
    PlanDecision :=
  if change.status ∈ endedStatuses then .end
  else if change.status ∉ liveStatuses then .keep .notSettled
  else
    match planOfPrice plans change.priceId with
    | none => .keep .unknownPrice
    | some plan => .grant plan

/-- Only a live subscription grants a plan, and it grants that of its price. -/
theorem decidePlan_eq_grant {change : SubscriptionChange} {plans : List (String × StripePlan)}
    {plan : String} :
    decidePlan change plans = .grant plan ↔
      change.status ∈ liveStatuses ∧ planOfPrice plans change.priceId = some plan := by
  have hdisjoint : change.status ∈ liveStatuses → change.status ∉ endedStatuses := by
    simp only [liveStatuses, endedStatuses, List.mem_cons, List.not_mem_nil, or_false]
    rintro (h | h | h)
    all_goals
      rw [h]
      decide
  unfold decidePlan
  constructor
  · intro h
    split at h
    · cases h
    · split at h
      · cases h
      · next hlive =>
        cases hprice : planOfPrice plans change.priceId with
        | none =>
          rw [hprice] at h
          cases h
        | some plan' =>
          rw [hprice] at h
          cases h
          exact ⟨not_not.mp hlive, rfl⟩
  · rintro ⟨hlive, hprice⟩
    rw [if_neg (hdisjoint hlive), if_neg (not_not.mpr hlive), hprice]

end SilenceWatch
