import SilenceWatch.Billing.Deliveries
import SilenceWatch.Quotas.Service

/-!
# Plans that are configured, sold and granted

What the validation of the environment asks of the plans, and what that is worth over the life
of a server: whatever is signed up, paid, ended or set by support, every account is on no plan
or on one that the limits define, and what is paid for is what is granted.
-/

namespace SilenceWatch

open Relational Transition

/-- The settings about plans, with what `parsePlanLimits` and `parseStripePlans` make of two of
them. -/
structure PlanSettings where
  quotasEnabled : Bool
  defaultPlan : String
  planLimits : Option (List (String × PlanLimits))
  billingEnabled : Bool
  stripeSecretKey : Option String
  stripeWebhookSecret : Option String
  stripePlans : Option (List (String × StripePlan))
  billingTermsUrl : Option String
  billingProfessionalOnly : Bool

/-- What is wrong with one setting. -/
structure EnvIssue where
  path : String
  message : String
  deriving DecidableEq

/-- The names that every object has a property for. -/
def inheritedNames : List String :=
  ["__defineGetter__", "__defineSetter__", "__lookupGetter__", "__lookupSetter__", "__proto__",
    "constructor", "hasOwnProperty", "isPrototypeOf", "propertyIsEnumerable", "toLocaleString",
    "toString", "valueOf"]

/-- `record[name] !== undefined`. -/
def hasProperty {α : Type} (record : List (String × α)) (name : String) : Bool :=
  (record.lookup name).isSome || inheritedNames.contains name

theorem hasProperty_iff {α : Type} {record : List (String × α)} {name : String} :
    hasProperty record name = true ↔ name ∈ record.map Prod.fst ∨ name ∈ inheritedNames := by
  unfold hasProperty
  rw [Bool.or_eq_true_iff, List.contains_iff_mem, List.lookup_isSome_iff]
  simp

/-- `Object.keys(record).join(', ')`. -/
def keysText {α : Type} (record : List (String × α)) : String :=
  ", ".intercalate (record.map Prod.fst)

namespace PlanSettings

/-- What `validateEnv` finds about plans. -/
def limitIssues (env : PlanSettings) : List EnvIssue :=
  match env.planLimits with
  | none =>
    [⟨"PLAN_LIMITS", "must be a JSON object of \x7bplan: \x7bchecks?, projects?, " ++
      "channelsPerProject?, retentionDays?\x7d\x7d"⟩]
  | some plans =>
    if !env.quotasEnabled then []
    else if plans.length = 0 then
      [⟨"PLAN_LIMITS",
        "QUOTAS_ENABLED is on but no plan is defined, so every account would be unlimited"⟩]
    else if !hasProperty plans env.defaultPlan then
      [⟨"DEFAULT_PLAN", "\"" ++ env.defaultPlan ++ "\" is not one of the plans in PLAN_LIMITS (" ++
        keysText plans ++ ")"⟩]
    else []

/-- The key, if anything is wrong with it. -/
def secretKeyIssues (env : PlanSettings) : List EnvIssue :=
  match env.stripeSecretKey with
  | none => [⟨"STRIPE_SECRET_KEY", "required when BILLING_ENABLED is on"⟩]
  | some key =>
    if "sk_".toList <+: key.toList ∨ "rk_".toList <+: key.toList then []
    else
      [⟨"STRIPE_SECRET_KEY",
        "must be a secret or restricted key (sk_… or rk_…), not the publishable one"⟩]

/-- The secret of the webhook, if anything is wrong with it. -/
def webhookSecretIssues (env : PlanSettings) : List EnvIssue :=
  match env.stripeWebhookSecret with
  | none =>
    [⟨"STRIPE_WEBHOOK_SECRET",
      "required when BILLING_ENABLED is on: without it no payment could ever be recorded"⟩]
  | some secret =>
    if "whsec_".toList <+: secret.toList then []
    else [⟨"STRIPE_WEBHOOK_SECRET", "must be the endpoint signing secret (whsec_…)"⟩]

/-- The loop over the paid plans, with the prices that it has seen. -/
def paidPlanIssues (env : PlanSettings) :
    List String → List (String × StripePlan) → List EnvIssue
  | _, [] => []
  | prices, (name, plan) :: rest =>
    (if (env.planLimits.map (hasProperty · name)).getD false then []
      else [⟨"STRIPE_PLANS", "\"" ++ name ++ "\" is not one of the plans in PLAN_LIMITS"⟩]) ++
    (if name = env.defaultPlan then
      [⟨"STRIPE_PLANS",
        "\"" ++ name ++ "\" is the plan every account starts on, so it cannot be bought"⟩]
      else []) ++
    (if plan.price ∈ prices then
      [⟨"STRIPE_PLANS", "the price " ++ plan.price ++
        " is used by two plans, so a payment could not tell them apart"⟩]
      else []) ++
    paidPlanIssues env (plan.price :: prices) rest

/-- `validateBilling`. -/
def billingIssues (env : PlanSettings) : List EnvIssue :=
  (if env.stripePlans.isNone then
    [⟨"STRIPE_PLANS",
      "must be a JSON object of \x7bplan: \x7bprice: \"price_…\", amount: <cents>\x7d\x7d"⟩]
    else []) ++
  (if env.billingProfessionalOnly ∧ env.billingTermsUrl.all (· = "") then
    [⟨"BILLING_PROFESSIONAL_ONLY",
      "needs BILLING_TERMS_URL: the declaration is made in the box that accepts the terms"⟩]
    else []) ++
  if !env.billingEnabled then []
  else
    (if !env.quotasEnabled then
      [⟨"BILLING_ENABLED", "needs QUOTAS_ENABLED: a subscription only chooses a plan, and " ++
        "without quotas no plan limits anything"⟩]
      else []) ++
    env.secretKeyIssues ++ env.webhookSecretIssues ++
    match env.stripePlans with
    | none => []
    | some stripePlans =>
      if stripePlans.length = 0 then
        [⟨"STRIPE_PLANS", "BILLING_ENABLED is on but no paid plan is defined"⟩]
      else env.paidPlanIssues [] stripePlans

/-- What `validateEnv` finds about plans and billing, in its order. -/
def issues (env : PlanSettings) : List EnvIssue := env.limitIssues ++ env.billingIssues

end PlanSettings

/-- Settings that the process boots with. -/
structure AcceptedPlans extends PlanSettings where
  accepted : toPlanSettings.issues = []

namespace AcceptedPlans

variable (env : AcceptedPlans)

/-- `config.planLimits`. -/
def limits : List (String × PlanLimits) := env.planLimits.getD []

/-- `config.stripePlans`. -/
def sold : List (String × StripePlan) := env.stripePlans.getD []

/-- `QuotaService.defaultPlan`. -/
def startingPlan : Option String := if env.quotasEnabled then some env.defaultPlan else none

/-- What the handling of an event is given. -/
def billing : BillingConfig := ⟨env.sold, env.startingPlan⟩

/-- A plan that the limits define. -/
def Defines (plan : String) : Prop := plan ∈ env.limits.map Prod.fst

/-- A plan that the limits define, or one of the names that every object has a property for,
if it is among those that are in use. -/
def Admits (used : List String) (plan : String) : Prop :=
  env.Defines plan ∨ plan ∈ inheritedNames ∧ plan ∈ used

/-- The names of plans that are in the settings. -/
def settingNames : List String := env.defaultPlan :: env.sold.map Prod.fst

end AcceptedPlans

/-- What happens to accounts, subscriptions and their plans. -/
inductive PlanEvent where
  | signUp (id : Uuid) (email : String)
  /-- Support sets the plan of an account, `none` for no limits. -/
  | setPlan (email plan : String)
  /-- `rememberCustomer`, the insert. -/
  | rememberCustomer (userId : Uuid) (customerId : String)
  | webhook (event : StripeEvent)
  /-- An account goes with its subscription. -/
  | deleteUser (userId : Uuid)

/-- The name of a plan that support gives. -/
def PlanEvent.givenName? : PlanEvent → Option String
  | .setPlan _ plan => some plan
  | _ => none

/-- The names of plans that are in the settings or given by support. -/
def usedNames (env : AcceptedPlans) (es : List PlanEvent) : List String :=
  env.settingNames ++ es.filterMap PlanEvent.givenName?

namespace BillingTables

/-- `plan === 'none' ? null : plan`. -/
def nextPlan (plan : String) : Option String := if plan = "none" then none else some plan

/-- `SupportCommands.setPlan`, which refuses a plan that the limits do not define. -/
def setPlan (env : AcceptedPlans) (db : BillingTables) (email plan : String) : BillingTables :=
  if (nextPlan plan).any fun plan => !hasProperty env.limits plan then db
  else
    { db with
      users := db.users.update (fun u => u.email = email) (User.assignPlan (nextPlan plan))
        (User.keepsDistinct_assignPlan (nextPlan plan)) }

/-- The insert of `rememberCustomer`, which skips an account that has a row. -/
def rememberCustomer (db : BillingTables) (userId : Uuid) (customerId : String) : BillingTables :=
  match db.subscriptions.insert? ⟨userId, customerId, none, none, "none", none, false, none⟩ with
  | none => db
  | some subscriptions => { db with subscriptions }

/-- The tables after an event. -/
def planStep (env : AcceptedPlans) (db : BillingTables) : PlanEvent → BillingTables
  | .signUp id email =>
    match db.users.insert? ⟨id, email, env.startingPlan⟩ with
    | none => db
    | some users => { db with users }
  | .setPlan email plan => db.setPlan env email plan
  | .rememberCustomer userId customerId => db.rememberCustomer userId customerId
  | .webhook event => if env.billingEnabled then db.handleEvent env.billing event else db
  | .deleteUser userId =>
    { db with
      users := db.users.delete fun u => u.id = userId
      subscriptions := db.subscriptions.delete fun r => r.userId = userId }

/-- Every account is on no plan or on one that the limits define, but for the names that every
object has, and every subscription grants nothing or a plan that is sold. -/
structure PlansKnown (env : AcceptedPlans) (used : List String) (db : BillingTables) : Prop where
  users : ∀ u ∈ db.users.rows, ∀ plan ∈ u.plan, env.Admits used plan
  subscriptions : ∀ r ∈ db.subscriptions.rows, ∀ plan ∈ r.plan, plan ∈ env.sold.map Prod.fst

end BillingTables

section Accepted

variable (env : AcceptedPlans)

theorem AcceptedPlans.no_issues : env.limitIssues = [] ∧ env.billingIssues = [] :=
  List.append_eq_nil_iff.mp env.accepted

/-- What has a property in the limits is defined, or such a name. -/
theorem AcceptedPlans.admits_of_hasProperty {used : List String} {plan : String}
    (h : hasProperty env.limits plan = true) (hused : plan ∈ used) : env.Admits used plan :=
  (hasProperty_iff.mp h).imp_right fun hinherited => ⟨hinherited, hused⟩

/-- The plan that accounts start on is defined. -/
theorem AcceptedPlans.hasProperty_startingPlan : ∀ plan ∈ env.startingPlan,
    hasProperty env.limits plan = true ∧ plan = env.defaultPlan := by
  intro plan hplan
  unfold startingPlan at hplan
  split at hplan
  · next hquotas =>
    obtain rfl := Option.some.inj hplan
    have hlimits := env.no_issues.1
    unfold PlanSettings.limitIssues at hlimits
    unfold limits
    cases hplans : env.planLimits with
    | none => simp [hplans] at hlimits
    | some plans =>
      simp only [hplans, hquotas, Bool.not_true, Bool.false_eq_true, if_false] at hlimits
      split at hlimits
      · exact absurd hlimits (List.cons_ne_nil _ _)
      · split at hlimits
        · exact absurd hlimits (List.cons_ne_nil _ _)
        · next hdefined => exact ⟨by simpa using hdefined, rfl⟩
  · cases hplan

theorem AcceptedPlans.admits_startingPlan {used : List String}
    (hsettings : ∀ plan ∈ env.settingNames, plan ∈ used) :
    ∀ plan ∈ env.startingPlan, env.Admits used plan := by
  intro plan hplan
  obtain ⟨hproperty, rfl⟩ := env.hasProperty_startingPlan plan hplan
  exact env.admits_of_hasProperty hproperty (hsettings _ List.mem_cons_self)

/-- What the loop over the paid plans lets pass. -/
theorem paidPlanIssues_eq_nil {env : PlanSettings} {prices : List String}
    {plans : List (String × StripePlan)} (h : env.paidPlanIssues prices plans = []) :
    (∀ entry ∈ plans, (env.planLimits.map (hasProperty · entry.1)).getD false = true ∧
      entry.1 ≠ env.defaultPlan ∧ entry.2.price ∉ prices) ∧
    (plans.map fun entry => entry.2.price).Nodup := by
  induction plans generalizing prices with
  | nil => simp
  | cons entry rest ih =>
    obtain ⟨name, plan⟩ := entry
    unfold PlanSettings.paidPlanIssues at h
    simp only [List.append_eq_nil_iff, ite_eq_left_iff, ite_eq_right_iff, List.cons_ne_nil,
      imp_false, not_not] at h
    obtain ⟨⟨⟨hdefined, hdefault⟩, hprice⟩, hrest⟩ := h
    obtain ⟨hall, hnodup⟩ := ih hrest
    refine ⟨fun entry hentry => ?_, ?_⟩
    · rcases List.mem_cons.mp hentry with rfl | hentry
      · exact ⟨hdefined, hdefault, hprice⟩
      · obtain ⟨hdefined', hdefault', hprice'⟩ := hall entry hentry
        exact ⟨hdefined', hdefault', fun hmem => hprice' (List.mem_cons_of_mem _ hmem)⟩
    · rw [List.map_cons, List.nodup_cons]
      refine ⟨fun hmem => ?_, hnodup⟩
      obtain ⟨entry, hentry, hsame⟩ := List.mem_map.mp hmem
      exact (hall entry hentry).2.2 (hsame ▸ List.mem_cons_self)

/-- Where billing is on, what is sold is defined, is not what accounts start on, and has a price
of its own. -/
theorem AcceptedPlans.sold_spec (hbilling : env.billingEnabled = true) :
    env.quotasEnabled = true ∧ (∀ entry ∈ env.sold, hasProperty env.limits entry.1 = true ∧
      entry.1 ≠ env.defaultPlan) ∧ (env.sold.map fun entry => entry.2.price).Nodup := by
  have hissues := env.no_issues.2
  unfold PlanSettings.billingIssues at hissues
  simp only [hbilling, Bool.not_true, Bool.false_eq_true, if_false, List.append_eq_nil_iff,
    ite_eq_right_iff, List.cons_ne_nil, imp_false] at hissues
  obtain ⟨⟨hparsed, _⟩, ⟨⟨hquotas, _⟩, _⟩, hsold⟩ := hissues
  have hquotas : env.quotasEnabled = true := by simpa using hquotas
  cases hplans : env.stripePlans with
  | none => simp [hplans] at hparsed
  | some plans =>
    simp only [hplans] at hsold
    unfold sold
    rw [hplans, Option.getD_some]
    split at hsold
    · exact absurd hsold (List.cons_ne_nil _ _)
    · obtain ⟨hall, hnodup⟩ := paidPlanIssues_eq_nil hsold
      refine ⟨hquotas, fun entry hentry => ⟨?_, (hall entry hentry).2.1⟩, hnodup⟩
      have hdefined := (hall entry hentry).1
      unfold limits
      cases hlimits : env.planLimits with
      | none => simp [hlimits] at hdefined
      | some limits => simpa [hlimits] using hdefined

end Accepted

/-- The plan that a price buys, where no two plans have one price. -/
theorem planOfPrice_eq {plans : List (String × StripePlan)} {name : String} {plan : StripePlan}
    (hprices : (plans.map fun entry => entry.2.price).Nodup) (hmem : (name, plan) ∈ plans) :
    planOfPrice plans (some plan.price) = some name := by
  unfold planOfPrice
  cases hfound : plans.find? fun entry => some entry.2.price = some plan.price with
  | none =>
    have hnone := List.find?_eq_none.mp hfound _ hmem
    simp at hnone
  | some entry =>
    have hprice : entry.2.price = plan.price := by simpa using List.find?_some hfound
    have hsame := List.inj_on_of_nodup_map hprices (List.mem_of_find?_eq_some hfound) hmem hprice
    rw [hsame, Option.map_some]

section Runs

variable {env : AcceptedPlans} {db : BillingTables} {used : List String}

/-- What a decision makes of the plan of an account is defined, unless it is what it was. -/
theorem admits_userPlan (hbilling : env.billingEnabled = true)
    (hsettings : ∀ plan ∈ env.settingNames, plan ∈ used) (change : SubscriptionChange)
    {current : Option String}
    (hchanged : (decidePlan change env.billing.stripePlans).userPlan env.billing current ≠
      current) :
    ∀ plan ∈ (decidePlan change env.billing.stripePlans).userPlan env.billing current,
      env.Admits used plan := by
  intro plan hplan
  cases hdecision : decidePlan change env.billing.stripePlans with
  | grant granted =>
    rw [hdecision] at hplan
    obtain rfl := Option.some.inj hplan
    obtain ⟨_, hprice⟩ := decidePlan_eq_grant.mp hdecision
    obtain ⟨entry, hfound, rfl⟩ := Option.map_eq_some_iff.mp hprice
    have hentry := List.mem_of_find?_eq_some hfound
    refine env.admits_of_hasProperty ((env.sold_spec hbilling).2.1 entry hentry).1 ?_
    exact hsettings _ (List.mem_cons_of_mem _ (List.mem_map_of_mem hentry))
  | «end» =>
    rw [hdecision] at hplan
    exact env.admits_startingPlan hsettings plan hplan
  | keep reason =>
    rw [hdecision] at hchanged
    exact absurd rfl hchanged

/-- What a decision makes of the plan of a subscription is sold, unless it is what it was. -/
theorem sold_rowPlan (change : SubscriptionChange) {current : Option String}
    (hcurrent : ∀ plan ∈ current, plan ∈ env.sold.map Prod.fst) :
    ∀ plan ∈ (decidePlan change env.billing.stripePlans).rowPlan current,
      plan ∈ env.sold.map Prod.fst := by
  intro plan hplan
  cases hdecision : decidePlan change env.billing.stripePlans with
  | grant granted =>
    rw [hdecision] at hplan
    obtain rfl := Option.some.inj hplan
    obtain ⟨_, hprice⟩ := decidePlan_eq_grant.mp hdecision
    obtain ⟨entry, hfound, rfl⟩ := Option.map_eq_some_iff.mp hprice
    exact List.mem_map_of_mem (List.mem_of_find?_eq_some hfound)
  | «end» =>
    rw [hdecision] at hplan
    cases hplan
  | keep reason =>
    rw [hdecision] at hplan
    exact hcurrent plan hplan

/-- An event grants what is sold, or returns to the plan that accounts start on. -/
theorem PlansKnown.handleEvent (h : db.PlansKnown env used) (hbilling : env.billingEnabled = true)
    (hsettings : ∀ plan ∈ env.settingNames, plan ∈ used) (event : StripeEvent) :
    (db.handleEvent env.billing event).PlansKnown env used := by
  unfold BillingTables.handleEvent
  cases hread : readSubscriptionEvent event with
  | none => exact h
  | some change =>
    dsimp only
    rcases db.applied_cases env.billing event change with
      hsame | ⟨stripeEvents, _, _, hrecorded | ⟨row, user, hrow, _, hwrite⟩⟩
    · rwa [hsame]
    · rw [hrecorded]
      exact ⟨h.users, h.subscriptions⟩
    · obtain ⟨hrows, _, husers⟩ := BillingTables.write_eq_some hwrite
      have hmem := (BillingTables.findSubscription_eq_some hrow).1
      refine ⟨fun u hu => ?_, fun r hr => ?_⟩
      · rw [husers] at hu
        split at hu
        · next hchanged =>
          obtain ⟨old, hold, ⟨_, rfl⟩ | ⟨_, rfl⟩⟩ := mem_map_updateRow.mp hu
          · exact admits_userPlan hbilling hsettings change hchanged
          · exact h.users _ hold
        · exact h.users u hu
      · rw [hrows] at hr
        obtain ⟨old, hold, ⟨_, rfl⟩ | ⟨_, rfl⟩⟩ := mem_map_updateRow.mp hr
        · exact sold_rowPlan change (h.subscriptions row hmem)
        · exact h.subscriptions _ hold

/-- **One step.** -/
theorem PlansKnown.step (h : db.PlansKnown env used)
    (hsettings : ∀ plan ∈ env.settingNames, plan ∈ used) (e : PlanEvent)
    (hgiven : ∀ plan ∈ e.givenName?, plan ∈ used) : (db.planStep env e).PlansKnown env used := by
  cases e with
  | signUp id email =>
    unfold BillingTables.planStep
    dsimp only
    split
    · exact h
    · next users hinsert =>
      refine ⟨fun u hu => ?_, h.subscriptions⟩
      dsimp only at hu
      rw [Table.insert?_eq_some hinsert] at hu
      rcases List.mem_append.mp hu with hu | hu
      · exact h.users u hu
      · rw [List.mem_singleton.mp hu]
        exact env.admits_startingPlan hsettings
  | setPlan email plan =>
    unfold BillingTables.planStep BillingTables.setPlan
    dsimp only
    split
    · exact h
    · next hdefined =>
      refine ⟨fun u hu => ?_, h.subscriptions⟩
      obtain ⟨old, hold, ⟨_, rfl⟩ | ⟨_, rfl⟩⟩ := mem_map_updateRow.mp hu
      · intro plan' hplan'
        have hnext : BillingTables.nextPlan plan = some plan' := hplan'
        rw [hnext, Option.any_some] at hdefined
        refine env.admits_of_hasProperty (by simpa using hdefined) (hgiven plan' ?_)
        unfold BillingTables.nextPlan at hnext
        split at hnext
        · cases hnext
        · exact hnext
      · exact h.users _ hold
  | rememberCustomer userId customerId =>
    unfold BillingTables.planStep BillingTables.rememberCustomer
    dsimp only
    split
    · exact h
    · next subscriptions hinsert =>
      refine ⟨h.users, fun r hr => ?_⟩
      dsimp only at hr
      rw [Table.insert?_eq_some hinsert] at hr
      rcases List.mem_append.mp hr with hr | hr
      · exact h.subscriptions r hr
      · rw [List.mem_singleton.mp hr]
        exact fun plan hplan => by cases hplan
  | webhook event =>
    unfold BillingTables.planStep
    dsimp only
    split
    · next hbilling => exact PlansKnown.handleEvent h hbilling hsettings event
    · exact h
  | deleteUser userId =>
    exact ⟨fun u hu => h.users u (Table.mem_delete.mp hu).1,
      fun r hr => h.subscriptions r (Table.mem_delete.mp hr).1⟩

end Runs

/-- On a server that boots, whatever is signed up, paid, ended, deleted or set by support, every
account is on no plan or on one that the limits define, or on one of the names that every
object has, where the settings or support use it, and every subscription grants nothing or a
plan that is sold. -/
theorem accounts_stay_on_defined_plans (env : AcceptedPlans) (db : BillingTables)
    (es : List PlanEvent) (hstart : db.PlansKnown env (usedNames env es)) :
    Throughout (BillingTables.planStep env) (BillingTables.PlansKnown env (usedNames env es))
      db es := by
  refine throughout_of_step (P := fun _ e => ∀ plan ∈ e.givenName?, plan ∈ usedNames env es)
    (fun _ e h hgiven => PlansKnown.step h (fun _ => List.mem_append_left _) e hgiven) hstart
    (along_of_forall fun e he plan hplan => ?_)
  exact List.mem_append_right _ (List.mem_filterMap.mpr ⟨e, he, hplan⟩)

/-- Two plans, one of which is sold. -/
def samplePlans : AcceptedPlans where
  quotasEnabled := true
  defaultPlan := "free"
  planLimits :=
    some [("free", ⟨some 10, some 3, some 3, some 7⟩), ("pro", ⟨some 100, none, none, none⟩)]
  billingEnabled := true
  stripeSecretKey := some "sk_test_123456789"
  stripeWebhookSecret := some "whsec_123456789"
  stripePlans := some [("pro", ⟨"price_pro", 499⟩)]
  billingTermsUrl := none
  billingProfessionalOnly := false
  accepted := by decide

/-- A payment, support's commands, one of them with a name that every object has, and the end. -/
def samplePlanEvents : List PlanEvent :=
  [.signUp 2 "bob@example.com", .webhook subscribed, .setPlan "bob@example.com" "none",
    .setPlan "bob@example.com" "gold", .setPlan "bob@example.com" "constructor", .deleteUser 1]

theorem accounts_stay_on_defined_plans_sample :
    Throughout (BillingTables.planStep samplePlans)
      (BillingTables.PlansKnown samplePlans (usedNames samplePlans samplePlanEvents))
      knownCustomer samplePlanEvents := by
  refine accounts_stay_on_defined_plans samplePlans knownCustomer samplePlanEvents ⟨?_, ?_⟩
  · unfold AcceptedPlans.Admits AcceptedPlans.Defines
    decide
  · decide

/-- A subscription that runs at the price of a plan that is sold, and is not ignored, puts its
account on that plan, which is defined, or has a name that every object has, and is not the one
that accounts start on. -/
theorem paid_plan_is_granted (env : AcceptedPlans) (hbilling : env.billingEnabled = true)
    (name : String) (plan : StripePlan) (hsold : (name, plan) ∈ env.sold) (db : BillingTables)
    (event : StripeEvent) (change : SubscriptionChange) (account : Account)
    (hread : readSubscriptionEvent event = some change)
    (hlive : change.status ∈ liveStatuses) (hprice : change.priceId = some plan.price)
    (haccount : db.account? change.customerId = some account)
    (howns : db.Owns change.customerId change.subscriptionId)
    (hnew : event.id ∉ account.handled)
    (hheeded : account.row.ignores event.createdAt change = none) :
    (∃ after, (db.planStep env (.webhook event)).account? change.customerId = some after ∧
      after.user.plan = some name ∧ after.row.plan = some name) ∧
      (env.Defines name ∨ name ∈ inheritedNames) ∧ env.startingPlan ≠ some name := by
  obtain ⟨hquotas, hdefined, hprices⟩ := env.sold_spec hbilling
  obtain ⟨hproperty, hdefault⟩ := hdefined (name, plan) hsold
  have hgrant : decidePlan change env.billing.stripePlans = .grant name :=
    decidePlan_eq_grant.mpr ⟨hlive, hprice ▸ planOfPrice_eq hprices hsold⟩
  have hafter : (db.handleEvent env.billing event).account? change.customerId =
      some (account.handle env.billing event change) :=
    BillingTables.account?_handleEvent haccount hread rfl howns
  refine ⟨⟨account.handle env.billing event change, ?_, ?_, ?_⟩, hasProperty_iff.mp hproperty, ?_⟩
  · unfold BillingTables.planStep
    dsimp only
    rw [if_pos hbilling, hafter]
  · unfold Account.handle
    rw [if_neg hnew, hheeded]
    change (decidePlan change env.billing.stripePlans).userPlan env.billing _ = _
    rw [hgrant]
    rfl
  · unfold Account.handle
    rw [if_neg hnew, hheeded]
    change (decidePlan change env.billing.stripePlans).rowPlan _ = _
    rw [hgrant]
    rfl
  · unfold AcceptedPlans.startingPlan
    rw [if_pos hquotas]
    exact fun heq => hdefault (Option.some.inj heq).symm

theorem paid_plan_is_granted_sample :
    (∃ after, (knownCustomer.planStep samplePlans (.webhook subscribed)).account? "cus_1" =
      some after ∧ after.user.plan = some "pro" ∧ after.row.plan = some "pro") ∧
      (samplePlans.Defines "pro" ∨ "pro" ∈ inheritedNames) ∧ samplePlans.startingPlan ≠ some "pro" := by
  have hread : readSubscriptionEvent subscribed =
      some ⟨"cus_1", "sub_1", "active", some "price_pro", none, false⟩ :=
    readSubscriptionEvent_sampleEvent (by decide) (by decide) (by decide)
  exact paid_plan_is_granted samplePlans rfl "pro" ⟨"price_pro", 499⟩ (by decide) knownCustomer
    subscribed _ _ hread (by decide) rfl account?_knownCustomer (knownCustomer_owns _)
    List.not_mem_nil rfl

end SilenceWatch
