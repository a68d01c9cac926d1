import SilenceWatch.Config.Plans

/-!
# Pages at Stripe

`BillingService.startCheckout` makes a customer for an account that has none, writes it down
with an insert that skips an account that has a row, and reads the row back before it opens a
page. Whatever order the statements of any number of requests, webhooks, sign-ups and account
deletions come in, and whatever ids Stripe answers, every page opened for an account that is
still there is for the customer in its row: two pages of one account are for one customer, and
what is paid on a page reaches the account it was opened for.
-/

namespace SilenceWatch

open Relational Transition

/-- A page that Stripe was asked for, of `createCheckoutSession` or, without a price, of
`createPortalSession`. -/
structure StripePage where
  userId : Uuid
  customerId : String
  priceId : Option String
  deriving DecidableEq

/-- How far a request is with its page. -/
inductive PageStage where
  | idle
  /-- `findByUser` has found no row. -/
  | customerless (userId : Uuid) (priceId : Option String)
  /-- Stripe is asked for a customer. -/
  | asking (userId : Uuid) (priceId : Option String)
  | created (userId : Uuid) (priceId : Option String) (customerId : String)
  /-- The insert of `rememberCustomer` is done. -/
  | remembered (userId : Uuid) (priceId : Option String)
  | ready (page : StripePage)
  deriving DecidableEq

/-- The account that a request is for. -/
def PageStage.userId : PageStage → Option Uuid
  | .idle => none
  | .customerless userId _ | .asking userId _ | .created userId _ _ | .remembered userId _ =>
    some userId
  | .ready page => some page.userId

/-- The tables, the requests and the pages opened so far. -/
structure PageRace where
  db : BillingTables
  requests : ℕ → PageStage
  opened : List StripePage

/-- What may happen next: a request arrives, Stripe answers with a customer, a request issues
its next statement or fails, an event is delivered, an account is created or deleted. -/
inductive PageEvent where
  | startCheckout (request : ℕ) (userId : Uuid) (planName : String)
  | openPortal (request : ℕ) (userId : Uuid)
  | answer (request : ℕ) (customerId : String)
  | proceed (request : ℕ)
  | abort (request : ℕ)
  | webhook (event : StripeEvent)
  | signUp (id : Uuid) (email : String)
  | deleteUser (userId : Uuid)

namespace BillingTables

variable {db db' : BillingTables} {userId : Uuid} {customerId : String}

/-- `BillingRepository.findByUser`. -/
def findByUser (db : BillingTables) (userId : Uuid) : Option Subscription :=
  db.subscriptions.rows.find? fun r => r.userId = userId

/-- `existing?.stripeSubscriptionId && liveStatuses.has(existing.status)`. -/
def runsSubscription (row : Subscription) : Bool :=
  row.stripeSubscriptionId.any (· ≠ "") && decide (row.status ∈ liveStatuses)

/-- The account is there. -/
def HasUser (db : BillingTables) (userId : Uuid) : Prop := ∃ u ∈ db.users.rows, u.id = userId
  deriving Decidable

/-- The account, while it is there, is the customer. -/
def IsCustomer (db : BillingTables) (userId : Uuid) (customerId : String) : Prop :=
  db.HasUser userId →
    ∃ r ∈ db.subscriptions.rows, r.userId = userId ∧ r.stripeCustomerId = customerId

end BillingTables

namespace PageRace

/-- A request goes on to another stage. -/
def setRequest (s : PageRace) (request : ℕ) (stage : PageStage) : PageRace :=
  { s with requests := Function.update s.requests request stage }

/-- The start of `startCheckout`. -/
def startCheckout (env : AcceptedPlans) (s : PageRace) (request : ℕ) (userId : Uuid)
    (planName : String) : PageRace :=
  if !env.billingEnabled || !hasProperty env.sold planName then s
  else
    let priceId := (env.sold.lookup planName).map StripePlan.price
    match s.db.findByUser userId with
    | none => s.setRequest request (.customerless userId priceId)
    | some row =>
      if BillingTables.runsSubscription row then s
      else s.setRequest request (.ready ⟨userId, row.stripeCustomerId, priceId⟩)

/-- The next statement of a request. -/
def next (s : PageRace) (request : ℕ) : PageRace :=
  match s.requests request with
  | .idle => s
  | .customerless userId priceId =>
    if s.db.HasUser userId then s.setRequest request (.asking userId priceId)
    else s.setRequest request .idle
  | .asking _ _ => s
  | .created userId priceId customerId =>
    -- `subscription_user_id_fkey`
    if s.db.HasUser userId then
      { s with db := s.db.rememberCustomer userId customerId }.setRequest request
        (.remembered userId priceId)
    else s.setRequest request .idle
  | .remembered userId priceId =>
    match s.db.findByUser userId with
    | none => s.setRequest request .idle
    | some row => s.setRequest request (.ready ⟨userId, row.stripeCustomerId, priceId⟩)
  | .ready page => { s.setRequest request .idle with opened := s.opened ++ [page] }

/-- The state after an event. -/
def step (env : AcceptedPlans) (s : PageRace) : PageEvent → PageRace
  | .startCheckout request userId planName =>
    match s.requests request with
    | .idle => s.startCheckout env request userId planName
    | _ => s
  | .openPortal request userId =>
    match s.requests request, s.db.findByUser userId with
    | .idle, some row =>
      if env.billingEnabled then
        s.setRequest request (.ready ⟨userId, row.stripeCustomerId, none⟩)
      else s
    | _, _ => s
  | .answer request customerId =>
    match s.requests request with
    | .asking userId priceId => s.setRequest request (.created userId priceId customerId)
    | _ => s
  | .proceed request => s.next request
  | .abort request => s.setRequest request .idle
  | .webhook event => { s with db := s.db.planStep env (.webhook event) }
  | .signUp id email => { s with db := s.db.planStep env (.signUp id email) }
  | .deleteUser userId => { s with db := s.db.planStep env (.deleteUser userId) }

/-- The id of a new account is of no account that a page was opened for or is asked for. -/
def Fresh (s : PageRace) : PageEvent → Prop
  | .signUp id _ =>
    (∀ page ∈ s.opened, page.userId ≠ id) ∧ ∀ request, (s.requests request).userId ≠ some id
  | _ => True

/-- Every page, open or about to be, is for the customer that its account is. -/
structure Credited (s : PageRace) : Prop where
  opened : ∀ page ∈ s.opened, s.db.IsCustomer page.userId page.customerId
  ready : ∀ request page, s.requests request = .ready page →
    s.db.IsCustomer page.userId page.customerId

end PageRace

section Tables

variable {db db' : BillingTables} {userId : Uuid} {customerId : String}

/-- The row that a query by account finds. -/
theorem BillingTables.isCustomer_of_findByUser {row : Subscription}
    (h : db.findByUser userId = some row) : db.IsCustomer userId row.stripeCustomerId := by
  unfold BillingTables.findByUser at h
  have huser := List.find?_some h
  exact fun _ => ⟨row, List.mem_of_find?_eq_some h, of_decide_eq_true huser, rfl⟩

/-- A statement that deletes no row, changes no key of one and brings no account back leaves
every account the customer it is. -/
theorem BillingTables.IsCustomer.mono (h : db.IsCustomer userId customerId)
    (huser : db'.HasUser userId → db.HasUser userId)
    (hrows : ∀ r ∈ db.subscriptions.rows, db'.HasUser r.userId → ∃ r' ∈ db'.subscriptions.rows,
      r'.userId = r.userId ∧ r'.stripeCustomerId = r.stripeCustomerId) :
    db'.IsCustomer userId customerId := by
  intro hnow
  obtain ⟨r, hr, hid, hcustomer⟩ := h (huser hnow)
  obtain ⟨r', hr', hid', hcustomer'⟩ := hrows r hr (hid ▸ hnow)
  exact ⟨r', hr', hid'.trans hid, hcustomer'.trans hcustomer⟩

/-- An event keeps the account and the customer of every row, and adds no account. -/
theorem BillingTables.handleEvent_keys (config : BillingConfig) (db : BillingTables)
    (event : StripeEvent) :
    ((db.handleEvent config event).HasUser userId → db.HasUser userId) ∧
      ∀ r ∈ db.subscriptions.rows, ∃ r' ∈ (db.handleEvent config event).subscriptions.rows,
        r'.userId = r.userId ∧ r'.stripeCustomerId = r.stripeCustomerId := by
  unfold BillingTables.handleEvent
  split
  · exact ⟨id, fun r hr => ⟨r, hr, rfl, rfl⟩⟩
  · next change _ =>
    rcases db.applied_cases config event change with
      hsame | ⟨stripeEvents, _, _, hrecorded | ⟨row, user, _, _, hwrite⟩⟩
    · rw [hsame]
      exact ⟨id, fun r hr => ⟨r, hr, rfl, rfl⟩⟩
    · rw [hrecorded]
      exact ⟨id, fun r hr => ⟨r, hr, rfl, rfl⟩⟩
    · obtain ⟨hrows, _, husers⟩ := BillingTables.write_eq_some hwrite
      constructor
      · rintro ⟨u, hu, hid⟩
        rw [husers] at hu
        split at hu
        · obtain ⟨old, hold, ⟨_, rfl⟩ | ⟨_, rfl⟩⟩ := mem_map_updateRow.mp hu
          · exact ⟨old, hold, hid⟩
          · exact ⟨_, hold, hid⟩
        · exact ⟨u, hu, hid⟩
      · intro r hr
        rw [hrows]
        by_cases hhit : r.userId = row.userId
        · exact ⟨_, mem_map_updateRow.mpr ⟨r, hr, Or.inl ⟨hhit, rfl⟩⟩, rfl, rfl⟩
        · exact ⟨r, mem_map_updateRow.mpr ⟨r, hr, Or.inr ⟨hhit, rfl⟩⟩, rfl, rfl⟩

/-- The insert of a customer keeps every row. -/
theorem BillingTables.mem_rememberCustomer {r : Subscription} (hr : r ∈ db.subscriptions.rows) :
    r ∈ (db.rememberCustomer userId customerId).subscriptions.rows := by
  unfold BillingTables.rememberCustomer
  split
  · exact hr
  · next hinsert =>
    rw [Table.insert?_eq_some hinsert]
    exact List.mem_append_left _ hr

/-- The insert of a customer keeps the accounts. -/
theorem BillingTables.users_rememberCustomer :
    (db.rememberCustomer userId customerId).users = db.users := by
  unfold BillingTables.rememberCustomer
  split <;> rfl

/-- Whoever is a customer is found by it. -/
theorem BillingTables.IsCustomer.findSubscription (h : db.IsCustomer userId customerId)
    (huser : db.HasUser userId) :
    ∃ row, db.findSubscription customerId = some row ∧ row.userId = userId := by
  obtain ⟨r, hr, hid, hcustomer⟩ := h huser
  cases hfound : db.findSubscription customerId with
  | none =>
    have hnone := List.find?_eq_none.mp hfound r hr
    simp [hcustomer] at hnone
  | some row =>
    obtain ⟨hmem, hcustomer'⟩ := BillingTables.findSubscription_eq_some hfound
    have hsame : row = r := db.subscriptions.eq_of_key_eq Subscription.stripeCustomerId
      (fun _ _ h => h.2.1) hmem hr (hcustomer'.trans hcustomer.symm)
    exact ⟨row, rfl, hsame ▸ hid⟩

end Tables

namespace PageRace

variable {env : AcceptedPlans} {s : PageRace} {request : ℕ}

/-- A request goes on to a stage that is for the customer of its account, if it is for one. -/
theorem Credited.setRequest (h : s.Credited) {stage : PageStage}
    (hstage : ∀ page, stage = .ready page → s.db.IsCustomer page.userId page.customerId) :
    (s.setRequest request stage).Credited where
  opened := h.opened
  ready := by
    intro other page hother
    by_cases hsame : other = request
    · simp only [hsame, PageRace.setRequest, Function.update_self] at hother
      exact hstage page hother
    · simp only [PageRace.setRequest, Function.update_of_ne hsame] at hother
      exact h.ready other page hother

/-- What is written to the tables leaves every page its customer. -/
theorem Credited.write (h : s.Credited) {db : BillingTables}
    (hkeeps : ∀ userId customerId,
      ((∃ page ∈ s.opened, page.userId = userId) ∨
        ∃ request, (s.requests request).userId = some userId) →
      s.db.IsCustomer userId customerId → db.IsCustomer userId customerId) :
    { s with db }.Credited where
  opened := fun page hpage => hkeeps _ _ (Or.inl ⟨page, hpage, rfl⟩) (h.opened page hpage)
  ready := by
    intro request page hready
    refine hkeeps _ _ (Or.inr ⟨request, ?_⟩) (h.ready request page hready)
    dsimp only at hready
    rw [hready]
    rfl

/-- The next statement of a request. -/
theorem Credited.next (h : s.Credited) (request : ℕ) : (s.next request).Credited := by
  unfold PageRace.next
  split
  case h_1 => exact h
  case h_2 userId priceId _ =>
    split
    · exact h.setRequest fun page hpage => by cases hpage
    · exact h.setRequest fun page hpage => by cases hpage
  case h_3 => exact h
  case h_4 userId priceId customerId _ =>
    split
    · have hwritten : { s with db := s.db.rememberCustomer userId customerId }.Credited := by
        refine h.write fun other otherCustomer _ hcustomer => hcustomer.mono ?_ ?_
        · unfold BillingTables.HasUser
          rw [BillingTables.users_rememberCustomer]
          exact id
        · exact fun r hr _ => ⟨r, BillingTables.mem_rememberCustomer hr, rfl, rfl⟩
      exact hwritten.setRequest fun page hpage => by cases hpage
    · exact h.setRequest fun page hpage => by cases hpage
  case h_5 userId priceId _ =>
    split
    · exact h.setRequest fun page hpage => by cases hpage
    · next row hrow =>
      refine h.setRequest fun page hpage => ?_
      cases hpage
      exact BillingTables.isCustomer_of_findByUser hrow
  case h_6 page hready =>
    have hidle : (s.setRequest request .idle).Credited := h.setRequest fun page hpage => by
      cases hpage
    refine ⟨fun other hother => ?_, hidle.ready⟩
    rcases List.mem_append.mp hother with hold | hnew
    · exact h.opened other hold
    · rw [List.mem_singleton.mp hnew]
      exact h.ready request page hready

/-- **One step.** -/
theorem Credited.step (h : s.Credited) {e : PageEvent} (hfresh : s.Fresh e) :
    (s.step env e).Credited := by
  cases e with
  | startCheckout request userId planName =>
    simp only [PageRace.step]
    split
    · unfold PageRace.startCheckout
      split
      · exact h
      · dsimp only
        split
        · exact h.setRequest fun page hpage => by cases hpage
        · next row hrow =>
          split
          · exact h
          · refine h.setRequest fun page hpage => ?_
            cases hpage
            exact BillingTables.isCustomer_of_findByUser hrow
    · exact h
  | openPortal request userId =>
    simp only [PageRace.step]
    split
    · next row _ hrow =>
      split
      · refine h.setRequest fun page hpage => ?_
        cases hpage
        exact BillingTables.isCustomer_of_findByUser hrow
      · exact h
    · exact h
  | answer request customerId =>
    simp only [PageRace.step]
    split
    · exact h.setRequest fun page hpage => by cases hpage
    · exact h
  | proceed request => exact h.next request
  | abort request => exact h.setRequest fun page hpage => by cases hpage
  | webhook event =>
    refine h.write fun userId customerId _ hcustomer => ?_
    unfold BillingTables.planStep
    dsimp only
    split
    · obtain ⟨husers, hrows⟩ := BillingTables.handleEvent_keys env.billing s.db event
      exact hcustomer.mono husers fun r hr _ => hrows r hr
    · exact hcustomer
  | signUp id email =>
    refine h.write fun userId customerId hused hcustomer => ?_
    unfold BillingTables.planStep
    dsimp only
    split
    · exact hcustomer
    · next users hinsert =>
      have hother : userId ≠ id := by
        rcases hused with ⟨page, hpage, rfl⟩ | ⟨request, hrequest⟩
        · exact hfresh.1 page hpage
        · exact fun heq => hfresh.2 request (heq ▸ hrequest)
      refine hcustomer.mono ?_ fun r hr _ => ⟨r, hr, rfl, rfl⟩
      rintro ⟨u, hu, hid⟩
      dsimp only at hu
      rw [Table.insert?_eq_some hinsert] at hu
      rcases List.mem_append.mp hu with hold | hnew
      · exact ⟨u, hold, hid⟩
      · rw [List.mem_singleton.mp hnew] at hid
        exact absurd hid.symm hother
  | deleteUser deleted =>
    refine h.write fun userId customerId _ hcustomer => hcustomer.mono ?_ ?_
    · rintro ⟨u, hu, hid⟩
      exact ⟨u, (Table.mem_delete.mp hu).1, hid⟩
    · rintro r hr ⟨u, hu, hid⟩
      refine ⟨r, Table.mem_delete.mpr ⟨hr, fun hdeleted => ?_⟩, rfl, rfl⟩
      exact (Table.mem_delete.mp hu).2 (hid.trans hdeleted)

/-- **Every run.** From requests that are all idle and no page, every page is for the customer
that its account is. -/
theorem credited_run (hidle : ∀ request, s.requests request = .idle) (hnone : s.opened = [])
    {es : List PageEvent} (hfresh : Along (PageRace.step env) PageRace.Fresh s es) :
    Throughout (PageRace.step env) PageRace.Credited s es := by
  have hstart : s.Credited := by
    constructor
    · intro page hpage
      rw [hnone] at hpage
      cases hpage
    · intro request page hready
      rw [hidle request] at hready
      cases hready
  exact throughout_of_step (fun s e hs hfresh => hs.step hfresh) hstart hfresh

end PageRace

/-- The account that an outcome names. -/
def ApplyOutcome.userId : ApplyOutcome → Option Uuid
  | .applied userId .. => some userId
  | _ => none

/-- An event is about the account and about no other: its customer is known, and nothing is
written about another account. -/
structure BillingTables.Reaches (db : BillingTables) (config : BillingConfig)
    (event : StripeEvent) (change : SubscriptionChange) (userId : Uuid) : Prop where
  known : ∀ outcome ∈ (db.apply config event change).map Prod.snd, outcome ≠ .unknownCustomer
  account : ∀ outcome ∈ (db.apply config event change).map Prod.snd,
    ∀ id ∈ outcome.userId, id = userId
  users : ∀ u ∈ db.users.rows, u.id ≠ userId → u ∈ (db.applied config event change).users.rows
  subscriptions : ∀ r ∈ db.subscriptions.rows, r.userId ≠ userId →
    r ∈ (db.applied config event change).subscriptions.rows

/-- What `apply` reports of a customer that it knows. -/
theorem apply_of_findSubscription {db : BillingTables} {config : BillingConfig}
    {event : StripeEvent} {change : SubscriptionChange} {row : Subscription}
    (hrow : db.findSubscription change.customerId = some row) :
    ∀ outcome ∈ (db.apply config event change).map Prod.snd,
      outcome ≠ .unknownCustomer ∧ ∀ id ∈ outcome.userId, id = row.userId := by
  intro outcome houtcome
  unfold BillingTables.apply at houtcome
  split at houtcome
  · cases houtcome
    exact ⟨ApplyOutcome.noConfusion, fun id hid => by cases hid⟩
  · next db' hrecord =>
    obtain ⟨stripeEvents, _, rfl⟩ := Option.map_eq_some_iff.mp hrecord
    have hsame : ({ db with stripeEvents } : BillingTables).findSubscription change.customerId =
        some row := hrow
    simp only [hsame] at houtcome
    split at houtcome
    · next ignored hignored =>
      cases houtcome
      unfold Subscription.ignores at hignored
      split at hignored
      · cases hignored
        exact ⟨ApplyOutcome.noConfusion, fun id hid => by cases hid⟩
      · split at hignored
        · cases hignored
          exact ⟨ApplyOutcome.noConfusion, fun id hid => by cases hid⟩
        · cases hignored
    · split at houtcome
      · cases houtcome
      · obtain ⟨⟨_, reported⟩, hreported, rfl⟩ := Option.map_eq_some_iff.mp houtcome
        obtain ⟨_, _, hpair⟩ := Option.map_eq_some_iff.mp hreported
        obtain ⟨_, rfl⟩ := Prod.mk.inj hpair
        refine ⟨ApplyOutcome.noConfusion, fun id hid => ?_⟩
        exact (Option.some.inj hid).symm

/-- An event of a known customer writes to its account only. -/
theorem reaches_of_findSubscription {db : BillingTables} (config : BillingConfig)
    (event : StripeEvent) {change : SubscriptionChange} {row : Subscription}
    (hrow : db.findSubscription change.customerId = some row) :
    db.Reaches config event change row.userId := by
  refine ⟨fun outcome h => (apply_of_findSubscription hrow outcome h).1,
    fun outcome h => (apply_of_findSubscription hrow outcome h).2, fun u hu hother => ?_,
    fun r hr hother => ?_⟩
  all_goals
    rcases db.applied_cases config event change with
      hsame | ⟨stripeEvents, _, _, hrecorded | ⟨row', user, hrow', _, hwrite⟩⟩
  · rwa [hsame]
  · rwa [hrecorded]
  · rw [hrow] at hrow'
    cases hrow'
    rw [(BillingTables.write_eq_some hwrite).2.2]
    split
    · exact mem_map_updateRow.mpr ⟨u, hu, Or.inr ⟨hother, rfl⟩⟩
    · exact hu
  · rwa [hsame]
  · rwa [hrecorded]
  · rw [hrow] at hrow'
    cases hrow'
    rw [(BillingTables.write_eq_some hwrite).1]
    exact mem_map_updateRow.mpr ⟨r, hr, Or.inr ⟨hother, rfl⟩⟩

/-- **One customer for each account.** Whatever order the statements of any number of requests
come in and whatever customers Stripe answers, the pages opened for two accounts that are still
there are for one customer if and only if they are for one account. -/
theorem one_customer_per_account {env : AcceptedPlans} {s : PageRace} {es : List PageEvent}
    (hidle : ∀ request, s.requests request = .idle) (hnone : s.opened = [])
    (hfresh : Along (PageRace.step env) PageRace.Fresh s es) :
    Throughout (PageRace.step env)
      (fun s' => ∀ page ∈ s'.opened, ∀ page' ∈ s'.opened, s'.db.HasUser page.userId →
        s'.db.HasUser page'.userId →
          (page.userId = page'.userId ↔ page.customerId = page'.customerId)) s es := by
  refine (PageRace.credited_run hidle hnone hfresh).mono fun s' hs page hpage page' hpage' huser
    huser' => ?_
  obtain ⟨r, hr, hid, hcustomer⟩ := hs.opened page hpage huser
  obtain ⟨r', hr', hid', hcustomer'⟩ := hs.opened page' hpage' huser'
  constructor
  · intro hsame
    have hrow := s'.db.eq_of_userId hr hr' (hid.trans (hsame.trans hid'.symm))
    rw [← hcustomer, ← hcustomer', hrow]
  · intro hsame
    have hrow : r = r' := s'.db.subscriptions.eq_of_key_eq Subscription.stripeCustomerId
      (fun _ _ h => h.2.1) hr hr' (hcustomer.trans (hsame.trans hcustomer'.symm))
    rw [← hid, ← hid', hrow]

/-- **What is paid reaches who paid.** In every state of every such run, an event about the
customer of an opened page is about the account the page was opened for, if that is still
there, and about no other. -/
theorem payment_reaches_account {env : AcceptedPlans} {s : PageRace} {es : List PageEvent}
    (hidle : ∀ request, s.requests request = .idle) (hnone : s.opened = [])
    (hfresh : Along (PageRace.step env) PageRace.Fresh s es) :
    Throughout (PageRace.step env)
      (fun s' => ∀ page ∈ s'.opened, s'.db.HasUser page.userId →
        ∀ (event : StripeEvent) (change : SubscriptionChange),
          change.customerId = page.customerId →
            s'.db.Reaches env.billing event change page.userId) s es := by
  refine (PageRace.credited_run hidle hnone hfresh).mono fun s' hs page hpage huser event change
    hcustomer => ?_
  obtain ⟨row, hrow, hid⟩ := (hs.opened page hpage).findSubscription huser
  rw [← hcustomer] at hrow
  exact hid ▸ reaches_of_findSubscription env.billing event hrow

/-- An account that was never a customer. -/
def newcomer : BillingTables where
  users := ⟨[⟨1, "dora@example.com", some "free"⟩], List.pairwise_singleton _ _⟩
  subscriptions := Table.empty
  stripeEvents := Table.empty

/-- Two clicks, for which Stripe makes two customers: both pages are for the first. -/
def twoClicks : List PageEvent :=
  [.startCheckout 0 1 "pro", .startCheckout 1 1 "pro", .proceed 0, .proceed 1, .answer 0 "cus_1",
    .answer 1 "cus_2", .proceed 0, .proceed 1, .proceed 0, .proceed 1, .proceed 0, .proceed 1]

theorem fresh_twoClicks :
    Along (PageRace.step samplePlans) PageRace.Fresh ⟨newcomer, fun _ => .idle, []⟩ twoClicks :=
  ⟨trivial, trivial, trivial, trivial, trivial, trivial, trivial, trivial, trivial, trivial,
    trivial, trivial, trivial⟩

theorem one_customer_per_account_twoClicks :
    Throughout (PageRace.step samplePlans)
      (fun s => ∀ page ∈ s.opened, ∀ page' ∈ s.opened, s.db.HasUser page.userId →
        s.db.HasUser page'.userId →
          (page.userId = page'.userId ↔ page.customerId = page'.customerId))
      ⟨newcomer, fun _ => .idle, []⟩ twoClicks :=
  one_customer_per_account (fun _ => rfl) rfl fresh_twoClicks

theorem payment_reaches_account_twoClicks :
    Throughout (PageRace.step samplePlans)
      (fun s => ∀ page ∈ s.opened, s.db.HasUser page.userId →
        ∀ (event : StripeEvent) (change : SubscriptionChange),
          change.customerId = page.customerId →
            s.db.Reaches samplePlans.billing event change page.userId)
      ⟨newcomer, fun _ => .idle, []⟩ twoClicks :=
  payment_reaches_account (fun _ => rfl) rfl fresh_twoClicks

end SilenceWatch
