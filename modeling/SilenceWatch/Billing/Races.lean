import SilenceWatch.Billing.Deliveries
import SilenceWatch.Library.Serial

/-!
# Events at the same time

Transactions that apply different events at once, a statement at a time. A statement
reads what is committed, and nothing that was read is locked: an update waits for the
row lock of another transaction until that one commits, and then overwrites the row
without deciding again. The last statement of a transaction therefore writes and
commits in one step.
-/

namespace SilenceWatch

open Relational Transition Interleaved

/-- How far the transaction of an event has come. -/
inductive ApplyPhase where
  | begun
  /-- The event's id is inserted, which no other transaction sees yet. -/
  | recorded
  /-- The row was read, and the event is not ignored. -/
  | decided (row : Subscription)
  /-- The user was read as well. -/
  | loaded (row : Subscription) (user : User)
  | finished
  deriving DecidableEq

/-- The transaction has decided to write, and has not written. -/
def ApplyPhase.Deciding : ApplyPhase → Prop
  | .decided _ => True
  | .loaded _ _ => True
  | _ => False

instance : DecidablePred ApplyPhase.Deciding
  | .begun => inferInstanceAs (Decidable False)
  | .recorded => inferInstanceAs (Decidable False)
  | .decided _ => inferInstanceAs (Decidable True)
  | .loaded _ _ => inferInstanceAs (Decidable True)
  | .finished => inferInstanceAs (Decidable False)

/-- Committed or rolled back. -/
def ApplyPhase.Finished (phase : ApplyPhase) : Prop := phase = .finished
  deriving Decidable

namespace BillingTables

/-- The event's transaction commits with nothing but its record. -/
def commitRecord (db : BillingTables) (event : StripeEvent) : BillingTables :=
  (db.record event).getD db

/-- The next statement of `BillingRepository.apply`, with what it commits. -/
def advance (config : BillingConfig) (event : StripeEvent) (change : SubscriptionChange)
    (db : BillingTables) : ApplyPhase → BillingTables × ApplyPhase
  | .begun =>
    match db.record event with
    | none => (db, .finished)
    | some _ => (db, .recorded)
  | .recorded =>
    match db.findSubscription change.customerId with
    | none => (db.commitRecord event, .finished)
    | some row =>
      match row.ignores event.createdAt change with
      | some _ => (db.commitRecord event, .finished)
      | none => (db, .decided row)
  | .decided row =>
    match db.findUser row.userId with
    | none => (db, .finished)
    | some user => (db, .loaded row user)
  | .loaded row user =>
    match (db.record event).bind fun db => db.write config event change row user with
    | none => (db, .finished)
    | some db => (db, .finished)
  | .finished => (db, .finished)

/-- What the transaction has read is what it would read now. -/
def StandsWell (event : StripeEvent) (change : SubscriptionChange) (db : BillingTables) :
    ApplyPhase → Prop
  | .begun => True
  | .recorded => event.id ∉ db.stripeEvents.rows.map HandledEvent.id
  | .decided row =>
    event.id ∉ db.stripeEvents.rows.map HandledEvent.id ∧
      db.findSubscription change.customerId = some row ∧
      row.ignores event.createdAt change = none
  | .loaded row user =>
    event.id ∉ db.stripeEvents.rows.map HandledEvent.id ∧
      db.findSubscription change.customerId = some row ∧
      row.ignores event.createdAt change = none ∧ db.findUser row.userId = some user
  | .finished => True

variable {config : BillingConfig} {event event' : StripeEvent}
  {change change' : SubscriptionChange} {db db' : BillingTables}

/-- A new event's record. -/
theorem record_eq_some (h : event.id ∉ db.stripeEvents.rows.map HandledEvent.id) :
    ∃ stripeEvents, db.record event = some { db with stripeEvents } ∧
      stripeEvents.rows = db.stripeEvents.rows ++ [⟨event.id, event.type⟩] := by
  rcases db.record_cases event with ⟨hmem, _⟩ | ⟨_, hrecord⟩
  · exact absurd hmem h
  · exact hrecord

/-- Recording an event is all that an ignored one does. -/
theorem commitRecord_eq (db : BillingTables) (event : StripeEvent) :
    ∃ stripeEvents, db.commitRecord event = { db with stripeEvents } ∧
      ∀ id ∈ stripeEvents.rows.map HandledEvent.id,
        id ∈ db.stripeEvents.rows.map HandledEvent.id ∨ id = event.id := by
  unfold commitRecord
  rcases db.record_cases event with ⟨_, hrecord⟩ | ⟨_, stripeEvents, hrecord, hrows⟩
  · rw [hrecord]
    exact ⟨db.stripeEvents, rfl, fun _ h => Or.inl h⟩
  · rw [hrecord]
    refine ⟨stripeEvents, rfl, fun id hid => ?_⟩
    rw [hrows, List.map_append, List.mem_append] at hid
    exact hid.imp_right List.mem_singleton.mp

/-- Alone from where it stands, a transaction does what it does as a whole. -/
theorem runsAlone (config : BillingConfig) (event : StripeEvent) (change : SubscriptionChange)
    (db : BillingTables) (phase : ApplyPhase) (hphase : ¬ phase.Finished)
    (hwell : db.StandsWell event change phase) :
    ((db.advance config event change phase).1 = db ∧
        ¬ (db.advance config event change phase).2.Finished ∧
        db.StandsWell event change (db.advance config event change phase).2) ∨
      ((db.advance config event change phase).1 = db.applied config event change ∧
        (db.advance config event change phase).2.Finished) := by
  cases phase with
  | begun =>
    rcases db.record_cases event with ⟨_, hrecord⟩ | ⟨hnew, _, hrecord, _⟩
    · right
      simp [advance, applied, apply, hrecord, ApplyPhase.Finished]
    · left
      simp only [advance, hrecord]
      exact ⟨trivial, by simp [ApplyPhase.Finished], hnew⟩
  | recorded =>
    obtain ⟨stripeEvents, hrecord, _⟩ := record_eq_some hwell
    cases hrow : db.findSubscription change.customerId with
    | none =>
      right
      have hrow' : ({ db with stripeEvents } : BillingTables).findSubscription change.customerId =
          none := hrow
      simp [advance, applied, apply, commitRecord, hrecord, hrow, hrow', ApplyPhase.Finished]
    | some row =>
      have hrow' : ({ db with stripeEvents } : BillingTables).findSubscription change.customerId =
          some row := hrow
      cases hignores : row.ignores event.createdAt change with
      | some outcome =>
        right
        simp [advance, applied, apply, commitRecord, hrecord, hrow, hrow', hignores,
          ApplyPhase.Finished]
      | none =>
        left
        simp only [advance, hrow, hignores]
        exact ⟨trivial, by simp [ApplyPhase.Finished], hwell, hrow, hignores⟩
  | decided row =>
    obtain ⟨hnew, hrow, hignores⟩ := hwell
    obtain ⟨stripeEvents, hrecord, _⟩ := record_eq_some hnew
    have hrow' : ({ db with stripeEvents } : BillingTables).findSubscription change.customerId =
        some row := hrow
    cases huser : db.findUser row.userId with
    | none =>
      right
      have huser' : ({ db with stripeEvents } : BillingTables).findUser row.userId = none := huser
      simp [advance, applied, apply, hrecord, hrow', hignores, huser, huser',
        ApplyPhase.Finished]
    | some user =>
      left
      simp only [advance, huser]
      exact ⟨trivial, by simp [ApplyPhase.Finished], hnew, hrow, hignores, huser⟩
  | loaded row user =>
    obtain ⟨hnew, hrow, hignores, huser⟩ := hwell
    obtain ⟨stripeEvents, hrecord, _⟩ := record_eq_some hnew
    have hrow' : ({ db with stripeEvents } : BillingTables).findSubscription change.customerId =
        some row := hrow
    have huser' : ({ db with stripeEvents } : BillingTables).findUser row.userId = some user :=
      huser
    right
    cases hwrite : ({ db with stripeEvents } : BillingTables).write config event change row user
    · simp [advance, applied, apply, hrecord, hrow', hignores, huser', hwrite,
        ApplyPhase.Finished]
    · simp [advance, applied, apply, hrecord, hrow', hignores, huser', hwrite,
        ApplyPhase.Finished]
  | finished => exact absurd rfl hphase

/-- A transaction that is about to write holds the row it read; the others may then only
record their events, which takes nothing away from it. -/
theorem StandsWell.advance {phase phase' : ApplyPhase} (hids : event'.id ≠ event.id)
    (halone : phase'.Deciding → ¬ phase.Deciding)
    (hwell : db.StandsWell event' change' phase') :
    (db.advance config event change phase).1.StandsWell event' change' phase' := by
  have hrecorded : ∀ stripeEvents : Table HandledEvent HandledEvent.Distinct,
      (∀ id ∈ stripeEvents.rows.map HandledEvent.id,
        id ∈ db.stripeEvents.rows.map HandledEvent.id ∨ id = event.id) →
      ({ db with stripeEvents } : BillingTables).StandsWell event' change' phase' := by
    intro stripeEvents hnew
    have hfresh : event'.id ∉ db.stripeEvents.rows.map HandledEvent.id →
        event'.id ∉ stripeEvents.rows.map HandledEvent.id :=
      fun hold hmem => (hnew _ hmem).elim hold hids
    cases phase' with
    | begun => trivial
    | recorded => exact hfresh hwell
    | decided row => exact ⟨hfresh hwell.1, hwell.2⟩
    | loaded row user => exact ⟨hfresh hwell.1, hwell.2⟩
    | finished => trivial
  obtain ⟨stripeEvents, hcommit, hids'⟩ := db.commitRecord_eq event
  cases phase with
  | begun =>
    simp only [BillingTables.advance]
    cases db.record event <;> exact hwell
  | recorded =>
    simp only [BillingTables.advance, hcommit]
    cases db.findSubscription change.customerId with
    | none => exact hrecorded stripeEvents hids'
    | some row =>
      cases hignores : row.ignores event.createdAt change with
      | none => simpa only [hignores] using hwell
      | some outcome => simpa only [hignores] using hrecorded stripeEvents hids'
  | decided row =>
    simp only [BillingTables.advance]
    cases db.findUser row.userId <;> exact hwell
  | loaded row user =>
    simp only [BillingTables.advance]
    cases hbind : (db.record event).bind fun db => db.write config event change row user with
    | none => exact hwell
    | some db' =>
      obtain ⟨db'', hrecord, hwrite⟩ := Option.bind_eq_some_iff.mp hbind
      have hevents : db'.stripeEvents = stripeEvents := by
        rw [(write_eq_some hwrite).2.1]
        have hsame : db.commitRecord event = db'' := by simp [commitRecord, hrecord]
        rw [← hsame, hcommit]
      cases phase' with
      | begun => trivial
      | recorded =>
        intro hmem
        simp only [hevents] at hmem
        exact (hids' _ hmem).elim hwell hids
      | decided row' => exact absurd trivial (halone trivial)
      | loaded row' user' => exact absurd trivial (halone trivial)
      | finished => trivial
  | finished => exact hwell

end BillingTables

section

variable {ι : Type*} [DecidableEq ι] (config : BillingConfig)
  (webhook : ι → StripeEvent × SubscriptionChange)

/-- One of the transactions executes its next statement. -/
def advanceWebhook (i : ι) (db : BillingTables) (phase : ApplyPhase) :
    BillingTables × ApplyPhase :=
  db.advance config (webhook i).1 (webhook i).2 phase

/-- One of the transactions as a whole. -/
def applyWebhook (i : ι) (db : BillingTables) : BillingTables :=
  db.applied config (webhook i).1 (webhook i).2

/-- A transaction that reads the row and does not ignore its event finds no other one
about to write. -/
def DecidesAlone (s : State ι BillingTables ApplyPhase) (i : ι) : Prop :=
  s.phase i = .recorded → ∀ row,
    s.store.findSubscription (webhook i).2.customerId = some row →
      row.ignores (webhook i).1.createdAt (webhook i).2 = none →
        ∀ j, j ≠ i → ¬ (s.phase j).Deciding

/-- At most one transaction is about to write. -/
def OneDecides (s : State ι BillingTables ApplyPhase) : Prop :=
  ∀ i j, (s.phase i).Deciding → (s.phase j).Deciding → i = j

variable {config webhook} {s : State ι BillingTables ApplyPhase} {i : ι}

omit [DecidableEq ι] in
/-- A statement after which a transaction is about to write follows another such, or is
the one that reads the row. -/
theorem deciding_advance {db : BillingTables} {phase : ApplyPhase}
    (h : (advanceWebhook config webhook i db phase).2.Deciding) :
    phase.Deciding ∨ (phase = .recorded ∧ ∃ row,
      db.findSubscription (webhook i).2.customerId = some row ∧
        row.ignores (webhook i).1.createdAt (webhook i).2 = none) := by
  unfold advanceWebhook at h
  cases phase with
  | begun =>
    simp only [BillingTables.advance] at h
    cases hrecord : db.record (webhook i).1 with
    | none =>
      rw [hrecord] at h
      exact h.elim
    | some db' =>
      rw [hrecord] at h
      exact h.elim
  | recorded =>
    right
    refine ⟨rfl, ?_⟩
    simp only [BillingTables.advance] at h
    cases hrow : db.findSubscription (webhook i).2.customerId with
    | none =>
      rw [hrow] at h
      exact h.elim
    | some row =>
      refine ⟨row, rfl, ?_⟩
      simp only [hrow] at h
      cases hignores : row.ignores (webhook i).1.createdAt (webhook i).2 with
      | none => rfl
      | some outcome =>
        rw [hignores] at h
        exact h.elim
  | decided row => exact Or.inl trivial
  | loaded row user => exact Or.inl trivial
  | finished => exact h.elim

/-- Transactions that decide alone take turns at writing. -/
theorem OneDecides.step (hone : OneDecides s) (halone : DecidesAlone webhook s i) :
    OneDecides (Interleaved.step (advanceWebhook config webhook) s i) := by
  have hself : ((Interleaved.step (advanceWebhook config webhook) s i).phase i).Deciding →
      ∀ j, j ≠ i → ¬ (s.phase j).Deciding := by
    intro hdeciding j hj
    rw [step_phase_self] at hdeciding
    rcases deciding_advance hdeciding with hold | ⟨hphase, row, hrow, hignores⟩
    · intro hother
      exact hj (hone j i hother hold)
    · exact halone hphase row hrow hignores j hj
  intro j k hj hk
  by_cases hji : j = i
  · by_cases hki : k = i
    · rw [hji, hki]
    · subst hji
      rw [step_phase_of_ne s hki] at hk
      exact absurd hk (hself hj k hki)
  · rw [step_phase_of_ne s hji] at hj
    by_cases hki : k = i
    · subst hki
      exact absurd hj (hself hk j hji)
    · rw [step_phase_of_ne s hki] at hk
      exact hone j k hj hk

/-- The account's newest event never becomes an older one. -/
def LastEventKept (customerId : String) (db db' : BillingTables) : Prop :=
  ∀ row, db.findSubscription customerId = some row →
    ∃ row', db'.findSubscription customerId = some row' ∧
      ∀ t ∈ row.lastEventAt, ∃ t' ∈ row'.lastEventAt, t ≤ t'

theorem LastEventKept.refl (customerId : String) (db : BillingTables) :
    LastEventKept customerId db db :=
  fun row hrow => ⟨row, hrow, fun t ht => ⟨t, ht, Int.le_refl t⟩⟩

/-- An event that is not ignored is no older than the newest one applied. -/
theorem Subscription.le_of_ignores {row : Subscription} {createdAt : ℤ}
    {change : SubscriptionChange} (h : row.ignores createdAt change = none) :
    ∀ t ∈ row.lastEventAt, t ≤ createdAt := by
  intro t ht
  by_contra hlt
  have hstale : row.lastEventAt.any (createdAt < ·) := by
    rw [Option.mem_def.mp ht]
    simpa using hlt
  rw [Subscription.ignores, if_pos hstale] at h
  cases h

/-- A transaction as a whole keeps the newest event. -/
theorem LastEventKept.applied (customerId : String) (db : BillingTables)
    (config : BillingConfig) (event : StripeEvent) (change : SubscriptionChange) :
    LastEventKept customerId db (db.applied config event change) := by
  rcases db.applied_cases config event change with
    hsame | ⟨stripeEvents, _, _, hrecorded | ⟨found, user, hfound, hignores, hwrite⟩⟩
  · rw [hsame]
    exact LastEventKept.refl customerId db
  · rw [hrecorded]
    exact LastEventKept.refl customerId db
  · intro row hrow
    have hrow' := BillingTables.findSubscription_write hwrite customerId
    have hkept : ({ db with stripeEvents } : BillingTables).findSubscription customerId =
        some row := hrow
    rw [hkept, Option.map_some] at hrow'
    refine ⟨_, hrow', ?_⟩
    intro t ht
    by_cases huser : row.userId = found.userId
    · have hsame : row = found := db.eq_of_userId
        (BillingTables.findSubscription_eq_some hrow).1
        (BillingTables.findSubscription_eq_some hfound).1 huser
      rw [hsame] at ht
      rw [updateRow, if_pos huser]
      exact ⟨event.createdAt, rfl, Subscription.le_of_ignores hignores t ht⟩
    · rw [updateRow, if_neg huser]
      exact ⟨t, ht, Int.le_refl t⟩

/-- Transactions that decide alone leave what they would leave one after the other. -/
theorem serial_webhooks (hids : ∀ i j, (webhook i).1.id = (webhook j).1.id → i = j)
    {db : BillingTables} {turns : List ι}
    (halone : Along (Interleaved.step (advanceWebhook config webhook)) (DecidesAlone webhook)
      ⟨db, fun _ => .begun⟩ turns) :
    (∃ order, Serial (applyWebhook config webhook) ApplyPhase.Finished
        (fun i db phase => db.StandsWell (webhook i).1 (webhook i).2 phase) db order
        (run (Interleaved.step (advanceWebhook config webhook)) ⟨db, fun _ => .begun⟩ turns)) ∧
      ∀ customerId, Along (Interleaved.step (advanceWebhook config webhook))
        (fun s i => LastEventKept customerId s.store
          (Interleaved.step (advanceWebhook config webhook) s i).store)
        ⟨db, fun _ => .begun⟩ turns := by
  let I : State ι BillingTables ApplyPhase → Prop := fun s => OneDecides s ∧
    ∃ order, Serial (applyWebhook config webhook) ApplyPhase.Finished
      (fun i db phase => db.StandsWell (webhook i).1 (webhook i).2 phase) db order s
  have hstart : I ⟨db, fun _ => .begun⟩ := by
    refine ⟨fun _ _ h => h.elim, [], List.nodup_nil, ?_, rfl, fun _ _ => trivial⟩
    intro i
    simp [ApplyPhase.Finished]
  have hnext : ∀ s i, I s → DecidesAlone webhook s i →
      I (Interleaved.step (advanceWebhook config webhook) s i) ∧
        ((Interleaved.step (advanceWebhook config webhook) s i).store = s.store ∨
          (Interleaved.step (advanceWebhook config webhook) s i).store =
            applyWebhook config webhook i s.store) := by
    rintro s i ⟨hone, order, hserial⟩ hdecides
    obtain ⟨order', hserial', hstore⟩ := hserial.step
      (fun i db phase => db.runsAlone config (webhook i).1 (webhook i).2 phase)
      (fun i db phase hphase => by cases hphase; rfl)
      (fun j hj _ hwell => hwell.advance (fun hid => hj (hids j i hid))
        fun hother hself => hj (hone j i hother hself))
    exact ⟨⟨hone.step hdecides, order', hserial'⟩, hstore⟩
  constructor
  · exact (run_of_step (fun s i hI hP => (hnext s i hI hP).1) hstart halone).2
  · intro customerId
    refine along_of_step (fun s i hI hP => (hnext s i hI hP).1) (fun s i hI hP => ?_) hstart halone
    rcases (hnext s i hI hP).2 with hsame | happlied
    · rw [hsame]
      exact LastEventKept.refl customerId s.store
    · rw [happlied]
      exact LastEventKept.applied customerId s.store config _ _

end

/-- The two orders of two transactions. -/
theorem order_of_pair {order : List Bool} (hnodup : order.Nodup) (hall : ∀ i, i ∈ order) :
    order = [false, true] ∨ order = [true, false] := by
  match order, hnodup, hall with
  | [], _, hall => exact absurd (hall true) List.not_mem_nil
  | [i], _, hall =>
    have htrue := List.mem_singleton.mp (hall true)
    have hfalse := List.mem_singleton.mp (hall false)
    exact absurd (htrue.trans hfalse.symm) (by decide)
  | [i, j], hnodup, _ => cases i <;> cases j <;> simp at hnodup ⊢
  | i :: j :: k :: rest, hnodup, _ => cases i <;> cases j <;> cases k <;> simp at hnodup

/-- **Two events apply serialisably** where no transaction decides on a row that the other
is about to write: once both have finished, the tables are those of one of the two orders,
and the date of the newest event never goes back. -/
theorem events_apply_serially {config : BillingConfig}
    {webhook : Bool → StripeEvent × SubscriptionChange} {db : BillingTables} {turns : List Bool}
    (hread : ∀ i, readSubscriptionEvent (webhook i).1 = some (webhook i).2)
    (hids : (webhook false).1.id ≠ (webhook true).1.id)
    (halone : Along (Interleaved.step (advanceWebhook config webhook)) (DecidesAlone webhook)
      ⟨db, fun _ => .begun⟩ turns)
    (hfinished : ∀ i, ((run (Interleaved.step (advanceWebhook config webhook))
      ⟨db, fun _ => .begun⟩ turns).phase i).Finished) :
    ((run (Interleaved.step (advanceWebhook config webhook)) ⟨db, fun _ => .begun⟩ turns).store =
          (db.handleEvent config (webhook false).1).handleEvent config (webhook true).1 ∨
        (run (Interleaved.step (advanceWebhook config webhook))
            ⟨db, fun _ => .begun⟩ turns).store =
          (db.handleEvent config (webhook true).1).handleEvent config (webhook false).1) ∧
      ∀ customerId, Along (Interleaved.step (advanceWebhook config webhook))
        (fun s i => LastEventKept customerId s.store
          (Interleaved.step (advanceWebhook config webhook) s i).store)
        ⟨db, fun _ => .begun⟩ turns := by
  have hdistinct : ∀ i j, (webhook i).1.id = (webhook j).1.id → i = j := by
    intro i j h
    cases i <;> cases j
    · rfl
    · exact absurd h hids
    · exact absurd h.symm hids
    · rfl
  have hwhole : ∀ i db, db.handleEvent config (webhook i).1 = applyWebhook config webhook i db := by
    intro i db
    simp only [BillingTables.handleEvent, hread, applyWebhook]
  obtain ⟨⟨order, hserial⟩, hkept⟩ := serial_webhooks hdistinct halone
  refine ⟨?_, hkept⟩
  have hall : ∀ i, i ∈ order := fun i => (hserial.finished i).mpr (hfinished i)
  simp only [hwhole, hserial.store]
  rcases order_of_pair hserial.nodup hall with hfirst | hsecond
  · rw [hfirst]
    exact Or.inl rfl
  · rw [hsecond]
    exact Or.inr rfl

/-- The begin and the end of a subscription. -/
def beginAndEnd : Bool → StripeEvent × SubscriptionChange
  | false => (subscribed, ⟨"cus_1", "sub_1", "active", some "price_pro", none, false⟩)
  | true => (cancelled 300, ⟨"cus_1", "sub_1", "canceled", some "price_pro", none, false⟩)

theorem read_beginAndEnd (i : Bool) :
    readSubscriptionEvent (beginAndEnd i).1 = some (beginAndEnd i).2 := by
  cases i with
  | false => exact readSubscriptionEvent_sampleEvent (by decide) (by decide) (by decide)
  | true => exact readSubscriptionEvent_sampleEvent (by decide) (by decide) (by decide)

/-- The second transaction records its event while the first is under way, and reads the row
when the first has committed. -/
theorem events_apply_serially_sample :
    let final := run (Interleaved.step (advanceWebhook sampleBilling beginAndEnd))
      ⟨knownCustomer, fun _ => .begun⟩ [false, false, true, false, false, true, true, true]
    (final.store = (knownCustomer.handleEvent sampleBilling (beginAndEnd false).1).handleEvent
            sampleBilling (beginAndEnd true).1 ∨
        final.store = (knownCustomer.handleEvent sampleBilling (beginAndEnd true).1).handleEvent
            sampleBilling (beginAndEnd false).1) ∧
      ∀ customerId, Along (Interleaved.step (advanceWebhook sampleBilling beginAndEnd))
        (fun s i => LastEventKept customerId s.store
          (Interleaved.step (advanceWebhook sampleBilling beginAndEnd) s i).store)
        ⟨knownCustomer, fun _ => .begun⟩
        [false, false, true, false, false, true, true, true] := by
  have hapart : Along (Interleaved.step (advanceWebhook sampleBilling beginAndEnd))
      (fun s i => s.phase i ≠ .recorded ∨ ∀ j, j ≠ i → ¬ (s.phase j).Deciding)
      ⟨knownCustomer, fun _ => .begun⟩ [false, false, true, false, false, true, true, true] := by
    decide
  refine events_apply_serially read_beginAndEnd (by decide) (hapart.mono ?_) (by decide)
  rintro s i (hphase | halone) hrecorded row _ _
  · exact absurd hrecorded hphase
  · exact halone

/-- What a customer's account is judged by: its plan, and the subscription's id, status and
date. -/
def BillingTables.summary (db : BillingTables) (customerId : String) :
    Option (Option String × Option String × String × Option ℤ) :=
  (db.account? customerId).map fun account =>
    (account.user.plan, account.row.stripeSubscriptionId, account.row.status,
      account.row.lastEventAt)

/-- Both transactions read the row before either writes, and the older event writes last:
the plan comes back, which it does in neither order, and the newest event becomes an older
one. -/
theorem stale_webhook_restores_plan :
    let step := Interleaved.step (advanceWebhook sampleBilling beginAndEnd)
    let start : State Bool BillingTables ApplyPhase := ⟨knownCustomer, fun _ => .begun⟩
    (∀ i, readSubscriptionEvent (beginAndEnd i).1 = some (beginAndEnd i).2) ∧
      (∀ i, ((run step start [false, false, true, true, true, true, false, false]).phase
        i).Finished) ∧
      (run step start [false, false, true, true, true, true, false, false]).store.summary "cus_1" =
        some (some "pro", some "sub_1", "active", some 100000) ∧
      (run step start [false, false, true, true, true, true]).store.summary "cus_1" =
        some (some "free", some "sub_1", "canceled", some 300000) ∧
      ((knownCustomer.handleEvent sampleBilling (beginAndEnd false).1).handleEvent
        sampleBilling (beginAndEnd true).1).summary "cus_1" =
          some (some "free", some "sub_1", "canceled", some 300000) ∧
      ((knownCustomer.handleEvent sampleBilling (beginAndEnd true).1).handleEvent
        sampleBilling (beginAndEnd false).1).summary "cus_1" =
          some (some "free", some "sub_1", "canceled", some 300000) := by
  refine ⟨read_beginAndEnd, ?_, ?_, ?_, ?_, ?_⟩
  · decide
  · decide
  · decide
  · decide
  · decide

end SilenceWatch
