import Mathlib.Algebra.Order.Ring.Int
import SilenceWatch.Pipeline.Leases

/-!
# How soon an alert is tried again

A claim puts its rows off for the length of a lease, and a failed attempt for a time that
doubles with every attempt. Instances may overwrite what others wrote, but each of them only
moves a row into the future of its own clock: no row is tried again before its time, and an
alert that was given up is not tried again at all.
-/

namespace SilenceWatch

open Relational Transition

/-- More attempts, more patience. -/
theorem backoff_mono {n m : ℕ} (h : n ≤ m) : backoff n ≤ backoff m := by
  have hpow : (2 : ℤ) ^ (n - 1) ≤ 2 ^ (m - 1) :=
    pow_le_pow_right₀ (by decide) (by omega)
  unfold backoff
  omega

/-- Half a minute at least. -/
theorem le_backoff (n : ℕ) : 30000 ≤ backoff n := by
  have hpow : (1 : ℤ) ≤ 2 ^ (n - 1) := one_le_pow₀ (by decide)
  unfold backoff
  omega

/-- What a statement of the queue makes of a row. -/
inductive Delivery.Rewritten (st : Settings) (now : ℤ) (d : Delivery) : Delivery → Prop
  | kept : d.Rewritten st now d
  | claimed : d.Claimable now → d.Rewritten st now (d.claim now)
  | marked : d.Rewritten st now (d.markSent now)
  | refused : d.Rewritten st now { d with status := .failed }
  | retried : d.Rewritten st now (d.retry now st.notificationMaxAttempts)

section Step

variable {st : Settings} {now : ℤ} {db : Database} {dr : Drain} {action : DrainAction}
  {result : DrainResult}

/-- A claim takes rows that may be claimed. -/
theorem claimable_of_mem_claimSql {locked : Uuid → Bool} {limit : ℕ} {d : Delivery}
    (hd : d ∈ db.deliveries.rows) (hid : d.id ∈ (claimSql now limit locked db).2) :
    d.Claimable now := by
  obtain ⟨claimed, hclaimed, hsame⟩ := List.mem_map.mp hid
  obtain ⟨hmem, hclaimable, _⟩ := mem_of_mem_select _ _ hclaimed
  obtain rfl : claimed = d := db.eq_of_delivery_id hmem hd hsame
  exact hclaimable

/-- A step of a drain writes to a row what one statement of the queue writes. -/
theorem DrainStep.rewrites (h : DrainStep st now db dr action result) {d' : Delivery}
    (hd' : d' ∈ result.db.deliveries.rows) :
    ∃ d ∈ db.deliveries.rows, d'.id = d.id ∧ d.Rewritten st now d' := by
  have hkept (hmem : d' ∈ db.deliveries.rows) :
      ∃ d ∈ db.deliveries.rows, d'.id = d.id ∧ d.Rewritten st now d' :=
    ⟨d', hmem, rfl, Delivery.Rewritten.kept⟩
  cases h with
  | claim =>
    obtain ⟨d, hd, ⟨hclaimed, rfl⟩ | ⟨_, rfl⟩⟩ := mem_map_updateRow.mp hd'
    · exact ⟨d, hd, rfl, Delivery.Rewritten.claimed (claimable_of_mem_claimSql hd hclaimed)⟩
    · exact hkept hd
  | finish =>
    dsimp only at hd'
    split at hd'
    · exact hkept hd'
    · obtain ⟨d, hd, ⟨_, rfl⟩ | ⟨_, rfl⟩⟩ := mem_map_updateRow.mp hd'
      · exact ⟨d, hd, rfl, Delivery.Rewritten.marked⟩
      · exact hkept hd
  | refuse _ =>
    obtain ⟨d, hd, ⟨_, rfl⟩ | ⟨_, rfl⟩⟩ := mem_map_updateRow.mp hd'
    · exact ⟨d, hd, rfl, Delivery.Rewritten.refused⟩
    · exact hkept hd
  | retry =>
    obtain ⟨d, hd, ⟨_, rfl⟩ | ⟨_, rfl⟩⟩ := mem_map_updateRow.mp hd'
    · exact ⟨d, hd, rfl, Delivery.Rewritten.retried⟩
    · exact hkept hd
  | _ => exact hkept hd'

end Step

section Act

variable {srv : Server} {st : Settings} {s : Pipeline} {a : Action}

/-- After any action a row is what one statement made of it, or it is new. -/
theorem act_rewrites {d' : Delivery} (hd' : d' ∈ (act srv st s a).db.deliveries.rows) :
    (∃ d ∈ s.db.deliveries.rows, d'.id = d.id ∧ d.Rewritten st s.clock d') ∨
      s.db.deliveries.next ≤ d'.id := by
  by_cases hdrain : ∃ instance' action, a = .drain instance' action
  · obtain ⟨instance', action, rfl⟩ := hdrain
    left
    have hstep := act_cases srv st s (.drain instance' action)
    generalize act srv st s (.drain instance' action) = s' at hd' hstep
    cases hstep with
    | drain _ hstep => exact hstep.rewrites hd'
    | skipDrain => exact ⟨d', hd', rfl, Delivery.Rewritten.kept⟩
  · push Not at hdrain
    rcases act_deliveries_of_ne_drain hdrain hd' with hold | ⟨_, hcreates⟩
    · exact Or.inl ⟨d', hold, rfl, Delivery.Rewritten.kept⟩
    · exact Or.inr hcreates.fresh

/-- From `since` on the alert has been tried `attempts` times or more, and it is due no sooner
than `due`. -/
structure Pipeline.Rests (id : Uuid) (attempts : ℕ) (since due : ℤ) (s : Pipeline) : Prop where
  known : id < s.db.deliveries.next
  since_le : since ≤ s.clock
  row : ∀ d ∈ s.db.deliveries.rows, d.id = id →
    attempts ≤ d.attempts ∧ (d.status = .pending → due ≤ d.nextAttemptAt)

/-- The alert has been tried as often as it may be, and nobody is to try it again. -/
structure Pipeline.GivenUp (id : Uuid) (maxAttempts : ℕ) (s : Pipeline) : Prop where
  known : id < s.db.deliveries.next
  row : ∀ d ∈ s.db.deliveries.rows, d.id = id → maxAttempts ≤ d.attempts ∧ d.status ≠ .pending

/-- Whatever an instance writes, it leaves a row that rests at rest: a claim comes when the row
is due and puts it off by a lease, a failed attempt puts it off from its own instant on. -/
theorem Pipeline.Rests.act {id : Uuid} {attempts : ℕ} {since due : ℤ}
    (h : s.Rests id attempts since due) (hdue : due ≤ since + backoff attempts) :
    (SilenceWatch.act srv st s a).Rests id attempts since due := by
  refine ⟨h.known.trans_le act_deliveries_next, h.since_le.trans clock_le_act, ?_⟩
  intro d' hd' hid
  rcases act_rewrites hd' with ⟨d, hd, hsame, hwrite⟩ | hnew
  · obtain ⟨hattempts, hrests⟩ := h.row d hd (hsame.symm.trans hid)
    cases hwrite with
    | kept => exact ⟨hattempts, hrests⟩
    | claimed hclaimable =>
      have hnext : due ≤ d.nextAttemptAt := hrests hclaimable.1
      have hnow : d.nextAttemptAt ≤ s.clock := hclaimable.2
      constructor
      · show attempts ≤ d.attempts + 1
        omega
      · intro _
        show due ≤ s.clock + claimLease
        unfold claimLease
        omega
    | marked => exact ⟨hattempts, nofun⟩
    | refused => exact ⟨hattempts, nofun⟩
    | retried =>
      have hbackoff : backoff attempts ≤ backoff d.attempts := backoff_mono hattempts
      have hsince := h.since_le
      refine ⟨hattempts, fun _ => ?_⟩
      show due ≤ s.clock + backoff d.attempts
      omega
  · rw [hid] at hnew
    exact absurd h.known (Nat.not_lt.mpr hnew)

/-- Nobody revives an alert that was given up. -/
theorem Pipeline.GivenUp.act {id : Uuid} (h : s.GivenUp id st.notificationMaxAttempts) :
    (SilenceWatch.act srv st s a).GivenUp id st.notificationMaxAttempts := by
  refine ⟨h.known.trans_le act_deliveries_next, ?_⟩
  intro d' hd' hid
  rcases act_rewrites hd' with ⟨d, hd, hsame, hwrite⟩ | hnew
  · obtain ⟨hattempts, hstatus⟩ := h.row d hd (hsame.symm.trans hid)
    cases hwrite with
    | kept => exact ⟨hattempts, hstatus⟩
    | claimed hclaimable => exact absurd hclaimable.1 hstatus
    | marked => exact ⟨hattempts, nofun⟩
    | refused => exact ⟨hattempts, nofun⟩
    | retried =>
      refine ⟨hattempts, ?_⟩
      simp only [Delivery.retry, if_pos hattempts]
      exact nofun
  · rw [hid] at hnew
    exact absurd h.known (Nat.not_lt.mpr hnew)

/-- The action claims this alert: an idle instance takes it up for an attempt. -/
def Pipeline.ClaimsRow (st : Settings) (id : Uuid) (s : Pipeline) : Action → Prop
  | .drain instance' (.claim locked) => ∃ dr ∈ s.drains[instance']?, dr.Idle ∧
      id ∈ (claimSql s.clock st.notificationBatchSize locked s.db).2
  | _ => False

/-- The alert whose failed attempt an instance is about to record. -/
def DrainPhase.failed : DrainPhase → Option Uuid
  | .retrying row _ _ _ => some row.delivery.id
  | _ => none

/-- The action records that an attempt at this alert failed. -/
def Pipeline.RecordsFailure (id : Uuid) (s : Pipeline) : Action → Prop
  | .drain instance' .next => ∃ dr ∈ s.drains[instance']?, dr.phase.failed = some id
  | _ => False

/-- A row that rests until an instant rests until every earlier one. -/
theorem Pipeline.Rests.mono {id : Uuid} {attempts : ℕ} {since due due' : ℤ}
    (h : s.Rests id attempts since due) (hle : due' ≤ due) : s.Rests id attempts since due' :=
  ⟨h.known, h.since_le, fun d hd hid =>
    ⟨(h.row d hd hid).1, fun hpending => hle.trans ((h.row d hd hid).2 hpending)⟩⟩

/-- A row that is claimed is due. -/
theorem Pipeline.Rests.due_le {id : Uuid} {attempts : ℕ} {since due : ℤ}
    (h : s.Rests id attempts since due) (hclaim : s.ClaimsRow st id a) : due ≤ s.clock := by
  unfold Pipeline.ClaimsRow at hclaim
  split at hclaim
  · obtain ⟨_, _, _, hid⟩ := hclaim
    obtain ⟨d, hd, rfl⟩ := List.mem_map.mp hid
    obtain ⟨hmem, ⟨hpending, hnext⟩, _⟩ := mem_of_mem_select _ _ hd
    exact ((h.row d hmem rfl).2 hpending).trans hnext
  · cases hclaim

/-- A row that was given up is not claimed. -/
theorem Pipeline.GivenUp.not_claimsRow {id : Uuid} {maxAttempts : ℕ} (h : s.GivenUp id maxAttempts) :
    ¬ s.ClaimsRow st id a := by
  intro hclaim
  unfold Pipeline.ClaimsRow at hclaim
  split at hclaim
  · obtain ⟨_, _, _, hid⟩ := hclaim
    obtain ⟨d, hd, rfl⟩ := List.mem_map.mp hid
    obtain ⟨hmem, ⟨hpending, _⟩, _⟩ := mem_of_mem_select _ _ hd
    exact (h.row d hmem rfl).2 hpending
  · cases hclaim

/-- A claim writes what `CLAIM_SQL` writes. -/
theorem Pipeline.ClaimsRow.act_db (srv : Server) {id : Uuid} (hclaim : s.ClaimsRow st id a) :
    ∃ locked, id ∈ (claimSql s.clock st.notificationBatchSize locked s.db).2 ∧
      (act srv st s a).db = (claimSql s.clock st.notificationBatchSize locked s.db).1 := by
  unfold Pipeline.ClaimsRow at hclaim
  split at hclaim
  · next i locked =>
    obtain ⟨⟨t, phase⟩, hget, hidle, hid⟩ := hclaim
    refine ⟨locked, hid, ?_⟩
    cases phase with
    | idle => simp only [act, Option.mem_def.mp hget, Drain.step]
    | _ => exact absurd hidle Bool.false_ne_true
  · cases hclaim

/-- Recording a failure writes what `RETRY_SQL` writes. -/
theorem Pipeline.RecordsFailure.act_db {id : Uuid} (hfailure : s.RecordsFailure id a) :
    (act srv st s a).db = retrySql s.clock st.notificationMaxAttempts id s.db := by
  unfold Pipeline.RecordsFailure at hfailure
  split at hfailure
  · obtain ⟨⟨t, phase⟩, hget, hphase⟩ := hfailure
    cases phase with
    | retrying row rows sentLastHour delivered =>
      obtain rfl : row.delivery.id = id := Option.some.inj hphase
      simp only [act, Option.mem_def.mp hget, Drain.step]
    | _ => cases hphase
  · cases hfailure

/-- A claim puts its row to rest. -/
theorem Pipeline.ClaimsRow.rests {d : Delivery} (hd : d ∈ s.db.deliveries.rows)
    (hclaim : s.ClaimsRow st d.id a) :
    (SilenceWatch.act srv st s a).Rests d.id (d.attempts + 1) s.clock (s.clock + claimLease) := by
  obtain ⟨locked, hid, hdb⟩ := hclaim.act_db srv
  refine ⟨(s.db.deliveries.fresh d hd).trans_le act_deliveries_next, clock_le_act, ?_⟩
  intro d' hd' hsame
  rw [hdb] at hd'
  obtain ⟨old, hold, ⟨_, rfl⟩ | ⟨hother, rfl⟩⟩ := mem_map_updateRow.mp hd'
  · obtain rfl : old = d := s.db.eq_of_delivery_id hold hd hsame
    exact ⟨le_rfl, fun _ => le_rfl⟩
  · exact absurd (hsame ▸ hid) hother

/-- A recorded failure puts its row to rest, or gives it up. -/
theorem Pipeline.RecordsFailure.rests (srv : Server) (st : Settings) {d : Delivery}
    (hd : d ∈ s.db.deliveries.rows) (hfailure : s.RecordsFailure d.id a) :
    (SilenceWatch.act srv st s a).Rests d.id d.attempts s.clock
      (s.clock + backoff d.attempts) ∧
    (st.notificationMaxAttempts ≤ d.attempts →
      (SilenceWatch.act srv st s a).GivenUp d.id st.notificationMaxAttempts) := by
  have hknown : d.id < (SilenceWatch.act srv st s a).db.deliveries.next :=
    (s.db.deliveries.fresh d hd).trans_le act_deliveries_next
  have hrow {d' : Delivery} (hd' : d' ∈ (SilenceWatch.act srv st s a).db.deliveries.rows)
      (hid : d'.id = d.id) : d' = d.retry s.clock st.notificationMaxAttempts := by
    rw [hfailure.act_db] at hd'
    obtain ⟨old, hold, ⟨_, rfl⟩ | ⟨hother, rfl⟩⟩ := mem_map_updateRow.mp hd'
    · obtain rfl : old = d := s.db.eq_of_delivery_id hold hd hid
      rfl
    · exact absurd hid hother
  constructor
  · refine ⟨hknown, clock_le_act, fun d' hd' hid => ?_⟩
    obtain rfl := hrow hd' hid
    exact ⟨le_rfl, fun _ => le_rfl⟩
  · intro hlast
    refine ⟨hknown, fun d' hd' hid => ?_⟩
    obtain rfl := hrow hd' hid
    refine ⟨hlast, ?_⟩
    simp only [Delivery.retry, if_pos hlast]
    exact nofun

end Act

/-- **No alert is claimed twice within its delay.** However many instances drain the queue, and
whatever they and everything else do: once an instance has claimed an alert for its `n`-th
attempt, no instance claims it again before the shorter of the lease and the delay after the
`n`-th attempt has passed, which is half a minute at least. -/
theorem claims_apart (srv : Server) (st : Settings) (s : Pipeline) (a : Action)
    (later : List Action) {d : Delivery} (hd : d ∈ s.db.deliveries.rows)
    (hclaim : s.ClaimsRow st d.id a) :
    Along (act srv st)
      (fun s' a' => s'.ClaimsRow st d.id a' →
        s.clock + min claimLease (backoff (d.attempts + 1)) ≤ s'.clock ∧
          s.clock + 30000 ≤ s'.clock)
      (act srv st s a) later := by
  have hleast : 30000 ≤ min claimLease (backoff (d.attempts + 1)) :=
    le_min (by decide) (le_backoff _)
  have hstart : (act srv st s a).Rests d.id (d.attempts + 1) s.clock
      (s.clock + min claimLease (backoff (d.attempts + 1))) :=
    (hclaim.rests hd).mono (by omega)
  refine along_of_step (P := fun _ _ => True)
    (fun _ _ h _ => h.act (by omega)) (fun s' a' h _ hclaim' => ?_) hstart
    (along_of_forall fun _ _ => trivial)
  have hdue := h.due_le hclaim'
  omega

/-- **A failed attempt waits, and the last one is the last.** Once an instance has recorded that
the `n`-th attempt at an alert failed, no instance claims the alert again if `n` is the number of
attempts there may be, nor, below that, before the delay after the `n`-th attempt has passed. -/
theorem failure_waits (srv : Server) (st : Settings) (s : Pipeline) (a : Action)
    (later : List Action) {d : Delivery} (hd : d ∈ s.db.deliveries.rows)
    (hfailure : s.RecordsFailure d.id a) :
    Along (act srv st)
      (fun s' a' => s'.ClaimsRow st d.id a' →
        d.attempts < st.notificationMaxAttempts ∧ s.clock + backoff d.attempts ≤ s'.clock)
      (act srv st s a) later := by
  obtain ⟨hrests, hgiven⟩ := hfailure.rests srv st hd
  refine along_of_step (P := fun _ _ => True)
    (I := fun s' => s'.Rests d.id d.attempts s.clock (s.clock + backoff d.attempts) ∧
      (st.notificationMaxAttempts ≤ d.attempts → s'.GivenUp d.id st.notificationMaxAttempts))
    (fun _ _ h _ => ⟨h.1.act le_rfl, fun hlast => (h.2 hlast).act⟩)
    (fun s' a' h _ hclaim => ⟨?_, h.1.due_le hclaim⟩) ⟨hrests, hgiven⟩
    (along_of_forall fun _ _ => trivial)
  by_contra hlast
  exact (h.2 (Nat.not_lt.mp hlast)).not_claimsRow hclaim

/-- An alert is queued for a channel. -/
def queuedAlert : Pipeline :=
  run (act sampleServer defaultSettings) samplePipeline
    ([.addChannel ⟨1, 1, true⟩] ++ sampleOutage ++ sampleTick)

/-- The first instance has tried to deliver the alert and is about to record that it failed. -/
def failedAlert : Pipeline :=
  run (act sampleServer defaultSettings) queuedAlert
    [.drain 0 (.claim fun _ => false), .drain 0 (.fetch [0]), .drain 0 .next, .drain 0 .next,
      .drain 0 (.outcome false)]

/-- Half a minute later the second instance looks for work. -/
def secondAttempt : List Action := [.elapse 30000, .drain 1 (.claim fun _ => false)]

theorem claims_apart_queuedAlert :
    Along (act sampleServer defaultSettings)
      (fun s' a' => s'.ClaimsRow defaultSettings 0 a' →
        queuedAlert.clock + min claimLease (backoff 1) ≤ s'.clock ∧
          queuedAlert.clock + 30000 ≤ s'.clock)
      (act sampleServer defaultSettings queuedAlert (.drain 0 (.claim fun _ => false)))
      ([.drain 0 (.fetch [0]), .drain 0 .next, .drain 0 .next, .drain 0 (.outcome false),
        .drain 0 .next] ++ secondAttempt) :=
  claims_apart sampleServer defaultSettings queuedAlert (.drain 0 (.claim fun _ => false)) _
    (d := Delivery.pending 3900001 .down 0 1 0) (by decide)
    (show ∃ dr ∈ queuedAlert.drains[0]?, dr.Idle ∧ 0 ∈ (claimSql queuedAlert.clock
      defaultSettings.notificationBatchSize (fun _ => false) queuedAlert.db).2 by decide)

theorem failure_waits_failedAlert :
    Along (act sampleServer defaultSettings)
      (fun s' a' => s'.ClaimsRow defaultSettings 0 a' →
        1 < defaultSettings.notificationMaxAttempts ∧ failedAlert.clock + backoff 1 ≤ s'.clock)
      (act sampleServer defaultSettings failedAlert (.drain 0 .next)) secondAttempt :=
  failure_waits sampleServer defaultSettings failedAlert (.drain 0 .next) secondAttempt
    (d := (Delivery.pending 3900001 .down 0 1 0).claim 3900001) (by decide)
    (show ∃ dr ∈ failedAlert.drains[0]?, dr.phase.failed = some 0 by decide)

/-- The alert is claimed again when its delay has passed. -/
example : (run (act sampleServer defaultSettings) failedAlert
    ([.drain 0 .next] ++ secondAttempt)).db.deliveries.rows.map Delivery.attempts = [2] := by
  decide

end SilenceWatch
