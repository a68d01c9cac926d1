import Mathlib.Algebra.Order.BigOperators.Group.List
import Mathlib.Algebra.Order.Ring.Nat
import SilenceWatch.Library.Run

/-!
# Interval runs

An `IntervalRunner` keeps the promise of the tick in flight, which a continuation clears once
the tick is over. Timer ticks, calls of `run` and `settle`, completions and failures of the
task, and the queued continuations, in any order: executions never overlap. That the promises
of `run` resolve and that `settle` waits hold as long as the task fails with reasons that the
`catch` block can read and calls neither method before its first `await`.
-/

namespace SilenceWatch

open Transition

/-- Setting an entry of a list moves a sum over the list by the difference. -/
theorem sum_map_set {α : Type*} (f : α → ℕ) {xs : List α} {i : ℕ} {x : α} (y : α)
    (hx : xs[i]? = some x) : ((xs.set i y).map f).sum + f x = (xs.map f).sum + f y := by
  induction xs generalizing i with
  | nil => cases hx
  | cons x' xs ih =>
    cases i with
    | zero =>
      cases hx
      simp only [List.set_cons_zero, List.map_cons, List.sum_cons]
      omega
    | succ i =>
      have hrest := ih hx
      simp only [List.set_cons_succ, List.map_cons, List.sum_cons]
      omega

/-- What a task fails with. -/
inductive FailureReason where
  /-- A value with a message, or a value other than `undefined` and `null` without one. -/
  | error
  /-- `undefined` or `null`. -/
  | nullish
  /-- A value whose message or stack cannot be read or written as text. -/
  | unreadable
  deriving DecidableEq

/-- The `catch` block can read it. -/
def FailureReason.IsReadable (reason : FailureReason) : Prop := reason = .error
  deriving Decidable

/-- How a task ends. -/
inductive TaskOutcome where
  | success
  | failure (reason : FailureReason)
  deriving DecidableEq

/-- The `catch` block throws, so that `execute` rejects. -/
def TaskOutcome.Rejects : TaskOutcome → Prop
  | .success => False
  | .failure .error => False
  | .failure .nullish => True
  | .failure .unreadable => True

instance : ∀ o : TaskOutcome, Decidable o.Rejects
  | .success => .isFalse id
  | .failure .error => .isFalse id
  | .failure .nullish => .isTrue trivial
  | .failure .unreadable => .isTrue trivial

theorem TaskOutcome.not_rejects {o : TaskOutcome}
    (h : ∀ reason, o = .failure reason → reason.IsReadable) : ¬ o.Rejects := by
  cases o with
  | success => exact id
  | failure reason =>
    cases h reason rfl
    exact id

/-- How far a tick has come. From the end of its task on, its next continuation is queued. -/
inductive RunPhase where
  /-- The task is under way. -/
  | running
  /-- The task is over, and `execute` waits to resume. -/
  | ended (o : TaskOutcome)
  /-- `execute` is over, and its `finally` callback waits. -/
  | handled (o : TaskOutcome)
  /-- The callback has run, and the promise of the tick waits for it. -/
  | cleared (o : TaskOutcome)
  /-- The promise of the tick is settled. -/
  | settled (o : TaskOutcome)
  deriving DecidableEq

namespace RunPhase

/-- `execute` is not over. -/
def InFlight : RunPhase → Prop
  | .running => True
  | .ended _ => True
  | _ => False

/-- The callback that clears the tick has not run. -/
def Held : RunPhase → Prop
  | .running => True
  | .ended _ => True
  | .handled _ => True
  | _ => False

instance : ∀ p : RunPhase, Decidable p.Held
  | .running => .isTrue trivial
  | .ended _ => .isTrue trivial
  | .handled _ => .isTrue trivial
  | .cleared _ => .isFalse id
  | .settled _ => .isFalse id

/-- The task has failed. -/
def HasFailed : RunPhase → Prop
  | .ended (.failure _) => True
  | .handled (.failure _) => True
  | .cleared (.failure _) => True
  | .settled (.failure _) => True
  | _ => False

/-- The outcome of the task, if it is over, is one that `execute` survives. -/
def Survives : RunPhase → Prop
  | .running => True
  | .ended o => ¬ o.Rejects
  | .handled o => ¬ o.Rejects
  | .cleared o => ¬ o.Rejects
  | .settled o => ¬ o.Rejects

/-- The continuations that are left for the tick. -/
def jobs : RunPhase → ℕ
  | .running => 0
  | .ended _ => 3
  | .handled _ => 2
  | .cleared _ => 1
  | .settled _ => 0

/-- One if `execute` is over. -/
def finished : RunPhase → ℕ
  | .running => 0
  | .ended _ => 0
  | _ => 1

/-- A continuation of the tick is queued. -/
def Queued (p : RunPhase) : Prop := 0 < p.jobs

/-- The promise of the tick has resolved. -/
def Resolved : RunPhase → Prop
  | .settled o => ¬ o.Rejects
  | _ => False

/-- The promise of the tick has rejected. -/
def Rejected : RunPhase → Prop
  | .settled o => o.Rejects
  | _ => False

/-- What the next continuation of a tick makes of its phase. -/
inductive Next : RunPhase → RunPhase → Prop where
  | resume (o : TaskOutcome) : Next (.ended o) (.handled o)
  | clear (o : TaskOutcome) : Next (.handled o) (.cleared o)
  | settle (o : TaskOutcome) : Next (.cleared o) (.settled o)

/-- The phase that `execute` leaves when it first returns. -/
def start : Option FailureReason → RunPhase
  | none => .running
  | some reason => .handled (.failure reason)

variable {p p' : RunPhase}

theorem held_start (thrown : Option FailureReason) : (start thrown).Held := by
  cases thrown with
  | none => trivial
  | some reason => trivial

theorem InFlight.held (h : p.InFlight) : p.Held := by
  cases p with
  | running => trivial
  | ended o => trivial
  | handled o => exact h.elim
  | cleared o => exact h.elim
  | settled o => exact h.elim

theorem Next.queued (h : p.Next p') : p.Queued := by
  cases h with
  | resume o => exact Nat.succ_pos 2
  | clear o => exact Nat.succ_pos 1
  | settle o => exact Nat.succ_pos 0

theorem Next.jobs_eq (h : p.Next p') : p.jobs = p'.jobs + 1 := by
  cases h with
  | resume o => rfl
  | clear o => rfl
  | settle o => rfl

theorem Next.held (h : p.Next p') (hp' : p'.Held) : p.Held := by
  cases h with
  | resume o => trivial
  | clear o => trivial
  | settle o => exact hp'.elim

theorem Next.survives (h : p.Next p') (hp : p.Survives) : p'.Survives := by
  cases h with
  | resume o => exact hp
  | clear o => exact hp
  | settle o => exact hp

theorem Survives.not_rejected (h : p.Survives) : ¬ p.Rejected := by
  cases p with
  | settled o => exact h
  | running => exact id
  | ended o => exact id
  | handled o => exact id
  | cleared o => exact id

/-- Without a continuation left, a tick is under way or its promise has resolved. -/
theorem Survives.resolved (h : p.Survives) (hqueued : ¬ p.Queued) :
    p = .running ∨ p.Resolved := by
  cases p with
  | running => exact Or.inl rfl
  | settled o => exact Or.inr h
  | ended o => exact absurd (Nat.succ_pos 2) hqueued
  | handled o => exact absurd (Nat.succ_pos 1) hqueued
  | cleared o => exact absurd (Nat.succ_pos 0) hqueued

end RunPhase

/-- A call of `settle`. -/
inductive SettleCall where
  /-- It awaits the promise of a tick. -/
  | awaiting (tick : ℕ)
  | resolved
  | rejected
  deriving DecidableEq

/-- The ticks in the order of their starts, the one in flight, the calls of `settle`, and the
counters. -/
structure IntervalRunner where
  executions : List RunPhase
  current : Option ℕ
  settlers : List SettleCall
  ticks : ℕ
  failures : ℕ
  skipped : ℕ
  deriving DecidableEq

/-- What happens. -/
inductive RunnerEvent where
  /-- A call of `run`, by the timer or by another caller. Where it starts the task, the task
  calls `settle` so many times before its first `await`, and may throw there. -/
  | run (settles : ℕ) (thrown : Option FailureReason)
  | settle
  /-- The task of a tick ends. -/
  | finish (tick : ℕ) (o : TaskOutcome)
  /-- The next continuation of a tick. -/
  | turn (tick : ℕ)
  /-- The continuation of a call of `settle`. -/
  | wake (settler : ℕ)
  deriving DecidableEq

namespace IntervalRunner

/-- A runner that has not ticked. -/
def new : IntervalRunner := ⟨[], none, [], 0, 0, 0⟩

/-- A tick comes into another phase. -/
def advance (s : IntervalRunner) (tick : ℕ) (p : RunPhase) : IntervalRunner :=
  { s with executions := s.executions.set tick p }

/-- `settle`, from its call to its first `await`, and from each to the next. -/
def settleFrom (s : IntervalRunner) : SettleCall :=
  match s.current with
  | none => .resolved
  | some tick => .awaiting tick

/-- `settle`. -/
def settle (s : IntervalRunner) : IntervalRunner :=
  { s with settlers := s.settlers ++ [s.settleFrom] }

/-- `execute`, from the end of its task on. -/
def handle (s : IntervalRunner) (tick : ℕ) (o : TaskOutcome) : IntervalRunner :=
  match o with
  | .success => { s.advance tick (.handled o) with ticks := s.ticks + 1 }
  | .failure _ => { s.advance tick (.handled o) with failures := s.failures + 1 }

/-- `execute`, up to its first `await`, or to its end where the task throws before. -/
def execute (s : IntervalRunner) (settles : ℕ) (thrown : Option FailureReason) :
    IntervalRunner :=
  let tick := s.executions.length
  let started : IntervalRunner := { s with executions := s.executions ++ [.running] }
  let called := settle^[settles] started
  match thrown with
  | none => called
  | some reason => called.handle tick (.failure reason)

/-- `run`, with the tick whose promise it returns. -/
def run (s : IntervalRunner) (settles : ℕ) (thrown : Option FailureReason) :
    IntervalRunner × ℕ :=
  match s.current with
  | some inFlight => ({ s with skipped := s.skipped + 1 }, inFlight)
  | none =>
    let tick := s.executions.length
    ({ s.execute settles thrown with current := some tick }, tick)

/-- The next continuation of a tick: of `execute`, of its `finally`, of the promise. -/
def turn (s : IntervalRunner) (tick : ℕ) : IntervalRunner :=
  match s.executions[tick]? with
  | some (.ended o) => s.handle tick o
  | some (.handled o) => { s.advance tick (.cleared o) with current := none }
  | some (.cleared o) => s.advance tick (.settled o)
  | _ => s

/-- A call of `settle` resumes with the promise it awaits. -/
def wake (s : IntervalRunner) (settler : ℕ) : IntervalRunner :=
  match s.settlers[settler]? with
  | some (.awaiting tick) =>
    match s.executions[tick]? with
    | some (.settled o) =>
      { s with
        settlers := s.settlers.set settler (if o.Rejects then .rejected else s.settleFrom) }
    | _ => s
  | _ => s

/-- The state after an event. -/
def step (s : IntervalRunner) : RunnerEvent → IntervalRunner
  | .run settles thrown => (s.run settles thrown).1
  | .settle => s.settle
  | .finish tick o =>
    if s.executions[tick]? = some .running then s.advance tick (.ended o) else s
  | .turn tick => s.turn tick
  | .wake settler => s.wake settler

section

variable {s : IntervalRunner} {e : RunnerEvent} {tick settles : ℕ}
  {thrown : Option FailureReason} {o : TaskOutcome}

@[simp] theorem executions_handle (s : IntervalRunner) (tick : ℕ) (o : TaskOutcome) :
    (s.handle tick o).executions = s.executions.set tick (.handled o) := by
  cases o with
  | success => rfl
  | failure reason => rfl

@[simp] theorem current_handle (s : IntervalRunner) (tick : ℕ) (o : TaskOutcome) :
    (s.handle tick o).current = s.current := by
  cases o with
  | success => rfl
  | failure reason => rfl

@[simp] theorem settlers_handle (s : IntervalRunner) (tick : ℕ) (o : TaskOutcome) :
    (s.handle tick o).settlers = s.settlers := by
  cases o with
  | success => rfl
  | failure reason => rfl

/-- Calls of `settle` leave everything but themselves. -/
theorem settle_iterate (n : ℕ) (s : IntervalRunner) :
    settle^[n] s = { s with settlers := (settle^[n] s).settlers } := by
  induction n generalizing s with
  | zero => rfl
  | succ n ih => exact ih s.settle

theorem executions_execute (s : IntervalRunner) (settles : ℕ) (thrown : Option FailureReason) :
    (s.execute settles thrown).executions = s.executions ++ [.start thrown] := by
  unfold execute
  cases thrown with
  | none => exact congrArg executions (settle_iterate _ _)
  | some reason =>
    dsimp only
    rw [executions_handle, settle_iterate]
    exact List.set_append_right _ _ (Nat.le_refl _) |>.trans (by simp [RunPhase.start])

/-- `execute` counts the tick once it is over. -/
theorem counters_handle (s : IntervalRunner) (tick : ℕ) (o : TaskOutcome) :
    (s.handle tick o).ticks + (s.handle tick o).failures = s.ticks + s.failures + 1 := by
  cases o with
  | success => exact Nat.add_right_comm _ _ _
  | failure reason => rfl

theorem counters_execute (s : IntervalRunner) (settles : ℕ) (thrown : Option FailureReason) :
    (s.execute settles thrown).ticks + (s.execute settles thrown).failures =
      s.ticks + s.failures + (RunPhase.start thrown).finished := by
  unfold execute
  cases thrown with
  | none =>
    dsimp only
    rw [settle_iterate]
    rfl
  | some reason =>
    dsimp only
    rw [counters_handle, settle_iterate]
    rfl

theorem settlers_execute_zero (s : IntervalRunner) (thrown : Option FailureReason) :
    (s.execute 0 thrown).settlers = s.settlers := by
  unfold execute
  cases thrown with
  | none => rfl
  | some reason => exact settlers_handle _ _ _

/-- A call of `settle` that goes on changes nothing but itself. -/
theorem wake_eq (s : IntervalRunner) (settler : ℕ) :
    s.wake settler = s ∨ ∃ tick o, s.settlers[settler]? = some (.awaiting tick) ∧
      s.executions[tick]? = some (.settled o) ∧
      s.wake settler =
        { s with
          settlers := s.settlers.set settler (if o.Rejects then .rejected else s.settleFrom) } := by
  unfold wake
  split
  · next tick hsettler =>
    split
    · next o htick => exact Or.inr ⟨tick, o, hsettler, htick, rfl⟩
    · exact Or.inl rfl
  · exact Or.inl rfl

/-- What a continuation of a tick does. -/
theorem turn_cases (s : IntervalRunner) (tick : ℕ) :
    (s.turn tick = s ∧ ∀ p, s.executions[tick]? = some p → ¬ p.Queued) ∨
    ∃ p p', s.executions[tick]? = some p ∧ p.Next p' ∧
      (s.turn tick).executions = s.executions.set tick p' ∧
      (s.turn tick).settlers = s.settlers ∧
      (s.turn tick).current = if p.Held ∧ ¬ p'.Held then none else s.current := by
  unfold turn
  split
  · next o h =>
    refine Or.inr ⟨_, _, h, .resume o, executions_handle _ _ _, settlers_handle _ _ _, ?_⟩
    rw [current_handle, if_neg fun hheld => hheld.2 trivial]
  · next o h =>
    refine Or.inr ⟨_, _, h, .clear o, rfl, rfl, ?_⟩
    rw [if_pos ⟨trivial, id⟩]
  · next o h =>
    refine Or.inr ⟨_, _, h, .settle o, rfl, rfl, ?_⟩
    rw [if_neg fun hheld => hheld.1]
    rfl
  · next hended hhandled hcleared =>
    refine Or.inl ⟨rfl, fun p hp => ?_⟩
    cases p with
    | running => exact Nat.lt_irrefl 0
    | settled o => exact Nat.lt_irrefl 0
    | ended o => exact absurd hp (hended o)
    | handled o => exact absurd hp (hhandled o)
    | cleared o => exact absurd hp (hcleared o)

variable (s e) in
/-- What an event does to the ticks: nothing, a start, the end of a task, a continuation. -/
theorem step_cases :
    ((s.step e).executions = s.executions ∧ (s.step e).current = s.current) ∨
    (∃ settles thrown, e = .run settles thrown ∧ s.current = none ∧
      (s.step e).executions = s.executions ++ [.start thrown] ∧
      (s.step e).current = some s.executions.length) ∨
    (∃ tick o, e = .finish tick o ∧ s.executions[tick]? = some .running ∧
      (s.step e).executions = s.executions.set tick (.ended o) ∧
      (s.step e).current = s.current) ∨
    ∃ tick p p', e = .turn tick ∧ s.executions[tick]? = some p ∧ p.Next p' ∧
      (s.step e).executions = s.executions.set tick p' ∧
      (s.step e).current = if p.Held ∧ ¬ p'.Held then none else s.current := by
  cases e with
  | run settles thrown =>
    unfold step run
    cases hcurrent : s.current with
    | none =>
      exact Or.inr (Or.inl ⟨settles, thrown, rfl, rfl, executions_execute s settles thrown, rfl⟩)
    | some tick => exact Or.inl ⟨rfl, rfl⟩
  | settle => exact Or.inl ⟨rfl, rfl⟩
  | finish tick o =>
    unfold step
    dsimp only
    split
    · next h => exact Or.inr (Or.inr (Or.inl ⟨tick, o, rfl, h, rfl, rfl⟩))
    · exact Or.inl ⟨rfl, rfl⟩
  | turn tick =>
    rcases s.turn_cases tick with ⟨hsame, _⟩ | ⟨p, p', hp, hnext, hexecutions, _, hcurrent⟩
    · exact Or.inl ⟨congrArg executions hsame, congrArg current hsame⟩
    · exact Or.inr (Or.inr (Or.inr ⟨tick, p, p', rfl, hp, hnext, hexecutions, hcurrent⟩))
  | wake settler =>
    have hstep : s.step (.wake settler) = s.wake settler := rfl
    rcases s.wake_eq settler with hsame | ⟨tick, o, _, _, hwake⟩
    · rw [hstep, hsame]
      exact Or.inl ⟨rfl, rfl⟩
    · rw [hstep, hwake]
      exact Or.inl ⟨rfl, rfl⟩

end

section Claims

variable (s : IntervalRunner)

/-- The execution of a tick is in flight. -/
def InFlight (tick : ℕ) : Prop := ∃ p, s.executions[tick]? = some p ∧ p.InFlight

/-- The promise of a tick has resolved. -/
def Resolved (tick : ℕ) : Prop := ∃ p, s.executions[tick]? = some p ∧ p.Resolved

/-- The promise of a tick has rejected. -/
def Rejected (tick : ℕ) : Prop := ∃ p, s.executions[tick]? = some p ∧ p.Rejected

/-- A call of `run` finds the tick in flight, or starts it. -/
def FoundOrStarted (settles : ℕ) (thrown : Option FailureReason) (tick : ℕ) : Prop :=
  s.InFlight tick ∨
    (s.executions.length ≤ tick ∧ tick < (s.run settles thrown).1.executions.length)

/-- A continuation is queued. -/
def Queued : RunnerEvent → Prop
  | .turn tick => ∃ p, s.executions[tick]? = some p ∧ p.Queued
  | .wake settler => ∃ tick o, s.settlers[settler]? = some (.awaiting tick) ∧
      s.executions[tick]? = some (.settled o)
  | _ => False

/-- The ticks that a call of `settle` may still wait for. -/
def waits (ticks : ℕ) : SettleCall → ℕ
  | .awaiting tick => ticks - tick
  | _ => 0

/-- A bound on the continuations that can run one after the other. -/
def work : ℕ :=
  (s.executions.map RunPhase.jobs).sum + (s.settlers.map (waits s.executions.length)).sum

/-- What holds in every state: executions do not overlap; a promise resolves after its
execution, and none rejects; the queued continuations come to an end, and then the promise of
every tick whose task is over has resolved. -/
structure Sound : Prop where
  one_in_flight : ∀ tick tick', s.InFlight tick → s.InFlight tick' → tick = tick'
  resolves_after : ∀ tick, s.Resolved tick → ¬ s.InFlight tick
  never_rejects : ∀ tick, ¬ s.Rejected tick
  drains : ∀ es, Along step Queued s es → es.length ≤ s.work
  resolves : (∀ e, ¬ s.Queued e) → ∀ tick < s.executions.length,
    s.executions[tick]? = some .running ∨ s.Resolved tick

/-- What `run` returns: the promise of a tick, and that of the one it finds in flight or starts;
after an execution that failed, it starts one. -/
def ReturnsTick : RunnerEvent → Prop
  | .run settles thrown =>
    (s.run settles thrown).2 < (s.run settles thrown).1.executions.length ∧
    (∀ tick, s.FoundOrStarted settles thrown tick → (s.run settles thrown).2 = tick) ∧
      ∀ p ∈ s.executions.getLast?, p.HasFailed →
        (s.run settles thrown).2 = s.executions.length ∧
          (s.run settles thrown).1.executions.length = s.executions.length + 1
  | _ => True

/-- A promise that `run` returned: it has not rejected, and once no continuation is queued, its
tick is under way or it has resolved. -/
structure Keeps (tick : ℕ) : Prop where
  not_rejected : ¬ s.Rejected tick
  resolves : (∀ e, ¬ s.Queued e) → s.executions[tick]? = some .running ∨ s.Resolved tick

/-- A call of `settle` resolves only when no execution is in flight. -/
def SettlesIdle (e : RunnerEvent) : Prop :=
  ∀ settler : ℕ, (s.step e).settlers[settler]? = some SettleCall.resolved →
    s.settlers[settler]? = some SettleCall.resolved ∨ ∀ tick, ¬ (s.step e).InFlight tick

/-- What the event must not be: a failure with a reason that the `catch` block cannot read, a
call of `run` between a failure and the continuation that clears its tick, and a call of
`settle` by the task before its first `await`. -/
def Admits : RunnerEvent → Prop
  | .run settles thrown =>
    (∀ p ∈ s.executions, p.HasFailed → ¬ p.Held) ∧
      (s.current = none → settles = 0 ∧ ∀ reason ∈ thrown, reason.IsReadable)
  | .finish tick o =>
    s.executions[tick]? = some .running → ∀ reason, o = .failure reason → reason.IsReadable
  | _ => True

end Claims

section

variable {s s' : IntervalRunner} {e : RunnerEvent} {tick : ℕ} {p p' : RunPhase}

/-- The tick kept is the one that has not been cleared, and it is the newest. -/
structure Coherent (s : IntervalRunner) : Prop where
  held : ∀ tick p, s.executions[tick]? = some p → (p.Held ↔ s.current = some tick)
  newest : ∀ tick, s.current = some tick → tick + 1 = s.executions.length

theorem coherent_new : new.Coherent where
  held tick p h := by cases h
  newest tick h := by cases h

/-- Another phase of a tick keeps the runner coherent. -/
theorem Coherent.set (h : s.Coherent) (hp : s.executions[tick]? = some p)
    (hheld : p'.Held → p.Held) (hexecutions : s'.executions = s.executions.set tick p')
    (hcurrent : s'.current = if p.Held ∧ ¬ p'.Held then none else s.current) : s'.Coherent := by
  have hlt : tick < s.executions.length := List.getElem?_eq_some_iff.mp hp |>.1
  refine ⟨fun other q hq => ?_, fun other hother => ?_⟩
  · rw [hexecutions, List.getElem?_set] at hq
    rw [hcurrent]
    split at hq
    · next hsame =>
      subst hsame
      cases hq
      split
      · next hcleared => exact ⟨fun h' => absurd h' hcleared.2, fun h' => nomatch h'⟩
      · next hkept =>
        rw [← h.held tick p hp]
        exact ⟨hheld, fun h' => by_contra fun h'' => hkept ⟨h', h''⟩⟩
    · next hother =>
      split
      · next hcleared =>
        have htick := (h.held tick p hp).mp hcleared.1
        rw [h.held other q hq, htick]
        exact ⟨fun h' => absurd (Option.some.inj h') hother, fun h' => nomatch h'⟩
      · exact h.held other q hq
  · rw [hexecutions, List.length_set]
    rw [hcurrent] at hother
    split at hother
    · cases hother
    · exact h.newest other hother

/-- **One step.** Every event keeps the runner coherent. -/
theorem Coherent.step (h : s.Coherent) (e : RunnerEvent) : (s.step e).Coherent := by
  rcases s.step_cases e with ⟨hexecutions, hcurrent⟩ |
    ⟨settles, thrown, _, hidle, hexecutions, hcurrent⟩ |
    ⟨tick, o, _, hp, hexecutions, hcurrent⟩ | ⟨tick, p, p', _, hp, hnext, hexecutions, hcurrent⟩
  · exact ⟨by rw [hexecutions, hcurrent]; exact h.held,
      by rw [hexecutions, hcurrent]; exact h.newest⟩
  · refine ⟨fun tick p hp => ?_, fun tick htick => ?_⟩
    · rw [hcurrent]
      rw [hexecutions] at hp
      rcases Nat.lt_or_ge tick s.executions.length with hlt | hge
      · rw [List.getElem?_append_left hlt] at hp
        rw [h.held tick p hp, hidle]
        constructor
        · intro h'
          cases h'
        · intro h'
          exact absurd (Option.some.inj h') (Nat.ne_of_gt hlt)
      · rw [List.getElem?_append_right hge, List.getElem?_singleton] at hp
        split at hp
        · next hzero =>
          cases hp
          have hsame : s.executions.length = tick := by omega
          exact ⟨fun _ => congrArg some hsame, fun _ => RunPhase.held_start thrown⟩
        · cases hp
    · rw [hcurrent] at htick
      rw [hexecutions, List.length_append, List.length_singleton]
      exact congrArg (· + 1) (Option.some.inj htick).symm
  · refine h.set hp (fun _ => trivial) hexecutions ?_
    rw [hcurrent, if_neg fun hcleared => hcleared.2 trivial]
  · exact h.set hp hnext.held hexecutions hcurrent

/-- Where no tick is kept, no execution is in flight. -/
theorem Coherent.idle (h : s.Coherent) (hidle : s.current = none) (tick : ℕ) :
    ¬ s.InFlight tick := by
  rintro ⟨p, hp, hflight⟩
  have hcurrent := (h.held tick p hp).mp hflight.held
  rw [hidle] at hcurrent
  cases hcurrent

/-- Every admitted event keeps the outcomes such that `execute` survives them. -/
theorem survives_step (h : ∀ p ∈ s.executions, p.Survives) (he : s.Admits e) :
    ∀ p ∈ (s.step e).executions, p.Survives := by
  rcases s.step_cases e with ⟨hexecutions, _⟩ | ⟨settles, thrown, hrun, hidle, hexecutions, _⟩ |
    ⟨tick, o, hfinish, hrunning, hexecutions, _⟩ | ⟨tick, p, p', _, hp, hnext, hexecutions, _⟩
  · rw [hexecutions]
    exact h
  · rw [hexecutions]
    intro p hp
    rcases List.mem_append.mp hp with hold | hnew
    · exact h p hold
    · rw [List.mem_singleton.mp hnew]
      subst hrun
      have hreadable := (he.2 hidle).2
      cases thrown with
      | none => trivial
      | some reason =>
        refine TaskOutcome.not_rejects fun reason' hsame => ?_
        cases hsame
        exact hreadable reason rfl
  · rw [hexecutions]
    intro p hp
    subst hfinish
    rcases List.mem_or_eq_of_mem_set hp with hold | rfl
    · exact h p hold
    · exact TaskOutcome.not_rejects (he hrunning)
  · rw [hexecutions]
    intro q hq
    rcases List.mem_or_eq_of_mem_set hq with hold | rfl
    · exact h q hold
    · exact hnext.survives (h p (List.mem_of_getElem? hp))

/-- What an event does to the calls of `settle`: nothing, calls by the task that it starts, a
call, or a call that goes on. -/
theorem Coherent.settlesIdle (h : s.Coherent) (he : s.Admits e) : s.SettlesIdle e := by
  intro settler hresolved
  cases e with
  | run settles thrown =>
    left
    unfold IntervalRunner.step IntervalRunner.run at hresolved
    cases hcurrent : s.current with
    | none =>
      rw [hcurrent] at hresolved
      obtain ⟨rfl, _⟩ := he.2 hcurrent
      have hsettlers := s.settlers_execute_zero thrown
      change (s.execute 0 thrown).settlers[settler]? = _ at hresolved
      rw [hsettlers] at hresolved
      exact hresolved
    | some tick =>
      rw [hcurrent] at hresolved
      exact hresolved
  | settle =>
    cases hcurrent : s.current with
    | none => exact Or.inr (h.idle hcurrent)
    | some tick =>
      left
      change (s.settlers ++ [s.settleFrom])[settler]? = _ at hresolved
      rw [settleFrom, hcurrent] at hresolved
      rcases Nat.lt_or_ge settler s.settlers.length with hlt | hge
      · rw [List.getElem?_append_left hlt] at hresolved
        exact hresolved
      · rw [List.getElem?_append_right hge, List.getElem?_singleton] at hresolved
        split at hresolved
        · cases hresolved
        · cases hresolved
  | finish tick o =>
    left
    unfold IntervalRunner.step at hresolved
    dsimp only at hresolved
    split at hresolved
    · exact hresolved
    · exact hresolved
  | turn tick =>
    left
    change (s.turn tick).settlers[settler]? = _ at hresolved
    rcases s.turn_cases tick with ⟨hsame, _⟩ | ⟨_, _, _, _, _, hsettlers, _⟩
    · rw [hsame] at hresolved
      exact hresolved
    · rw [hsettlers] at hresolved
      exact hresolved
  | wake settler' =>
    change (s.wake settler').settlers[settler]? = _ at hresolved
    have hstep : s.step (.wake settler') = s.wake settler' := rfl
    rw [hstep]
    rcases s.wake_eq settler' with hsame | ⟨tick, o, hsettler, _, hwake⟩
    · rw [hsame] at hresolved
      exact Or.inl hresolved
    · rw [hwake] at hresolved ⊢
      rw [List.getElem?_set] at hresolved
      split at hresolved
      · right
        -- It found no tick to wait for.
        cases hcurrent : s.current with
        | none => exact h.idle hcurrent
        | some tick' =>
          rw [settleFrom, hcurrent] at hresolved
          split at hresolved
          · split at hresolved
            · cases hresolved
            · cases hresolved
          · cases hresolved
      · exact Or.inl hresolved

/-- A call of `run` returns the promise of the tick that is in flight or that it starts. -/
theorem Coherent.returnsTick (h : s.Coherent) (he : s.Admits e) : s.ReturnsTick e := by
  cases e with
  | run settles thrown =>
    unfold ReturnsTick FoundOrStarted IntervalRunner.run
    cases hcurrent : s.current with
    | none =>
      have hlength := congrArg List.length (s.executions_execute settles thrown)
      rw [List.length_append, List.length_singleton] at hlength
      refine ⟨?_, fun tick htick => ?_, fun p _ _ => ⟨rfl, hlength⟩⟩
      · dsimp only
        omega
      rcases htick with hflight | ⟨hge, hlt⟩
      · exact absurd hflight (h.idle hcurrent tick)
      · dsimp only at hlt ⊢
        omega
    | some current =>
      have hnewest := h.newest current hcurrent
      refine ⟨?_, fun tick htick => ?_, fun p hp hfailed => ?_⟩
      · dsimp only
        omega
      · rcases htick with ⟨p, hp, hflight⟩ | ⟨hge, hlt⟩
        · have htick := (h.held tick p hp).mp hflight.held
          rw [hcurrent] at htick
          exact Option.some.inj htick
        · exact absurd hlt (Nat.not_lt.mpr hge)
      · -- The tick kept is the newest, and a failed one is not kept any more.
        have hlast : s.executions[current]? = some p := by
          rw [List.getLast?_eq_getElem?, ← hnewest] at hp
          exact hp
        have hheld := (h.held current p hlast).mpr hcurrent
        exact absurd hheld (he.1 p (List.mem_of_getElem? hlast) hfailed)
  | settle => trivial
  | finish tick o => trivial
  | turn tick => trivial
  | wake settler => trivial

/-- **One step.** A queued continuation leaves less work. -/
theorem Coherent.work_step_lt (h : s.Coherent) (hqueued : s.Queued e) :
    (s.step e).work < s.work := by
  cases e with
  | turn tick =>
    obtain ⟨p, hp, hjobs⟩ := hqueued
    change (s.turn tick).work < s.work
    rcases s.turn_cases tick with ⟨_, hnone⟩ | ⟨q, p', hq, hnext, hexecutions, hsettlers, _⟩
    · exact absurd hjobs (hnone p hp)
    · have hsum := sum_map_set RunPhase.jobs p' hq
      have hless := hnext.jobs_eq
      unfold work
      rw [hexecutions, hsettlers, List.length_set]
      omega
  | wake settler =>
    obtain ⟨tick, o, hsettler, htick⟩ := hqueued
    have hwake : s.step (.wake settler) =
        { s with
          settlers := s.settlers.set settler (if o.Rejects then .rejected else s.settleFrom) } := by
      unfold IntervalRunner.step wake
      dsimp only
      rw [hsettler]
      dsimp only
      rw [htick]
    have hlt : tick < s.executions.length := List.getElem?_eq_some_iff.mp htick |>.1
    have hsum := sum_map_set (waits s.executions.length)
      (if o.Rejects then .rejected else s.settleFrom) hsettler
    have hwaited : waits s.executions.length (.awaiting tick) = s.executions.length - tick := rfl
    have hless : waits s.executions.length (if o.Rejects then .rejected else s.settleFrom) <
        s.executions.length - tick := by
      split
      · exact Nat.sub_pos_of_lt hlt
      · unfold settleFrom
        cases hcurrent : s.current with
        | none => exact Nat.sub_pos_of_lt hlt
        | some current =>
          -- The tick kept is not settled, and no tick is newer.
          have hnewest := h.newest current hcurrent
          have hother : current ≠ tick := by
            rintro rfl
            exact ((h.held current _ htick).mpr hcurrent)
          change s.executions.length - current < _
          omega
    rw [hwake]
    unfold work
    dsimp only
    omega
  | run settles thrown => exact hqueued.elim
  | settle => exact hqueued.elim
  | finish tick o => exact hqueued.elim

/-- **One run.** The queued continuations come to an end. -/
theorem Coherent.drains (h : s.Coherent) {es : List RunnerEvent}
    (hes : Along IntervalRunner.step Queued s es) : es.length ≤ s.work := by
  induction es generalizing s with
  | nil => exact Nat.zero_le _
  | cons e es ih =>
    have hrest := ih (h.step e) hes.2
    have hless := h.work_step_lt hes.1
    rw [List.length_cons]
    omega

/-- Every execution that is over is counted once, as a tick or as a failure. -/
def Counted (s : IntervalRunner) : Prop :=
  (s.executions.map RunPhase.finished).sum = s.ticks + s.failures

/-- **One step.** Every event keeps the counts. -/
theorem Counted.step (h : s.Counted) (e : RunnerEvent) : (s.step e).Counted := by
  unfold Counted at h ⊢
  cases e with
  | run settles thrown =>
    unfold IntervalRunner.step IntervalRunner.run
    cases s.current with
    | some tick => exact h
    | none =>
      dsimp only
      rw [executions_execute, counters_execute, List.map_append, List.sum_append, h]
      rw [List.map_singleton, List.sum_singleton]
  | settle => exact h
  | finish tick o =>
    unfold IntervalRunner.step
    dsimp only
    split
    · next hrunning =>
      have hsum := sum_map_set RunPhase.finished (.ended o) hrunning
      exact hsum.trans h
    · exact h
  | turn tick =>
    change ((s.turn tick).executions.map _).sum = (s.turn tick).ticks + (s.turn tick).failures
    unfold turn
    split
    · next o hended =>
      have hsum := sum_map_set RunPhase.finished (.handled o) hended
      rw [executions_handle, counters_handle, ← h]
      exact hsum
    · next o hhandled =>
      have hsum := sum_map_set RunPhase.finished (.cleared o) hhandled
      exact (Nat.add_right_cancel hsum).trans h
    · next o hcleared =>
      have hsum := sum_map_set RunPhase.finished (.settled o) hcleared
      exact (Nat.add_right_cancel hsum).trans h
    · exact h
  | wake settler =>
    change ((s.wake settler).executions.map _).sum =
      (s.wake settler).ticks + (s.wake settler).failures
    rcases s.wake_eq settler with hsame | ⟨tick, o, _, _, hwake⟩
    · rw [hsame]
      exact h
    · rw [hwake]
      exact h

/-- **Every run.** The counters that `health` reports count every execution that is over. -/
theorem counted_run (es : List RunnerEvent) : (Transition.run step new es).Counted :=
  run_of_step (P := fun _ _ => True) (fun _ e h _ => h.step e) rfl
    (along_of_forall (P := fun _ => True) fun _ _ => trivial)

/-- What holds of a coherent runner whose outcomes `execute` survives. -/
theorem Coherent.sound (h : s.Coherent) (hsurvives : ∀ p ∈ s.executions, p.Survives) :
    s.Sound where
  one_in_flight tick tick' htick htick' := by
    obtain ⟨p, hp, hflight⟩ := htick
    obtain ⟨p', hp', hflight'⟩ := htick'
    have hcurrent := (h.held tick p hp).mp hflight.held
    have hcurrent' := (h.held tick' p' hp').mp hflight'.held
    exact Option.some.inj (hcurrent.symm.trans hcurrent')
  resolves_after tick hresolved hflight := by
    obtain ⟨p, hp, hresolved⟩ := hresolved
    obtain ⟨p', hp', hflight⟩ := hflight
    cases Option.some.inj (hp.symm.trans hp')
    cases p with
    | settled o => exact hflight
    | running => exact hresolved
    | ended o => exact hresolved
    | handled o => exact hresolved
    | cleared o => exact hresolved
  never_rejects tick hrejected := by
    obtain ⟨p, hp, hrejected⟩ := hrejected
    exact (hsurvives p (List.mem_of_getElem? hp)).not_rejected hrejected
  drains es hes := h.drains hes
  resolves hdrained tick hlt := by
    have hp : s.executions[tick]? = some s.executions[tick] := List.getElem?_eq_getElem hlt
    have hidle : ¬ s.executions[tick].Queued := fun hqueued =>
      hdrained (.turn tick) ⟨_, hp, hqueued⟩
    rcases (hsurvives _ (List.mem_of_getElem? hp)).resolved hidle with hrunning | hresolved
    · exact Or.inl (hp.trans (congrArg some hrunning))
    · exact Or.inr ⟨_, hp, hresolved⟩

/-- No event takes a tick away. -/
theorem length_le_step (s : IntervalRunner) (e : RunnerEvent) :
    s.executions.length ≤ (s.step e).executions.length := by
  rcases s.step_cases e with ⟨hexecutions, _⟩ | ⟨_, _, _, _, hexecutions, _⟩ |
    ⟨_, _, _, _, hexecutions, _⟩ | ⟨_, _, _, _, _, _, hexecutions, _⟩
  · rw [hexecutions]
  · rw [hexecutions, List.length_append]
    exact Nat.le_add_right _ _
  · rw [hexecutions, List.length_set]
  · rw [hexecutions, List.length_set]

theorem length_le_run (s : IntervalRunner) (es : List RunnerEvent) :
    s.executions.length ≤ (Transition.run step s es).executions.length := by
  induction es generalizing s with
  | nil => exact Nat.le_refl _
  | cons e es ih => exact (s.length_le_step e).trans (ih (s.step e))

/-- The promise of every tick is kept. -/
theorem Sound.keeps (h : s.Sound) (htick : tick < s.executions.length) : s.Keeps tick :=
  ⟨h.never_rejects tick, fun hdrained => h.resolves hdrained tick htick⟩

end

/-- Two ticks, the first of which fails: a caller joins it, another waits for the runner to
settle, and the timer starts the second after it. -/
def failsOnce : List RunnerEvent :=
  [.run 0 none, .run 0 none, .settle, .finish 0 (.failure .error), .turn 0, .turn 0, .run 0 none,
    .turn 0, .wake 0, .finish 1 .success, .turn 1, .turn 1, .turn 1, .wake 0]

end IntervalRunner

end SilenceWatch
