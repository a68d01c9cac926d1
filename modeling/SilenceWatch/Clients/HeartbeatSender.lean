import SilenceWatch.Library.Run
import Mathlib.Data.Int.Notation
import Mathlib.Data.List.Nodup

/-!
# Sending heartbeats off the job's thread

A pool with one core thread, one more when its queue is full, and a handler that makes
room when both are busy. Threads that submit and threads that deliver take their steps in
any order; a heartbeat is known by the number of its submission.
-/

namespace SilenceWatch

open Transition

/-- What a submission does next, in `ThreadPoolExecutor.execute` and in the handler. -/
inductive SubmitStep where
  /-- Compare the number of workers with the core size. -/
  | enter
  /-- Offer the heartbeat to the queue. -/
  | offer
  /-- It is queued: see that there is a worker. -/
  | recheck
  /-- The queue was full: compare the number of workers with the maximum. -/
  | refused
  /-- In the handler: drop the oldest heartbeat. -/
  | poll
  /-- In the handler: offer the heartbeat again. -/
  | offerAgain
  deriving DecidableEq

/-- A thread of the pool. -/
inductive PoolWorker where
  | idle
  /-- Nothing came for a while: it leaves if there are still as many threads. -/
  | leaving (workerCount : ℕ)
  /-- It was created for a heartbeat, which it has not begun to deliver. -/
  | created (h : ℕ)
  /-- It took a heartbeat from the queue, which it has not begun to deliver. -/
  | taken (h : ℕ)
  | delivering (h : ℕ)
  deriving DecidableEq

/-- The heartbeat of a thread that has not begun to deliver it. -/
def PoolWorker.task? : PoolWorker → Option ℕ
  | .created h => some h
  | .taken h => some h
  | _ => none

/-- The thread has a heartbeat. -/
def PoolWorker.busy : PoolWorker → Bool
  | .idle => false
  | .leaving _ => false
  | _ => true

@[simp] theorem PoolWorker.task?_created (h : ℕ) : (PoolWorker.created h).task? = some h := rfl

@[simp] theorem PoolWorker.task?_taken (h : ℕ) : (PoolWorker.taken h).task? = some h := rfl

@[simp] theorem PoolWorker.task?_delivering (h : ℕ) :
    (PoolWorker.delivering h).task? = none := rfl

@[simp] theorem PoolWorker.busy_idle : PoolWorker.idle.busy = false := rfl

@[simp] theorem PoolWorker.busy_created (h : ℕ) : (PoolWorker.created h).busy = true := rfl

@[simp] theorem PoolWorker.busy_taken (h : ℕ) : (PoolWorker.taken h).busy = true := rfl

@[simp] theorem PoolWorker.busy_delivering (h : ℕ) : (PoolWorker.delivering h).busy = true := rfl

/-- A thread without a heartbeat has none that it could begin. -/
@[simp] theorem PoolWorker.task?_of_not_busy {w : PoolWorker} (h : w.busy = false) :
    w.task? = none := by
  cases w <;> first | rfl | cases h

/-- How a delivery ends: `client.ping` returns, or throws what `deliver` catches, or
throws an `Error` that it does not. -/
inductive DeliveryEnd where
  | accepted
  | refused
  | caught
  | escaped
  deriving DecidableEq

/-- The pool and its counters, with what an observer notes. -/
structure HeartbeatSender where
  /-- The room in the queue. -/
  capacity : ℕ
  queue : List ℕ
  workers : List PoolWorker
  /-- The threads that no longer count and have still to look at the queue. -/
  exiting : ℕ
  /-- The submissions that have not returned. -/
  submitters : List (ℕ × SubmitStep)
  sent : ℕ
  failed : ℕ
  dropped : ℕ
  /-- How many submissions have begun. -/
  submitted : ℕ
  /-- The submissions that have returned, each with the number that had begun by then. -/
  returned : List (ℕ × ℕ)
  /-- The heartbeats whose delivery was started, latest first. -/
  started : List ℕ
  /-- The heartbeats that were discarded, each with the queue before that. -/
  discarded : List (ℕ × List ℕ)
  deriving DecidableEq

/-- The sender of an application that starts. -/
def HeartbeatSender.fresh (queueCapacity : ℤ) : HeartbeatSender :=
  ⟨(max 1 queueCapacity).toNat, [], [], 0, [], 0, 0, 0, 0, [], [], []⟩

/-- A step of some thread. Where it creates a thread, the system may not start it. -/
inductive SenderAction where
  | submit
  | submitter (i : ℕ) (threadStarts : Bool)
  | worker (i : ℕ) (deliveryEnd : DeliveryEnd)
  | timeout (i : ℕ)
  | exit (threadStarts : Bool)
  deriving DecidableEq

namespace HeartbeatSender

/-- `corePoolSize` and `maximumPoolSize`. -/
def corePoolSize : ℕ := 1

def maximumPoolSize : ℕ := 2

variable (s : HeartbeatSender)

/-- A submission returns. -/
def returns (i n : ℕ) : HeartbeatSender :=
  { s with submitters := s.submitters.eraseIdx i, returned := (n, s.submitted) :: s.returned }

/-- A submission goes on. -/
def goesOn (i n : ℕ) (next : SubmitStep) : HeartbeatSender :=
  { s with submitters := s.submitters.set i (n, next) }

/-- `addWorker` with a heartbeat. Where the thread cannot be started, `execute` throws. -/
def addWorker (i n : ℕ) (threadStarts : Bool) : HeartbeatSender :=
  if threadStarts then { s with workers := s.workers ++ [PoolWorker.created n] }.returns i n
  else s.returns i n

/-- `addWorker` without a heartbeat, where there is no worker. -/
def ensureWorker (threadStarts : Bool) : HeartbeatSender :=
  { s with workers := if s.workers = [] ∧ threadStarts = true then [PoolWorker.idle] else s.workers }

/-- The next step of a submission. -/
def stepSubmitter (i n : ℕ) (threadStarts : Bool) : SubmitStep → HeartbeatSender
  | .enter =>
    if s.workers.length < corePoolSize then s.addWorker i n threadStarts else s.goesOn i n .offer
  | .offer =>
    if s.queue.length < s.capacity then
      { s with queue := s.queue ++ [n] }.goesOn i n .recheck
    else s.goesOn i n .refused
  | .recheck => (s.ensureWorker threadStarts).returns i n
  | .refused =>
    if s.workers.length < maximumPoolSize then s.addWorker i n threadStarts
    else s.goesOn i n .poll
  | .poll =>
    { s with
      queue := s.queue.tail
      dropped := s.dropped + 1
      discarded := (s.queue.head?.map fun h => (h, s.queue)).toList ++ s.discarded }.goesOn i n
        .offerAgain
  | .offerAgain =>
    if s.queue.length < s.capacity then { s with queue := s.queue ++ [n] }.returns i n
    else
      { s with dropped := s.dropped + 1, discarded := (n, s.queue) :: s.discarded }.returns i n

/-- The next step of a worker. One that dies of an `Error` is replaced. -/
def stepWorker (i : ℕ) (deliveryEnd : DeliveryEnd) : PoolWorker → HeartbeatSender
  | .idle =>
    match s.queue with
    | [] => s
    | h :: rest => { s with queue := rest, workers := s.workers.set i (.taken h) }
  | .leaving workerCount =>
    if s.workers.length = workerCount then
      { s with workers := s.workers.eraseIdx i, exiting := s.exiting + 1 }
    else { s with workers := s.workers.set i .idle }
  | .created h =>
    { s with workers := s.workers.set i (.delivering h), started := h :: s.started }
  | .taken h =>
    { s with workers := s.workers.set i (.delivering h), started := h :: s.started }
  | .delivering _ =>
    { s with
      workers := s.workers.set i .idle
      sent := if deliveryEnd = .accepted then s.sent + 1 else s.sent
      failed :=
        if deliveryEnd = .refused ∨ deliveryEnd = .caught then s.failed + 1 else s.failed }

/-- An idle worker gives up when nothing came for a while, the last one only if it sees an
empty queue. -/
def stepTimeout (i : ℕ) : PoolWorker → HeartbeatSender
  | .idle =>
    if 1 < s.workers.length ∨ s.queue = [] then
      { s with workers := s.workers.set i (.leaving s.workers.length) }
    else s
  | _ => s

/-- A thread that has left sees whether it has left heartbeats behind. -/
def stepExit (threadStarts : Bool) : HeartbeatSender :=
  if s.exiting = 0 then s
  else
    let s := { s with exiting := s.exiting - 1 }
    if s.queue = [] then s else s.ensureWorker threadStarts

/-- One step. -/
def step : SenderAction → HeartbeatSender
  | .submit =>
    { s with submitters := (s.submitted, .enter) :: s.submitters, submitted := s.submitted + 1 }
  | .submitter i threadStarts =>
    match s.submitters[i]? with
    | some (n, next) => s.stepSubmitter i n threadStarts next
    | none => s
  | .worker i deliveryEnd =>
    match s.workers[i]? with
    | some worker => s.stepWorker i deliveryEnd worker
    | none => s
  | .timeout i =>
    match s.workers[i]? with
    | some worker => s.stepTimeout i worker
    | none => s
  | .exit threadStarts => s.stepExit threadStarts

/-- The submission of `m` returned before the one of `n` began. -/
def Precedes (m n : ℕ) : Prop := ∃ r ∈ s.returned, r.1 = m ∧ r.2 ≤ n

instance : DecidableRel s.Precedes := fun m n => by
  unfold Precedes
  infer_instance

/-- The heartbeats that wait for their thread to begin. -/
def assigned : List ℕ := s.workers.filterMap PoolWorker.task?

/-- How many workers have a heartbeat. -/
def inDelivery : ℕ := s.workers.countP PoolWorker.busy

/-- **Order and accounts.** Deliveries are started in the order of submission, what is
discarded is the oldest heartbeat of the queue, and where no submission is under way
the numbers add up. -/
structure Faithful : Prop where
  order : s.started.Pairwise fun later earlier => ¬ s.Precedes later earlier
  oldest : ∀ d ∈ s.discarded, d.2.head? = some d.1 ∧ ∀ m ∈ d.2.tail, ¬ s.Precedes m d.1
  accounts : s.submitters = [] →
    s.submitted = s.sent + s.failed + s.dropped + s.queue.length + s.inDelivery

/-- The heartbeats that are still to be started. -/
def waiting : List ℕ := s.queue ++ s.assigned

/-- The thread that takes the step finds what it counts on: one that was created for a
heartbeat, which has not been in the queue, begins it in its turn, one that took its
heartbeat from the queue is not overtaken by it, the handler finds a heartbeat to drop
and then room, a thread that is to be created for a heartbeat can be started, and a
delivery does not end in an `Error` that is not caught. -/
def Orderly : SenderAction → Prop
  | .submitter i threadStarts =>
    match s.submitters[i]? with
    | some (_, .enter) => s.workers.length < corePoolSize → threadStarts = true
    | some (_, .refused) => s.workers.length < maximumPoolSize → threadStarts = true
    | some (_, .poll) => s.queue ≠ []
    | some (_, .offerAgain) => s.queue.length < s.capacity
    | _ => True
  | .worker i deliveryEnd =>
    match s.workers[i]? with
    | some (.created h) => ∀ m ∈ s.waiting, ¬ s.Precedes m h
    | some (.taken h) => ∀ m ∈ s.assigned, ¬ s.Precedes m h
    | some (.delivering _) => deliveryEnd ≠ .escaped
    | _ => True
  | _ => True

instance (a : SenderAction) : Decidable (s.Orderly a) := by
  unfold Orderly
  split
  · split <;> infer_instance
  · split <;> infer_instance
  · infer_instance

end HeartbeatSender

section Split

variable {α : Type*}

/-- The element at an index, and the list around it. -/
theorem getElem?_split {l : List α} {i : ℕ} {a : α} (h : l[i]? = some a) :
    ∃ before after, l = before ++ a :: after ∧ (∀ b, l.set i b = before ++ b :: after) ∧
      l.eraseIdx i = before ++ after := by
  induction l generalizing i with
  | nil => simp at h
  | cons first rest ih =>
    cases i with
    | zero =>
      obtain rfl : first = a := by simpa using h
      exact ⟨[], rest, rfl, fun _ => rfl, rfl⟩
    | succ i =>
      obtain ⟨before, after, rfl, hset, herase⟩ := ih (by simpa using h)
      exact ⟨first :: before, after, rfl, fun b => congrArg _ (hset b), congrArg _ herase⟩

end Split

namespace HeartbeatSender

/-- The numbers of the heartbeats that occur anywhere. -/
def known (s : HeartbeatSender) : List ℕ :=
  s.waiting ++ s.started ++ s.submitters.map Prod.fst ++ s.returned.map Prod.fst ++
    s.discarded.map Prod.fst

/-- Every submission has its number, under which it runs or has returned. -/
structure Numbered (s : HeartbeatSender) : Prop where
  lt : ∀ n ∈ s.known, n < s.submitted
  nodup : (s.submitters.map Prod.fst).Nodup
  running : ∀ n ∈ s.submitters.map Prod.fst, n ∉ s.returned.map Prod.fst

/-- The queue is in order, what was taken from it was its head, and nothing waits that
should have been started. -/
structure InOrder (s : HeartbeatSender) : Prop where
  fifo : s.queue.Pairwise fun m n => ¬ s.Precedes n m
  taken : ∀ h, .taken h ∈ s.workers → ∀ m ∈ s.queue, ¬ s.Precedes m h
  oldest : ∀ d ∈ s.discarded, d.2.head? = some d.1 ∧ ∀ m ∈ d.2.tail, ¬ s.Precedes m d.1
  ahead : ∀ n ∈ s.started, ∀ m ∈ s.waiting, ¬ s.Precedes m n
  order : s.started.Pairwise fun later earlier => ¬ s.Precedes later earlier

/-- The submissions that have their heartbeat still in hand. -/
def inHand (s : HeartbeatSender) : ℕ := s.submitters.countP fun x => x.2 ≠ .recheck

/-- The numbers add up, submissions under way included. -/
def Accounted (s : HeartbeatSender) : Prop :=
  s.submitted = s.sent + s.failed + s.dropped + s.queue.length + s.inDelivery + s.inHand

section Steps

variable {s : HeartbeatSender} {i n : ℕ}

/-- A submission that returns precedes only what is still to come. -/
theorem precedes_cons {returned : List (ℕ × ℕ)} {m k : ℕ} (hk : k < s.submitted)
    (hreturned : returned = (n, s.submitted) :: s.returned) :
    (∃ r ∈ returned, r.1 = m ∧ r.2 ≤ k) ↔ s.Precedes m k := by
  subst hreturned
  unfold Precedes
  constructor
  · rintro ⟨r, hr, hm, hle⟩
    rcases List.mem_cons.mp hr with rfl | hr
    · exact absurd hle (Nat.not_le_of_lt hk)
    · exact ⟨r, hr, hm, hle⟩
  · rintro ⟨r, hr, hm, hle⟩
    exact ⟨r, List.mem_cons_of_mem _ hr, hm, hle⟩

theorem mem_running {before after : List (ℕ × SubmitStep)} {now : SubmitStep}
    (hsplit : s.submitters = before ++ (n, now) :: after) : n ∈ s.submitters.map Prod.fst := by
  rw [hsplit, List.map_append, List.map_cons]
  exact List.mem_append_right _ List.mem_cons_self

/-- A submission under way precedes nothing. -/
theorem Numbered.not_precedes (h : s.Numbered) (hn : n ∈ s.submitters.map Prod.fst) (k : ℕ) :
    ¬ s.Precedes n k := by
  rintro ⟨r, hr, rfl, _⟩
  exact h.running _ hn (List.mem_map_of_mem hr)

/-- What an orderly step can do. -/
inductive Moves (s : HeartbeatSender) : HeartbeatSender → Prop
  | nothing : Moves s s
  | submits : Moves s (s.step .submit)
  | goesOn {before after : List (ℕ × SubmitStep)} {n : ℕ} {now next : SubmitStep} :
      s.submitters = before ++ (n, now) :: after → now ≠ .recheck → next ≠ .recheck →
      Moves s { s with submitters := before ++ (n, next) :: after }
  | queues {before after : List (ℕ × SubmitStep)} {n : ℕ} :
      s.submitters = before ++ (n, .offer) :: after →
      Moves s { s with
        queue := s.queue ++ [n], submitters := before ++ (n, .recheck) :: after }
  | rechecks {before after : List (ℕ × SubmitStep)} {n : ℕ} :
      s.submitters = before ++ (n, .recheck) :: after →
      ∀ threadStarts, Moves s { s.ensureWorker threadStarts with
        submitters := before ++ after, returned := (n, s.submitted) :: s.returned }
  | assigns {before after : List (ℕ × SubmitStep)} {n : ℕ} {now : SubmitStep} :
      s.submitters = before ++ (n, now) :: after → now ≠ .recheck →
      Moves s { s with
        workers := s.workers ++ [.created n]
        submitters := before ++ after, returned := (n, s.submitted) :: s.returned }
  | drops {before after : List (ℕ × SubmitStep)} {n h : ℕ} {rest : List ℕ} :
      s.submitters = before ++ (n, .poll) :: after → s.queue = h :: rest →
      Moves s { s with
        queue := rest, dropped := s.dropped + 1, discarded := (h, s.queue) :: s.discarded
        submitters := before ++ (n, .offerAgain) :: after }
  | replaces {before after : List (ℕ × SubmitStep)} {n : ℕ} :
      s.submitters = before ++ (n, .offerAgain) :: after →
      Moves s { s with
        queue := s.queue ++ [n]
        submitters := before ++ after, returned := (n, s.submitted) :: s.returned }
  | takes {before after : List PoolWorker} {h : ℕ} {rest : List ℕ} :
      s.workers = before ++ .idle :: after → s.queue = h :: rest →
      Moves s { s with queue := rest, workers := before ++ .taken h :: after }
  | begins {before after : List PoolWorker} {h : ℕ} :
      s.workers = before ++ .created h :: after → (∀ m ∈ s.waiting, ¬ s.Precedes m h) →
      Moves s { s with
        workers := before ++ .delivering h :: after, started := h :: s.started }
  | beginsTaken {before after : List PoolWorker} {h : ℕ} :
      s.workers = before ++ .taken h :: after → (∀ m ∈ s.assigned, ¬ s.Precedes m h) →
      Moves s { s with
        workers := before ++ .delivering h :: after, started := h :: s.started }
  | sends {before after : List PoolWorker} {h : ℕ} :
      s.workers = before ++ .delivering h :: after →
      Moves s { s with workers := before ++ .idle :: after, sent := s.sent + 1 }
  | fails {before after : List PoolWorker} {h : ℕ} :
      s.workers = before ++ .delivering h :: after →
      Moves s { s with workers := before ++ .idle :: after, failed := s.failed + 1 }
  | rests {before after : List PoolWorker} {now next : PoolWorker} :
      s.workers = before ++ now :: after → now.busy = false → next.busy = false →
      Moves s { s with workers := before ++ next :: after }
  | leaves {before after : List PoolWorker} {now : PoolWorker} :
      s.workers = before ++ now :: after → now.busy = false →
      Moves s { s with workers := before ++ after, exiting := s.exiting + 1 }
  | exits (exiting : ℕ) : Moves s { s with exiting := exiting }
  | replaced (exiting : ℕ) (threadStarts : Bool) :
      Moves s { s.ensureWorker threadStarts with exiting := exiting }

/-- A heartbeat for which a thread is created, if one can be started. -/
theorem moves_addWorker {now : SubmitStep} {threadStarts : Bool}
    (hget : s.submitters[i]? = some (n, now)) (hnow : now ≠ .recheck)
    (hstarts : threadStarts = true) : s.Moves (s.addWorker i n threadStarts) := by
  obtain ⟨before, after, hsplit, _, herase⟩ := getElem?_split hget
  rw [addWorker, if_pos hstarts, returns, herase]
  exact Moves.assigns hsplit hnow

/-- The step of a submission. -/
theorem moves_stepSubmitter {next : SubmitStep} {threadStarts : Bool}
    (hget : s.submitters[i]? = some (n, next))
    (horderly : s.Orderly (.submitter i threadStarts)) :
    s.Moves (s.stepSubmitter i n threadStarts next) := by
  obtain ⟨before, after, hsplit, hset, herase⟩ := getElem?_split hget
  unfold Orderly at horderly
  dsimp only at horderly
  rw [hget] at horderly
  cases next with
  | enter =>
    unfold stepSubmitter
    dsimp only
    split
    · next hfew => exact moves_addWorker hget (by decide) (horderly hfew)
    · rw [goesOn, hset]
      exact Moves.goesOn hsplit (by decide) (by decide)
  | offer =>
    unfold stepSubmitter
    dsimp only
    split
    · rw [goesOn, hset]
      exact Moves.queues hsplit
    · rw [goesOn, hset]
      exact Moves.goesOn hsplit (by decide) (by decide)
  | recheck =>
    rw [stepSubmitter, ensureWorker, returns, herase]
    exact Moves.rechecks hsplit threadStarts
  | refused =>
    unfold stepSubmitter
    dsimp only
    split
    · next hfew => exact moves_addWorker hget (by decide) (horderly hfew)
    · rw [goesOn, hset]
      exact Moves.goesOn hsplit (by decide) (by decide)
  | poll =>
    obtain ⟨h, rest, hqueue⟩ := List.exists_cons_of_ne_nil horderly
    have hmove : s.stepSubmitter i n threadStarts .poll = { s with
        queue := rest, dropped := s.dropped + 1, discarded := (h, s.queue) :: s.discarded
        submitters := before ++ (n, .offerAgain) :: after } := by
      rw [stepSubmitter, goesOn, hset]
      simp [hqueue]
    rw [hmove]
    exact Moves.drops hsplit hqueue
  | offerAgain =>
    have hroom : s.queue.length < s.capacity := horderly
    unfold stepSubmitter
    dsimp only
    rw [if_pos hroom, returns, herase]
    exact Moves.replaces hsplit

/-- The step of a worker. -/
theorem moves_stepWorker {worker : PoolWorker} {deliveryEnd : DeliveryEnd}
    (hget : s.workers[i]? = some worker) (horderly : s.Orderly (.worker i deliveryEnd)) :
    s.Moves (s.stepWorker i deliveryEnd worker) := by
  obtain ⟨before, after, hsplit, hset, herase⟩ := getElem?_split hget
  unfold Orderly at horderly
  dsimp only at horderly
  rw [hget] at horderly
  cases worker with
  | idle =>
    unfold stepWorker
    dsimp only
    cases hqueue : s.queue with
    | nil => exact Moves.nothing
    | cons h rest =>
      dsimp only
      rw [hset]
      exact Moves.takes hsplit hqueue
  | leaving workerCount =>
    unfold stepWorker
    dsimp only
    split
    · rw [herase]
      exact Moves.leaves hsplit rfl
    · rw [hset]
      exact Moves.rests hsplit rfl rfl
  | created h =>
    rw [stepWorker, hset]
    exact Moves.begins hsplit horderly
  | taken h =>
    rw [stepWorker, hset]
    exact Moves.beginsTaken hsplit horderly
  | delivering h =>
    rw [stepWorker, hset]
    cases deliveryEnd with
    | accepted => exact Moves.sends hsplit
    | refused => exact Moves.fails hsplit
    | caught => exact Moves.fails hsplit
    | escaped => exact absurd rfl horderly

/-- A worker that waits no longer. -/
theorem moves_stepTimeout {worker : PoolWorker} (hget : s.workers[i]? = some worker) :
    s.Moves (s.stepTimeout i worker) := by
  obtain ⟨before, after, hsplit, hset, _⟩ := getElem?_split hget
  unfold stepTimeout
  split
  · split
    · rw [hset]
      exact Moves.rests hsplit rfl rfl
    · exact Moves.nothing
  · exact Moves.nothing

/-- A thread that has left. -/
theorem moves_stepExit (threadStarts : Bool) : s.Moves (s.stepExit threadStarts) := by
  unfold stepExit
  split
  · exact Moves.nothing
  · dsimp only
    split
    · exact Moves.exits _
    · exact Moves.replaced _ threadStarts

/-- **What an orderly step can do.** -/
theorem moves_step {a : SenderAction} (horderly : s.Orderly a) : s.Moves (s.step a) := by
  cases a with
  | submit => exact Moves.submits
  | submitter i threadStarts =>
    unfold step
    dsimp only
    cases hget : s.submitters[i]? with
    | none => exact Moves.nothing
    | some x => exact moves_stepSubmitter hget horderly
  | worker i deliveryEnd =>
    unfold step
    dsimp only
    cases hget : s.workers[i]? with
    | none => exact Moves.nothing
    | some worker => exact moves_stepWorker hget horderly
  | timeout i =>
    unfold step
    dsimp only
    cases hget : s.workers[i]? with
    | none => exact Moves.nothing
    | some worker => exact moves_stepTimeout hget
  | exit threadStarts => exact moves_stepExit threadStarts

/-- A thread in place of none has no heartbeat. -/
theorem assigned_ensureWorker (threadStarts : Bool) :
    (s.ensureWorker threadStarts).assigned = s.assigned := by
  unfold ensureWorker assigned
  split
  · next hnone => rw [hnone.1]; rfl
  · rfl

theorem assigned_ensureWorker_subset (threadStarts : Bool) :
    (s.ensureWorker threadStarts).assigned ⊆ s.assigned := by
  rw [assigned_ensureWorker]
  exact List.Subset.refl _

theorem inDelivery_ensureWorker (threadStarts : Bool) :
    (s.ensureWorker threadStarts).inDelivery = s.inDelivery := by
  unfold ensureWorker inDelivery
  split
  · next hnone => rw [hnone.1]; rfl
  · rfl

theorem taken_of_ensureWorker {threadStarts : Bool} {h : ℕ}
    (htaken : .taken h ∈ (s.ensureWorker threadStarts).workers) : .taken h ∈ s.workers := by
  unfold ensureWorker at htaken
  dsimp only at htaken
  split at htaken
  · simp at htaken
  · exact htaken

section Split

variable {s' : HeartbeatSender} {before after replaced : List PoolWorker} {now : PoolWorker}

/-- In place of a thread there are such that have nothing to begin. -/
theorem assigned_of_split (hsplit : s.workers = before ++ now :: after)
    (hsplit' : s'.workers = before ++ (replaced ++ after))
    (hreplaced : ∀ w ∈ replaced, w.task? = none) : s'.assigned ⊆ s.assigned := by
  intro m hm
  unfold assigned at hm ⊢
  rw [List.mem_filterMap] at hm ⊢
  obtain ⟨w, hw, htask⟩ := hm
  refine ⟨w, ?_, htask⟩
  rw [hsplit', List.mem_append, List.mem_append] at hw
  rw [hsplit, List.mem_append, List.mem_cons]
  rcases hw with hw | hw | hw
  · exact Or.inl hw
  · cases htask.symm.trans (hreplaced w hw)
  · exact Or.inr (Or.inr hw)

theorem taken_of_split {h : ℕ} (hsplit : s.workers = before ++ now :: after)
    (hreplaced : ∀ w ∈ replaced, w.task? = none)
    (htaken : .taken h ∈ before ++ (replaced ++ after)) : .taken h ∈ s.workers := by
  rw [List.mem_append, List.mem_append] at htaken
  rw [hsplit, List.mem_append, List.mem_cons]
  rcases htaken with htaken | htaken | htaken
  · exact Or.inl htaken
  · cases hreplaced _ htaken
  · exact Or.inr (Or.inr htaken)

/-- A worker that is gone leaves the rest of what is assigned. -/
theorem assigned_of_gone (hsplit : s.workers = before ++ now :: after)
    (hsplit' : s'.workers = before ++ after) : s'.assigned ⊆ s.assigned := by
  have hsame : s'.workers = before ++ ([] ++ after) := hsplit'
  exact assigned_of_split hsplit hsame (List.forall_mem_nil _)

theorem taken_of_gone {h : ℕ} (hsplit : s.workers = before ++ now :: after)
    (htaken : .taken h ∈ before ++ after) : .taken h ∈ s.workers := by
  have hsame : .taken h ∈ before ++ ([] ++ after) := htaken
  exact taken_of_split hsplit (List.forall_mem_nil _) hsame

theorem mem_assigned {h : ℕ} (hsplit : s.workers = before ++ now :: after)
    (hnow : now.task? = some h) : h ∈ s.assigned := by
  unfold assigned
  rw [List.mem_filterMap]
  refine ⟨now, ?_, hnow⟩
  rw [hsplit]
  exact List.mem_append_right _ List.mem_cons_self

/-- A thread with nothing to begin, in place of one. -/
theorem task?_singleton {next : PoolWorker} (h : next.task? = none) :
    ∀ w ∈ [next], w.task? = none :=
  List.forall_mem_singleton.mpr h

end Split

theorem mem_known {m : ℕ} : m ∈ s.known ↔ m ∈ s.queue ∨ m ∈ s.assigned ∨ m ∈ s.started ∨
    m ∈ s.submitters.map Prod.fst ∨ m ∈ s.returned.map Prod.fst ∨
    m ∈ s.discarded.map Prod.fst := by
  unfold known waiting
  simp only [List.mem_append, or_assoc]

theorem Numbered.of_running {s' : HeartbeatSender} (h : s.Numbered)
    (hsubmitted : s'.submitted = s.submitted) (hknown : s'.known ⊆ s.known)
    (hrunning : s'.submitters.map Prod.fst = s.submitters.map Prod.fst)
    (hreturned : s'.returned = s.returned) : s'.Numbered where
  lt m hm := hsubmitted ▸ h.lt m (hknown hm)
  nodup := hrunning ▸ h.nodup
  running := by
    rw [hrunning, hreturned]
    exact h.running

theorem Numbered.of_returns {s' : HeartbeatSender} (h : s.Numbered)
    {before after : List (ℕ × SubmitStep)} {now : SubmitStep}
    (hsplit : s.submitters = before ++ (n, now) :: after)
    (hsubmitted : s'.submitted = s.submitted) (hknown : s'.known ⊆ s.known)
    (hrunning : s'.submitters = before ++ after)
    (hreturned : s'.returned = (n, s.submitted) :: s.returned) : s'.Numbered := by
  have hnodup := h.nodup
  have hrest := h.running
  rw [hsplit, List.map_append, List.map_cons] at hnodup hrest
  refine ⟨fun m hm => hsubmitted ▸ h.lt m (hknown hm), ?_, ?_⟩
  · rw [hrunning, List.map_append]
    exact hnodup.sublist ((List.sublist_cons_self _ _).append_left _)
  · rw [hrunning, hreturned, List.map_append, List.map_cons]
    intro m hm hmem
    rcases List.mem_cons.mp hmem with rfl | hmem
    · exact (List.nodup_cons.mp (List.nodup_middle.mp hnodup)).1 (by rwa [List.mem_append] at hm ⊢)
    · refine hrest m ?_ hmem
      rw [List.mem_append] at hm ⊢
      exact hm.imp_right (List.mem_cons_of_mem _)

/-- A step of a thread of the pool keeps the numbers. -/
theorem Numbered.of_worker {s' : HeartbeatSender} (h : s.Numbered)
    (hsubmitted : s'.submitted = s.submitted) (hsubmitters : s'.submitters = s.submitters)
    (hreturned : s'.returned = s.returned) (hdiscarded : s'.discarded = s.discarded)
    (hqueue : s'.queue = s.queue) (hassigned : s'.assigned ⊆ s.assigned)
    (hstarted : ∀ m ∈ s'.started, m ∈ s.assigned ∨ m ∈ s.started) : s'.Numbered := by
  refine h.of_running hsubmitted (fun m hm => ?_) (by rw [hsubmitters]) hreturned
  rw [mem_known, hqueue, hsubmitters, hreturned, hdiscarded] at hm
  rw [mem_known]
  have := @hassigned m
  have := hstarted m
  tauto

/-- An orderly step keeps the numbers. -/
theorem Numbered.moves {s' : HeartbeatSender} (h : s.Numbered) (hmoves : s.Moves s') :
    s'.Numbered := by
  cases hmoves with
  | nothing => exact h
  | submits =>
    have hnew : ∀ m ∈ s.known, m ≠ s.submitted := fun m hm => Nat.ne_of_lt (h.lt m hm)
    refine ⟨fun m hm => ?_, ?_, ?_⟩
    · have hm' : m = s.submitted ∨ m ∈ s.known := by
        rw [mem_known] at hm ⊢
        simp only [step, assigned, List.map_cons, List.mem_cons] at hm ⊢
        tauto
      rcases hm' with rfl | hm'
      · exact Nat.lt_succ_self _
      · exact Nat.lt_succ_of_lt (h.lt m hm')
    · refine List.nodup_cons.mpr ⟨fun hm => hnew _ ?_ rfl, h.nodup⟩
      exact mem_known.mpr (by tauto)
    · intro m hm hreturned
      rcases List.mem_cons.mp hm with rfl | hm
      · exact hnew _ (mem_known.mpr (by tauto)) rfl
      · exact h.running m hm hreturned
  | goesOn hsplit _ _ =>
    refine h.of_running rfl (fun m hm => ?_) ?_ rfl
    · rw [mem_known] at hm ⊢
      simpa only [hsplit, assigned, List.map_append, List.map_cons] using hm
    · rw [hsplit, List.map_append, List.map_append, List.map_cons, List.map_cons]
  | queues hsplit =>
    refine h.of_running rfl (fun m hm => ?_) ?_ rfl
    · rw [mem_known] at hm ⊢
      simp only [hsplit, assigned, List.map_append, List.map_cons, List.mem_append, List.mem_cons,
        List.not_mem_nil] at hm ⊢
      tauto
    · rw [hsplit, List.map_append, List.map_append, List.map_cons, List.map_cons]
  | rechecks hsplit threadStarts =>
    refine h.of_returns hsplit rfl (fun m hm => ?_) rfl rfl
    have hassigned := assigned_ensureWorker (s := s) threadStarts
    rw [mem_known] at hm ⊢
    rw [← hassigned]
    simp only [hsplit, List.map_append, List.map_cons, List.mem_append, List.mem_cons] at hm ⊢
    rcases hm with hm | hm | hm
    · exact Or.inl hm
    · exact Or.inr (Or.inl hm)
    · exact Or.inr (Or.inr (by simp only [ensureWorker] at hm; tauto))
  | assigns hsplit _ =>
    refine h.of_returns hsplit rfl (fun m hm => ?_) rfl rfl
    rw [mem_known] at hm ⊢
    simp only [hsplit, assigned, List.filterMap_append, List.filterMap_cons,
      PoolWorker.task?_created, List.filterMap_nil, List.map_append, List.map_cons,
      List.mem_append, List.mem_cons, List.not_mem_nil] at hm ⊢
    tauto
  | drops hsplit hqueue =>
    refine h.of_running rfl (fun m hm => ?_) ?_ rfl
    · rw [mem_known] at hm ⊢
      simp only [hsplit, hqueue, assigned, List.map_append, List.map_cons, List.mem_append,
        List.mem_cons] at hm ⊢
      tauto
    · rw [hsplit, List.map_append, List.map_append, List.map_cons, List.map_cons]
  | replaces hsplit =>
    refine h.of_returns hsplit rfl (fun m hm => ?_) rfl rfl
    rw [mem_known] at hm ⊢
    simp only [hsplit, assigned, List.map_append, List.map_cons, List.mem_append, List.mem_cons,
      List.not_mem_nil] at hm ⊢
    tauto
  | takes hsplit hqueue =>
    refine h.of_running rfl (fun m hm => ?_) rfl rfl
    rw [mem_known] at hm ⊢
    simp only [hsplit, hqueue, assigned, List.filterMap_append, List.filterMap_cons,
      PoolWorker.task?_of_not_busy PoolWorker.busy_idle, PoolWorker.task?_taken, List.mem_append,
      List.mem_cons] at hm ⊢
    tauto
  | begins hsplit _ =>
    refine h.of_worker rfl rfl rfl rfl rfl (assigned_of_split hsplit rfl (task?_singleton rfl))
      fun m hm => ?_
    refine (List.mem_cons.mp hm).imp_left ?_
    rintro rfl
    exact mem_assigned hsplit rfl
  | beginsTaken hsplit _ =>
    refine h.of_worker rfl rfl rfl rfl rfl (assigned_of_split hsplit rfl (task?_singleton rfl))
      fun m hm => ?_
    refine (List.mem_cons.mp hm).imp_left ?_
    rintro rfl
    exact mem_assigned hsplit rfl
  | sends hsplit =>
    exact h.of_worker rfl rfl rfl rfl rfl (assigned_of_split hsplit rfl (task?_singleton rfl))
      fun m hm => Or.inr hm
  | fails hsplit =>
    exact h.of_worker rfl rfl rfl rfl rfl (assigned_of_split hsplit rfl (task?_singleton rfl))
      fun m hm => Or.inr hm
  | rests hsplit _ hnext =>
    exact h.of_worker rfl rfl rfl rfl rfl (assigned_of_split hsplit rfl
      (task?_singleton (PoolWorker.task?_of_not_busy hnext))) fun m hm => Or.inr hm
  | leaves hsplit _ =>
    exact h.of_worker rfl rfl rfl rfl rfl (assigned_of_gone hsplit rfl) fun m hm => Or.inr hm
  | exits exiting =>
    exact h.of_worker rfl rfl rfl rfl rfl (List.Subset.refl _) fun m hm => Or.inr hm
  | replaced exiting threadStarts =>
    exact h.of_worker rfl rfl rfl rfl rfl (assigned_ensureWorker_subset threadStarts)
      fun m hm => Or.inr hm

/-- Where the queue and what waits only lose heartbeats, or gain the one of a submission
under way, the order is kept. -/
theorem InOrder.of_joining {s' : HeartbeatSender} (h : s.InOrder) (hnumbered : s.Numbered)
    (hprecedes : ∀ m, ∀ k < s.submitted, s'.Precedes m k → s.Precedes m k)
    (hqueue : s'.queue.Sublist s.queue ∨
      ∃ n ∈ s.submitters.map Prod.fst, s'.queue = s.queue ++ [n])
    (htaken : ∀ h, .taken h ∈ s'.workers → .taken h ∈ s.workers)
    (hwaiting : ∀ m ∈ s'.waiting, m ∈ s.waiting ∨ m ∈ s.submitters.map Prod.fst)
    (hstarted : s'.started = s.started) (hdiscarded : s'.discarded = s.discarded) :
    s'.InOrder := by
  have hkept : ∀ {m k : ℕ}, k ∈ s.known → ¬ s.Precedes m k → ¬ s'.Precedes m k :=
    fun hk hnot hm => hnot (hprecedes _ _ (hnumbered.lt _ hk) hm)
  have hqueued : ∀ m ∈ s.queue, m ∈ s.known := fun m hm => mem_known.mpr (Or.inl hm)
  have hfifo : s.queue.Pairwise fun m n => ¬ s'.Precedes n m :=
    h.fifo.imp_of_mem fun hm _ hnot => hkept (hqueued _ hm) hnot
  have hdone : ∀ n ∈ s.started, n ∈ s.known := fun n hn => mem_known.mpr (by tauto)
  have hheld : ∀ n, .taken n ∈ s.workers → n ∈ s.known := fun n hn =>
    mem_known.mpr (Or.inr (Or.inl (List.mem_filterMap.mpr ⟨_, hn, rfl⟩)))
  refine ⟨?_, ?_, ?_, ?_, ?_⟩
  · rcases hqueue with hqueue | ⟨n, hn, hqueue⟩
    · exact hfifo.sublist hqueue
    · rw [hqueue]
      refine List.pairwise_append.mpr ⟨hfifo, List.pairwise_singleton _ _, fun m hm k hk => ?_⟩
      obtain rfl := List.mem_singleton.mp hk
      exact hkept (hqueued m hm) (hnumbered.not_precedes hn m)
  · intro n hn m hm
    have hn' := htaken n hn
    have hm' : m ∈ s.queue ∨ m ∈ s.submitters.map Prod.fst := by
      rcases hqueue with hqueue | ⟨k, hk, hqueue⟩
      · exact Or.inl (hqueue.subset hm)
      · rw [hqueue] at hm
        refine (List.mem_append.mp hm).imp_right fun hm => ?_
        rwa [List.mem_singleton.mp hm]
    rcases hm' with hm' | hm'
    · exact hkept (hheld n hn') (h.taken n hn' m hm')
    · exact hkept (hheld n hn') (hnumbered.not_precedes hm' n)
  · rw [hdiscarded]
    intro d hd
    refine ⟨(h.oldest d hd).1, fun m hm => hkept ?_ ((h.oldest d hd).2 m hm)⟩
    have := List.mem_map_of_mem (f := Prod.fst) hd
    exact mem_known.mpr (by tauto)
  · rw [hstarted]
    intro n hn m hm
    rcases hwaiting m hm with hm | hm
    · exact hkept (hdone n hn) (h.ahead n hn m hm)
    · exact hkept (hdone n hn) (hnumbered.not_precedes hm n)
  · rw [hstarted]
    exact h.order.imp_of_mem fun _ hn hnot => hkept (hdone _ hn) hnot

/-- A step of a thread of the pool that begins nothing keeps the order. -/
theorem InOrder.of_worker {s' : HeartbeatSender} (h : s.InOrder) (hnumbered : s.Numbered)
    (hreturned : s'.returned = s.returned) (hqueue : s'.queue = s.queue)
    (hassigned : s'.assigned ⊆ s.assigned)
    (htaken : ∀ h, .taken h ∈ s'.workers → .taken h ∈ s.workers)
    (hstarted : s'.started = s.started) (hdiscarded : s'.discarded = s.discarded) :
    s'.InOrder := by
  refine h.of_joining hnumbered (fun m k _ hm => ?_) (Or.inl (by rw [hqueue])) htaken
    (fun m hm => Or.inl ?_) hstarted hdiscarded
  · unfold Precedes at hm ⊢
    rwa [hreturned] at hm
  · unfold waiting at hm ⊢
    rw [hqueue, List.mem_append] at hm
    exact List.mem_append.mpr (hm.imp_right fun hm => hassigned hm)

/-- A heartbeat that is begun in its turn. -/
theorem InOrder.of_begins (h : s.InOrder) {before after : List PoolWorker} {now : PoolWorker}
    {begun : ℕ} (hsplit : s.workers = before ++ now :: after) (hnow : now.task? = some begun)
    (hturn : ∀ m ∈ s.waiting, ¬ s.Precedes m begun) :
    InOrder { s with
      workers := before ++ .delivering begun :: after, started := begun :: s.started } := by
  have hassigned : HeartbeatSender.assigned { s with
      workers := before ++ .delivering begun :: after, started := begun :: s.started } ⊆
        s.assigned :=
    assigned_of_split hsplit rfl (task?_singleton rfl)
  have hbegun : begun ∈ s.waiting := List.mem_append_right _ (mem_assigned hsplit hnow)
  refine ⟨h.fifo, fun n hn => h.taken n (taken_of_split hsplit (task?_singleton rfl) hn),
    h.oldest, fun n hn m hm => ?_, List.pairwise_cons.mpr ⟨?_, h.order⟩⟩
  · have hm' : m ∈ s.waiting :=
      List.mem_append.mpr ((List.mem_append.mp hm).imp_right fun hm => hassigned hm)
    rcases List.mem_cons.mp hn with rfl | hn
    · exact hturn m hm'
    · exact h.ahead n hn m hm'
  · exact fun n hn => h.ahead n hn begun hbegun

/-- An orderly step keeps the order. -/
theorem InOrder.moves {s' : HeartbeatSender} (h : s.InOrder) (hnumbered : s.Numbered)
    (hmoves : s.Moves s') : s'.InOrder := by
  cases hmoves with
  | nothing => exact h
  | submits =>
    exact h.of_worker hnumbered rfl rfl (List.Subset.refl _) (fun _ hn => hn) rfl rfl
  | goesOn hsplit _ _ =>
    exact h.of_worker hnumbered rfl rfl (List.Subset.refl _) (fun _ hn => hn) rfl rfl
  | queues hsplit =>
    have hn := mem_running hsplit
    refine h.of_joining hnumbered (fun _ _ _ hm => hm) (Or.inr ⟨_, hn, rfl⟩) (fun _ hn => hn)
      (fun m hm => ?_) rfl rfl
    simp only [waiting, assigned, List.mem_append, List.mem_singleton] at hm ⊢
    rcases hm with (hm | rfl) | hm
    · exact Or.inl (Or.inl hm)
    · exact Or.inr hn
    · exact Or.inl (Or.inr hm)
  | rechecks hsplit threadStarts =>
    refine h.of_joining hnumbered (fun _ _ hk => (precedes_cons hk rfl).mp)
      (Or.inl (List.Sublist.refl _)) (fun n hn => taken_of_ensureWorker hn)
      (fun m hm => Or.inl ?_) rfl rfl
    rw [waiting, List.mem_append, ← assigned_ensureWorker threadStarts]
    exact List.mem_append.mp hm
  | assigns hsplit _ =>
    have hn := mem_running hsplit
    refine h.of_joining hnumbered (fun _ _ hk => (precedes_cons hk rfl).mp)
      (Or.inl (List.Sublist.refl _)) (fun n hn => ?_) (fun m hm => ?_) rfl rfl
    · simpa using hn
    · simp only [waiting, assigned, List.filterMap_append, List.filterMap_cons,
        PoolWorker.task?_created, List.filterMap_nil, List.mem_append,
        List.mem_singleton] at hm ⊢
      rcases hm with hm | hm | rfl
      · exact Or.inl (Or.inl hm)
      · exact Or.inl (Or.inr hm)
      · exact Or.inr hn
  | drops hsplit hqueue =>
    have hfifo := h.fifo
    rw [hqueue] at hfifo
    obtain ⟨hfirst, hrest⟩ := List.pairwise_cons.mp hfifo
    have hqueued {m : ℕ} (hm : m ∈ s.queue.tail) : m ∈ s.queue := List.mem_of_mem_tail hm
    rw [hqueue] at hqueued
    refine ⟨hrest, fun n hn m hm => h.taken n hn m ?_, ?_, fun n hn m hm => h.ahead n hn m ?_,
      h.order⟩
    · rw [hqueue]
      exact hqueued hm
    · intro d hd
      rcases List.mem_cons.mp hd with rfl | hd
      · rw [hqueue]
        exact ⟨rfl, hfirst⟩
      · exact h.oldest d hd
    · unfold waiting at hm ⊢
      rw [hqueue]
      exact List.mem_cons_of_mem _ hm
  | replaces hsplit =>
    have hn := mem_running hsplit
    refine h.of_joining hnumbered (fun _ _ hk => (precedes_cons hk rfl).mp)
      (Or.inr ⟨_, hn, rfl⟩) (fun _ hn => hn) (fun m hm => ?_) rfl rfl
    simp only [waiting, assigned, List.mem_append, List.mem_singleton] at hm ⊢
    rcases hm with (hm | rfl) | hm
    · exact Or.inl (Or.inl hm)
    · exact Or.inr hn
    · exact Or.inl (Or.inr hm)
  | @takes before after head rest hsplit hqueue =>
    have hfifo := h.fifo
    rw [hqueue] at hfifo
    obtain ⟨hfirst, hrest⟩ := List.pairwise_cons.mp hfifo
    refine ⟨hrest, fun n hn m hm => ?_, h.oldest, fun n hn m hm => h.ahead n hn m ?_, h.order⟩
    -- The head of the queue is what nothing behind it precedes.
    · rcases List.mem_append.mp hn with hn | hn
      · exact h.taken n (hsplit ▸ List.mem_append_left _ hn) m (hqueue ▸ List.mem_cons_of_mem _ hm)
      · rcases List.mem_cons.mp hn with hn | hn
        · obtain rfl : n = head := by simpa using hn
          exact hfirst m hm
        · exact h.taken n (hsplit ▸ List.mem_append_right _ (List.mem_cons_of_mem _ hn)) m
            (hqueue ▸ List.mem_cons_of_mem _ hm)
    · simp only [waiting, assigned, hsplit, hqueue, List.filterMap_append, List.filterMap_cons,
        PoolWorker.task?_of_not_busy PoolWorker.busy_idle, PoolWorker.task?_taken,
        List.mem_append, List.mem_cons] at hm ⊢
      tauto
  | begins hsplit hturn => exact h.of_begins hsplit rfl hturn
  | @beginsTaken before after begun hsplit hturn =>
    refine h.of_begins hsplit rfl fun m hm => ?_
    rcases List.mem_append.mp hm with hm | hm
    · refine h.taken begun ?_ m hm
      rw [hsplit]
      exact List.mem_append_right _ List.mem_cons_self
    · exact hturn m hm
  | sends hsplit =>
    exact h.of_worker hnumbered rfl rfl (assigned_of_split hsplit rfl (task?_singleton rfl))
      (fun _ hn => taken_of_split hsplit (task?_singleton rfl) hn) rfl rfl
  | fails hsplit =>
    exact h.of_worker hnumbered rfl rfl (assigned_of_split hsplit rfl (task?_singleton rfl))
      (fun _ hn => taken_of_split hsplit (task?_singleton rfl) hn) rfl rfl
  | rests hsplit _ hnext =>
    have hnone := task?_singleton (PoolWorker.task?_of_not_busy hnext)
    exact h.of_worker hnumbered rfl rfl (assigned_of_split hsplit rfl hnone)
      (fun _ hn => taken_of_split hsplit hnone hn) rfl rfl
  | leaves hsplit _ =>
    exact h.of_worker hnumbered rfl rfl (assigned_of_gone hsplit rfl)
      (fun _ hn => taken_of_gone hsplit hn) rfl rfl
  | exits exiting =>
    exact h.of_worker hnumbered rfl rfl (List.Subset.refl _) (fun _ hn => hn) rfl rfl
  | replaced exiting threadStarts =>
    exact h.of_worker hnumbered rfl rfl (assigned_ensureWorker_subset threadStarts)
      (fun _ hn => taken_of_ensureWorker hn) rfl rfl

/-- An orderly step keeps the account. -/
theorem Accounted.moves {s' : HeartbeatSender} (h : s.Accounted) (hmoves : s.Moves s') :
    s'.Accounted := by
  unfold Accounted inDelivery inHand at h ⊢
  cases hmoves with
  | nothing => exact h
  | submits =>
    simp [step] at h ⊢
    omega
  | goesOn hsplit hnow hnext =>
    simpa [hsplit, hnow, hnext] using h
  | queues hsplit =>
    simp [hsplit] at h ⊢
    omega
  | rechecks hsplit threadStarts =>
    have hsame := inDelivery_ensureWorker (s := s) threadStarts
    unfold inDelivery at hsame
    dsimp only
    rw [hsame]
    simpa [hsplit, ensureWorker] using h
  | assigns hsplit hnow =>
    simp [hsplit, hnow, List.countP_cons] at h ⊢
    omega
  | drops hsplit hqueue =>
    simp [hsplit, hqueue] at h ⊢
    omega
  | replaces hsplit =>
    simp [hsplit] at h ⊢
    omega
  | takes hsplit hqueue =>
    simp [hsplit, hqueue, List.countP_cons] at h ⊢
    omega
  | begins hsplit _ =>
    simp [hsplit, List.countP_cons] at h ⊢
    omega
  | beginsTaken hsplit _ =>
    simp [hsplit, List.countP_cons] at h ⊢
    omega
  | sends hsplit =>
    simp [hsplit, List.countP_cons] at h ⊢
    omega
  | fails hsplit =>
    simp [hsplit, List.countP_cons] at h ⊢
    omega
  | rests hsplit hnow hnext =>
    simpa [hsplit, hnow, hnext] using h
  | leaves hsplit hnow =>
    simpa [hsplit, hnow] using h
  | exits exiting => exact h
  | replaced exiting threadStarts =>
    have hsame := inDelivery_ensureWorker (s := s) threadStarts
    unfold inDelivery at hsame
    dsimp only
    rw [hsame]
    exact h

end Steps

theorem numbered_fresh (queueCapacity : ℤ) : (fresh queueCapacity).Numbered :=
  ⟨fun _ h => (nomatch h), List.nodup_nil, fun _ h => (nomatch h)⟩

theorem inOrder_fresh (queueCapacity : ℤ) : (fresh queueCapacity).InOrder :=
  ⟨List.Pairwise.nil, fun _ h => (nomatch h), fun _ h => (nomatch h), fun _ h => (nomatch h),
    List.Pairwise.nil⟩

/-- What an order and an account kept promise. -/
theorem InOrder.faithful {s : HeartbeatSender} (h : s.InOrder) (haccounted : s.Accounted) :
    s.Faithful := by
  refine ⟨h.order, h.oldest, fun hnone => ?_⟩
  have hinHand : s.inHand = 0 := by rw [inHand, hnone, List.countP_nil]
  rw [Accounted, hinHand] at haccounted
  exact haccounted

/-- **Orderly runs.** As long as every thread finds what it counts on, heartbeats are
started in order, the oldest is discarded and none is lost from the account. -/
theorem faithful_of_orderly (queueCapacity : ℤ) (actions : List SenderAction)
    (horderly : Along step Orderly (fresh queueCapacity) actions) :
    Throughout step Faithful (fresh queueCapacity) actions := by
  have hkept : Throughout step (fun s => s.Numbered ∧ s.InOrder ∧ s.Accounted)
      (fresh queueCapacity) actions := by
    refine throughout_of_step (fun s a hs ha => ?_)
      ⟨numbered_fresh queueCapacity, inOrder_fresh queueCapacity, rfl⟩ horderly
    obtain ⟨hnumbered, hinOrder, haccounted⟩ := hs
    have hmoves := moves_step ha
    exact ⟨hnumbered.moves hmoves, hinOrder.moves hnumbered hmoves, haccounted.moves hmoves⟩
  exact hkept.mono fun s hs => hs.2.1.faithful hs.2.2

/-- A queue for one heartbeat. The second one is queued, and is begun before the third one
gets a thread of its own; the fourth one is queued and makes room for the fifth one,
and one of the threads leaves. -/
def busyRun : List SenderAction :=
  [.submit, .submitter 0 true, .worker 0 .accepted, .submit, .submitter 0 true,
    .submitter 0 true, .submitter 0 true, .submit, .submitter 0 true, .submitter 0 true,
    .worker 0 .accepted, .worker 0 .accepted, .worker 0 .accepted, .submitter 0 true,
    .worker 1 .accepted, .submit, .submitter 0 true, .submitter 0 true, .submitter 0 true,
    .submit, .submitter 0 true, .submitter 0 true, .submitter 0 true, .submitter 0 true,
    .submitter 0 true, .worker 0 .refused, .worker 0 .accepted, .worker 1 .caught, .timeout 1,
    .worker 1 .accepted, .exit true, .worker 0 .accepted, .worker 0 .accepted]

theorem faithful_of_orderly_patient :
    Throughout step Faithful (fresh 1) busyRun ∧
      (run step (fresh 1) busyRun).started = [4, 2, 1, 0] ∧
      (run step (fresh 1) busyRun).dropped = 1 :=
  ⟨faithful_of_orderly 1 busyRun (by decide), by decide, by decide⟩

/-- With the queue full, the third heartbeat gets a thread of its own and overtakes the
second one. -/
theorem not_faithful_fullQueue :
    ¬ ∀ (queueCapacity : ℤ) (actions : List SenderAction),
      Throughout step Faithful (fresh queueCapacity) actions := by
  intro h
  have hlast := (h 1
    [.submit, .submitter 0 true, .worker 0 .accepted, .submit, .submitter 0 true,
      .submitter 0 true, .submitter 0 true, .submit, .submitter 0 true, .submitter 0 true,
      .submitter 0 true, .worker 1 .accepted, .worker 0 .accepted, .worker 0 .accepted,
      .worker 0 .accepted]).last.order
  revert hlast
  decide

end HeartbeatSender

end SilenceWatch
