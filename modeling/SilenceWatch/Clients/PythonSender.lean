import SilenceWatch.Library.Run
import Mathlib.Data.Int.Notation

/-!
# Sending heartbeats from Python

A bounded queue and one daemon thread. A submission holds the lock while it looks at the
queue and appends to it, so that it is one step; the thread takes the lock to take a heartbeat
and to put it down, and delivers without it.
-/

namespace SilenceWatch

open Transition

namespace Python

/-- A heartbeat: the key of its job, the suffix of its URL, its duration in milliseconds. -/
structure Heartbeat where
  jobKey : String
  suffix : String
  durationMs : Option ℤ
  deriving DecidableEq

/-- What the thread is doing in `_run`. -/
inductive WorkerPhase where
  | waiting
  /-- It took a heartbeat from the queue. -/
  | holding (item : Heartbeat)
  /-- `ping` of the client has not returned. -/
  | pinging (item : Heartbeat)
  /-- It is done with a heartbeat, which still counts as in flight. -/
  | settled
  deriving DecidableEq

/-- The sender, with what an observer notes: the heartbeats that were submitted, how many of them
no thread could be started for, and those that were handed to the client. -/
structure HeartbeatSender where
  reportStart : Bool
  pingKeys : List (String × String)
  maxlen : ℕ
  queue : List Heartbeat
  thread : Option WorkerPhase
  inFlight : ℕ
  deliveredCount : ℕ
  failureCount : ℕ
  droppedCount : ℕ
  submitted : List Heartbeat
  lost : ℕ
  handed : List Heartbeat
  deriving DecidableEq

/-- A run of a job that is told to the sender, and whether a thread can be started if there is
none; or what the thread does next. -/
inductive SenderEvent where
  | started (jobKey : String) (threadStarts : Bool)
  | succeeded (jobKey : String) (durationMs : ℤ) (threadStarts : Bool)
  | failed (jobKey : String) (durationMs : ℤ) (threadStarts : Bool)
  | take
  | deliver
  /-- `ping` returns, or raises what `_deliver` takes for `False`. -/
  | answer (delivered : Bool)
  | release
  deriving DecidableEq

/-- `append` of a `deque` with a `maxlen`. -/
def append {α : Type} (maxlen : ℕ) (queue : List α) (item : α) : List α :=
  (queue ++ [item]).drop ((queue ++ [item]).length - maxlen)

namespace HeartbeatSender

/-- A sender after its registration. -/
def fresh (reportStart : Bool) (queueCapacity : ℤ) (pingKeys : List (String × String)) :
    HeartbeatSender :=
  ⟨reportStart, pingKeys, (max 1 queueCapacity).toNat, [], none, 0, 0, 0, 0, [], 0, []⟩

/-- `knows`. -/
def knows (s : HeartbeatSender) (jobKey : String) : Bool := (s.pingKeys.lookup jobKey).isSome

/-- `_submit`. A thread that cannot be started raises before anything is queued or counted, which
is caught. -/
def submit (s : HeartbeatSender) (item : Heartbeat) (threadStarts : Bool) : HeartbeatSender :=
  if !s.knows item.jobKey then s
  else if s.thread = none ∧ threadStarts = false then
    { s with submitted := s.submitted ++ [item], lost := s.lost + 1 }
  else
    { s with
      thread := some (s.thread.getD .waiting)
      droppedCount := if s.queue.length = s.maxlen then s.droppedCount + 1 else s.droppedCount
      queue := append s.maxlen s.queue item
      submitted := s.submitted ++ [item] }

/-- What the thread does next. -/
def take (s : HeartbeatSender) : HeartbeatSender :=
  match s.thread, s.queue with
  | some .waiting, item :: rest =>
    { s with queue := rest, thread := some (.holding item), inFlight := s.inFlight + 1 }
  | _, _ => s

/-- `_deliver` up to the call of the client. -/
def deliver (s : HeartbeatSender) : HeartbeatSender :=
  match s.thread with
  | some (.holding item) =>
    if s.knows item.jobKey then
      { s with thread := some (.pinging item), handed := s.handed ++ [item] }
    else { s with thread := some .settled }
  | _ => s

/-- `_deliver` from the answer on. -/
def answer (s : HeartbeatSender) (delivered : Bool) : HeartbeatSender :=
  match s.thread with
  | some (.pinging _) =>
    if delivered then { s with thread := some .settled, deliveredCount := s.deliveredCount + 1 }
    else { s with thread := some .settled, failureCount := s.failureCount + 1 }
  | _ => s

/-- The `finally` of `_run`. -/
def release (s : HeartbeatSender) : HeartbeatSender :=
  match s.thread with
  | some .settled => { s with thread := some .waiting, inFlight := s.inFlight - 1 }
  | _ => s

/-- What happens at an event. -/
def step (s : HeartbeatSender) : SenderEvent → HeartbeatSender
  | .started jobKey threadStarts =>
    if s.reportStart then s.submit ⟨jobKey, "/start", none⟩ threadStarts else s
  | .succeeded jobKey durationMs threadStarts =>
    s.submit ⟨jobKey, "/0", some durationMs⟩ threadStarts
  | .failed jobKey durationMs threadStarts =>
    s.submit ⟨jobKey, "/fail", some durationMs⟩ threadStarts
  | .take => s.take
  | .deliver => s.deliver
  | .answer delivered => s.answer delivered
  | .release => s.release

/-- The heartbeats that an event submits: one, if it tells of a run of a job with a ping key. -/
def submissions (s : HeartbeatSender) : SenderEvent → List Heartbeat
  | .started jobKey _ => if s.reportStart ∧ s.knows jobKey then [⟨jobKey, "/start", none⟩] else []
  | .succeeded jobKey durationMs _ =>
    if s.knows jobKey then [⟨jobKey, "/0", some durationMs⟩] else []
  | .failed jobKey durationMs _ =>
    if s.knows jobKey then [⟨jobKey, "/fail", some durationMs⟩] else []
  | .take | .deliver | .answer _ | .release => []

/-- There is no thread, and the event tells that none can be started. -/
def Threadless (s : HeartbeatSender) : SenderEvent → Prop
  | .started _ threadStarts | .succeeded _ _ threadStarts | .failed _ _ threadStarts =>
    s.thread = none ∧ threadStarts = false
  | .take | .deliver | .answer _ | .release => False

instance (s : HeartbeatSender) : DecidablePred s.Threadless
  | .started _ _ | .succeeded _ _ _ | .failed _ _ _ => inferInstanceAs (Decidable (_ ∧ _))
  | .take | .deliver | .answer _ | .release => .isFalse id

/-- What is noted of an event is what it submits. -/
structure Noted (s : HeartbeatSender) (e : SenderEvent) : Prop where
  submitted : (s.step e).submitted = s.submitted ++ s.submissions e
  lost : (s.step e).lost = s.lost + if s.Threadless e then (s.submissions e).length else 0

/-- The heartbeat that the thread has taken and not handed to the client. -/
def pending (s : HeartbeatSender) : List Heartbeat :=
  match s.thread with
  | some (.holding item) => [item]
  | _ => []

/-- The heartbeat that the thread holds. -/
def held (s : HeartbeatSender) : List Heartbeat :=
  match s.thread with
  | some (.holding item) | some (.pinging item) => [item]
  | _ => []

/-- What holds in every state. -/
structure Accounted (capacity : ℕ) (s : HeartbeatSender) : Prop where
  maxlen : s.maxlen = capacity
  bounded : s.queue.length ≤ s.maxlen
  order : List.Sublist (s.handed ++ s.pending ++ s.queue) s.submitted
  counted : s.submitted.length =
    s.deliveredCount + s.failureCount + s.droppedCount + s.held.length + s.queue.length + s.lost
  known : ∀ item ∈ s.held ++ s.queue, s.knows item.jobKey = true

/-- What can happen to the queue. -/
inductive Moves (s : HeartbeatSender) : HeartbeatSender → Prop
  | nothing : Moves s s
  | loses (item : Heartbeat) (hthread : s.thread = none) :
      Moves s { s with submitted := s.submitted ++ [item], lost := s.lost + 1 }
  | queues (item : Heartbeat) (hknown : s.knows item.jobKey = true)
      (hroom : s.queue.length < s.maxlen) :
      Moves s { s with
        thread := some (s.thread.getD .waiting)
        queue := s.queue ++ [item]
        submitted := s.submitted ++ [item] }
  | drops (oldest : Heartbeat) (rest : List Heartbeat) (item : Heartbeat)
      (hknown : s.knows item.jobKey = true) (hfull : s.queue.length = s.maxlen)
      (hqueue : s.queue = oldest :: rest) :
      Moves s { s with
        thread := some (s.thread.getD .waiting)
        droppedCount := s.droppedCount + 1
        queue := rest ++ [item]
        submitted := s.submitted ++ [item] }
  | takes (item : Heartbeat) (rest : List Heartbeat) (hthread : s.thread = some .waiting)
      (hqueue : s.queue = item :: rest) :
      Moves s { s with
        queue := rest, thread := some (.holding item), inFlight := s.inFlight + 1 }
  | hands (item : Heartbeat) (hthread : s.thread = some (.holding item)) :
      Moves s { s with thread := some (.pinging item), handed := s.handed ++ [item] }
  | delivers (item : Heartbeat) (hthread : s.thread = some (.pinging item)) :
      Moves s { s with thread := some .settled, deliveredCount := s.deliveredCount + 1 }
  | fails (item : Heartbeat) (hthread : s.thread = some (.pinging item)) :
      Moves s { s with thread := some .settled, failureCount := s.failureCount + 1 }
  | releases (hthread : s.thread = some .settled) :
      Moves s { s with thread := some .waiting, inFlight := s.inFlight - 1 }

variable {s s' : HeartbeatSender} {capacity : ℕ}

/-- The step of a submission. -/
theorem moves_submit (hbounded : s.queue.length ≤ s.maxlen) (hroom : 1 ≤ s.maxlen)
    (item : Heartbeat) (threadStarts : Bool) : s.Moves (s.submit item threadStarts) := by
  unfold submit
  split_ifs with hknown hthread hfull
  · exact .nothing
  · exact .loses item hthread.1
  · cases hqueue : s.queue with
    | nil =>
      rw [hqueue, List.length_nil] at hfull
      omega
    | cons oldest rest =>
      have happend : append s.maxlen (oldest :: rest) item = rest ++ [item] := by
        have hlength : rest.length + 1 = s.maxlen := by rw [← hfull, hqueue, List.length_cons]
        simp [append, hlength]
      rw [happend]
      exact .drops oldest rest item (by simpa using hknown) hfull hqueue
  · have happend : append s.maxlen s.queue item = s.queue ++ [item] := by
      have hdrop : (s.queue ++ [item]).length - s.maxlen = 0 := by
        rw [List.length_append, List.length_singleton]
        omega
      rw [append, hdrop, List.drop_zero]
    rw [happend]
    exact .queues item (by simpa using hknown) (by omega)

/-- **What one step can do.** -/
theorem Accounted.moves (h : s.Accounted capacity) (hroom : 1 ≤ capacity) (e : SenderEvent) :
    s.Moves (s.step e) := by
  have hsubmit := moves_submit h.bounded (h.maxlen ▸ hroom)
  cases e with
  | started jobKey threadStarts =>
    unfold step
    dsimp only
    split_ifs
    · exact hsubmit _ _
    · exact .nothing
  | succeeded jobKey durationMs threadStarts => exact hsubmit _ _
  | failed jobKey durationMs threadStarts => exact hsubmit _ _
  | take =>
    unfold step take
    dsimp only
    split
    · next item rest hthread hqueue => exact .takes item rest hthread hqueue
    · exact .nothing
  | deliver =>
    unfold step deliver
    dsimp only
    split
    · next item hthread =>
      have hheld : item ∈ s.held ++ s.queue := by simp [held, hthread]
      rw [if_pos (h.known item hheld)]
      exact .hands item hthread
    · exact .nothing
  | answer delivered =>
    unfold step answer
    dsimp only
    split
    · next item hthread =>
      split_ifs
      · exact .delivers item hthread
      · exact .fails item hthread
    · exact .nothing
  | release =>
    unfold step release
    dsimp only
    split
    · next hthread => exact .releases hthread
    · exact .nothing

/-- A thread that is there goes on, and a new one waits. -/
theorem pending_getD (queue submitted : List Heartbeat) (dropped : ℕ) :
    pending { s with
      thread := some (s.thread.getD .waiting), queue := queue, submitted := submitted
      droppedCount := dropped } = s.pending ∧
    held { s with
      thread := some (s.thread.getD .waiting), queue := queue, submitted := submitted
      droppedCount := dropped } = s.held := by
  unfold pending held
  cases s.thread with
  | none => exact ⟨rfl, rfl⟩
  | some phase => exact ⟨rfl, rfl⟩

/-- The keys that are known after one more heartbeat is queued. -/
theorem Accounted.known_append (h : s.Accounted capacity) {item : Heartbeat}
    {queue : List Heartbeat} (hqueue : ∀ i ∈ queue, i ∈ s.queue)
    (hknown : s.knows item.jobKey = true) :
    ∀ i ∈ s.held ++ (queue ++ [item]), s.knows i.jobKey = true := by
  intro i hi
  rw [List.mem_append, List.mem_append, List.mem_singleton] at hi
  rcases hi with hheld | hold | rfl
  · exact h.known i (List.mem_append_left _ hheld)
  · exact h.known i (List.mem_append_right _ (hqueue i hold))
  · exact hknown

/-- A submission without a thread keeps it. -/
theorem Accounted.loses (h : s.Accounted capacity) (item : Heartbeat) :
    Accounted capacity { s with submitted := s.submitted ++ [item], lost := s.lost + 1 } := by
  refine ⟨h.maxlen, h.bounded, ?_, ?_, h.known⟩
  · exact h.order.trans (List.sublist_append_left s.submitted [item])
  · have hcounted := h.counted
    simp only [List.length_append, List.length_singleton]
    exact (congrArg (· + 1) hcounted).trans (Nat.add_assoc _ _ _)

/-- A submission keeps it. -/
theorem Accounted.queues (h : s.Accounted capacity) {item : Heartbeat}
    (hknown : s.knows item.jobKey = true) (hroom : s.queue.length < s.maxlen) :
    Accounted capacity { s with
      thread := some (s.thread.getD .waiting)
      queue := s.queue ++ [item]
      submitted := s.submitted ++ [item] } := by
  obtain ⟨hpending, hheld⟩ :=
    s.pending_getD (s.queue ++ [item]) (s.submitted ++ [item]) s.droppedCount
  refine ⟨h.maxlen, ?_, ?_, ?_, ?_⟩
  · rw [List.length_append, List.length_singleton]
    exact hroom
  · rw [hpending, ← List.append_assoc]
    exact h.order.append_right [item]
  · have hcounted := h.counted
    rw [hheld]
    simp only [List.length_append, List.length_singleton]
    omega
  · rw [hheld]
    exact h.known_append (fun _ hi => hi) hknown

/-- A submission that drops the oldest keeps it. -/
theorem Accounted.drops (h : s.Accounted capacity) {oldest item : Heartbeat}
    {rest : List Heartbeat} (hknown : s.knows item.jobKey = true)
    (hqueue : s.queue = oldest :: rest) :
    Accounted capacity { s with
      thread := some (s.thread.getD .waiting)
      droppedCount := s.droppedCount + 1
      queue := rest ++ [item]
      submitted := s.submitted ++ [item] } := by
  obtain ⟨hpending, hheld⟩ :=
    s.pending_getD (rest ++ [item]) (s.submitted ++ [item]) (s.droppedCount + 1)
  have hlength : s.queue.length = rest.length + 1 := by rw [hqueue, List.length_cons]
  refine ⟨h.maxlen, ?_, ?_, ?_, ?_⟩
  · have hbounded := h.bounded
    rw [List.length_append, List.length_singleton, ← hlength]
    exact hbounded
  · rw [hpending, ← List.append_assoc]
    refine List.Sublist.append_right ?_ [item]
    have hshorter : List.Sublist (s.handed ++ s.pending ++ rest)
        (s.handed ++ s.pending ++ s.queue) := by
      rw [hqueue]
      exact (List.sublist_cons_self oldest rest).append_left _
    exact hshorter.trans h.order
  · have hcounted := h.counted
    rw [hheld]
    simp only [List.length_append, List.length_singleton]
    omega
  · rw [hheld]
    refine h.known_append (fun i hi => ?_) hknown
    rw [hqueue]
    exact List.mem_cons_of_mem oldest hi

/-- Taking a heartbeat from the queue keeps it. -/
theorem Accounted.takes (h : s.Accounted capacity) {item : Heartbeat} {rest : List Heartbeat}
    (hthread : s.thread = some .waiting) (hqueue : s.queue = item :: rest) :
    Accounted capacity { s with
      queue := rest, thread := some (.holding item), inFlight := s.inFlight + 1 } := by
  have hpending : s.pending = [] := by rw [pending, hthread]
  have hheld : s.held = [] := by rw [held, hthread]
  have hlength : s.queue.length = rest.length + 1 := by rw [hqueue, List.length_cons]
  refine ⟨h.maxlen, ?_, ?_, ?_, ?_⟩
  · have hbounded := h.bounded
    dsimp only
    omega
  · have horder := h.order
    rw [hpending, hqueue] at horder
    simpa [pending] using horder
  · have hcounted := h.counted
    rw [hheld] at hcounted
    simp only [held, List.length_cons, List.length_nil] at hcounted ⊢
    omega
  · intro i hi
    refine h.known i (List.mem_append_right _ ?_)
    rw [hqueue]
    exact hi

/-- Handing a heartbeat to the client keeps it. -/
theorem Accounted.hands (h : s.Accounted capacity) {item : Heartbeat}
    (hthread : s.thread = some (.holding item)) :
    Accounted capacity { s with
      thread := some (.pinging item), handed := s.handed ++ [item] } := by
  have hpending : s.pending = [item] := by rw [pending, hthread]
  have hheld : s.held = [item] := by rw [held, hthread]
  refine ⟨h.maxlen, h.bounded, ?_, ?_, ?_⟩
  · have horder := h.order
    rw [hpending] at horder
    simpa [pending] using horder
  · have hcounted := h.counted
    rw [hheld] at hcounted
    exact hcounted
  · have hknown := h.known
    rw [hheld] at hknown
    exact hknown

/-- An answer keeps it: the heartbeat is counted on one side or the other. -/
theorem Accounted.answers (h : s.Accounted capacity) {item : Heartbeat} {delivered failed : ℕ}
    (hthread : s.thread = some (.pinging item))
    (hcounts : delivered + failed = s.deliveredCount + s.failureCount + 1) :
    Accounted capacity { s with
      thread := some .settled, deliveredCount := delivered, failureCount := failed } := by
  have hpending : s.pending = [] := by rw [pending, hthread]
  have hheld : s.held = [item] := by rw [held, hthread]
  refine ⟨h.maxlen, h.bounded, ?_, ?_, ?_⟩
  · have horder := h.order
    rw [hpending] at horder
    exact horder
  · have hcounted := h.counted
    rw [hheld] at hcounted
    simp only [held, List.length_cons, List.length_nil] at hcounted ⊢
    omega
  · intro i hi
    exact h.known i (List.mem_append_right _ hi)

/-- The end of a round keeps it. -/
theorem Accounted.releases (h : s.Accounted capacity) (hthread : s.thread = some .settled) :
    Accounted capacity { s with thread := some .waiting, inFlight := s.inFlight - 1 } := by
  have hpending : s.pending = [] := by rw [pending, hthread]
  have hheld : s.held = [] := by rw [held, hthread]
  refine ⟨h.maxlen, h.bounded, ?_, ?_, ?_⟩
  · have horder := h.order
    rw [hpending] at horder
    exact horder
  · have hcounted := h.counted
    rw [hheld] at hcounted
    exact hcounted
  · intro i hi
    exact h.known i (List.mem_append_right _ hi)

/-- **One step.** -/
theorem Accounted.of_moves (h : s.Accounted capacity) (hmoves : s.Moves s') :
    s'.Accounted capacity := by
  cases hmoves with
  | nothing => exact h
  | loses item hthread => exact h.loses item
  | queues item hknown hroom => exact h.queues hknown hroom
  | drops oldest rest item hknown hfull hqueue => exact h.drops hknown hqueue
  | takes item rest hthread hqueue => exact h.takes hthread hqueue
  | hands item hthread => exact h.hands hthread
  | delivers item hthread => exact h.answers hthread (by omega)
  | fails item hthread => exact h.answers hthread (by omega)
  | releases hthread => exact h.releases hthread

theorem accounted_fresh (reportStart : Bool) (queueCapacity : ℤ)
    (pingKeys : List (String × String)) :
    Accounted (max 1 queueCapacity).toNat (fresh reportStart queueCapacity pingKeys) := by
  refine ⟨rfl, Nat.zero_le _, ?_, rfl, ?_⟩
  · exact List.Sublist.refl []
  · intro i hi
    cases hi

/-- What becomes of the queue from one state to the next: a full queue loses its oldest heartbeat
to a new one, and nothing else is ever dropped. -/
inductive DropsOldest (s s' : HeartbeatSender) : Prop
  | keeps (hqueue : s'.queue = s.queue) (hdropped : s'.droppedCount = s.droppedCount)
  | appends (item : Heartbeat) (hroom : s.queue.length < s.maxlen)
      (hqueue : s'.queue = s.queue ++ [item]) (hdropped : s'.droppedCount = s.droppedCount)
  | takes (item : Heartbeat) (hqueue : s.queue = item :: s'.queue) (hheld : s'.held = [item])
      (hdropped : s'.droppedCount = s.droppedCount)
  | drops (oldest item : Heartbeat) (rest : List Heartbeat) (hfull : s.queue.length = s.maxlen)
      (hold : s.queue = oldest :: rest) (hqueue : s'.queue = rest ++ [item])
      (hdropped : s'.droppedCount = s.droppedCount + 1)

theorem Moves.dropsOldest (h : s.Moves s') : s.DropsOldest s' := by
  cases h with
  | nothing => exact .keeps rfl rfl
  | loses item hthread => exact .keeps rfl rfl
  | queues item hknown hroom => exact .appends item hroom rfl rfl
  | drops oldest rest item hknown hfull hqueue => exact .drops oldest item rest hfull hqueue rfl rfl
  | takes item rest hthread hqueue => exact .takes item hqueue rfl rfl
  | hands item hthread => exact .keeps rfl rfl
  | delivers item hthread => exact .keeps rfl rfl
  | fails item hthread => exact .keeps rfl rfl
  | releases hthread => exact .keeps rfl rfl

/-- Every state of a run is accounted for. -/
theorem Accounted.throughout (hroom : 1 ≤ capacity) (events : List SenderEvent)
    (h : s.Accounted capacity) : Throughout step (Accounted capacity) s events := by
  induction events generalizing s with
  | nil => exact h
  | cons e events ih => exact ⟨h, ih (h.of_moves (h.moves hroom e))⟩

/-- Every step of a run drops at most the oldest. -/
theorem Accounted.along (hroom : 1 ≤ capacity) (events : List SenderEvent)
    (h : s.Accounted capacity) :
    Along step (fun s e => s.DropsOldest (s.step e)) s events := by
  induction events generalizing s with
  | nil => trivial
  | cons e events ih =>
    have hmoves := h.moves hroom e
    exact ⟨hmoves.dropsOldest, ih (h.of_moves hmoves)⟩

/-- A submission is noted, and lost if there is no thread. -/
theorem noted_submit (s : HeartbeatSender) (item : Heartbeat) (threadStarts : Bool) :
    (s.submit item threadStarts).submitted =
        s.submitted ++ (if s.knows item.jobKey then [item] else []) ∧
      (s.submit item threadStarts).lost = s.lost + if s.thread = none ∧ threadStarts = false then
        (if s.knows item.jobKey then [item] else []).length else 0 := by
  unfold submit
  by_cases hknown : s.knows item.jobKey = true
  · simp only [hknown, Bool.not_true, Bool.false_eq_true, if_false, if_true]
    by_cases hthread : s.thread = none ∧ threadStarts = false
    · rw [if_pos hthread, if_pos hthread]
      exact ⟨rfl, rfl⟩
    · rw [if_neg hthread, if_neg hthread]
      exact ⟨rfl, rfl⟩
  · simp [hknown]

theorem noted (s : HeartbeatSender) (e : SenderEvent) : s.Noted e := by
  have hquiet (hnone : s.submissions e = []) (hsubmitted : (s.step e).submitted = s.submitted)
      (hlost : (s.step e).lost = s.lost) : s.Noted e := by
    refine ⟨?_, ?_⟩
    · rw [hnone, hsubmitted, List.append_nil]
    · rw [hnone, hlost, List.length_nil, ite_self, Nat.add_zero]
  cases e with
  | started jobKey threadStarts =>
    by_cases hreport : s.reportStart = true
    · obtain ⟨hsubmitted, hlost⟩ := s.noted_submit ⟨jobKey, "/start", none⟩ threadStarts
      constructor
      · simpa [step, submissions, hreport] using hsubmitted
      · simpa [step, submissions, Threadless, hreport] using hlost
    · have hsame : s.step (.started jobKey threadStarts) = s := if_neg hreport
      exact hquiet (if_neg fun h => hreport h.1) (by rw [hsame]) (by rw [hsame])
  | succeeded jobKey durationMs threadStarts =>
    obtain ⟨hsubmitted, hlost⟩ := s.noted_submit ⟨jobKey, "/0", some durationMs⟩ threadStarts
    exact ⟨hsubmitted, hlost⟩
  | failed jobKey durationMs threadStarts =>
    obtain ⟨hsubmitted, hlost⟩ := s.noted_submit ⟨jobKey, "/fail", some durationMs⟩ threadStarts
    exact ⟨hsubmitted, hlost⟩
  | take =>
    refine hquiet rfl ?_ ?_
    all_goals
      unfold step take
      dsimp only
      split <;> rfl
  | deliver =>
    refine hquiet rfl ?_ ?_
    all_goals
      unfold step deliver
      dsimp only
      split
      · split <;> rfl
      · rfl
  | answer delivered =>
    refine hquiet rfl ?_ ?_
    all_goals
      unfold step answer
      dsimp only
      split
      · split <;> rfl
      · rfl
  | release =>
    refine hquiet rfl ?_ ?_
    all_goals
      unfold step release
      dsimp only
      split <;> rfl

/-- Every event of a run is noted. -/
theorem noted_along (s : HeartbeatSender) (events : List SenderEvent) :
    Along step Noted s events := by
  induction events generalizing s with
  | nil => trivial
  | cons e events ih => exact ⟨s.noted e, ih _⟩

/-- **The sender keeps the order and accounts for every heartbeat**, whatever the threads that
submit and the thread that delivers do in turn. The heartbeats that no thread could be started for
are in none of its counts. -/
theorem keeps_order_and_count (reportStart : Bool) (queueCapacity : ℤ)
    (pingKeys : List (String × String)) (events : List SenderEvent) :
    Throughout step
      (fun s => List.Sublist s.handed s.submitted ∧
        s.queue.length ≤ (max 1 queueCapacity).toNat ∧
        (s.held = [] → s.submitted.length =
          s.deliveredCount + s.failureCount + s.droppedCount + s.queue.length + s.lost))
      (fresh reportStart queueCapacity pingKeys) events ∧
    Along step (fun s e => s.DropsOldest (s.step e) ∧ s.Noted e)
      (fresh reportStart queueCapacity pingKeys) events := by
  have hfresh := accounted_fresh reportStart queueCapacity pingKeys
  have hroom : 1 ≤ (max 1 queueCapacity).toNat := by omega
  refine ⟨(hfresh.throughout hroom events).mono ?_,
    (hfresh.along hroom events).and (noted_along _ events)⟩
  intro s h
  refine ⟨?_, h.maxlen ▸ h.bounded, fun hheld => ?_⟩
  · have horder := h.order
    rw [List.append_assoc] at horder
    exact (List.sublist_append_left s.handed _).trans horder
  · have hcounted := h.counted
    rw [hheld, List.length_nil] at hcounted
    exact hcounted

/-- A job ends while no thread can be started. -/
theorem not_counts_threadless :
    ¬ ∀ (reportStart : Bool) (queueCapacity : ℤ) (pingKeys : List (String × String))
      (events : List SenderEvent),
      Throughout step
        (fun s => s.held = [] → s.submitted.length =
          s.deliveredCount + s.failureCount + s.droppedCount + s.queue.length)
        (fresh reportStart queueCapacity pingKeys) events := by
  intro h
  have hlast := (h false 100 [("nightly", "7c1f")] [.succeeded "nightly" 1500 false]).2
  exact absurd (hlast rfl) (by decide)

end HeartbeatSender

end Python

end SilenceWatch
