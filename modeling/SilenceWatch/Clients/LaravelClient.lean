import SilenceWatch.Clients.LaravelMonitor
import SilenceWatch.Library.Run

/-!
# The heartbeats of a Laravel process

The scheduler waits for each heartbeat, so the client does not send the next ones for a
while after one that failed. A failure is any answer other than a success, hence also one
that refuses a single key; the tasks that come after it are then silent while the server
is up. The runs below are the calls of one process with the answers that they get.
-/

namespace SilenceWatch.Laravel

open Transition

/-- What comes of a request: the status of the answer, or none where the server could not
be reached or did not answer in time. -/
inductive PingAnswer where
  | unreachable
  | status (code : ℕ)
  deriving DecidableEq

/-- `Response::successful`. -/
def PingAnswer.successful : PingAnswer → Bool
  | .unreachable => false
  | .status code => decide (200 ≤ code ∧ code < 300)

/-- The server is unavailable: no answer, or an error of its own. -/
def PingAnswer.Unavailable : PingAnswer → Prop
  | .unreachable => True
  | .status code => 500 ≤ code ∧ code < 600

instance : DecidablePred PingAnswer.Unavailable
  | .unreachable => .isTrue trivial
  | .status _ => inferInstanceAs (Decidable (_ ∧ _))

/-- A call of `Client::ping`, with what the clock shows during it and the answer that a
request would get. -/
structure PingCall where
  pingKey : Uuid
  outcome : PingOutcome
  durationMs : Option ℤ
  times : CallTimes
  answer : PingAnswer

/-- A heartbeat that was sent. -/
structure Attempt where
  request : OutcomeRequest
  answered : ℕ
  answer : PingAnswer

/-- The client of a process. The attempts are an observer's note, the last one first; the
client does not read them. -/
structure Client where
  downUntil : ℕ
  attempts : List Attempt

/-- The client of a new process. -/
def Client.fresh : Client := ⟨0, []⟩

/-- The attempt a call makes. -/
def PingCall.attempt (call : PingCall) : Attempt where
  request := outcomeRequest call.pingKey call.outcome call.durationMs
  answered := call.times.answered
  answer := call.answer

/-- `Client::ping`. -/
def Client.ping (c : Client) (call : PingCall) : Client × Bool :=
  if call.times.before < c.downUntil then (c, false)
  else
    let c := { c with attempts := call.attempt :: c.attempts }
    if call.answer.successful then (c, true)
    else ({ c with downUntil := call.times.answered + heartbeatBackoff }, false)

/-- The client after a call. -/
def Client.after (c : Client) (call : PingCall) : Client := (c.ping call).1

/-- A call sends its heartbeat. -/
def Client.Attempted (c : Client) (call : PingCall) : Prop :=
  (c.after call).attempts = call.attempt :: c.attempts

/-- An attempt was answered less than the back-off before an instant. -/
def Attempt.Recent (a : Attempt) (now : ℕ) : Prop := now < a.answered + heartbeatBackoff

/-- Some attempt of the last 60 seconds found the server unavailable. -/
def Client.FoundDown (c : Client) (now : ℕ) : Prop :=
  ∃ a ∈ c.attempts, a.answer.Unavailable ∧ a.Recent now

/-- A call sends its heartbeat, unless the server was found unavailable. -/
def Client.PingLaw (c : Client) (call : PingCall) : Prop :=
  c.Attempted call ∨ c.FoundDown call.times.before

/-- The last attempt that failed. -/
def Client.lastFailure (c : Client) : Option Attempt :=
  c.attempts.find? fun a => !a.answer.successful

/-- The last attempt that failed is not a recent one that the server refused, or the server
was found unavailable as well. -/
def Client.NotRefused (c : Client) (now : ℕ) : Prop :=
  ∀ a, c.lastFailure = some a → ¬ a.answer.Unavailable → a.Recent now → c.FoundDown now

section Backoff

variable {c : Client} {call : PingCall}

/-- The back-off is the one of the last attempt that failed. -/
def Client.Backed (c : Client) : Prop :=
  c.downUntil = (c.lastFailure.map fun a => a.answered + heartbeatBackoff).getD 0

theorem Client.attempted_iff : c.Attempted call ↔ c.downUntil ≤ call.times.before := by
  unfold Client.Attempted Client.after Client.ping
  by_cases hdown : call.times.before < c.downUntil
  · rw [if_pos hdown]
    have hlength : c.attempts ≠ call.attempt :: c.attempts := List.ne_cons_self
    exact ⟨fun h => absurd h hlength, fun h => absurd h (by omega)⟩
  · rw [if_neg hdown]
    refine ⟨fun _ => by omega, fun _ => ?_⟩
    dsimp only
    split_ifs <;> rfl

theorem Client.after_cases (c : Client) (call : PingCall) :
    c.after call = c ∨
      call.answer.successful = true ∧ c.after call = ⟨c.downUntil, call.attempt :: c.attempts⟩ ∨
      call.answer.successful = false ∧
        c.after call = ⟨call.attempt.answered + heartbeatBackoff, call.attempt :: c.attempts⟩ := by
  unfold Client.after Client.ping
  split
  · exact Or.inl rfl
  · cases hanswer : call.answer.successful with
    | true => exact Or.inr (Or.inl ⟨rfl, rfl⟩)
    | false => exact Or.inr (Or.inr ⟨rfl, rfl⟩)

theorem Client.backed_fresh : Client.fresh.Backed := rfl

/-- **Step.** A call keeps the back-off that of the last attempt that failed. -/
theorem Client.Backed.after (h : c.Backed) (call : PingCall) : (c.after call).Backed := by
  unfold Client.Backed Client.lastFailure at h ⊢
  rcases c.after_cases call with hsame | ⟨hanswer, hafter⟩ | ⟨hanswer, hafter⟩
  · rw [hsame]
    exact h
  · rw [hafter, List.find?_cons_of_neg (by simpa [PingCall.attempt] using hanswer)]
    exact h
  · rw [hafter, List.find?_cons_of_pos (by simpa [PingCall.attempt] using hanswer),
      Option.map_some, Option.getD_some]

/-- What a call leaves out is left out because of the last attempt that failed. -/
theorem Client.Backed.pingLaw_iff (h : c.Backed) :
    c.PingLaw call ↔ c.NotRefused call.times.before := by
  unfold Client.PingLaw Client.NotRefused
  rw [Client.attempted_iff, h]
  cases hlast : c.lastFailure with
  | none => simp
  | some a =>
    rw [Option.map_some, Option.getD_some]
    constructor
    · rintro (hsent | hdown) b hb _ hrecent
      · obtain rfl := Option.some_inj.mp hb
        exact absurd hsent (Nat.not_le.mpr hrecent)
      · exact hdown
    · intro hrefused
      by_cases hrecent : a.Recent call.times.before
      · right
        by_cases hdown : a.answer.Unavailable
        · exact ⟨a, List.mem_of_find?_eq_some hlast, hdown, hrecent⟩
        · exact hrefused a rfl hdown hrecent
      · exact Or.inl (Nat.not_lt.mp hrecent)

end Backoff

/-- **The heartbeats that are sent.** In every run of calls with any answers, each call sends
its heartbeat unless the server was found unavailable in the last 60 seconds, if and only if
no call comes within 60 seconds of a refusal that is the last failure. -/
theorem Client.along_pingLaw_iff (calls : List PingCall) :
    Along Client.after Client.PingLaw Client.fresh calls ↔
      Along Client.after (fun c call => c.NotRefused call.times.before) Client.fresh calls := by
  constructor
  · exact along_of_step (fun c call h _ => h.after call) (fun c call h => h.pingLaw_iff.mp)
      Client.backed_fresh
  · exact along_of_step (fun c call h _ => h.after call) (fun c call h => h.pingLaw_iff.mpr)
      Client.backed_fresh

/-- A start of the task with a key, at a second, and the answer it gets. -/
def startAt (pingKey : Uuid) (second : ℕ) (answer : PingAnswer) : PingCall :=
  ⟨pingKey, .start, none, ⟨second * 1000000, second * 1000000⟩, answer⟩

/-- The key of one task is not known any more; the task after it is silent. -/
theorem Client.not_along_pingLaw_gone :
    ¬ ∀ calls, Along Client.after Client.PingLaw Client.fresh calls := by
  intro h
  obtain ⟨_, hsecond, _⟩ := h [startAt 1 0 (.status 404), startAt 2 1 (.status 200)]
  rcases hsecond with hsent | ⟨a, ha, hdown, _⟩
  · revert hsent
    rw [Client.attempted_iff]
    decide
  · obtain rfl := List.mem_singleton.mp ha
    revert hdown
    decide

end SilenceWatch.Laravel
