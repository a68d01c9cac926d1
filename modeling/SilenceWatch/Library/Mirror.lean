import Mathlib.Data.List.Forall2
import Mathlib.Order.Defs.PartialOrder

/-!
# A log that follows periods

Something begins and ends, and a log of it is written afterwards: an entry is opened
after a period has begun and closed after it has ended. As long as the log catches up
between any two of these changes, every period has one entry of its own, in order.
-/

namespace Chronicle

variable {Time : Type*}

/-- A stretch of time that may still last. -/
structure Span (Time : Type*) where
  start : Time
  stop : Option Time
  deriving DecidableEq

/-- The span once it has ended, now if it still lasted. -/
def Span.finish (now : Time) (s : Span Time) : Span Time := { s with stop := s.stop.or (some now) }

/-- The entry follows the period: it opens while the period lasts, and closes after it. -/
def Span.Follows [LE Time] (entry period : Span Time) : Prop :=
  period.start ≤ entry.start ∧
    match period.stop, entry.stop with
    | none, none => True
    | some ended, some closed => entry.start ≤ ended ∧ ended ≤ closed
    | _, _ => False

/-- The log has an entry for every period, and all of them are over. -/
def Recorded [LE Time] : List (Span Time) → List (Span Time) → Prop :=
  List.Forall₂ fun entry period =>
    entry.Follows period ∧ entry.stop ≠ none ∧ period.stop ≠ none

/-- Where the latest period is: over and recorded, begun without an entry, running
with one, or over with an entry that is still open. -/
inductive SpanPhase where
  | resting
  | begun
  | running
  | ended
  deriving DecidableEq

/-- The log mirrors the periods up to the latest one. -/
inductive Mirrors [LE Time] (now : Time) : List (Span Time) → List (Span Time) → SpanPhase → Prop
  | resting {log periods : List (Span Time)} : Recorded log periods →
      Mirrors now log periods .resting
  | begun {log periods : List (Span Time)} {start : Time} : Recorded log periods → start ≤ now →
      Mirrors now log (periods ++ [⟨start, none⟩]) .begun
  | running {log periods : List (Span Time)} {start opened : Time} : Recorded log periods →
      start ≤ opened → opened ≤ now →
      Mirrors now (log ++ [⟨opened, none⟩]) (periods ++ [⟨start, none⟩]) .running
  | ended {log periods : List (Span Time)} {start opened stop : Time} : Recorded log periods →
      start ≤ opened → opened ≤ stop → stop ≤ now →
      Mirrors now (log ++ [⟨opened, none⟩]) (periods ++ [⟨start, some stop⟩]) .ended

section Finish

variable {spans : List (Span Time)} {now : Time}

/-- Ending what is over changes nothing. -/
theorem Span.finish_eq_self {s : Span Time} (h : s.stop ≠ none) : s.finish now = s := by
  obtain ⟨start, stop⟩ := s
  cases stop with
  | none => exact absurd rfl h
  | some stop => rfl

/-- Ending spans that are all over changes nothing. -/
theorem map_finish_eq_self (h : ∀ s ∈ spans, s.stop ≠ none) :
    spans.map (Span.finish now) = spans := by
  have hself : ∀ s ∈ spans, s.finish now = id s := fun s hs => Span.finish_eq_self (h s hs)
  rw [List.map_congr_left hself, List.map_id]

end Finish

variable [Preorder Time] {log periods : List (Span Time)} {now now' : Time} {phase : SpanPhase}

/-- The entries of a record are closed. -/
theorem Recorded.log_stop (h : Recorded log periods) : ∀ entry ∈ log, entry.stop ≠ none := by
  unfold Recorded at h
  induction h with
  | nil => simp
  | cons hhead _ ih => exact List.forall_mem_cons.mpr ⟨hhead.2.1, ih⟩

/-- The periods of a record are over. -/
theorem Recorded.periods_stop (h : Recorded log periods) :
    ∀ period ∈ periods, period.stop ≠ none := by
  unfold Recorded at h
  induction h with
  | nil => simp
  | cons hhead _ ih => exact List.forall_mem_cons.mpr ⟨hhead.2.2, ih⟩

/-- A record grows by an entry that follows its period. -/
theorem Recorded.snoc (h : Recorded log periods) {entry period : Span Time}
    (hfollows : entry.Follows period) (hentry : entry.stop ≠ none) (hperiod : period.stop ≠ none) :
    Recorded (log ++ [entry]) (periods ++ [period]) := by
  unfold Recorded at h ⊢
  induction h with
  | nil => exact List.Forall₂.cons ⟨hfollows, hentry, hperiod⟩ List.Forall₂.nil
  | cons hhead _ ih => exact List.Forall₂.cons hhead ih

/-- Time may pass. -/
theorem Mirrors.mono (h : Mirrors now log periods phase) (hle : now ≤ now') :
    Mirrors now' log periods phase := by
  cases h with
  | resting hrecorded => exact Mirrors.resting hrecorded
  | begun hrecorded hstart => exact Mirrors.begun hrecorded (le_trans hstart hle)
  | running hrecorded hstart hopened =>
    exact Mirrors.running hrecorded hstart (le_trans hopened hle)
  | ended hrecorded hstart hopened hstop =>
    exact Mirrors.ended hrecorded hstart hopened (le_trans hstop hle)

/-- A period begins. -/
theorem Mirrors.begins (h : Mirrors now log periods .resting) :
    Mirrors now log (periods ++ [⟨now, none⟩]) .begun := by
  cases h with
  | resting hrecorded => exact Mirrors.begun hrecorded le_rfl

/-- Its entry is opened. -/
theorem Mirrors.opens (h : Mirrors now log periods .begun) :
    Mirrors now (log ++ [⟨now, none⟩]) periods .running := by
  cases h with
  | begun hrecorded hstart => exact Mirrors.running hrecorded hstart le_rfl

/-- The period ends. -/
theorem Mirrors.ends (h : Mirrors now log periods .running) :
    Mirrors now log (periods.map (Span.finish now)) .ended := by
  cases h with
  | running hrecorded hstart hopened =>
    rw [List.map_append, map_finish_eq_self hrecorded.periods_stop]
    exact Mirrors.ended hrecorded hstart hopened le_rfl

/-- Its entry is closed. -/
theorem Mirrors.closes (h : Mirrors now log periods .ended) :
    Mirrors now (log.map (Span.finish now)) periods .resting := by
  cases h with
  | ended hrecorded hstart hopened hstop =>
    rw [List.map_append, map_finish_eq_self hrecorded.log_stop]
    refine Mirrors.resting (hrecorded.snoc ⟨hstart, hopened, hstop⟩ ?_ ?_)
    · exact Option.some_ne_none now
    · exact Option.some_ne_none _

/-- An entry is open from its opening until it is closed. -/
theorem Mirrors.open_iff (h : Mirrors now log periods phase) :
    (∃ entry ∈ log, entry.stop = none) ↔ phase = .running ∨ phase = .ended := by
  have hclosed (hrecorded : Recorded log periods) : ¬ ∃ entry ∈ log, entry.stop = none := by
    rintro ⟨entry, hentry, hopen⟩
    exact hrecorded.log_stop entry hentry hopen
  cases h with
  | resting hrecorded => simpa using hclosed hrecorded
  | begun hrecorded _ => simpa using hrecorded.log_stop
  | running _ _ _ => simp
  | ended _ _ _ _ => simp

/-- Outside a period all the periods are over. -/
theorem Mirrors.periods_stop (h : Mirrors now log periods phase)
    (hphase : phase = .resting ∨ phase = .ended) : ∀ period ∈ periods, period.stop ≠ none := by
  cases h with
  | resting hrecorded => exact hrecorded.periods_stop
  | begun _ _ => simp at hphase
  | running _ _ _ => simp at hphase
  | ended hrecorded _ _ _ =>
    intro period hperiod
    rcases List.mem_append.mp hperiod with hold | hlast
    · exact hrecorded.periods_stop period hold
    · rw [List.mem_singleton.mp hlast]
      exact Option.some_ne_none _

/-- **A log that has caught up has one entry for each period, in order.** -/
theorem Mirrors.follows (h : Mirrors now log periods phase)
    (hphase : phase = .resting ∨ phase = .running) : List.Forall₂ Span.Follows log periods := by
  cases h with
  | resting hrecorded => exact hrecorded.imp fun _ _ hentry => hentry.1
  | begun _ _ => simp at hphase
  | running hrecorded hstart hopened =>
    have hlast : Span.Follows ⟨_, none⟩ ⟨_, none⟩ := ⟨hstart, trivial⟩
    exact List.rel_append (hrecorded.imp fun _ _ hentry => hentry.1)
      (List.Forall₂.cons hlast List.Forall₂.nil)
  | ended _ _ _ _ => simp at hphase

end Chronicle
