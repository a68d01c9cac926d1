import Mathlib.Data.List.Basic

/-!
# Runs of a step function

A run is a finite list of events applied in order. `Along` states a condition on
every step of a run, as a predicate on the state before the step and its event;
`Throughout` states one on every state reached. The rules below turn a fact about
one step into a fact about every run.
-/

namespace Transition

variable {State Event : Type*} (step : State → Event → State)

/-- The state a run ends in. -/
def run (s : State) (es : List Event) : State := es.foldl step s

/-- `P` holds at every step: of the state before it and of its event. -/
def Along (P : State → Event → Prop) : State → List Event → Prop
  | _, [] => True
  | s, e :: es => P s e ∧ Along P (step s e) es

/-- `I` holds in every state of the run, the first and the last included. -/
def Throughout (I : State → Prop) : State → List Event → Prop
  | s, [] => I s
  | s, e :: es => I s ∧ Throughout I (step s e) es

@[simp] theorem run_nil (s : State) : run step s [] = s := rfl

@[simp] theorem run_cons (s : State) (e : Event) (es : List Event) :
    run step s (e :: es) = run step (step s e) es := rfl

theorem run_append (s : State) (es es' : List Event) :
    run step s (es ++ es') = run step (run step s es) es' :=
  List.foldl_append

@[simp] theorem along_nil (P : State → Event → Prop) (s : State) : Along step P s [] := trivial

@[simp] theorem along_cons (P : State → Event → Prop) (s : State) (e : Event) (es : List Event) :
    Along step P s (e :: es) ↔ P s e ∧ Along step P (step s e) es := Iff.rfl

instance decidableAlong {P : State → Event → Prop} [∀ s e, Decidable (P s e)] :
    ∀ s es, Decidable (Along step P s es)
  | _, [] => .isTrue trivial
  | s, e :: es => @instDecidableAnd _ _ _ (decidableAlong (step s e) es)

instance decidableThroughout {I : State → Prop} [DecidablePred I] :
    ∀ s es, Decidable (Throughout step I s es)
  | s, [] => inferInstanceAs (Decidable (I s))
  | s, e :: es => @instDecidableAnd _ _ _ (decidableThroughout (step s e) es)

variable {step}

/-- Conditions on steps weaken stepwise. -/
theorem Along.mono {P Q : State → Event → Prop} (h : ∀ s e, P s e → Q s e) {s : State}
    {es : List Event} (hP : Along step P s es) : Along step Q s es := by
  induction es generalizing s with
  | nil => trivial
  | cons e es ih => exact ⟨h s e hP.1, ih hP.2⟩

/-- A condition on events alone holds along a run if it holds of each. -/
theorem along_of_forall {P : Event → Prop} {s : State} {es : List Event} (h : ∀ e ∈ es, P e) :
    Along step (fun _ e => P e) s es := by
  induction es generalizing s with
  | nil => trivial
  | cons e es ih =>
    exact ⟨h e List.mem_cons_self, ih fun e' he' => h e' (List.mem_cons_of_mem _ he')⟩

/-- Two conditions on the steps of one run combine. -/
theorem Along.and {P Q : State → Event → Prop} {s : State} {es : List Event}
    (hP : Along step P s es) (hQ : Along step Q s es) :
    Along step (fun s e => P s e ∧ Q s e) s es := by
  induction es generalizing s with
  | nil => trivial
  | cons e es ih => exact ⟨⟨hP.1, hQ.1⟩, ih hP.2 hQ.2⟩

/-- What holds along a run holds along its later part. -/
theorem Along.later {P : State → Event → Prop} {s : State} {es es' : List Event}
    (hP : Along step P s (es ++ es')) : Along step P (run step s es) es' := by
  induction es generalizing s with
  | nil => exact hP
  | cons e es ih => exact ih hP.2

/-- **Invariant rule.** What holds at the start and is kept by every admitted
step holds in every state of an admitted run. -/
theorem throughout_of_step {I : State → Prop} {P : State → Event → Prop}
    (hstep : ∀ s e, I s → P s e → I (step s e)) {s : State} {es : List Event}
    (hs : I s) (hP : Along step P s es) : Throughout step I s es := by
  induction es generalizing s with
  | nil => exact hs
  | cons e es ih => exact ⟨hs, ih (hstep s e hs hP.1) hP.2⟩

/-- A property of every state of a run holds in its first state. -/
theorem Throughout.first {I : State → Prop} {s : State} {es : List Event}
    (h : Throughout step I s es) : I s := by
  cases es with
  | nil => exact h
  | cons e es => exact h.1

/-- A property of every state of a run holds in its last state. -/
theorem Throughout.last {I : State → Prop} {s : State} {es : List Event}
    (h : Throughout step I s es) : I (run step s es) := by
  induction es generalizing s with
  | nil => exact h
  | cons e es ih => exact ih h.2

/-- A property of the states of a run weakens statewise. -/
theorem Throughout.mono {I J : State → Prop} (h : ∀ s, I s → J s) {s : State} {es : List Event}
    (hI : Throughout step I s es) : Throughout step J s es := by
  induction es generalizing s with
  | nil => exact h s hI
  | cons e es ih => exact ⟨h s hI.1, ih hI.2⟩

/-- Two properties of the states of a run combine. -/
theorem Throughout.and {I J : State → Prop} {s : State} {es : List Event}
    (hI : Throughout step I s es) (hJ : Throughout step J s es) :
    Throughout step (fun s => I s ∧ J s) s es := by
  induction es generalizing s with
  | nil => exact ⟨hI, hJ⟩
  | cons e es ih => exact ⟨⟨hI.1, hJ.1⟩, ih hI.2 hJ.2⟩

/-- **Exact invariant rule.** If from good states the admitted steps with `Q`, and
only those, lead to good states, then a run stays good iff all its steps have `Q`. -/
theorem throughout_iff_along {I : State → Prop} {P Q : State → Event → Prop}
    (hstep : ∀ s e, I s → P s e → (I (step s e) ↔ Q s e)) {s : State} {es : List Event}
    (hs : I s) (hP : Along step P s es) : Throughout step I s es ↔ Along step Q s es := by
  induction es generalizing s with
  | nil => exact ⟨fun _ => trivial, fun _ => hs⟩
  | cons e es ih =>
    have hiff := hstep s e hs hP.1
    constructor
    · rintro ⟨_, hrest⟩
      have hnext := hrest.first
      exact ⟨hiff.mp hnext, (ih hnext hP.2).mp hrest⟩
    · rintro ⟨hQ, hrest⟩
      have hnext := hiff.mpr hQ
      exact ⟨hs, (ih hnext hP.2).mpr hrest⟩

/-- **Exact invariant rule, within a context.** Where a context makes `R` after a step
equivalent to `Q` of the step, and lasts as long as `R` does, a run has `R` throughout iff all
its steps have `Q`. -/
theorem throughout_iff_along_within {I R : State → Prop} {Q : State → Event → Prop}
    (hstep : ∀ s e, I s → (R (step s e) ↔ Q s e))
    (hkeep : ∀ s e, I s → R (step s e) → I (step s e)) {s : State} {es : List Event}
    (hI : I s) (hR : R s) : Throughout step R s es ↔ Along step Q s es := by
  induction es generalizing s with
  | nil => exact ⟨fun _ => trivial, fun _ => hR⟩
  | cons e es ih =>
    constructor
    · rintro ⟨_, hrest⟩
      have hnext := hrest.first
      exact ⟨(hstep s e hI).mp hnext, (ih (hkeep s e hI hnext) hnext).mp hrest⟩
    · rintro ⟨hQ, hrest⟩
      have hnext := (hstep s e hI).mpr hQ
      exact ⟨hR, (ih (hkeep s e hI hnext) hnext).mpr hrest⟩

/-- **Invariant rule, final state.** -/
theorem run_of_step {I : State → Prop} {P : State → Event → Prop}
    (hstep : ∀ s e, I s → P s e → I (step s e)) {s : State} {es : List Event}
    (hs : I s) (hP : Along step P s es) : I (run step s es) :=
  (throughout_of_step hstep hs hP).last

/-- **Invariant rule with a conclusion at each step.** An invariant kept by the
admitted steps may be used to derive a property of each of them. -/
theorem along_of_step {I : State → Prop} {P Q : State → Event → Prop}
    (hstep : ∀ s e, I s → P s e → I (step s e)) (hQ : ∀ s e, I s → P s e → Q s e)
    {s : State} {es : List Event} (hs : I s) (hP : Along step P s es) : Along step Q s es := by
  induction es generalizing s with
  | nil => trivial
  | cons e es ih => exact ⟨hQ s e hs hP.1, ih (hstep s e hs hP.1) hP.2⟩

/-- **Leads-to rule.** Where `I` lasts until an event of a kind leads to `J`, and `J` lasts
from then on, a run with an event of that kind ends in `J`. -/
theorem run_of_leadsTo {I J : State → Prop} {P : State → Event → Prop} {E : Event → Prop}
    (hwait : ∀ s e, I s → P s e → ¬ E e → I (step s e))
    (hreach : ∀ s e, I s → P s e → E e → J (step s e))
    (hstay : ∀ s e, J s → P s e → J (step s e))
    {s : State} {es : List Event} (hs : I s) (hP : Along step P s es) (hE : ∃ e ∈ es, E e) :
    J (run step s es) := by
  induction es generalizing s with
  | nil =>
    obtain ⟨e, he, _⟩ := hE
    exact absurd he List.not_mem_nil
  | cons e es ih =>
    by_cases he : E e
    · rw [run_cons]
      exact run_of_step hstay (hreach s e hs hP.1 he) hP.2
    · refine ih (hwait s e hs hP.1 he) hP.2 ?_
      obtain ⟨e', he', hE'⟩ := hE
      rcases List.mem_cons.mp he' with rfl | hlater
      · exact absurd hE' he
      · exact ⟨e', hlater, hE'⟩

/-- **Backward rule.** What a step cannot restore holds throughout a run if it holds in its
last state. -/
theorem throughout_of_last {I J : State → Prop} (hstep : ∀ s e, J s → I (step s e) → I s)
    {s : State} {es : List Event} (hJ : Throughout step J s es) (hlast : I (run step s es)) :
    Throughout step I s es := by
  induction es generalizing s with
  | nil => exact hlast
  | cons e es ih =>
    have hrest := ih hJ.2 hlast
    exact ⟨hstep s e hJ.1 hrest.first, hrest⟩

end Transition
