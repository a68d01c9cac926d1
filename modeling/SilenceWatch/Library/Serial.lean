import Mathlib.Logic.Function.Basic
import Mathlib.Data.List.Nodup
import SilenceWatch.Library.Run

/-!
# Serial orders of interleaved transactions

Transactions share one store and take turns, a statement at a time. A transaction
stands well if what it has read so far is what it would read now; it then finishes
as if it ran alone from here. Where no turn takes this away from another transaction,
a run ends as the finished transactions one after the other would.
-/

namespace Interleaved

open Transition

variable {ι Store Phase : Type*} [DecidableEq ι]

/-- The store, and how far each transaction has come. -/
structure State (ι Store Phase : Type*) where
  store : Store
  phase : ι → Phase

/-- One transaction executes its next statement. -/
def step (advance : ι → Store → Phase → Store × Phase) (s : State ι Store Phase) (i : ι) :
    State ι Store Phase where
  store := (advance i s.store (s.phase i)).1
  phase := Function.update s.phase i (advance i s.store (s.phase i)).2

section

variable {advance : ι → Store → Phase → Store × Phase} {whole : ι → Store → Store}
  {Finished : Phase → Prop} {StandsWell : ι → Store → Phase → Prop}

/-- What a statement of a transaction that stands well does: nothing that others see, or
everything that is left to do. -/
def RunsAlone (advance : ι → Store → Phase → Store × Phase) (whole : ι → Store → Store)
    (Finished : Phase → Prop) (StandsWell : ι → Store → Phase → Prop) : Prop :=
  ∀ i store phase, ¬ Finished phase → StandsWell i store phase →
    ((advance i store phase).1 = store ∧ ¬ Finished (advance i store phase).2 ∧
        StandsWell i store (advance i store phase).2) ∨
      ((advance i store phase).1 = whole i store ∧ Finished (advance i store phase).2)

/-- The store is what the finished transactions leave in some order, and the others
stand well. -/
structure Serial (whole : ι → Store → Store) (Finished : Phase → Prop)
    (StandsWell : ι → Store → Phase → Prop) (start : Store) (order : List ι)
    (s : State ι Store Phase) : Prop where
  nodup : order.Nodup
  finished : ∀ i, i ∈ order ↔ Finished (s.phase i)
  store : s.store = order.foldl (fun store i => whole i store) start
  standsWell : ∀ i, ¬ Finished (s.phase i) → StandsWell i s.store (s.phase i)

theorem step_phase_self (s : State ι Store Phase) (i : ι) :
    (step advance s i).phase i = (advance i s.store (s.phase i)).2 :=
  Function.update_self ..

theorem step_phase_of_ne (s : State ι Store Phase) {i j : ι} (h : j ≠ i) :
    (step advance s i).phase j = s.phase j :=
  Function.update_of_ne h ..

/-- A turn that leaves the others standing well extends the serial order, at most by
the transaction that finishes. -/
theorem Serial.step {start : Store} {order : List ι} {s : State ι Store Phase} {i : ι}
    (hserial : Serial whole Finished StandsWell start order s)
    (halone : RunsAlone advance whole Finished StandsWell)
    (hdone : ∀ i store phase, Finished phase → advance i store phase = (store, phase))
    (hothers : ∀ j, j ≠ i → ¬ Finished (s.phase j) → StandsWell j s.store (s.phase j) →
      StandsWell j (advance i s.store (s.phase i)).1 (s.phase j)) :
    ∃ order', Serial whole Finished StandsWell start order' (step advance s i) ∧
      ((step advance s i).store = s.store ∨ (step advance s i).store = whole i s.store) := by
  by_cases hi : Finished (s.phase i)
  · have hsame : Interleaved.step advance s i = s := by
      unfold Interleaved.step
      rw [hdone i _ _ hi]
      dsimp only
      rw [Function.update_eq_self]
    rw [hsame]
    exact ⟨order, hserial, Or.inl rfl⟩
  · have hrest : ∀ j, j ≠ i → ¬ Finished ((Interleaved.step advance s i).phase j) →
        StandsWell j (Interleaved.step advance s i).store
          ((Interleaved.step advance s i).phase j) := by
      intro j hj hunfinished
      rw [step_phase_of_ne s hj] at hunfinished ⊢
      exact hothers j hj hunfinished (hserial.standsWell j hunfinished)
    rcases halone i _ _ hi (hserial.standsWell i hi) with
      ⟨hstore, hphase, hwell⟩ | ⟨hstore, hphase⟩
    · refine ⟨order, ⟨hserial.nodup, ?_, ?_, ?_⟩, Or.inl hstore⟩
      · intro j
        by_cases hj : j = i
        · subst hj
          rw [step_phase_self, hserial.finished]
          exact ⟨fun h => absurd h hi, fun h => absurd h hphase⟩
        · rw [step_phase_of_ne s hj, hserial.finished]
      · exact hstore.trans hserial.store
      · intro j hunfinished
        by_cases hj : j = i
        · subst hj
          rw [step_phase_self]
          have hkept : (Interleaved.step advance s j).store = s.store := hstore
          rw [hkept]
          exact hwell
        · exact hrest j hj hunfinished
    · have hnew : i ∉ order := fun h => hi ((hserial.finished i).mp h)
      refine ⟨order ++ [i], ⟨?_, ?_, ?_, ?_⟩, Or.inr hstore⟩
      · exact List.nodup_append.mpr ⟨hserial.nodup, List.nodup_singleton i, fun j hj k hk => by
          rw [List.mem_singleton.mp hk]
          exact fun h => hnew (h ▸ hj)⟩
      · intro j
        rw [List.mem_append, List.mem_singleton]
        by_cases hj : j = i
        · subst hj
          rw [step_phase_self]
          exact ⟨fun _ => hphase, fun _ => Or.inr rfl⟩
        · rw [step_phase_of_ne s hj, ← hserial.finished]
          exact ⟨fun h => h.resolve_right hj, Or.inl⟩
      · rw [List.foldl_append, ← hserial.store]
        exact hstore
      · intro j hunfinished
        by_cases hj : j = i
        · subst hj
          rw [step_phase_self] at hunfinished
          exact absurd hphase hunfinished
        · exact hrest j hj hunfinished

end

end Interleaved
