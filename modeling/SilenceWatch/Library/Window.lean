import Mathlib.Algebra.Order.Group.Defs
import Mathlib.Data.List.Count

/-!
# Sliding windows

A record of instants is bounded when no window of a given width holds more than a given
number of them, wherever it ends. Windows are open at their start and closed at their
end. One more instant keeps the bound if it is the latest and the window that ends with
it is not full.
-/

namespace Chronicle

variable {Time : Type*} [AddCommGroup Time] [LinearOrder Time] {width now now' : Time} {bound : ℕ}
  {instants : List Time}

/-- How many instants lie in the window that ends at `now`. -/
def windowCount (width now : Time) (instants : List Time) : ℕ :=
  instants.countP fun at' => now - width < at' ∧ at' ≤ now

/-- How many instants lie after the start of the window that ends at `now`. -/
def recentCount (width now : Time) (instants : List Time) : ℕ :=
  instants.countP fun at' => now - width < at'

/-- No window holds more than `bound` instants. -/
def WindowBounded (width : Time) (bound : ℕ) (instants : List Time) : Prop :=
  ∀ now, windowCount width now instants ≤ bound

/-- Nothing happened yet. -/
theorem windowBounded_nil : WindowBounded width bound ([] : List Time) := fun _ => Nat.zero_le _

/-- One more instant counts once at most. -/
theorem recentCount_snoc_le (width now at' : Time) (instants : List Time) :
    recentCount width now (instants ++ [at']) ≤ recentCount width now instants + 1 := by
  unfold recentCount
  rw [List.countP_append]
  exact Nat.add_le_add_left List.countP_le_length _

variable [IsOrderedAddMonoid Time]

/-- What is recent later is recent now. -/
theorem recentCount_mono (hle : now ≤ now') (instants : List Time) :
    recentCount width now' instants ≤ recentCount width now instants := by
  refine List.countP_mono_left fun at' _ h => ?_
  exact decide_eq_true (lt_of_le_of_lt (sub_le_sub_right hle width) (of_decide_eq_true h))

/-- **One more instant keeps the bound** if it is the latest and fewer than `bound` others
are recent. -/
theorem WindowBounded.snoc (h : WindowBounded width bound instants)
    (hrecent : recentCount width now instants < bound) :
    WindowBounded width bound (instants ++ [now]) := by
  intro t
  unfold windowCount
  rw [List.countP_append]
  by_cases hin : t - width < now ∧ now ≤ t
  · have hle : instants.countP (fun at' => t - width < at' ∧ at' ≤ t) ≤
        recentCount width now instants := by
      refine List.countP_mono_left fun at' _ hat => ?_
      have hstart := (of_decide_eq_true hat).1
      exact decide_eq_true (lt_of_le_of_lt (sub_le_sub_right hin.2 width) hstart)
    have hone : [now].countP (fun at' => t - width < at' ∧ at' ≤ t) ≤ 1 := List.countP_le_length
    omega
  · have hnone : [now].countP (fun at' => t - width < at' ∧ at' ≤ t) = 0 := by simpa using hin
    rw [hnone]
    exact h t

end Chronicle
