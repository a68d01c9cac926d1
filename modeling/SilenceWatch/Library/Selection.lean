import Mathlib.Data.List.Sort

/-!
# Ordered, limited selections

`SELECT ... WHERE p ORDER BY le LIMIT n` as a function of the rows in physical
order. Ties of the ordering fall in physical order, so a statement about every
order of the rows is a statement about every way to break the ties.
-/

namespace Relational

variable {Row : Type*}

/-- `SELECT ... WHERE p ORDER BY le LIMIT n`. -/
def select (p : Row → Prop) [DecidablePred p] (le : Row → Row → Prop) [DecidableRel le]
    (n : ℕ) (rows : List Row) : List Row :=
  ((rows.filter p).insertionSort le).take n

section Select

variable (p : Row → Prop) [DecidablePred p] (le : Row → Row → Prop) [DecidableRel le]

/-- Only matching rows are selected. -/
theorem mem_of_mem_select {n : ℕ} {rows : List Row} {r : Row} (h : r ∈ select p le n rows) :
    r ∈ rows ∧ p r := by
  have hsorted : r ∈ (rows.filter p).insertionSort le := List.mem_of_mem_take h
  rw [List.mem_insertionSort] at hsorted
  simpa using hsorted

/-- The limit bounds the number of selected rows. -/
theorem length_select_le (n : ℕ) (rows : List Row) : (select p le n rows).length ≤ n :=
  List.length_take_le n _

/-- A selection without a limit that bites takes all matching rows, else as many as allowed. -/
theorem length_select (n : ℕ) (rows : List Row) :
    (select p le n rows).length = min n (rows.countP p) := by
  rw [select, List.length_take, (List.perm_insertionSort le _).length_eq,
    List.countP_eq_length_filter]

/-- A condition on the rows may be asked by the selection. -/
theorem select_filter (q : Row → Prop) [DecidablePred q] (n : ℕ) (rows : List Row) :
    select p le n (rows.filter q) = select (fun r => q r ∧ p r) le n rows := by
  unfold select
  rw [List.filter_filter]
  simp only [Bool.decide_and, Bool.and_comm]

/-- What is selected comes before what matches and is not. -/
theorem le_of_mem_select [Std.Total le] [IsTrans Row le] {n : ℕ} {rows : List Row} {r r' : Row}
    (hr : r ∈ select p le n rows) (hr' : r' ∈ rows) (hp : p r')
    (hnot : r' ∉ select p le n rows) : le r r' := by
  unfold select at hr hnot
  have hmem : r' ∈ (rows.filter p).insertionSort le := by
    rw [List.mem_insertionSort]
    exact List.mem_filter.mpr ⟨hr', by simpa using hp⟩
  have hsorted := List.pairwise_insertionSort le (rows.filter p)
  rw [← List.take_append_drop n ((rows.filter p).insertionSort le)] at hmem hsorted
  have hdrop := (List.mem_append.mp hmem).resolve_left hnot
  exact (List.pairwise_append.mp hsorted).2.2 r hr r' hdrop

/-- A selection repeats no key that the rows do not repeat. -/
theorem nodup_map_select {Key : Type*} (key : Row → Key) (n : ℕ) {rows : List Row}
    (hkeys : (rows.map key).Nodup) : ((select p le n rows).map key).Nodup := by
  have hperm : ((rows.filter p).insertionSort le).Perm (rows.filter p) :=
    List.perm_insertionSort le _
  have hsorted : (((rows.filter p).insertionSort le).map key).Nodup :=
    (hperm.map key).nodup_iff.mpr (hkeys.sublist (List.filter_sublist.map key))
  exact ((List.take_sublist n _).map key).nodup hsorted

/-- A row that the ordering puts before all other matching rows is the first one. -/
theorem select_one [Std.Total le] [IsTrans Row le] {rows : List Row} {r : Row} (hr : r ∈ rows)
    (hp : p r) (hfirst : ∀ q ∈ rows, p q → q = r ∨ ¬ le q r) : select p le 1 rows = [r] := by
  unfold select
  have hmem : r ∈ (rows.filter p).insertionSort le := by
    rw [List.mem_insertionSort]
    exact List.mem_filter.mpr ⟨hr, by simpa using hp⟩
  have hsorted := List.pairwise_insertionSort le (rows.filter p)
  have hall : ∀ q ∈ (rows.filter p).insertionSort le, q = r ∨ ¬ le q r := by
    intro q hq
    rw [List.mem_insertionSort] at hq
    exact hfirst q (List.mem_filter.mp hq).1 (of_decide_eq_true (List.mem_filter.mp hq).2)
  generalize (rows.filter p).insertionSort le = sorted at hmem hsorted hall
  cases sorted with
  | nil => cases hmem
  | cons first rest =>
    have hhead : first = r := by
      rcases hall first List.mem_cons_self with heq | hnot
      · exact heq
      · rcases List.mem_cons.mp hmem with heq | hrest
        · exact heq.symm
        · exact absurd ((List.pairwise_cons.mp hsorted).1 r hrest) hnot
    rw [hhead]
    rfl

/-- Counting the matching rows that a selection by key leaves out: all but `n`. -/
theorem countP_not_selected {Key : Type*} [DecidableEq Key] (key : Row → Key) (n : ℕ)
    {rows : List Row} (hkeys : (rows.map key).Nodup) :
    rows.countP (fun r => p r ∧ key r ∉ (select p le n rows).map key) = rows.countP p - n := by
  set sorted := (rows.filter p).insertionSort le with hsorted
  have hperm : sorted.Perm (rows.filter p) := List.perm_insertionSort le _
  have hnodup : (sorted.map key).Nodup :=
    (hperm.map key).nodup_iff.mpr (hkeys.sublist (List.filter_sublist.map key))
  have hsplit : (sorted.take n).map key ++ (sorted.drop n).map key = sorted.map key := by
    rw [← List.map_append, List.take_append_drop]
  have hdisjoint : ∀ r ∈ sorted.drop n, key r ∉ (sorted.take n).map key := by
    intro r hr hmem
    rw [← hsplit] at hnodup
    exact (List.nodup_append.mp hnodup).2.2 _ hmem _ (List.mem_map_of_mem hr) rfl
  calc rows.countP (fun r => p r ∧ key r ∉ (select p le n rows).map key)
      = (rows.filter p).countP (fun r => key r ∉ (sorted.take n).map key) := by
        rw [List.countP_filter]
        simp only [Bool.decide_and, select, ← hsorted, Bool.and_comm]
    _ = sorted.countP (fun r => key r ∉ (sorted.take n).map key) := (hperm.countP_eq _).symm
    _ = (sorted.take n).countP (fun r => key r ∉ (sorted.take n).map key) +
          (sorted.drop n).countP (fun r => key r ∉ (sorted.take n).map key) := by
        rw [← List.countP_append, List.take_append_drop]
    _ = 0 + (sorted.drop n).length := by
        congr 1
        · rw [List.countP_eq_zero]
          intro r hr
          simpa only [decide_not, Bool.not_eq_true', decide_eq_false_iff_not, not_not] using
            List.mem_map_of_mem hr
        · rw [List.countP_eq_length]
          intro r hr
          simpa using hdisjoint r hr
    _ = rows.countP p - n := by
        rw [List.length_drop, hperm.length_eq, List.countP_eq_length_filter, Nat.zero_add]

end Select

end Relational
