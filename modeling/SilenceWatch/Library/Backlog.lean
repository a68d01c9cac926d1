import Mathlib.Tactic.Common
import SilenceWatch.Library.Selection
import SilenceWatch.Library.Table

/-!
# Draining a backlog in batches

A loop selects at most `n` of the rows that are due, writes each of them once, and
stops after a short batch or a fixed number of batches. If a written row is not due
any more, then a loop with enough batches writes exactly the rows that were due at
its start, whatever the ordering does with its ties and wherever the batches end.
-/

namespace Relational

variable {Row Key : Type*}

/-- `SELECT ... WHERE p ORDER BY le LIMIT n`, which may return rows that tie in any order. -/
def Selects (p : Row → Prop) [DecidablePred p] (le : Row → Row → Prop) (n : ℕ)
    (rows selected : List Row) : Prop :=
  ∃ sorted : List Row, sorted.Perm (rows.filter p) ∧ sorted.Pairwise le ∧ selected = sorted.take n

/-- The selection that breaks ties in physical order is one of them. -/
theorem selects_select (p : Row → Prop) [DecidablePred p] (le : Row → Row → Prop)
    [DecidableRel le] [Std.Total le] [IsTrans Row le] (n : ℕ) (rows : List Row) :
    Selects p le n rows (select p le n rows) :=
  ⟨_, List.perm_insertionSort le _, List.pairwise_insertionSort le _, rfl⟩

/-- The rows after the selected ones were written. -/
def transition [DecidableEq Key] (key : Row → Key) (f : Row → Row) (selected rows : List Row) :
    List Row :=
  rows.map (updateRow (fun r => key r ∈ selected.map key) f)

/-- The loop over at most so many batches, with the batches it selected. -/
inductive Drains [DecidableEq Key] (key : Row → Key) (p : Row → Prop) [DecidablePred p]
    (le : Row → Row → Prop) (f : Row → Row) (n : ℕ) :
    ℕ → List Row → List (List Row) → List Row → Prop
  | short {left : ℕ} {rows selected : List Row} : Selects p le n rows selected →
      selected.length < n → Drains key p le f n (left + 1) rows [selected]
        (transition key f selected rows)
  | full {left : ℕ} {rows selected rows' : List Row} {batches : List (List Row)} :
      Selects p le n rows selected → ¬ selected.length < n →
      Drains key p le f n left (transition key f selected rows) batches rows' →
      Drains key p le f n (left + 1) rows (selected :: batches) rows'
  | stopped {rows : List Row} : Drains key p le f n 0 rows [] rows

section Drains

variable [DecidableEq Key] {key : Row → Key} {p : Row → Prop} [DecidablePred p]
  {le : Row → Row → Prop} {f : Row → Row} {n left : ℕ} {rows selected rows' : List Row}
  {batches : List (List Row)}

/-- A selection takes part of the matching rows and leaves the rest. -/
theorem Selects.exists_rest (h : Selects p le n rows selected) :
    ∃ rest, (selected ++ rest).Perm (rows.filter p) ∧ selected.length ≤ n ∧
      (selected.length < n → rest = []) := by
  obtain ⟨sorted, hperm, _, rfl⟩ := h
  refine ⟨sorted.drop n, ?_, List.length_take_le n sorted, fun hshort => ?_⟩
  · rw [List.take_append_drop]
    exact hperm
  · rw [List.length_take] at hshort
    exact List.drop_eq_nil_of_le (by omega)

/-- Only matching rows are selected. -/
theorem Selects.mem (h : Selects p le n rows selected) {r : Row} (hr : r ∈ selected) :
    r ∈ rows ∧ p r := by
  obtain ⟨rest, hperm, _⟩ := h.exists_rest
  have hmem : r ∈ rows.filter p := hperm.subset (List.mem_append_left rest hr)
  simpa using hmem

omit [DecidableEq Key] in
/-- By its key a row is selected only if it is selected itself. -/
theorem Selects.mem_keys_iff (h : Selects p le n rows selected) (hkeys : (rows.map key).Nodup)
    {r : Row} (hr : r ∈ rows) : key r ∈ selected.map key ↔ r ∈ selected := by
  constructor
  · intro hmem
    obtain ⟨s, hs, heq⟩ := List.mem_map.mp hmem
    rw [← List.inj_on_of_nodup_map hkeys (h.mem hs).1 hr heq]
    exact hs
  · exact fun hmem => List.mem_map_of_mem hmem

/-- A batch anticipates what writing all the rows that are due would do to a row. -/
theorem Selects.updateRow_transition (h : Selects p le n rows selected)
    (hkeys : (rows.map key).Nodup) (hf : ∀ r, p r → ¬ p (f r)) :
    (transition key f selected rows).map (updateRow p f) = rows.map (updateRow p f) := by
  unfold transition
  rw [List.map_map]
  refine List.map_congr_left fun r hr => ?_
  by_cases hsel : r ∈ selected
  · have hdue := (h.mem hsel).2
    have hkey := (h.mem_keys_iff hkeys hr).mpr hsel
    simp only [Function.comp_apply, updateRow, if_pos hkey, if_pos hdue, if_neg (hf r hdue)]
  · have hkey := mt (h.mem_keys_iff hkeys hr).mp hsel
    simp only [Function.comp_apply, updateRow, if_neg hkey]

/-- The rows that are due after a batch are those that it left. -/
theorem Selects.filter_transition (h : Selects p le n rows selected)
    (hkeys : (rows.map key).Nodup) (hf : ∀ r, p r → ¬ p (f r)) :
    (transition key f selected rows).filter p =
      rows.filter fun r => p r ∧ key r ∉ selected.map key := by
  have hiff : ∀ r ∈ rows, (p (updateRow (fun r => key r ∈ selected.map key) f r) ↔
      p r ∧ key r ∉ selected.map key) := by
    intro r hr
    unfold updateRow
    by_cases hkey : key r ∈ selected.map key
    · have hdue := (h.mem ((h.mem_keys_iff hkeys hr).mp hkey)).2
      rw [if_pos hkey]
      exact ⟨fun hstill => absurd hstill (hf r hdue), fun hleft => absurd hkey hleft.2⟩
    · rw [if_neg hkey]
      exact ⟨fun hdue => ⟨hdue, hkey⟩, And.left⟩
  unfold transition
  clear hkeys h
  induction rows with
  | nil => rfl
  | cons r rows ih =>
    have hrest := ih fun r' hr' => hiff r' (List.mem_cons_of_mem r hr')
    have hhead := hiff r List.mem_cons_self
    rw [List.map_cons]
    by_cases hkept : p r ∧ key r ∉ selected.map key
    · have hsame : updateRow (fun r => key r ∈ selected.map key) f r = r := if_neg hkept.2
      rw [hsame, List.filter_cons_of_pos (by simpa using hkept.1),
        List.filter_cons_of_pos (by simpa using hkept), hrest]
    · rw [List.filter_cons_of_neg (by simpa using mt hhead.mp hkept),
        List.filter_cons_of_neg (by simpa using hkept), hrest]

/-- What a batch selects and what it leaves are the rows that were due. -/
theorem Selects.append_perm (h : Selects p le n rows selected) (hkeys : (rows.map key).Nodup) :
    (selected ++ rows.filter fun r => p r ∧ key r ∉ selected.map key).Perm (rows.filter p) := by
  obtain ⟨rest, hperm, _⟩ := h.exists_rest
  have hnodup : (selected ++ rest).Nodup :=
    hperm.nodup_iff.mpr ((List.Nodup.of_map key hkeys).filter _)
  have hmem : ∀ r ∈ selected ++ rest, r ∈ rows := fun r hr =>
    (List.mem_filter.mp (hperm.subset hr)).1
  have hrest : (rows.filter fun r => p r ∧ key r ∉ selected.map key) =
      (rows.filter p).filter fun r => key r ∉ selected.map key := by
    rw [List.filter_filter]
    simp only [Bool.decide_and, Bool.and_comm]
  have hself : selected.filter (fun r => key r ∉ selected.map key) = [] := by
    refine List.filter_eq_nil_iff.mpr fun r hr => ?_
    have hkey : key r ∈ selected.map key := List.mem_map_of_mem hr
    simpa only [decide_not, Bool.not_eq_true', decide_eq_false_iff_not, not_not] using hkey
  have hother : rest.filter (fun r => key r ∉ selected.map key) = rest := by
    refine List.filter_eq_self.mpr fun r hr => decide_eq_true fun hkey => ?_
    have hsel := (h.mem_keys_iff hkeys (hmem r (List.mem_append_right _ hr))).mp hkey
    exact (List.nodup_append.mp hnodup).2.2 r hsel r hr rfl
  have hperm' := hperm.filter fun r => key r ∉ selected.map key
  rw [List.filter_append, hself, hother, List.nil_append, ← hrest] at hperm'
  exact (hperm'.symm.append_left selected).trans hperm

/-- Writing all the rows that are due changes nothing when none is. -/
theorem map_updateRow_of_filter_nil (h : rows.filter p = []) : rows.map (updateRow p f) = rows := by
  refine (List.map_congr_left fun r hr => ?_).trans (List.map_id rows)
  have hnot : ¬ p r := by simpa using List.filter_eq_nil_iff.mp h r hr
  exact if_neg hnot

/-- The keys of the rows survive a batch. -/
theorem map_key_transition (hkey : ∀ r, key (f r) = key r) :
    (transition key f selected rows).map key = rows.map key := by
  unfold transition
  rw [List.map_map]
  refine List.map_congr_left fun r _ => ?_
  unfold Function.comp updateRow
  split
  · exact hkey r
  · rfl

/-- **A backlog is drained exactly.** With enough batches the loop writes every row that
was due at its start once and no other row, for every batch size and every order of ties. -/
theorem Drains.exact (h : Drains key p le f n left rows batches rows')
    (hkeys : (rows.map key).Nodup) (hkey : ∀ r, key (f r) = key r) (hf : ∀ r, p r → ¬ p (f r))
    (henough : (rows.filter p).length ≤ left * n) :
    rows' = rows.map (updateRow p f) ∧ batches.flatten.Perm (rows.filter p) := by
  induction h with
  | @short left rows selected hsel hshort =>
    have hrest : (rows.filter fun r => p r ∧ key r ∉ selected.map key) = [] := by
      obtain ⟨rest, hperm, _, hnone⟩ := hsel.exists_rest
      rw [hnone hshort, List.append_nil] at hperm
      have hlength := (hsel.append_perm hkeys).length_eq
      rw [List.length_append, hperm.length_eq] at hlength
      exact List.length_eq_zero_iff.mp (by omega)
    constructor
    · rw [← hsel.updateRow_transition hkeys hf, map_updateRow_of_filter_nil]
      rw [hsel.filter_transition hkeys hf, hrest]
    · have hall := hsel.append_perm hkeys
      rw [hrest, List.append_nil] at hall
      simpa using hall
  | @full left rows selected rows' batches hsel hfull hdrains ih =>
    have hall := hsel.append_perm hkeys
    have hleft := hsel.filter_transition hkeys hf
    have hcount : (rows.filter fun r => p r ∧ key r ∉ selected.map key).length ≤ left * n := by
      have hlength := hall.length_eq
      rw [List.length_append] at hlength
      rw [Nat.succ_mul] at henough
      omega
    obtain ⟨hrows, hbatches⟩ := ih (by rwa [map_key_transition hkey]) (by rwa [hleft])
    constructor
    · rw [hrows, hsel.updateRow_transition hkeys hf]
    · rw [hleft] at hbatches
      rw [List.flatten_cons]
      exact (hbatches.append_left selected).trans hall
  | @stopped rows =>
    have hnone : rows.filter p = [] := List.length_eq_zero_iff.mp (by omega)
    rw [hnone, map_updateRow_of_filter_nil hnone]
    exact ⟨rfl, List.Perm.refl _⟩

end Drains

end Relational
