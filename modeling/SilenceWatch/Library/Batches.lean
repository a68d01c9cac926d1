import Mathlib.Data.List.Nodup
import Mathlib.Data.List.Perm.Subperm

/-!
# Deletions in batches

A deletion of all rows that are due, a bounded number at a time, until a batch deletes fewer
than it may. A limit without an order takes any rows; what is due may change from one batch to
the next. Only rows that were due at some batch go, and all that were due at every batch do
if the batches could hold them.
-/

namespace Relational

variable {Row State : Type*}

/-- `LIMIT size` without an order: which rows it takes is up to the database. -/
structure Limit (size : ℕ) (Row : Type*) where
  pick : List Row → List Row
  subperm : ∀ rows, (pick rows).Subperm rows
  length : ∀ rows, (pick rows).length = min size rows.length

theorem length_take_eq (size : ℕ) (rows : List Row) :
    (rows.take size).length = min size rows.length := List.length_take

/-- The first rows. -/
def Limit.first (size : ℕ) : Limit size Row where
  pick := List.take size
  subperm rows := (List.take_sublist size rows).subperm
  length := length_take_eq size

/-- A limit that is not reached takes every row. -/
theorem Limit.perm {size : ℕ} (limit : Limit size Row) {rows : List Row}
    (h : (limit.pick rows).length < size) : (limit.pick rows).Perm rows := by
  have hlength := limit.length rows
  exact (limit.subperm rows).perm_of_length_le (by omega)

/-- Batches until one deletes fewer rows than it may, with the number of rows deleted. A batch
that fails ends them. -/
def batches (size : ℕ) (batch : ℕ → State → Option (State × ℕ)) :
    ℕ → ℕ → State → State × Option ℕ
  | 0, _, s => (s, some 0)
  | n + 1, b, s =>
    match batch b s with
    | none => (s, none)
    | some (s', count) =>
      if count < size then (s', some count)
      else ((batches size batch n (b + 1) s').1,
        (batches size batch n (b + 1) s').2.map (count + ·))

/-- A batch deletes rows that are due, and all of them if it deletes fewer than it may. -/
structure DeletesDue (size : ℕ) (due : Row → Prop) (before after : List Row) (count : ℕ) :
    Prop where
  removed : ∃ removed, before.Perm (after ++ removed) ∧ removed.length = count ∧
    ∀ r ∈ removed, due r
  all : count < size → ∀ r ∈ after, ¬ due r

/-- Keys that are found row by row are those of the rows that are due. -/
theorem flatMap_ite_eq {Key : Type*} (key : Row → Key) (due : Row → Prop) [DecidablePred due]
    (rows : List Row) :
    (rows.flatMap fun r => if due r then [key r] else []) = (rows.filter due).map key := by
  induction rows with
  | nil => rfl
  | cons r rows ih =>
    rw [List.flatMap_cons, ih]
    by_cases hdue : due r
    · rw [if_pos hdue, List.filter_cons_of_pos (by simpa using hdue)]
      rfl
    · rw [if_neg hdue, List.filter_cons_of_neg (by simpa using hdue)]
      rfl

/-- **One batch.** Deleting the rows whose keys a limit takes from those that are due deletes
rows that are due, and all of them where the limit is not reached. -/
theorem deletesDue_of_limit {Key : Type*} [DecidableEq Key] {size : ℕ} (limit : Limit size Key)
    (key : Row → Key) (due : Row → Prop) [DecidablePred due] {rows : List Row}
    (hnodup : (rows.map key).Nodup) {doomed : List Key}
    (hdoomed : doomed = limit.pick ((rows.filter due).map key)) :
    DeletesDue size due rows (rows.filter fun r => ¬ key r ∈ doomed)
      (rows.countP fun r => key r ∈ doomed) := by
  have hkeys : doomed.Subperm ((rows.filter due).map key) := by
    rw [hdoomed]
    exact limit.subperm _
  refine ⟨⟨rows.filter fun r => key r ∈ doomed, ?_, ?_, ?_⟩, ?_⟩
  · have hsplit := List.filter_append_perm (fun r => decide (key r ∈ doomed)) rows
    have hflip : (rows.filter fun r => !decide (key r ∈ doomed)) =
        rows.filter fun r => ¬ key r ∈ doomed :=
      List.filter_congr fun r _ => (decide_not).symm
    rw [hflip] at hsplit
    exact (List.perm_append_comm.trans hsplit).symm
  · exact List.countP_eq_length_filter.symm
  · intro r hr
    obtain ⟨hr, hmem⟩ := List.mem_filter.mp hr
    obtain ⟨r', hr', hsame⟩ := List.mem_map.mp (hkeys.subset (of_decide_eq_true hmem))
    obtain ⟨hr', hdue⟩ := List.mem_filter.mp hr'
    rw [← List.inj_on_of_nodup_map hnodup hr' hr hsame]
    exact of_decide_eq_true hdue
  · intro hfew r hr hdue
    obtain ⟨hr, hspared⟩ := List.mem_filter.mp hr
    have hdoomedNodup : doomed.Nodup := by
      obtain ⟨keys, hperm, hsublist⟩ := hkeys
      exact hperm.nodup_iff.mp (hsublist.nodup ((List.filter_sublist.map key).nodup hnodup))
    have hremoved : doomed ⊆ (rows.filter fun r => key r ∈ doomed).map key := by
      intro k hk
      obtain ⟨r', hr', hsame⟩ := List.mem_map.mp (hkeys.subset hk)
      refine List.mem_map.mpr ⟨r', List.mem_filter.mpr ⟨(List.mem_filter.mp hr').1, ?_⟩, hsame⟩
      rw [hsame]
      exact decide_eq_true hk
    have hlength : doomed.length ≤ rows.countP fun r => key r ∈ doomed := by
      have hle := (hdoomedNodup.subperm hremoved).length_le
      rwa [List.length_map, ← List.countP_eq_length_filter] at hle
    have hall : doomed.Perm ((rows.filter due).map key) := by
      have hshort : doomed.length < size := by omega
      rw [hdoomed] at hshort ⊢
      exact limit.perm hshort
    have hmem : key r ∈ doomed :=
      hall.mem_iff.mpr (List.mem_map_of_mem (List.mem_filter.mpr ⟨hr, decide_eq_true hdue⟩))
    exact of_decide_eq_true hspared hmem

variable {size : ℕ} {batch : ℕ → State → Option (State × ℕ)} {rows : State → List Row}
  {due : ℕ → Row → Prop} {I : State → Prop}

/-- **The batches.** Where each batch succeeds, they delete rows that were due at one of them,
and end with a batch that left none that was due, or with as many rows as they may. -/
theorem batches_spec
    (hbatch : ∀ b s, I s → ∃ s' count, batch b s = some (s', count) ∧ I s' ∧
      DeletesDue size (due b) (rows s) (rows s') count)
    (n b : ℕ) {s : State} (hs : I s) :
    ∃ s' total, batches size batch n b s = (s', some total) ∧ I s' ∧
      (∃ removed, (rows s).Perm (rows s' ++ removed) ∧ removed.length = total ∧
        ∀ r ∈ removed, ∃ i, b ≤ i ∧ i < b + n ∧ due i r) ∧
      (n * size ≤ total ∨ ∃ i, b ≤ i ∧ i < b + n ∧ ∀ r ∈ rows s', ¬ due i r) := by
  induction n generalizing b s with
  | zero =>
    refine ⟨s, 0, rfl, hs, ⟨[], ?_, rfl, fun r hr => absurd hr List.not_mem_nil⟩, Or.inl ?_⟩
    · rw [List.append_nil]
    · omega
  | succ n ih =>
    obtain ⟨s₁, count, hstep, hs₁, ⟨removed, hperm, hlength, hdue⟩, hall⟩ := hbatch b s hs
    rw [batches, hstep]
    dsimp only
    by_cases hfew : count < size
    · rw [if_pos hfew]
      refine ⟨s₁, count, rfl, hs₁, ⟨removed, hperm, hlength, fun r hr => ?_⟩, Or.inr ?_⟩
      · exact ⟨b, Nat.le_refl b, by omega, hdue r hr⟩
      · exact ⟨b, Nat.le_refl b, by omega, hall hfew⟩
    · rw [if_neg hfew]
      obtain ⟨s₂, total, hrest, hs₂, ⟨removed', hperm', hlength', hdue'⟩, hend⟩ := ih (b + 1) hs₁
      rw [hrest]
      refine ⟨s₂, count + total, rfl, hs₂, ⟨removed' ++ removed, ?_, ?_, fun r hr => ?_⟩, ?_⟩
      · rw [← List.append_assoc]
        exact hperm.trans (hperm'.append_right removed)
      · rw [List.length_append]
        omega
      · rcases List.mem_append.mp hr with hlater | hfirst
        · obtain ⟨i, hge, hlt, hdue⟩ := hdue' r hlater
          exact ⟨i, by omega, by omega, hdue⟩
        · exact ⟨b, Nat.le_refl b, by omega, hdue r hfirst⟩
      · rcases hend with hmany | ⟨i, hge, hlt, hnone⟩
        · left
          have hsize : size ≤ count := Nat.le_of_not_lt hfew
          rw [Nat.succ_mul]
          omega
        · exact Or.inr ⟨i, by omega, by omega, hnone⟩

/-- **What is due all the time goes.** -/
theorem not_due_of_batches {n b total : ℕ} {before after removed : List Row}
    (hperm : before.Perm (after ++ removed)) (hlength : removed.length = total)
    (hdue : ∀ r ∈ removed, ∃ i, b ≤ i ∧ i < b + n ∧ due i r)
    (hend : n * size ≤ total ∨ ∃ i, b ≤ i ∧ i < b + n ∧ ∀ r ∈ after, ¬ due i r)
    (sometimes : Row → Bool) (hsometimes : ∀ r i, b ≤ i → i < b + n → due i r → sometimes r = true)
    (hfew : before.countP sometimes < n * size) :
    ∃ i, b ≤ i ∧ i < b + n ∧ ∀ r ∈ after, ¬ due i r := by
  refine hend.resolve_left fun hmany => ?_
  have hcount : removed.countP sometimes = removed.length := by
    refine List.countP_eq_length.mpr fun r hr => ?_
    obtain ⟨i, hge, hlt, hi⟩ := hdue r hr
    exact hsometimes r i hge hlt hi
  rw [hperm.countP_eq, List.countP_append] at hfew
  omega

end Relational
