import SilenceWatch.Library.Backlog
import SilenceWatch.Pipeline.Machine

/-!
# The backlog of overdue checks

`advanceOverdueChecks` drains the overdue checks in bounded batches. With no other
writer and a fixed clock it moves every check to where its deadline says, whatever the
size of the batches and the order in which equal deadlines are selected.
-/

namespace SilenceWatch

open Relational Transition

/-- `advanceOverdueChecks`, with what is left of its batches. -/
def advanceBatches (now : ℤ) (batchSize : ℕ) : ℕ → Database → Database × List TransitionRow
  | 0, db => (db, [])
  | left + 1, db =>
    let (db, rows) := advanceSql now batchSize (fun _ => false) db
    -- Every selected row transitions, so a short batch means drained.
    if rows.length < batchSize then (db, rows)
    else
      let (db, others) := advanceBatches now batchSize left db
      (db, rows ++ others)

/-- A short batch ends the loop. -/
theorem advanceBatches_short {now : ℤ} {batchSize left : ℕ} {db : Database}
    (h : (advanceSql now batchSize (fun _ => false) db).2.length < batchSize) :
    advanceBatches now batchSize (left + 1) db =
      advanceSql now batchSize (fun _ => false) db := by
  rw [advanceBatches]
  exact if_pos h

/-- A full batch leaves the rest to the next ones. -/
theorem advanceBatches_full {now : ℤ} {batchSize left : ℕ} {db : Database}
    (h : ¬ (advanceSql now batchSize (fun _ => false) db).2.length < batchSize) :
    (advanceBatches now batchSize (left + 1) db).1 =
      (advanceBatches now batchSize left (advanceSql now batchSize (fun _ => false) db).1).1 := by
  rw [advanceBatches]
  dsimp only
  rw [if_neg h]

/-- `DetectionService.advanceOverdueChecks` without other writers. -/
def advanceOverdueChecks (now : ℤ) (batchSize : ℕ) (db : Database) :
    Database × List TransitionRow :=
  advanceBatches now batchSize maxBatches db

/-- `advanceOverdueChecks` where every batch may break the ties of its ordering in any
way: the batches left, the database, the transitions returned and the database after. -/
inductive AdvanceOverdueChecks (now : ℤ) (batchSize : ℕ) :
    ℕ → Database → List TransitionRow → Database → Prop
  | short {left : ℕ} {db : Database} {due : List Check} :
      Selects (Check.Due now) Check.DueBefore batchSize db.checks.rows due →
      (advanceBatch now due db).2.length < batchSize →
      AdvanceOverdueChecks now batchSize (left + 1) db (advanceBatch now due db).2
        (advanceBatch now due db).1
  | full {left : ℕ} {db db' : Database} {due : List Check} {others : List TransitionRow} :
      Selects (Check.Due now) Check.DueBefore batchSize db.checks.rows due →
      ¬ (advanceBatch now due db).2.length < batchSize →
      AdvanceOverdueChecks now batchSize left (advanceBatch now due db).1 others db' →
      AdvanceOverdueChecks now batchSize (left + 1) db ((advanceBatch now due db).2 ++ others) db'
  | notDrained {db : Database} : AdvanceOverdueChecks now batchSize 0 db [] db

/-- Where its deadline says a check is at `now`. -/
def Check.detected (now : ℤ) (c : Check) : Check :=
  if (c.state = .new ∨ c.state = .up ∨ c.state = .late) ∧ ∃ dueAt ∈ c.nextDueAt, dueAt < now then
    { c with state := if ∃ dueAt ∈ c.nextDueAt, c.graceEnd dueAt ≤ now then .down else .late }
  else c

section Detected

variable {now : ℤ} {c : Check}

instance : Std.Total Check.DueBefore :=
  ⟨fun c c' => le_total (c.nextDueAt.getD 0) (c'.nextDueAt.getD 0)⟩

instance : IsTrans Check Check.DueBefore := ⟨fun _ _ _ => le_trans⟩

/-- **Every selected row transitions.** -/
theorem Check.Due.transitions (h : c.Due now) : c.state ≠ c.nextState now := by
  obtain ⟨dueAt, hdue, _, hstate, hgrace⟩ := h
  unfold Check.nextState
  by_cases hend : ∃ dueAt ∈ c.nextDueAt, c.graceEnd dueAt ≤ now
  · rw [if_pos hend]
    rcases hstate with hstate | hstate | hstate <;> simp [hstate]
  · rw [if_neg hend]
    intro hlate
    rcases hgrace with hnot | hspent
    · exact hnot hlate
    · exact hend ⟨dueAt, hdue, hspent⟩

/-- A check that has transitioned is not due again at the same instant. -/
theorem Check.not_due_again : ¬ Check.Due now { c with state := c.nextState now } := by
  rintro ⟨dueAt, hdue, _, hstate, hgrace⟩
  by_cases hend : ∃ dueAt ∈ c.nextDueAt, c.graceEnd dueAt ≤ now
  · have hdown : c.nextState now = .down := if_pos hend
    simp [hdown] at hstate
  · have hlate : c.nextState now = .late := if_neg hend
    exact hend ⟨dueAt, hdue, hgrace.resolve_left fun hnot => hnot hlate⟩

/-- Writing the rows that are due takes every check to where its deadline says: the row
that stays is the one that is late and has grace left. -/
theorem Check.updateRow_due :
    updateRow (Check.Due now) (fun c => { c with state := c.nextState now }) c =
      c.detected now := by
  unfold updateRow Check.detected
  by_cases hdue : c.Due now
  · have hsame := hdue
    obtain ⟨dueAt, hat, hpast, hstate, _⟩ := hsame
    have hoverdue : (c.state = .new ∨ c.state = .up ∨ c.state = .late) ∧
        ∃ dueAt ∈ c.nextDueAt, dueAt < now := ⟨by tauto, dueAt, hat, hpast⟩
    rw [if_pos hdue, if_pos hoverdue]
    rfl
  · rw [if_neg hdue]
    by_cases hoverdue : (c.state = .new ∨ c.state = .up ∨ c.state = .late) ∧
        ∃ dueAt ∈ c.nextDueAt, dueAt < now
    · have hsame := hoverdue
      obtain ⟨hstate, dueAt, hat, hpast⟩ := hsame
      have hlate : c.state = .late := by
        by_contra hnot
        exact hdue ⟨dueAt, hat, hpast, by tauto, Or.inl hnot⟩
      have hgrace : ¬ ∃ dueAt ∈ c.nextDueAt, c.graceEnd dueAt ≤ now := by
        rintro ⟨dueAt', hat', hend⟩
        obtain rfl : dueAt = dueAt' := Option.some.inj (hat.symm.trans hat')
        exact hdue ⟨dueAt, hat, hpast, by tauto, Or.inr hend⟩
      rw [if_pos hoverdue, if_neg hgrace, ← hlate]
    · rw [if_neg hoverdue]

end Detected

section Exact

variable {now : ℤ} {batchSize left : ℕ} {db db' : Database} {due : List Check}
  {rows : List TransitionRow}

/-- The transition that a due check goes through. -/
def Check.transitionRow (now : ℤ) (c : Check) : TransitionRow :=
  ⟨c.id, c.name, c.state, c.nextState now⟩

/-- A batch returns one transition for every row it selected. -/
theorem advanceBatch_rows
    (hsel : Selects (Check.Due now) Check.DueBefore batchSize db.checks.rows due) :
    (advanceBatch now due db).2 = due.map (Check.transitionRow now) := by
  have hall : due.filter (fun c => c.state ≠ c.nextState now) = due := by
    refine List.filter_eq_self.mpr fun c hc => ?_
    simpa using (hsel.mem hc).2.transitions
  unfold advanceBatch
  dsimp only
  rw [hall]
  rfl

/-- A batch writes the rows it selected: the last guard of the statement spares none. -/
theorem advanceBatch_checks
    (hsel : Selects (Check.Due now) Check.DueBefore batchSize db.checks.rows due) :
    (advanceBatch now due db).1.checks.rows =
      transition Check.id (fun c => { c with state := c.nextState now }) due db.checks.rows := by
  refine List.map_congr_left fun c hc => ?_
  unfold updateRow
  by_cases hid : c.id ∈ due.map Check.id
  · have hdue := (hsel.mem ((hsel.mem_keys_iff db.check_ids_nodup hc).mp hid)).2
    rw [if_pos ⟨hid, hdue.transitions⟩, if_pos hid]
  · rw [if_neg fun h => hid h.1, if_neg hid]

/-- Advancing overdue checks drains the backlog of the checks that are due, and touches
no other table. -/
theorem AdvanceOverdueChecks.drains (h : AdvanceOverdueChecks now batchSize left db rows db') :
    db' = { db with checks := db'.checks } ∧
      ∃ batches, rows = batches.flatten.map (Check.transitionRow now) ∧
        Drains Check.id (Check.Due now) Check.DueBefore
          (fun c => { c with state := c.nextState now }) batchSize left db.checks.rows batches
          db'.checks.rows := by
  induction h with
  | @short left db due hsel hshort =>
    have hlength : due.length < batchSize := by
      rwa [advanceBatch_rows hsel, List.length_map] at hshort
    refine ⟨rfl, [due], ?_, ?_⟩
    · rw [advanceBatch_rows hsel, List.flatten_singleton]
    · rw [advanceBatch_checks hsel]
      exact Drains.short hsel hlength
  | @full left db db' due others hsel hfull _ ih =>
    have hlength : ¬ due.length < batchSize := by
      rwa [advanceBatch_rows hsel, List.length_map] at hfull
    obtain ⟨hframe, batches, hothers, hdrains⟩ := ih
    refine ⟨?_, due :: batches, ?_, ?_⟩
    · rw [hframe]
      rfl
    · rw [advanceBatch_rows hsel, hothers, List.flatten_cons, List.map_append]
    · rw [advanceBatch_checks hsel] at hdrains
      exact Drains.full hsel hlength hdrains
  | notDrained => exact ⟨rfl, [], rfl, Drains.stopped⟩

/-- The batches of the code are batches of this kind. -/
theorem advanceBatches_advances (now : ℤ) (batchSize left : ℕ) (db : Database) :
    AdvanceOverdueChecks now batchSize left db (advanceBatches now batchSize left db).2
      (advanceBatches now batchSize left db).1 := by
  induction left generalizing db with
  | zero => exact AdvanceOverdueChecks.notDrained
  | succ left ih =>
    have hbatch : dueBatch now batchSize (fun _ => false) db =
        select (Check.Due now) Check.DueBefore batchSize db.checks.rows := by
      simp [dueBatch]
    have hsel : Selects (Check.Due now) Check.DueBefore batchSize db.checks.rows
        (dueBatch now batchSize (fun _ => false) db) := by
      rw [hbatch]
      exact selects_select _ _ _ _
    unfold advanceBatches
    dsimp only
    split
    · next hshort => exact AdvanceOverdueChecks.short hsel hshort
    · next hfull => exact AdvanceOverdueChecks.full hsel hfull (ih _)

/-- **Detection is exact and independent of batching.** Where at most `maxBatches` batches
are due, every way to advance them, for any batch size and any order of ties, takes each
check to where its deadline says and changes nothing else, with one transition for each
check that was due; and there is such a way. -/
theorem advanceOverdueChecks_exact (now : ℤ) (db : Database) (batchSize : ℕ)
    (hbacklog : (db.checks.rows.filter (Check.Due now)).length ≤ maxBatches * batchSize) :
    AdvanceOverdueChecks now batchSize maxBatches db (advanceOverdueChecks now batchSize db).2
        (advanceOverdueChecks now batchSize db).1 ∧
      ∀ rows db', AdvanceOverdueChecks now batchSize maxBatches db rows db' →
        db' = { db with checks := db'.checks } ∧
          db'.checks.rows = db.checks.rows.map (Check.detected now) ∧
          rows.Perm ((db.checks.rows.filter (Check.Due now)).map (Check.transitionRow now)) ∧
          (rows.map TransitionRow.id).Nodup := by
  refine ⟨advanceBatches_advances now batchSize maxBatches db, fun rows db' h => ?_⟩
  obtain ⟨hframe, batches, rfl, hdrains⟩ := h.drains
  obtain ⟨hrows, hbatches⟩ := hdrains.exact db.check_ids_nodup (fun _ => rfl)
    (fun _ _ => Check.not_due_again) hbacklog
  have hperm := hbatches.map (Check.transitionRow now)
  refine ⟨hframe, ?_, hperm, ?_⟩
  · rw [hrows]
    exact List.map_congr_left fun c _ => Check.updateRow_due
  · rw [(hperm.map TransitionRow.id).nodup_iff, List.map_map]
    exact db.check_ids_nodup.sublist (List.filter_sublist.map Check.id)

/-- Two checks that have missed one deadline and their grace period, one that is late and one
whose deadline is to come. -/
def overdueDatabase : Database :=
  run (perform sampleServer) sampleDatabase
    [⟨0, .create 1 hourlyRequest "backup" 10 20⟩, ⟨0, .create 1 hourlyRequest "report" 11 21⟩,
      ⟨200000, .create 1 hourlyRequest "export" 12 22⟩,
      ⟨500000, .create 1 hourlyRequest "cleanup" 13 23⟩]

/-- In batches of two. -/
theorem advanceOverdueChecks_exact_overdue :
    (advanceOverdueChecks 3900000 2 overdueDatabase).1.checks.rows.map Check.state =
        [.down, .down, .late, .new] ∧
      ((advanceOverdueChecks 3900000 2 overdueDatabase).2.map TransitionRow.id).Perm
        [10, 11, 12] := by
  obtain ⟨hloop, hexact⟩ := advanceOverdueChecks_exact 3900000 overdueDatabase 2 (by decide)
  obtain ⟨_, hchecks, hrows, _⟩ := hexact _ _ hloop
  constructor
  · rw [hchecks]
    decide
  · exact hrows.map TransitionRow.id

end Exact

section Tick

variable (srv : Server) (st : Settings)

/-- **The tick of the pipeline** drains the backlog, one statement after the other, as the loop
does. -/
theorem run_advancing {s : Pipeline} {batch left : ℕ} (htick : s.tick = .advancing batch)
    (hleft : batch + left + 1 = maxBatches) :
    ∃ n, run (act srv st) s (List.replicate n (.tick fun _ => false)) =
      { s with
        db := (advanceBatches s.clock st.detectionBatchSize (left + 1) s.db).1
        tick := .opening } := by
  induction left generalizing s batch with
  | zero =>
    refine ⟨1, ?_⟩
    have hlast : maxBatches ≤ batch + 1 := by omega
    have hone : (advanceBatches s.clock st.detectionBatchSize 1 s.db).1 =
        (advanceSql s.clock st.detectionBatchSize (fun _ => false) s.db).1 := by
      by_cases hshort : (advanceSql s.clock st.detectionBatchSize (fun _ => false) s.db).2.length <
          st.detectionBatchSize
      · rw [advanceBatches_short hshort]
      · rw [advanceBatches_full hshort, advanceBatches]
    rw [hone]
    simp only [List.replicate_one, run_cons, run_nil, act, Pipeline.tickStep, htick, hlast, or_true,
      if_true]
  | succ left ih =>
    by_cases hshort : (advanceSql s.clock st.detectionBatchSize (fun _ => false) s.db).2.length <
        st.detectionBatchSize
    · refine ⟨1, ?_⟩
      rw [advanceBatches_short hshort]
      simp only [List.replicate_one, run_cons, run_nil, act, Pipeline.tickStep, htick, hshort,
        true_or, if_true]
    · have hmore : ¬ maxBatches ≤ batch + 1 := by omega
      have hstep : act srv st s (.tick fun _ => false) = { s with
          db := (advanceSql s.clock st.detectionBatchSize (fun _ => false) s.db).1
          tick := .advancing (batch + 1) } := by
        simp only [act, Pipeline.tickStep, htick, hshort, hmore, or_self, if_false]
      obtain ⟨n, hn⟩ := ih (s := act srv st s (.tick fun _ => false))
        (by rw [hstep]) (by omega)
      refine ⟨n + 1, ?_⟩
      rw [List.replicate_succ, run_cons, hn, hstep, advanceBatches_full hshort]

end Tick

end SilenceWatch
