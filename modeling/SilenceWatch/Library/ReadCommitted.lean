import SilenceWatch.Library.Run

/-!
# Statements on one row under READ COMMITTED

A statement starts by reading the newest committed version of the row, its snapshot;
one whose guard rejects the snapshot is over. The others write later, in any order:
a row lock makes them take turns, and whoever gets it writes over the version that is
the newest by then without asking the guard again. Plain updates read nothing first.
-/

namespace ReadCommitted

open Transition

variable {Row Statement Update : Type*}

/-- The newest committed version of the row, and the statements that have read their
snapshot and not written yet. -/
structure State (Row Statement : Type*) where
  newest : Row
  underWay : List (Statement × Row)
  deriving DecidableEq

/-- What happens to the row. -/
inductive Event (Row Statement Update : Type*) where
  /-- The statement reads its snapshot. -/
  | start (stmt : Statement)
  /-- The statement, which read this snapshot, writes and commits. -/
  | commit (stmt : Statement) (snapshot : Row)
  /-- A plain update commits. -/
  | update (u : Update)
  deriving DecidableEq

/-- Only statements with a snapshot, no plain updates. -/
def Event.NoUpdate : Event Row Statement Update → Prop
  | .update _ => False
  | _ => True

instance (e : Event Row Statement Update) : Decidable e.NoUpdate := by
  unfold Event.NoUpdate
  split <;> infer_instance

section Steps

variable [DecidableEq Row] [DecidableEq Statement] (reads : Statement → Row → Prop)
  [∀ stmt row, Decidable (reads stmt row)] (writes : Statement → Row → Row → Row)
  (apply : Update → Row → Row)

/-- One event. A statement writes from its snapshot over the newest version. -/
def step (s : State Row Statement) : Event Row Statement Update → State Row Statement
  | .start stmt =>
    if reads stmt s.newest then { s with underWay := s.underWay ++ [(stmt, s.newest)] } else s
  | .commit stmt snapshot =>
    if (stmt, snapshot) ∈ s.underWay then
      { newest := writes stmt snapshot s.newest
        underWay := s.underWay.erase (stmt, snapshot) }
    else s
  | .update u => { s with newest := apply u s.newest }

/-- The statements that commit in a run, in that order. -/
def committed : State Row Statement → List (Event Row Statement Update) → List Statement
  | _, [] => []
  | s, e :: es =>
    match e with
    | .commit stmt snapshot =>
      if (stmt, snapshot) ∈ s.underWay then
        stmt :: committed (step reads writes apply s e) es
      else committed (step reads writes apply s e) es
    | _ => committed (step reads writes apply s e) es

variable {reads writes apply} {s : State Row Statement} {e : Event Row Statement Update}
  {es : List (Event Row Statement Update)}

variable (reads writes apply) in
/-- Alone, a statement reads and writes the same version. -/
theorem run_alone (stmt : Statement) (row : Row) :
    run (step reads writes apply) ⟨row, []⟩ [.start stmt, .commit stmt row] =
      ⟨if reads stmt row then writes stmt row row else row, []⟩ := by
  by_cases hreads : reads stmt row
  · simp [step, hreads]
  · simp [step, hreads]

variable (reads writes apply e) in
/-- A statement stays under way until it commits. -/
theorem mem_underWay_step {stmt : Statement} {snapshot : Row}
    (hmem : (stmt, snapshot) ∈ s.underWay) :
    (stmt, snapshot) ∈ (step reads writes apply s e).underWay ∨ e = .commit stmt snapshot := by
  cases e with
  | start stmt' =>
    left
    unfold step
    dsimp only
    split
    · exact List.mem_append_left _ hmem
    · exact hmem
  | commit stmt' snapshot' =>
    by_cases hsame : (stmt, snapshot) = (stmt', snapshot')
    · cases hsame
      exact Or.inr rfl
    · left
      unfold step
      dsimp only
      split
      · exact (List.mem_erase_of_ne hsame).mpr hmem
      · exact hmem
  | update u => exact Or.inl hmem

/-- What is under way was before, or has just read the newest version. -/
theorem underWay_step {stmt : Statement} {snapshot : Row}
    (hmem : (stmt, snapshot) ∈ (step reads writes apply s e).underWay) :
    (stmt, snapshot) ∈ s.underWay ∨
      (e = .start stmt ∧ snapshot = s.newest ∧ reads stmt s.newest) := by
  cases e with
  | start stmt' =>
    simp only [step] at hmem
    split at hmem
    · next hreads =>
      rcases List.mem_append.mp hmem with hold | hnew
      · exact Or.inl hold
      · cases List.mem_singleton.mp hnew
        exact Or.inr ⟨rfl, rfl, hreads⟩
    · exact Or.inl hmem
  | commit stmt' snapshot' =>
    simp only [step] at hmem
    split at hmem
    · exact Or.inl (List.mem_of_mem_erase hmem)
    · exact Or.inl hmem
  | update u => exact Or.inl hmem

variable (reads writes apply) in
/-- An event that is no plain update leaves the newest version, or commits a statement
that writes over it. -/
theorem step_cases (s : State Row Statement) (he : e.NoUpdate)
    (es : List (Event Row Statement Update)) :
    ((step reads writes apply s e).newest = s.newest ∧
        committed reads writes apply s (e :: es) =
          committed reads writes apply (step reads writes apply s e) es) ∨
      ∃ stmt snapshot, e = .commit stmt snapshot ∧ (stmt, snapshot) ∈ s.underWay ∧
        (step reads writes apply s e).newest = writes stmt snapshot s.newest ∧
        committed reads writes apply s (e :: es) =
          stmt :: committed reads writes apply (step reads writes apply s e) es := by
  cases e with
  | start stmt =>
    left
    refine ⟨?_, rfl⟩
    unfold step
    dsimp only
    split
    · rfl
    · rfl
  | commit stmt snapshot =>
    by_cases hmem : (stmt, snapshot) ∈ s.underWay
    · right
      refine ⟨stmt, snapshot, rfl, hmem, ?_, ?_⟩
      · simp [step, hmem]
      · simp [committed, hmem]
    · left
      constructor
      · simp [step, hmem]
      · simp [committed, hmem]
  | update u => exact he.elim

section Part

variable {Part : Type*} {part : Row → Part} {value : Statement → Part}

/-- **The last to commit wins.** A part of the row that every statement overwrites with
a value of its own holds, after a run without plain updates, the value of the statement
that committed last. -/
theorem part_run_eq (hes : ∀ e ∈ es, e.NoUpdate)
    (hwrites : ∀ stmt ∈ committed reads writes apply s es, ∀ snapshot row,
      part (writes stmt snapshot row) = value stmt) :
    part (run (step reads writes apply) s es).newest =
      (part s.newest :: (committed reads writes apply s es).map value).getLast
        (List.cons_ne_nil _ _) := by
  induction es generalizing s with
  | nil => rfl
  | cons e es ih =>
    have hrest := fun e' he' => hes e' (List.mem_cons_of_mem e he')
    rcases step_cases reads writes apply s (hes e List.mem_cons_self) es with
      ⟨hnewest, hcommitted⟩ | ⟨stmt, snapshot, _, _, hnewest, hcommitted⟩
    · rw [hcommitted] at hwrites
      simp only [run_cons, ih hrest hwrites, hnewest, hcommitted]
    · rw [hcommitted] at hwrites
      have hpart := hwrites stmt List.mem_cons_self snapshot s.newest
      have hlater := fun stmt' h' => hwrites stmt' (List.mem_cons_of_mem stmt h')
      simp only [run_cons, ih hrest hlater, hnewest, hpart, hcommitted, List.map_cons]
      rw [List.getLast_cons (List.cons_ne_nil _ _)]

/-- Such a part moves along a relation at every step of a run without plain updates,
exactly if the values of the statements do in the order of their commits. -/
theorem along_part_iff {R : Part → Part → Prop} (hrefl : ∀ x, R x x)
    (hes : ∀ e ∈ es, e.NoUpdate)
    (hwrites : ∀ stmt ∈ committed reads writes apply s es, ∀ snapshot row,
      part (writes stmt snapshot row) = value stmt) :
    Along (step reads writes apply)
        (fun s e => R (part s.newest) (part (step reads writes apply s e).newest)) s es ↔
      List.IsChain R (part s.newest :: (committed reads writes apply s es).map value) := by
  induction es generalizing s with
  | nil => simp [committed]
  | cons e es ih =>
    have hrest := fun e' he' => hes e' (List.mem_cons_of_mem e he')
    rw [along_cons]
    rcases step_cases reads writes apply s (hes e List.mem_cons_self) es with
      ⟨hnewest, hcommitted⟩ | ⟨stmt, snapshot, _, _, hnewest, hcommitted⟩
    · rw [hcommitted] at hwrites
      rw [ih hrest hwrites, hnewest, hcommitted]
      exact and_iff_right (hrefl _)
    · rw [hcommitted] at hwrites
      have hpart := hwrites stmt List.mem_cons_self snapshot s.newest
      have hlater := fun stmt' h' => hwrites stmt' (List.mem_cons_of_mem stmt h')
      rw [ih hrest hlater, hnewest, hpart, hcommitted, List.map_cons, List.isChain_cons_cons]

end Part

end Steps

end ReadCommitted
