import SilenceWatch.Clients.Celery
import SilenceWatch.Schedule.Denotation

/-!
# Crontabs without loss

The fields that `compact` writes have the numbers that it is given, whatever their range. A star
on the server has one more weekday than in a crontab, which is Sunday once more.
-/

namespace SilenceWatch

open Dialect

/-- A field has a value. -/
def FieldHas (spec : FieldSpec) (field : List Char) (v : ℕ) : Prop :=
  ∃ entry ∈ field.splitOn ',', ∃ e, readEntry spec entry = some e ∧ EntryDenotes spec e v

namespace Celery

open APScheduler (natText_spec notMem_natText readEntry_stepText)
open APScheduler.Expression (natText stepText isDigit_of_mem_natText)

/-- A field begins at `low` and goes at least up to `high`, and has no names that are numbers. -/
structure Covers (spec : FieldSpec) (low high : ℕ) : Prop where
  min : spec.min = low
  le_max : high ≤ spec.max
  max_lt : spec.max < 100
  names : ∀ n < 100, (spec.names.bind fun names =>
    names.idxOf? ((natText n).map Char.toLower)) = none

variable {spec : FieldSpec} {low high : ℕ}

section Numbers

/-- A number of the field is one to the server. -/
theorem Covers.parseValue (h : Covers spec low high) {n : ℕ} (hn : low ≤ n ∧ n ≤ high) :
    SilenceWatch.parseValue (natText n) spec = some n := by
  have hnumber : ∀ n < 100, isNumber 2 (natText n) = true ∧ digitsValue (natText n) = n := by
    decide +kernel
  have hmin := h.min
  have hmax := h.le_max
  have hlt : n < 100 := by
    have hmax_lt := h.max_lt
    omega
  obtain ⟨hdigits, hvalue⟩ := hnumber n hlt
  unfold SilenceWatch.parseValue
  dsimp only
  rw [h.names n hlt]
  dsimp only
  rw [if_pos hdigits, hvalue, if_pos (by omega)]

/-- The characters of ranges. -/
def IsRangeChar (c : Char) : Prop := c.isDigit = true ∨ c = '*' ∨ c = '-'

theorem notMem_range {range : List Char} {c : Char} (hrange : ∀ c ∈ range, IsRangeChar c)
    (hc : c.isDigit = false ∧ c ≠ '*' ∧ c ≠ '-') : c ∉ range := by
  intro hmem
  rcases hrange c hmem with h | h | h
  · rw [hc.1] at h
    cases h
  · exact hc.2.1 h
  · exact hc.2.2 h

/-- Behind a range stands its step. -/
theorem notMem_stepText {range : List Char} {step : Option ℕ} {c : Char}
    (hrange : ∀ c ∈ range, IsRangeChar c)
    (hc : c.isDigit = false ∧ c ≠ '*' ∧ c ≠ '-' ∧ c ≠ '/') : c ∉ range ++ stepText step := by
  rw [List.mem_append, not_or]
  refine ⟨notMem_range hrange ⟨hc.1, hc.2.1, hc.2.2.1⟩, ?_⟩
  cases step with
  | none => exact List.not_mem_nil
  | some s => simp [stepText, hc.2.2.2, notMem_natText hc.1]

/-- What the server reads, it accepts. -/
theorem isValidEntry_stepText {range : List Char} {step : Option ℕ} (hne : range ≠ [])
    (hrange : ∀ c ∈ range, IsRangeChar c) (hstep : ∀ s ∈ step, 1 ≤ s ∧ s < 100)
    (hread : (readRange spec range step).isSome = true) :
    isValidEntry spec (range ++ stepText step) = true := by
  have hmark : ∀ c ∈ (range ++ stepText step).getLast?, c ≠ 'L' ∧ c ≠ 'l' := by
    intro c hc
    have hmem := List.mem_of_getLast? hc
    constructor
    · rintro rfl
      exact notMem_stepText hrange (by decide) hmem
    · rintro rfl
      exact notMem_stepText hrange (by decide) hmem
  have hhash : '#' ∉ range ++ stepText step := notMem_stepText hrange (by decide)
  have hslash : '/' ∉ range := notMem_range hrange (by decide)
  obtain ⟨hvalid, -⟩ := readRange_isSome.mp hread
  rw [isValidEntry_of_unmarked (by simp [hne]) hmark (aroundHash?_eq_none hhash)]
  cases step with
  | none =>
    have htext : range ++ stepText none = range := List.append_nil range
    rw [htext, List.splitOn_eq_singleton hslash]
    simpa using hvalid
  | some s =>
    obtain ⟨hone, hlt⟩ := hstep s rfl
    rw [stepText, List.splitOn_append_cons_self_of_not_mem hslash,
      List.splitOn_eq_singleton (notMem_natText (by decide))]
    simpa [(natText_spec hlt).1 hone] using hvalid

/-- An entry that is accepted and read as a run. -/
structure ReadsRun (spec : FieldSpec) (entry : List Char) (first last step : ℕ) : Prop where
  comma : ',' ∉ entry
  question : '?' ∉ entry
  valid : isValidEntry spec entry = true
  read : readEntry spec entry = some (.run first last step)

theorem readsRun_of_readRange {range : List Char} {step : Option ℕ} {first last n : ℕ}
    (hne : range ≠ []) (hrange : ∀ c ∈ range, IsRangeChar c) (hstep : ∀ s ∈ step, 1 ≤ s ∧ s < 100)
    (hread : readRange spec range step = some (.run first last n)) :
    ReadsRun spec (range ++ stepText step) first last n :=
  ⟨notMem_stepText hrange (by decide), notMem_stepText hrange (by decide),
    isValidEntry_stepText hne hrange hstep (Option.isSome_of_eq_some hread),
    (readEntry_stepText hrange hstep).trans hread⟩

theorem readsRun_star : ReadsRun spec ['*'] spec.min spec.max 1 := by
  have hread : readRange spec ['*'] none = some (.run spec.min spec.max 1) := if_pos rfl
  exact readsRun_of_readRange (by decide) (by simp [IsRangeChar]) (fun s hs => by cases hs) hread

theorem readsRun_starStep {step : ℕ} (hstep : 1 ≤ step ∧ step < 100) :
    ReadsRun spec ('*' :: '/' :: natText step) spec.min spec.max step := by
  have hread : readRange spec ['*'] (some step) = some (.run spec.min spec.max step) := if_pos rfl
  exact readsRun_of_readRange (by decide) (by simp [IsRangeChar])
    (fun s hs => by cases hs; exact hstep) hread

/-- A range without a step. -/
theorem readsRun_range {range : List Char} {first last n : ℕ} (hne : range ≠ [])
    (hrange : ∀ c ∈ range, IsRangeChar c)
    (hread : readRange spec range none = some (.run first last n)) :
    ReadsRun spec range first last n := by
  have hreads := readsRun_of_readRange hne hrange (fun s hs => by cases hs) hread
  rwa [show stepText none = [] from rfl, List.append_nil] at hreads

theorem Covers.readsRun_number (h : Covers spec low high) {n : ℕ} (hn : low ≤ n ∧ n ≤ high) :
    ReadsRun spec (natText n) n n 1 := by
  have hmax := h.le_max
  have hmax_lt := h.max_lt
  obtain ⟨-, -, hne, hstar⟩ := natText_spec (n := n) (by omega)
  refine readsRun_range hne (fun c hc => Or.inl (isDigit_of_mem_natText hc)) ?_
  rw [readRange, if_neg hstar, List.splitOn_eq_singleton (notMem_natText (by decide))]
  simp [h.parseValue hn]

theorem Covers.readsRun_between (h : Covers spec low high) {first last : ℕ} (hlow : low ≤ first)
    (hle : first ≤ last) (hhigh : last ≤ high) :
    ReadsRun spec (natText first ++ '-' :: natText last) first last 1 := by
  have hdash {n : ℕ} : '-' ∉ natText n := notMem_natText (by decide)
  have hstar : natText first ++ '-' :: natText last ≠ ['*'] := by
    intro hstar
    have hmem : '-' ∈ natText first ++ '-' :: natText last := by simp
    rw [hstar] at hmem
    revert hmem
    decide
  refine readsRun_range (by simp) (fun c hc => ?_) ?_
  · simp only [List.mem_append, List.mem_cons] at hc
    rcases hc with hc | rfl | hc
    · exact Or.inl (isDigit_of_mem_natText hc)
    · exact Or.inr (Or.inr rfl)
    · exact Or.inl (isDigit_of_mem_natText hc)
  · rw [readRange, if_neg hstar, List.splitOn_append_cons_self_of_not_mem hdash,
      List.splitOn_eq_singleton hdash]
    simp only [h.parseValue (n := first) ⟨hlow, by omega⟩,
      h.parseValue (n := last) ⟨by omega, hhigh⟩, if_pos hle, Option.getD_none]

end Numbers

section Fields

/-- Entries of which each is read as a run. -/
def ReadRuns (spec : FieldSpec) (entries : List (List Char × ℕ × ℕ × ℕ)) : Prop :=
  ∀ entry ∈ entries, ReadsRun spec entry.1 entry.2.1 entry.2.2.1 entry.2.2.2

/-- A field of such entries has the numbers of their runs. -/
theorem field_of_readRuns {entries : List (List Char × ℕ × ℕ × ℕ)} (hne : entries ≠ [])
    (h : ReadRuns spec entries) :
    isValidField ([','].intercalate (entries.map Prod.fst)) spec = true ∧
      ∀ v, FieldHas spec ([','].intercalate (entries.map Prod.fst)) v ↔
        ∃ entry ∈ entries,
          (Cron.Entry.run entry.2.1 entry.2.2.1 entry.2.2.2).Matches v := by
  have hparts (P : List Char → Prop) (hP : ∀ entry ∈ entries, P entry.1) :
      ∀ part ∈ entries.map Prod.fst, P part := by
    intro part hpart
    obtain ⟨entry, hentry, rfl⟩ := List.mem_map.mp hpart
    exact hP entry hentry
  have hsplit : ([','].intercalate (entries.map Prod.fst)).splitOn ',' = entries.map Prod.fst :=
    List.splitOn_intercalate ',' (hparts (',' ∉ ·) fun entry hentry => (h entry hentry).comma)
      (by simpa using hne)
  constructor
  · have hempty : [','].intercalate (entries.map Prod.fst) ≠ [] := by
      intro hnil
      rw [hnil, List.splitOn_nil] at hsplit
      have hvalid := hparts (isValidEntry spec · = true)
        (fun entry hentry => (h entry hentry).valid) [] (hsplit ▸ List.mem_singleton_self [])
      cases hvalid
    have hmark : [','].intercalate (entries.map Prod.fst) ≠ ['?'] := by
      intro hquestion
      rw [hquestion] at hsplit
      have hmem : ['?'] ∈ entries.map Prod.fst := by
        rw [← hsplit]
        decide
      exact hparts ('?' ∉ ·) (fun entry hentry => (h entry hentry).question) _ hmem
        List.mem_cons_self
    rw [isValidField, if_neg (by rwa [List.length_eq_zero_iff]), if_neg hmark, hsplit,
      List.all_eq_true]
    exact hparts _ fun entry hentry => (h entry hentry).valid
  · intro v
    rw [FieldHas, hsplit]
    constructor
    · rintro ⟨part, hpart, e, hread, hv⟩
      obtain ⟨entry, hentry, rfl⟩ := List.mem_map.mp hpart
      obtain rfl := Option.some.inj ((h entry hentry).read.symm.trans hread)
      exact ⟨entry, hentry, hv⟩
    · rintro ⟨entry, hentry, hv⟩
      exact ⟨entry.1, List.mem_map_of_mem hentry, _, (h entry hentry).read, hv⟩

/-- A run has a number. -/
def Spans (run : ℕ × ℕ) (v : ℕ) : Prop := run.1 ≤ v ∧ v ≤ run.2

/-- One more number. -/
theorem spans_addRun {value : ℕ} {runs : List (ℕ × ℕ)} (hruns : ∀ run ∈ runs, run.1 ≤ run.2) :
    (∀ run ∈ addRun runs value, run.1 ≤ run.2) ∧
      ∀ v, (∃ run ∈ addRun runs value, Spans run v) ↔ (∃ run ∈ runs, Spans run v) ∨ v = value := by
  have halone : ∀ v, Spans (value, value) v ↔ v = value := fun v => by
    simp only [Spans]
    omega
  unfold addRun
  split
  · next first last earlier =>
    obtain ⟨hfirst, hearlier⟩ := List.forall_mem_cons.mp hruns
    dsimp only at hfirst
    split
    · next hnext =>
      refine ⟨List.forall_mem_cons.mpr ⟨by dsimp only; omega, hearlier⟩, fun v => ?_⟩
      have hlonger : Spans (first, value) v ↔ Spans (first, last) v ∨ v = value := by
        simp only [Spans]
        omega
      rw [List.exists_mem_cons_iff, List.exists_mem_cons_iff, hlonger]
      exact or_right_comm
    · refine ⟨List.forall_mem_cons.mpr ⟨Nat.le_refl value, hruns⟩, fun v => ?_⟩
      rw [List.exists_mem_cons_iff, halone, or_comm]
  · refine ⟨List.forall_mem_singleton.mpr (Nat.le_refl value), fun v => ?_⟩
    simp [halone]

/-- The runs have the numbers that were added. -/
theorem spans_foldl_addRun {values : List ℕ} {runs : List (ℕ × ℕ)}
    (hruns : ∀ run ∈ runs, run.1 ≤ run.2) :
    (∀ run ∈ values.foldl addRun runs, run.1 ≤ run.2) ∧
      ∀ v, (∃ run ∈ values.foldl addRun runs, Spans run v) ↔
        (∃ run ∈ runs, Spans run v) ∨ v ∈ values := by
  induction values generalizing runs with
  | nil => exact ⟨hruns, fun v => by simp⟩
  | cons value values ih =>
    have hadd : (∀ run ∈ addRun runs value, run.1 ≤ run.2) ∧
        ∀ v, (∃ run ∈ addRun runs value, Spans run v) ↔ (∃ run ∈ runs, Spans run v) ∨ v = value :=
      spans_addRun hruns
    obtain ⟨hordered, hspans⟩ := ih hadd.1
    refine ⟨hordered, fun v => ?_⟩
    rw [List.foldl_cons, hspans, hadd.2, List.mem_cons, or_assoc]

/-- What a run is written as. -/
def runParts (run : ℕ × ℕ) : List (List Char × ℕ × ℕ × ℕ) :=
  if run.1 = run.2 then [(natText run.1, run.1, run.1, 1)]
  else if 2 ≤ run.2 - run.1 then [(natText run.1 ++ '-' :: natText run.2, run.1, run.2, 1)]
  else [(natText run.1, run.1, run.1, 1), (natText run.2, run.2, run.2, 1)]

theorem write_eq_runParts (run : ℕ × ℕ) :
    write run = [','].intercalate ((runParts run).map Prod.fst) := by
  unfold write runParts
  split
  · simp
  · split
    · simp
    · simp [List.intercalate_cons_cons]

/-- The entries of a run have its numbers. -/
theorem runParts_spec (h : Covers spec low high) {run : ℕ × ℕ} (hlow : low ≤ run.1)
    (hle : run.1 ≤ run.2) (hhigh : run.2 ≤ high) :
    runParts run ≠ [] ∧ ReadRuns spec (runParts run) ∧
      ∀ v, (∃ entry ∈ runParts run,
        (Cron.Entry.run entry.2.1 entry.2.2.1 entry.2.2.2).Matches v) ↔ Spans run v := by
  have hfirst := h.readsRun_number (n := run.1) ⟨hlow, by omega⟩
  have hlast := h.readsRun_number (n := run.2) ⟨by omega, hhigh⟩
  have hone : ∀ n v, (Cron.Entry.run n n 1).Matches v ↔ v = n := fun n v => by
    simp only [Cron.Entry.Matches, Nat.mod_one, and_true]
    omega
  unfold runParts
  split
  · refine ⟨List.cons_ne_nil _ _, List.forall_mem_singleton.mpr hfirst, fun v => ?_⟩
    simp only [List.mem_singleton, exists_eq_left, hone, Spans]
    omega
  · split
    · refine ⟨List.cons_ne_nil _ _,
        List.forall_mem_singleton.mpr (h.readsRun_between hlow hle hhigh), fun v => ?_⟩
      simp [Cron.Entry.Matches, Nat.mod_one, Spans]
    · refine ⟨List.cons_ne_nil _ _, ?_, fun v => ?_⟩
      · exact List.forall_mem_cons.mpr ⟨hfirst, List.forall_mem_singleton.mpr hlast⟩
      · simp only [List.exists_mem_cons_iff, hone, Spans, List.not_mem_nil, false_and, exists_false,
          or_false]
        omega

/-- The field of some runs. -/
theorem field_of_runs (h : Covers spec low high) {runs : List (ℕ × ℕ)} (hne : runs ≠ [])
    (hruns : ∀ run ∈ runs, low ≤ run.1 ∧ run.1 ≤ run.2 ∧ run.2 ≤ high) :
    isValidField ([','].intercalate (runs.map write)) spec = true ∧
      ∀ v, FieldHas spec ([','].intercalate (runs.map write)) v ↔ ∃ run ∈ runs, Spans run v := by
  have hspec : ∀ run ∈ runs, runParts run ≠ [] ∧ ReadRuns spec (runParts run) ∧
      ∀ v, (∃ entry ∈ runParts run,
        (Cron.Entry.run entry.2.1 entry.2.2.1 entry.2.2.2).Matches v) ↔ Spans run v :=
    fun run hrun => runParts_spec h (hruns run hrun).1 (hruns run hrun).2.1 (hruns run hrun).2.2
  have htext : [','].intercalate (runs.map write) =
      [','].intercalate ((runs.flatMap runParts).map Prod.fst) := by
    rw [List.map_flatMap, ← intercalate_flatMap, funext write_eq_runParts]
    intro run hrun
    simpa using (hspec run hrun).1
  have hparts : runs.flatMap runParts ≠ [] := by
    obtain ⟨run, hrun⟩ := List.exists_mem_of_ne_nil _ hne
    obtain ⟨entry, hentry⟩ := List.exists_mem_of_ne_nil _ (hspec run hrun).1
    exact List.ne_nil_of_mem (List.mem_flatMap.mpr ⟨run, hrun, hentry⟩)
  have hreads : ReadRuns spec (runs.flatMap runParts) := by
    intro entry hentry
    obtain ⟨run, hrun, hentry⟩ := List.mem_flatMap.mp hentry
    exact (hspec run hrun).2.1 entry hentry
  obtain ⟨hvalid, hhas⟩ := field_of_readRuns hparts hreads
  rw [htext]
  refine ⟨hvalid, fun v => (hhas v).trans ?_⟩
  constructor
  · rintro ⟨entry, hentry, hv⟩
    obtain ⟨run, hrun, hentry⟩ := List.mem_flatMap.mp hentry
    exact ⟨run, hrun, ((hspec run hrun).2.2 v).mp ⟨entry, hentry, hv⟩⟩
  · rintro ⟨run, hrun, hv⟩
    obtain ⟨entry, hentry, hmatches⟩ := ((hspec run hrun).2.2 v).mpr hv
    exact ⟨entry, List.mem_flatMap.mpr ⟨run, hrun, hentry⟩, hmatches⟩

/-- The field of one entry. -/
theorem field_of_readsRun {entry : List Char} {first last step : ℕ}
    (h : ReadsRun spec entry first last step) :
    isValidField entry spec = true ∧
      ∀ v, FieldHas spec entry v ↔ (Cron.Entry.run first last step).Matches v := by
  have hfield := field_of_readRuns (List.cons_ne_nil (entry, first, last, step) [])
    (List.forall_mem_singleton.mpr h)
  simpa using hfield

/-- The steps from the lowest number. -/
theorem mem_range_steps {step v : ℕ} (hv : v ≤ high) :
    v ∈ List.range' low ((high - low) / step + 1) step ↔ low ≤ v ∧ (v - low) % step = 0 := by
  rw [List.mem_range']
  constructor
  · rintro ⟨i, -, rfl⟩
    refine ⟨Nat.le_add_right _ _, ?_⟩
    rw [Nat.add_sub_cancel_left, Nat.mul_mod_right]
  · rintro ⟨hlow, hmod⟩
    refine ⟨(v - low) / step, ?_, ?_⟩
    · have hdiv : (v - low) / step ≤ (high - low) / step := Nat.div_le_div_right (by omega)
      omega
    · have hback := Nat.div_add_mod (v - low) step
      omega

/-- **What `compact` writes** is a field of the server with the numbers that it was given, up to the
highest; above it there may be only more of a star. -/
theorem compact_field (h : Covers spec low high) (numbers : NumberSet low high) :
    ∃ field, compact numbers.values low high = some field ∧ isValidField field spec = true ∧
      (∀ v ≤ high, FieldHas spec field v ↔ v ∈ numbers.values) ∧
      ∀ v, high < v → FieldHas spec field v → v ≤ spec.max ∧ ∃ step, (v - low) % step = 0 ∧
        (step = 1 ∨ 1 < step ∧ 2 * step ≤ high - low) ∧
        ∀ w ≤ high, w ∈ numbers.values ↔ low ≤ w ∧ (w - low) % step = 0 := by
  have hmin := h.min
  have hmax := h.le_max
  have hmax_lt := h.max_lt
  set ordered := numbers.values.dedup.insertionSort (· ≤ ·) with hordered
  have hmem : ∀ v, v ∈ numbers.values ↔ v ∈ ordered := fun v => by
    rw [hordered, List.mem_insertionSort, List.mem_dedup]
  have hne : ordered ≠ [] := by
    obtain ⟨v, hv⟩ := List.exists_mem_of_ne_nil _ numbers.ne_nil
    exact List.ne_nil_of_mem ((hmem v).mp hv)
  have hbounds : ∀ v ∈ ordered, low ≤ v ∧ v ≤ high := fun v hv => numbers.bounds v ((hmem v).mpr hv)
  unfold compact
  simp only [← hordered, if_neg hne]
  split
  · next hfull =>
    have hstar : ReadsRun spec ['*'] spec.min spec.max 1 := readsRun_star
    obtain ⟨hvalid, hhas⟩ := field_of_readsRun hstar
    have hall : ∀ w ≤ high, w ∈ numbers.values ↔ low ≤ w ∧ (w - low) % 1 = 0 := fun w hw => by
      rw [hmem, hfull, List.mem_range'_1, Nat.mod_one]
      omega
    refine ⟨_, rfl, hvalid, fun v hv => ?_, fun v hv hfield => ?_⟩
    · rw [hhas, hall v hv, Cron.Entry.Matches, hmin]
      omega
    · rw [hhas, Cron.Entry.Matches] at hfield
      exact ⟨hfield.2.1, 1, Nat.mod_one _, Or.inl rfl, hall⟩
  · split
    · next hsteps =>
      obtain ⟨hlength, -, hone, hsame⟩ := hsteps
      set step := ordered.getD 1 0 - ordered.getD 0 0
      have htwo : 2 * step ≤ high - low := by
        rw [hsame, List.length_range'] at hlength
        rw [← Nat.le_div_iff_mul_le (by omega)]
        omega
      have hstar : ReadsRun spec ('*' :: '/' :: natText step) spec.min spec.max step :=
        readsRun_starStep (by omega)
      obtain ⟨hvalid, hhas⟩ := field_of_readsRun hstar
      have hall : ∀ w ≤ high, w ∈ numbers.values ↔ low ≤ w ∧ (w - low) % step = 0 := fun w hw => by
        rw [hmem, hsame, mem_range_steps hw]
      refine ⟨_, rfl, hvalid, fun v hv => ?_, fun v hv hfield => ?_⟩
      · rw [hhas, hall v hv, Cron.Entry.Matches, hmin]
        omega
      · rw [hhas, Cron.Entry.Matches, hmin] at hfield
        exact ⟨hfield.2.1, step, hfield.2.2, Or.inr ⟨hone, htwo⟩, hall⟩
    · obtain ⟨horder, hspans⟩ : (∀ run ∈ ordered.foldl addRun [], run.1 ≤ run.2) ∧
          ∀ v, (∃ run ∈ ordered.foldl addRun [], Spans run v) ↔
            (∃ run ∈ [], Spans run v) ∨ v ∈ ordered :=
        spans_foldl_addRun fun run hrun => by cases hrun
      have hends : ∀ run ∈ ordered.foldl addRun [],
          (low ≤ run.1 ∧ run.1 ≤ high) ∧ low ≤ run.2 ∧ run.2 ≤ high :=
        mem_foldl_addRun (fun run hrun => by cases hrun) hbounds
      have hruns : ∀ run ∈ (ordered.foldl addRun []).reverse,
          low ≤ run.1 ∧ run.1 ≤ run.2 ∧ run.2 ≤ high := fun run hrun => by
        have hrun := List.mem_reverse.mp hrun
        exact ⟨(hends run hrun).1.1, horder run hrun, (hends run hrun).2.2⟩
      obtain ⟨hvalid, hhas⟩ := field_of_runs h
        (by simpa using foldl_addRun_ne_nil hne) hruns
      refine ⟨_, rfl, hvalid, fun v hv => ?_, fun v hv hfield => ?_⟩
      · rw [hhas, hmem]
        simpa using hspans v
      · obtain ⟨run, hrun, hv'⟩ := (hhas v).mp hfield
        have hlast := (hruns run hrun).2.2
        simp only [Spans] at hv'
        omega

end Fields

section Expressions

/-- A field of a range without anything else. -/
theorem covers_range {low high : ℕ} (hhigh : high ≤ 99) :
    Covers { min := low, max := high } low high :=
  ⟨rfl, Nat.le_refl high, Nat.lt_succ_of_le hhigh, fun _ _ => rfl⟩

theorem covers_minute : Covers .minute 0 59 := ⟨rfl, Nat.le_refl _, by decide, fun _ _ => rfl⟩

theorem covers_hour : Covers .hour 0 23 := ⟨rfl, Nat.le_refl _, by decide, fun _ _ => rfl⟩

theorem covers_dayOfMonth : Covers .dayOfMonth 1 31 :=
  ⟨rfl, Nat.le_refl _, by decide, fun _ _ => rfl⟩

theorem covers_month : Covers .month 1 12 := ⟨rfl, Nat.le_refl _, by decide, by decide +kernel⟩

theorem covers_dayOfWeek : Covers .dayOfWeek 0 6 := ⟨rfl, by decide, by decide, by decide +kernel⟩

/-- A field whose range is that of the server. -/
theorem compact_same (h : Covers spec low high) (hmax : spec.max = high)
    (numbers : NumberSet low high) :
    ∃ field, compact numbers.values low high = some field ∧ isValidField field spec = true ∧
      ∀ v, FieldHas spec field v ↔ v ∈ numbers.values := by
  obtain ⟨field, hfield, hvalid, hhas, hmore⟩ := compact_field h numbers
  refine ⟨field, hfield, hvalid, fun v => ?_⟩
  by_cases hv : v ≤ high
  · exact hhas v hv
  · apply iff_of_false
    · intro hfield
      have hle := (hmore v (by omega) hfield).1
      omega
    · intro hmem
      exact hv (numbers.bounds v hmem).2

/-- The weekdays, of which the server has one more. -/
theorem compact_weekdays (numbers : NumberSet 0 6) :
    ∃ field, compact numbers.values 0 6 = some field ∧ isValidField field .dayOfWeek = true ∧
      ∀ d < 7, (∃ v, FieldHas .dayOfWeek field v ∧ v % 7 = d) ↔ d ∈ numbers.values := by
  obtain ⟨field, hfield, hvalid, hhas, hmore⟩ := compact_field covers_dayOfWeek numbers
  refine ⟨field, hfield, hvalid, fun d hd => ?_⟩
  constructor
  · rintro ⟨v, hv, rfl⟩
    by_cases hle : v ≤ 6
    · rw [Nat.mod_eq_of_lt (by omega)]
      exact (hhas v hle).mp hv
    · obtain ⟨hmax, step, hstep, hsteps, hall⟩ := hmore v (by omega) hv
      have hseven : v = 7 := by
        have hle : v ≤ 7 := hmax
        omega
      subst hseven
      rcases hsteps with rfl | hsteps
      · exact (hall 0 (by omega)).mpr ⟨Nat.le_refl _, rfl⟩
      · -- No step but the week's own leads from one Sunday to the next.
        have hcases : step = 2 ∨ step = 3 := by omega
        rcases hcases with rfl | rfl
        · cases hstep
        · cases hstep
  · intro hmem
    exact ⟨d, (hhas d (by omega)).mpr hmem, Nat.mod_eq_of_lt hd⟩

/-- What `compact` writes is a word. -/
theorem compact_word {numbers : NumberSet low high} {field : List Char} (hhigh : high < 100)
    (h : compact numbers.values low high = some field) :
    field ≠ [] ∧ ∀ c ∈ field, isSpace c = false := by
  obtain ⟨text, htext, hvalid, -⟩ :=
    compact_text numbers ⟨.minute, low, high, none, false⟩ ⟨rfl, rfl⟩ rfl hhigh
  obtain rfl := Option.some.inj (htext.symm.trans h)
  exact ⟨FieldText.text_ne_nil hvalid,
    fun c hc => (IsToken.isSpace (FieldText.mem_text hvalid hc)).1⟩

/-- **Crontabs are compacted without loss.** In every range up to 99 the field that `compact` writes
of a set is accepted and has its numbers and no others; and so do the fields of the expression of
a crontab, where a weekday of the server is one modulo seven. -/
theorem compacted_without_loss :
    (∀ low high, low ≤ high → high ≤ 99 → ∀ numbers : NumberSet low high,
      ∃ field, compact numbers.values low high = some field ∧
        isValidField field { min := low, max := high } = true ∧
        ∀ v, FieldHas { min := low, max := high } field v ↔ v ∈ numbers.values) ∧
    ∀ entry : Crontab, ∃ expression minute hour dayOfMonth month dayOfWeek,
      crontabExpression entry = some expression ∧
      fieldsOf expression = [(minute, .minute), (hour, .hour), (dayOfMonth, .dayOfMonth),
        (month, .month), (dayOfWeek, .dayOfWeek)] ∧
      (∀ pair ∈ fieldsOf expression, isValidField pair.1 pair.2 = true) ∧
      (∀ v, FieldHas .minute minute v ↔ v ∈ entry.minute.values) ∧
      (∀ v, FieldHas .hour hour v ↔ v ∈ entry.hour.values) ∧
      (∀ v, FieldHas .dayOfMonth dayOfMonth v ↔ v ∈ entry.dayOfMonth.values) ∧
      (∀ v, FieldHas .month month v ↔ v ∈ entry.monthOfYear.values) ∧
      ∀ d < 7, (∃ v, FieldHas .dayOfWeek dayOfWeek v ∧ v % 7 = d) ↔
        d ∈ entry.dayOfWeek.values := by
  constructor
  · intro low high _ hhigh numbers
    exact compact_same (covers_range hhigh) rfl numbers
  · intro entry
    obtain ⟨minute, hminute, hminuteValid, hminutes⟩ := compact_same covers_minute rfl entry.minute
    obtain ⟨hour, hhour, hhourValid, hhours⟩ := compact_same covers_hour rfl entry.hour
    obtain ⟨day, hday, hdayValid, hdays⟩ := compact_same covers_dayOfMonth rfl entry.dayOfMonth
    obtain ⟨month, hmonth, hmonthValid, hmonths⟩ := compact_same covers_month rfl entry.monthOfYear
    obtain ⟨weekday, hweekday, hweekdayValid, hweekdays⟩ := compact_weekdays entry.dayOfWeek
    have hwords : ∀ word ∈ [minute, hour, day, month, weekday],
        word ≠ [] ∧ ∀ c ∈ word, isSpace c = false := by
      simp only [List.forall_mem_cons]
      exact ⟨compact_word (by decide) hminute, compact_word (by decide) hhour,
        compact_word (by decide) hday, compact_word (by decide) hmonth,
        compact_word (by decide) hweekday, fun word hword => by cases hword⟩
    have hfields : fieldsOf ([' '].intercalate [minute, hour, day, month, weekday]) =
        [(minute, .minute), (hour, .hour), (day, .dayOfMonth), (month, .month),
          (weekday, .dayOfWeek)] := by
      unfold fieldsOf
      rw [strip_intercalate hwords, words_intercalate_fields (by decide) hwords]
      rfl
    refine ⟨_, minute, hour, day, month, weekday, ?_, hfields, ?_, hminutes, hhours, hdays, hmonths,
      hweekdays⟩
    · simp only [crontabExpression, hminute, hhour, hday, hmonth, hweekday]
    · rw [hfields]
      simp only [List.forall_mem_cons]
      exact ⟨hminuteValid, hhourValid, hdayValid, hmonthValid, hweekdayValid,
        fun pair hpair => by cases hpair⟩

end Expressions

end Celery

end SilenceWatch
