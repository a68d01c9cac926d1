import Mathlib.Algebra.Ring.Int.Defs
import Mathlib.Data.Int.ConditionallyCompleteOrder
import Mathlib.Order.ConditionallyCompleteLattice.Basic
import SilenceWatch.Clients.CronFilters
import SilenceWatch.Library.Choice
import SilenceWatch.Library.Utf8

/-!
# Reading a Laravel schedule

The reader gives each task of the schedule a key, and declares a task that is scheduled
several times from the schedule that fires most often. Which one this is depends on the next
two runs, hence on the instant at which it is asked. Texts of PHP are sequences of bytes.
-/

namespace SilenceWatch.Laravel

open Cron Keyed

/-- A text of PHP. -/
abbrev Bytes := List UInt8

/-- The bytes of a literal. -/
def bytes (text : String) : Bytes := Utf8.encode text.toList

/-- `trim`. -/
def trim (text : Bytes) : Bytes :=
  let isTrimmed (c : UInt8) : Bool := [0, 9, 10, 11, 13, 32].contains c.toNat
  (text.dropWhile isTrimmed).rdropWhile isTrimmed

/-- What the reader reads of an event of the schedule. -/
structure Event where
  isCallback : Bool
  description : Option Bytes
  /-- The command, as `Event::normalizeCommand` writes it. -/
  command : Bytes
  expression : List Char
  timezone : Option (List Char)
  /-- The event runs in the environment of the application. -/
  runsInEnvironment : Bool
  onOneServer : Bool
  withoutOverlapping : Bool
  filters : ℕ
  rejects : ℕ
  deriving DecidableEq

/-- A task of the declaration. -/
structure Task where
  key : Bytes
  name : Bytes
  cron : List Char
  timezone : List Char
  deriving DecidableEq

section Names

variable (sha1 : Bytes → Bytes)

/-- `ScheduleReader::bounded`, with `KEY_MAX`: what is cut is made unique by its hash. -/
def bounded (key : Bytes) : Bytes :=
  if 300 < key.length then key.take (300 - 41) ++ bytes "#" ++ sha1 key else key

/-- The key of an event before it is cut, if it has one. -/
def fullKey (event : Event) : Option Bytes :=
  if event.isCallback then
    (event.description.filter (· ≠ [])).map fun name => bytes "call:" ++ name
  else
    let command := trim event.command
    if (bytes "php artisan ").isPrefixOf command then
      some (bytes "artisan:" ++ command.drop (bytes "php artisan ").length)
    else some (bytes "exec:" ++ command)

/-- `ScheduleReader::keyOf`. -/
def keyOf (event : Event) : Option Bytes := (fullKey event).map (bounded sha1)

/-- How many bytes a character has that begins with this one. -/
def mbLength (c : UInt8) : ℕ :=
  if 0xC2 ≤ c.toNat ∧ c.toNat < 0xE0 then 2
  else if 0xE0 ≤ c.toNat ∧ c.toNat < 0xF0 then 3
  else if 0xF0 ≤ c.toNat ∧ c.toNat < 0xF8 then 4
  else 1

/-- `mb_substr`, from the start of a text. -/
def mbTake : ℕ → Bytes → Bytes
  | 0, _ => []
  | _ + 1, [] => []
  | n + 1, c :: rest =>
    c :: rest.take (mbLength c - 1) ++ mbTake n (rest.drop (mbLength c - 1))

/-- The text without a prefix, if it has it. -/
def dropPrefix? (start text : Bytes) : Option Bytes :=
  if start.isPrefixOf text then some (text.drop start.length) else none

/-- `preg_replace('/^(artisan|exec|call):/', '', …)`. -/
def withoutKind (key : Bytes) : Bytes :=
  ((dropPrefix? (bytes "artisan:") key).or
    ((dropPrefix? (bytes "exec:") key).or (dropPrefix? (bytes "call:") key))).getD key

/-- `ScheduleReader::nameOf`, with `NAME_MAX`: a text has more characters than so many if it is
longer than what they take. -/
def nameOf (event : Event) : Bytes :=
  let name := (event.description.filter (· ≠ [])).getD (withoutKind ((keyOf sha1 event).getD []))
  if (mbTake 120 name).length < name.length then mbTake (120 - 1) name ++ bytes "…" else name

end Names

section Reader

/-- `ScheduleReader::isFiltered`: `withoutOverlapping` is itself a condition, which does not
change when a task runs. -/
def Event.isFiltered (event : Event) : Bool :=
  0 < event.filters || (if event.withoutOverlapping then 1 else 0) < event.rejects

/-- `ScheduleReader::timezoneOf`. -/
def Event.timezoneOf (event : Event) : Option (List Char) := event.timezone.filter (· ≠ [])

/-- `CronExpression::getNextRunDate`: the next two runs after an instant, or none if it raises. -/
abbrev NextRuns := List Char → List Char → ℕ → Option (ℕ × ℕ)

/-- `PHP_INT_MAX`. -/
def phpIntMax : ℤ := 2 ^ 63 - 1

/-- `ScheduleReader::gap`, at an instant. -/
def gap (nextRuns : NextRuns) (now : ℕ) (task : Task) : ℤ :=
  match nextRuns task.cron task.timezone now with
  | some (first, second) => second - first
  | none => phpIntMax

variable (sha1 : Bytes → Bytes) (defaultTimezone : List Char)

/-- What becomes of an event. -/
inductive Verdict where
  /-- It is one of another environment. -/
  | absent
  | skipped (reason : Bytes)
  | watched (task : Task)
  deriving DecidableEq

/-- What `ScheduleReader::tasks` makes of an event before it compares it. -/
def judge (event : Event) : Verdict :=
  if !event.runsInEnvironment then .absent
  else
    match keyOf sha1 event with
    | none =>
      .skipped (bytes "A closure without a name has no stable identity: give it ->name('...').")
    | some key =>
      if event.isFiltered then
        .skipped (key ++ bytes ": its runs depend on a condition (between, when, skip), " ++
          bytes "not on its schedule alone.")
      else if !SilenceWatch.ScheduleReader.isSupported event.expression then
        .skipped (key ++ bytes ": SilenceWatch cannot evaluate the cron expression \"" ++
          Utf8.encode event.expression ++ bytes "\".")
      else
        .watched
          { key, name := nameOf sha1 event, cron := event.expression
            timezone := event.timezoneOf.getD defaultTimezone }

/-- What a reader keeps: the tasks with the gap at which they were chosen, why others are left
out, and which run on one server. -/
structure Reading where
  chosen : OrderedMap Bytes (Task × ℤ)
  skipped : List Bytes
  oneServer : List Bytes

/-- The loop of `ScheduleReader::tasks`. -/
def Reading.consider (gap : Task → ℤ) (r : Reading) (event : Event) : Reading :=
  match judge sha1 defaultTimezone event with
  | .absent => r
  | .skipped reason => { r with skipped := r.skipped ++ [reason] }
  | .watched task =>
    { r with
      oneServer := if event.onOneServer then task.key :: r.oneServer else r.oneServer
      chosen := r.chosen.choose (fun pair => pair.1.key) Prod.snd (task, gap task) }

/-- What a reader has read of a schedule. -/
def read (gap : Task → ℤ) (schedule : List Event) : Reading :=
  schedule.foldl (Reading.consider sha1 defaultTimezone gap) ⟨.empty, [], []⟩

/-- `ScheduleReader::tasks`, at an instant. -/
def tasks (nextRuns : NextRuns) (schedule : List Event) (now : ℕ) : List Task :=
  (read sha1 defaultTimezone (gap nextRuns now) schedule).chosen.entries.map fun entry => entry.2.1

end Reader

section Stability

variable {sha1 : Bytes → Bytes} {defaultTimezone : List Char} {nextRuns : NextRuns}
  {schedule : List Event} {now : ℕ}

/-- The task of an event that is watched. -/
def Verdict.task? : Verdict → Option Task
  | .watched task => some task
  | _ => none

/-- The tasks that are compared, in the order of their events. -/
def compared (sha1 : Bytes → Bytes) (defaultTimezone : List Char) (schedule : List Event) :
    List Task :=
  schedule.filterMap fun event => (judge sha1 defaultTimezone event).task?

/-- The tasks that are compared under a key. -/
def rivals (sha1 : Bytes → Bytes) (defaultTimezone : List Char) (schedule : List Event)
    (key : Bytes) : List Task :=
  (compared sha1 defaultTimezone schedule).filter fun task => task.key = key

/-- What is chosen is chosen among the tasks that are compared. -/
theorem chosen_foldl (gap : Task → ℤ) (r : Reading) (schedule : List Event) :
    (schedule.foldl (Reading.consider sha1 defaultTimezone gap) r).chosen =
      ((compared sha1 defaultTimezone schedule).map fun task => (task, gap task)).foldl
        (OrderedMap.choose (fun pair => pair.1.key) Prod.snd) r.chosen := by
  induction schedule generalizing r with
  | nil => rfl
  | cons event schedule ih =>
    rw [List.foldl_cons, ih]
    unfold compared Reading.consider
    cases hjudge : judge sha1 defaultTimezone event with
    | absent => rw [List.filterMap_cons_none (by rw [hjudge]; rfl)]
    | skipped reason => rw [List.filterMap_cons_none (by rw [hjudge]; rfl)]
    | watched task =>
      rw [List.filterMap_cons_some (b := task) (by rw [hjudge]; rfl)]
      rfl

/-- Under each key the first of the tasks with the least gap is chosen. -/
theorem get?_chosen (gap : Task → ℤ) (key : Bytes) :
    (read sha1 defaultTimezone gap schedule).chosen.get? key =
      ((rivals sha1 defaultTimezone schedule key).argmin gap).map fun task => (task, gap task) := by
  unfold read rivals
  rw [chosen_foldl, OrderedMap.get?_foldl_choose, List.filter_map, argmin_map]
  rfl

/-- The tasks of a declaration, in the order of their keys. -/
theorem tasks_eq : tasks sha1 defaultTimezone nextRuns schedule now =
    (((compared sha1 defaultTimezone schedule).map Task.key).foldl OrderedMap.keyOrder []).filterMap
      fun key => (rivals sha1 defaultTimezone schedule key).argmin (gap nextRuns now) := by
  have hkeys : (read sha1 defaultTimezone (gap nextRuns now) schedule).chosen.entries.map Prod.fst =
      ((compared sha1 defaultTimezone schedule).map Task.key).foldl OrderedMap.keyOrder [] := by
    unfold read
    rw [chosen_foldl, OrderedMap.keys_foldl_choose, List.map_map]
    rfl
  unfold tasks
  calc _ = ((read sha1 defaultTimezone (gap nextRuns now) schedule).chosen.entries.map
        Prod.snd).map Prod.fst := by rw [List.map_map]; rfl
    _ = _ := by
      rw [OrderedMap.values_eq, hkeys, List.map_filterMap]
      refine List.filterMap_congr fun key _ => ?_
      rw [get?_chosen, Option.map_map]
      exact Option.map_id'

/-- The task that is declared under a key is the one that is chosen among its rivals. -/
theorem mem_tasks {task : Task} : task ∈ tasks sha1 defaultTimezone nextRuns schedule now ↔
    (rivals sha1 defaultTimezone schedule task.key).argmin (gap nextRuns now) = some task := by
  unfold tasks
  constructor
  · intro htask
    obtain ⟨⟨key, chosen, least⟩, hentry, rfl⟩ := List.mem_map.mp htask
    have hget := OrderedMap.get?_eq_some.mpr hentry
    rw [get?_chosen] at hget
    obtain ⟨task, hleast, heq⟩ := Option.map_eq_some_iff.mp hget
    obtain ⟨rfl, -⟩ := Prod.mk.inj heq
    have hkey : task.key = key := of_decide_eq_true (List.mem_filter.mp (List.argmin_mem hleast)).2
    dsimp only
    rw [hkey]
    exact hleast
  · intro htask
    have hget : (read sha1 defaultTimezone (gap nextRuns now) schedule).chosen.get? task.key =
        some (task, gap nextRuns now task) := by
      rw [get?_chosen, htask]
      rfl
    exact List.mem_map.mpr ⟨_, OrderedMap.get?_eq_some.mp hget, rfl⟩

/-- One of the tasks fires most often at every instant: strictly more often than those that come
before it, and not less often than those that come after it. -/
def KeepsLead (nextRuns : NextRuns) (tasks : List Task) : Prop :=
  ∃ before task after, tasks = before ++ task :: after ∧ ∀ now,
    (∀ other ∈ before, gap nextRuns now task < gap nextRuns now other) ∧
      ∀ other ∈ after, gap nextRuns now task ≤ gap nextRuns now other

/-- **A stable declaration.** A schedule is declared the same at all instants, if and only if
under each key one of its tasks keeps the lead. -/
theorem tasks_stable_iff (sha1 : Bytes → Bytes) (defaultTimezone : List Char)
    (nextRuns : NextRuns) (schedule : List Event) :
    (∀ now now', tasks sha1 defaultTimezone nextRuns schedule now =
        tasks sha1 defaultTimezone nextRuns schedule now') ↔
      ∀ key, rivals sha1 defaultTimezone schedule key ≠ [] →
        KeepsLead nextRuns (rivals sha1 defaultTimezone schedule key) := by
  constructor
  · intro hsame key hne
    refine (argmin_stable_iff hne).mp fun now now' => ?_
    cases hleast : (rivals sha1 defaultTimezone schedule key).argmin (gap nextRuns now) with
    | none => exact absurd (List.argmin_eq_none.mp hleast) hne
    | some task =>
      obtain rfl : task.key = key :=
        of_decide_eq_true (List.mem_filter.mp (List.argmin_mem hleast)).2
      have htask := mem_tasks.mpr hleast
      rw [hsame now now'] at htask
      exact (mem_tasks.mp htask).symm
  · intro hlead now now'
    rw [tasks_eq, tasks_eq]
    refine List.filterMap_congr fun key _ => ?_
    by_cases hne : rivals sha1 defaultTimezone schedule key = []
    · rw [hne, List.argmin_nil, List.argmin_nil]
    · exact (argmin_stable_iff hne).mpr (hlead key hne) now now'

end Stability

section NextRuns

/-- The next instant at which something fires. -/
def IsNext (fires : ℕ → Prop) (now next : ℕ) : Prop :=
  now < next ∧ fires next ∧ ∀ later, now < later → fires later → next ≤ later

theorem IsNext.unique {fires : ℕ → Prop} {now a b : ℕ} (ha : IsNext fires now a)
    (hb : IsNext fires now b) : a = b :=
  Nat.le_antisymm (ha.2.2 b hb.1 hb.2.1) (hb.2.2 a ha.1 ha.2.1)

/-- The next two runs are the next instants at which the expression fires on the clock of the
time zone, where there are such. -/
def NextRuns.Correct (localTime : List Char → ℕ → Moment) (nextRuns : NextRuns) : Prop :=
  ∀ cron timezone now table, readTable cron = some table →
    let fires (instant : ℕ) : Prop := ServerFires table (localTime timezone instant)
    match nextRuns cron timezone now with
    | some (first, second) => IsNext fires now first ∧ IsNext fires first second
    | none => ¬ ∃ first second, IsNext fires now first ∧ IsNext fires first second

variable {localTime : List Char → ℕ → Moment} {nextRuns : NextRuns} {cron timezone : List Char}
  {now first second : ℕ} {table : Table}

/-- There is a function that gives the next runs. -/
theorem NextRuns.exists_correct (localTime : List Char → ℕ → Moment) :
    ∃ nextRuns : NextRuns, nextRuns.Correct localTime := by
  classical
  let fires (cron timezone : List Char) (instant : ℕ) : Prop :=
    ∀ table, readTable cron = some table → ServerFires table (localTime timezone instant)
  let runs (cron timezone : List Char) (now : ℕ) (pair : ℕ × ℕ) : Prop :=
    IsNext (fires cron timezone) now pair.1 ∧ IsNext (fires cron timezone) pair.1 pair.2
  refine ⟨fun cron timezone now =>
    if h : ∃ pair, runs cron timezone now pair then some h.choose else none,
    fun cron timezone now table htable => ?_⟩
  have hfires : fires cron timezone = fun instant =>
      ServerFires table (localTime timezone instant) := by
    funext instant
    exact propext ⟨fun h => h table htable, fun h table' htable' => by
      obtain rfl := Option.some_inj.mp (htable.symm.trans htable')
      exact h⟩
  dsimp only
  by_cases h : ∃ pair, runs cron timezone now pair
  · rw [dif_pos h]
    exact hfires ▸ h.choose_spec
  · rw [dif_neg h]
    rintro ⟨first, second, hfirst, hsecond⟩
    exact h ⟨(first, second), hfires ▸ hfirst, hfires ▸ hsecond⟩

/-- The gap of a task is that between its next two runs. -/
theorem NextRuns.Correct.gap_eq (h : nextRuns.Correct localTime) {task : Task}
    (htable : readTable task.cron = some table)
    (hfirst : IsNext (fun instant => ServerFires table (localTime task.timezone instant)) now first)
    (hsecond : IsNext (fun instant => ServerFires table (localTime task.timezone instant)) first
      second) : gap nextRuns now task = second - first := by
  have hruns := h task.cron task.timezone now table htable
  unfold gap
  cases hnext : nextRuns task.cron task.timezone now with
  | none =>
    rw [hnext] at hruns
    exact absurd ⟨first, second, hfirst, hsecond⟩ hruns
  | some pair =>
    rw [hnext] at hruns
    obtain rfl := hruns.1.unique hfirst
    obtain rfl := hruns.2.unique hsecond
    rfl

/-- A schedule that fires at full hours, each so many hours of a span. -/
def fullHours (low high step : ℕ) : Table where
  second := [.run 0 0 1]
  minute := [.run 0 0 1]
  hour := [.run low high step]
  dayOfMonth := none
  month := [.run 1 12 1]
  dayOfWeek := none

/-- The instant is one of these hours, in universal time. -/
def AtHours (low high step instant : ℕ) : Prop :=
  instant % 3600 = 0 ∧ low ≤ instant / 3600 % 24 ∧ instant / 3600 % 24 ≤ high ∧
    (instant / 3600 % 24 - low) % step = 0

instance {low high step : ℕ} : DecidablePred (AtHours low high step) :=
  fun _ => inferInstanceAs (Decidable (_ ∧ _))

theorem fires_fullHours {low high step instant : ℕ} :
    ServerFires (fullHours low high step) (Moment.ofSeconds instant) ↔
      AtHours low high step instant := by
  have hmonth := (Moment.ofSeconds instant).month_mem
  have hhour : instant % 3600 = 0 ↔ instant % 60 = 0 ∧ instant / 60 % 60 = 0 := by omega
  unfold ServerFires Table.Fires Table.OnDate Listed fullHours AtHours
  simp only [List.mem_singleton, exists_eq_left, Cron.Entry.Matches, Moment.ofSeconds] at hmonth ⊢
  rw [hhour]
  simp only [Nat.zero_le, Nat.le_zero, Nat.mod_one, true_and, and_true, hmonth, and_assoc]

/-- The gap of a task that runs at full hours. -/
theorem NextRuns.Correct.gap_fullHours (h : nextRuns.Correct fun _ => Moment.ofSeconds)
    {task : Task} {low high step : ℕ}
    (htable : readTable task.cron = some (fullHours low high step))
    (hfirst : IsNext (AtHours low high step) now first)
    (hsecond : IsNext (AtHours low high step) first second) :
    gap nextRuns now task = second - first := by
  have hfires : (fun instant => ServerFires (fullHours low high step) (Moment.ofSeconds instant)) =
      AtHours low high step := funext fun _ => propext fires_fullHours
  exact h.gap_eq htable (hfires ▸ hfirst) (hfires ▸ hsecond)

end NextRuns

/-- `Schedule::command('inspire')` with an expression. -/
def inspire (expression : String) : Event where
  isCallback := false
  description := none
  command := bytes "php artisan inspire"
  expression := expression.toList
  timezone := none
  runsInEnvironment := true
  onOneServer := false
  withoutOverlapping := false
  filters := 0
  rejects := 0

/-- A task that is scheduled for the working hours and every two hours is declared from the one
schedule in the morning, and from the other one when the working hours end. -/
theorem not_tasks_stable : ¬ ∀ (localTime : List Char → ℕ → Moment) (nextRuns : NextRuns),
    nextRuns.Correct localTime → ∀ sha1 defaultTimezone schedule now now',
      tasks sha1 defaultTimezone nextRuns schedule now =
        tasks sha1 defaultTimezone nextRuns schedule now' := by
  intro h
  obtain ⟨nextRuns, hcorrect⟩ := NextRuns.exists_correct fun _ => Moment.ofSeconds
  let working : Task := ⟨bytes "artisan:inspire", bytes "inspire", "0 9-17 * * *".toList, ['U']⟩
  let even : Task := ⟨bytes "artisan:inspire", bytes "inspire", "0 */2 * * *".toList, ['U']⟩
  have hrivals : rivals id ['U'] [inspire "0 9-17 * * *", inspire "0 */2 * * *"]
      (bytes "artisan:inspire") = [working, even] := by decide +kernel
  have hworking : readTable working.cron = some (fullHours 9 17 1) := by decide +kernel
  have heven : readTable even.cron = some (fullHours 0 23 2) := by decide +kernel
  -- at half past eight: nine and ten, or ten and twelve
  have hmorning : gap nextRuns 30600 working = 3600 ∧ gap nextRuns 30600 even = 7200 := by
    have hruns : IsNext (AtHours 9 17 1) 30600 32400 ∧ IsNext (AtHours 9 17 1) 32400 36000 ∧
        IsNext (AtHours 0 23 2) 30600 36000 ∧ IsNext (AtHours 0 23 2) 36000 43200 := by
      refine ⟨?_, ?_, ?_, ?_⟩ <;>
      · refine ⟨by decide, by decide, fun later hlater hfires => ?_⟩
        unfold AtHours at hfires
        omega
    obtain ⟨hnine, hten, hten', htwelve⟩ := hruns
    exact ⟨hcorrect.gap_fullHours hworking hnine hten, hcorrect.gap_fullHours heven hten' htwelve⟩
  -- at half past four: five and nine on the next day, or six and eight
  have hafternoon : gap nextRuns 59400 working = 57600 ∧ gap nextRuns 59400 even = 7200 := by
    have hruns : IsNext (AtHours 9 17 1) 59400 61200 ∧ IsNext (AtHours 9 17 1) 61200 118800 ∧
        IsNext (AtHours 0 23 2) 59400 64800 ∧ IsNext (AtHours 0 23 2) 64800 72000 := by
      refine ⟨?_, ?_, ?_, ?_⟩ <;>
      · refine ⟨by decide, by decide, fun later hlater hfires => ?_⟩
        unfold AtHours at hfires
        omega
    obtain ⟨hfive, hnine, hsix, height⟩ := hruns
    exact ⟨hcorrect.gap_fullHours hworking hfive hnine, hcorrect.gap_fullHours heven hsix height⟩
  have hlead := (tasks_stable_iff id ['U'] nextRuns _).mp (h _ nextRuns hcorrect id ['U'] _)
    (bytes "artisan:inspire") (by rw [hrivals]; exact List.cons_ne_nil _ _)
  rw [hrivals] at hlead
  obtain ⟨before, task, after, heq, hgaps⟩ := hlead
  cases before with
  | nil =>
    obtain ⟨rfl, rfl⟩ := List.cons.inj heq
    have hgap := (hgaps 59400).2 even List.mem_cons_self
    rw [hafternoon.1, hafternoon.2] at hgap
    exact absurd hgap (by decide)
  | cons first before =>
    obtain ⟨rfl, hrest⟩ := List.cons.inj heq
    have htask : task = even := by
      have hmem : task ∈ [even] := hrest ▸ List.mem_append_right _ List.mem_cons_self
      exact List.mem_singleton.mp hmem
    have hgap := (hgaps 30600).1 working List.mem_cons_self
    rw [htask, hmorning.1, hmorning.2] at hgap
    exact absurd hgap (by decide)

end SilenceWatch.Laravel
