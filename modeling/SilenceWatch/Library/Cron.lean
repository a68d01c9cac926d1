import Mathlib.Data.List.Basic

/-!
# Cron schedules

The calendar, the entries that the fields of a schedule consist of, and the moments at
which a schedule fires. Dialects differ in the number they give to Sunday and in how a
schedule combines days of the month with days of the week; both are parameters.
-/

namespace Cron

/-- Years with a 29th of February. -/
def isLeapYear (year : ℕ) : Bool := (year % 4 = 0 && year % 100 ≠ 0) || year % 400 = 0

/-- How many days a month has. -/
def daysInMonth (year month : ℕ) : ℕ :=
  if month = 2 then if isLeapYear year then 29 else 28
  else if month = 4 ∨ month = 6 ∨ month = 9 ∨ month = 11 then 30
  else 31

/-- The weekday before the first of a month, where Sunday is zero. -/
def monthOffset (year month : ℕ) : ℕ :=
  -- a period of the calendar ahead, so that nothing is subtracted from zero
  let year := if month < 3 then year + 399 else year + 400
  year + year / 4 - year / 100 + year / 400 +
    [0, 3, 2, 5, 0, 3, 5, 1, 4, 6, 2, 4].getD (month - 1) 0

/-- The weekday of a date, where Sunday is zero. -/
def weekdayOf (year month day : ℕ) : ℕ := (monthOffset year month + day) % 7

/-- A date of the calendar. -/
structure Date where
  year : ℕ
  month : ℕ
  day : ℕ
  month_mem : 1 ≤ month ∧ month ≤ 12
  day_mem : 1 ≤ day ∧ day ≤ daysInMonth year month

/-- A date and a time of day. -/
structure Moment extends Date where
  hour : ℕ
  minute : ℕ
  second : ℕ
  hour_lt : hour < 24
  minute_lt : minute < 60
  second_lt : second < 60

/-- The seconds of a moment, where every month has room for 32 days and every year for thirteen
months: their order is the order of moments. -/
def Moment.clock (m : Moment) : ℕ :=
  ((((m.year * 13 + m.month) * 32 + m.day) * 24 + m.hour) * 60 + m.minute) * 60 + m.second

/-- The weekday of a date. -/
def Date.weekday (date : Date) : ℕ := weekdayOf date.year date.month date.day

/-- The last day of the month of a date. -/
def Date.lastDay (date : Date) : ℕ := daysInMonth date.year date.month

/-- An entry of a field. -/
inductive Entry where
  /-- Every step from the first value to the last one. -/
  | run (low high step : ℕ)
  /-- The same for a range that passes the end of the field, of so many values. -/
  | around (low high step size : ℕ)
  /-- The last day of the month, or of the week. -/
  | last
  /-- So many days before the last one of the month. -/
  | beforeLast (days : ℕ)
  /-- The last such weekday of the month. -/
  | lastOf (day : ℕ)
  /-- The nth such weekday of the month. -/
  | nth (day n : ℕ)
  deriving DecidableEq

namespace Entry

/-- The entry admits a value of the clock, or a month. -/
def Matches (e : Entry) (v : ℕ) : Prop :=
  match e with
  | run low high step => low ≤ v ∧ v ≤ high ∧ (v - low) % step = 0
  | around low high step size =>
    (v + size - low) % size ≤ (high + size - low) % size ∧ (v + size - low) % size % step = 0
  | _ => False

instance (e : Entry) (v : ℕ) : Decidable (e.Matches v) :=
  match e with
  | run low high step =>
    inferInstanceAs (Decidable (low ≤ v ∧ v ≤ high ∧ (v - low) % step = 0))
  | around low high step size =>
    inferInstanceAs (Decidable ((v + size - low) % size ≤ (high + size - low) % size ∧
      (v + size - low) % size % step = 0))
  | last | beforeLast _ | lastOf _ | nth _ _ => inferInstanceAs (Decidable False)

/-- The entry names a weekday, in a dialect where Sunday has the given number. -/
def NamesDay (sunday : ℕ) (e : Entry) (d : ℕ) : Prop :=
  match e with
  | last => d = 6
  | lastOf v | nth v _ => (v + 7 - sunday) % 7 = d
  | e => ∃ v ∈ List.range 8, e.Matches v ∧ (v + 7 - sunday) % 7 = d

instance (sunday : ℕ) (e : Entry) (d : ℕ) : Decidable (e.NamesDay sunday d) :=
  match e with
  | last => inferInstanceAs (Decidable (d = 6))
  | lastOf v | nth v _ => inferInstanceAs (Decidable ((v + 7 - sunday) % 7 = d))
  | run low high step =>
    inferInstanceAs (Decidable (∃ v ∈ List.range 8,
      (run low high step).Matches v ∧ (v + 7 - sunday) % 7 = d))
  | around low high step size =>
    inferInstanceAs (Decidable (∃ v ∈ List.range 8,
      (around low high step size).Matches v ∧ (v + 7 - sunday) % 7 = d))
  | beforeLast n =>
    inferInstanceAs (Decidable (∃ v ∈ List.range 8,
      (beforeLast n).Matches v ∧ (v + 7 - sunday) % 7 = d))

/-- Where in the month the entry admits a weekday that it names. -/
def Within (e : Entry) (date : Date) : Prop :=
  match e with
  | lastOf _ => date.lastDay < date.day + 7
  | nth _ n => (date.day - 1) / 7 + 1 = n
  | _ => True

instance (e : Entry) (date : Date) : Decidable (e.Within date) :=
  match e with
  | lastOf _ => inferInstanceAs (Decidable (date.lastDay < date.day + 7))
  | nth _ n => inferInstanceAs (Decidable ((date.day - 1) / 7 + 1 = n))
  | run _ _ _ | around _ _ _ _ | last | beforeLast _ => inferInstanceAs (Decidable True)

/-- The entry, as one of the day of the week, admits a date. -/
def OnWeekday (sunday : ℕ) (e : Entry) (date : Date) : Prop :=
  e.NamesDay sunday date.weekday ∧ e.Within date

instance (sunday : ℕ) (e : Entry) (date : Date) : Decidable (e.OnWeekday sunday date) :=
  inferInstanceAs (Decidable (e.NamesDay sunday date.weekday ∧ e.Within date))

/-- The entry, as one of the day of the month, admits a date. -/
def OnDay (e : Entry) (date : Date) : Prop :=
  match e with
  | last => date.day = date.lastDay
  | beforeLast days => date.day + days = date.lastDay
  | e => e.Matches date.day

instance (e : Entry) (date : Date) : Decidable (e.OnDay date) :=
  match e with
  | last => inferInstanceAs (Decidable (date.day = date.lastDay))
  | beforeLast days => inferInstanceAs (Decidable (date.day + days = date.lastDay))
  | run low high step => inferInstanceAs (Decidable ((run low high step).Matches date.day))
  | around low high step size =>
    inferInstanceAs (Decidable ((around low high step size).Matches date.day))
  | lastOf day => inferInstanceAs (Decidable ((lastOf day).Matches date.day))
  | nth day n => inferInstanceAs (Decidable ((nth day n).Matches date.day))

end Entry

/-- Some entry of a field admits a value. -/
def Listed (entries : List Entry) (v : ℕ) : Prop := ∃ e ∈ entries, e.Matches v

instance (entries : List Entry) (v : ℕ) : Decidable (Listed entries v) :=
  inferInstanceAs (Decidable (∃ e ∈ entries, e.Matches v))

/-- A schedule, without the fields that admit every day. -/
structure Table where
  second : List Entry
  minute : List Entry
  hour : List Entry
  dayOfMonth : Option (List Entry)
  month : List Entry
  dayOfWeek : Option (List Entry)
  deriving DecidableEq

namespace Table

/-- The days of a schedule, with the number of Sunday and the way in which days of the month
and of the week combine. -/
def OnDate (sunday : ℕ) (both : Prop → Prop → Prop) (t : Table) (date : Date) : Prop :=
  match t.dayOfMonth, t.dayOfWeek with
  | none, none => True
  | some days, none => ∃ e ∈ days, e.OnDay date
  | none, some weekdays => ∃ e ∈ weekdays, e.OnWeekday sunday date
  | some days, some weekdays =>
    both (∃ e ∈ days, e.OnDay date) (∃ e ∈ weekdays, e.OnWeekday sunday date)

/-- The dates of a schedule can be computed where it can be computed whether both fields of
days combine. -/
def decidableOnDate {sunday : ℕ} {both : Prop → Prop → Prop} {t : Table} {date : Date}
    (h : ∀ p q, Decidable p → Decidable q → Decidable (both p q)) :
    Decidable (t.OnDate sunday both date) :=
  match t with
  | ⟨_, _, _, none, _, none⟩ => inferInstanceAs (Decidable True)
  | ⟨_, _, _, some days, _, none⟩ => inferInstanceAs (Decidable (∃ e ∈ days, e.OnDay date))
  | ⟨_, _, _, none, _, some weekdays⟩ =>
    inferInstanceAs (Decidable (∃ e ∈ weekdays, e.OnWeekday sunday date))
  | ⟨_, _, _, some days, _, some weekdays⟩ =>
    h (∃ e ∈ days, e.OnDay date) (∃ e ∈ weekdays, e.OnWeekday sunday date)
      inferInstance inferInstance

instance {sunday : ℕ} {t : Table} {date : Date} : Decidable (t.OnDate sunday And date) :=
  decidableOnDate fun _ _ _ _ => inferInstance

instance {sunday : ℕ} {t : Table} {date : Date} : Decidable (t.OnDate sunday Or date) :=
  decidableOnDate fun _ _ _ _ => inferInstance

/-- The schedule fires at a moment. -/
def Fires (sunday : ℕ) (both : Prop → Prop → Prop) (t : Table) (m : Moment) : Prop :=
  Listed t.second m.second ∧ Listed t.minute m.minute ∧ Listed t.hour m.hour ∧
    Listed t.month m.month ∧ t.OnDate sunday both m.toDate

instance {sunday : ℕ} {both : Prop → Prop → Prop} {t : Table} {m : Moment}
    [Decidable (t.OnDate sunday both m.toDate)] : Decidable (t.Fires sunday both m) :=
  inferInstanceAs (Decidable (Listed t.second m.second ∧ Listed t.minute m.minute ∧
    Listed t.hour m.hour ∧ Listed t.month m.month ∧ t.OnDate sunday both m.toDate))

variable {t : Table} {sunday : ℕ} {both : Prop → Prop → Prop} {date : Date}

/-- Only the weekdays of a schedule can restrict its dates. -/
theorem onDate_of_dayOfMonth_none (h : t.dayOfMonth = none) :
    t.OnDate sunday both date ↔ ∀ weekdays ∈ t.dayOfWeek, ∃ e ∈ weekdays,
      e.OnWeekday sunday date := by
  unfold OnDate
  rw [h]
  cases t.dayOfWeek with
  | none => simp
  | some weekdays => simp

/-- Only the days of the month of a schedule can restrict its dates. -/
theorem onDate_of_dayOfWeek_none (h : t.dayOfWeek = none) :
    t.OnDate sunday both date ↔ ∀ days ∈ t.dayOfMonth, ∃ e ∈ days, e.OnDay date := by
  unfold OnDate
  rw [h]
  cases t.dayOfMonth with
  | none => simp
  | some days => simp

/-- The schedule has times of day. -/
structure HasTimes (t : Table) : Prop where
  second : ∃ v < 60, Listed t.second v
  minute : ∃ v < 60, Listed t.minute v
  hour : ∃ v < 24, Listed t.hour v

/-- Schedules with the same times and months fire together exactly if they have the same dates
in these months. -/
theorem fires_iff {t t' : Table} {sunday sunday' : ℕ} {both both' : Prop → Prop → Prop}
    (htimes : t.HasTimes) (hsecond : t'.second = t.second) (hminute : t'.minute = t.minute)
    (hhour : t'.hour = t.hour) (hmonth : t'.month = t.month) :
    (∀ m, t'.Fires sunday' both' m ↔ t.Fires sunday both m) ↔
      ∀ date : Date, Listed t.month date.month →
        (t'.OnDate sunday' both' date ↔ t.OnDate sunday both date) := by
  simp only [Fires, hsecond, hminute, hhour, hmonth]
  constructor
  · intro h date hlisted
    obtain ⟨second, hsecond, hs⟩ := htimes.second
    obtain ⟨minute, hminute, hm⟩ := htimes.minute
    obtain ⟨hour, hhour, hh⟩ := htimes.hour
    simpa [hs, hm, hh, hlisted] using h ⟨date, hour, minute, second, hhour, hminute, hsecond⟩
  · intro h m
    refine and_congr_right fun _ => and_congr_right fun _ => and_congr_right fun _ => ?_
    exact and_congr_right fun hlisted => h m.toDate hlisted

end Table

/-- The weekdays of dates. -/
theorem Date.weekday_lt (date : Date) : date.weekday < 7 := Nat.mod_lt _ (by omega)

/-- A month has four weeks at least, and a day more in leap years. -/
theorem le_daysInMonth (year month : ℕ) :
    28 ≤ daysInMonth year month ∧ (isLeapYear year = true → 29 ≤ daysInMonth year month) := by
  unfold daysInMonth
  split
  · cases isLeapYear year with
    | true => simp
    | false => simp
  · split
    · simp
    · simp

/-- No month has more days than 31. -/
theorem daysInMonth_le (year month : ℕ) : daysInMonth year month ≤ 31 := by
  unfold daysInMonth
  split
  · cases isLeapYear year with
    | true => simp
    | false => simp
  · split
    · simp
    · simp

theorem january_mem : 1 ≤ 1 ∧ 1 ≤ 12 := by decide

/-- The day after a date. -/
def Date.next (date : Date) : Date :=
  if hday : date.day + 1 ≤ daysInMonth date.year date.month then
    { date with day := date.day + 1, day_mem := ⟨by omega, hday⟩ }
  else if hmonth : date.month + 1 ≤ 12 then
    { year := date.year, month := date.month + 1, day := 1, month_mem := ⟨by omega, hmonth⟩
      day_mem := ⟨by omega, Nat.le_trans (by omega) (le_daysInMonth _ _).1⟩ }
  else
    { year := date.year + 1, month := 1, day := 1, month_mem := january_mem
      day_mem := ⟨by omega, Nat.le_trans (by omega) (le_daysInMonth _ _).1⟩ }

/-- The date so many days after the first of January 1970. -/
def Date.ofDays : ℕ → Date
  | 0 => { year := 1970, month := 1, day := 1, month_mem := january_mem, day_mem := by decide }
  | n + 1 => (Date.ofDays n).next

/-- What the clock shows in universal time so many seconds after that day began. -/
def Moment.ofSeconds (seconds : ℕ) : Moment :=
  { Date.ofDays (seconds / 86400) with
    hour := seconds / 3600 % 24, minute := seconds / 60 % 60, second := seconds % 60
    hour_lt := Nat.mod_lt _ (by omega), minute_lt := Nat.mod_lt _ (by omega)
    second_lt := Nat.mod_lt _ (by omega) }

/-- Every weekday begins a month of some leap year. -/
theorem exists_leapYear {month d : ℕ} (hmonth : 1 ≤ month ∧ month ≤ 12) (hd : d < 7) :
    ∃ year, isLeapYear year = true ∧ weekdayOf year month 1 = d := by
  have hall : ∀ month ∈ List.range 12, ∀ d ∈ List.range 7, ∃ year ∈ List.range 28,
      isLeapYear (2000 + year) = true ∧ weekdayOf (2000 + year) (month + 1) 1 = d := by
    decide +kernel
  obtain ⟨year, -, hleap, hday⟩ := hall (month - 1) (List.mem_range.mpr (by omega)) d
    (List.mem_range.mpr hd)
  rw [Nat.sub_add_cancel hmonth.1] at hday
  exact ⟨2000 + year, hleap, hday⟩

/-- A day of a month falls on every weekday in some leap year. -/
theorem exists_date (day : ℕ) {month d : ℕ} (hmonth : 1 ≤ month ∧ month ≤ 12) (hd : d < 7)
    (hday : 1 ≤ day ∧ ∀ year, isLeapYear year = true → day ≤ daysInMonth year month) :
    ∃ date : Date, date.month = month ∧ date.day = day ∧ date.weekday = d := by
  obtain ⟨year, hleap, hfirst⟩ : ∃ year, isLeapYear year = true ∧
      weekdayOf year month 1 = (d + 6 * (day - 1)) % 7 := exists_leapYear hmonth (by omega)
  refine ⟨⟨year, month, day, hmonth, hday.1, hday.2 year hleap⟩, rfl, rfl, ?_⟩
  simp only [Date.weekday, weekdayOf] at hfirst ⊢
  omega

/-- No month is longer than it is in leap years. -/
theorem daysInMonth_le_of_isLeapYear {year leapYear month : ℕ}
    (hleap : isLeapYear leapYear = true) :
    daysInMonth year month ≤ daysInMonth leapYear month := by
  unfold daysInMonth
  by_cases hmonth : month = 2
  · rw [if_pos hmonth, if_pos hmonth, if_pos hleap]
    cases isLeapYear year with
    | true => simp
    | false => simp
  · exact Nat.le_of_eq (by rw [if_neg hmonth, if_neg hmonth])

/-- **Days of the month and of the week**, as alternatives, are the days that both fields admit
exactly if both admit every day. -/
theorem alternatives_iff {days weekdays months : ℕ → Prop}
    (hmonth : ∃ month, (1 ≤ month ∧ month ≤ 12) ∧ months month) (hweekday : ∃ d < 7, weekdays d) :
    (∀ date : Date, months date.month →
        (days date.day ∨ weekdays date.weekday ↔ days date.day ∧ weekdays date.weekday)) ↔
      (∀ date : Date, months date.month → days date.day) ∧ ∀ d < 7, weekdays d := by
  constructor
  · intro h
    have hdays : ∀ date : Date, months date.month → days date.day := by
      intro date hlisted
      obtain ⟨d, hd, hnamed⟩ := hweekday
      obtain ⟨date', hsame, hday, rfl⟩ := exists_date date.day date.month_mem hd
        ⟨date.day_mem.1, fun year hleap =>
          Nat.le_trans date.day_mem.2 (daysInMonth_le_of_isLeapYear hleap)⟩
      rw [← hday]
      exact ((h date' (hsame ▸ hlisted)).mp (Or.inr hnamed)).1
    refine ⟨hdays, fun d hd => ?_⟩
    obtain ⟨month, hrange, hlisted⟩ := hmonth
    obtain ⟨date, hsame, -, rfl⟩ := exists_date 1 hrange hd
      ⟨Nat.le_refl 1, fun year _ => Nat.le_trans (by omega) (le_daysInMonth year month).1⟩
    exact ((h date (hsame ▸ hlisted)).mp (Or.inl (hdays date (hsame ▸ hlisted)))).2
  · rintro ⟨hdays, hweekdays⟩ date hlisted
    exact iff_of_true (Or.inl (hdays date hlisted))
      ⟨hdays date hlisted, hweekdays date.weekday date.weekday_lt⟩

/-- Every weekday of every month has a date where an entry admits it. -/
theorem Entry.exists_within (e : Entry) {month d : ℕ} (hmonth : 1 ≤ month ∧ month ≤ 12)
    (hd : d < 7) (hnth : ∀ v n, e = .nth v n → 1 ≤ n ∧ n ≤ 5) :
    ∃ date : Date, date.month = month ∧ date.weekday = d ∧ e.Within date := by
  have hfirst := exists_date 1 hmonth hd
    ⟨Nat.le_refl 1, fun year _ => Nat.le_trans (by omega) (le_daysInMonth year month).1⟩
  cases e with
  | lastOf v =>
    let lastDay := daysInMonth 2000 month
    have hlast := (le_daysInMonth 2000 month).1
    refine ⟨⟨2000, month, lastDay - (monthOffset 2000 month + lastDay + 7 - d) % 7, hmonth,
      by omega, by omega⟩, rfl, ?_, ?_⟩
    · simp only [Date.weekday, weekdayOf]
      omega
    · simp only [Within, Date.lastDay]
      omega
  | nth v n =>
    have hn := hnth v n rfl
    obtain ⟨date, hmonth, hday, hweekday⟩ := exists_date (7 * n - 6) hmonth hd
      ⟨by omega, fun year hleap => Nat.le_trans (by omega) ((le_daysInMonth year month).2 hleap)⟩
    refine ⟨date, hmonth, hweekday, ?_⟩
    simp only [Within, hday]
    omega
  | run | around | last | beforeLast =>
    obtain ⟨date, hmonth, -, hweekday⟩ := hfirst
    exact ⟨date, hmonth, hweekday, trivial⟩

/-- Entries for the same times of the month admit dates by their weekday. -/
theorem exists_onWeekday {es : List Entry} {sunday : ℕ} {k : Entry} {date : Date}
    (h : ∀ e ∈ es, e.Within date ↔ k.Within date) :
    (∃ e ∈ es, e.OnWeekday sunday date) ↔
      (∃ e ∈ es, e.NamesDay sunday date.weekday) ∧ k.Within date := by
  constructor
  · rintro ⟨e, he, hday, hwithin⟩
    exact ⟨⟨e, he, hday⟩, (h e he).mp hwithin⟩
  · rintro ⟨⟨e, he, hday⟩, hwithin⟩
    exact ⟨e, he, hday, (h e he).mpr hwithin⟩

/-- **Weekdays.** Two lists of entries for the same times of the month admit the same dates of
some month exactly if they name the same weekdays. -/
theorem onWeekday_iff {es es' : List Entry} {sunday sunday' month : ℕ} (k : Entry)
    (hk : ∀ v n, k = .nth v n → 1 ≤ n ∧ n ≤ 5) (hmonth : 1 ≤ month ∧ month ≤ 12)
    (h : ∀ e ∈ es, ∀ date, e.Within date ↔ k.Within date)
    (h' : ∀ e ∈ es', ∀ date, e.Within date ↔ k.Within date) :
    (∀ date : Date, date.month = month →
        ((∃ e ∈ es', e.OnWeekday sunday' date) ↔ ∃ e ∈ es, e.OnWeekday sunday date)) ↔
      ∀ d < 7, (∃ e ∈ es', e.NamesDay sunday' d) ↔ ∃ e ∈ es, e.NamesDay sunday d := by
  constructor
  · intro hdates d hd
    obtain ⟨date, hdate, rfl, hwithin⟩ := k.exists_within hmonth hd hk
    have hsame := hdates date hdate
    rwa [exists_onWeekday fun e he => h' e he date, exists_onWeekday fun e he => h e he date,
      and_iff_left hwithin, and_iff_left hwithin] at hsame
  · intro hdays date _
    rw [exists_onWeekday fun e he => h' e he date, exists_onWeekday fun e he => h e he date,
      hdays date.weekday date.weekday_lt]

end Cron
