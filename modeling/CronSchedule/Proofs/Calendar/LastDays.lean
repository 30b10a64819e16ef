import CronSchedule.Matcher.Basic
import CronSchedule.Proofs.Calendar.Dates
import Mathlib.Order.Bounds.Basic

/-!
# The last days of a month

A matcher is asked about one day and does not see the others of the month.  That the day a week
later falls into the next month makes the day the last of its weekday, because the seven last
days of a month have the seven days of the week, whichever day the month begins on and however
long it is.

The days of a month are those that a clock can show, so nothing is said about the rule for the
length of a month beforehand.

* `daysOf`, `daysOn` — the days of a month, and those of them on a day of the week;
* `mem_daysOf_iff`, `mem_daysOn_iff` — both by numbers;
* `lastOn`, `isGreatest_lastOn` — the last of them on a day of the week;
* `Matcher.Picks` — a matcher accepts some days of a month and refuses the others;
* `Matcher.picks_last` — what the matchers for the end of a month pick.
-/

namespace CronSchedule

/-! ### The days of a month -/

/-- The days of a month that a clock can show. -/
def daysOf (year month : Int) : Set Int := {day | ∃ w : WallTime, w.date = ⟨year, month, day⟩}

/-- Those that fall on a day of the week. -/
def daysOn (year month weekday : Int) : Set Int :=
  {day | ∃ w : WallTime, w.date = ⟨year, month, day⟩ ∧ weekdayOf w.day = weekday}

/-- The number of days before the month. -/
def monthStart (year month : Int) : Int :=
  daysBeforeYear year + daysBeforeMonth (isLeap year) month

variable {year month length day n : Int}

/-- The day that a clock shows, counted from the start of its month. -/
theorem WallTime.day_eq_of_date {w : WallTime} (h : w.date = ⟨year, month, day⟩) :
    w.day = monthStart year month + day - 1 := by
  have hnumber : w.date.dayNumber = w.day := Date.dayNumber_ofDayNumber w.day
  rw [← hnumber, h]
  rfl

theorem mem_daysOf_iff (hyear : 1 ≤ year ∧ year ≤ 9999) (hmonth : 1 ≤ month ∧ month ≤ 12)
    (hlength : monthLength? year month = some length) :
    day ∈ daysOf year month ↔ 1 ≤ day ∧ day ≤ length := by
  constructor
  · rintro ⟨w, hw⟩
    have hexists : w.date.Exists := Date.exists_ofDayNumber w.day
    rw [hw] at hexists
    exact ⟨hexists.day, hexists.le_length length hlength⟩
  · rintro ⟨hfirst, hlast⟩
    have hexists : Date.Exists ⟨year, month, day⟩ := by
      refine ⟨hmonth, hfirst, ?_⟩
      intro length' hlength'
      rw [hlength] at hlength'
      rwa [← Option.some.inj hlength']
    obtain ⟨w, hw, -⟩ := WallTime.exists_date hexists hyear.1 hyear.2
    exact ⟨w, hw⟩

theorem mem_daysOn_iff : day ∈ daysOn year month n ↔
    day ∈ daysOf year month ∧ (monthStart year month + day) % 7 = n := by
  constructor
  · rintro ⟨w, hw, hweekday⟩
    refine ⟨⟨w, hw⟩, ?_⟩
    rw [weekdayOf, WallTime.day_eq_of_date hw, Int.sub_add_cancel] at hweekday
    exact hweekday
  · rintro ⟨⟨w, hw⟩, hweekday⟩
    refine ⟨w, hw, ?_⟩
    rw [weekdayOf, WallTime.day_eq_of_date hw, Int.sub_add_cancel]
    exact hweekday

/-- Of the last seven days of a month so long, the one on a day of the week. -/
def lastOn (year month length n : Int) : Int :=
  length - (monthStart year month + length - n) % 7

/-- It is the only one of the last seven on this day of the week. -/
theorem eq_lastOn_iff (hn : 0 ≤ n ∧ n ≤ 6) (hday : day ≤ length) :
    day = lastOn year month length n ↔
      (monthStart year month + day) % 7 = n ∧ length < day + 7 := by
  unfold lastOn
  omega

/-- So it is the last of all days of the month on that day of the week. -/
theorem isGreatest_lastOn (hyear : 1 ≤ year ∧ year ≤ 9999) (hmonth : 1 ≤ month ∧ month ≤ 12)
    (hlength : monthLength? year month = some length) (hn : 0 ≤ n ∧ n ≤ 6) :
    IsGreatest (daysOn year month n) (lastOn year month length n) := by
  have hle : lastOn year month length n ≤ length := by
    unfold lastOn
    omega
  obtain ⟨hweekday, hlate⟩ := (eq_lastOn_iff hn hle).mp rfl
  constructor
  · have := (monthLength?_bounds hlength).1
    apply mem_daysOn_iff.mpr
    exact ⟨(mem_daysOf_iff hyear hmonth hlength).mpr ⟨by omega, hle⟩, hweekday⟩
  · intro day hday
    obtain ⟨hday, hsame⟩ := mem_daysOn_iff.mp hday
    have := ((mem_daysOf_iff hyear hmonth hlength).mp hday).2
    -- a later day on this day of the week would be one of the last seven as well
    by_contra hlater
    have heq : day = lastOn year month length n :=
      (eq_lastOn_iff hn this).mpr ⟨hsame, by omega⟩
    omega

/-! ### What is picked -/

namespace Matcher

/-- Of all that a clock shows in the month, the matcher accepts what is on these days and
refuses what is on others. -/
def Picks (m : Matcher) (value : Reading → Int) (year month : Int) (days : Set Int) : Prop :=
  ∀ (w : WallTime) (withSeconds : Bool), w.date.year = year → w.date.month = month →
    ∃ answer, m.accepts (w.reading withSeconds) (value (w.reading withSeconds)) = some answer ∧
      (answer = true ↔ w.date.day ∈ days)

theorem daysInMonth?_reading_of_month {w : WallTime} {withSeconds : Bool}
    (hyear : w.date.year = year) (hmonth : w.date.month = month) :
    (w.reading withSeconds).daysInMonth? = monthLength? year month := by
  rw [← hyear, ← hmonth]
  rfl

theorem picks_lastDay (hlength : monthLength? year month = some length) :
    lastDay.Picks Reading.day year month {length} := by
  intro w withSeconds hyear hmonth
  rw [accepts_lastDay, daysInMonth?_reading_of_month hyear hmonth, hlength]
  exact ⟨_, rfl, beq_iff_eq⟩

/-- What a clock shows is accepted as the last of a day of the week if it falls on that and is
one of the last seven days. -/
theorem accepts_lastWeekday_reading {w : WallTime} (withSeconds : Bool)
    (hlength : monthLength? w.date.year w.date.month = some length) :
    accepts (w.reading withSeconds) (w.reading withSeconds).weekday (.lastWeekday n) =
      some (decide (weekdayOf w.day = n ∧ length < w.date.day + 7)) := by
  have hmonth : (w.reading withSeconds).daysInMonth? = some length := hlength
  have hweekday : (w.reading withSeconds).weekday = weekdayOf w.day := rfl
  have hday : (w.reading withSeconds).day = w.date.day := rfl
  rw [accepts_lastWeekday, hmonth, hweekday, hday, Option.map_some]
  by_cases hn : weekdayOf w.day = n
  · rw [if_pos hn, Bool.decide_and, decide_eq_true hn, Bool.true_and]
  · rw [if_neg hn, Bool.decide_and, decide_eq_false hn, Bool.false_and]

theorem picks_lastWeekday (hlength : monthLength? year month = some length)
    (hn : 0 ≤ n ∧ n ≤ 6) :
    (lastWeekday n).Picks Reading.weekday year month {lastOn year month length n} := by
  intro w withSeconds hyear hmonth
  have hdate : w.date = ⟨year, month, w.date.day⟩ := by rw [← hyear, ← hmonth]
  have hlast : w.date.day ≤ length :=
    (Date.exists_ofDayNumber w.day).le_length length (hyear ▸ hmonth ▸ hlength)
  refine ⟨_, accepts_lastWeekday_reading withSeconds (hyear ▸ hmonth ▸ hlength), ?_⟩
  rw [decide_eq_true_iff, Set.mem_singleton_iff, eq_lastOn_iff hn hlast, weekdayOf,
    WallTime.day_eq_of_date hdate, Int.sub_add_cancel]

/-- In every month the matcher for the last day picks just the greatest day of the month, and
the matcher for a day of the week just the greatest day that falls on it.  Whatever one of the
latter accepts is one of the last seven days, and each of these is accepted by just one. -/
theorem picks_last (hyear : 1 ≤ year ∧ year ≤ 9999) (hmonth : 1 ≤ month ∧ month ≤ 12) :
    ∃ last, IsGreatest (daysOf year month) last ∧
      lastDay.Picks Reading.day year month {last} ∧
      (∀ n, 0 ≤ n → n ≤ 6 → ∃ day, IsGreatest (daysOn year month n) day ∧
        (lastWeekday n).Picks Reading.weekday year month {day}) ∧
      ∀ (w : WallTime) (withSeconds : Bool), w.date.year = year → w.date.month = month →
        (∀ n, accepts (w.reading withSeconds) (w.reading withSeconds).weekday (.lastWeekday n) =
          some true → last < w.date.day + 7) ∧
        (last < w.date.day + 7 → ∃! n, (0 ≤ n ∧ n ≤ 6) ∧
          accepts (w.reading withSeconds) (w.reading withSeconds).weekday (.lastWeekday n) =
            some true) := by
  have hlength := monthLength?_eq (y := year) hmonth.1 hmonth.2
  generalize daysBeforeMonth (isLeap year) (month + 1) - daysBeforeMonth (isLeap year) month =
    length at hlength
  have hbounds := monthLength?_bounds hlength
  refine ⟨length, ?_, picks_lastDay hlength, ?_, ?_⟩
  · constructor
    · exact (mem_daysOf_iff hyear hmonth hlength).mpr ⟨by omega, le_rfl⟩
    · intro day hday
      exact ((mem_daysOf_iff hyear hmonth hlength).mp hday).2
  · intro n hfirst hlast
    exact ⟨_, isGreatest_lastOn hyear hmonth hlength ⟨hfirst, hlast⟩,
      picks_lastWeekday hlength ⟨hfirst, hlast⟩⟩
  · intro w withSeconds hwyear hwmonth
    have haccepts (n : Int) := accepts_lastWeekday_reading (n := n) withSeconds
      (hwyear ▸ hwmonth ▸ hlength : monthLength? w.date.year w.date.month = some length)
    simp only [haccepts, Option.some.injEq, decide_eq_true_iff]
    constructor
    · exact fun n h => h.2
    · intro hlate
      refine ⟨weekdayOf w.day, ⟨?_, rfl, hlate⟩, fun n h => h.2.1.symm⟩
      unfold weekdayOf
      omega

/-- In February 2100, which has 28 days although four divides the year, the last day and the
last Sunday are the 28th. -/
theorem picks_last_february2100 :
    (1 ≤ (2100 : Int) ∧ (2100 : Int) ≤ 9999) ∧ (1 ≤ (2 : Int) ∧ (2 : Int) ≤ 12) ∧
      IsGreatest (daysOf 2100 2) 28 ∧ lastDay.Picks Reading.day 2100 2 {28} ∧
      IsGreatest (daysOn 2100 2 0) 28 ∧ (lastWeekday 0).Picks Reading.weekday 2100 2 {28} := by
  have hyear : 1 ≤ (2100 : Int) ∧ (2100 : Int) ≤ 9999 := by decide
  have hmonth : 1 ≤ (2 : Int) ∧ (2 : Int) ≤ 12 := by decide
  have hlength : monthLength? 2100 2 = some 28 := by decide
  obtain ⟨last, hlast, hpicks, hweekdays, -⟩ := picks_last hyear hmonth
  obtain ⟨sunday, hsunday, hpicks'⟩ := hweekdays 0 (by decide) (by decide)
  have hlast28 : last = 28 := by
    have hmem := (mem_daysOf_iff hyear hmonth hlength).mp hlast.1
    have hmem28 : (28 : Int) ∈ daysOf 2100 2 :=
      (mem_daysOf_iff hyear hmonth hlength).mpr (by decide)
    have hbound := hlast.2 hmem28
    omega
  have hsunday28 : sunday = 28 :=
    hsunday.unique (isGreatest_lastOn hyear hmonth hlength (by decide))
  rw [hlast28] at hlast hpicks
  rw [hsunday28] at hsunday hpicks'
  exact ⟨hyear, hmonth, hlast, hpicks, hsunday, hpicks'⟩

end Matcher

end CronSchedule
