import CronSchedule.Proofs.Enumerate.Earliest
import CronSchedule.Proofs.Pattern.Recurrence

/-!
# Four years ahead

By default a search looks 1464 days ahead, four years and three days.  For a pattern without a
restricted year that is enough: the window holds a whole year, and in it every date that the
pattern accepts comes back, but for 29 February.  It also holds the day behind 28 February of
a year that four divides, and only where that year is a century without a leap day is this day
not 29 February.

A window starts and ends within a day, so the first and the last of its days do not count: the
times that match may be those that it leaves out.

* `exists_year_divided_by_four` — the first day behind 28 February of such a year;
* `SearchWindow.find?_ne_none_of_date` — a date that is accepted on a whole day of the window
  gives the search a match;
* `Call.next_covers` — with the default horizon a search finds nothing only where no date is
  accepted, or around a century without a leap day.
-/

namespace CronSchedule

/-! ### Years in a window -/

/-- Behind every day, within 1461 days, comes the first day behind 28 February of a year that
four divides. -/
theorem exists_year_divided_by_four (n : Int) : ∃ c, c % 4 = 0 ∧ n < daysBeforeYear c + 59 ∧
    daysBeforeYear c + 59 ≤ n + 1461 := by
  obtain ⟨hstart, hend⟩ := Date.yearOfDay_bounds n
  generalize Date.yearOfDay n = y at hstart hend
  -- the next such year, this year included
  obtain ⟨c, hc, hle, hlt⟩ : ∃ c, c % 4 = 0 ∧ y ≤ c ∧ c < y + 4 := ⟨y + -y % 4, by omega⟩
  by_cases hbehind : n < daysBeforeYear c + 59
  · refine ⟨c, hc, hbehind, ?_⟩
    have hthree : daysBeforeYear (y + 3) ≤ daysBeforeYear y + 1096 := by
      unfold daysBeforeYear
      omega
    have := daysBeforeYear_mono (show c ≤ y + 3 by omega)
    omega
  · refine ⟨c + 4, by omega, ?_, ?_⟩
    · have := daysBeforeYear_mono (show y + 1 ≤ c + 4 by omega)
      omega
    · have hfour : daysBeforeYear (c + 4) ≤ daysBeforeYear c + 1461 := by
        unfold daysBeforeYear
        omega
      omega

/-! ### Whole days of a window -/

namespace SearchWindow

variable {settings : Settings} {withSeconds : Bool} {after start stop : WallTime}

/-- A reading on a whole day of a window of 1464 days lies in the window. -/
theorem mem_of_day (hspan : stop.micros = start.micros + 1464 * microsPerDay) {t : WallTime}
    (hbehind : start.day < t.day) (hbefore : t.day < start.day + 1464) :
    start.micros ≤ t.micros ∧ t.micros < stop.micros := by
  simp only [WallTime.day, microsPerDay, microsPerSecond] at *
  omega

/-- A date that is accepted on a whole day of the window gives the search a match. -/
theorem find?_ne_none_of_date (h : SearchWindow settings withSeconds after start stop)
    (hspan : stop.micros = start.micros + 1464 * microsPerDay) {expression : String} {p : Pattern}
    (hcompile : Pattern.compile expression = .ok p) {v : WallTime} {b : Bool}
    (hv : p.acceptsDate (v.reading b) = some true) (hbehind : start.day < v.day)
    (hbefore : v.day < start.day + 1464) :
    (start.ticksUntil stop (tickStep withSeconds)).find? (p.admits withSeconds) ≠ none := by
  intro hnone
  obtain ⟨t, hday, hadmits⟩ := Pattern.exists_admits_of_date hcompile hv withSeconds
  rw [← hday] at hbehind hbefore
  obtain ⟨hge, hlt⟩ := mem_of_day hspan hbehind hbefore
  have hrefused := (h.find?_eq_none_iff p).mp hnone t hge hlt
  rw [p.matchesWall_eq, hadmits] at hrefused
  cases hrefused

/-- The year behind that of the start lies in the window as a whole. -/
theorem exists_whole_year (h : SearchWindow settings withSeconds after start stop)
    (hspan : stop.micros = start.micros + 1464 * microsPerDay) :
    ∃ y, 1 ≤ y ∧ y ≤ 9999 ∧ ∀ v : WallTime, v.date.year = y →
      start.day < v.day ∧ v.day < start.day + 1464 := by
  have hlast := h.stop_le
  have hend : start.day + 1464 < calendarDays := by
    simp only [hspan, lastMidnight, WallTime.day, calendarDays, microsPerDay,
      microsPerSecond] at hlast ⊢
    omega
  obtain ⟨hstart, hnext⟩ := Date.yearOfDay_bounds start.day
  generalize Date.yearOfDay start.day = y at hstart hnext
  have hday := start.day_nonneg
  refine ⟨y + 1, ?_, ?_, fun v hv => ?_⟩
  · refine Int.not_lt.mp fun hlt => ?_
    have := daysBeforeYear_mono (show y + 1 ≤ 1 by omega)
    rw [show daysBeforeYear 1 = 0 from rfl] at this
    omega
  · refine Int.not_lt.mp fun hlt => ?_
    have := daysBeforeYear_mono (show 9999 ≤ y by omega)
    rw [show daysBeforeYear 9999 = calendarDays - 365 from rfl] at this
    omega
  · obtain ⟨hfirst, hbehind⟩ := Date.yearOfDay_bounds v.day
    rw [show Date.yearOfDay v.day = y + 1 from hv] at hfirst hbehind
    have hone := daysBeforeYear_succ y
    have htwo := daysBeforeYear_succ (y + 1)
    split at hone <;> split at htwo <;> omega

/-- Where nothing but 29 February is accepted, a search that finds nothing passes over 1 March of a
century that has no leap day. -/
theorem exists_century_of_none (h : SearchWindow settings withSeconds after start stop)
    (hspan : stop.micros = start.micros + 1464 * microsPerDay) {expression : String} {p : Pattern}
    (hcompile : Pattern.compile expression = .ok p)
    (hyears : ∀ a ∈ p.alternatives, a.year.isAny = true) {w : WallTime} {b : Bool}
    (hw : p.acceptsDate (w.reading b) = some true)
    (honly : ∀ v : WallTime, p.acceptsDate (v.reading b) = some true → v.date.IsLeapDay)
    (hnone : (start.ticksUntil stop (tickStep withSeconds)).find? (p.admits withSeconds) = none) :
    ∃ (c : Int) (v : WallTime), c % 100 = 0 ∧ c % 400 ≠ 0 ∧ v.date = ⟨c, 3, 1⟩ ∧
      start.micros ≤ v.micros ∧ v.micros < stop.micros := by
  obtain ⟨c, hfour, hbehind, hbefore⟩ := exists_year_divided_by_four start.day
  have hfirst : 1 ≤ c := by
    refine Int.not_lt.mp fun hlt => ?_
    have := daysBeforeYear_mono (show c ≤ 0 by omega)
    rw [show daysBeforeYear 0 = -366 from rfl] at this
    have := start.day_nonneg
    omega
  have hlast : c ≤ 9999 := by
    refine Int.not_lt.mp fun hlt => ?_
    have := daysBeforeYear_mono (show 10000 ≤ c by omega)
    rw [show daysBeforeYear 10000 = calendarDays from rfl] at this
    have hstop := h.stop_le
    simp only [hspan, lastMidnight, WallTime.day, calendarDays, microsPerDay,
      microsPerSecond] at hstop hbefore this
    omega
  have hleap : isLeap c = false := by
    rw [Bool.eq_false_iff]
    intro hleap
    obtain ⟨v, hyear, hv⟩ := Pattern.exists_date_of_year hcompile hyears hw hfirst hlast
      (fun _ => hleap) b
    obtain ⟨hmonth, hday⟩ := honly v hv
    have hnumber : v.day = daysBeforeYear c + 59 := by
      have hdate : v.date.dayNumber = v.day := Date.dayNumber_ofDayNumber v.day
      rw [← hdate, Date.dayNumber, hyear, hmonth, hday, hleap,
        show daysBeforeMonth true 2 = 31 from rfl]
      omega
    exact h.find?_ne_none_of_date hspan hcompile hv (by omega) (by omega) hnone
  have hexists : (⟨c, 3, 1⟩ : Date).Exists := by
    have hmarch : (1 : Int) ≤ 3 ∧ (3 : Int) ≤ 12 := by decide
    refine ⟨hmarch, Int.le_refl 1, fun length hlength => ?_⟩
    exact Int.le_trans (show (1 : Int) ≤ 28 by decide) (monthLength?_bounds hlength).1
  obtain ⟨v, hv, hday⟩ := WallTime.exists_date hexists hfirst hlast
  have hnumber : v.day = daysBeforeYear c + 59 := by
    rw [hday, Date.dayNumber, hleap, show daysBeforeMonth false 3 = 59 from rfl]
    exact Int.add_sub_cancel _ 1
  have hcentury : c % 100 = 0 ∧ c % 400 ≠ 0 := by
    simp only [isLeap, hfour, decide_true, Bool.true_and, Bool.or_eq_false_iff,
      decide_eq_false_iff_not, not_not] at hleap
    exact hleap
  exact ⟨c, v, hcentury.1, hcentury.2, hv, mem_of_day hspan (by omega) (by omega)⟩

end SearchWindow

/-! ### Searches -/

namespace Call

/-- With a horizon of 1464 days and no limit on ticks, a search for a pattern without a
restricted year finds something wherever some date other than 29 February is accepted.  Where
no other date is, it finds nothing exactly when no 29 February in its window has a time that
matches; and if 29 February is accepted at all, that happens only when the window holds 1 March
of a century that has no leap day. -/
theorem next_covers {expression : String} {p : Pattern}
    (hcompile : Pattern.compile expression = .ok p)
    (hyears : ∀ a ∈ p.alternatives, a.year.isAny = true) {inForce : Settings} {s : Session}
    (hs : s.settings = some inForce) (hcap : inForce.tickLimit = none)
    (hdays : inForce.searchHorizonDays = .int 1464) {after : DateTime} (hzone : after.zone = none)
    {matchSeconds : Option Bool} {first : WallTime}
    (hfirst : WallTime.FirstBehind (p.searchesSeconds matchSeconds) after.wall first)
    (hend : first.micros + 1464 * microsPerDay ≤ lastMidnight) (host : Host) :
    ∃ found, outcome (next p after matchSeconds) host s = (.ok found, s) ∧
      ((∃ w : WallTime, p.acceptsDate (w.reading false) = some true ∧ ¬ w.date.IsLeapDay) →
        found ≠ none) ∧
      ((∀ w : WallTime, p.acceptsDate (w.reading false) = some true → w.date.IsLeapDay) →
        (found = none ↔ ∀ t : WallTime, first.micros ≤ t.micros →
          t.micros < first.micros + 1464 * microsPerDay → t.date.IsLeapDay →
            ¬ Accepts host s p (p.searchesSeconds matchSeconds) t) ∧
        ((∃ w : WallTime, p.acceptsDate (w.reading false) = some true) → found = none →
          ∃ (c : Int) (v : WallTime), c % 100 = 0 ∧ c % 400 ≠ 0 ∧ v.date = ⟨c, 3, 1⟩ ∧
            first.micros ≤ v.micros ∧ v.micros < first.micros + 1464 * microsPerDay)) := by
  have hspanDays : inForce.searchHorizonDays.days = .ok (1464 * microsPerDay) := by
    rw [hdays, Value.days]
  obtain ⟨stop, hwindow, hstop⟩ := hfirst.exists_searchWindow hspanDays (by decide) hend
  refine ⟨((first.ticksUntil stop (tickStep (p.searchesSeconds matchSeconds))).find?
    (p.admits (p.searchesSeconds matchSeconds))).map .naive, ?_, ?_, fun honly => ⟨?_, ?_⟩⟩
  · rw [outcome_next hs, p.next_naive hzone hwindow hcap rfl host.zones]
    simp
  · rintro ⟨w, hw, hnot⟩
    obtain ⟨y, hyfirst, hylast, hwhole⟩ := hwindow.exists_whole_year hstop
    obtain ⟨v, hyear, hv⟩ := Pattern.exists_date_of_year hcompile hyears hw hyfirst hylast
      (fun hleap => absurd hleap hnot) false
    obtain ⟨hbehind, hbefore⟩ := hwhole v hyear
    rw [Ne, Option.map_eq_none_iff]
    exact hwindow.find?_ne_none_of_date hstop hcompile hv hbehind hbefore
  · rw [Option.map_eq_none_iff, hwindow.find?_eq_none_iff, ← hstop]
    simp only [p.matchesWall_eq, accepts_iff]
    constructor
    · intro hnone t hge hlt _ hadmits
      have hrefused := hnone t hge hlt
      rw [hadmits] at hrefused
      cases hrefused
    · intro hnone t hge hlt
      -- a match is on a date that is accepted, and no other date than 29 February is
      refine congrArg Except.ok (Bool.eq_false_iff.mpr fun hadmits => ?_)
      have hdate := Pattern.acceptsDate_of_accepts (t.daysInMonth?_reading _)
        (Pattern.admits_eq_true_iff.mp hadmits)
      rw [p.acceptsDate_congr (WallTime.sameDate_reading rfl _ false)] at hdate
      exact hnone t hge hlt (honly t hdate) hadmits
  · rintro ⟨w, hw⟩ hnone
    rw [Option.map_eq_none_iff] at hnone
    rw [← hstop]
    exact hwindow.exists_century_of_none hstop hcompile hyears hw honly hnone

end Call

/-! ### The century of 2100 -/

namespace Pattern

variable {w : WallTime} {b : Bool}

/-- Noon of 29 February is accepted on no other date. -/
theorem isLeapDay_of_leapDayNoon (h : leapDayNoon.acceptsDate (w.reading b) = some true) :
    w.date.IsLeapDay := by
  obtain ⟨a, ha, haccepts⟩ := (acceptsDate_eq_true_iff (w.daysInMonth?_reading b)).mp h
  obtain rfl := List.mem_singleton.mp ha
  simp only [Alternative.acceptsDate_eq_true_iff, Alternative.acceptsDay, Matcher.isAny,
    Matcher.accepts_values, Option.some.injEq, ValueSet.contains_eq_true_iff, ValueSet.mem_ofList,
    List.mem_singleton] at haccepts
  exact ⟨haccepts.1, haccepts.2.2⟩

/-- And at no other time. -/
theorem time_of_leapDayNoon (h : leapDayNoon.admits b w = true) : w.hour = 12 ∧ w.minute = 0 := by
  obtain ⟨a, ha, haccepts⟩ := (accepts_eq_true_iff (w.daysInMonth?_reading b)).mp
    (admits_eq_true_iff.mp h)
  obtain rfl := List.mem_singleton.mp ha
  simp only [Alternative.accepts_eq_true_iff, Matcher.accepts_values, Option.some.injEq,
    ValueSet.contains_eq_true_iff, ValueSet.mem_ofList, List.mem_singleton] at haccepts
  exact ⟨haccepts.2.2.1, haccepts.2.1⟩

end Pattern

/-- From the day of 29 February 2096 on there is no other for four years and three days. -/
theorem WallTime.day_of_isLeapDay {t : WallTime} (h : t.date.IsLeapDay) (hge : 765242 ≤ t.day)
    (hle : t.day ≤ 765242 + 1464) : t.day = 765242 := by
  have hexists : t.date.Exists := Date.exists_ofDayNumber t.day
  have hnumber : t.date.dayNumber = t.day := Date.dayNumber_ofDayNumber t.day
  have hlength := hexists.le_length _ (monthLength?_eq hexists.month.1 hexists.month.2)
  rw [Date.dayNumber] at hnumber
  rw [h.1, h.2] at hnumber hlength
  generalize t.date.year = y at hnumber hlength
  cases hleap : isLeap y with
  | false =>
    rw [hleap] at hlength
    exact absurd hlength (by decide)
  | true =>
    rw [hleap, show daysBeforeMonth true 2 = 31 from rfl] at hnumber
    have hfirst : 2096 ≤ y := by
      refine Int.not_lt.mp fun hlt => ?_
      have := daysBeforeYear_mono (show y ≤ 2095 by omega)
      rw [show daysBeforeYear 2095 = 764818 from rfl] at this
      omega
    have hlast : y ≤ 2100 := by
      refine Int.not_lt.mp fun hlt => ?_
      have := daysBeforeYear_mono (show 2101 ≤ y by omega)
      rw [show daysBeforeYear 2101 = 767009 from rfl] at this
      omega
    have hfour : y % 4 = 0 ∧ (y % 100 ≠ 0 ∨ y % 400 = 0) := by simpa [isLeap] using hleap
    obtain rfl : y = 2096 := by omega
    rw [← hnumber]
    rfl

/-- At noon of 29 February 2096 the next noon of such a day is beyond the horizon, since year
2100 has none. -/
theorem Call.next_covers_leapDayNoon :
    outcome (next .leapDayNoon (.naive ⟨66116952000000000, by decide, by decide⟩) none) {}
        { settings := some {} } = (.ok none, { settings := some {} }) := by
  let after : DateTime := .naive ⟨66116952000000000, by decide, by decide⟩
  let first : WallTime := ⟨66116952060000000, by decide, by decide⟩
  have hs : Session.settings { settings := some {} } = some {} := rfl
  have hcompile : Pattern.compile "0 12 29 2 *" = .ok .leapDayNoon := rfl
  have hyears : ∀ a ∈ Pattern.leapDayNoon.alternatives, a.year.isAny = true := by decide
  have hfirst : WallTime.FirstBehind (Pattern.searchesSeconds .leapDayNoon none) after.wall first :=
    WallTime.firstBehind_iff.mpr (by decide)
  obtain ⟨found, houtcome, -, hleap⟩ :=
    next_covers hcompile hyears hs rfl rfl rfl hfirst (by decide) {}
  rw [houtcome, (hleap fun _ hw => Pattern.isLeapDay_of_leapDayNoon hw).1.mpr ?_]
  intro t hge hlt hday haccepts
  obtain ⟨hhour, hminute⟩ := Pattern.time_of_leapDayNoon (accepts_iff.mp haccepts)
  have hsame : t.day = 765242 := by
    refine WallTime.day_of_isLeapDay hday ?_ ?_
    · simp only [first, WallTime.day, microsPerDay, microsPerSecond] at *
      omega
    · simp only [first, WallTime.day, microsPerDay, microsPerSecond] at *
      omega
  simp only [first, WallTime.day, WallTime.hour, WallTime.minute, WallTime.microOfDay, microsPerDay,
    microsPerMinute, microsPerSecond] at *
  omega

end CronSchedule
