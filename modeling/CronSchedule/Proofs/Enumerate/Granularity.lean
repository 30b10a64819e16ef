import CronSchedule.Proofs.Enumerate.Complete
import CronSchedule.Proofs.Enumerate.NextNaive
import CronSchedule.Proofs.Grammar.Slots
import Mathlib.Data.List.Dedup

/-!
# Minutes and seconds

Without seconds a pattern is asked for minutes, with seconds for single seconds.  A minute is
accepted exactly when one of its seconds is: of what a clock shows only the second changes in
the course of a minute, and every alternative of a compiled pattern accepts some second.  This
last fact is load-bearing, and it is one about compiled patterns: an alternative put together
by hand may accept no second at all.

Over whole minutes the two lists of matches therefore differ by the seconds alone.

* `WallTime.reading_eq_of_truncateMinute` — a minute is one reading without its second;
* `Alternative.accepts_second_iff` — what an alternative accepts with the second;
* `Pattern.admits_minute_iff` — a minute is accepted exactly when one of its seconds is;
* `Pattern.naiveMatches_minutes` — the minutes among the matches of a window;
* `Pattern.matchedDates_minutes` — enumeration with and without seconds.
-/

namespace CronSchedule

/-! ### The seconds of a minute -/

namespace WallTime

variable {v w : WallTime}

theorem micros_truncateMinute (w : WallTime) :
    w.truncateMinute.micros = w.micros - w.micros % microsPerMinute := rfl

/-- A minute is one reading without its second. -/
theorem reading_eq_of_truncateMinute (h : v.truncateMinute = w.truncateMinute) :
    v.reading false = w.reading false := by
  have hmicros := congrArg micros h
  rw [micros_truncateMinute, micros_truncateMinute] at hmicros
  refine reading_eq_of_ediv_eq ?_
  simp only [tickStep, Bool.false_eq_true, if_false, microsPerMinute, microsPerSecond] at hmicros ⊢
  omega

/-- A minute has a reading for each of its seconds. -/
theorem exists_second_eq (w : WallTime) {n : Int} (hnonneg : 0 ≤ n) (hle : n ≤ 59) :
    ∃ v : WallTime, v.truncateMinute = w.truncateMinute ∧ v.micros % microsPerSecond = 0 ∧
      v.second = n := by
  have hstart := w.truncateMinute.nonneg
  have hend := w.lt_end
  have hroom : calendarEnd % microsPerMinute = 0 := by decide
  rw [micros_truncateMinute] at hstart
  simp only [microsPerMinute, microsPerSecond] at hstart hroom
  let v : WallTime := ⟨w.micros - w.micros % microsPerMinute + n * microsPerSecond,
    by simp only [microsPerMinute, microsPerSecond]; omega,
    by simp only [microsPerMinute, microsPerSecond]; omega⟩
  refine ⟨v, WallTime.ext ?_, ?_, ?_⟩
  · simp only [micros_truncateMinute, v, microsPerMinute, microsPerSecond]
    omega
  · simp only [v, microsPerMinute, microsPerSecond]
    omega
  · simp only [second, microOfDay, v, microsPerDay, microsPerMinute, microsPerSecond]
    omega

end WallTime

/-- The minutes of ascending readings ascend once repeats are removed. -/
theorem WallTime.dedup_truncateMinute_ascending {us : List WallTime}
    (h : us.Pairwise fun t u => t.micros < u.micros) :
    (us.map truncateMinute).dedup.Pairwise fun t u => t.micros < u.micros := by
  have hle : (us.map truncateMinute).Pairwise fun t u => t.micros ≤ u.micros := by
    refine List.pairwise_map.mpr (h.imp fun {t u} hlt => ?_)
    simp only [micros_truncateMinute, microsPerMinute, microsPerSecond]
    omega
  refine ((hle.sublist (List.dedup_sublist _)).and (List.nodup_dedup _)).imp ?_
  rintro t u ⟨hle, hne⟩
  exact Int.lt_iff_le_and_ne.mpr ⟨hle, fun h => hne (WallTime.ext h)⟩

/-- The date and time with the part below the minute cleared. -/
def DateTime.truncateMinute (d : DateTime) : DateTime := { d with wall := d.wall.truncateMinute }

theorem DateTime.naive_injective : Function.Injective naive :=
  fun _ _ h => congrArg DateTime.wall h

/-- With the second an alternative accepts what it accepts without it, as far as its second
does. -/
theorem Alternative.accepts_second_iff (a : Alternative) (w : WallTime) :
    a.accepts (w.reading true) = some true ↔
      a.second.accepts (w.reading true) w.second = some true ∧
        a.accepts (w.reading false) = some true := by
  have hsame : (w.reading true).SameDate (w.reading false) := WallTime.sameDate_reading rfl _ _
  rw [accepts_eq_true_iff, accepts_eq_true_iff, a.acceptsDate_congr hsame,
    Matcher.accepts_congr hsame, Matcher.accepts_congr hsame]
  constructor
  · rintro ⟨hsecond, hminute, hhour, hdate⟩
    exact ⟨hsecond, rfl, hminute, hhour, hdate⟩
  · rintro ⟨hsecond, -, hminute, hhour, hdate⟩
    exact ⟨hsecond, hminute, hhour, hdate⟩

namespace Pattern

variable {expression : String} {p : Pattern}

/-- A minute is accepted exactly when one of its seconds is. -/
theorem admits_minute_iff (hcompile : compile expression = .ok p) (w : WallTime) :
    p.admits false w = true ↔ ∃ v : WallTime, v.truncateMinute = w.truncateMinute ∧
      v.micros % microsPerSecond = 0 ∧ p.admits true v = true := by
  simp only [admits_eq_true_iff]
  constructor
  · intro haccepts
    obtain ⟨a, ha, haccepts⟩ := (accepts_eq_true_iff (w.daysInMonth?_reading false)).mp haccepts
    obtain ⟨n, hnonneg, hle, hsecond⟩ := exists_second_of_compile hcompile ha
    obtain ⟨v, hminute, hwhole, rfl⟩ := w.exists_second_eq hnonneg hle
    rw [← WallTime.reading_eq_of_truncateMinute hminute] at haccepts
    exact ⟨v, hminute, hwhole, (accepts_eq_true_iff (v.daysInMonth?_reading true)).mpr
      ⟨a, ha, (a.accepts_second_iff v).mpr ⟨hsecond v true rfl, haccepts⟩⟩⟩
  · rintro ⟨v, hminute, -, haccepts⟩
    obtain ⟨a, ha, haccepts⟩ := (accepts_eq_true_iff (v.daysInMonth?_reading true)).mp haccepts
    have hrest := ((a.accepts_second_iff v).mp haccepts).2
    rw [WallTime.reading_eq_of_truncateMinute hminute] at hrest
    exact (accepts_eq_true_iff (w.daysInMonth?_reading false)).mpr ⟨a, ha, hrest⟩

/-! ### Windows of whole minutes -/

variable {start stop : WallTime}

/-- Over whole minutes the minutes accepted are those of the seconds accepted. -/
theorem mem_minutes_iff (hcompile : compile expression = .ok p)
    (hstart : start.micros % microsPerMinute = 0) (hstop : stop.micros % microsPerMinute = 0)
    (t : WallTime) :
    t ∈ (start.ticksUntil stop microsPerMinute).filter (p.admits false) ↔
      ∃ u ∈ (start.ticksUntil stop microsPerSecond).filter (p.admits true),
        u.truncateMinute = t := by
  have hminute : 0 < microsPerMinute := by decide
  have hsecond : 0 < microsPerSecond := by decide
  simp only [List.mem_filter, WallTime.mem_ticksUntil hminute, WallTime.mem_ticksUntil hsecond]
  constructor
  · rintro ⟨⟨hlt, k, hk⟩, hadmits⟩
    obtain ⟨u, htruncate, hwhole, hadmits⟩ := (admits_minute_iff hcompile t).mp hadmits
    have hu := congrArg WallTime.micros htruncate
    rw [WallTime.micros_truncateMinute, WallTime.micros_truncateMinute] at hu
    simp only [microsPerMinute, microsPerSecond] at hk hstart hstop hwhole hu
    -- the minute of `u` ends by the stop
    have hsteps := WallTime.exists_steps_of_whole hsecond (t := start) (u := u)
      (by simp only [microsPerSecond]; omega) (by simp only [microsPerSecond]; omega) (by omega)
    exact ⟨u, ⟨⟨by omega, hsteps⟩, hadmits⟩, WallTime.ext (by
      rw [WallTime.micros_truncateMinute]
      simp only [microsPerMinute, microsPerSecond]
      omega)⟩
  · rintro ⟨u, ⟨⟨hlt, k, hk⟩, hadmits⟩, rfl⟩
    have hu := u.micros_truncateMinute
    simp only [microsPerMinute, microsPerSecond] at hk hstart hstop hu
    have hsteps := WallTime.exists_steps_of_whole hminute (t := start) (u := u.truncateMinute)
      hstart (by simp only [microsPerMinute, microsPerSecond]; omega) (by omega)
    refine ⟨⟨by omega, hsteps⟩,
      (admits_minute_iff hcompile _).mpr ⟨u, WallTime.ext ?_, ?_, hadmits⟩⟩
    · simp only [WallTime.micros_truncateMinute, microsPerMinute, microsPerSecond]
      omega
    · simp only [microsPerSecond]
      omega

/-- Over whole minutes the minutes accepted are those of the seconds accepted, without
repeats. -/
theorem naiveMatches_minutes (hcompile : compile expression = .ok p)
    (hstart : start.micros % microsPerMinute = 0) (hstop : stop.micros % microsPerMinute = 0) :
    p.naiveMatches start stop false =
      ((p.naiveMatches start stop true).map .truncateMinute).dedup := by
  have hminutes : (start.ticksUntil stop microsPerMinute).filter (p.admits false) =
      (((start.ticksUntil stop microsPerSecond).filter (p.admits true)).map
        WallTime.truncateMinute).dedup := by
    have hascending {step : Int} (hstep : 0 < step) (withSeconds : Bool) :
        ((start.ticksUntil stop step).filter (p.admits withSeconds)).Pairwise
          fun t u => t.micros < u.micros := (WallTime.ticksUntil_ascending hstep).filter _
    refine eq_of_mem_iff_of_growing (hascending (by decide) false)
      (WallTime.dedup_truncateMinute_ascending (hascending (by decide) true)) fun t => ?_
    rw [List.mem_dedup, List.mem_map, mem_minutes_iff hcompile hstart hstop]
  have hnaive : DateTime.truncateMinute ∘ DateTime.naive =
      DateTime.naive ∘ WallTime.truncateMinute := rfl
  rw [naiveMatches, naiveMatches, List.map_map, hnaive, ← List.map_map,
    List.dedup_map_of_injective DateTime.naive_injective]
  exact congrArg (List.map DateTime.naive) hminutes

/-- Over whole minutes, enumeration without seconds lists the minutes of what enumeration with
seconds lists, without repeats, and a date and time matches without seconds exactly when some
second of its minute matches with seconds. -/
theorem matchedDates_minutes (hcompile : compile expression = .ok p) (zones : ZoneTable)
    {settings : Settings} (hcap : settings.tickLimit = none) {start stop : DateTime}
    (hstart : start.zone = none) (hstop : stop.zone = none)
    (hfirst : start.wall.micros % microsPerMinute = 0)
    (hlast : stop.wall.micros % microsPerMinute = 0)
    (hlt : start.wall.micros < stop.wall.micros) (hend : stop.wall.micros ≤ lastMidnight)
    (timezone : Option ZoneRef) :
    ∃ (minutes seconds : List DateTime) (matching : Bool → DateTime → Bool),
      p.Lists zones settings start stop false timezone minutes ∧
      p.Lists zones settings start stop true timezone seconds ∧
      minutes = (seconds.map .truncateMinute).dedup ∧
      (∀ withSeconds d host session,
        Call.outcome (Call.accepts p (.dateTime d) none (some withSeconds)) host session =
          (.ok (matching withSeconds d), session)) ∧
      ∀ d, matching false d = true ↔ ∃ e : DateTime, e.truncateMinute = d.truncateMinute ∧
        e.wall.micros % microsPerSecond = 0 ∧ matching true e = true := by
  refine ⟨_, _, fun withSeconds d => p.admits withSeconds d.wall,
    p.lists_of_naive zones hcap hstart hstop hlt hend false timezone,
    p.lists_of_naive zones hcap hstart hstop hlt hend true timezone,
    naiveMatches_minutes hcompile hfirst hlast, Call.outcome_accepts_dateTime p, fun d => ?_⟩
  rw [admits_minute_iff hcompile]
  constructor
  · rintro ⟨v, hminute, hwhole, hadmits⟩
    exact ⟨{ d with wall := v }, congrArg (fun w => { d with wall := w }) hminute, hwhole, hadmits⟩
  · rintro ⟨e, hminute, hwhole, hadmits⟩
    exact ⟨e.wall, congrArg DateTime.wall hminute, hwhole, hadmits⟩

/-- Two seconds of half past noon, and the full minute at noon. -/
def aroundNoon : Pattern where
  expression := "15,45 30 12 * * * | 0 12 * * *"
  alternatives := [{
    layout := .withSeconds
    second := .values (.ofList [15, 45])
    minute := .values (.ofList [30])
    hour := .values (.ofList [12]) }, {
    layout := .standard
    minute := .values (.ofList [0])
    hour := .values (.ofList [12]) }]

/-- From noon to one on 29 February 2024. -/
theorem matchedDates_minutes_aroundNoon :
    ∃ (minutes seconds : List DateTime) (matching : Bool → DateTime → Bool),
      aroundNoon.Lists [] {} (.naive ⟨63844804800000000, by decide, by decide⟩)
        (.naive ⟨63844808400000000, by decide, by decide⟩) false none minutes ∧
      aroundNoon.Lists [] {} (.naive ⟨63844804800000000, by decide, by decide⟩)
        (.naive ⟨63844808400000000, by decide, by decide⟩) true none seconds ∧
      minutes = (seconds.map .truncateMinute).dedup ∧
      (∀ withSeconds d host session,
        Call.outcome (Call.accepts aroundNoon (.dateTime d) none (some withSeconds)) host session =
          (.ok (matching withSeconds d), session)) ∧
      ∀ d, matching false d = true ↔ ∃ e : DateTime, e.truncateMinute = d.truncateMinute ∧
        e.wall.micros % microsPerSecond = 0 ∧ matching true e = true :=
  matchedDates_minutes
    (show compile "15,45 30 12 * * * | 0 12 * * *" = .ok aroundNoon from rfl) [] rfl rfl rfl
    (by decide) (by decide) (by decide) (by decide) none

end Pattern

end CronSchedule
