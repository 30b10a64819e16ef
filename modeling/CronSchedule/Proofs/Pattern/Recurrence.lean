import CronSchedule.Proofs.Calendar.Dates
import CronSchedule.Proofs.Grammar.Slots

/-!
# Dates that come back every year

A compiled alternative whose year is not restricted accepts its dates by a rule that does not
look at the year.  Three facts carry that, one for each way a day can be accepted:

* a day of the month comes back on the same day of the same month, where there is one;
* the last day of a month comes back as the last day of the same month;
* a weekday, the last of its month or not, comes back at the latest as the last day of the
  month that falls on it.

Each of the three is met in every year, but for 29 February, which is met in leap years.  So
a date that is accepted at all is accepted, or has one that stands in for it, in every year
that has such a date.

* `Denotes.recurs_dayOfMonth`, `Denotes.recurs_dayOfWeek` — the rules for a single item;
* `Segment.Recurs` — the three rules, `Segment.recurs_of_acceptsDay` — one of them holds;
* `Pattern.exists_date_of_year` — a pattern without a restricted year accepts a date of the year;
* `Pattern.exists_admits_of_date` — on a date that is accepted some time is a match.
-/

namespace CronSchedule

open Text

/-- The date is 29 February. -/
def Date.IsLeapDay (d : Date) : Prop := d.month = 2 ∧ d.day = 29

instance (d : Date) : Decidable d.IsLeapDay := inferInstanceAs (Decidable (_ ∧ _))

/-! ### Items -/

namespace Denotes

variable {w : WallTime} {text : List Char} {n : Int}

/-- A day of the month is denoted on every date, or as the last day of the month. -/
theorem recurs_dayOfMonth (h : Denotes .dayOfMonth w text n) :
    (∀ v, Denotes .dayOfMonth v text n) ∨
      ∀ v length, v.monthLength? = some length → Denotes .dayOfMonth v text length := by
  cases h with
  | span hspans hge hle => exact .inl fun v => .span hspans hge hle
  | step hspans hsteps hpos hge hle hdvd =>
    exact .inl fun v => .step hspans hsteps hpos hge hle hdvd
  | lastDay hf hupper _ => exact .inr fun v length hlength => .lastDay hf hupper hlength
  | saturday hf => cases hf
  | lastWeekday hf => cases hf

/-- A weekday is denoted on the last day of any month that falls on it. -/
theorem recurs_dayOfWeek (h : Denotes .dayOfWeek w text n) (v : WallTime) {length : Int}
    (hlength : v.monthLength? = some length) (hlast : length < v.date.day + 7) :
    Denotes .dayOfWeek v text n := by
  cases h with
  | span hspans hge hle => exact .span hspans hge hle
  | step hspans hsteps hpos hge hle hdvd => exact .step hspans hsteps hpos hge hle hdvd
  | lastDay hf => cases hf
  | saturday hf hupper => exact .saturday hf hupper
  | lastWeekday hf hupper hwrites _ _ => exact .lastWeekday hf hupper hwrites hlength hlast

/-- What a field without `L` denotes it denotes on every date. -/
theorem on_every_date {f : Field} (hlast : f.domain.hasLast = false) (h : Denotes f w text n)
    (v : WallTime) : Denotes f v text n := by
  cases h with
  | span hspans hge hle => exact .span hspans hge hle
  | step hspans hsteps hpos hge hle hdvd => exact .step hspans hsteps hpos hge hle hdvd
  | lastDay hf => rw [hf] at hlast; cases hlast
  | saturday hf => rw [hf] at hlast; cases hlast
  | lastWeekday hf => rw [hf] at hlast; cases hlast

end Denotes

/-- A field without `L` accepts a value on every date. -/
theorem FieldAccepts.on_every_date {f : Field} (hlast : f.domain.hasLast = false)
    {w v : WallTime} {text : List Char} (h : FieldAccepts f w text)
    (hvalue : f.valueAt v = f.valueAt w) : FieldAccepts f v text := by
  rcases h with hfree | ⟨item, hitem, hdenotes⟩
  · exact .inl hfree
  · exact .inr ⟨item, hitem, hvalue ▸ hdenotes.on_every_date hlast v⟩

/-! ### Segments -/

namespace Segment

variable {s : Segment} {w : WallTime}

/-- A day is accepted where neither day field is restricted, or by one that is. -/
theorem acceptsDay_iff_cases : s.AcceptsDay w ↔
    (Unrestricted s.dayOfMonth ∧ Unrestricted s.dayOfWeek) ∨
    (¬ Unrestricted s.dayOfMonth ∧ FieldAccepts .dayOfMonth w s.dayOfMonth) ∨
    (¬ Unrestricted s.dayOfWeek ∧ FieldAccepts .dayOfWeek w s.dayOfWeek) := by
  constructor
  · intro h
    by_cases hm : Unrestricted s.dayOfMonth
    · by_cases hd : Unrestricted s.dayOfWeek
      · exact .inl ⟨hm, hd⟩
      · exact .inr (.inr ⟨hd, h.dayOfWeek hm hd⟩)
    · by_cases hd : Unrestricted s.dayOfWeek
      · exact .inr (.inl ⟨hm, h.dayOfMonth hm hd⟩)
      · exact .inr ((h.either hm hd).imp (⟨hm, ·⟩) (⟨hd, ·⟩))
  · rintro (⟨hm, hd⟩ | ⟨hm, haccepts⟩ | ⟨hd, haccepts⟩)
    · exact ⟨fun hnot _ => absurd hm hnot, fun _ hnot => absurd hd hnot,
        fun hnot _ => absurd hm hnot⟩
    · exact ⟨fun _ _ => haccepts, fun hfree _ => absurd hfree hm, fun _ _ => .inl haccepts⟩
    · exact ⟨fun _ hfree => absurd hfree hd, fun _ _ => haccepts, fun _ _ => .inr haccepts⟩

/-- A rule by which days like the one that the clock shows are accepted again. -/
inductive Recurs (s : Segment) (w : WallTime) : Prop
  /-- on the same day of a month -/
  | sameDay : (∀ v : WallTime, v.date.day = w.date.day → s.AcceptsDay v) → Recurs s w
  /-- on the last day of a month -/
  | lastDay : (∀ v : WallTime, v.monthLength? = some v.date.day → s.AcceptsDay v) → Recurs s w
  /-- on the last day of a month that falls on the same weekday -/
  | lastWeekday : (∀ (v : WallTime) (length : Int), weekdayOf v.day = weekdayOf w.day →
      v.monthLength? = some length → length < v.date.day + 7 → s.AcceptsDay v) → Recurs s w

/-- A day that is accepted is accepted by a rule. -/
theorem recurs_of_acceptsDay (h : s.AcceptsDay w) : s.Recurs w := by
  rcases acceptsDay_iff_cases.mp h with hfree | ⟨hm, haccepts⟩ | ⟨hd, haccepts⟩
  · exact .sameDay fun _ _ => acceptsDay_iff_cases.mpr (.inl hfree)
  · have hday {v : WallTime} {item : List Char} (hitem : item ∈ pieces ',' (strip s.dayOfMonth))
        (hdenotes : Denotes .dayOfMonth v (strip item) v.date.day) : s.AcceptsDay v :=
      acceptsDay_iff_cases.mpr (.inr (.inl ⟨hm, .inr ⟨item, hitem, hdenotes⟩⟩))
    obtain ⟨item, hitem, hdenotes⟩ := haccepts.resolve_left hm
    rcases hdenotes.recurs_dayOfMonth with hsame | hlast
    · exact .sameDay fun v hv => hday hitem (hv ▸ hsame v)
    · exact .lastDay fun v hv => hday hitem (hlast v _ hv)
  · obtain ⟨item, hitem, hdenotes⟩ := haccepts.resolve_left hd
    refine .lastWeekday fun v length hweekday hlength hlast => ?_
    have hagain : Denotes .dayOfWeek v (strip item) (weekdayOf v.day) :=
      hweekday ▸ hdenotes.recurs_dayOfWeek v hlength hlast
    exact acceptsDay_iff_cases.mpr (.inr (.inr ⟨hd, .inr ⟨item, hitem, hagain⟩⟩))

end Segment

/-! ### Years -/

/-- A date of one year is one of another, but for 29 February. -/
theorem Date.Exists.in_year {d : Date} (h : d.Exists) {y : Int}
    (hleap : d.IsLeapDay → isLeap y = true) : (⟨y, d.month, d.day⟩ : Date).Exists := by
  refine ⟨h.month, h.day, fun length hlength => ?_⟩
  by_cases hfebruary : d.month = 2
  · have htwenty : d.day ≤ 29 := by
      have := h.le_length (if isLeap d.year then 29 else 28) (by rw [hfebruary]; rfl)
      split at this <;> omega
    rw [show (⟨y, d.month, d.day⟩ : Date).month = 2 from hfebruary] at hlength
    obtain rfl : (if isLeap y then 29 else 28) = length := Option.some.inj hlength
    rcases Int.lt_or_eq_of_le htwenty with hless | hlast
    · show d.day ≤ _
      split <;> omega
    · rw [hleap ⟨hfebruary, hlast⟩]
      exact htwenty
  · rw [monthLength?_congr (z := d.year) (fun hm => absurd hm hfebruary)] at hlength
    exact h.le_length length hlength

/-- In every year that has such a date there is one that is accepted by the rule. -/
theorem Segment.Recurs.exists_date {s : Segment} {w : WallTime} (h : s.Recurs w) {y : Int}
    (hfirst : 1 ≤ y) (hlast : y ≤ 9999) (hleap : w.date.IsLeapDay → isLeap y = true) :
    ∃ v : WallTime, v.date.year = y ∧ v.date.month = w.date.month ∧ s.AcceptsDay v := by
  have hdate : w.date.Exists := Date.exists_ofDayNumber w.day
  have hlength := monthLength?_eq (y := y) hdate.month.1 hdate.month.2
  generalize daysBeforeMonth (isLeap y) (w.date.month + 1) -
    daysBeforeMonth (isLeap y) w.date.month = length at hlength
  have hbounds := monthLength?_bounds hlength
  have hexists {k : Int} (hk : 1 ≤ k) (hle : k ≤ length) :
      (⟨y, w.date.month, k⟩ : Date).Exists := by
    refine ⟨hdate.month, hk, fun other hother => ?_⟩
    rw [hlength] at hother
    exact Option.some.inj hother ▸ hle
  cases h with
  | sameDay hrule =>
    obtain ⟨v, hv, -⟩ := WallTime.exists_date (hdate.in_year hleap) hfirst hlast
    exact ⟨v, by rw [hv], by rw [hv], hrule v (by rw [hv])⟩
  | lastDay hrule =>
    obtain ⟨v, hv, -⟩ := WallTime.exists_date (hexists (by omega) (Int.le_refl length)) hfirst hlast
    refine ⟨v, by rw [hv], by rw [hv], hrule v ?_⟩
    rw [WallTime.monthLength?, hv, hlength]
  | lastWeekday hrule =>
    -- so many days before the end of the month the weekday comes last
    obtain ⟨back, hback⟩ : ∃ back, back =
        (weekdayOf (⟨y, w.date.month, length⟩ : Date).dayNumber - weekdayOf w.day) % 7 := ⟨_, rfl⟩
    obtain ⟨v, hv, hday⟩ := WallTime.exists_date
      (hexists (show 1 ≤ length - back by omega) (by omega)) hfirst hlast
    have hnumber : v.day = (⟨y, w.date.month, length⟩ : Date).dayNumber - back := by
      simp only [hday, Date.dayNumber]
      omega
    have hweekday : weekdayOf v.day = weekdayOf w.day := by
      rw [hnumber]
      simp only [weekdayOf] at hback ⊢
      omega
    refine ⟨v, by rw [hv], by rw [hv], hrule v length hweekday ?_ ?_⟩
    · rw [WallTime.monthLength?, hv, hlength]
    · rw [hv]
      show length < length - back + 7
      omega

/-! ### Patterns -/

/-- A matcher that tests nothing accepts everything. -/
theorem Matcher.accepts_of_isAny {m : Matcher} (h : m.isAny = true) (r : Reading) (v : Int) :
    m.accepts r v = some true := by
  cases m with
  | any => exact accepts_any r v
  | values | lastDay | lastWeekday | anyOf => cases h

namespace Pattern

variable {expression : String} {p : Pattern} {w : WallTime} {b : Bool}

/-- A pattern without a restricted year that accepts a date accepts one in every year that has
such a date. -/
theorem exists_date_of_year (h : compile expression = .ok p)
    (hyears : ∀ a ∈ p.alternatives, a.year.isAny = true)
    (hw : p.acceptsDate (w.reading b) = some true) {y : Int} (hfirst : 1 ≤ y) (hlast : y ≤ 9999)
    (hleap : w.date.IsLeapDay → isLeap y = true) (c : Bool) :
    ∃ v : WallTime, v.date.year = y ∧ p.acceptsDate (v.reading c) = some true := by
  obtain ⟨a, ha, haccepts⟩ := (acceptsDate_eq_true_iff (w.daysInMonth?_reading b)).mp hw
  obtain ⟨s, hs⟩ := exists_segment_of_compile h ha
  obtain ⟨hmonth, -, hday⟩ := Alternative.acceptsDate_eq_true_iff.mp haccepts
  have hmonthText : FieldAccepts .month w s.month :=
    (hs.slot_accepts_iff (f := .month) rfl).mp hmonth
  obtain ⟨v, hyear, hsame, hv⟩ :=
    (Segment.recurs_of_acceptsDay (hs.acceptsDay_iff.mp hday)).exists_date hfirst hlast hleap
  refine ⟨v, hyear, (acceptsDate_eq_true_iff (v.daysInMonth?_reading c)).mpr ⟨a, ha,
    Alternative.acceptsDate_eq_true_iff.mpr ⟨?_, ?_, hs.acceptsDay_iff.mpr hv⟩⟩⟩
  · exact (hs.slot_accepts_iff (f := .month) rfl).mpr (hmonthText.on_every_date rfl hsame)
  · exact Matcher.accepts_of_isAny (hyears a ha) _ _

/-- On a date that is accepted some time is a match. -/
theorem exists_admits_of_date (h : compile expression = .ok p)
    (hw : p.acceptsDate (w.reading b) = some true) (withSeconds : Bool) :
    ∃ t : WallTime, t.day = w.day ∧ p.admits withSeconds t = true := by
  obtain ⟨a, ha, haccepts⟩ := (acceptsDate_eq_true_iff (w.daysInMonth?_reading b)).mp hw
  obtain ⟨second, hsecond, hsecondLast, hatSecond⟩ :=
    exists_value_of_compile (f := .second) h ha rfl
  obtain ⟨minute, hminute, hminuteLast, hatMinute⟩ :=
    exists_value_of_compile (f := .minute) h ha rfl
  obtain ⟨hour, hhour, hhourLast, hatHour⟩ := exists_value_of_compile (f := .hour) h ha rfl
  obtain ⟨t, hday, ht⟩ := WallTime.exists_at w.day_nonneg w.day_lt ⟨hhour, hhourLast⟩
    ⟨hminute, hminuteLast⟩ ⟨hsecond, hsecondLast⟩
  obtain ⟨rfl, rfl, rfl⟩ := ht
  refine ⟨t, hday, admits_eq_true_iff.mpr ((accepts_eq_true_iff
    (t.daysInMonth?_reading withSeconds)).mpr ⟨a, ha, Alternative.accepts_eq_true_iff.mpr
      ⟨?_, hatMinute t withSeconds rfl, hatHour t withSeconds rfl, ?_⟩⟩)⟩
  · cases withSeconds with
    | false => rfl
    | true => exact hatSecond t true rfl
  · rw [← haccepts]
    exact a.acceptsDate_congr (WallTime.sameDate_reading hday withSeconds b)

end Pattern

end CronSchedule
