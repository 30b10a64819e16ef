import CronSchedule.Proofs.Zone.Dates
import CronSchedule.Zone.DateTime

/-!
# What the clock of a time zone shows

A time zone is read through its rules here, a fixed offset being a zone without changes.
Offsets are less than a day, so that in the years 2 to 9998 no conversion leaves the
calendar.

* `TimeZone.rules`, `ZoneRules.WithinDay` — the rules, and the bound on offsets;
* `ZoneRules.exists_first_instant`, `ZoneRules.firstReading_le` — where a date begins, and how
  far ahead the midnight is that ends it;
* `innerStart`, `innerEnd`, `WallTime.Inner` — the years 2 to 9998, and the instants near them;
* `DateTime.exists_ofUtc?`, `DateTime.ofUtc?_eq_some` — what the clock shows at an instant;
* `DateTime.exists_midnight`, `DateTime.toUtc?_midnight` — the instant found for a midnight.
-/

namespace CronSchedule

/-! ### Rules -/

/-- The rules of a zone. -/
def TimeZone.rules : TimeZone → ZoneRules
  | fixed offset => ⟨offset, []⟩
  | named _ rules => rules

theorem TimeZone.rules_named (name : String) (rules : ZoneRules) :
    (named name rules).rules = rules := rfl

/-- The offsets are less than a day. -/
abbrev ZoneRules.WithinDay (z : ZoneRules) : Prop :=
  z.AllOffsets fun offset => -secondsPerDay < offset ∧ offset < secondsPerDay

namespace TimeZone

/-- The seconds of a later reading are no earlier. -/
theorem unixSeconds_le {t u : WallTime} (h : t.micros ≤ u.micros) :
    unixSeconds t ≤ unixSeconds u := by
  simp only [unixSeconds, microsPerSecond]
  omega

theorem offsetAt_eq (z : TimeZone) (t : WallTime) :
    z.offsetAt t = z.rules.offsetAt (unixSeconds t) := by
  cases z <;> rfl

theorem offsetOfWall_eq (z : TimeZone) (w : WallTime) (late : Bool) :
    z.offsetOfWall w late = z.rules.offsetOfWall (unixSeconds w) late := by
  cases z <;> rfl

end TimeZone

namespace ZoneRules

variable {z : ZoneRules}

/-- Where dates only advance, a date shown at some instant began at an instant of the five
days before. -/
theorem exists_first_instant (hmono : ∀ x y : Int, x ≤ y → z.dayAt x ≤ z.dayAt y)
    (hwithinDay : z.WithinDay) (y : Int) :
    ∃ x, y - 5 * secondsPerDay < x ∧ x ≤ y ∧ z.dayAt x = z.dayAt y ∧
      z.dayAt (x - 1) < z.dayAt y := by
  have hstart : z.dayAt (y - 5 * secondsPerDay) < z.dayAt y := by
    have hthen := hwithinDay.offset (y - 5 * secondsPerDay)
    have hnow := hwithinDay.offset y
    simp only [dayAt, secondsPerDay] at *
    omega
  -- by induction on the distance: the day of the first second of it has begun or has not
  have hbegun (k : Nat) : ∀ x : Int, y = x + k → z.dayAt x < z.dayAt y →
      ∃ v, x < v ∧ v ≤ y ∧ z.dayAt v = z.dayAt y ∧ z.dayAt (v - 1) < z.dayAt y := by
    induction k with
    | zero =>
      intro x hx hlt
      rw [show y = x by omega] at hlt
      exact absurd hlt (Int.lt_irrefl _)
    | succ k ih =>
      intro x hx hlt
      by_cases hnext : z.dayAt (x + 1) < z.dayAt y
      · obtain ⟨v, hv, hrest⟩ := ih (x + 1) (by omega) hnext
        exact ⟨v, by omega, hrest⟩
      · have := hmono (x + 1) y (by omega)
        exact ⟨x + 1, by omega, by omega, by omega, by rwa [Int.add_sub_cancel]⟩
  exact hbegun (5 * 86400) _ (by simp only [secondsPerDay]; omega) hstart

/-- The next midnight is first shown within three days. -/
theorem firstReading_le (hwithinDay : z.WithinDay) (x : Int) :
    z.firstReading ((z.dayAt x + 1) * secondsPerDay) ≤ x + 3 * secondsPerDay := by
  have hback := hwithinDay.offsetOfWall ((z.dayAt x + 1) * secondsPerDay) false
  have hoffset := hwithinDay.offset x
  simp only [firstReading, dayAt, secondsPerDay] at *
  omega

end ZoneRules

/-! ### The inner years -/

/-- Midnight of 1 January of year 2. -/
def innerStart : Int := daysBeforeYear 2 * microsPerDay

/-- Midnight of 1 January of year 9999. -/
def innerEnd : Int := daysBeforeYear 9999 * microsPerDay

theorem innerStart_eq : innerStart = 365 * microsPerDay := by decide

theorem innerEnd_eq : innerEnd = (calendarDays - 365) * microsPerDay := by decide

/-- The instant lies in the years 2 to 9998, or less than a day away from them, as it may
when a clock other than that of UTC shows one of these years. -/
def WallTime.Inner (t : WallTime) : Prop :=
  innerStart - microsPerDay < t.micros ∧ t.micros < innerEnd + microsPerDay

theorem WallTime.Inner.bounds {t : WallTime} (h : t.Inner) :
    364 * microsPerDay < t.micros ∧ t.micros < (calendarDays - 364) * microsPerDay := by
  obtain ⟨hstart, hend⟩ := h
  rw [innerStart_eq] at hstart
  rw [innerEnd_eq] at hend
  simp only [calendarDays, microsPerDay, microsPerSecond] at hstart hend ⊢
  omega

/-- The UTC reading of an instant in the inner years. -/
theorem exists_unixSeconds {n : Int} (hstart : innerStart ≤ (n + unixEpoch) * microsPerSecond)
    (hend : (n + unixEpoch) * microsPerSecond ≤ innerEnd) :
    ∃ t : WallTime, t.micros = (n + unixEpoch) * microsPerSecond ∧
      TimeZone.unixSeconds t = n ∧ t.Inner := by
  have hroom : 0 ≤ innerStart ∧ innerEnd < calendarEnd ∧ 0 < microsPerDay := by decide
  refine ⟨⟨(n + unixEpoch) * microsPerSecond, by omega, by omega⟩, rfl, ?_, ?_, ?_⟩
  · simp only [TimeZone.unixSeconds, microsPerSecond]
    omega
  · simp only
    omega
  · simp only
    omega

/-! ### Readings at an instant -/

namespace DateTime

variable {z : TimeZone} {t : WallTime} {d : DateTime}

theorem ofUtc?_eq (z : TimeZone) (t : WallTime) :
    ofUtc? z t = (t.add? (z.rules.offset (TimeZone.unixSeconds t) * microsPerSecond)).map
      fun w => ⟨w, some z, (z.rules.offsetAt (TimeZone.unixSeconds t)).2⟩ := by
  rw [ZoneRules.offset, ← z.offsetAt_eq]
  rfl

/-- What the clock of a zone shows at an instant, and whether it does so for the second
time. -/
theorem ofUtc?_eq_some (h : ofUtc? z t = some d) :
    d.wall.micros = t.micros + z.rules.offset (TimeZone.unixSeconds t) * microsPerSecond ∧
      d = ⟨d.wall, some z, (z.rules.offsetAt (TimeZone.unixSeconds t)).2⟩ := by
  rw [ofUtc?_eq] at h
  obtain ⟨w, hw, hd⟩ := Option.map_eq_some_iff.mp h
  subst hd
  exact ⟨WallTime.add?_eq_some_iff.mp hw, rfl⟩

/-- The seconds of the reading are those of the instant and the offset. -/
theorem unixSeconds_of_ofUtc? (h : ofUtc? z t = some d) :
    TimeZone.unixSeconds d.wall =
      TimeZone.unixSeconds t + z.rules.offset (TimeZone.unixSeconds t) := by
  have hwall := (ofUtc?_eq_some h).1
  generalize z.rules.offset (TimeZone.unixSeconds t) = offset at hwall ⊢
  simp only [TimeZone.unixSeconds, microsPerSecond] at hwall ⊢
  omega

/-- In the inner years the clock shows a reading at every instant. -/
theorem exists_ofUtc? (hz : z.rules.WithinDay) (ht : t.Inner) : ∃ d, ofUtc? z t = some d := by
  obtain ⟨hstart, hend⟩ := ht.bounds
  obtain ⟨hwest, heast⟩ := hz.offset (TimeZone.unixSeconds t)
  rw [ofUtc?_eq]
  generalize z.rules.offset (TimeZone.unixSeconds t) = offset at hwest heast ⊢
  simp only [calendarDays, microsPerDay, microsPerSecond] at hstart hend
  simp only [secondsPerDay] at hwest heast
  have hshown : 0 ≤ t.micros + offset * microsPerSecond ∧
      t.micros + offset * microsPerSecond < calendarEnd := by
    simp only [calendarEnd, calendarDays, microsPerDay, microsPerSecond]
    omega
  exact ⟨_, Option.map_eq_some_iff.mpr
    ⟨⟨_, hshown.1, hshown.2⟩, WallTime.add?_eq_some_iff.mpr rfl, rfl⟩⟩

/-- The number of the day that the clock shows, counted from year 1 and from 1970. -/
theorem day_of_ofUtc? (h : ofUtc? z t = some d) :
    d.wall.day * secondsPerDay =
      z.rules.dayAt (TimeZone.unixSeconds t) * secondsPerDay + unixEpoch := by
  rw [WallTime.day, (ofUtc?_eq_some h).1, ZoneRules.dayAt]
  generalize z.rules.offset (TimeZone.unixSeconds t) = offset
  simp only [TimeZone.unixSeconds, unixEpoch, secondsPerDay, microsPerDay, microsPerSecond]
  omega

/-- The instant of a reading, by the offset for it. -/
theorem toUtc?_eq_some_iff {w target : WallTime} {late : Bool} :
    toUtc? ⟨w, some z, late⟩ = some target ↔
      target.micros =
        w.micros - z.rules.offsetOfWall (TimeZone.unixSeconds w) late * microsPerSecond := by
  rw [← z.offsetOfWall_eq]
  exact WallTime.ofMicros?_eq_some_iff.trans eq_comm

/-- A reading of the clock of UTC is its own instant. -/
theorem toUtc?_utc (w : WallTime) (late : Bool) : toUtc? ⟨w, some .utc, late⟩ = some w := by
  simp [toUtc?, utcMicros?, offset?, TimeZone.utc, TimeZone.offsetOfWall]

/-- The instant of a reading in the inner years, and that it is near them. -/
theorem exists_toUtc? (hz : z.rules.WithinDay) {w : WallTime} (hstart : innerStart ≤ w.micros)
    (hend : w.micros ≤ innerEnd) (late : Bool) :
    ∃ target, toUtc? ⟨w, some z, late⟩ = some target ∧ target.Inner := by
  have hback := hz.offsetOfWall (TimeZone.unixSeconds w) late
  simp only [toUtc?_eq_some_iff]
  generalize z.rules.offsetOfWall (TimeZone.unixSeconds w) late = offset at hback ⊢
  have hnear : innerStart - microsPerDay < w.micros - offset * microsPerSecond ∧
      w.micros - offset * microsPerSecond < innerEnd + microsPerDay := by
    simp only [secondsPerDay, microsPerDay, microsPerSecond] at hback ⊢
    omega
  have hroom : 0 ≤ innerStart - microsPerDay ∧ innerEnd + microsPerDay ≤ calendarEnd := by decide
  exact ⟨⟨w.micros - offset * microsPerSecond, by omega, by omega⟩, rfl, hnear⟩

/-- The next midnight and the instant at which it is first shown are an offset apart. -/
theorem firstReading_midnight (h : ofUtc? z t = some d) :
    (z.rules.firstReading ((z.rules.dayAt (TimeZone.unixSeconds t) + 1) * secondsPerDay) +
        unixEpoch) * microsPerSecond =
      (d.wall.day + 1) * microsPerDay - z.rules.offsetOfWall
        ((z.rules.dayAt (TimeZone.unixSeconds t) + 1) * secondsPerDay) false * microsPerSecond := by
  have hday := day_of_ofUtc? h
  rw [ZoneRules.firstReading]
  simp only [unixEpoch, secondsPerDay, microsPerDay, microsPerSecond] at hday ⊢
  omega

/-- The instant found for the midnight that ends the day shown at an instant, if another day of the
calendar follows. -/
theorem exists_midnight (hz : z.rules.WithinDay) (h : ofUtc? z t = some d)
    (hnext : d.wall.day + 1 < calendarDays)
    (hstart : 0 ≤ (z.rules.firstReading
      ((z.rules.dayAt (TimeZone.unixSeconds t) + 1) * secondsPerDay) + unixEpoch) *
        microsPerSecond) :
    ∃ midnight target, WallTime.midnight? (d.wall.day + 1) = some midnight ∧
      toUtc? ⟨midnight, some z, false⟩ = some target ∧
      target.micros = (z.rules.firstReading
        ((z.rules.dayAt (TimeZone.unixSeconds t) + 1) * secondsPerDay) + unixEpoch) *
          microsPerSecond := by
  have heq := firstReading_midnight h
  have hday := day_of_ofUtc? h
  have hback :=
    hz.offsetOfWall ((z.rules.dayAt (TimeZone.unixSeconds t) + 1) * secondsPerDay) false
  have hnonneg := d.wall.day_nonneg
  rw [heq] at hstart ⊢
  have hbounds : 0 ≤ (d.wall.day + 1) * microsPerDay ∧
      (d.wall.day + 1) * microsPerDay < calendarEnd ∧
      (d.wall.day + 1) * microsPerDay - z.rules.offsetOfWall
        ((z.rules.dayAt (TimeZone.unixSeconds t) + 1) * secondsPerDay) false * microsPerSecond <
          calendarEnd := by
    simp only [calendarEnd, calendarDays, secondsPerDay, microsPerDay, microsPerSecond] at *
    omega
  let midnight : WallTime := ⟨(d.wall.day + 1) * microsPerDay, hbounds.1, hbounds.2.1⟩
  have hwall : TimeZone.unixSeconds midnight =
      (z.rules.dayAt (TimeZone.unixSeconds t) + 1) * secondsPerDay := by
    simp only [midnight, TimeZone.unixSeconds, unixEpoch, secondsPerDay, microsPerDay,
      microsPerSecond] at hday ⊢
    omega
  refine ⟨midnight, ⟨_, hstart, hbounds.2.2⟩, WallTime.ofMicros?_eq_some_iff.mpr rfl, ?_, rfl⟩
  rw [toUtc?_eq_some_iff, hwall]

/-- The instant found for the midnight that ends the day shown at an instant. -/
theorem toUtc?_midnight (hz : z.rules.WithinDay) (ht : t.Inner) (h : ofUtc? z t = some d) :
    ∃ midnight target, WallTime.midnight? (d.wall.day + 1) = some midnight ∧
      toUtc? ⟨midnight, some z, false⟩ = some target ∧
      target.micros = (z.rules.firstReading
        ((z.rules.dayAt (TimeZone.unixSeconds t) + 1) * secondsPerDay) + unixEpoch) *
          microsPerSecond ∧
      target.micros + microsPerMinute < calendarEnd := by
  have heq := firstReading_midnight h
  have hshown := (ofUtc?_eq_some h).1
  have hoffset := hz.offset (TimeZone.unixSeconds t)
  have hback :=
    hz.offsetOfWall ((z.rules.dayAt (TimeZone.unixSeconds t) + 1) * secondsPerDay) false
  -- the tick, what the clock shows and the midnight are less than four days apart
  have hnear : d.wall.day + 1 < calendarDays ∧
      0 ≤ (d.wall.day + 1) * microsPerDay - z.rules.offsetOfWall
        ((z.rules.dayAt (TimeZone.unixSeconds t) + 1) * secondsPerDay) false * microsPerSecond ∧
      (d.wall.day + 1) * microsPerDay - z.rules.offsetOfWall
        ((z.rules.dayAt (TimeZone.unixSeconds t) + 1) * secondsPerDay) false * microsPerSecond +
          microsPerMinute < calendarEnd := by
    obtain ⟨hstart, hend⟩ := ht.bounds
    simp only [WallTime.day, calendarEnd, calendarDays, secondsPerDay, microsPerDay,
      microsPerMinute, microsPerSecond] at *
    omega
  obtain ⟨hnext, hstart, hend⟩ := hnear
  rw [← heq] at hstart hend
  obtain ⟨midnight, target, hmidnight, htarget, hmicros⟩ := exists_midnight hz h hnext hstart
  exact ⟨midnight, target, hmidnight, htarget, hmicros, hmicros ▸ hend⟩

end DateTime

end CronSchedule
