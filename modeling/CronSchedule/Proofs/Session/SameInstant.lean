import CronSchedule.Proofs.Session.Genuine

/-!
# One instant in many writings

An instant reaches a match as a number of seconds since 1970 or as a date and time on any clock.
The two go different ways to the clock that the call names: the number is read on it, and a date
is first taken back to the instant at which its own clock shows it, unless it stands on the right
clock already.

That both ways come to the same reading rests on one fact about the clock of the date, and on none
about the clock of the call: the instant is found again from the reading together with the mark
that tells the second of two equal readings.

* `DateTime.ofTimestamp_eq` — reading a number of seconds is showing the instant that it counts;
* `DateTime.Writes` — a date and time that is what some clock shows at a number of seconds;
* `Call.outcome_wallClock_timestamp`, `Call.outcome_wallClock_dateTime` — what the clock of the
  call shows, by either way;
* `Call.accepts_sameInstant` — so all writings of an instant are matched alike.
-/

namespace CronSchedule

/-! ### Numbers of seconds -/

namespace DateTime

variable {z : TimeZone} {seconds : Int} {d : DateTime}

/-- The number of seconds counts up to an instant of the calendar. -/
def CountsTo (seconds : Int) (t : WallTime) : Prop :=
  t.micros = (seconds + unixEpoch) * microsPerSecond

theorem CountsTo.unixSeconds {t : WallTime} (h : CountsTo seconds t) :
    TimeZone.unixSeconds t = seconds := by
  simp only [CountsTo, TimeZone.unixSeconds, microsPerSecond] at h ⊢
  omega

/-- The instants of the calendar lie well within what the clock can count, so a number of seconds
that counts up to one is read by showing it. -/
theorem ofTimestamp_eq {t : WallTime} (h : CountsTo seconds t) (z : TimeZone) :
    liftFault (ofTimestamp (some z) seconds) = withinCalendar (ofUtc? z t) := by
  have hnonneg := t.nonneg
  have hend := t.lt_end
  have hwhole : seconds * microsPerSecond / microsPerSecond = seconds :=
    Int.mul_ediv_cancel seconds (by decide)
  have hmicros : seconds * microsPerSecond + unixEpoch * microsPerSecond = t.micros := by
    rw [h, Int.add_mul]
  simp only [CountsTo, unixEpoch, microsPerSecond] at h
  simp only [calendarEnd, calendarDays, microsPerDay, microsPerSecond] at hend
  have hcounted : ¬ (seconds < -timestampEnd ∨ timestampEnd ≤ seconds) := by
    simp only [timestampEnd]
    omega
  have hclock : ¬ (seconds < clockRange.1 ∨ clockRange.2 < seconds) := by
    simp only [clockRange]
    omega
  simp only [ofTimestamp, ofUnixMicros, hwhole, if_neg hcounted, if_neg hclock, hmicros,
    WallTime.ofMicros?_micros]
  cases ofUtc? z t <;> rfl

/-- A number of seconds that is read counts up to an instant. -/
theorem exists_countsTo (h : ofTimestamp (some z) seconds = .ok d) :
    ∃ t, CountsTo seconds t ∧ ofUtc? z t = some d := by
  have hread := h
  rw [ofTimestamp, ofUnixMicros] at h
  cases hmicros : WallTime.ofMicros?
      (seconds * microsPerSecond + unixEpoch * microsPerSecond) with
  | none =>
    simp only [hmicros] at h
    split at h
    · cases h
    · split at h <;> cases h
  | some t =>
    have hcounts : CountsTo seconds t := by
      rw [CountsTo, ← WallTime.ofMicros?_eq_some_iff.mp hmicros, Int.add_mul]
    refine ⟨t, hcounts, withinCalendar_eq_ok_iff.mp ?_⟩
    rw [← ofTimestamp_eq hcounts z, hread, liftFault]

/-- A writing of the instant that a number of seconds counts up to: what the clock of a fixed
offset, or of a zone that the table has under its name, shows then.  The instant is found again
from the reading and the mark for the second of two equal ones. -/
def Writes (zones : ZoneTable) (seconds : Int) (d : DateTime) : Prop :=
  ∃ z, zones.Knows z ∧ z.rules.RoundTrips ∧ ofTimestamp (some z) seconds = .ok d

end DateTime

/-! ### Matching -/

namespace Call

variable {host : Host} {z : TimeZone} {ref : ZoneRef} {seconds : Int} {t : WallTime}

theorem outcome_wallClock_timestamp (href : host.zones.resolve ref = .ok z)
    (ht : DateTime.CountsTo seconds t) (s : Session) :
    outcome (wallClock (.timestamp seconds) (some ref)) host s =
      (withinCalendar (DateTime.ofUtc? z t), s) := by
  simp only [wallClock, clock, zone, outcome_bind, outcome_read, outcome_ofResult, href,
    outcome_pure, DateTime.ofTimestamp_eq ht]

theorem outcome_wallClock_dateTime (href : host.zones.resolve ref = .ok z)
    (ht : DateTime.CountsTo seconds t) {d : DateTime} (hd : d.Writes host.zones seconds)
    (s : Session) :
    outcome (wallClock (.dateTime d) (some ref)) host s =
      (withinCalendar (DateTime.ofUtc? z t), s) := by
  obtain ⟨home, hknows, hround, hread⟩ := hd
  obtain ⟨u, hu, hshown⟩ := DateTime.exists_countsTo hread
  obtain rfl : u = t := WallTime.ext (hu.trans ht.symm)
  exact outcome_dateTimeIn_some hround hknows href hshown

/-- Of an instant a match looks at the reading of the clock alone. -/
theorem outcome_accepts_of_wallClock {p : Pattern} {instant : Instant} {ref : Option ZoneRef}
    {shown : Except Error DateTime} (h : ∀ s, outcome (wallClock instant ref) host s = (shown, s))
    (matchSeconds : Option Bool) (s : Session) :
    outcome (accepts p instant ref matchSeconds) host s =
      outcome (comparesSeconds matchSeconds >>= fun withSeconds =>
        ofResult (shown.map fun d => p.admits withSeconds d.wall)) host s := by
  rw [accepts, outcome_bind, outcome_bind]
  cases outcome (comparesSeconds matchSeconds) host s with
  | mk result behind =>
    cases result with
    | error e => rfl
    | ok withSeconds =>
      simp only [outcome_bind, h, outcome_ofResult, p.matchesWall_eq]
      cases shown <;> rfl

/-- Matching depends on the instant and not on how it is written.  On the clock of a zone that the
call names, a date and time gets the answer of the number of seconds that it writes, whatever its
own clock and under whatever settings, and so do any two dates that write the same.  In the years 2
to 9998 that is an answer and no error: whether the pattern accepts what the clock of the call
shows at the instant. -/
theorem accepts_sameInstant (host : Host) (s : Session) (p : Pattern)
    (matchSeconds : Option Bool) {ref : ZoneRef} {z : TimeZone}
    (href : host.zones.resolve ref = .ok z) (seconds : Int) :
    (∀ d : DateTime, d.Writes host.zones seconds →
      outcome (accepts p (.dateTime d) (some ref) matchSeconds) host s =
        outcome (accepts p (.timestamp seconds) (some ref) matchSeconds) host s) ∧
    (∀ d e : DateTime, d.Writes host.zones seconds → e.Writes host.zones seconds →
      outcome (accepts p (.dateTime d) (some ref) matchSeconds) host s =
        outcome (accepts p (.dateTime e) (some ref) matchSeconds) host s) ∧
    (z.rules.WithinDay → innerStart ≤ (seconds + unixEpoch) * microsPerSecond →
      (seconds + unixEpoch) * microsPerSecond < innerEnd →
      ∃ w : WallTime,
        w.micros = (seconds + z.rules.offset seconds + unixEpoch) * microsPerSecond ∧
        outcome (accepts p (.timestamp seconds) (some ref) matchSeconds) host s =
          outcome ((p.admits · w) <$> comparesSeconds matchSeconds) host s) := by
  have hwritten (d : DateTime) (hd : d.Writes host.zones seconds) :
      outcome (accepts p (.dateTime d) (some ref) matchSeconds) host s =
        outcome (accepts p (.timestamp seconds) (some ref) matchSeconds) host s := by
    obtain ⟨home, -, -, hread⟩ := id hd
    obtain ⟨t, ht, -⟩ := DateTime.exists_countsTo hread
    rw [outcome_accepts_of_wallClock (outcome_wallClock_dateTime href ht hd),
      outcome_accepts_of_wallClock (outcome_wallClock_timestamp href ht)]
  refine ⟨hwritten, fun d e hd he => (hwritten d hd).trans (hwritten e he).symm,
    fun hwithinDay hstart hend => ?_⟩
  obtain ⟨t, ht, hunix, hinner⟩ := exists_unixSeconds hstart (Int.le_of_lt hend)
  obtain ⟨shown, hshown⟩ := DateTime.exists_ofUtc? hwithinDay hinner
  refine ⟨shown.wall, ?_, ?_⟩
  · rw [(DateTime.ofUtc?_eq_some hshown).1, hunix, ht]
    simp only [Int.add_mul]
    omega
  · rw [outcome_accepts_of_wallClock (outcome_wallClock_timestamp href ht), hshown,
      map_eq_pure_bind]
    rfl

/-- Half past one of the second pass in London on 27 October 2024, written on its own clock and nine
hours ahead of UTC, is half past one on the clock of London both times. -/
theorem accepts_sameInstant_london :
    let host : Host := ⟨[("Europe/London", TimeZone.london.rules)], {}⟩
    let ref : ZoneRef := .name "Europe/London"
    let home : DateTime := ⟨⟨63865589400000000, by decide, by decide⟩, some .london, true⟩
    let away : DateTime := ⟨⟨63865621800000000, by decide, by decide⟩, some (.fixed 32400), false⟩
    host.zones.resolve ref = .ok .london ∧
      home.Writes host.zones 1729992600 ∧ away.Writes host.zones 1729992600 ∧
      ∀ (s : Session), ∀ d ∈ [home, away],
        outcome (accepts .halfPastOne (.dateTime d) (some ref) (some false)) host s =
          (.ok true, s) := by
  intro host ref home away
  have href : host.zones.resolve ref = .ok .london := rfl
  have hhome : home.Writes host.zones 1729992600 := by
    refine ⟨.london, ?_, TimeZone.roundTrips_london, by decide⟩
    intro name rules hnamed
    cases hnamed
    rfl
  have haway : away.Writes host.zones 1729992600 :=
    ⟨.fixed 32400, nofun, fun x => rfl, by decide⟩
  refine ⟨href, hhome, haway, fun s d hd => ?_⟩
  obtain ⟨hwritten, -, hanswer⟩ :=
    accepts_sameInstant host s .halfPastOne (some false) href 1729992600
  have hd : d.Writes host.zones 1729992600 := by
    rcases List.mem_pair.mp hd with rfl | rfl
    · exact hhome
    · exact haway
  obtain ⟨w, hw, haccepts⟩ := hanswer ⟨by decide, by decide⟩ (by decide) (by decide)
  obtain rfl : w = ⟨63865589400000000, by decide, by decide⟩ := WallTime.ext (hw.trans (by decide))
  rw [hwritten d hd, haccepts, outcome_map]
  have hadmits : Pattern.halfPastOne.admits false
      ⟨63865589400000000, by decide, by decide⟩ = true := by decide
  simp only [comparesSeconds, outcome_pure, Except.map, hadmits]

end Call

end CronSchedule
