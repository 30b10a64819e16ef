import CronSchedule.Session.Matching

/-!
# Which calls look settings up

Matching and enumerating change a session in one way only: where no settings are in force, a
call that needs them loads them, and they stay in force even if the call fails behind that.
Whether a call needs them can be told from its arguments alone, before it is made.

* `Session.loaded?` — the settings that would be loaded in a session;
* `Call.LooksUp` — what a call that does, or does not, look settings up leaves behind, with its
  laws for calls in sequence;
* `Call.looksUp_accepts`, `Call.looksUp_dates`, `Call.looksUp_next` — the calls that match and
  enumerate;
* `Call.exists_enumerate_of_outcome_dates`, `Call.exists_next_of_outcome` — what was done under
  these settings, when a call succeeds.
-/

namespace CronSchedule

/-- Whether the instant is a number of seconds, which has to be read on some clock. -/
def Instant.isTimestamp : Instant → Bool
  | timestamp _ | fractional _ => true
  | dateTime _ | other _ => false

/-- The settings that would be loaded, if there are any to load. -/
def Session.loaded? (host : Host) (s : Session) : Option Settings :=
  (Settings.load host.files none s.environment).toOption

namespace Call

variable {α β : Type} {host : Host} {b : Bool}

/-- The call leaves the session as it is but for its warnings, and for settings that it loads
where it looks them up and none are in force. -/
def LooksUp (host : Host) (b : Bool) (c : Call α) : Prop :=
  ∀ s, ∃ warnings, (outcome c host s).2 =
    { s with settings := s.settings.or (if b then s.loaded? host else none), warnings }

/-! ### Calls in sequence -/

theorem outcome_map (f : α → β) (c : Call α) (host : Host) (s : Session) :
    outcome (f <$> c) host s = ((outcome c host s).1.map f, (outcome c host s).2) := by
  rw [map_eq_pure_bind, outcome_bind]
  cases outcome c host s with
  | mk result behind => cases result <;> rfl

theorem looksUp_ofResult (r : Except Error α) : LooksUp host false (ofResult r) := fun s =>
  ⟨s.warnings, by simp⟩

theorem looksUp_pure (a : α) : LooksUp host false (pure a : Call α) := looksUp_ofResult (.ok a)

theorem looksUp_throw (e : Error) : LooksUp host false (throw e : Call α) :=
  looksUp_ofResult (.error e)

theorem looksUp_read : LooksUp host false (read : Call Host) := fun s => ⟨s.warnings, by simp⟩

theorem looksUp_warn (w : Option CapWarning) : LooksUp host false (warn w) := fun s =>
  ⟨s.warnings ++ w.toList, by simp⟩

/-- What follows a call and looks nothing up adds nothing to it. -/
theorem LooksUp.bind {c : Call α} {f : α → Call β} (hc : LooksUp host b c)
    (hf : ∀ a, LooksUp host false (f a)) : LooksUp host b (c >>= f) := by
  intro s
  obtain ⟨warnings, hbehind⟩ := hc s
  rw [outcome_bind]
  cases houtcome : outcome c host s with
  | mk result behind =>
    rw [houtcome] at hbehind
    cases result with
    | error e => exact ⟨warnings, hbehind⟩
    | ok a =>
      obtain rfl : behind = _ := hbehind
      obtain ⟨warnings', hbehind'⟩ := hf a { s with settings := _, warnings }
      exact ⟨warnings', hbehind'.trans (by simp)⟩

theorem LooksUp.map {c : Call α} {f : α → β} (hc : LooksUp host b c) :
    LooksUp host b (f <$> c) := by
  rw [map_eq_pure_bind]
  exact hc.bind fun a => looksUp_pure (f a)

/-- What follows a result that is known looks settings up only if the result is none of the
errors. -/
theorem LooksUp.ofResult_bind {r : Except Error α} {f : α → Call β}
    (hf : ∀ a, r = .ok a → LooksUp host b (f a)) :
    LooksUp host (r.isOk && b) (ofResult r >>= f) := by
  intro s
  rw [outcome_bind, outcome_ofResult]
  cases r with
  | error e => exact looksUp_throw (α := α) e s
  | ok a => exact hf a rfl s

/-- Settings that have been looked up are not loaded again. -/
theorem LooksUp.settings_bind {f : Settings → Call β} (hf : ∀ x, LooksUp host b (f x)) :
    LooksUp host true (settings >>= f) := by
  intro s
  rw [outcome_bind]
  cases hs : s.settings with
  | some inForce =>
    obtain ⟨warnings, hbehind⟩ := hf inForce s
    rw [outcome_settings_of_some hs]
    refine ⟨warnings, hbehind.trans ?_⟩
    simp [hs]
  | none =>
    rw [outcome_settings_of_none hs]
    cases hload : Settings.load host.files none s.environment with
    | error e => exact ⟨s.warnings, by simp [Session.loaded?, hload, Except.toOption, ← hs]⟩
    | ok loaded =>
      obtain ⟨warnings, hbehind⟩ := hf loaded { s with settings := some loaded }
      refine ⟨warnings, hbehind.trans ?_⟩
      simp [Session.loaded?, hload, Except.toOption]

theorem looksUp_settings : LooksUp host true settings := by
  have h : LooksUp host true (settings >>= fun x => pure x) :=
    LooksUp.settings_bind fun x => looksUp_pure x
  rwa [bind_pure] at h

/-! ### Clocks -/

theorem looksUp_zone (ref : Option ZoneRef) : LooksUp host ref.isNone (zone ref) := by
  cases ref with
  | some ref => exact looksUp_read.bind fun h => (looksUp_ofResult _).bind fun z => looksUp_pure _
  | none =>
    exact LooksUp.settings_bind fun x => looksUp_read.bind fun h => looksUp_ofResult _

theorem looksUp_clock (ref : Option ZoneRef) : LooksUp host ref.isNone (clock ref) := by
  refine (looksUp_zone ref).bind fun choice => ?_
  cases choice with
  | localClock => exact looksUp_pure _
  | zone z => exact looksUp_pure _
  | noZone v => exact looksUp_throw _

theorem looksUp_dateTimeIn (d : DateTime) (ref : Option ZoneRef) :
    LooksUp host false (dateTimeIn d ref) := by
  cases ref with
  | none => exact looksUp_pure d
  | some ref =>
    refine looksUp_read.bind fun h => (looksUp_ofResult _).bind fun z => ?_
    split
    · exact looksUp_pure d
    · exact looksUp_ofResult _

/-- A timestamp without a zone is read on the clock of the default zone. -/
theorem looksUp_wallClock (instant : Instant) (ref : Option ZoneRef) :
    LooksUp host (instant.isTimestamp && ref.isNone) (wallClock instant ref) := by
  cases instant with
  | dateTime d => exact looksUp_dateTimeIn d ref
  | timestamp seconds => exact (looksUp_clock ref).bind fun z => looksUp_ofResult _
  | fractional seconds => exact (looksUp_clock ref).bind fun z => looksUp_ofResult _
  | other kind => exact looksUp_throw _

/-! ### Matching and enumerating -/

theorem looksUp_accepts (p : Pattern) (instant : Instant) (ref : Option ZoneRef)
    (matchSeconds : Option Bool) :
    LooksUp host (matchSeconds.isNone || instant.isTimestamp && ref.isNone)
      (accepts p instant ref matchSeconds) := by
  have hmatch (withSeconds : Bool) : LooksUp host (instant.isTimestamp && ref.isNone) (do
      let d ← wallClock instant ref
      ofResult (p.matchesWall d.wall withSeconds)) :=
    (looksUp_wallClock instant ref).bind fun d => looksUp_ofResult _
  cases matchSeconds with
  | some withSeconds => exact hmatch withSeconds
  | none =>
    unfold accepts comparesSeconds
    rw [bind_assoc]
    exact LooksUp.settings_bind fun x => hmatch x.comparesSeconds

theorem looksUp_dates (p : Pattern) (start : Instant) (stop : Option Instant) (count : Int)
    (matchSeconds : Option Bool) (ref : Option ZoneRef) :
    LooksUp host (Window.check start stop count).isOk
      (dates p start stop count matchSeconds ref) := by
  rw [← Bool.and_true (Window.check start stop count).isOk]
  refine LooksUp.ofResult_bind fun w _ => LooksUp.settings_bind (b := false) fun x => ?_
  exact looksUp_read.bind fun h => (looksUp_ofResult _).bind fun found =>
    (looksUp_warn _).bind fun _ => looksUp_pure _

theorem looksUp_firstOfYear (p : Pattern) (start : Instant) (matchSeconds : Option Bool) :
    LooksUp host (Window.check start none 1).isOk (firstOfYear p start matchSeconds) :=
  (looksUp_dates p start none 1 matchSeconds none).bind fun _ => looksUp_pure _

/-- A search looks settings up when there is a tick to start from. -/
theorem looksUp_next (host : Host) (p : Pattern) (after : DateTime) (matchSeconds : Option Bool) :
    LooksUp host (after.firstTickAfter? (p.searchesSeconds matchSeconds)).isSome
      (next p after matchSeconds) := by
  have hok (x : Option DateTime) : (withinCalendar x).isOk = x.isSome := by cases x <;> rfl
  rw [← hok, ← Bool.and_true (withinCalendar _).isOk]
  refine LooksUp.ofResult_bind fun start _ => LooksUp.settings_bind (b := false) fun x => ?_
  exact looksUp_read.bind fun h => (looksUp_ofResult _).bind fun found =>
    (looksUp_warn _).bind fun _ => looksUp_pure _

/-! ### Calls that succeed -/

section Succeed

variable {s behind : Session} {inForce : Settings} {p : Pattern}

/-- Settings that a call has got are in force behind it. -/
theorem settings_eq_some_of_outcome (h : outcome settings host s = (.ok inForce, behind)) :
    behind.settings = some inForce := by
  cases hs : s.settings with
  | some current =>
    rw [outcome_settings_of_some hs] at h
    cases h
    exact hs
  | none =>
    rw [outcome_settings_of_none hs] at h
    cases hload : Settings.load host.files none s.environment with
    | error e =>
      rw [hload] at h
      cases h
    | ok loaded =>
      rw [hload] at h
      cases h
      rfl

/-- A sequence of calls succeeds where each does, and hands the session on. -/
theorem exists_of_outcome_bind {c : Call α} {f : α → Call β} {b : β}
    (h : outcome (c >>= f) host s = (.ok b, behind)) :
    ∃ a between, outcome c host s = (.ok a, between) ∧
      outcome (f a) host between = (.ok b, behind) := by
  rw [outcome_bind] at h
  cases hfirst : outcome c host s with
  | mk result between =>
    rw [hfirst] at h
    cases result with
    | error e => cases h
    | ok a => exact ⟨a, between, rfl, h⟩

/-- A result that a call takes up is there, and leaves the session as it is. -/
theorem eq_ok_of_outcome_ofResult {r : Except Error α} {a : α}
    (h : outcome (ofResult r) host s = (.ok a, behind)) : r = .ok a ∧ s = behind := by
  rw [outcome_ofResult] at h
  exact Prod.mk.inj h

/-- The window and the enumeration behind dates that are listed. -/
theorem exists_enumerate_of_outcome_dates {start : Instant} {stop : Option Instant} {count : Int}
    {matchSeconds : Option Bool} {ref : Option ZoneRef} {listed : List DateTime}
    (h : outcome (dates p start stop count matchSeconds ref) host s = (.ok listed, behind)) :
    ∃ w inForce found, Window.check start stop count = .ok w ∧ behind.settings = some inForce ∧
      w.enumerate host.zones inForce p matchSeconds ref = .ok found ∧ listed = found.dates := by
  obtain ⟨w, _, hwindow, h⟩ := exists_of_outcome_bind h
  obtain ⟨inForce, between, hsettings, h⟩ := exists_of_outcome_bind h
  obtain ⟨_, _, hread, h⟩ := exists_of_outcome_bind h
  obtain ⟨found, _, henumerate, h⟩ := exists_of_outcome_bind h
  cases hread
  obtain ⟨hcheck, rfl⟩ := eq_ok_of_outcome_ofResult hwindow
  obtain ⟨hfound, rfl⟩ := eq_ok_of_outcome_ofResult henumerate
  have hinForce := settings_eq_some_of_outcome hsettings
  rw [outcome_bind, outcome_warn] at h
  cases h
  exact ⟨w, inForce, found, hcheck, hinForce, hfound, rfl⟩

/-- A call that returns has searched under the settings that are in force behind it. -/
theorem exists_next_of_outcome {after : DateTime} {matchSeconds : Option Bool}
    {date : Option DateTime}
    (h : outcome (next p after matchSeconds) host s = (.ok date, behind)) :
    ∃ inForce found, behind.settings = some inForce ∧
      p.next host.zones inForce after matchSeconds = .ok found ∧ date = found.date := by
  obtain ⟨start, _, htick, h⟩ := exists_of_outcome_bind h
  obtain ⟨inForce, between, hsettings, h⟩ := exists_of_outcome_bind h
  obtain ⟨_, _, hread, h⟩ := exists_of_outcome_bind h
  obtain ⟨found, _, hsearch, h⟩ := exists_of_outcome_bind h
  cases hread
  obtain ⟨hstart, rfl⟩ := eq_ok_of_outcome_ofResult htick
  obtain ⟨hfound, rfl⟩ := eq_ok_of_outcome_ofResult hsearch
  have hinForce := settings_eq_some_of_outcome hsettings
  rw [outcome_bind, outcome_warn] at h
  cases h
  refine ⟨inForce, found, hinForce, ?_, rfl⟩
  rw [Pattern.next, hstart]
  exact hfound

end Succeed

end Call

end CronSchedule
