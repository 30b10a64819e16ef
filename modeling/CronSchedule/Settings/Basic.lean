import CronSchedule.Error
import CronSchedule.Settings.Entries

/-!
# Settings

The defaults of calls that leave out an argument.

* `Draft` — a value of any kind for each setting, `Draft.get` and `Draft.set` — its parts;
* `Settings` — settings in force: a draft whose two numbers are positive, and
  `Draft.settings` — the check;
* `Settings.comparesSeconds`, `Settings.tickLimit`, `Settings.horizon` — what settings mean
  for a call.

Settings that are loaded have values of the kinds that `Setting.admits`.  Settings that
are put together by hand may have others, and what those mean is said here as well: any
value that counts as present asks for seconds, a fractional limit holds from the first
tick at or behind it, and a horizon may end within a day.
-/

namespace CronSchedule

/-! ### Drafts -/

/-- A value of any kind for each setting. -/
structure Draft where
  /-- the zone of timestamps; nothing is the local clock -/
  defaultTimezone : Value := .null
  /-- whether a match compares the second -/
  matchSeconds : Value := .bool false
  /-- the most ticks that one enumeration tests; nothing is no limit -/
  maxScanTicks : Value := .null
  /-- how many days ahead the next match is looked for -/
  searchHorizonDays : Value := .int 1464

namespace Draft

/-- The value of a setting. -/
def get (d : Draft) : Setting → Value
  | .defaultTimezone => d.defaultTimezone
  | .matchSeconds => d.matchSeconds
  | .maxScanTicks => d.maxScanTicks
  | .searchHorizonDays => d.searchHorizonDays

/-- The draft with the value of one setting replaced. -/
def set (d : Draft) : Setting → Value → Draft
  | .defaultTimezone, v => { d with defaultTimezone := v }
  | .matchSeconds, v => { d with matchSeconds := v }
  | .maxScanTicks, v => { d with maxScanTicks := v }
  | .searchHorizonDays, v => { d with searchHorizonDays := v }

@[simp] theorem get_set (d : Draft) (s t : Setting) (v : Value) :
    (d.set s v).get t = if s = t then v else d.get t := by
  cases s <;> cases t <;> rfl

@[ext] theorem ext {d e : Draft} (h : ∀ s, d.get s = e.get s) : d = e := by
  cases d; cases e
  simp only [Draft.mk.injEq]
  exact ⟨h .defaultTimezone, h .matchSeconds, h .maxScanTicks, h .searchHorizonDays⟩

/-- The values of a draft, in the order of the settings. -/
def entries (d : Draft) : Entries String Value := Setting.all.map fun s => (s.name, d.get s)

/-- The draft that entries describe.  An entry that names no setting is refused. -/
def ofEntries (es : Entries String Value) : Except Error Draft :=
  es.foldlM (fun d e =>
    match Setting.ofName? e.1 with
    | some s => .ok (d.set s e.2)
    | none => .error (.fault .wrongKind)) {}

end Draft

/-! ### Settings in force -/

/-- Settings in force. -/
structure Settings extends Draft where
  ticks_pos : maxScanTicks = .null ∨ maxScanTicks.isPositive? = some true := by exact .inl rfl
  days_pos : searchHorizonDays.isPositive? = some true := by rfl

@[ext] theorem Settings.ext {s t : Settings} (h : s.toDraft = t.toDraft) : s = t := by
  cases s; cases t
  subst h
  rfl

/-- The complaint about a number that is not positive; what has no sign is of the wrong
kind. -/
def Setting.refusal (s : Setting) (v : Value) : Error :=
  match v.isPositive? with
  | some _ => SettingsError.raised (.notPositive s v)
  | none => .fault .wrongKind

/-- The settings of a draft, when its two numbers are positive. -/
def Draft.settings (d : Draft) : Except Error Settings :=
  if hticks : d.maxScanTicks = .null ∨ d.maxScanTicks.isPositive? = some true then
    if hdays : d.searchHorizonDays.isPositive? = some true then .ok ⟨d, hticks, hdays⟩
    else .error (Setting.searchHorizonDays.refusal d.searchHorizonDays)
  else .error (Setting.maxScanTicks.refusal d.maxScanTicks)

/-- Settings are settings of nothing but themselves. -/
theorem Draft.settings_eq_ok_iff {d : Draft} {s : Settings} :
    d.settings = .ok s ↔ d = s.toDraft := by
  constructor
  · intro h
    unfold Draft.settings at h
    split at h
    · split at h
      · injection h with h
        rw [← h]
      · cases h
    · cases h
  · rintro rfl
    simp [Draft.settings, s.ticks_pos, s.days_pos]

namespace Settings

/-- Whether a match compares the second. -/
def comparesSeconds (s : Settings) : Bool := s.matchSeconds.isTruthy

/-- The most ticks that one enumeration tests. -/
def tickLimit (s : Settings) : Option Nat := s.maxScanTicks.ceiling?

/-- A limit lets at least one tick be tested. -/
theorem tickLimit_pos (s : Settings) {n : Nat} (h : s.tickLimit = some n) : 0 < n := by
  rcases s.ticks_pos with hnull | hpos
  · simp [tickLimit, hnull, Value.ceiling?] at h
  · exact Value.ceiling?_pos hpos h

end Settings

/-! ### The horizon -/

/-- The most days a span may have. -/
def maxSpanDays : Nat := 999999999

/-- A span of days in microseconds.  A fraction of a day is rounded to a microsecond. -/
def Value.days : Value → Except Fault Int
  | .bool b => .ok (if b then microsPerDay else 0)
  | .int n => .ok (n * microsPerDay)
  | .float x =>
    if x.isNaN then .error .notANumber
    else if x.isInfinite then .error .tooLarge
    else .ok (x.inParts microsPerDay.toNat)
  | _ => .error .wrongKind

/-- How far ahead the next match is looked for, in microseconds. -/
def Settings.horizon (s : Settings) : Except Fault Int :=
  match s.searchHorizonDays.days with
  | .error f => .error f
  | .ok span => if span / microsPerDay ≤ maxSpanDays then .ok span else .error .tooLarge

end CronSchedule
