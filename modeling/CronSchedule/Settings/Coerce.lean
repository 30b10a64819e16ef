import CronSchedule.Settings.Basic
import CronSchedule.Text.Blank
import CronSchedule.Text.Upper

/-!
# Settings from entries

A file or the environment gives settings as entries whose values may be texts.  A text
is read as what it says: a truth value, nothing, or an integer; any other text stands
for itself without the blanks at its ends.  The two numeric settings read a text of
digits as a number before that, so `1` is a number for them.

* `readText` — what a text says;
* `Setting.admits` — the kinds of values that a setting may be given;
* `Setting.coerce` — what a value given for a setting says, or the complaint about its kind;
* `Settings.ofEntries` — the settings that entries describe.

Names are looked at before any value, and values in the order of the entries.
-/

namespace CronSchedule

open Text

/-- The words for truth values and for nothing. -/
def textWords : List (String × Value) :=
  [("true", .bool true), ("yes", .bool true), ("1", .bool true), ("on", .bool true),
   ("false", .bool false), ("no", .bool false), ("0", .bool false), ("off", .bool false),
   ("null", .null), ("none", .null), ("", .null)]

/-- What a text says. -/
def readText (s : String) : Value :=
  let stripped := strip s.toList
  match textWords.find? fun entry => entry.1.toList == lower stripped with
  | some entry => entry.2
  | none =>
    match integer? stripped with
    | some n => .int n
    | none => .text (String.ofList stripped)

/-- Whether a setting is a number. -/
def Setting.isNumeric : Setting → Bool
  | .maxScanTicks | .searchHorizonDays => true
  | _ => false

/-- What a value given for a setting says.  A numeric setting refuses a text of digits
that no number can be read from. -/
def Setting.interpret (s : Setting) (v : Value) : Except Error Value :=
  match v with
  | .text t =>
    let stripped := strip t.toList
    if s.isNumeric && !stripped.isEmpty && stripped.all isDigitLike then
      match integer? stripped with
      | some n => .ok (.int n)
      | none => .error (.fault .unreadableNumeral)
    else .ok (readText t)
  | .ragged t => .ok (.ragged (stripSymbols t))
  | v => .ok v

/-- Whether a value is of a kind that the setting may be given. -/
def Setting.admits : Setting → Value → Bool
  | .defaultTimezone, .null | .defaultTimezone, .text _ | .defaultTimezone, .ragged _ => true
  | .matchSeconds, .bool _ => true
  | .maxScanTicks, .null | .maxScanTicks, .int _ => true
  | .searchHorizonDays, .int _ => true
  | _, _ => false

/-- The complaint about a value of the wrong kind. -/
def Setting.complaint : Setting → Value → SettingsError
  | .defaultTimezone => .notAZone
  | .matchSeconds => .notABoolean
  | s => .notAnInteger s

/-- What a value given for a setting says, when that is of a kind it may be given. -/
def Setting.coerce (s : Setting) (v : Value) : Except Error Value :=
  match s.interpret v with
  | .error e => .error e
  | .ok v => if s.admits v then .ok v else .error (s.complaint v).raised

/-- What is read from a value is of a kind that the setting may be given. -/
theorem Setting.admits_of_coerce {s : Setting} {v w : Value} (h : s.coerce v = .ok w) :
    s.admits w = true := by
  unfold coerce at h
  split at h
  · cases h
  · split at h
    · next ha => injection h with h; exact h ▸ ha
    · cases h

/-- The names of entries that are no settings, ascending; none when some name is no
text. -/
def unknownNames (es : Entries Value Value) : Option (List (List Symbol)) := do
  let names ← es.mapM fun e =>
    match e.1 with
    | .text name => some (symbols name)
    | .ragged name => some name
    | _ => none
  let unknown := names.filter fun name =>
    ((characters? name).bind fun cs => Setting.ofName? (String.ofList cs)).isNone
  return unknown.mergeSort inOrder

/-- The setting an entry names. -/
def entrySetting? (e : Value × Value) : Option Setting :=
  match e.1 with
  | .text name => Setting.ofName? name
  | _ => none

/-- The draft with one entry read into it. -/
def Draft.read (d : Draft) (e : Value × Value) : Except Error Draft :=
  match entrySetting? e with
  | some s => (s.coerce e.2).map (d.set s)
  | none => .error (.fault .wrongKind)

/-- The settings that entries describe. -/
def Settings.ofEntries (es : Entries Value Value) : Except Error Settings := do
  match unknownNames es with
  | none => throw (.fault .wrongKind)
  | some (name :: names) => throw (.settings (.unknown (name :: names)))
  | some [] => pure ()
  let d ← es.foldlM Draft.read {}
  d.settings

end CronSchedule
