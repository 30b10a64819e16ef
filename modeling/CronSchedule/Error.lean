import CronSchedule.Fault
import CronSchedule.Pattern.Compile
import CronSchedule.Settings.Value

/-!
# Errors

Every error of the library by its cause, with the message of each in one place.

* `ArgumentError` — a call is given arguments that make no sense;
* `SettingsError` — settings that are unknown, of the wrong kind or unreadable,
  `SettingsError.raised` — the error it is raised as;
* `Error` — these, the errors of compilation, and the failures without a message;
* `Report` — what is shown of an error: its class, its message and, for an error in an
  expression, the place; `Report.ofValues` — one put together by hand.
-/

namespace CronSchedule

open Text (Symbol symbols)

/-! ### Arguments -/

/-- Arguments that make no sense. -/
inductive ArgumentError where
  /-- the written form of a name that is no zone's -/
  | unknownZone (written : String)
  | notAnInstant (kind : String)
  | startNotDateTime (kind : String)
  | endNotDateTime (kind : String)
  | naiveAndAware
  | countNotPositive (count : Int)
  | emptyWindow
  | negativeLimit (limit : Int)
deriving DecidableEq, Repr

def ArgumentError.message : ArgumentError → String
  | unknownZone written => "Unknown timezone: " ++ written
  | notAnInstant kind => s!"Instant must be a datetime or a POSIX timestamp, got {kind}"
  | startNotDateTime kind => s!"start must be a datetime, got {kind}"
  | endNotDateTime kind => s!"end must be a datetime, got {kind}"
  | naiveAndAware => "start and end must both be naive or both be aware"
  | countNotPositive count => s!"count must be positive: {count}"
  | emptyWindow => "Start date is later than end"
  | negativeLimit limit => s!"limit must not be negative: {limit}"

/-! ### Settings -/

/-- The settings. -/
inductive Setting where
  | defaultTimezone
  | matchSeconds
  | maxScanTicks
  | searchHorizonDays
deriving DecidableEq, Repr

namespace Setting

def all : List Setting := [defaultTimezone, matchSeconds, maxScanTicks, searchHorizonDays]

/-- The name under which a setting is given. -/
def name : Setting → String
  | defaultTimezone => "default_timezone"
  | matchSeconds => "match_seconds"
  | maxScanTicks => "max_scan_ticks"
  | searchHorizonDays => "search_horizon_days"

/-- The setting of this name. -/
def ofName? (name : String) : Option Setting := all.find? fun s => s.name == name

theorem ofName?_name (s : Setting) : ofName? s.name = some s := by cases s <;> rfl

theorem name_of_ofName? {name : String} {s : Setting} (h : ofName? name = some s) :
    s.name = name := by
  simpa using List.find?_some h

end Setting

/-- Settings that cannot be used. -/
inductive SettingsError where
  /-- names that are no settings, in ascending order -/
  | unknown (names : List (List Symbol))
  | notAZone (value : Value)
  | notABoolean (value : Value)
  | notAnInteger (setting : Setting) (value : Value)
  | notPositive (setting : Setting) (value : Value)
  | fileNotFound (path : String)
  | fileNotParsed (path : String)
  | fileNotAMapping (path : String)
  | sectionNotAMapping (path : String)

namespace SettingsError

def message : SettingsError → List Symbol
  | unknown names => symbols "Unknown settings: " ++ List.intercalate (symbols ", ") names
  | notAZone value => symbols ("default_timezone must be a zone name, got " ++ value.written)
  | notABoolean value => symbols ("match_seconds must be a boolean, got " ++ value.written)
  | notAnInteger setting value =>
    symbols (setting.name ++ " must be an integer, got " ++ value.written)
  | notPositive setting value => symbols (setting.name ++ " must be positive: " ++ value.written)
  | fileNotFound path => symbols ("Configuration file not found: " ++ path)
  | fileNotParsed path => symbols ("Failed to parse " ++ path)
  | fileNotAMapping path => symbols ("Configuration file " ++ path ++ " must contain a mapping")
  | sectionNotAMapping path => symbols ("'cronmatch' section in " ++ path ++ " must be a mapping")

/-- Whether the message can be written: the value it shows can. -/
def isWritable : SettingsError → Bool
  | notAZone value => value.isWritable
  | notABoolean value => value.isWritable
  | notAnInteger _ value => value.isWritable
  | notPositive _ value => value.isWritable
  | _ => true

end SettingsError

/-! ### All errors -/

/-- An error of a call. -/
inductive Error where
  | compile (e : CompileError)
  | argument (e : ArgumentError)
  | settings (e : SettingsError)
  | fault (f : Fault)

/-- The error of settings that cannot be used, or the failure to write its message. -/
def SettingsError.raised (e : SettingsError) : Error :=
  if e.isWritable then .settings e else .fault .unwritableNumeral

/-! ### Reports -/

/-- The class under which an error is reported. -/
inductive ErrorClass where
  /-- any error of the library -/
  | general
  /-- an expression that does not compile -/
  | expression
  /-- an expression whose alternatives or number of fields are at fault -/
  | shape
  /-- an expression in which one field is at fault -/
  | field
  /-- arguments that make no sense -/
  | argument
  /-- settings that cannot be used -/
  | settings
deriving DecidableEq, Repr

namespace ErrorClass

/-- Whether the class is one of the classes of errors in expressions. -/
def concernsExpression : ErrorClass → Bool
  | expression | shape | field => true
  | _ => false

/-- Whether errors of the class also count as bad values in general. -/
def isBadValue : ErrorClass → Bool
  | expression | shape | field | argument => true
  | _ => false

end ErrorClass

/-- What is shown of an error.  Expression and position are those of an error in an
expression, the field and the token those of an error in one field. -/
structure Report where
  kind : ErrorClass
  message : List Symbol
  expression : String := ""
  position : Int := -1
  field? : Option Field := none
  token : String := ""

/-- The name of the field a report is about, empty when there is none. -/
def Report.fieldName (r : Report) : String := (r.field?.map Field.label).getD ""

/-- The report of an error in an expression; none for a numeral that cannot be read. -/
def CompileError.report? (e : CompileError) : Option Report :=
  match e with
  | .longNumeral => none
  | .field expression position f problem =>
    some { kind := .field, message := symbols e.message, expression, position, field? := some f
           token := String.ofList problem.token }
  | _ =>
    some { kind := .shape, message := symbols e.message, expression := e.place.1
           position := e.place.2 }

/-- The report of an error, or the failure that carries none. -/
def Error.report : Error → Except Fault Report
  | .compile e =>
    match e.report? with
    | some r => .ok r
    | none => .error .unreadableNumeral
  | .argument e => .ok { kind := .argument, message := symbols e.message }
  | .settings e => .ok { kind := .settings, message := e.message }
  | .fault f => .error f

/-! ### Reports put together by hand -/

namespace ErrorClass

/-- The parts of a report that values without a name fill, in order; any of them may
also be given by its name. -/
def placedParts : ErrorClass → List String
  | expression | shape => ["message", "expression", "position"]
  | field => ["message", "expression"]
  | _ => []

/-- The parts of a report that are given by name only. -/
def namedParts : ErrorClass → List String
  | field => ["field_type", "token", "position"]
  | _ => []

end ErrorClass

/-- The message that values make up: one stands for itself, several for their list in
parentheses. -/
def messageOf : List Value → List Symbol
  | [] => []
  | [v] => v.shown
  | vs => symbols (Value.writtenParts "" (vs.map Value.written))

namespace Report

/-- The report of an error in an expression with these parts given. -/
def ofParts (kind : ErrorClass) (message : Value) (parts : List (String × Value)) : Report where
  kind := kind
  message := message.shown
  expression :=
    match parts.lookup "expression" with
    | some (.text s) => s
    | _ => ""
  position :=
    match parts.lookup "position" with
    | some (.int n) => n
    | _ => -1
  field? :=
    match parts.lookup "field_type" with
    | some (.text label) => Field.all.find? fun f => f.label == label
    | _ => none
  token :=
    match parts.lookup "token" with
    | some (.text s) => s
    | _ => ""

/-- The report that values make up, some without a name and some with one.  An error in
an expression needs a message, and no part of it may be given twice; the other classes
have no parts with names. -/
def ofValues (kind : ErrorClass) (placed : List Value) (named : List (String × Value)) :
    Except Fault Report :=
  if kind.concernsExpression then
    let free := kind.placedParts.drop placed.length ++ kind.namedParts
    let parts := kind.placedParts.zip placed ++ named
    if kind.placedParts.length < placed.length || named.any (!free.contains ·.1) then
      .error .wrongKind
    else
      match parts.lookup "message" with
      | some message => .ok (ofParts kind message parts)
      | none => .error .wrongKind
  else if named.isEmpty then .ok { kind, message := messageOf placed }
  else .error .wrongKind

end Report

end CronSchedule
