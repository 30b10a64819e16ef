/-!
# The fields of an expression

The seven fields, the domain of values of each, and the three layouts that a written
expression can have.

* `Field.label` — the name used in messages;
* `Field.domain` — least and greatest value, the names of values, whether the forms
  with `L` have a meaning, and the value that is folded onto another;
* `Layout.ofCount?` — the layout of an expression of so many fields.
-/

namespace CronSchedule

/-- A field of an expression. -/
inductive Field where
  | second
  | minute
  | hour
  | dayOfMonth
  | month
  | dayOfWeek
  | year
deriving DecidableEq, Repr

namespace Field

/-- The fields, from the second to the year. -/
def all : List Field := [second, minute, hour, dayOfMonth, month, dayOfWeek, year]

theorem mem_all (f : Field) : f ∈ all := by cases f <;> decide

/-- The name of the field in messages. -/
def label : Field → String
  | second => "second"
  | minute => "minute"
  | hour => "hour"
  | dayOfMonth => "day-of-month"
  | month => "month"
  | dayOfWeek => "day-of-week"
  | year => "year"

end Field

/-! ### Domains -/

/-- The values a field can be given. -/
structure Domain where
  low : Int
  high : Int
  /-- upper-case names and the values they stand for -/
  names : List (String × Int)
  /-- whether `L` has a meaning in the field -/
  hasLast : Bool
  /-- a value that is read as another once ranges are spelt out -/
  folded : Option (Int × Int)

namespace Domain

def contains (d : Domain) (n : Int) : Bool := d.low ≤ n && n ≤ d.high

/-- The value that is matched for a written value. -/
def normalize (d : Domain) (n : Int) : Int :=
  match d.folded with
  | some (written, matched) => if n = written then matched else n
  | none => n

/-- The domain as messages show it. -/
def rangeText (d : Domain) : String := s!"[{d.low}-{d.high}]"

/-- The value of an upper-case name. -/
def named? (d : Domain) (name : List Char) : Option Int :=
  (d.names.find? fun entry => entry.1.toList == name).map (·.2)

end Domain

/-- Names and their first three letters, with consecutive values. -/
def numberNames (first : Int) : List String → List (String × Int)
  | [] => []
  | name :: names =>
    (name, first) :: (String.ofList (name.toList.take 3), first) :: numberNames (first + 1) names

def monthNames : List (String × Int) :=
  numberNames 1 ["JANUARY", "FEBRUARY", "MARCH", "APRIL", "MAY", "JUNE", "JULY", "AUGUST",
    "SEPTEMBER", "OCTOBER", "NOVEMBER", "DECEMBER"]

def weekdayNames : List (String × Int) :=
  numberNames 0 ["SUNDAY", "MONDAY", "TUESDAY", "WEDNESDAY", "THURSDAY", "FRIDAY", "SATURDAY"]

/-- The day of the week that a bare `L` stands for, Saturday. -/
def lastDayOfWeek : Int := 6

/-- The values of each field.  Sunday may be written 0 or 7. -/
def Field.domain : Field → Domain
  | .second => ⟨0, 59, [], false, none⟩
  | .minute => ⟨0, 59, [], false, none⟩
  | .hour => ⟨0, 23, [], false, none⟩
  | .dayOfMonth => ⟨1, 31, [], true, none⟩
  | .month => ⟨1, 12, monthNames, false, none⟩
  | .dayOfWeek => ⟨0, 7, weekdayNames, true, some (7, 0)⟩
  | .year => ⟨1970, 2099, [], false, none⟩

/-! ### Layouts -/

/-- Which fields are written, and in which order. -/
inductive Layout where
  | standard
  | withSeconds
  | withSecondsAndYear
deriving DecidableEq, Repr

namespace Layout

def all : List Layout := [standard, withSeconds, withSecondsAndYear]

def fields : Layout → List Field
  | standard => [.minute, .hour, .dayOfMonth, .month, .dayOfWeek]
  | withSeconds => [.second, .minute, .hour, .dayOfMonth, .month, .dayOfWeek]
  | withSecondsAndYear => [.second, .minute, .hour, .dayOfMonth, .month, .dayOfWeek, .year]

def name : Layout → String
  | standard => "STANDARD"
  | withSeconds => "WITH_SECONDS"
  | withSecondsAndYear => "WITH_SECONDS_AND_YEAR"

def hasSeconds (l : Layout) : Bool := l.fields.contains .second

def hasYears (l : Layout) : Bool := l.fields.contains .year

/-- The layout of an expression of `count` fields. -/
def ofCount? (count : Nat) : Option Layout := all.find? fun l => l.fields.length == count

theorem ofCount?_fields (l : Layout) : ofCount? l.fields.length = some l := by
  cases l <;> rfl

theorem length_of_ofCount? {count : Nat} {l : Layout} (h : ofCount? count = some l) :
    l.fields.length = count := by
  have := List.find?_some h
  simpa using this

end Layout

end CronSchedule
