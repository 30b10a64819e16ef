import CronSchedule.Field.Basic
import CronSchedule.Matcher.Basic

/-!
# Compiled patterns

A pattern is the text of an expression and its alternatives; an alternative has a
matcher for each of the seven fields.  A field that is not written is not restricted.

* `Alternative.accepts` — every field accepts, the second only if the reading has one;
* `Alternative.acceptsDate` — month, year and day accept;
* `Alternative.acceptsDay` — the two day fields together: one that is not restricted
  has no say, and of two restricted ones either may accept;
* `Pattern.accepts`, `Pattern.acceptsDate` — some alternative does.
-/

namespace CronSchedule

/-- One alternative of a pattern. -/
structure Alternative where
  layout : Layout
  second : Matcher := .any
  minute : Matcher := .any
  hour : Matcher := .any
  dayOfMonth : Matcher := .any
  month : Matcher := .any
  dayOfWeek : Matcher := .any
  year : Matcher := .any

namespace Alternative

/-- The alternative with a matcher given for each field. -/
def ofSlots (layout : Layout) (slot : Field → Matcher) : Alternative where
  layout := layout
  second := slot .second
  minute := slot .minute
  hour := slot .hour
  dayOfMonth := slot .dayOfMonth
  month := slot .month
  dayOfWeek := slot .dayOfWeek
  year := slot .year

/-- The matcher of a field. -/
def slot (a : Alternative) : Field → Matcher
  | .second => a.second
  | .minute => a.minute
  | .hour => a.hour
  | .dayOfMonth => a.dayOfMonth
  | .month => a.month
  | .dayOfWeek => a.dayOfWeek
  | .year => a.year

@[simp] theorem slot_ofSlots (layout : Layout) (slot : Field → Matcher) (f : Field) :
    (ofSlots layout slot).slot f = slot f := by cases f <;> rfl

/-- Whether the two day fields accept the reading. -/
def acceptsDay (a : Alternative) (r : Reading) : Verdict :=
  match a.dayOfMonth.isAny, a.dayOfWeek.isAny with
  | true, true => some true
  | false, true => a.dayOfMonth.accepts r r.day
  | true, false => a.dayOfWeek.accepts r r.weekday
  | false, false =>
    Verdict.or (a.dayOfMonth.accepts r r.day) fun _ => a.dayOfWeek.accepts r r.weekday

/-- Whether the fields of the date accept the reading. -/
def acceptsDate (a : Alternative) (r : Reading) : Verdict :=
  Verdict.and (a.month.accepts r r.month) fun _ =>
    Verdict.and (a.year.accepts r r.year) fun _ => a.acceptsDay r

/-- Whether the second accepts the reading; one without a second is not asked. -/
def acceptsSecond (a : Alternative) (r : Reading) : Verdict :=
  match r.second with
  | none => some true
  | some second => a.second.accepts r second

/-- Whether every field accepts the reading. -/
def accepts (a : Alternative) (r : Reading) : Verdict :=
  Verdict.and (a.acceptsSecond r) fun _ =>
    Verdict.and (a.minute.accepts r r.minute) fun _ =>
      Verdict.and (a.hour.accepts r r.hour) fun _ => a.acceptsDate r

/-- The written form used to show an alternative. -/
def text (a : Alternative) : String := s!"MatcherTable({a.layout.name})"

end Alternative

/-- A compiled expression. -/
structure Pattern where
  expression : String
  alternatives : List Alternative

namespace Pattern

/-- Whether some alternative names the second. -/
def hasSeconds (p : Pattern) : Bool := p.alternatives.any (·.layout.hasSeconds)

/-- Whether some alternative names the year. -/
def hasYears (p : Pattern) : Bool := p.alternatives.any (·.layout.hasYears)

/-- Whether some alternative accepts the reading. -/
def accepts (p : Pattern) (r : Reading) : Verdict :=
  Verdict.any (fun a => Alternative.accepts a r) p.alternatives

/-- Whether some alternative accepts the date of the reading. -/
def acceptsDate (p : Pattern) (r : Reading) : Verdict :=
  Verdict.any (fun a => Alternative.acceptsDate a r) p.alternatives

/-- The alternative at an index; a negative index counts from the end. -/
def alternative? (p : Pattern) (index : Int) : Option Alternative :=
  let i := if index < 0 then index + p.alternatives.length else index
  if i < 0 then none else p.alternatives[i.toNat]?

/-- Patterns are equal when their expressions are. -/
def same (p q : Pattern) : Bool := p.expression == q.expression

/-- A number that equal patterns share. -/
def hash (p : Pattern) : UInt64 := Hashable.hash p.expression

theorem hash_eq_of_same {p q : Pattern} (h : p.same q = true) : p.hash = q.hash := by
  rw [hash, hash, eq_of_beq h]

end Pattern

end CronSchedule
