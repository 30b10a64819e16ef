import CronSchedule.Field.Written
import CronSchedule.Matcher.Basic

/-!
# From a written field to its matcher

The spans of a field are spelt out, each value read as the domain has it, and put into
one value set; the forms with `L` keep matchers of their own.  A single matcher stands
for itself, several are united, the value set last.

* `Item.values`, `Item.matcher?` — the two kinds of item;
* `Written.matcher` — the matcher of a field;
* `Field.compile` — reading and compiling in one.
-/

namespace CronSchedule

namespace Item

/-- The values of a span, before any of them is folded. -/
def spanValues (first last step : Int) : List Int :=
  (List.range ((last - first) / step + 1).toNat).map fun (i : Nat) => first + step * i

/-- The values an item adds to the value set of its field. -/
def values (d : Domain) : Item → List Int
  | span first last step => (spanValues first last step).map d.normalize
  | lastDay => []
  | lastWeekday _ => []

/-- The matcher of a form with `L`. -/
def matcher? : Item → Option Matcher
  | span _ _ _ => none
  | lastDay => some .lastDay
  | lastWeekday weekday => some (.lastWeekday weekday)

end Item

/-- The matchers that unite to the matcher of a list of items. -/
def Written.members (d : Domain) (items : List Item) : List Matcher :=
  let values := items.flatMap (Item.values d)
  items.filterMap Item.matcher? ++
    if values.isEmpty then [] else [.values (ValueSet.ofList values)]

/-- The matcher of a field. -/
def Written.matcher (d : Domain) : Written → Matcher
  | unrestricted => .any
  | list items =>
    match members d items with
    | [m] => m
    | ms => .anyOf ms

/-- The matcher for the text of a field. -/
def Field.compile (f : Field) (text : List Char) : Except FieldFault Matcher :=
  (f.read text).map (Written.matcher f.domain)

end CronSchedule
