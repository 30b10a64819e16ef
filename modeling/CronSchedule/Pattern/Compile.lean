import CronSchedule.Field.Compile
import CronSchedule.Pattern.Basic

/-!
# Compiling an expression

An expression is one or more alternatives between bars.  An alternative is five, six or
seven fields between blanks, or an alias that stands for five.

* `CompileError` — why an expression does not compile, with `message` and `place` for
  reports;
* `expandAlias` — the fields an alias stands for;
* `compileAlternative` — one alternative;
* `Pattern.compile` — the whole expression.

Alternatives are compiled from left to right, the fields of each from left to right,
and the first fault is reported.
-/

namespace CronSchedule

open Text

/-- Why an expression does not compile. -/
inductive CompileError where
  /-- nothing but blanks is written -/
  | blank (expression : String)
  /-- the alternative at the index is blank -/
  | blankAlternative (expression : String) (index : Nat)
  /-- the alternative has a number of fields that no layout has -/
  | fieldCount (expression : String) (index count : Nat) (segment : List Char)
  /-- the text of the field at the position breaks a rule -/
  | field (expression : String) (position : Int) (field : Field) (problem : FieldProblem)
  /-- a numeral is too long to be read -/
  | longNumeral
deriving DecidableEq, Repr

namespace CompileError

/-- The error for a fault in a field. -/
def ofField (expression : String) (position : Int) (f : Field) : FieldFault → CompileError
  | .problem problem => field expression position f problem
  | .longNumeral => longNumeral

/-- The message, where there is one. -/
def message : CompileError → String
  | blank _ => "Empty cron expression"
  | blankAlternative _ index => s!"Empty alternative at index {index}"
  | fieldCount _ _ count segment =>
    s!"Invalid number of fields: {count} in " ++ String.ofList (quotedChars segment) ++
      ". Expected 5, 6, or 7 fields."
  | field _ _ f problem => problem.message f
  | longNumeral => ""

/-- The expression, and the place in it: the index of an alternative, or the position
of a field in its alternative, or -1 when there is none. -/
def place : CompileError → String × Int
  | blank expression => (expression, -1)
  | blankAlternative expression index => (expression, index)
  | fieldCount expression index _ _ => (expression, index)
  | field expression position _ _ => (expression, position)
  | longNumeral => ("", -1)

end CompileError

/-! ### Aliases -/

/-- The aliases and what they stand for. -/
def aliases : List (String × String) :=
  [("@yearly", "0 0 1 1 *"), ("@annually", "0 0 1 1 *"), ("@monthly", "0 0 1 * *"),
   ("@weekly", "0 0 * * 0"), ("@daily", "0 0 * * *"), ("@midnight", "0 0 * * *"),
   ("@hourly", "0 * * * *")]

/-- The fields an alias stands for; other text stands for itself.  Case does not
matter. -/
def expandAlias (segment : List Char) : List Char :=
  match aliases.find? fun entry => entry.1.toList == lower segment with
  | some entry => entry.2.toList
  | none => segment

/-! ### Alternatives and expressions -/

/-- The matchers of written fields, which start at a position of their alternative. -/
def compileFields (expression : String) :
    Nat → List (Field × List Char) → Except CompileError (List (Field × Matcher))
  | _, [] => .ok []
  | position, (f, text) :: rest =>
    match f.compile text with
    | .error fault => .error (.ofField expression position f fault)
    | .ok m => (compileFields expression (position + 1) rest).map ((f, m) :: ·)

/-- The alternative written at an index. -/
def compileAlternative (expression : String) (index : Nat) (segment : List Char) :
    Except CompileError Alternative :=
  let segment := strip segment
  if segment.isEmpty then .error (.blankAlternative expression index)
  else
    let parts := words (expandAlias segment)
    match Layout.ofCount? parts.length with
    | none => .error (.fieldCount expression index parts.length segment)
    | some layout =>
      (compileFields expression 0 (layout.fields.zip parts)).map fun slots =>
        .ofSlots layout fun f => (slots.lookup f).getD .any

/-- The alternatives written from an index on. -/
def compileAlternatives (expression : String) :
    Nat → List (List Char) → Except CompileError (List Alternative)
  | _, [] => .ok []
  | index, segment :: rest =>
    match compileAlternative expression index segment with
    | .error e => .error e
    | .ok a => (compileAlternatives expression (index + 1) rest).map (a :: ·)

/-- The alternatives of an expression. -/
def Pattern.read (expression : String) : Except CompileError (List Alternative) :=
  let text := strip expression.toList
  if text.isEmpty then .error (.blank expression)
  else compileAlternatives expression 0 (pieces '|' text)

/-- The pattern of an expression. -/
def Pattern.compile (expression : String) : Except CompileError Pattern :=
  (Pattern.read expression).map fun alternatives => ⟨expression, alternatives⟩

theorem Pattern.compile_eq_ok_iff {expression : String} {p : Pattern} :
    compile expression = .ok p ↔
      read expression = .ok p.alternatives ∧ p.expression = expression := by
  unfold compile
  cases read expression with
  | error e => exact ⟨fun h => (by cases h), fun h => (by cases h.1)⟩
  | ok alternatives =>
    constructor
    · intro h
      cases h
      exact ⟨rfl, rfl⟩
    · rintro ⟨h, rfl⟩
      cases h
      rfl

/-- The written form used to show a pattern. -/
def Pattern.text (p : Pattern) : String := "CronPattern(" ++ quoted p.expression ++ ")"

end CronSchedule
