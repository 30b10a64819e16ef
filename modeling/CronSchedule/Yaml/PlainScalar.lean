import CronSchedule.Yaml.Layout

/-!
# Scalars without quotes

A scalar without quotes may run over several lines, each further right than the
collection it belongs to.

* `startsPlain` — where one can start;
* `plainRun` — the part of a line that belongs to it;
* `plainText` — the whole of it, with the ends of its lines folded.
-/

namespace CronSchedule.Yaml

/-! ### One line -/

def isBracket (c : Char) : Bool :=
  c == '[' || c == ']' || c == '\x7b' || c == '\x7d'

/-- Whether a colon ends a scalar when `rest` follows it. -/
def colonEnds (flow : Bool) (rest : List Char) : Bool :=
  endsToken rest || (flow && rest.head?.any fun c => c == ',' || isBracket c)

/-- Whether a scalar without quotes can start here. -/
def startsPlain (flow : Bool) : List Char → Bool
  | [] => false
  | c :: rest =>
    if c == '-' then !endsToken rest
    else if c == '?' || c == ':' then !flow && !endsToken rest
    else
      !(c == ' ' || c == '\t' || isBreak c || c == ',' || isBracket c || c == '#' || c == '&' ||
        c == '*' || c == '!' || c == '|' || c == '>' || c == '\'' || c == '"' || c == '%' ||
        c == '@' || c.toNat == 0x60)

/-- The characters of the line that belong to the scalar, and the rest of the text.  A
colon before a blank ends it, a number sign behind one, and in brackets the marks of
their notation. -/
def plainRun (flow : Bool) : Bool → List Char → List Char × List Char
  | _, [] => ([], [])
  | spaced, c :: rest =>
    if isBreak c || c == '\t' || (c == '#' && spaced) || (c == ':' && colonEnds flow rest) ||
        (flow && (c == ',' || c == '?' || isBracket c)) then ([], c :: rest)
    else
      let (run, rest) := plainRun flow (c == ' ') rest
      (c :: run, rest)

/-- Nothing is lost between the scalar and the rest. -/
theorem plainRun_append (flow spaced : Bool) (s : List Char) :
    (plainRun flow spaced s).1 ++ (plainRun flow spaced s).2 = s := by
  induction s generalizing spaced with
  | nil => rfl
  | cons c rest ih =>
    simp only [plainRun]
    split
    · rfl
    · simp [ih]

/-- A text without the spaces at its end. -/
def trimSpaces (s : List Char) : List Char := (s.reverse.dropWhile (· == ' ')).reverse

/-! ### Several lines -/

/-- What the line ends here stand for, with the spaces between them left out. -/
def lineMarks : List Char → List Char
  | [] => []
  | c :: rest =>
    if isBreak c then lineMark c :: lineMarks rest
    else if c == ' ' then lineMarks rest
    else []

/-- Whether a scalar goes on at the start of a line, as far as the start tells.  Outside
brackets it goes on from column `indent` on. -/
def goesOn (flow : Bool) (indent : Nat) (p : Place) : Bool :=
  !p.atEnd && p.rest.head? != some '#' && (flow || indent ≤ p.column)

/-- A scalar without quotes, the place of what follows it, and whether a line ended on the
way there. -/
def plainText (flow : Bool) (indent : Nat) : Nat → Place → List Char × Place × Bool
  | 0, p => ([], p, false)
  | steps + 1, p =>
    let (run, rest) := plainRun flow false p.rest
    let q := p.before rest
    let ends := lineMarks rest
    if ends.isEmpty then (trimSpaces run, q, false)
    else
      let next := q.before (rest.dropWhile fun c => isBreak c || c == ' ')
      if goesOn flow indent next then
        match plainText flow indent steps next with
        | ([], _, _) => (trimSpaces run, next, true)
        | (more, r, crossed) => (trimSpaces run ++ fold ends ++ more, r, crossed)
      else (trimSpaces run, next, true)

end CronSchedule.Yaml
