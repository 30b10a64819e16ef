import CronSchedule.Text.Symbol
import CronSchedule.Yaml.Layout
import CronSchedule.Yaml.Scalar

/-!
# Scalars in quotes

A scalar in quotes is read from the front as a list of atoms, up to its closing quote;
the first thing that is wrong ends the reading.

* `singleAtoms`, `doubleAtoms` — its characters, blanks and line ends, with escapes
  resolved, and the rest of the text;
* `flatten` — the text of the atoms, line ends folded;
* `quotedText` — both together.

An escape may ask for half of a surrogate pair, which stands in the text by itself.  One
that asks for a code point beyond the code space is no fault of the notation: the value
asked for does not exist.
-/

namespace CronSchedule.Yaml

open Text (Symbol)

/-! ### Atoms -/

/-- A part of a scalar in quotes. -/
inductive Atom where
  | symbol (s : Symbol)
  /-- a space or a tab that is not escaped -/
  | blank (c : Char)
  /-- a line end, by what it stands for -/
  | lineEnd (mark : Char)
  /-- a line end behind a backslash -/
  | continued

/-- The atom of a character that is not escaped. -/
def Atom.ofChar (c : Char) : Atom :=
  if isBreak c then .lineEnd (lineMark c)
  else if c == ' ' || c == '\t' then .blank c
  else .symbol (.char c)

/-- Whether the mark of a new or of an ended document opens the line. -/
def opensWithMarker : List Char → Bool
  | '-' :: '-' :: '-' :: c :: _ => c == ' ' || c == '\t' || isBreak c
  | '.' :: '.' :: '.' :: c :: _ => c == ' ' || c == '\t' || isBreak c
  | _ => false

/-- Whether a character ends a line before the mark of a document. -/
def endsBeforeMarker (c : Char) (rest : List Char) : Bool := isBreak c && opensWithMarker rest

/-- The atoms of a scalar in single quotes, from behind the opening quote, and the rest
behind the closing one. -/
def singleAtoms : List Char → Except Refusal (List Atom × List Char)
  | [] => .error .malformed
  | '\'' :: '\'' :: rest => (singleAtoms rest).map fun r => (.symbol (.char '\'') :: r.1, r.2)
  | '\'' :: rest => .ok ([], rest)
  | c :: rest =>
    if endsBeforeMarker c rest then .error .malformed
    else (singleAtoms rest).map fun r => (.ofChar c :: r.1, r.2)

/-! ### Escapes -/

/-- The characters that stand for one character behind a backslash. -/
def escapes : List (Char × Char) :=
  [('0', '\x00'), ('a', '\x07'), ('b', '\x08'), ('t', '\t'), ('\t', '\t'), ('n', '\n'),
   ('v', '\x0b'), ('f', '\x0c'), ('r', '\r'), ('e', '\x1b'), (' ', ' '), ('"', '"'),
   ('\\', '\\'), ('/', '/'), ('N', '\u0085'), ('_', '\u00a0'), ('L', '\u2028'),
   ('P', '\u2029')]

/-- How many hexadecimal digits follow the letter behind a backslash. -/
def escapeWidths : List (Char × Nat) := [('x', 2), ('u', 4), ('U', 8)]

/-- The value of a hexadecimal digit. -/
def hexValue? (c : Char) : Option Nat :=
  if '0' ≤ c && c ≤ '9' then some (c.toNat - 48)
  else if 'a' ≤ c && c ≤ 'f' then some (c.toNat - 87)
  else if 'A' ≤ c && c ≤ 'F' then some (c.toNat - 55)
  else none

/-- The end of the code space. -/
def codeEnd : Nat := 0x110000

/-- The end of the numbers that are tried as code points at all. -/
def codeNumberEnd : Nat := 0x80000000

/-- The symbol of the code that an escape asks for. -/
def escapedCode (code : Nat) : Except Refusal Symbol :=
  if codeNumberEnd ≤ code then .error .tooLarge
  else if codeEnd ≤ code then .error .noSuchCode
  else .ok (.ofCode code)

/-- Where a reader of double quotes stands. -/
inductive Escape where
  /-- not behind a backslash -/
  | outside
  /-- directly behind a backslash -/
  | begun
  /-- before so many hexadecimal digits, behind digits of this value -/
  | digits (left code : Nat)

/-- The atoms of a scalar in double quotes, from behind the opening quote, and the rest
behind the closing one.  What stands behind a backslash has to be an escape. -/
def doubleAtoms : Escape → List Char → Except Refusal (List Atom × List Char)
  | _, [] => .error .malformed
  | .outside, c :: rest =>
    if c == '"' then .ok ([], rest)
    else if c == '\\' then doubleAtoms .begun rest
    else if endsBeforeMarker c rest then .error .malformed
    else (doubleAtoms .outside rest).map fun r => (.ofChar c :: r.1, r.2)
  | .begun, c :: rest =>
    match escapes.lookup c, escapeWidths.lookup c with
    | some d, _ => (doubleAtoms .outside rest).map fun r => (.symbol (.char d) :: r.1, r.2)
    | none, some width => doubleAtoms (.digits width 0) rest
    | none, none =>
      if !isBreak c || opensWithMarker rest then .error .malformed
      else (doubleAtoms .outside rest).map fun r => (.continued :: r.1, r.2)
  | .digits left code, c :: rest =>
    match hexValue? c with
    | none => .error .malformed
    | some d =>
      if 1 < left then doubleAtoms (.digits (left - 1) (16 * code + d)) rest
      else
        match escapedCode (16 * code + d) with
        | .error refusal => .error refusal
        | .ok s => (doubleAtoms .outside rest).map fun r => (.symbol s :: r.1, r.2)

/-! ### Text -/

/-- Blanks and line ends between two symbols. -/
structure Gap where
  /-- the blanks, last one first -/
  blanks : List Char
  /-- what the line ends stand for, last one first -/
  ends : List Char
  /-- whether the gap starts behind an escaped line end -/
  continued : Bool

namespace Gap

def empty : Gap := ⟨[], [], false⟩

/-- What a gap leaves in the text: its blanks, or what its line ends fold to.  Behind an
escaped line end every further one stands for itself. -/
def text (g : Gap) : List Char :=
  if g.continued then g.ends.reverse
  else if g.ends.isEmpty then g.blanks.reverse
  else fold g.ends.reverse

/-- The symbols that a gap leaves in the text. -/
def symbols (g : Gap) : List Symbol := g.text.map .char

end Gap

/-- The text of atoms behind a gap. -/
def flatten : Gap → List Atom → List Symbol
  | g, [] => g.symbols
  | g, .symbol s :: rest => g.symbols ++ s :: flatten .empty rest
  | g, .blank c :: rest => flatten { g with blanks := c :: g.blanks } rest
  | g, .lineEnd mark :: rest => flatten { g with ends := mark :: g.ends } rest
  | g, .continued :: rest => g.symbols ++ flatten ⟨[], [], true⟩ rest

/-- The text of the scalar behind its opening quote, and the rest behind the closing
one. -/
def quotedText (quote : Char) (s : List Char) : Except Refusal (List Symbol × List Char) :=
  (if quote == '"' then doubleAtoms .outside s else singleAtoms s).map fun r =>
    (flatten .empty r.1, r.2)

end CronSchedule.Yaml
