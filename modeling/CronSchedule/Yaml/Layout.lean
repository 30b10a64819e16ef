/-!
# Places in a text, and the gaps between its tokens

A place is the rest of the text, with the line and the column at which it starts.

* `Place.skipGap` — over spaces, comments and line ends to the next token;
* `Place.isMarker` — whether a line of dashes or dots stands here, which ends a document;
* `fold` — what ended lines stand for inside a scalar.
-/

namespace CronSchedule.Yaml

def isBreak (c : Char) : Bool :=
  c == '\n' || c == '\r' || c.toNat == 0x85 || c.toNat == 0x2028 || c.toNat == 0x2029

/-- Whether nothing, a blank or a line end comes next. -/
def endsToken : List Char → Bool
  | [] => true
  | c :: _ => c == ' ' || c == '\t' || isBreak c

/-! ### Places -/

/-- A place in a text. -/
structure Place where
  rest : List Char
  /-- how many characters stand before it -/
  offset : Nat := 0
  /-- how many lines end before it -/
  line : Nat := 0
  column : Nat := 0

namespace Place

/-- The place behind the character that stands here.  A byte order mark has no width. -/
def advance (p : Place) : Place :=
  match p.rest with
  | [] => p
  | c :: rest =>
    if isBreak c then ⟨rest, p.offset + 1, p.line + 1, 0⟩
    else ⟨rest, p.offset + 1, p.line, if c.toNat == 0xFEFF then p.column else p.column + 1⟩

/-- The place a number of characters further on. -/
def drop : Nat → Place → Place
  | 0, p => p
  | n + 1, p => drop n p.advance

/-- The place at which `rest` is left. -/
def before (p : Place) (rest : List Char) : Place := p.drop (p.rest.length - rest.length)

/-- The end of the gap that goes on with these characters, from inside a comment or not. -/
def gapEnd : List Char → Bool → Place → Place
  | [], _, p => p
  | c :: rest, comment, p =>
    if isBreak c then gapEnd rest false p.advance
    else if comment || c == ' ' then gapEnd rest comment p.advance
    else if c == '#' then gapEnd rest true p.advance
    else p

/-- The place of the next token. -/
def skipGap (p : Place) : Place := gapEnd p.rest false p

/-- Whether the mark of a new or of an ended document stands here. -/
def isMarker (p : Place) : Bool :=
  p.column == 0 &&
    match p.rest with
    | '-' :: '-' :: '-' :: rest => endsToken rest
    | '.' :: '.' :: '.' :: rest => endsToken rest
    | _ => false

/-- Whether the document ends here. -/
def atEnd (p : Place) : Bool := p.rest.isEmpty || p.isMarker

end Place

/-! ### Line ends inside scalars -/

/-- What a line end stands for in a scalar: the separators of lines and of paragraphs for
themselves, every other one for a line feed. -/
def lineMark (c : Char) : Char :=
  if c.toNat == 0x2028 || c.toNat == 0x2029 then c else '\n'

/-- What stands for ended lines between two parts of a scalar.  A single line feed is a
space, and of several the first is dropped; a separator of lines or paragraphs stays. -/
def fold : List Char → List Char
  | ['\n'] => [' ']
  | '\n' :: ends => ends
  | ends => ends

end CronSchedule.Yaml
