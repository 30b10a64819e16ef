import CronSchedule.Yaml.Token

/-!
# From a text to its tokens

What may be a key is known as one only at its colon, and the start of a collection in
block notation only at its first key.  A token that may turn out to start a key is kept
as a candidate, and until that is settled the tokens from it on are not given out.

* `Candidate` — a token that may turn out to start a key;
* `Lexer` — the tokens read so far and what the next ones depend on;
* `Lexer.token` — the tokens at the next mark or scalar;
* `tokens` — the tokens of a text, as far as they are given out before something that
  cannot be read, and that.

A candidate is settled by a colon, by another token that leaves it no colon, or by the
end of its line.  The first key on a line of a map in block notation has to be one.
-/

namespace CronSchedule.Yaml

/-! ### Candidates -/

/-- The most characters between the start of a key and its colon. -/
def keyLimit : Nat := 1024

/-- A token that may turn out to start a key. -/
structure Candidate where
  /-- how many brackets are open around it -/
  depth : Nat
  /-- how many tokens stand before it -/
  index : Nat
  place : Place
  /-- whether nothing but a key can stand there -/
  required : Bool

/-- Whether a colon at a place can still make the candidate a key. -/
def Candidate.isLive (c : Candidate) (p : Place) : Bool :=
  c.place.line == p.line && p.offset ≤ c.place.offset + keyLimit

/-! ### Lexers -/

/-- A lexer part of the way through a text. -/
structure Lexer where
  place : Place
  /-- how many brackets are open -/
  depth : Nat := 0
  /-- the columns of the open collections in block notation, the innermost first -/
  columns : List Nat := []
  /-- whether a key may start here -/
  keyAllowed : Bool := true
  candidates : List Candidate := []
  /-- the tokens so far, the last one first -/
  tokens : List Token := []

namespace Lexer

/-- Whether brackets are open. -/
def inBrackets (l : Lexer) : Bool := l.depth != 0

/-- The column from which on a scalar goes on. -/
def indent (l : Lexer) : Nat :=
  match l.columns with
  | column :: _ => column + 1
  | [] => 0

/-- The lexer behind a token of so many characters. -/
def mark (l : Lexer) (t : Token) (width : Nat) : Lexer :=
  { l with place := l.place.drop width, tokens := t :: l.tokens }

/-! ### Columns -/

/-- The lexer with those collections in block notation ended whose columns are given up.
None ends in brackets. -/
def close (l : Lexer) (isGivenUp : Nat → Bool) : Lexer :=
  if l.inBrackets then l
  else
    { l with
      columns := l.columns.dropWhile isGivenUp
      tokens := (l.columns.takeWhile isGivenUp).map (fun _ => .finish) ++ l.tokens }

/-- Whether a collection in block notation that starts in the column is a new one. -/
def isNew (l : Lexer) (column : Nat) : Bool :=
  match l.columns with
  | current :: _ => current < column
  | [] => true

/-- The lexer inside a collection in block notation that has an entry here. -/
def enter (l : Lexer) (start : Token) : Except Refusal Lexer :=
  if !l.keyAllowed then .error .malformed
  else if l.isNew l.place.column then
    .ok { l with columns := l.place.column :: l.columns, tokens := start :: l.tokens }
  else .ok l

/-! ### Candidates among the tokens -/

/-- The lexer without the candidates that can be no keys any more, none of which may have
to be one. -/
def drop (l : Lexer) (isLost : Candidate → Bool) : Except Refusal Lexer :=
  if l.candidates.any fun c => isLost c && c.required then .error .malformed
  else .ok { l with candidates := l.candidates.filter fun c => !isLost c }

/-- The lexer without a candidate between the innermost brackets. -/
def dropInnermost (l : Lexer) : Except Refusal Lexer := l.drop fun c => c.depth == l.depth

/-- The lexer with the next token as a candidate, where a key may start. -/
def propose (l : Lexer) : Except Refusal Lexer :=
  if l.keyAllowed then do
    let l ← l.dropInnermost
    let required := !l.inBrackets && l.columns.head? == some l.place.column
    return { l with candidates := ⟨l.depth, l.tokens.length, l.place, required⟩ :: l.candidates }
  else .ok l

/-- The lexer in which a candidate has turned out to start a key. -/
def confirm (l : Lexer) (c : Candidate) : Lexer :=
  let opens := !l.inBrackets && l.isNew c.place.column
  let behind := l.tokens.length - c.index
  { l with
    columns := if opens then c.place.column :: l.columns else l.columns
    candidates := l.candidates.filter fun d => d.depth != c.depth
    keyAllowed := false
    tokens := l.tokens.take behind ++ .key :: (if opens then [.beginMap] else []) ++
      l.tokens.drop behind }

/-! ### Marks and scalars -/

/-- The lexer behind an opening bracket. -/
def openBracket (l : Lexer) (t : Token) : Except Refusal Lexer := do
  let l ← l.propose
  return { l.mark t 1 with depth := l.depth + 1, keyAllowed := true }

/-- The lexer behind a closing bracket. -/
def closeBracket (l : Lexer) (t : Token) : Except Refusal Lexer := do
  let l ← l.dropInnermost
  if !l.inBrackets then throw .malformed
  return { l.mark t 1 with depth := l.depth - 1, keyAllowed := false }

/-- The lexer behind a comma. -/
def comma (l : Lexer) : Except Refusal Lexer := do
  let l ← l.dropInnermost
  return { l.mark .comma 1 with keyAllowed := true }

/-- The lexer behind the mark of a list item. -/
def dash (l : Lexer) : Except Refusal Lexer := do
  let l ← if l.inBrackets then pure l else l.enter .beginList
  let l ← l.dropInnermost
  return { l.mark .dash 1 with keyAllowed := true }

/-- The lexer behind the mark of a key. -/
def key (l : Lexer) : Except Refusal Lexer := do
  let l ← if l.inBrackets then pure l else l.enter .beginMap
  let l ← l.dropInnermost
  return { l.mark .key 1 with keyAllowed := !l.inBrackets }

/-- The lexer behind a colon: of the candidate between the innermost brackets, or else of
a key that is left out or marked. -/
def colon (l : Lexer) : Except Refusal Lexer := do
  match l.candidates.find? fun c => c.depth == l.depth with
  | some c => return (l.confirm c).mark .colon 1
  | none =>
    let l ← if l.inBrackets then pure l else l.enter .beginMap
    return { l.mark .colon 1 with keyAllowed := !l.inBrackets }

/-- The lexer behind the mark of a new or of an ended document. -/
def documentMark (l : Lexer) : Except Refusal Lexer := do
  let l ← (l.close fun _ => true).dropInnermost
  let t := if l.place.rest.head? == some '-' then Token.newDocument else .endOfDocument
  return { l.mark t 3 with keyAllowed := false }

/-- The lexer behind a scalar in quotes. -/
def quoted (l : Lexer) (quote : Char) : Except Refusal Lexer := do
  let l ← l.propose
  let (t, next) ← quotedScalar quote l.place
  return { l with place := next, tokens := t :: l.tokens, keyAllowed := false }

/-- The lexer behind a scalar without quotes. -/
def plain (l : Lexer) : Except Refusal Lexer := do
  let (t, next, crossed) ← plainScalar l.inBrackets l.indent l.place
  let l ← l.propose
  return { l with place := next, tokens := t :: l.tokens, keyAllowed := crossed }

/-! ### Reading on -/

/-- The lexer behind the gap before the next token. -/
def skipGap (l : Lexer) : Except Refusal Lexer := do
  let next := l.place.skipGap
  let crossed := l.place.line != next.line
  let l := { l with place := next, keyAllowed := l.keyAllowed || (crossed && !l.inBrackets) }
  let l ← l.drop fun c => !c.isLive next
  return l.close fun column => next.column < column

/-- The lexer behind the mark or the scalar that stands here. -/
def token (l : Lexer) : Except Refusal Lexer :=
  match l.place.rest with
  | [] => .error .malformed
  | c :: rest =>
    let isMark := endsToken rest
    if l.place.isMarker then l.documentMark
    else if c == '[' then l.openBracket .openList
    else if c == '\x7b' then l.openBracket .openMap
    else if c == ']' then l.closeBracket .closeList
    else if c == '\x7d' then l.closeBracket .closeMap
    else if c == ',' then l.comma
    else if c == '-' && isMark then l.dash
    else if c == '?' && (l.inBrackets || isMark) then l.key
    else if c == ':' && (l.inBrackets || isMark) then l.colon
    else if c == '"' || c == '\'' then l.quoted c
    else l.plain

/-- The lexer at the end of the text. -/
def finish (l : Lexer) : Except Refusal Lexer := (l.close fun _ => true).dropInnermost

/-- The tokens that are given out before the text cannot be read further. -/
def cut (l : Lexer) (refusal : Refusal) : List Token :=
  let unsettled := l.candidates.filter fun c => c.isLive l.place
  let settled := unsettled.foldl (fun n c => min n c.index) l.tokens.length
  l.tokens.reverse.take settled ++ [.unreadable refusal]

/-- The tokens of the text, by at most so many further marks and scalars. -/
def run : Nat → Lexer → List Token
  | 0, l => l.cut .malformed
  | steps + 1, l =>
    match l.skipGap with
    | .error refusal => l.cut refusal
    | .ok next =>
      if next.place.rest.isEmpty then
        match next.finish with
        | .error refusal => l.cut refusal
        | .ok last => last.tokens.reverse
      else
        match next.token with
        | .error refusal => l.cut refusal
        | .ok next => run steps next

end Lexer

/-- The tokens of a text. -/
def tokens (s : List Char) : List Token :=
  let start : Place := { rest := s }
  let isMarked := s.head?.any fun c => c.toNat == 0xFEFF
  Lexer.run (s.length + 1) { place := if isMarked then start.advance else start }

end CronSchedule.Yaml
