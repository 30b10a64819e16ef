import CronSchedule.Yaml.PlainScalar
import CronSchedule.Yaml.QuotedScalar

/-!
# Tokens

The tokens of a text in reading order: scalars, marks, and what the columns say about
collections in block notation.

* `Token` — one token, `Token.unreadable` — the end of what can be read;
* `unexpected` — what is wrong when the next token does not fit;
* `plainScalar`, `quotedScalar` — scalars as tokens.
-/

namespace CronSchedule.Yaml

open Text (Symbol)

/-- A token. -/
inductive Token where
  /-- a scalar without quotes -/
  | plain (s : List Char)
  /-- a scalar in quotes -/
  | quoted (s : List Symbol)
  | openList
  | closeList
  | openMap
  | closeMap
  | comma
  /-- the mark of a list item in block notation -/
  | dash
  /-- a key starts here -/
  | key
  /-- the value of a key starts here -/
  | colon
  /-- a list in block notation starts here -/
  | beginList
  /-- a map in block notation starts here -/
  | beginMap
  /-- a collection in block notation ends here -/
  | finish
  | newDocument
  | endOfDocument
  /-- the text cannot be read further -/
  | unreadable (refusal : Refusal)
deriving DecidableEq, Repr

/-- What is wrong when the tokens do not go on as they have to. -/
def unexpected : List Token → Refusal
  | .unreadable refusal :: _ => refusal
  | _ => .malformed

/-! ### Scalars -/

/-- The scalar without quotes at a place, the place of what follows it, and whether a line
ended on the way there. -/
def plainScalar (flow : Bool) (indent : Nat) (p : Place) : Except Refusal (Token × Place × Bool) :=
  if startsPlain flow p.rest then
    let (text, next, crossed) := plainText flow indent p.rest.length p
    .ok (.plain text, next, crossed)
  else .error .malformed

/-- The scalar in quotes at a place, and the place behind it. -/
def quotedScalar (quote : Char) (p : Place) : Except Refusal (Token × Place) :=
  (quotedText quote (p.rest.drop 1)).map fun r => (.quoted r.1, p.before r.2)

end CronSchedule.Yaml
