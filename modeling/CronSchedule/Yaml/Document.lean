import CronSchedule.Yaml.Bracketed
import CronSchedule.Yaml.Lexer

/-!
# Documents

A document is a node in block notation: a map of one key on each line, a list of one
dash on each line, or anything that can stand in brackets.

Only a part of the notation is read.  A text with tags, anchors, aliases, block scalars or
directives is refused as if it broke the rules.

* `blockNode`, `blockMap`, `blockList` — the readers of block notation, from tokens;
* `document` — the tree of a text, which may hold one document only;
* `parse` — its value.
-/

namespace CronSchedule.Yaml

/-! ### Block notation -/

mutual

/-- The node in block notation with which the tokens start. -/
def blockNode : Nat → List Token → Except Refusal (Node × List Token)
  | steps + 1, .beginList :: ts => (blockList false steps ts).map fun r => (.list r.1, r.2)
  | steps + 1, .beginMap :: ts => (blockMap steps ts).map fun r => (.map r.1, r.2)
  | steps, ts => flowNode steps ts

/-- The items of a list.  One in the column of the key it belongs to ends without a token
of its own. -/
def blockList (underKey : Bool) : Nat → List Token → Except Refusal (List Node × List Token)
  | steps + 1, .dash :: ts =>
    let isLeftOut : Bool :=
      match ts with
      | .dash :: _ | .finish :: _ => true
      | .key :: _ | .colon :: _ => underKey
      | _ => false
    match if isLeftOut then .ok (nothing, ts) else blockNode steps ts with
    | .error refusal => .error refusal
    | .ok (item, rest) => (blockList underKey steps rest).map fun r => (item :: r.1, r.2)
  | _, ts =>
    if underKey then .ok ([], ts)
    else if ts.head? = some .finish then .ok ([], ts.tail)
    else .error (unexpected ts)

/-- The entries of a map. -/
def blockMap : Nat → List Token → Except Refusal (List (Node × Node) × List Token)
  | steps + 1, .key :: ts =>
    match blockPart steps ts with
    | .error refusal => .error refusal
    | .ok (k, rest) =>
      match blockValue steps rest with
      | .error refusal => .error refusal
      | .ok (v, rest) => (blockMap steps rest).map fun r => ((k, v) :: r.1, r.2)
  | _, ts => if ts.head? = some .finish then .ok ([], ts.tail) else .error (unexpected ts)

/-- The value of a key, left out where no colon stands. -/
def blockValue : Nat → List Token → Except Refusal (Node × List Token)
  | steps + 1, .colon :: ts => blockPart steps ts
  | _, ts => .ok (nothing, ts)

/-- A key or a value, which may be left out. -/
def blockPart : Nat → List Token → Except Refusal (Node × List Token)
  | 0, ts => .error (unexpected ts)
  | steps + 1, ts =>
    match ts with
    | .key :: _ | .colon :: _ | .finish :: _ => .ok (nothing, ts)
    | .dash :: _ => (blockList true steps ts).map fun r => (.list r.1, r.2)
    | _ => blockNode steps ts

end

/-! ### Whole texts -/

/-- Whether a text may hold the character. -/
def isAllowed (c : Char) : Bool :=
  let n := c.toNat
  n == 0x09 || n == 0x0A || n == 0x0D || (0x20 ≤ n && n ≤ 0x7E) || n == 0x85 ||
    (0xA0 ≤ n && n ≤ 0xD7FF) || (0xE000 ≤ n && n ≤ 0xFFFD) || 0x10000 ≤ n

/-- The node of the first document, and the tokens behind it. -/
def firstDocument (ts : List Token) : Except Refusal (Node × List Token) :=
  let steps := 4 * ts.length + 4
  match ts with
  | [] | [.newDocument] => .ok (nothing, [])
  | .newDocument :: .newDocument :: rest => .ok (nothing, .newDocument :: rest)
  | .newDocument :: .endOfDocument :: rest => .ok (nothing, .endOfDocument :: rest)
  | .newDocument :: rest => blockNode steps rest
  | ts => blockNode steps ts

/-- The tree of a text, which may hold one document only. -/
def document (s : List Char) : Except Refusal Node :=
  if s.all isAllowed then
    match firstDocument (tokens s) with
    | .error refusal => .error refusal
    | .ok (node, rest) =>
      match rest.dropWhile (· = .endOfDocument) with
      | [] => .ok node
      | rest => .error (unexpected rest)
  else .error .malformed

/-- The value of a text. -/
def parse (s : List Char) : Except Refusal Value :=
  match document s with
  | .ok node => node.value
  | .error refusal => .error refusal

end CronSchedule.Yaml
