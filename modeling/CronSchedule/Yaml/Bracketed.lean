import CronSchedule.Yaml.Node
import CronSchedule.Yaml.Token

/-!
# Collections in brackets

The nodes that can stand in brackets, read from tokens: scalars, and lists and maps
between brackets.  In a list, a key with its value is a map of its own; in a map, a node
without a value is a key of nothing.

* `flowNode` — a node, and the tokens behind it;
* `flowEntries`, `flowEntry` — the entries of a collection, and one of them.

The readers recurse on a bound for the number of steps; every step but the last takes a
token.
-/

namespace CronSchedule.Yaml

/-- The node of what is left out. -/
def nothing : Node := .plain []

/-- The list of entries; a key with its value is a map of its own. -/
def listOf (es : List (Node × Option Node)) : Node :=
  .list (es.map fun e =>
    match e with
    | (n, none) => n
    | (k, some v) => .map [(k, v)])

/-- The map of entries; a node without a value is a key of nothing. -/
def mapOf (es : List (Node × Option Node)) : Node :=
  .map (es.map fun e => (e.1, e.2.getD nothing))

mutual

/-- The node inside brackets with which the tokens start. -/
def flowNode : Nat → List Token → Except Refusal (Node × List Token)
  | _, .plain s :: ts => .ok (.plain s, ts)
  | _, .quoted s :: ts => .ok (.quoted s, ts)
  | steps + 1, .openList :: ts => (flowEntries .closeList steps ts).map fun r => (listOf r.1, r.2)
  | steps + 1, .openMap :: ts => (flowEntries .closeMap steps ts).map fun r => (mapOf r.1, r.2)
  | _, ts => .error (unexpected ts)

/-- The entries of a collection up to its closing bracket. -/
def flowEntries (close : Token) :
    Nat → List Token → Except Refusal (List (Node × Option Node) × List Token)
  | 0, ts => .error (unexpected ts)
  | steps + 1, ts =>
    if ts.head? = some close then .ok ([], ts.tail)
    else
      match flowEntry close steps ts with
      | .error refusal => .error refusal
      | .ok (e, rest) =>
        if rest.head? = some .comma then
          (flowEntries close steps rest.tail).map fun r => (e :: r.1, r.2)
        else if rest.head? = some close then .ok ([e], rest.tail)
        else .error (unexpected rest)

/-- One entry of a collection: a node, and behind a key its value. -/
def flowEntry (close : Token) :
    Nat → List Token → Except Refusal ((Node × Option Node) × List Token)
  | 0, ts => .error (unexpected ts)
  | steps + 1, .key :: ts =>
    match flowPart [.colon, .comma, close] steps ts with
    | .error refusal => .error refusal
    | .ok (k, .colon :: rest) =>
      (flowPart [.comma, close] steps rest).map fun r => ((k, some r.1), r.2)
    | .ok (k, rest) => .ok ((k, some nothing), rest)
  | steps + 1, ts => (flowNode steps ts).map fun r => ((r.1, none), r.2)

/-- A key or a value, left out before one of these tokens. -/
def flowPart (ends : List Token) : Nat → List Token → Except Refusal (Node × List Token)
  | 0, ts => .error (unexpected ts)
  | steps + 1, ts =>
    if ts.head?.any ends.contains then .ok (nothing, ts) else flowNode steps ts

end

end CronSchedule.Yaml
