import CronSchedule.Settings.Entries
import CronSchedule.Yaml.QuotedScalar

/-!
# Documents before their scalars have types

A document is a tree of scalars, lists and maps.  Its value gives every plain scalar the
type of its spelling, and keeps for every key of a map the place where the key first
stands and the value given last.

* `Node.unmerged` — the tree with the entries of merged maps put in front of the entries
  of the map they are merged into;
* `Node.value` — the value of a tree.  A list or a map is refused as a key.

When several scalars have no value, the refusal of the one nearest to the root counts,
and of those equally near the first.
-/

namespace CronSchedule.Yaml

open Text (Symbol)

/-- A document. -/
inductive Node where
  /-- a scalar without quotes -/
  | plain (s : List Char)
  /-- a scalar in quotes -/
  | quoted (s : List Symbol)
  | list (items : List Node)
  | map (entries : List (Node × Node))
  /-- a map into which something is to be merged that is no map -/
  | unmergeable

namespace Node

/-! ### Merged maps -/

/-- Whether the node, as a key, asks for a merge. -/
def isMerge : Node → Bool
  | plain s => s == mergeWord.toList
  | _ => false

/-- The node as a key: the scalar that has a value as a key only is a text there. -/
def asKey : Node → Node
  | plain s => if s = valueWord.toList then quoted (s.map .char) else plain s
  | n => n

/-- The entries of a map. -/
def entries? : Node → Option (List (Node × Node))
  | map entries => some entries
  | _ => none

/-- The entries that a map, or a list of maps, lends to the map it is merged into.  Of a
list, the first map counts most and stands last. -/
def lent? : Node → Option (List (Node × Node))
  | map entries => some entries
  | list items => do
    let lent ← items.mapM entries?
    return lent.reverse.flatten
  | _ => none

mutual

/-- The tree with its merges carried out. -/
def unmerged : Node → Node
  | list items => list (unmergedItems items)
  | map entries =>
    match unmergedEntries entries with
    | some (lent, own) => map (lent ++ own)
    | none => unmergeable
  | n => n

/-- The trees of a list with their merges carried out. -/
def unmergedItems : List Node → List Node
  | [] => []
  | n :: ns => unmerged n :: unmergedItems ns

/-- The entries lent to a map, and its own entries; none when something is to be merged
that is no map. -/
def unmergedEntries : List (Node × Node) → Option (List (Node × Node) × List (Node × Node))
  | [] => some ([], [])
  | (k, n) :: rest =>
    match unmergedEntries rest with
    | none => none
    | some (lent, own) =>
      if k.isMerge then (unmerged n).lent?.map fun es => (es ++ lent, own)
      else some (lent, (k.asKey, unmerged n) :: own)

end

end Node

/-! ### Values -/

instance : BEq Value := ⟨Value.sameKey⟩

/-- A refusal, and how far below the root its reason stands. -/
structure DeepRefusal where
  depth : Nat
  refusal : Refusal

/-- Both results, or the refusal nearer to the root, the first of two equally near. -/
def both {α β : Type} (a : Except DeepRefusal α) (b : Except DeepRefusal β) :
    Except DeepRefusal (α × β) :=
  match a, b with
  | .ok x, .ok y => .ok (x, y)
  | .error e, .ok _ => .error e
  | .ok _, .error e => .error e
  | .error e, .error f => .error (if e.depth ≤ f.depth then e else f)

namespace Node

/-- What is refused in a list or a map stands one step further down. -/
def lowered {α : Type} (n : Node) (r : Except DeepRefusal α) : Except DeepRefusal α :=
  match n with
  | plain _ | quoted _ => r
  | _ => r.mapError fun e => { e with depth := e.depth + 1 }

mutual

/-- The value of a tree without merges. -/
def deepValue : Node → Except DeepRefusal Value
  | plain s => (resolve s).mapError (⟨0, ·⟩)
  | quoted s => .ok (.ofSymbols s)
  | list items => (itemValues items).map .list
  | map entries => (entryValues entries).map fun pairs => .map (Entries.ofList pairs)
  | unmergeable => .error ⟨0, .malformed⟩

/-- The values of the items of a list. -/
def itemValues : List Node → Except DeepRefusal (List Value)
  | [] => .ok []
  | n :: ns => (both (n.lowered (deepValue n)) (itemValues ns)).map fun r => r.1 :: r.2

/-- The values of the entries of a map. -/
def entryValues : List (Node × Node) → Except DeepRefusal (List (Value × Value))
  | [] => .ok []
  | (k, n) :: rest =>
    let key :=
      match k with
      | plain _ | quoted _ => deepValue k
      | _ => .error ⟨0, .malformed⟩
    (both (both key (n.lowered (deepValue n))) (entryValues rest)).map fun r => r.1 :: r.2

end

/-- The value of a tree. -/
def value (n : Node) : Except Refusal Value := n.unmerged.deepValue.mapError DeepRefusal.refusal

end Node

end CronSchedule.Yaml
