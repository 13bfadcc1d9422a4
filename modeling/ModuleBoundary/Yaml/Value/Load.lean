/-
The value of a document.

Aliases are followed in two steps.  `Linked.ofNode` reads a node in document order
and gives every anchor a number, which is the count of the names known before it;
an alias stands for the number that its name has at that point.  `Linked.load` then
replaces each number by the last node that got it.  Collections nest at most 128
deep, and at most a hundred aliases for each event of the document are followed, so
that an alias of its own collection ends in an error.
-/
import ModuleBoundary.Yaml.Node
import ModuleBoundary.Yaml.Value.Plain

namespace ModuleBoundary
namespace Yaml

inductive Linked
  | alias (id : Nat)
  | scalar (tag : Option Bytes) (text : Text) (plain : Bool)
  | sequence (tag : Option Bytes) (items : List Linked)
  | mapping (tag : Option Bytes) (entries : List (Linked × Linked))
  deriving Repr, Inhabited

namespace Linked

abbrev Names := List (Text × Nat)

abbrev Anchored := List (Nat × Linked)

/-- The number of a new anchor; a name that is used again gets a new number. -/
def declare (name : Text) (names : Names) : Nat × Names :=
  (names.length,
    if (names.lookup name).isSome then names.map fun e => if e.1 = name then (name, names.length) else e
    else names ++ [(name, names.length)])

def declareProps (p : Props) : StateT Names Option (Option Nat) := fun names =>
  match p.anchor with
  | none => some (none, names)
  | some a => let (id, names) := declare a names; some (some id, names)

def anchored (id : Option Nat) (node : Linked) (below : Anchored) : Linked × Anchored :=
  (node, (id.map fun id => (id, node)).toList ++ below)

mutual

/-- The node with numbers for aliases, and the anchored nodes in it.  An alias of an
unknown name is an error. -/
def ofNode : Node → StateT Names Option (Linked × Anchored)
  | .alias name => do return (.alias (← (← get).lookup name), [])
  | .scalar p text plain => do return anchored (← declareProps p) (.scalar p.tag text plain) []
  | .sequence p items => do
    let id ← declareProps p
    let (items, below) ← ofItems items
    return anchored id (.sequence p.tag items) below
  | .mapping p entries => do
    let id ← declareProps p
    let (entries, below) ← ofEntries entries
    return anchored id (.mapping p.tag entries) below

def ofItems : List Node → StateT Names Option (List Linked × Anchored)
  | [] => return ([], [])
  | n :: rest => do
    let (n, a) ← ofNode n
    let (rest, b) ← ofItems rest
    return (n :: rest, a ++ b)

def ofEntries : List (Node × Node) → StateT Names Option (List (Linked × Linked) × Anchored)
  | [] => return ([], [])
  | (k, v) :: rest => do
    let (k, a) ← ofNode k
    let (v, b) ← ofNode v
    let (rest, c) ← ofEntries rest
    return ((k, v) :: rest, a ++ (b ++ c))

end

mutual

/-- How many events a node is: one for a scalar or an alias, and a start and an end
for a collection. -/
def events : Linked → Nat
  | .alias _ => 1
  | .scalar _ _ _ => 1
  | .sequence _ items => itemEvents items + 2
  | .mapping _ entries => entryEvents entries + 2

def itemEvents : List Linked → Nat
  | [] => 0
  | n :: rest => events n + itemEvents rest

def entryEvents : List (Linked × Linked) → Nat
  | [] => 0
  | (k, v) :: rest => events k + events v + entryEvents rest

end

/-- The text without the exclamation mark that leads it, unless nothing would be left. -/
def unmarked : Text → Text
  | '!' :: c :: s => c :: s
  | s => s

/-- The tag that stays with a value: the text behind an exclamation mark, and the lone
mark itself.  A second mark does not tell tags apart.  Bytes that are no text are
dropped like every tag that does not start with the mark. -/
def ownTag? (tag : Bytes) : Option Text :=
  match Utf8.decode? tag with
  | some ('!' :: s) => some (unmarked (unmarked ('!' :: s)))
  | _ => none

def withTag (tag : Option Bytes) (v : Value) : Value :=
  match tag.bind ownTag? with
  | some t => .tagged t v
  | none => v

/-- The value of a scalar.  A tag that starts with an exclamation mark does not say
what the scalar means; every other tag does. -/
def scalarValue? (tag : Option Bytes) (text : Text) (plain : Bool) : Option Value :=
  let untagged := if plain then Plain.value? text else some (.string text)
  match tag with
  | none => untagged
  | some t =>
    if t.head? = some 0x21 then untagged.map (withTag tag)
    else Plain.forced? ((Utf8.decode? t).getD []) text

/-- Adds an entry behind the others; no key may come twice. -/
def addEntry (entries : List (Value × Value)) (k v : Value) : Option (List (Value × Value)) :=
  if entries.any fun e => e.1.same k then none else some (entries ++ [(k, v)])

/-- Follows an alias.  The state is the number of aliases that may still be followed. -/
def follow (anchored : Anchored) : Linked → StateT Nat Option Linked
  | .alias id => fun left =>
    if left = 0 then none else (anchored.reverse.lookup id).map fun n => (n, left - 1)
  | n => pure n

/-- The value of a node in which collections nest at most `depth` deep. -/
def load (anchored : Anchored) (depth : Nat) (n : Linked) : StateT Nat Option Value := do
  match ← follow anchored n with
  | .alias _ => failure
  | .scalar tag text plain => StateT.lift (scalarValue? tag text plain)
  | .sequence tag items =>
    match depth with
    | 0 => failure
    | depth + 1 => do
      let items ← items.mapM (load anchored depth)
      return withTag tag (.sequence items)
  | .mapping tag entries =>
    match depth with
    | 0 => failure
    | depth + 1 => do
      let entries ← entries.foldlM (fun done e => do
        let k ← load anchored depth e.1
        let v ← load anchored depth e.2
        StateT.lift (addEntry done k v)) []
      return withTag tag (.mapping entries)

def maxDepth : Nat := 128

end Linked

def Value.ofText? (s : Text) : Option Value := do
  let node ← Node.ofText? s
  let ((linked, anchored), _) ← (Linked.ofNode node).run []
  let (v, _) ← (linked.load anchored Linked.maxDepth).run (100 * linked.events)
  some v

end Yaml
end ModuleBoundary
