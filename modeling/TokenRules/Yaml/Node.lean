import TokenRules.Yaml.Event

/-!
# Documents as trees of nodes

A document is the tree of its nodes, before any scalar is given a value. Where the text of a
document stops being well formed its tree is `cut`, so that what comes before can still be read in
order. An alias stands for the node of its anchor; anchors are numbered as their names come up.
-/

namespace TokenRules.Yaml

inductive Node
  | scalar (tag : Option String) (text : String) (plain : Bool)
  | sequence (tag : Option String) (items : List Node)
  | mapping (tag : Option String) (entries : List (Node × Node))
  /-- A node that aliases may refer to by a number. -/
  | anchored (number : Nat) (node : Node)
  | alias (number : Nat)
  | cut
  deriving Inhabited

/-- A collection whose end has not been reached: what is in it already, last first. -/
inductive OpenNode
  | sequence (tag : Option String) (number : Option Nat) (items : List Node)
  | mapping (tag : Option String) (number : Option Nat) (entries : List (Node × Node))
      (key : Option Node)

namespace Node

def isAlias : Node → Bool
  | .alias _ => true
  | _ => false

/-- A node with the number of its anchor, if it has one. -/
def withNumber (node : Node) : Option Nat → Node
  | none => node
  | some number => .anchored number node

end Node

namespace OpenNode

/-- The collection with one more node. -/
def add (node : Node) : OpenNode → OpenNode
  | .sequence tag number items => .sequence tag number (node :: items)
  | .mapping tag number entries none => .mapping tag number entries (some node)
  | .mapping tag number entries (some key) => .mapping tag number ((key, node) :: entries) none

/-- The collection as it is, closed. -/
def close : OpenNode → Node
  | .sequence tag number items => (Node.sequence tag items.reverse).withNumber number
  | .mapping tag number entries _ => (Node.mapping tag entries.reverse).withNumber number

/-- The collection with the cut in it: in place of an item, of a value or of a whole entry. -/
def closeCut (node : Node) : OpenNode → Node
  | .sequence tag number items => (OpenNode.sequence tag number (node :: items)).close
  | .mapping tag number entries none =>
    (OpenNode.mapping tag number ((node, .cut) :: entries) none).close
  | .mapping tag number entries (some key) =>
    (OpenNode.mapping tag number ((key, node) :: entries) none).close

end OpenNode

/-- A tree in the making. -/
structure Builder where
  /-- Open collections, innermost first. -/
  opened : List OpenNode
  root : Option Node
  /-- Names of anchors and their numbers, the last one of a name in front. -/
  anchors : List (String × Nat)
  /-- Number of nodes and ends of nodes so far. -/
  count : Nat
  failed : Bool

namespace Builder

def start : Builder := ⟨[], none, [], 0, false⟩

/-- Put a complete node where it belongs. -/
def place (b : Builder) (node : Node) : Builder :=
  match b.opened with
  | [] => { b with root := some node }
  | collection :: opened => { b with opened := collection.add node :: opened }

/-- Number the anchor of a node: by how many names there are. -/
def number (b : Builder) : Option String → Option Nat × Builder
  | none => (none, b)
  | some name =>
    let number := (b.anchors.map (·.1)).eraseDups.length
    (some number, { b with anchors := (name, number) :: b.anchors })

/-- Take one event of the document into account. -/
def add (b : Builder) (event : Event) : Builder :=
  if b.failed then b
  else
    let b := { b with count := b.count + 1 }
    match event with
    | .alias name =>
      match b.anchors.lookup name with
      | some number => b.place (.alias number)
      | none => { b with failed := true }
    | .scalar properties text plain =>
      let (number, b) := b.number properties.anchor
      b.place ((Node.scalar properties.tag text plain).withNumber number)
    | .sequenceStart properties =>
      let (number, b) := b.number properties.anchor
      { b with opened := .sequence properties.tag number [] :: b.opened }
    | .mappingStart properties =>
      let (number, b) := b.number properties.anchor
      { b with opened := .mapping properties.tag number [] none :: b.opened }
    | .sequenceEnd | .mappingEnd =>
      match b.opened with
      | [] => b
      | collection :: opened => { b with opened }.place collection.close
    | .documentStart | .documentEnd | .streamEnd => b

/-- The tree; a cut runs through all collections that are still open. -/
def finish (b : Builder) : Node :=
  match b.opened, b.root with
  | [], some root => root
  | opened, _ => opened.foldl (fun node collection => collection.closeCut node) .cut

end Builder

/-- A document. An empty stream has one that has no nodes at all. -/
structure Document where
  root : Option Node
  /-- Whether the text is well formed up to the end of the document. -/
  complete : Bool
  /-- A measure of the document's size, in nodes and ends of nodes. -/
  size : Nat

namespace Document

/-- Close a document with the events it has. -/
def ofBuilder (b : Builder) (complete : Bool) : Document :=
  ⟨some b.finish, complete && !b.failed, b.count⟩

/-- Split events into documents. -/
def split : List Event → Bool → Builder → List Document
  | [], _, b => [ofBuilder b false]
  | event :: rest, first, b =>
    match event with
    | .documentEnd => ofBuilder b true :: split rest false .start
    | .streamEnd => if first then [⟨none, true, 1⟩] else []
    | event => split rest first (b.add event)

/-- The documents of a text. If the text is not well formed, the last one is incomplete. -/
def ofText (text : String) : List Document :=
  split (Event.ofTokens (Token.ofText text)) true .start

end Document

namespace Node

mutual

/-- The numbered nodes of a tree in the order of their beginnings. -/
def numbered : Node → List (Nat × Node)
  | .scalar _ _ _ => []
  | .sequence _ items => numberedItems items
  | .mapping _ entries => numberedEntries entries
  | .anchored number node => (number, node) :: node.numbered
  | .alias _ => []
  | .cut => []

def numberedItems : List Node → List (Nat × Node)
  | [] => []
  | node :: rest => node.numbered ++ numberedItems rest

def numberedEntries : List (Node × Node) → List (Nat × Node)
  | [] => []
  | (key, value) :: rest => key.numbered ++ value.numbered ++ numberedEntries rest

end

end Node

end TokenRules.Yaml
