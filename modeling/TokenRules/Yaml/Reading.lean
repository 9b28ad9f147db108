import TokenRules.Yaml.Node
import TokenRules.Yaml.Scalar

/-!
# From documents to values

Reading a document gives each scalar its value and puts the node of an anchor in place of each
alias. Documents are refused that nest too deeply, have a key twice in a mapping, or use aliases
out of all proportion to their size.
-/

namespace TokenRules.Yaml

/-- Why a text is not read as a value. -/
inductive Fault
  | malformed
  | tooManyAliases
  | severalDocuments
  deriving DecidableEq

/-- Whether the fault is at a position in the text. -/
def Fault.isLocated : Fault → Bool
  | .malformed => true
  | _ => false

/-- Collections may be nested this deep. -/
def maxDepth : Nat := 128

/-- Reading of a part of a document: a count of the aliases followed goes through it. -/
abbrev Reader := StateT Nat (Except Fault)

def Reader.fail {α : Type} (fault : Fault) : Reader α := fun _ => .error fault

namespace Document

/-- What aliases refer to, and the size that limits how many are followed. -/
structure Source where
  /-- Numbered nodes, the last one of a number in front. -/
  targets : List (Nat × Node)
  size : Nat

namespace Source

/-- The node that a node stands for: itself, or the node with the number of an alias. -/
def target? (source : Source) : Node → Option Node
  | .alias number => source.targets.lookup number
  | .anchored _ node => some node
  | node => some node

/-- The node that a node stands for, where following an alias is counted. -/
def follow (source : Source) (node : Node) : Reader Node := do
  if node.isAlias then
    let count ← get
    if source.size * 100 ≤ count then Reader.fail .tooManyAliases
    set (count + 1)
  match source.target? node with
  | some node => return node
  | none => Reader.fail .malformed

/-- Read entries one after the other; a key must not come twice. -/
def readEntries (read : Node → Reader Value) :
    List (Node × Node) → List (Value × Value) → Reader (List (Value × Value))
  | [], entries => return entries
  | (keyNode, valueNode) :: rest, entries => do
    let key ← read keyNode
    if Value.hasKey entries key then Reader.fail .malformed
    let value ← read valueNode
    readEntries read rest (entries ++ [(key, value)])

/-- The tag that a value has of its own, without its mark. Other tags say what a scalar is. -/
def ownTag? (tag : Option String) : Option String :=
  tag.bind fun tag =>
    if tag.toList.head? = some '!' then some (Value.tagName tag) else none

/-- A value under its own tag, if there is one. -/
def tagValue (tag : Option String) (value : Value) : Value :=
  match ownTag? tag with
  | none => value
  | some name => .tagged (Value.tagName name) value

/-- Read a node in which collections may be nested to a depth. -/
def read (source : Source) : Nat → Node → Reader Value
  | depth, node => do
    match ← source.follow node, depth with
    | .scalar tag text plain, _ =>
      match resolveScalar (if (ownTag? tag).isSome then none else tag) text plain with
      | some value => return tagValue tag value
      | none => Reader.fail .malformed
    | .sequence tag items, depth + 1 => do
      return tagValue tag (.sequence (← items.mapM (source.read depth)))
    | .mapping tag entries, depth + 1 => do
      return tagValue tag (.mapping (← readEntries (source.read depth) entries []))
    | _, _ => Reader.fail .malformed

end Source

def source (document : Document) : Source :=
  ⟨((document.root.map Node.numbered).getD []).reverse, document.size⟩

/-- The value of a document. -/
def value (document : Document) : Except Fault Value := do
  let value ← match document.root with
    | none => pure .null
    | some root => (·.1) <$> (document.source.read maxDepth root).run 0
  if document.complete then return value else .error .malformed

end Document

/-- The values of all documents of a text, if every one is well formed. -/
def readAll (text : String) : Except Fault (List Value) :=
  (Document.ofText text).mapM Document.value

/-- The value of a text that holds one document. -/
def readOne (text : String) : Except Fault Value :=
  match Document.ofText text with
  | [] => .error .malformed
  | document :: rest => do
    let value ← document.value
    if rest.isEmpty then return value else .error .severalDocuments

end TokenRules.Yaml
