import TokenRules.Authoring.Decoding
import TokenRules.Authoring.Shape
import TokenRules.Condition

/-!
# From authored blocks to conditions

An authored condition is turned into a condition by its shape, from the outside in. The first node
that is not legal, in the order written, is reported with the way that leads to it, unless the work
breaks down before it.
-/

namespace TokenRules.Authoring

open Yaml (Value)

/-- A step from an authored condition to one of its parts. -/
inductive Step
  | not
  | all (index : Nat)
  | any (index : Nat)
  /-- To an item of a block that is a sequence. -/
  | item (index : Nat)
  deriving DecidableEq

def Step.render : Step → String
  | .not => ".not"
  | .all index => ".all[" ++ toString index ++ "]"
  | .any index => ".any[" ++ toString index ++ "]"
  | .item index => "[" ++ toString index ++ "]"

/-- What is wrong with a node. -/
inductive NodeFault
  | unsupported (reason : ShapeError) (node : Value)
  | invalidArguments (reason : Mismatch)

/-- A node that is not legal, or at which the work breaks down, and the way to it. -/
structure NodeError where
  steps : List Step
  fault : Failure NodeFault

/-- The same error seen from one step further out. -/
def NodeError.under (e : NodeError) (step : Step) : NodeError := { e with steps := step :: e.steps }

/-- Turn the items of a sequence into conditions, up to the first that is not legal. -/
def eachFrom {α : Type} (step : Nat → Step) (convert : α → Except NodeError Condition) :
    Nat → List α → Except NodeError (List Condition)
  | _, [] => .ok []
  | index, item :: rest =>
    match convert item with
    | .error e => .error (e.under (step index))
    | .ok condition => (eachFrom step convert (index + 1) rest).map (condition :: ·)

/-- The condition that an authored condition means. -/
def normalize (node : Value) : Except NodeError Condition :=
  match h : Shape.recognize node with
  | .error failure => .error ⟨[], failure.map (.unsupported · node)⟩
  | .ok (.call function none) => .ok (.call function)
  | .ok (.call function (some args)) =>
    match decodeArguments args with
    | .ok args => .ok (.atom ⟨⟨function, args⟩, false⟩)
    | .error reason => .error ⟨[], .reported (.invalidArguments reason)⟩
  | .ok (.not inner) =>
    have : sizeOf inner < sizeOf node := Shape.sizeOf_lt_of_recognize h (by simp [Shape.parts])
    match normalize inner with
    | .ok condition => .ok (.not condition)
    | .error e => .error (e.under .not)
  | .ok (.all nodes) =>
    let convert (part : { part // part ∈ nodes }) : Except NodeError Condition :=
      have : sizeOf part.1 < sizeOf node := Shape.sizeOf_lt_of_recognize h part.2
      normalize part.1
    (eachFrom .all convert 0 nodes.attach).map .all
  | .ok (.any nodes) =>
    let convert (part : { part // part ∈ nodes }) : Except NodeError Condition :=
      have : sizeOf part.1 < sizeOf node := Shape.sizeOf_lt_of_recognize h part.2
      normalize part.1
    (eachFrom .any convert 0 nodes.attach).map .any
  | .ok (.lists names) => .ok (.any (names.map Condition.inList))
  | .ok (.words words) => .ok (.any [Condition.inWords words])
termination_by sizeOf node

/-- The blocks of an authored rule that hold conditions. -/
inductive Block
  | conditions
  | exceptions
  deriving DecidableEq

def Block.name : Block → String
  | .conditions => "conditions"
  | .exceptions => "exceptions"

/-- The condition of a block. A block that is null or empty counts as not given, and a sequence of
conditions means all of them. -/
def normalizeBlock (block : Block) : Option Value → Except NodeError (Option Condition)
  | none => .ok none
  | some .null => .ok none
  | some (.mapping []) => .ok none
  | some (.sequence []) => .ok none
  | some (.sequence (item :: items)) =>
    if block = .conditions then
      (eachFrom .item normalize 0 (item :: items)).map fun conditions => some (.all conditions)
    else (normalize (.sequence (item :: items))).map some
  | some node => (normalize node).map some

end TokenRules.Authoring
