import TokenRules.Argument
import TokenRules.Formula

/-!
# Conditions

A condition is a formula whose atoms are literals: calls of named predicates, each possibly
negated.
-/

namespace TokenRules

/-- Call of a named function with keyword arguments. -/
structure Call where
  function : String
  args : Arguments

namespace Call

def render (call : Call) : String := call.function ++ "(" ++ call.args.render ++ ")"

def agrees (call other : Call) : Bool :=
  call.function == other.function && call.args.agrees other.args

end Call

/-- Call of a predicate whose outcome may be flipped. -/
structure Literal where
  call : Call
  negate : Bool

namespace Literal

def render (literal : Literal) : String :=
  (if literal.negate then "!" else "") ++ literal.call.render

def agrees (literal other : Literal) : Bool :=
  literal.call.agrees other.call && literal.negate == other.negate

end Literal

/-- When a rule fires. -/
abbrev Condition := Formula Literal

namespace Condition

/-- The condition that a predicate holds without arguments. -/
def call (function : String) : Condition := .atom ⟨⟨function, ∅⟩, false⟩

/-- The condition that the current token is in the list called `name`. -/
def inList (name : String) : Condition :=
  .atom ⟨⟨"in_list", (∅ : Arguments).insert "list" (.text name)⟩, false⟩

/-- The condition that the current token is one of `words`. -/
def inWords (words : List String) : Condition :=
  .atom ⟨⟨"in_list", (∅ : Arguments).insert "words" (.list (words.map .text))⟩, false⟩

/-- Give a literal one more argument; other conditions have none to give. -/
def withArgument (condition : Condition) (name : String) (value : Argument) : Condition :=
  match condition with
  | .atom ⟨⟨function, args⟩, negate⟩ => .atom ⟨⟨function, args.insert name value⟩, negate⟩
  | other => other

/-- The opposite condition; on a literal only the flag is flipped. -/
def negated : Condition → Condition
  | .atom ⟨call, negate⟩ => .atom ⟨call, !negate⟩
  | other => .not other

mutual

/-- The condition as it is shown in reports. -/
def render : Condition → String
  | .atom literal => literal.render
  | .not condition => "NOT " ++ render condition
  | .all conditions => "ALL(" ++ String.intercalate ", " (renderList conditions) ++ ")"
  | .any conditions => "ANY(" ++ String.intercalate ", " (renderList conditions) ++ ")"

def renderList : List Condition → List String
  | [] => []
  | condition :: rest => render condition :: renderList rest

end

mutual

/-- Equality of conditions, where floats are compared as numbers. -/
def agrees : Condition → Condition → Bool
  | .atom literal, .atom other => literal.agrees other
  | .not condition, .not other => agrees condition other
  | .all conditions, .all others => listsAgree conditions others
  | .any conditions, .any others => listsAgree conditions others
  | _, _ => false

def listsAgree : List Condition → List Condition → Bool
  | [], [] => true
  | condition :: rest, other :: others => agrees condition other && listsAgree rest others
  | _, _ => false

end

/-- The predicates named in a condition, from left to right. -/
def functions (condition : Condition) : List String :=
  condition.atoms.map (·.call.function)

end Condition

end TokenRules
