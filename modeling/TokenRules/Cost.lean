import TokenRules.Condition

/-!
# Costs of predicates

A cost is a float that is neither negative nor a NaN, so any two costs can be compared. The cost
of a formula is estimated by its cheapest atom: the estimate tells which branch to try first, not
how much work a branch is.
-/

namespace TokenRules

/-- Cost of a predicate; infinity and both zeros are costs. -/
structure Cost where
  number : Binary64
  valid : number.isNaN = false ∧ 0 ≤ number.place

namespace Cost

def zero : Cost := ⟨.zero, by decide⟩

instance : Inhabited Cost := ⟨zero⟩

/-- A float as a cost, if it is one. -/
def ofNumber? (x : Binary64) : Option Cost :=
  if h : x.isNaN = false ∧ 0 ≤ x.place then some ⟨x, h⟩ else none

/-- Place of a cost among all costs; the two zeros share the first. -/
def rank (cost : Cost) : Nat := cost.number.place.toNat

instance : LE Cost := ⟨fun a b => a.rank ≤ b.rank⟩

instance (a b : Cost) : Decidable (a ≤ b) := inferInstanceAs (Decidable (a.rank ≤ b.rank))

/-- The lower of two costs, the first one if they rank alike. -/
def min (a b : Cost) : Cost := if a ≤ b then a else b

/-- The least of a list of costs, zero if there is none. -/
def least : List Cost → Cost
  | [] => zero
  | cost :: rest => rest.foldl min cost

end Cost

namespace Formula

variable {α : Type}

mutual

/-- The cost of the cheapest branch, where `cost` tells the cost of an atom. -/
def estimate (cost : α → Cost) : Formula α → Cost
  | .atom a => cost a
  | .not formula => formula.estimate cost
  | .all formulas => Cost.least (estimates cost formulas)
  | .any formulas => Cost.least (estimates cost formulas)

def estimates (cost : α → Cost) : List (Formula α) → List Cost
  | [] => []
  | formula :: rest => formula.estimate cost :: estimates cost rest

end

end Formula

/-- A number was given as a cost that is negative or a NaN. -/
structure CostError where
  function : String
  number : Binary64
  deriving DecidableEq

def CostError.message (e : CostError) : String :=
  "cost of function '" ++ e.function ++ "' must be a non-negative number, got " ++
    Layout.plain.text e.number

/-- Declared costs of predicates by name. -/
abbrev CostTable := NameMap Cost

namespace CostTable

/-- Declare a cost, in place of any earlier one. -/
def declare (costs : CostTable) (function : String) (number : Binary64) :
    Except CostError CostTable :=
  match Cost.ofNumber? number with
  | some cost => .ok (costs.insert function cost)
  | none => .error ⟨function, number⟩

/-- Declare costs from left to right, up to the first number that is no cost. -/
def ofPairs (pairs : List (String × Binary64)) : Except CostError CostTable :=
  pairs.foldlM (fun costs pair => costs.declare pair.1 pair.2) ∅

/-- The declared cost of a predicate, zero if there is none. -/
def cost (costs : CostTable) (function : String) : Cost := (costs.get? function).getD .zero

/-- The cost of the cheapest predicate that a condition would try. -/
def estimate (costs : CostTable) (condition : Condition) : Cost :=
  Formula.estimate (fun literal => costs.cost literal.call.function) condition

end CostTable

end TokenRules
