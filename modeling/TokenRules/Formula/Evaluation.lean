import TokenRules.Cost

/-!
# Evaluation of formulas by tests

The atoms of a formula are tested one at a time, the cheapest branch of a group first and branches
of equal cost as they are written. A group stops at the first branch that decides it.
-/

namespace TokenRules

variable {α β : Type} {m : Type → Type} [Monad m]

/-- Run tests up to the first that does not hold. -/
def conjunction : List (m Bool) → m Bool
  | [] => pure true
  | test :: rest => do
    if ← test then conjunction rest else pure false

/-- Run tests up to the first that holds. -/
def disjunction : List (m Bool) → m Bool
  | [] => pure false
  | test :: rest => do
    if ← test then pure true else disjunction rest

/-- Items in ascending order of their costs, those of equal cost in the order given. -/
def cheapestFirst (items : List (Cost × β)) : List β :=
  (items.mergeSort fun a b => decide (a.1 ≤ b.1)).map (·.2)

namespace Formula

mutual

/-- Evaluate a formula, given the cost of each atom and how to test it. -/
def evaluate (cost : α → Cost) (test : α → m Bool) : Formula α → m Bool
  | .atom a => test a
  | .not formula => do return !(← formula.evaluate cost test)
  | .all formulas => conjunction (cheapestFirst (branches cost test formulas))
  | .any formulas => disjunction (cheapestFirst (branches cost test formulas))

/-- The evaluations of some formulas, each beside its estimated cost. -/
def branches (cost : α → Cost) (test : α → m Bool) : List (Formula α) → List (Cost × m Bool)
  | [] => []
  | formula :: rest =>
    (formula.estimate cost, formula.evaluate cost test) :: branches cost test rest

end

end Formula

end TokenRules
