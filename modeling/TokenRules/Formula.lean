/-!
# Propositional formulas

Trees of negations, conjunctions and disjunctions over atoms of any kind. `Formula.value` is the
plain truth value of a formula whose atoms are truth values.
-/

namespace TokenRules

/-- A formula over atoms of type `α`. A conjunction of nothing is true, a disjunction of nothing
false. -/
inductive Formula (α : Type)
  | atom (a : α)
  | not (formula : Formula α)
  | all (formulas : List (Formula α))
  | any (formulas : List (Formula α))

namespace Formula

variable {α β : Type}

mutual

/-- Replace each atom. -/
def map (f : α → β) : Formula α → Formula β
  | .atom a => .atom (f a)
  | .not formula => .not (formula.map f)
  | .all formulas => .all (mapList f formulas)
  | .any formulas => .any (mapList f formulas)

def mapList (f : α → β) : List (Formula α) → List (Formula β)
  | [] => []
  | formula :: rest => formula.map f :: mapList f rest

end

mutual

/-- The atoms from left to right. -/
def atoms : Formula α → List α
  | .atom a => [a]
  | .not formula => formula.atoms
  | .all formulas => atomsList formulas
  | .any formulas => atomsList formulas

def atomsList : List (Formula α) → List α
  | [] => []
  | formula :: rest => formula.atoms ++ atomsList rest

end

mutual

/-- The truth value of a formula over truth values. -/
def value : Formula Bool → Bool
  | .atom b => b
  | .not formula => !formula.value
  | .all formulas => (values formulas).all id
  | .any formulas => (values formulas).any id

def values : List (Formula Bool) → List Bool
  | [] => []
  | formula :: rest => formula.value :: values rest

end

end Formula

end TokenRules
