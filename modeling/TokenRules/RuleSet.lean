import TokenRules.Evaluator

/-!
# Rule sets

Rules of distinct names in the order in which they are applied, with the costs that steer the
evaluation of their conditions.
-/

namespace TokenRules

/-- A rule refers to a function that a registry lacks. -/
inductive ReferenceError
  | unknownPredicate (rule function : String)
  | unknownAction (rule function : String)
  deriving DecidableEq

def ReferenceError.message : ReferenceError → String
  | .unknownPredicate rule function =>
    s!"rule '{rule}' references unregistered predicate '{function}'"
  | .unknownAction rule function =>
    s!"rule '{rule}' references unregistered action '{function}'"

/-- The first function that a rule refers to and a registry lacks: predicates before actions, each
in the order of the rule. -/
def Rule.missing? (rule : Rule) (registry : Registry) : Option ReferenceError :=
  match (Condition.functions rule.condition).find? (!registry.hasPredicate ·) with
  | some function => some (.unknownPredicate rule.name function)
  | none =>
    (rule.actions.find? (!registry.hasAction ·.function)).map
      fun call => .unknownAction rule.name call.function

/-- What a pass over a rule set did: the rules that fired and the predicates called. -/
structure Report where
  fired : List String
  called : List String

def Report.render (report : Report) : String :=
  "fired: [" ++ String.intercalate ", " report.fired ++ "], calls: [" ++
    String.intercalate ", " report.called ++ "]"

structure RuleSet where
  rules : List Rule
  costs : CostTable
  distinct : (rules.map (·.name)).Nodup

namespace RuleSet

/-- The rule called `name`. -/
def get? (set : RuleSet) (name : String) : Option Rule := set.rules.find? (·.name == name)

/-- The same rules under other costs. -/
def withCosts (set : RuleSet) (costs : CostTable) : RuleSet := { set with costs }

def evaluator (set : RuleSet) (registry : Registry) : Evaluator := ⟨set.costs, registry⟩

/-- Apply every rule in order and list the names of those that fired. -/
def apply (set : RuleSet) (registry : Registry) : Pass EvalError (List String) :=
  (set.evaluator registry).applyAll set.rules

/-- Apply every rule in order and report the predicates called besides the rules that fired. -/
def applyReporting (set : RuleSet) (registry : Registry) : Pass EvalError Report := do
  let (fired, called) ←
    ((set.evaluator registry).applyAllWith (m := StateT (List String) (Pass EvalError))
      (fun name => modify (· ++ [name])) set.rules).run []
  return ⟨fired, called⟩

/-- Whether every function that a rule refers to is registered; if not, the first that is not. -/
def verify (set : RuleSet) (registry : Registry) : Except ReferenceError Unit :=
  match set.rules.findSome? (·.missing? registry) with
  | some e => .error e
  | none => .ok ()

def render (set : RuleSet) : String :=
  "RuleSet(" ++ toString set.rules.length ++ " rules, " ++ toString set.costs.size ++
    " costed functions)"

end RuleSet

end TokenRules
