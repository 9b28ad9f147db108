import TokenRules.Pass

/-!
# Registries

A registry holds the predicates and actions that rules call by name. Calling one that is not
registered is an error of the rule set; what else can go wrong in a call is told by the function
itself.
-/

namespace TokenRules

/-- A test of the context, given arguments. -/
abbrev Predicate := Arguments → Program .reads (Except ArgumentError Bool)

/-- Why an action failed. A failure that is not fatal does not keep the actions after it from
running. -/
structure ActionFailure where
  message : String
  fatal : Bool
  deriving DecidableEq

namespace ActionFailure

/-- An argument that cannot be used is a mistake in the rules, so the failure is fatal. -/
def ofArgumentError (e : ArgumentError) : ActionFailure := ⟨e.message, true⟩

end ActionFailure

/-- A change to the context, given arguments. -/
abbrev Action := Arguments → Program .edits (Except ActionFailure Unit)

/-- Predicates and actions by name. -/
structure Registry where
  predicates : NameMap Predicate
  actions : NameMap Action

namespace Registry

def empty : Registry := ⟨∅, ∅⟩

instance : EmptyCollection Registry := ⟨empty⟩

def registerPredicate (registry : Registry) (name : String) (predicate : Predicate) : Registry :=
  { registry with predicates := registry.predicates.insert name predicate }

def registerAction (registry : Registry) (name : String) (action : Action) : Registry :=
  { registry with actions := registry.actions.insert name action }

def predicate? (registry : Registry) (name : String) : Option Predicate :=
  registry.predicates.get? name

def action? (registry : Registry) (name : String) : Option Action :=
  registry.actions.get? name

def hasPredicate (registry : Registry) (name : String) : Bool := registry.predicates.contains name

def hasAction (registry : Registry) (name : String) : Bool := registry.actions.contains name

end Registry

end TokenRules
