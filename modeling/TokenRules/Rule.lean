import TokenRules.Condition

/-!
# Rules
-/

namespace TokenRules

/-- A named condition and the actions that run, in order, where it holds. -/
structure Rule where
  name : String
  description : String
  condition : Condition
  actions : List Call

end TokenRules
