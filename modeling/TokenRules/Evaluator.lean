import TokenRules.Formula.Evaluation
import TokenRules.Registry
import TokenRules.Rule

/-!
# Evaluation of conditions and dispatch of actions

An evaluator tests conditions against a context by the predicates of a registry, in the order that
a cost table sets, and runs the actions of rules that fire.
-/

namespace TokenRules

/-- Why an evaluation or the run of an action stopped. -/
inductive EvalError
  | unknownPredicate (function : String)
  | unknownAction (function : String)
  | invalidArguments (function : String) (source : ArgumentError)
  | actionFailed (action : String) (source : ActionFailure)
  deriving DecidableEq

def EvalError.message : EvalError → String
  | .unknownPredicate function => s!"unknown predicate '{function}'"
  | .unknownAction function => s!"unknown action '{function}'"
  | .invalidArguments function source =>
    "invalid arguments for '" ++ function ++ "': " ++ source.message
  | .actionFailed action source => "action '" ++ action ++ "' failed: " ++ source.message

/-- Note the call of a predicate and run it. -/
def Predicate.invoke {ε : Type} (predicate : Predicate) (call : Call) :
    Pass ε (Except ArgumentError Bool) := do
  Pass.note fun context => .predicate call context.index
  (predicate call.args).run

/-- Note the call of an action and run it. -/
def Action.invoke {ε : Type} (action : Action) (call : Call) :
    Pass ε (Except ActionFailure Unit) := do
  Pass.note fun context => .action call context.index
  (action call.args).run

/-- A cost table and the functions that conditions and actions refer to. -/
structure Evaluator where
  costs : CostTable
  registry : Registry

namespace Evaluator

variable {m : Type → Type} [Monad m] [MonadLiftT (Pass EvalError) m]

/-- Test a literal. The predicate is looked up first, then `called` is told its name, then it
runs. -/
def test (evaluator : Evaluator) (called : String → m Unit) (literal : Literal) : m Bool :=
  match evaluator.registry.predicate? literal.call.function with
  | none => liftM (Pass.fail (.unknownPredicate literal.call.function) : Pass EvalError Bool)
  | some predicate => do
    called literal.call.function
    liftM (do
      match ← predicate.invoke literal.call with
      | .ok holds => return holds != literal.negate
      | .error e => Pass.fail (.invalidArguments literal.call.function e) : Pass EvalError Bool)

/-- Evaluate a condition and tell `called` the predicates on the way. -/
def evaluateWith (evaluator : Evaluator) (called : String → m Unit) (condition : Condition) :
    m Bool :=
  Formula.evaluate (fun literal => evaluator.costs.cost literal.call.function)
    (evaluator.test called) condition

/-- Whether a condition holds in the context. -/
def evaluate (evaluator : Evaluator) (condition : Condition) : Pass EvalError Bool :=
  evaluator.evaluateWith (fun _ => pure ()) condition

/-- Run an action. A failure that is not fatal is passed over. -/
def dispatch (evaluator : Evaluator) (call : Call) : Pass EvalError Unit :=
  match evaluator.registry.action? call.function with
  | none => Pass.fail (.unknownAction call.function)
  | some action => do
    match ← action.invoke call with
    | .ok () => pure ()
    | .error failure =>
      if failure.fatal then Pass.fail (.actionFailed call.function failure) else pure ()

/-- Run actions in order, up to the first that stops. -/
def dispatchAll (evaluator : Evaluator) : List Call → Pass EvalError Unit
  | [] => pure ()
  | call :: rest => do
    evaluator.dispatch call
    evaluator.dispatchAll rest

/-- Evaluate the condition of a rule and, if it holds, run the actions. Tells whether the rule
fired. -/
def applyWith (evaluator : Evaluator) (called : String → m Unit) (rule : Rule) : m Bool := do
  if ← evaluator.evaluateWith called rule.condition then
    liftM (evaluator.dispatchAll rule.actions)
    return true
  else
    return false

def apply (evaluator : Evaluator) (rule : Rule) : Pass EvalError Bool :=
  evaluator.applyWith (fun _ => pure ()) rule

/-- Apply rules in order and list the names of those that fired. -/
def applyAllWith (evaluator : Evaluator) (called : String → m Unit) :
    List Rule → m (List String)
  | [] => pure []
  | rule :: rest => do
    let fires ← evaluator.applyWith called rule
    let fired ← evaluator.applyAllWith called rest
    return if fires then rule.name :: fired else fired

def applyAll (evaluator : Evaluator) (rules : List Rule) : Pass EvalError (List String) :=
  evaluator.applyAllWith (fun _ => pure ()) rules

end Evaluator

end TokenRules
