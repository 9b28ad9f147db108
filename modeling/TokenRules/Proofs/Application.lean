import TokenRules.Proofs.Answers
import TokenRules.RuleSet

/-!
# Application of rules

Rules applied by two evaluators, perhaps in two monads: a relation that carries over
from the parts of a computation to the whole holds of the application of rules if it
holds of their conditions and of their actions (`Simulation.applyAll`).

A closed property that the calls of actions and the evaluations of conditions have is
a property of the application of rules (`closed_applyAll`).  In particular the
application of a rule set is determined by the sight of the context and changes
nothing in sight but the edits: two contexts that look alike are treated alike,
whatever each of them keeps already (`determined_apply`), and what is not an edit
looks the same afterwards (`confined_apply`).
-/

namespace TokenRules

namespace Simulation

open Evaluator

variable {m n : Type → Type} [Monad m] [Monad n] {R : ∀ {α : Type}, m α → n α → Prop}
  (hR : Simulation m n R) {evaluator other : Evaluator}
include hR

theorem applyWith [MonadLiftT (Pass EvalError) m] [MonadLiftT (Pass EvalError) n]
    {called : String → m Unit} {told : String → n Unit} {rule : Rule}
    (hevaluate : R (evaluator.evaluateWith called rule.condition)
      (other.evaluateWith told rule.condition))
    (hactions : R (liftM (evaluator.dispatchAll rule.actions) : m Unit)
      (liftM (other.dispatchAll rule.actions) : n Unit)) :
    R (evaluator.applyWith called rule) (other.applyWith told rule) := by
  refine hR.bind hevaluate fun fires => ?_
  cases fires with
  | true => exact hR.bind hactions fun _ => hR.pure true
  | false => exact hR.pure false

theorem applyAllWith [MonadLiftT (Pass EvalError) m] [MonadLiftT (Pass EvalError) n]
    {called : String → m Unit} {told : String → n Unit} {rules : List Rule}
    (hevaluate : ∀ rule ∈ rules, R (evaluator.evaluateWith called rule.condition)
      (other.evaluateWith told rule.condition))
    (hactions : ∀ rule ∈ rules, R (liftM (evaluator.dispatchAll rule.actions) : m Unit)
      (liftM (other.dispatchAll rule.actions) : n Unit)) :
    R (evaluator.applyAllWith called rules) (other.applyAllWith told rules) := by
  induction rules with
  | nil => exact hR.pure []
  | cons rule rest ih =>
    obtain ⟨hcondition, hconditions⟩ := List.forall_mem_cons.1 hevaluate
    obtain ⟨hrule, hrest⟩ := List.forall_mem_cons.1 hactions
    exact hR.bind (hR.applyWith hcondition hrule) fun fires =>
      hR.bind (ih hconditions hrest) fun fired => hR.pure _

end Simulation

section Passes

variable {R : ∀ {α : Type}, Pass EvalError α → Pass EvalError α → Prop}
  (hR : Simulation (Pass EvalError) (Pass EvalError) R) (evaluator other : Evaluator)
include hR

theorem Simulation.dispatchAll {calls : List Call}
    (h : ∀ call ∈ calls, R (evaluator.dispatch call) (other.dispatch call)) :
    R (evaluator.dispatchAll calls) (other.dispatchAll calls) := by
  induction calls with
  | nil => exact hR.pure ()
  | cons call rest ih =>
    obtain ⟨hcall, hrest⟩ := List.forall_mem_cons.1 h
    exact hR.bind hcall fun _ => ih hrest

theorem Simulation.apply {rule : Rule}
    (hevaluate : R (evaluator.evaluate rule.condition) (other.evaluate rule.condition))
    (hdispatch : ∀ call ∈ rule.actions, R (evaluator.dispatch call) (other.dispatch call)) :
    R (evaluator.apply rule) (other.apply rule) :=
  hR.applyWith hevaluate (hR.dispatchAll evaluator other hdispatch)

/-- Passes over rules are related if the conditions and the actions are, one by one. -/
theorem Simulation.applyAll {rules : List Rule}
    (hevaluate : ∀ rule ∈ rules,
      R (evaluator.evaluate rule.condition) (other.evaluate rule.condition))
    (hdispatch : ∀ rule ∈ rules, ∀ call ∈ rule.actions,
      R (evaluator.dispatch call) (other.dispatch call)) :
    R (evaluator.applyAll rules) (other.applyAll rules) :=
  hR.applyAllWith hevaluate fun rule hmem => hR.dispatchAll evaluator other (hdispatch rule hmem)

end Passes

namespace Evaluator

variable (evaluator : Evaluator)

/-- What comes of an action that was run: a failure is passed over unless it is fatal. -/
def settle (call : Call) : Except ActionFailure Unit → Pass EvalError Unit
  | .ok () => pure ()
  | .error failure =>
    if failure.fatal then Pass.fail (.actionFailed call.function failure) else pure ()

theorem dispatch_eq {call : Call} {action : Action}
    (h : evaluator.registry.action? call.function = some action) :
    evaluator.dispatch call = action.invoke call >>= settle call := by
  rw [dispatch, h]
  rfl

section Closed

variable {P : ∀ {α : Type}, Pass EvalError α → Prop} (hP : Pass.Closed P)
include hP

theorem closed_settle (call : Call) (result : Except ActionFailure Unit) :
    P (settle call result) := by
  cases result with
  | ok => exact hP.pure ()
  | error failure =>
    rw [settle]
    split
    · exact hP.fail _
    · exact hP.pure ()

theorem closed_test (hinvoke : ∀ (predicate : Predicate) (call : Call),
      evaluator.registry.predicate? call.function = some predicate → P (predicate.invoke call))
    (literal : Literal) : P (evaluator.testSilently literal) := by
  cases h : evaluator.registry.predicate? literal.call.function with
  | none =>
    rw [testSilently, test, h]
    exact hP.fail _
  | some predicate =>
    rw [evaluator.testSilently_eq literal h]
    refine hP.bind (hinvoke predicate literal.call h) fun answer => ?_
    cases answer with
    | ok holds => exact hP.pure _
    | error e => exact hP.fail _

theorem closed_evaluate (hinvoke : ∀ (predicate : Predicate) (call : Call),
      evaluator.registry.predicate? call.function = some predicate → P (predicate.invoke call))
    (condition : Condition) : P (evaluator.evaluate condition) :=
  Formula.closed_evaluate hP (evaluator.closed_test hP hinvoke) condition

variable (hinvoke : ∀ (action : Action) (call : Call),
  evaluator.registry.action? call.function = some action → P (action.invoke call))
include hinvoke

theorem closed_dispatch (call : Call) : P (evaluator.dispatch call) := by
  cases h : evaluator.registry.action? call.function with
  | none =>
    rw [dispatch, h]
    exact hP.fail _
  | some action =>
    rw [evaluator.dispatch_eq h]
    exact hP.bind (hinvoke action call h) (closed_settle hP call)

theorem closed_applyAll (hevaluate : ∀ condition, P (evaluator.evaluate condition))
    (rules : List Rule) : P (evaluator.applyAll rules) :=
  hP.simulation.applyAll evaluator evaluator (fun rule _ => hevaluate rule.condition)
    fun _ _ call _ => evaluator.closed_dispatch hP hinvoke call

end Closed

/-! ### Sight and edits -/

theorem determined_invoke {ε : Type} (action : Action) (call : Call) :
    (action.invoke call : Pass ε (Except ActionFailure Unit)).Determined := by
  refine Pass.alike_bind (fun c d h => ?_) fun _ => Program.determined_run _
  have hindex : c.index = d.index := congrArg Sight.index h
  refine Effect.ext rfl h ?_
  show [(call, c.index)] = [(call, d.index)]
  rw [hindex]

theorem confined_invoke {ε : Type} (action : Action) (call : Call) :
    (action.invoke call : Pass ε (Except ActionFailure Unit)).Confined :=
  Pass.confined_bind (fun _ => rfl) fun _ => Program.confined_run _

end Evaluator

namespace RuleSet

theorem determined_apply (set : RuleSet) (registry : Registry) : (set.apply registry).Determined :=
  (set.evaluator registry).closed_applyAll Pass.closed_determined
    (fun action call _ => Evaluator.determined_invoke action call)
    (set.evaluator registry).determined_evaluate set.rules

theorem confined_apply (set : RuleSet) (registry : Registry) : (set.apply registry).Confined :=
  (set.evaluator registry).closed_applyAll Pass.closed_confined
    (fun action call _ => Evaluator.confined_invoke action call)
    (fun condition => ((set.evaluator registry).quiet_evaluate condition).confined) set.rules

end RuleSet

end TokenRules
