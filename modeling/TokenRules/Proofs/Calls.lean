import TokenRules.Proofs.Application

/-!
# Calls of a pass

A pass over rules does nothing to its context but by the predicates and actions
that it calls.  An `Invocation` is one call together with the context in which it is
made; a `Chain` is a sequence of calls of registered functions, each made in the
context that the one before it left.  A pass is `Chained` if its events are those of
a chain from the context in which it starts to the one that it leaves.  This carries
over from the parts of a pass to the whole, so the application of a rule set is a
chain of calls: `chained_apply`.
-/

namespace TokenRules

/-- A call of a predicate or of an action, and the context in which it is made. -/
inductive Invocation
  | predicate (test : Predicate) (call : Call) (start : Context)
  | action (act : Action) (call : Call) (start : Context)

namespace Invocation

def start : Invocation → Context
  | .predicate _ _ start => start
  | .action _ _ start => start

/-- The context that the call leaves. -/
def finish : Invocation → Context
  | .predicate test call start => (test.invoke call start : Outcome EvalError _).context
  | .action act call start => (act.invoke call start : Outcome EvalError _).context

/-- The event that notes the call, and those that the function brings about. -/
def events : Invocation → List Event
  | .predicate test call start => (test.invoke call start : Outcome EvalError _).events
  | .action act call start => (act.invoke call start : Outcome EvalError _).events

/-- The function called is the one that a registry has under the name called. -/
def IsOf (registry : Registry) : Invocation → Prop
  | .predicate test call _ => registry.predicate? call.function = some test
  | .action act call _ => registry.action? call.function = some act

end Invocation

namespace Registry

variable {registry : Registry}

/-- Calls of registered functions that lead from one context to another, each made in the context
that the one before it left. -/
inductive Chain (registry : Registry) : Context → List Invocation → Context → Prop
  | nil (context : Context) : Chain registry context [] context
  | cons {invocation : Invocation} {calls : List Invocation} {finish : Context}
      (hof : invocation.IsOf registry) (hrest : Chain registry invocation.finish calls finish) :
      Chain registry invocation.start (invocation :: calls) finish

theorem Chain.append {first middle last : Context} {calls others : List Invocation}
    (h : registry.Chain first calls middle) (hothers : registry.Chain middle others last) :
    registry.Chain first (calls ++ others) last := by
  induction h with
  | nil => exact hothers
  | cons hof _ ih => exact .cons hof (ih hothers)

/-- The pass is a chain of calls. -/
def Chained (registry : Registry) {α : Type} (pass : Pass EvalError α) : Prop :=
  ∀ context, ∃ calls, registry.Chain context calls (pass context).context ∧
    (pass context).events = calls.flatMap Invocation.events

theorem chained_bind {α β : Type} {pass : Pass EvalError α} {f : α → Pass EvalError β}
    (hpass : registry.Chained pass) (hf : ∀ a, registry.Chained (f a)) :
    registry.Chained (pass >>= f) := by
  intro context
  obtain ⟨calls, hchain, hevents⟩ := hpass context
  cases h : (pass context).result with
  | ok a =>
    obtain ⟨others, hothers, hevents'⟩ := hf a (pass context).context
    refine ⟨calls ++ others, ?_, ?_⟩
    · rw [Pass.bind_of_ok h]
      exact hchain.append hothers
    · rw [Pass.bind_of_ok h, List.flatMap_append, ← hevents, ← hevents']
  | error e =>
    rw [Pass.bind_of_error h]
    exact ⟨calls, hchain, hevents⟩

theorem closed_chained : Pass.Closed (ε := EvalError) registry.Chained where
  pure _ context := ⟨[], .nil context, rfl⟩
  fail _ context := ⟨[], .nil context, rfl⟩
  bind := chained_bind

theorem chained_predicate {predicate : Predicate} {call : Call}
    (h : registry.predicate? call.function = some predicate) :
    registry.Chained (predicate.invoke call) := by
  intro context
  let invocation : Invocation := .predicate predicate call context
  have hof : invocation.IsOf registry := h
  exact ⟨[invocation], .cons hof (.nil _), (List.append_nil _).symm⟩

theorem chained_action {action : Action} {call : Call}
    (h : registry.action? call.function = some action) :
    registry.Chained (action.invoke call) := by
  intro context
  let invocation : Invocation := .action action call context
  have hof : invocation.IsOf registry := h
  exact ⟨[invocation], .cons hof (.nil _), (List.append_nil _).symm⟩

end Registry

namespace Evaluator

theorem chained_evaluate (evaluator : Evaluator) (condition : Condition) :
    evaluator.registry.Chained (evaluator.evaluate condition) :=
  evaluator.closed_evaluate Registry.closed_chained (fun _ _ => Registry.chained_predicate)
    condition

end Evaluator

/-- **The application of rules is a chain of calls.** -/
theorem RuleSet.chained_apply (set : RuleSet) (registry : Registry) :
    registry.Chained (set.apply registry) :=
  (set.evaluator registry).closed_applyAll Registry.closed_chained
    (fun _ _ => Registry.chained_action) (set.evaluator registry).chained_evaluate set.rules

end TokenRules
