import TokenRules.Proofs.Application

/-!
# Passes that report

A pass over rules can keep a list of the predicates that it calls.  The list is a
state beside the context, which nothing is read from: the pass `Forgets` it, that is,
it comes to the same as the pass without the list.  So a report is drawn up without
any effect on what it reports, `fired_applyReporting`.  What holds of the calls of a
pass and carries over to the whole holds of a pass that reports (`closed_applyReporting`).
-/

namespace TokenRules

variable {σ ε : Type}

/-- A pass that carries a state along comes to a pass without it, whatever the state. -/
def Forgets {α : Type} (stateful : StateT σ (Pass ε) α) (pass : Pass ε α) : Prop :=
  ∀ state, Prod.fst <$> stateful.run state = pass

theorem simulation_forgets :
    Simulation (StateT σ (Pass ε)) (Pass ε) (Forgets (σ := σ) (ε := ε)) where
  pure a state := by rw [StateT.run_pure, map_pure]
  bind := by
    intro α β stateful pass f g hpass hf state
    rw [StateT.run_bind, map_bind, ← hpass state, bind_map_left]
    exact bind_congr fun next => hf next.1 next.2

theorem forgets_lift {α : Type} (pass : Pass ε α) :
    Forgets (liftM pass : StateT σ (Pass ε) α) pass := by
  intro state
  show Prod.fst <$> (pass >>= fun a => pure (a, state)) = pass
  rw [map_bind]
  simp

theorem forgets_modify (f : σ → σ) :
    Forgets (modify f : StateT σ (Pass ε) Unit) (pure ()) := fun _ => rfl

namespace Evaluator

variable (evaluator : Evaluator) {called : String → StateT σ (Pass EvalError) Unit}
  (hcalled : ∀ function, Forgets (called function) (pure ()))
include hcalled

theorem forgets_test (literal : Literal) :
    Forgets (evaluator.test called literal) (evaluator.testSilently literal) := by
  rw [testSilently, test, test]
  cases evaluator.registry.predicate? literal.call.function with
  | none => exact forgets_lift _
  | some predicate => exact simulation_forgets.bind (hcalled _) fun _ => forgets_lift _

theorem forgets_applyAll (rules : List Rule) :
    Forgets (evaluator.applyAllWith called rules) (evaluator.applyAll rules) := by
  refine simulation_forgets.applyAllWith (fun rule _ => ?_) fun rule _ => forgets_lift _
  exact simulation_forgets.evaluate _ _ fun literal _ => evaluator.forgets_test hcalled literal

end Evaluator

/-! ### Properties of passes that report -/

section Closed

variable {P : ∀ {α : Type}, Pass ε α → Prop} (hP : Pass.Closed P)
include hP

/-- A property that carries over from the parts of a pass to the whole does so where a state is
carried along. -/
theorem Pass.Closed.simulation_stateful :
    Simulation (StateT σ (Pass ε)) (StateT σ (Pass ε)) fun stateful _ =>
      ∀ state, P (stateful.run state) where
  pure a state := by
    rw [StateT.run_pure]
    exact hP.pure _
  bind hfirst hrest state := by
    rw [StateT.run_bind]
    exact hP.bind (hfirst state) fun next => hrest next.1 next.2

theorem Pass.Closed.lift {α : Type} {pass : Pass ε α} (h : P pass) (state : σ) :
    P ((liftM pass : StateT σ (Pass ε) α).run state) :=
  hP.bind h fun a => hP.pure (a, state)

end Closed

/-- What holds of the calls holds of a pass over rules that reports them. -/
theorem RuleSet.closed_applyReporting {P : ∀ {α : Type}, Pass EvalError α → Prop}
    (hP : Pass.Closed P) {registry : Registry}
    (hpredicate : ∀ (predicate : Predicate) (call : Call),
      registry.predicate? call.function = some predicate → P (predicate.invoke call))
    (haction : ∀ (action : Action) (call : Call),
      registry.action? call.function = some action → P (action.invoke call)) (set : RuleSet) :
    P (set.applyReporting registry) := by
  let evaluator := set.evaluator registry
  let called : String → StateT (List String) (Pass EvalError) Unit := fun function =>
    modify (· ++ [function])
  have hsimulation := hP.simulation_stateful (σ := List String)
  have hcalled : ∀ function state, P ((called function).run state) := fun function state =>
    hP.pure ((), state ++ [function])
  have htest : ∀ literal state, P ((evaluator.test called literal).run state) := by
    intro literal state
    have hsilent := evaluator.closed_test hP hpredicate literal
    cases h : evaluator.registry.predicate? literal.call.function with
    | none =>
      rw [Evaluator.test, h]
      exact hP.lift (hP.fail _) state
    | some predicate =>
      rw [Evaluator.test, h, StateT.run_bind]
      rw [evaluator.testSilently_eq literal h] at hsilent
      exact hP.bind (hcalled _ state) fun next => hP.lift hsilent next.2
  have hactions : ∀ rule : Rule, P (evaluator.dispatchAll rule.actions) := fun rule =>
    hP.simulation.dispatchAll evaluator evaluator fun call _ =>
      evaluator.closed_dispatch hP haction call
  have hrules := @Simulation.applyAllWith _ _ _ _ _ hsimulation evaluator evaluator _ _ called
    called set.rules
    (fun rule _ => hsimulation.evaluate _ (evaluator.test called) fun literal _ => htest literal)
    fun rule _ => hP.lift (hactions rule)
  exact hP.bind (hrules []) fun _ => hP.pure _

/-- **Reporting changes nothing**: a pass that reports does what the pass without a report does, and
reports the rules that fire. -/
theorem RuleSet.fired_applyReporting (set : RuleSet) (registry : Registry) :
    Report.fired <$> set.applyReporting registry = set.apply registry := by
  have hcalled : ∀ function : String,
      Forgets (modify (· ++ [function]) : StateT (List String) (Pass EvalError) Unit) (pure ()) :=
    fun function => forgets_modify _
  have hforgets := (set.evaluator registry).forgets_applyAll hcalled set.rules []
  rw [applyReporting, map_bind, apply, ← hforgets, ← bind_pure_comp]
  exact bind_congr fun _ => map_pure ..

end TokenRules
