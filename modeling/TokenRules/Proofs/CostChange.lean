import TokenRules.Builtin
import TokenRules.Proofs.Positions

/-!
# Change of costs

Where every predicate that the rules call answers in every context, an evaluation
ends in the plain value of the condition under any costs, so passes under two cost
tables are alike (`alike_applyAll`).  Actions depend on no costs.  Main statement:
`withCosts_result_eq`.
-/

namespace TokenRules

/-- Every predicate that the rules call is registered and answers in every context. -/
def RuleSet.Answered (set : RuleSet) (registry : Registry) : Prop :=
  ∀ rule ∈ set.rules, ∀ literal ∈ rule.condition.atoms, ∀ context : Context,
    ∃ b, registry.answer context literal.call = .ok b

namespace Evaluator

variable {registry : Registry} (costs others : CostTable)

theorem alike_evaluate {condition : Condition}
    (h : ∀ literal ∈ condition.atoms, ∀ context : Context,
      ∃ b, registry.answer context literal.call = .ok b) :
    (evaluate ⟨costs, registry⟩ condition).Alike (evaluate ⟨others, registry⟩ condition) := by
  intro c d hsight
  obtain ⟨hsight₁, hactions₁⟩ := quiet_evaluate ⟨costs, registry⟩ condition c
  obtain ⟨hsight₂, hactions₂⟩ := quiet_evaluate ⟨others, registry⟩ condition c
  have hresult : (evaluate ⟨costs, registry⟩ condition c).result =
      (evaluate ⟨others, registry⟩ condition c).result := by
    have hanswers := fun literal hmem => h literal hmem c
    rw [Condition.evaluate_eq_value_truth hanswers, Condition.evaluate_eq_value_truth hanswers]
  have heffect : (evaluate ⟨costs, registry⟩ condition c).effect =
      (evaluate ⟨others, registry⟩ condition c).effect :=
    Effect.ext hresult (hsight₁.trans hsight₂.symm) (hactions₁.trans hactions₂.symm)
  exact heffect.trans (determined_evaluate ⟨others, registry⟩ condition hsight)

theorem alike_applyAll {rules : List Rule}
    (h : ∀ rule ∈ rules, ∀ literal ∈ rule.condition.atoms, ∀ context : Context,
      ∃ b, registry.answer context literal.call = .ok b) :
    (applyAll ⟨costs, registry⟩ rules).Alike (applyAll ⟨others, registry⟩ rules) := by
  refine Pass.simulation_alike.applyAll _ _
    (fun rule hmem => alike_evaluate costs others (h rule hmem)) fun rule _ call _ => ?_
  show (dispatch ⟨others, registry⟩ call).Determined
  exact closed_dispatch _ Pass.closed_determined
    (fun action call _ => determined_invoke action call) call

end Evaluator

namespace Engine

variable {engine : Engine}

/-- The engine with other costs of predicates. -/
def withCosts (engine : Engine) (costs : CostTable) : Engine :=
  { engine with rules := engine.rules.withCosts costs }

theorem editsAt_withCosts (h : engine.rules.Answered engine.registry) (costs others : CostTable)
    (tokens : List String) :
    (engine.withCosts costs).editsAt tokens = (engine.withCosts others).editsAt tokens := by
  funext index
  have heffect : ((engine.withCosts costs).applyAt tokens index none).effect =
      ((engine.withCosts others).applyAt tokens index none).effect :=
    Evaluator.alike_applyAll costs others h rfl
  rw [editsAt_eq_effect, editsAt_eq_effect, heffect]

/-- **Costs only steer the order.**  Where every predicate that the rules call answers in every
context, two cost tables lead to one result of every run; and a single pass over the rules ends in
the same names or the same error, in contexts that differ at most in what they keep for speed, by
the same actions. -/
theorem withCosts_result_eq (engine : Engine) (h : engine.rules.Answered engine.registry)
    (costs others : CostTable) :
    (∀ sentence, ((engine.withCosts costs).run sentence).result =
      ((engine.withCosts others).run sentence).result) ∧
    ∀ context,
      let first := (engine.rules.withCosts costs).apply engine.registry context
      let second := (engine.rules.withCosts others).apply engine.registry context
      first.result = second.result ∧ first.context.edits = second.context.edits ∧
        first.context.sight = second.context.sight ∧
        first.events.filterMap Event.action? = second.events.filterMap Event.action? := by
  refine ⟨fun sentence => ?_, fun context => ?_⟩
  · rw [run_result, run_result, editsAt_withCosts h costs others]
  · have heffect := Evaluator.alike_applyAll costs others h (rfl : context.sight = context.sight)
    exact ⟨congrArg Effect.result heffect, congrArg (Sight.edits ∘ Effect.sight) heffect,
      congrArg Effect.sight heffect, congrArg Effect.actions heffect⟩

/-- A rule with one predicate that reads the index and one that asks for the analysis: the first
spares the second or not, as costs will have it. -/
theorem run_first_or_tagged :
    let first : Predicate := fun _ => .look fun view => .done (.ok (view.index == 0))
    let tagged : Predicate := fun _ => .look fun view => .analysis fun analysis =>
      .done (.ok (analysis.hasFeature view.index "noun"))
    let registry := (Builtin.registry.registerPredicate "first" first).registerPredicate
      "tagged" tagged
    let rule : Rule := ⟨"mark", "", .any [Condition.call "tagged", Condition.call "first"],
      [⟨"add_after", (∅ : Arguments).insert "letter" (.text "h")⟩]⟩
    let engine : Engine := ⟨⟨[rule], ∅, by decide⟩, registry, ∅, Analyzer.none⟩
    let costs : CostTable := (∅ : CostTable).insert "tagged" ⟨⟨0x4014000000000000⟩, by decide⟩
    engine.rules.Answered registry ∧
      ∀ sentence, ((engine.withCosts ∅).run sentence).result =
        ((engine.withCosts costs).run sentence).result := by
  intro first tagged registry rule engine costs
  have hfirst : registry.predicate? "first" = some first := by simp [registry]
  have htagged : registry.predicate? "tagged" = some tagged := by simp [registry]
  have hanswered : engine.rules.Answered registry := by
    intro other hother literal hmem context
    obtain rfl := List.mem_singleton.1 hother
    have hliteral : literal = ⟨⟨"tagged", ∅⟩, false⟩ ∨ literal = ⟨⟨"first", ∅⟩, false⟩ := by
      simpa [rule, Condition.call, Formula.mem_atoms_any, Formula.atoms] using hmem
    rcases hliteral with rfl | rfl
    · exact ⟨_, (Registry.answer_of_predicate? htagged context).trans rfl⟩
    · exact ⟨_, (Registry.answer_of_predicate? hfirst context).trans rfl⟩
  exact ⟨hanswered, (withCosts_result_eq engine hanswered ∅ costs).1⟩

end Engine

end TokenRules
