import TokenRules.Evaluator
import TokenRules.NameMap.Lemmas
import TokenRules.Proofs.ShortCircuit

/-!
# Answers of predicates

`Registry.answer` is what the call of a predicate comes to at a context: a truth
value, an argument that cannot be used, or no such predicate.  It depends on the
sight of the context only (`answer_congr`).  The evaluation of a condition is
determined and quiet (`determined_evaluate`, `quiet_evaluate`), and its result is
that of an evaluation of answers (`result_evaluate`).

`Condition.plainValue` is the value of a condition when every leaf is asked, groups
are taken as a whole and no cost plays a part.  A leaf that fails has no truth
value of its own, so it is given one by its place.  Main statement:
`evaluate_eq_plainValue`.
-/

namespace TokenRules

/-! ### Calls -/

@[simp] theorem Registry.predicate?_registerPredicate (registry : Registry) (name other : String)
    (predicate : Predicate) :
    (registry.registerPredicate name predicate).predicate? other =
      if other = name then some predicate else registry.predicate? other :=
  NameMap.get?_insert ..

@[simp] theorem Registry.predicate?_registerAction (registry : Registry) (name other : String)
    (action : Action) :
    (registry.registerAction name action).predicate? other = registry.predicate? other := rfl

@[simp] theorem Registry.action?_registerAction (registry : Registry) (name other : String)
    (action : Action) :
    (registry.registerAction name action).action? other =
      if other = name then some action else registry.action? other :=
  NameMap.get?_insert ..

/-- What the call of a predicate comes to at a context. -/
def Registry.answer (registry : Registry) (context : Context) (call : Call) :
    Except EvalError Bool :=
  match registry.predicate? call.function with
  | none => .error (.unknownPredicate call.function)
  | some predicate =>
    ((predicate call.args).run context).result.bind
      (Except.mapError (.invalidArguments call.function))

/-- A call in terms of the meaning of the predicate. -/
theorem Registry.answer_eq (registry : Registry) (context : Context) (call : Call) :
    registry.answer context call =
      match registry.predicate? call.function with
      | none => .error (.unknownPredicate call.function)
      | some predicate =>
        ((predicate call.args).meaning context.sight).1.mapError
          (.invalidArguments call.function) := by
  unfold answer
  cases registry.predicate? call.function with
  | none => rfl
  | some predicate =>
    have h := congrArg Effect.result
      (Program.effect_run (ε := EvalError) (predicate call.args) context)
    simp only [Outcome.effect] at h
    simp only [h, Except.bind]

/-- The answer of a registered predicate is what it means at the sight of the context. -/
theorem Registry.answer_of_predicate? {registry : Registry} {call : Call} {predicate : Predicate}
    (h : registry.predicate? call.function = some predicate) (context : Context) :
    registry.answer context call =
      ((predicate call.args).meaning context.sight).1.mapError
        (.invalidArguments call.function) := by
  rw [answer_eq, h]

theorem Registry.answer_congr (registry : Registry) {c d : Context} (h : c.sight = d.sight)
    (call : Call) : registry.answer c call = registry.answer d call := by
  rw [answer_eq, answer_eq, h]

/-- Whether the answer to a call is yes. -/
def Registry.affirms (registry : Registry) (context : Context) (call : Call) : Bool :=
  match registry.answer context call with
  | .ok holds => holds
  | .error _ => false

/-- The truth value of a literal, where a call that fails counts as answered by no. -/
def Registry.truth (registry : Registry) (context : Context) (literal : Literal) : Bool :=
  registry.affirms context literal.call != literal.negate

theorem Registry.truth_call (registry : Registry) (context : Context) (call : Call) :
    registry.truth context ⟨call, false⟩ = registry.affirms context call :=
  Bool.bne_false _

theorem Registry.truth_of_answer {registry : Registry} {context : Context} {call : Call} {b : Bool}
    (h : registry.answer context call = .ok b) : registry.truth context ⟨call, false⟩ = b := by
  rw [truth_call, affirms, h]

theorem effect_invoke {ε : Type} (predicate : Predicate) (call : Call) (c : Context) :
    (predicate.invoke call c : Outcome ε (Except ArgumentError Bool)).effect =
      ⟨.ok ((predicate call.args).meaning c.sight).1, c.sight, []⟩ := by
  rw [Predicate.invoke, Pass.effect_bind_of_ok rfl, Program.effect_run, Program.meaning_reads]
  rfl

/-! ### Literals -/

namespace Evaluator

/-- The answer that a literal gives. -/
def outcome (evaluator : Evaluator) (context : Context) (literal : Literal) :
    Except EvalError Bool :=
  (evaluator.registry.answer context literal.call).map (· != literal.negate)

/-- Test of a literal that tells no one of the call. -/
abbrev testSilently (evaluator : Evaluator) (literal : Literal) : Pass EvalError Bool :=
  evaluator.test (fun _ => pure ()) literal

theorem testSilently_eq (evaluator : Evaluator) (literal : Literal) {predicate : Predicate}
    (h : evaluator.registry.predicate? literal.call.function = some predicate) :
    evaluator.testSilently literal = predicate.invoke literal.call >>= fun
      | .ok holds => pure (holds != literal.negate)
      | .error e => Pass.fail (.invalidArguments literal.call.function e) := by
  rw [testSilently, test, h]
  exact pure_bind _ _

theorem effect_test (evaluator : Evaluator) (literal : Literal) (c : Context) :
    (evaluator.testSilently literal c).effect = ⟨evaluator.outcome c literal, c.sight, []⟩ := by
  rw [outcome, Registry.answer_eq]
  cases h : evaluator.registry.predicate? literal.call.function with
  | none => rw [testSilently, test, h]; rfl
  | some predicate =>
    have hinvoke := effect_invoke (ε := EvalError) predicate literal.call c
    rw [evaluator.testSilently_eq literal h]
    cases hanswer : ((predicate literal.call.args).meaning c.sight).1 with
    | ok holds | error e =>
      obtain ⟨after, hsight, heffect⟩ := Pass.exists_effect_bind (hanswer ▸ hinvoke) _
      rw [heffect]
      simp only [hanswer]
      exact Effect.ext rfl hsight rfl

theorem determined_test (evaluator : Evaluator) (literal : Literal) :
    (evaluator.testSilently literal).Determined := by
  intro c d h
  rw [effect_test, effect_test, outcome, outcome, Registry.answer_congr _ h, h]

theorem quiet_test (evaluator : Evaluator) (literal : Literal) :
    (evaluator.testSilently literal).Quiet := by
  intro c
  rw [effect_test]
  exact ⟨rfl, rfl⟩

/-! ### Conditions -/

theorem determined_evaluate (evaluator : Evaluator) (condition : Condition) :
    (evaluator.evaluate condition).Determined :=
  Formula.closed_evaluate Pass.closed_determined evaluator.determined_test condition

theorem quiet_evaluate (evaluator : Evaluator) (condition : Condition) :
    (evaluator.evaluate condition).Quiet :=
  Formula.closed_evaluate Pass.closed_quiet evaluator.quiet_test condition

theorem result_evaluate (evaluator : Evaluator) (condition : Condition) (c : Context) :
    (evaluator.evaluate condition c).result =
      Formula.evaluate (fun literal => evaluator.costs.cost literal.call.function)
        (evaluator.outcome c) condition := by
  have houtcome :
      (fun literal => (evaluator.testSilently literal c).result) = evaluator.outcome c :=
    funext fun literal => congrArg Effect.result (evaluator.effect_test literal c)
  rw [← houtcome]
  exact Formula.result_evaluate evaluator.determined_test evaluator.quiet_test condition c

end Evaluator

namespace Condition

/-- The value of a condition at a context, all leaves asked and groups taken as a whole.  The leaf
at place `i` from the left, if it fails, counts as answered by `fill i`. -/
def plainValue (registry : Registry) (context : Context) (fill : Nat → Bool)
    (condition : Condition) : Bool :=
  Formula.value (condition.numbered.map fun leaf =>
    (match registry.answer context leaf.1.call with
      | .ok holds => holds
      | .error _ => fill leaf.2) != leaf.1.negate)

theorem plainValue_of_evaluate_eq_ok {evaluator : Evaluator} {condition : Condition}
    {context : Context} {b : Bool} (h : (evaluator.evaluate condition context).result = .ok b)
    (fill : Nat → Bool) : condition.plainValue evaluator.registry context fill = b := by
  rw [Evaluator.result_evaluate, ← Formula.map_fst_numbered condition, Formula.evaluate_map] at h
  refine Formula.value_of_evaluate_eq_ok (fun leaf _ holds hholds => ?_) h
  simp only [Function.comp, Evaluator.outcome] at hholds
  cases hanswer : evaluator.registry.answer context leaf.1.call with
  | ok answer => rw [hanswer] at hholds; exact Except.ok.inj hholds
  | error e => rw [hanswer] at hholds; cases hholds

/-- Where no leaf fails, evaluation ends in the value of the condition. -/
theorem evaluate_eq_value_truth {registry : Registry} {condition : Condition} {context : Context}
    (h : ∀ literal ∈ condition.atoms, ∃ b, registry.answer context literal.call = .ok b)
    (costs : CostTable) :
    (Evaluator.evaluate ⟨costs, registry⟩ condition context).result =
      .ok (condition.map (registry.truth context)).value := by
  rw [Evaluator.result_evaluate]
  refine Formula.evaluate_eq_ok _ fun literal hmem => ?_
  obtain ⟨answer, hanswer⟩ := h literal hmem
  rw [Evaluator.outcome, Registry.truth, Registry.affirms, hanswer]
  rfl

/-- **Evaluation agrees with the plain value.**  It ends in the plain value if no leaf fails; and
if it ends in a truth value at all, that is the plain value whatever the failing leaves are taken
for.  So costs never turn one truth value into the other, and a condition whose value hangs on a
failing leaf has an error. -/
theorem evaluate_eq_plainValue (registry : Registry) (condition : Condition) (context : Context) :
    ((∀ literal ∈ condition.atoms, ∃ b, registry.answer context literal.call = .ok b) →
      ∀ costs fill, (Evaluator.evaluate ⟨costs, registry⟩ condition context).result =
        .ok (condition.plainValue registry context fill)) ∧
    (∀ costs b, (Evaluator.evaluate ⟨costs, registry⟩ condition context).result = .ok b →
      ∀ fill, condition.plainValue registry context fill = b) ∧
    (∀ costs others, (Evaluator.evaluate ⟨costs, registry⟩ condition context).result = .ok true →
      (Evaluator.evaluate ⟨others, registry⟩ condition context).result ≠ .ok false) ∧
    (∀ fill other, condition.plainValue registry context fill ≠
        condition.plainValue registry context other →
      ∀ costs b, (Evaluator.evaluate ⟨costs, registry⟩ condition context).result ≠ .ok b) := by
  refine ⟨fun h costs fill => ?_, fun costs b h fill => plainValue_of_evaluate_eq_ok h fill,
    fun costs others htrue hfalse => ?_, fun fill other hne costs b h => ?_⟩
  · have hb := evaluate_eq_value_truth h costs
    rw [hb, plainValue_of_evaluate_eq_ok hb]
  · have h := plainValue_of_evaluate_eq_ok htrue fun _ => false
    rw [plainValue_of_evaluate_eq_ok hfalse] at h
    cases h
  · have hfill := plainValue_of_evaluate_eq_ok h fill
    exact hne (hfill.trans (plainValue_of_evaluate_eq_ok h other).symm)

/-- A predicate that is not registered does no harm behind a cheaper one that decides, and a
condition without it has its plain value. -/
theorem evaluate_any_ghost_yes :
    let registry := (∅ : Registry).registerPredicate "yes" fun _ => .done (.ok true)
    let costs : CostTable := (∅ : CostTable).insert "ghost" ⟨⟨0x4014000000000000⟩, by decide⟩
    let context := Context.ofTokens []
    (Evaluator.evaluate ⟨costs, registry⟩ (.any [call "ghost", call "yes"]) context).result =
        .ok true ∧
      (∀ fill, plainValue registry context fill (.any [call "ghost", call "yes"]) = true) ∧
      ∀ fill, (Evaluator.evaluate ⟨costs, registry⟩ (.not (call "yes")) context).result =
        .ok (plainValue registry context fill (.not (call "yes"))) := by
  intro registry costs context
  have hresult : (Evaluator.evaluate ⟨costs, registry⟩ (.any [call "ghost", call "yes"])
      context).result = .ok true := by
    rw [Evaluator.result_evaluate, Formula.evaluate]
    show disjunction (cheapestFirst [_, _]) = _
    rw [cheapestFirst_pair, if_neg (by decide)]
    rfl
  have hleaf : ∀ literal ∈ Formula.atoms (.not (call "yes")),
      ∃ b, registry.answer context literal.call = .ok b := by
    intro literal hmem
    obtain rfl : literal = ⟨⟨"yes", ∅⟩, false⟩ := List.mem_singleton.1 hmem
    exact ⟨true, rfl⟩
  refine ⟨hresult, ?_, ?_⟩
  · exact (evaluate_eq_plainValue registry _ context).2.1 costs true hresult
  · exact (evaluate_eq_plainValue registry _ context).1 hleaf costs

end Condition

end TokenRules
