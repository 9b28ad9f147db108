import Mathlib.Data.List.Flatten
import TokenRules.Proofs.Answers
import TokenRules.Proofs.WrittenOrder

/-!
# Traces of evaluations

A `Trace` says of a computation which items it tries, one after the other, and what it comes to.
With outcomes that are known beforehand the trace of a formula is an evaluation like any other
(`Formula.trace`), from left to right and in the monad of traces; so what carries over from the
parts of a computation to the whole holds of it.  It tries atoms in the order in which they are
written (`tried_trace_sublist`), and it ends with the first of them that fails or else tries none
that fails (`ends_trace`).

A pass `Follows` a trace if it comes to the same and calls the predicates of the items tried.  By
cost, a condition is evaluated along the trace of the sorted condition.  Main statement:
`evaluate_eq_presorted`.
-/

namespace TokenRules

variable {ι ε α β : Type}

/-- The items that a computation tries, in order, and what it comes to. -/
structure Trace (ι ε α : Type) where
  tried : List ι
  result : Except ε α

namespace Trace

/-- Go on from a trace that ended well. -/
def bind (trace : Trace ι ε α) (f : α → Trace ι ε β) : Trace ι ε β :=
  match trace.result with
  | .ok a => ⟨trace.tried ++ (f a).tried, (f a).result⟩
  | .error e => ⟨trace.tried, .error e⟩

instance : Monad (Trace ι ε) where
  pure a := ⟨[], .ok a⟩
  bind := bind

theorem bind_of_ok {trace : Trace ι ε α} {a : α} (h : trace.result = .ok a)
    (f : α → Trace ι ε β) :
    trace >>= f = ⟨trace.tried ++ (f a).tried, (f a).result⟩ := by
  show trace.bind f = _
  rw [bind, h]

theorem bind_of_error {trace : Trace ι ε α} {e : ε} (h : trace.result = .error e)
    (f : α → Trace ι ε β) : trace >>= f = ⟨trace.tried, .error e⟩ := by
  show trace.bind f = _
  rw [bind, h]

/-! ### Order of the items -/

theorem tried_bind_sublist (trace : Trace ι ε α) {f : α → Trace ι ε β} {items : List ι}
    (h : ∀ a, (f a).tried.Sublist items) : (trace >>= f).tried.Sublist (trace.tried ++ items) := by
  cases htrace : trace.result with
  | ok a =>
    rw [bind_of_ok htrace]
    exact (h a).append_left _
  | error e =>
    rw [bind_of_error htrace]
    exact List.sublist_append_left _ _

theorem tried_conjunction_sublist (traces : List (Trace ι ε Bool)) :
    (conjunction traces).tried.Sublist (traces.flatMap tried) := by
  induction traces with
  | nil => exact List.Sublist.refl _
  | cons trace rest ih =>
    refine trace.tried_bind_sublist fun holds => ?_
    cases holds with
    | true => exact ih
    | false => exact List.nil_sublist _

theorem tried_disjunction_sublist (traces : List (Trace ι ε Bool)) :
    (disjunction traces).tried.Sublist (traces.flatMap tried) := by
  induction traces with
  | nil => exact List.Sublist.refl _
  | cons trace rest ih =>
    refine trace.tried_bind_sublist fun holds => ?_
    cases holds with
    | true => exact List.nil_sublist _
    | false => exact ih

/-! ### The first failure -/

/-- The trace ends with the first item that fails, and with its error, or tries none that fails. -/
structure Ends (outcome : ι → Except ε Bool) (trace : Trace ι ε α) : Prop where
  of_ok : ∀ a, trace.result = .ok a → ∀ item ∈ trace.tried, ∃ b, outcome item = .ok b
  of_error : ∀ e, trace.result = .error e → ∃ before last, trace.tried = before ++ [last] ∧
    outcome last = .error e ∧ ∀ item ∈ before, ∃ b, outcome item = .ok b

section Ends

variable {outcome : ι → Except ε Bool} {trace : Trace ι ε α}

theorem ends_single (item : ι) : (⟨[item], outcome item⟩ : Trace ι ε Bool).Ends outcome where
  of_ok b h _ hmem := ⟨b, List.mem_singleton.1 hmem ▸ h⟩
  of_error _ h := ⟨[], item, rfl, h, fun _ hmem => absurd hmem List.not_mem_nil⟩

theorem Ends.bind {f : α → Trace ι ε β} (htrace : trace.Ends outcome)
    (hf : ∀ a, (f a).Ends outcome) : (trace >>= f).Ends outcome := by
  cases h : trace.result with
  | ok a =>
    have hitems := htrace.of_ok a h
    rw [bind_of_ok h]
    refine ⟨fun b hb item hmem => ?_, fun e he => ?_⟩
    · exact (List.mem_append.1 hmem).elim (hitems item) ((hf a).of_ok b hb item)
    · obtain ⟨before, last, htried, hlast, hbefore⟩ := (hf a).of_error e he
      refine ⟨trace.tried ++ before, last, ?_, hlast, fun item hmem => ?_⟩
      · rw [List.append_assoc, ← htried]
      · exact (List.mem_append.1 hmem).elim (hitems item) (hbefore item)
  | error e =>
    rw [bind_of_error h]
    refine ⟨fun b hb => (nomatch hb), fun e' he => ?_⟩
    cases he
    exact htrace.of_error e h

theorem simulation_ends (outcome : ι → Except ε Bool) :
    Simulation (Trace ι ε) (Trace ι ε) fun trace _ => trace.Ends outcome where
  pure _ := ⟨fun _ _ _ hmem => absurd hmem List.not_mem_nil, fun _ h => (nomatch h)⟩
  bind := Ends.bind

theorem Ends.result_eq_error_iff (h : trace.Ends outcome) (e : ε) :
    trace.result = .error e ↔ ∃ before last, trace.tried = before ++ [last] ∧
      outcome last = .error e ∧ ∀ item ∈ before, ∃ b, outcome item = .ok b := by
  refine ⟨h.of_error e, fun ⟨before, last, htried, hlast, _⟩ => ?_⟩
  cases hresult : trace.result with
  | ok a =>
    have hmem : last ∈ trace.tried := by simp [htried]
    obtain ⟨b, hb⟩ := h.of_ok a hresult last hmem
    rw [hlast] at hb
    cases hb
  | error e' =>
    obtain ⟨others, other, htried', hother, -⟩ := h.of_error e' hresult
    have hsame : last = other := by simpa using (List.append_inj' (htried.symm.trans htried') rfl).2
    rw [hsame, hother] at hlast
    cases hlast
    rfl

end Ends

end Trace

namespace Formula

/-- The evaluation of a formula from left to right, where it is known what each atom comes to. -/
def trace (outcome : α → Except ε Bool) (formula : Formula α) : Trace α ε Bool :=
  formula.evaluateAsWritten fun a => ⟨[a], outcome a⟩

/-- **Atoms are tried in the order in which they are written**, each occurrence at most once. -/
theorem tried_trace_sublist (outcome : α → Except ε Bool) (formula : Formula α) :
    (formula.trace outcome).tried.Sublist formula.atoms := by
  unfold trace
  induction formula with
  | atom a => exact List.Sublist.refl _
  | not formula ih =>
    have hnot := (formula.trace outcome).tried_bind_sublist (f := fun holds => pure !holds)
      fun _ => List.nil_sublist []
    rw [List.append_nil] at hnot
    exact hnot.trans ih
  | all formulas ih =>
    rw [evaluateAsWritten, evaluationsAsWritten_eq, atoms, atomsList_eq]
    refine (Trace.tried_conjunction_sublist _).trans ?_
    rw [List.flatMap_map]
    exact List.Sublist.flatMap_right formulas ih
  | any formulas ih =>
    rw [evaluateAsWritten, evaluationsAsWritten_eq, atoms, atomsList_eq]
    refine (Trace.tried_disjunction_sublist _).trans ?_
    rw [List.flatMap_map]
    exact List.Sublist.flatMap_right formulas ih

theorem ends_trace (outcome : α → Except ε Bool) (formula : Formula α) :
    (formula.trace outcome).Ends outcome :=
  let test : α → Trace α ε Bool := fun a => ⟨[a], outcome a⟩
  evaluateAsWritten_of_simulation (Trace.simulation_ends outcome) test test fun a _ =>
    Trace.ends_single a

end Formula

/-! ### Passes that call no predicate -/

namespace Pass

/-- No predicate is called. -/
def Silent (pass : Pass ε α) : Prop :=
  ∀ c : Context, (pass c).events.filterMap Event.predicate? = []

/-- What comes after a pass in silence adds no call of a predicate. -/
theorem calls_bind_of_silent (pass : Pass ε α) {f : α → Pass ε β} (hf : ∀ a, (f a).Silent)
    (c : Context) :
    ((pass >>= f) c).events.filterMap Event.predicate? =
      (pass c).events.filterMap Event.predicate? := by
  cases h : (pass c).result with
  | ok a => rw [bind_of_ok h, List.filterMap_append, hf a, List.append_nil]
  | error e => rw [bind_of_error h]

theorem Silent.bind {pass : Pass ε α} {f : α → Pass ε β} (hpass : pass.Silent)
    (hf : ∀ a, (f a).Silent) : (pass >>= f).Silent := fun c =>
  (pass.calls_bind_of_silent hf c).trans (hpass c)

theorem closed_silent : Closed (ε := ε) Silent where
  pure _ _ := rfl
  fail _ _ := rfl
  bind := Silent.bind

theorem silent_analysis : (analysis : Pass ε Analysis).Silent := by
  intro c
  unfold analysis
  cases c.memo <;> rfl

end Pass

/-- A program calls no predicate. -/
theorem Program.silent_run {access : Access} (program : Program access α) :
    (program.run : Pass ε α).Silent := by
  induction program with
  | done result => exact fun _ => rfl
  | look next ih => exact Pass.Silent.bind (fun _ => rfl) fun context => ih context.view
  | analysis next ih => exact Pass.silent_analysis.bind ih
  | inlineSet words next ih => exact Pass.Silent.bind (fun _ => rfl) ih
  | record mayEdit edit next ih => exact Pass.Silent.bind (fun _ => rfl) fun _ => ih
  | drain mayEdit next ih => exact Pass.Silent.bind (fun _ => rfl) ih

/-- The call that a test of the literal makes, which it does if the predicate is registered. -/
def Registry.called (registry : Registry) (literal : Literal) : List Call :=
  if (registry.predicate? literal.call.function).isSome then [literal.call] else []

theorem Evaluator.calls_test (evaluator : Evaluator) (literal : Literal) (c : Context) :
    (evaluator.testSilently literal c).events.filterMap Event.predicate? =
      evaluator.registry.called literal := by
  cases h : evaluator.registry.predicate? literal.call.function with
  | none =>
    rw [testSilently, test, Registry.called, h]
    rfl
  | some predicate =>
    rw [evaluator.testSilently_eq literal h, Registry.called, h, Pass.calls_bind_of_silent,
      Predicate.invoke, Pass.calls_bind_of_silent]
    · rfl
    · exact fun _ => (predicate literal.call.args).silent_run
    · intro answer
      cases answer <;> exact fun _ => rfl

/-! ### Passes that follow a trace -/

namespace Pass

/-- From any context that looks like `context` the pass comes to what the trace comes to and leaves
no trace in sight, and the predicates that it calls are those of the items tried. -/
def Follows (context : Context) (calls : ι → List Call) (pass : Pass ε α)
    (trace : Trace ι ε α) : Prop :=
  ∀ c : Context, c.sight = context.sight →
    (pass c).result = trace.result ∧ (pass c).context.sight = context.sight ∧
      (pass c).events.filterMap Event.predicate? = trace.tried.flatMap calls

theorem simulation_follows (context : Context) (calls : ι → List Call) :
    Simulation (Pass ε) (Trace ι ε) (Follows context calls) where
  pure _ _ hc := ⟨rfl, hc, rfl⟩
  bind := by
    intro α β pass trace f g hpass hf c hc
    obtain ⟨hresult, hsight, hcalls⟩ := hpass c hc
    cases htrace : trace.result with
    | ok a =>
      obtain ⟨hresult', hsight', hcalls'⟩ := hf a _ hsight
      rw [bind_of_ok (hresult.trans htrace), Trace.bind_of_ok htrace]
      refine ⟨hresult', hsight', ?_⟩
      rw [List.filterMap_append, hcalls, hcalls', List.flatMap_append]
    | error e =>
      rw [bind_of_error (hresult.trans htrace), Trace.bind_of_error htrace]
      exact ⟨rfl, hsight, hcalls⟩

end Pass

namespace Evaluator

theorem follows_test (evaluator : Evaluator) (context : Context) (literal : Literal) :
    (evaluator.testSilently literal).Follows context evaluator.registry.called
      ⟨[literal], evaluator.outcome context literal⟩ := by
  intro c hc
  have heffect := evaluator.effect_test literal c
  have houtcome : evaluator.outcome c literal = evaluator.outcome context literal := by
    rw [outcome, outcome, Registry.answer_congr _ hc]
  refine ⟨(congrArg Effect.result heffect).trans houtcome,
    (congrArg Effect.sight heffect).trans hc, ?_⟩
  rw [evaluator.calls_test, List.flatMap_singleton]

end Evaluator

/-- The condition with the members of every group in ascending order of the estimates of a cost
table, those of equal cost in the order given. -/
def CostTable.presort (costs : CostTable) (condition : Condition) : Condition :=
  Formula.presort (fun literal => costs.cost literal.call.function) condition

namespace Evaluator

/-- Evaluation follows the trace of the condition sorted by cost. -/
theorem follows_evaluate (evaluator : Evaluator) (condition : Condition) (context : Context) :
    (evaluator.evaluate condition).Follows context evaluator.registry.called
      ((evaluator.costs.presort condition).trace (evaluator.outcome context)) := by
  have hsorted : evaluator.evaluate condition =
      (evaluator.costs.presort condition).evaluateAsWritten evaluator.testSilently :=
    Formula.evaluate_eq_presort _ _ condition
  rw [hsorted]
  exact Formula.evaluateAsWritten_of_simulation
    (Pass.simulation_follows context evaluator.registry.called) _ _
    fun literal _ => evaluator.follows_test context literal

/-- **Sorting during evaluation is evaluation of the condition sorted beforehand**: from left to
right without any sorting, without costs, and by the same costs again.  These are one and the same
pass, so they have the same result, call the same predicates with the same arguments in the same
order, and leave the same context.

The literals tried are some of those of the sorted condition in its order, the predicates called
are theirs, and an error is that of the first of them that fails, after which none is tried. -/
theorem evaluate_eq_presorted (evaluator : Evaluator) (condition : Condition) :
    let sorted := evaluator.costs.presort condition
    evaluator.evaluate condition = sorted.evaluateAsWritten evaluator.testSilently ∧
    evaluator.evaluate condition = evaluate ⟨∅, evaluator.registry⟩ sorted ∧
    evaluator.evaluate condition = evaluator.evaluate sorted ∧
    ∀ context,
      let left := evaluator.evaluate condition context
      let tried := (sorted.trace (evaluator.outcome context)).tried
      tried.Sublist sorted.atoms ∧
      left.events.filterMap Event.predicate? = tried.flatMap evaluator.registry.called ∧
      ∀ e, left.result = .error e ↔ ∃ before last, tried = before ++ [last] ∧
        evaluator.outcome context last = .error e ∧
        ∀ literal ∈ before, ∃ b, evaluator.outcome context literal = .ok b := by
  intro sorted
  have hsorted : evaluator.evaluate condition =
      sorted.evaluateAsWritten evaluator.testSilently := Formula.evaluate_eq_presort _ _ condition
  have hfree : evaluate ⟨∅, evaluator.registry⟩ sorted =
      sorted.evaluateAsWritten evaluator.testSilently := by
    rw [evaluate, evaluateWith, Formula.evaluate_eq_presort, Formula.presort_of_free fun _ => rfl]
    rfl
  have hagain : evaluator.evaluate sorted =
      sorted.evaluateAsWritten evaluator.testSilently := by
    rw [evaluate, evaluateWith, Formula.evaluate_eq_presort]
    exact congrArg _ (Formula.presort_presort _ condition)
  refine ⟨hsorted, hsorted.trans hfree.symm, hsorted.trans hagain.symm, fun context => ?_⟩
  obtain ⟨hresult, -, hcalls⟩ := Formula.evaluateAsWritten_of_simulation
    (Pass.simulation_follows context evaluator.registry.called) _ _
    (fun literal _ => evaluator.follows_test context literal) context rfl
  rw [hsorted]
  refine ⟨Formula.tried_trace_sublist _ sorted, hcalls, fun e => ?_⟩
  rw [hresult]
  exact (Formula.ends_trace (evaluator.outcome context) sorted).result_eq_error_iff e

end Evaluator

end TokenRules
