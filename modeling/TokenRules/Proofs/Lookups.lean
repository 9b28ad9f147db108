import TokenRules.Proofs.Traces

/-!
# Look-ups of an evaluation

A registry counts in an evaluation only by what it has under the names that are looked up.  To say
which names these are the evaluation is `watch`ed: whenever a literal is tested, the look-up of its
predicate is noted beside the context in which it is made, and what was noted stays if the test
fails.  To watch changes nothing (`watch_outcome`).

Two registries `Agree` on a look-up if neither has the predicate or both have one of the same
outcome.  What two watched passes do on agreed look-ups is compared by `Matches`, of which the
premise is about the first pass alone; it carries over from the parts of a pass to the whole,
`simulation_matches`, since what is noted by a part is noted by the whole.  Main statement:
`evaluate_eq_of_agree`.
-/

namespace TokenRules

/-- A call of which the predicate is looked up, and the context in which this is done. -/
structure Lookup where
  call : Call
  context : Context

/-- The look-up as it can be seen, whatever the context keeps. -/
def Lookup.seen (lookup : Lookup) : Call × Sight := (lookup.call, lookup.context.sight)

/-- What a watched pass leaves. -/
structure Noted (ε α : Type) extends Outcome ε α where
  lookups : List Lookup

/-- A pass that is watched for look-ups. -/
def Watched (ε α : Type) : Type := Context → Noted ε α

namespace Watched

variable {ε α β : Type}

/-- Continue from a watched pass that succeeded. -/
def bind (watched : Watched ε α) (f : α → Watched ε β) : Watched ε β := fun context =>
  match watched context with
  | ⟨⟨.ok a, context, events⟩, lookups⟩ =>
    let after := f a context
    ⟨⟨after.result, after.context, events ++ after.events⟩, lookups ++ after.lookups⟩
  | ⟨⟨.error e, context, events⟩, lookups⟩ => ⟨⟨.error e, context, events⟩, lookups⟩

instance : Monad (Watched ε) where
  pure a := fun context => ⟨⟨.ok a, context, []⟩, []⟩
  bind := bind

theorem bind_of_ok {watched : Watched ε α} {context : Context} {a : α}
    (h : (watched context).result = .ok a) (f : α → Watched ε β) :
    (watched >>= f) context =
      ⟨⟨(f a (watched context).context).result, (f a (watched context).context).context,
        (watched context).events ++ (f a (watched context).context).events⟩,
        (watched context).lookups ++ (f a (watched context).context).lookups⟩ := by
  cases hwatched : watched context with
  | mk outcome lookups =>
    obtain ⟨result, after, events⟩ := outcome
    obtain rfl : result = .ok a := by rw [hwatched] at h; exact h
    show bind watched f context = _
    simp only [bind, hwatched]

theorem bind_of_error {watched : Watched ε α} {context : Context} {e : ε}
    (h : (watched context).result = .error e) (f : α → Watched ε β) :
    (watched >>= f) context =
      ⟨⟨.error e, (watched context).context, (watched context).events⟩,
        (watched context).lookups⟩ := by
  cases hwatched : watched context with
  | mk outcome lookups =>
    obtain ⟨result, after, events⟩ := outcome
    obtain rfl : result = .error e := by rw [hwatched] at h; exact h
    show bind watched f context = _
    simp only [bind, hwatched]

/-- The watched pass leaves what the pass leaves that is not watched. -/
def Shows (watched : Watched ε α) (pass : Pass ε α) : Prop :=
  ∀ c, (watched c).toOutcome = pass c

theorem simulation_shows : Simulation (Watched ε) (Pass ε) Shows where
  pure _ _ := rfl
  bind := by
    intro α β watched pass f g hpass hf c
    have hresult : (watched c).result = (pass c).result := congrArg Outcome.result (hpass c)
    cases h : (pass c).result with
    | ok a =>
      rw [bind_of_ok (hresult.trans h), Pass.bind_of_ok h, ← hpass c, ← hf a]
    | error e =>
      rw [bind_of_error (hresult.trans h), Pass.bind_of_error h, ← hpass c]

/-! ### Passes on agreed look-ups -/

/-- If everything that the first pass looks up is agreed on, the second one looks up the same from
any context that looks like that of the first, calls the same predicates, and comes to the same. -/
def Matches (agreed : Lookup → Prop) (watched other : Watched ε α) : Prop :=
  ∀ c d : Context, c.sight = d.sight → (∀ lookup ∈ (watched c).lookups, agreed lookup) →
    (other d).lookups.map Lookup.seen = (watched c).lookups.map Lookup.seen ∧
    (other d).events.filterMap Event.predicate? = (watched c).events.filterMap Event.predicate? ∧
    (other d).result = (watched c).result ∧
    (watched c).context.sight = (other d).context.sight

theorem simulation_matches (agreed : Lookup → Prop) :
    Simulation (Watched ε) (Watched ε) (Matches agreed) where
  pure _ _ _ h _ := ⟨rfl, rfl, rfl, h⟩
  bind := by
    intro α β watched other f g hfirst hrest c d hsight hagreed
    cases h : (watched c).result with
    | ok a =>
      rw [bind_of_ok h] at hagreed ⊢
      obtain ⟨hlookups, hcalls, hresult, hafter⟩ := hfirst c d hsight fun lookup hmem =>
        hagreed lookup (List.mem_append_left _ hmem)
      obtain ⟨hlookups', hcalls', hresult', hafter'⟩ := hrest a _ _ hafter fun lookup hmem =>
        hagreed lookup (List.mem_append_right _ hmem)
      rw [bind_of_ok (hresult.trans h)]
      refine ⟨?_, ?_, hresult', hafter'⟩
      · rw [List.map_append, List.map_append, hlookups, hlookups']
      · rw [List.filterMap_append, List.filterMap_append, hcalls, hcalls']
    | error e =>
      rw [bind_of_error h] at hagreed ⊢
      obtain ⟨hlookups, hcalls, hresult, hafter⟩ := hfirst c d hsight hagreed
      rw [bind_of_error (hresult.trans h)]
      exact ⟨hlookups, hcalls, rfl, hafter⟩

end Watched

/-! ### Registries -/

/-- The registries agree on a look-up: neither has the predicate, or both have one, and with the
arguments and the context given the two have the same outcome. -/
inductive Registry.Agree (registry other : Registry) (lookup : Lookup) : Prop
  | missing (h : registry.predicate? lookup.call.function = none)
      (hother : other.predicate? lookup.call.function = none)
  | found {predicate counterpart : Predicate}
      (h : registry.predicate? lookup.call.function = some predicate)
      (hother : other.predicate? lookup.call.function = some counterpart)
      (outcome : ((counterpart lookup.call.args).run lookup.context : Outcome EvalError _).result =
        ((predicate lookup.call.args).run lookup.context : Outcome EvalError _).result)

namespace Registry.Agree

variable {registry other : Registry} {lookup : Lookup}

theorem answer_eq (h : registry.Agree other lookup) :
    other.answer lookup.context lookup.call = registry.answer lookup.context lookup.call := by
  cases h with
  | missing h hother => rw [answer, answer, h, hother]
  | found h hother outcome =>
    rw [answer, answer, h, hother]
    exact congrArg (Except.bind · _) outcome

theorem called_eq {literal : Literal} {context : Context}
    (h : registry.Agree other ⟨literal.call, context⟩) :
    other.called literal = registry.called literal := by
  cases h with
  | missing h hother => rw [called, called, h, hother]
  | found h hother =>
    rw [called, called, h, hother]
    rfl

end Registry.Agree

/-! ### Evaluations -/

namespace Evaluator

/-- Note the look-up of the predicate of a literal and test the literal. -/
def watchTest (evaluator : Evaluator) (literal : Literal) : Watched EvalError Bool := fun context =>
  ⟨evaluator.testSilently literal context, [⟨literal.call, context⟩]⟩

/-- Evaluate a condition and note the look-ups. -/
def watch (evaluator : Evaluator) (condition : Condition) : Watched EvalError Bool :=
  Formula.evaluate (fun literal => evaluator.costs.cost literal.call.function)
    evaluator.watchTest condition

/-- The look-ups that the evaluation of a condition makes, in order. -/
def lookups (evaluator : Evaluator) (condition : Condition) (context : Context) : List Lookup :=
  (evaluator.watch condition context).lookups

/-- To watch an evaluation changes nothing. -/
theorem watch_outcome (evaluator : Evaluator) (condition : Condition) (context : Context) :
    (evaluator.watch condition context).toOutcome = evaluator.evaluate condition context :=
  Watched.simulation_shows.evaluate evaluator.watchTest evaluator.testSilently (fun _ _ _ => rfl)
    context

/-- One test on an agreed look-up. -/
theorem matches_watchTest (costs : CostTable) (registry other : Registry) (literal : Literal) :
    Watched.Matches (registry.Agree other) (watchTest ⟨costs, registry⟩ literal)
      (watchTest ⟨costs, other⟩ literal) := by
  intro c d hsight hagreed
  have hagree : registry.Agree other ⟨literal.call, c⟩ := hagreed _ List.mem_cons_self
  have hleft := effect_test ⟨costs, registry⟩ literal c
  have hright := effect_test ⟨costs, other⟩ literal d
  have houtcome : outcome ⟨costs, other⟩ d literal = outcome ⟨costs, registry⟩ c literal := by
    rw [outcome, outcome, ← Registry.answer_congr other hsight, hagree.answer_eq]
  refine ⟨?_, ?_, ?_, ?_⟩
  · show [(literal.call, d.sight)] = [(literal.call, c.sight)]
    rw [hsight]
  · show (testSilently ⟨costs, other⟩ literal d).events.filterMap Event.predicate? =
      (testSilently ⟨costs, registry⟩ literal c).events.filterMap Event.predicate?
    rw [calls_test, calls_test]
    exact hagree.called_eq
  · exact (congrArg Effect.result hright).trans
      (houtcome.trans (congrArg Effect.result hleft).symm)
  · exact (congrArg Effect.sight hleft).trans
      (hsight.trans (congrArg Effect.sight hright).symm)

/-- **An evaluation depends on the predicates that it reached and on no others.**  If another
registry agrees on every look-up that an evaluation makes, then with it the evaluation makes the
same look-ups, in contexts that look alike, calls the same predicates with the same arguments in
the same order, and has the same result or the same error, whatever that registry has under other
names. -/
theorem evaluate_eq_of_agree {costs : CostTable} {registry other : Registry} {condition : Condition}
    {context : Context}
    (h : ∀ lookup ∈ lookups ⟨costs, registry⟩ condition context, registry.Agree other lookup) :
    (∀ evaluator : Evaluator,
      (evaluator.watch condition context).toOutcome = evaluator.evaluate condition context) ∧
    let left := evaluate ⟨costs, registry⟩ condition context
    let right := evaluate ⟨costs, other⟩ condition context
    (lookups ⟨costs, other⟩ condition context).map Lookup.seen =
      (lookups ⟨costs, registry⟩ condition context).map Lookup.seen ∧
    right.events.filterMap Event.predicate? = left.events.filterMap Event.predicate? ∧
    right.result = left.result := by
  have hmatches : Watched.Matches (registry.Agree other) (watch ⟨costs, registry⟩ condition)
      (watch ⟨costs, other⟩ condition) :=
    (Watched.simulation_matches (registry.Agree other)).evaluate _ _ fun literal _ =>
      matches_watchTest costs registry other literal
  obtain ⟨hlookups, hcalls, hresult, -⟩ := hmatches context context rfl h
  refine ⟨fun evaluator => evaluator.watch_outcome condition context, hlookups, ?_, ?_⟩
  · rw [← watch_outcome, ← watch_outcome]
    exact hcalls
  · rw [← watch_outcome, ← watch_outcome]
    exact hresult

/-- A predicate that one registry lacks and the other would fail with is not reached behind a
cheaper one that decides; of that one the registries have two that look at different things and
have the same outcome. -/
theorem evaluate_past_ghost :
    let costs : CostTable := (∅ : CostTable).insert "ghost" ⟨⟨0x4014000000000000⟩, by decide⟩
    let registry := (∅ : Registry).registerPredicate "no" fun _ => .done (.ok false)
    let other := ((∅ : Registry).registerPredicate "no" fun _ => .look fun view =>
        .done (.ok (view.token? == some "b")))
      |>.registerPredicate "ghost" fun _ => .done (.error (.missing "list"))
    let condition : Condition := .all [Condition.call "ghost", Condition.call "no"]
    let context := Context.ofTokens ["a"]
    (lookups ⟨costs, registry⟩ condition context).map (·.call.function) = ["no"] ∧
      (lookups ⟨costs, other⟩ condition context).map Lookup.seen =
        (lookups ⟨costs, registry⟩ condition context).map Lookup.seen ∧
      (evaluate ⟨costs, other⟩ condition context).events.filterMap Event.predicate? =
        (evaluate ⟨costs, registry⟩ condition context).events.filterMap Event.predicate? ∧
      (evaluate ⟨costs, other⟩ condition context).result =
        (evaluate ⟨costs, registry⟩ condition context).result := by
  intro costs registry other condition context
  have hlookups : lookups ⟨costs, registry⟩ condition context = [⟨⟨"no", ∅⟩, context⟩] := by
    rw [lookups, watch, Formula.evaluate]
    show (conjunction (m := Watched EvalError) (cheapestFirst [_, _]) context).lookups = _
    rw [cheapestFirst_pair, if_neg (by decide)]
    rfl
  have hagree : ∀ lookup ∈ lookups ⟨costs, registry⟩ condition context,
      registry.Agree other lookup := by
    rw [hlookups]
    intro lookup hmem
    obtain rfl := List.mem_singleton.1 hmem
    exact .found rfl rfl rfl
  have hnames : (lookups ⟨costs, registry⟩ condition context).map (·.call.function) = ["no"] := by
    rw [hlookups]
    rfl
  exact ⟨hnames, (evaluate_eq_of_agree hagree).2⟩

end Evaluator

end TokenRules
