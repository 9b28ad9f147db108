import TokenRules.Proofs.Failures
import TokenRules.Proofs.Reporting
import TokenRules.Proofs.Traces
import TokenRules.Proofs.Traversal

/-!
# What a report lists

A pass that reports is the pass without a report, and the list that it keeps is that of the
predicates that it calls: it `Lists` the pass.  This is seen at a literal, where the name is added
before the predicate runs, and carries over to conditions (`lists_evaluate`) and to passes over
rules (`lists_reporting`).

Actions play no part in it, so they are performed here by any passes, as in a pass that stops or
completes.  The `turns` of rules are the rules with the contexts that the rules before them leave.
A report `Itemizes` the turns: it lists the predicates that the conditions call, each at its own
turn, and the rules of which the condition is true there.  Main statement:
`applyReporting_itemizes`.
-/

namespace TokenRules

variable {ε α β : Type}

/-- The names of the predicates called. -/
def calledIn (events : List Event) : List String :=
  (events.filterMap Event.predicate?).map (·.function)

theorem calledIn_append (events later : List Event) :
    calledIn (events ++ later) = calledIn events ++ calledIn later := by
  rw [calledIn, List.filterMap_append, List.map_append]
  rfl

/-! ### Passes with a list -/

namespace Pass

/-- The pass, and the predicates that it calls at the end of a list. -/
def listing (names : List String) (pass : Pass ε α) : Pass ε (α × List String) := fun c =>
  ⟨(pass c).result.map (·, names ++ calledIn (pass c).events), (pass c).context, (pass c).events⟩

theorem listing_bind (names : List String) (pass : Pass ε α) (f : α → Pass ε β) :
    listing names (pass >>= f) = pass.listing names >>= fun next => (f next.1).listing next.2 := by
  funext c
  cases h : (pass c).result with
  | ok a =>
    have hlisting : (pass.listing names c).result = .ok (a, names ++ calledIn (pass c).events) := by
      rw [listing, h]
      rfl
    rw [listing, bind_of_ok h, bind_of_ok hlisting, calledIn_append, ← List.append_assoc]
    rfl
  | error e =>
    have hlisting : (pass.listing names c).result = .error e := by
      rw [listing, h]
      rfl
    rw [listing, bind_of_error h, bind_of_error hlisting]
    rfl

/-- A pass of which it is known which predicates it calls. -/
theorem listing_eq {called : List String} {pass : Pass ε α}
    (h : ∀ c, calledIn (pass c).events = called) (names : List String) :
    pass.listing names = (·, names ++ called) <$> pass := by
  funext c
  rw [map_apply, listing, h]

end Pass

/-- A pass that keeps a list comes to the pass without it, and adds to the list the predicates that
are called. -/
def Lists (stateful : StateT (List String) (Pass ε) α) (pass : Pass ε α) : Prop :=
  ∀ names, stateful.run names = pass.listing names

theorem simulation_lists : Simulation (StateT (List String) (Pass ε)) (Pass ε) Lists where
  pure a names := by
    have hcalled : ∀ c, calledIn ((pure a : Pass ε _) c).events = [] := fun _ => rfl
    rw [Pass.listing_eq hcalled, List.append_nil, map_pure, StateT.run_pure]
  bind hpass hf names := by
    rw [StateT.run_bind, hpass, Pass.listing_bind]
    exact bind_congr fun next => hf next.1 next.2

theorem lists_lift {pass : Pass ε α} (h : pass.Silent) : Lists (liftM pass) pass := by
  intro names
  have hcalled : ∀ c, calledIn (pass c).events = [] := fun c => by rw [calledIn, h, List.map_nil]
  rw [Pass.listing_eq hcalled, List.append_nil, ← bind_pure_comp]
  rfl

/-! ### Conditions and rules -/

/-- Keep the name of a predicate that is called. -/
def noting (function : String) : StateT (List String) (Pass EvalError) Unit :=
  modify (· ++ [function])

namespace Evaluator

variable (evaluator : Evaluator) (perform : Call → Pass EvalError Unit)

theorem lists_test (literal : Literal) :
    Lists (evaluator.test noting literal) (evaluator.testSilently literal) := by
  have hcalls := evaluator.calls_test literal
  rw [Registry.called] at hcalls
  cases h : evaluator.registry.predicate? literal.call.function with
  | none =>
    rw [testSilently, test, test, h]
    exact lists_lift fun _ => rfl
  | some predicate =>
    intro names
    rw [h] at hcalls
    have hcalled : ∀ c, calledIn (evaluator.testSilently literal c).events =
        [literal.call.function] := fun c => by rw [calledIn, hcalls]; rfl
    rw [Pass.listing_eq hcalled, evaluator.testSilently_eq literal h, test, h, ← bind_pure_comp]
    rfl

theorem lists_evaluate (condition : Condition) :
    Lists (evaluator.evaluateWith noting condition) (evaluator.evaluate condition) :=
  simulation_lists.evaluate _ _ fun literal _ => evaluator.lists_test literal

theorem silent_dispatch (call : Call) : (evaluator.dispatch call).Silent :=
  evaluator.closed_dispatch Pass.closed_silent (fun action call _ =>
    Pass.Silent.bind (fun _ => rfl) fun _ => (action call.args).silent_run) call

/-- Rules applied with a list kept of the predicates called. -/
def reporting (rules : List Rule) : StateT (List String) (Pass EvalError) (List String) :=
  applyAllBy (evaluator.evaluateWith noting) (fun call => liftM (perform call)) rules

/-- The report on rules that are applied from the beginning. -/
def reportBy (rules : List Rule) : Pass EvalError Report :=
  (fun next => ⟨next.1, next.2⟩) <$> (evaluator.reporting perform rules).run []

theorem lists_reporting (rules : List Rule) :
    Lists (evaluator.reporting evaluator.dispatch rules)
      (applyAllBy evaluator.evaluate evaluator.dispatch rules) :=
  simulation_lists.applyAllBy evaluator.lists_evaluate
    (fun call => lists_lift (evaluator.silent_dispatch call)) rules

theorem forgets_reporting (rules : List Rule) :
    Forgets (evaluator.reporting perform rules)
      (applyAllBy evaluator.evaluate perform rules) := by
  refine simulation_forgets.applyAllBy (fun condition => ?_) (fun _ => forgets_lift _) rules
  exact simulation_forgets.evaluate _ _ fun literal _ =>
    evaluator.forgets_test (fun _ => forgets_modify _) literal

/-- To report changes nothing, whatever the actions are. -/
theorem fired_reportBy (rules : List Rule) :
    Report.fired <$> evaluator.reportBy perform rules =
      applyAllBy evaluator.evaluate perform rules := by
  rw [reportBy, Functor.map_map, ← evaluator.forgets_reporting perform rules []]

/-! ### Turns of rules -/

/-- Each of some rules with the context that the rules before it leave. -/
def turns (rules : List Rule) (start : Context) : List (Rule × Context) :=
  rules.zipIdx.map fun turn =>
    (turn.1, (applyAllBy evaluator.evaluate perform (rules.take turn.2) start).context)

theorem map_fst_turns (rules : List Rule) (start : Context) :
    (evaluator.turns perform rules start).map Prod.fst = rules := by
  rw [turns, List.map_map]
  exact List.zipIdx_map_fst 0 rules

/-- The literals of a condition that are tried, those of the condition sorted by cost from the left
until the value is determined. -/
def tried (condition : Condition) (context : Context) : List Literal :=
  ((evaluator.costs.presort condition).trace (evaluator.outcome context)).tried

/-- What a report says of rules that were applied from `start`: every condition has been evaluated
at its turn, and the report lists the predicates that were called, which are those of the literals
tried, and the rules of which the condition was true. -/
structure Itemizes (rules : List Rule) (start : Context) (report : Report) : Prop where
  reached : ∀ place, ∃ names,
    (applyAllBy evaluator.evaluate perform (rules.take place) start).result = .ok names
  answered : ∀ turn ∈ evaluator.turns perform rules start,
    ∃ b, (evaluator.evaluate turn.1.condition turn.2).result = .ok b
  called : report.called = (evaluator.turns perform rules start).flatMap fun turn =>
    calledIn (evaluator.evaluate turn.1.condition turn.2).events
  tried : ∀ turn ∈ evaluator.turns perform rules start,
    calledIn (evaluator.evaluate turn.1.condition turn.2).events =
      (evaluator.tried turn.1.condition turn.2).map (·.call.function)
  fired : report.fired = ((evaluator.turns perform rules start).filter fun turn =>
    (evaluator.evaluate turn.1.condition turn.2).result = .ok true).map (·.1.name)

variable {evaluator perform} {rules : List Rule} {rule : Rule} {start last : Context}
  {fired called : List String} {events : List Event}

theorem turns_concat : evaluator.turns perform (rules ++ [rule]) start =
    evaluator.turns perform rules start ++
      [(rule, (applyAllBy evaluator.evaluate perform rules start).context)] := by
  have hearlier : ∀ turn ∈ rules.zipIdx,
      (rules ++ [rule]).take turn.2 = rules.take turn.2 := fun turn hmem =>
    List.take_append_of_le_length (Nat.le_of_lt (List.snd_lt_of_mem_zipIdx hmem))
  rw [turns, List.zipIdx_append, List.map_append, turns]
  congr 1
  · exact List.map_congr_left fun turn hmem => by rw [hearlier turn hmem]
  · simp

/-- Where a condition has a value, all of the literals tried are of registered predicates, so each
of them has called its predicate. -/
theorem calledIn_evaluate {condition : Condition} {b : Bool}
    (h : (evaluator.evaluate condition start).result = .ok b) :
    calledIn (evaluator.evaluate condition start).events =
      (evaluator.tried condition start).map (·.call.function) := by
  obtain ⟨hresult, -, hcalls⟩ := evaluator.follows_evaluate condition start start rfl
  have hends := Formula.ends_trace (evaluator.outcome start) (evaluator.costs.presort condition)
  rw [calledIn, hcalls, List.map_flatMap, List.map_eq_flatMap]
  refine List.flatMap_congr fun literal hmem => ?_
  obtain ⟨holds, hholds⟩ := hends.of_ok b (hresult ▸ h) literal hmem
  cases hpredicate : evaluator.registry.predicate? literal.call.function with
  | none =>
    rw [outcome, Registry.answer, hpredicate] at hholds
    cases hholds
  | some predicate =>
    rw [Registry.called, hpredicate]
    rfl

/-! ### One more rule -/

theorem run_applyNoting (names : List String) :
    (rule.applyNoting (evaluator.evaluateWith noting) (fun call => liftM (perform call))
      fired).run names = do
        let next ← (evaluator.evaluate rule.condition).listing names
        rule.respond perform next.1
        return (if next.1 then fired ++ [rule.name] else fired, next.2) := by
  rw [Rule.applyNoting, Rule.applyBy, bind_assoc, StateT.run_bind, evaluator.lists_evaluate]
  refine bind_congr fun next => ?_
  rw [← rule.liftM_respond, bind_assoc, StateT.run_bind]
  exact bind_assoc ..

/-- One more rule that is applied with a list kept: its condition has a value, the predicates called
are added to the list, and the actions are performed if the value is true. -/
theorem exists_of_run_applyNoting {names more : List String}
    (h : (rule.applyNoting (evaluator.evaluateWith noting) (fun call => liftM (perform call))
      fired).run called start = ⟨.ok (names, more), last, events⟩) :
    ∃ fires tested noted later,
      evaluator.evaluate rule.condition start = ⟨.ok fires, tested, noted⟩ ∧
      rule.respond perform fires tested = ⟨.ok (), last, later⟩ ∧
      names = (if fires then fired ++ [rule.name] else fired) ∧
      more = called ++ calledIn noted := by
  rw [run_applyNoting] at h
  obtain ⟨⟨fires, listed⟩, tested, noted, rest, hcondition, hrest, -⟩ := Pass.exists_of_bind_eq_ok h
  obtain ⟨_, ready, later, _, hactions, hpure, -⟩ := Pass.exists_of_bind_eq_ok hrest
  cases hleft : evaluator.evaluate rule.condition start with
  | mk result left log =>
    rw [Pass.listing, hleft] at hcondition
    cases result with
    | error e => cases hcondition
    | ok holds =>
      cases hcondition
      cases hpure
      exact ⟨fires, left, log, later, rfl, hactions, rfl, rfl⟩

theorem Itemizes.concat {middle tested : Context} {before noted : List Event} {fires : Bool}
    (h : evaluator.Itemizes perform rules start ⟨fired, called⟩)
    (hrules : applyAllBy evaluator.evaluate perform rules start = ⟨.ok fired, middle, before⟩)
    (hcondition : evaluator.evaluate rule.condition middle = ⟨.ok fires, tested, noted⟩)
    {names : List String} (hall : applyAllBy evaluator.evaluate perform (rules ++ [rule]) start =
      ⟨.ok names, last, events⟩) :
    evaluator.Itemizes perform (rules ++ [rule]) start
      ⟨if fires then fired ++ [rule.name] else fired, called ++ calledIn noted⟩ := by
  have hturns : evaluator.turns perform (rules ++ [rule]) start =
      evaluator.turns perform rules start ++ [(rule, middle)] := by
    rw [turns_concat, hrules]
  have hresult := congrArg Outcome.result hcondition
  refine ⟨fun place => ?_, ?_, ?_, ?_, ?_⟩
  · by_cases hplace : place ≤ rules.length
    · rw [List.take_append_of_le_length hplace]
      exact h.reached place
    · rw [List.take_of_length_le (by simp; omega), hall]
      exact ⟨names, rfl⟩
  · rw [hturns, List.forall_mem_append]
    exact ⟨h.answered, List.forall_mem_singleton.2 ⟨fires, hresult⟩⟩
  · rw [hturns, List.flatMap_append, ← h.called, List.flatMap_singleton, hcondition]
  · rw [hturns, List.forall_mem_append]
    exact ⟨h.tried, List.forall_mem_singleton.2 (calledIn_evaluate hresult)⟩
  · rw [hturns, List.filter_append, List.map_append, ← h.fired, List.filter_singleton, hresult]
    cases fires <;> simp

theorem reporting_concat : evaluator.reporting perform (rules ++ [rule]) =
    evaluator.reporting perform rules >>= fun fired =>
      rule.applyNoting (evaluator.evaluateWith noting) (fun call => liftM (perform call))
        fired := by
  rw [reporting, applyAllBy, List.foldlM_append]
  exact bind_congr fun fired => bind_pure _

/-- **A report that is drawn up itemizes the turns**, whatever the actions are. -/
theorem itemizes_of_reporting
    (h : (evaluator.reporting perform rules).run [] start = ⟨.ok (fired, called), last, events⟩) :
    evaluator.Itemizes perform rules start ⟨fired, called⟩ := by
  induction rules using List.reverseRecOn generalizing fired called last events with
  | nil =>
    cases h
    exact ⟨fun place => ⟨[], by rw [List.take_nil]; rfl⟩, fun _ hmem => (nomatch hmem), rfl,
      fun _ hmem => (nomatch hmem), rfl⟩
  | append_singleton rules rule ih =>
    have hall := congrFun (evaluator.forgets_reporting perform (rules ++ [rule]) []) start
    rw [Pass.map_apply, h] at hall
    rw [reporting_concat, StateT.run_bind] at h
    obtain ⟨⟨names, listed⟩, middle, before, later, hrules, hlast, -⟩ :=
      Pass.exists_of_bind_eq_ok h
    have hplain := congrFun (evaluator.forgets_reporting perform rules []) start
    rw [Pass.map_apply, hrules] at hplain
    obtain ⟨fires, tested, noted, _, hcondition, -, rfl, rfl⟩ := exists_of_run_applyNoting hlast
    exact (ih hrules).concat hplain.symm hcondition hall.symm

theorem itemizes_of_reportBy {report : Report}
    (h : (evaluator.reportBy perform rules start).result = .ok report) :
    evaluator.Itemizes perform rules start report := by
  rw [reportBy, Pass.map_apply] at h
  obtain ⟨⟨fired, called⟩, hresult, rfl⟩ := map_eq_ok_iff.1 h
  cases hrun : (evaluator.reporting perform rules).run [] start with
  | mk result last events =>
    rw [hrun] at hresult
    cases hresult
    exact itemizes_of_reporting hrun

theorem Itemizes.nodup {report : Report} (h : evaluator.Itemizes perform rules start report)
    (hnames : (rules.map (·.name)).Nodup) : report.fired.Nodup := by
  rw [← evaluator.map_fst_turns perform rules start, List.map_map] at hnames
  rw [h.fired]
  exact hnames.sublist (List.filter_sublist.map _)

/-- Where the actions are dispatched, the list is that of the predicates called in the whole pass,
for no action calls any. -/
theorem called_reportBy {report : Report}
    (h : (evaluator.reportBy evaluator.dispatch rules start).result = .ok report) :
    report.called =
      calledIn (applyAllBy evaluator.evaluate evaluator.dispatch rules start).events := by
  rw [reportBy, evaluator.lists_reporting, Pass.map_apply] at h
  obtain ⟨next, hresult, rfl⟩ := map_eq_ok_iff.1 h
  obtain ⟨fired, -, rfl⟩ := map_eq_ok_iff.1 hresult
  exact List.nil_append _

end Evaluator

/-- **A report changes nothing and says what has happened.**  The pass that reports leaves what the
pass without a report leaves, and fails where it fails with the same error, whatever the actions do
to the context.  If it does not fail, the report itemizes the turns of the rules, and no rule is
listed twice.  In particular it lists the predicates called during the whole pass, one by one. -/
theorem RuleSet.applyReporting_itemizes (set : RuleSet) (registry : Registry) :
    let evaluator := set.evaluator registry
    set.apply registry = applyAllBy evaluator.evaluate evaluator.dispatch set.rules ∧
    set.applyReporting registry = evaluator.reportBy evaluator.dispatch set.rules ∧
    (∀ (perform : Call → Pass EvalError Unit) (start : Context),
      let plain := applyAllBy evaluator.evaluate perform set.rules start
      let reported := evaluator.reportBy perform set.rules start
      plain = ⟨reported.result.map Report.fired, reported.context, reported.events⟩ ∧
      ∀ report, reported.result = .ok report →
        evaluator.Itemizes perform set.rules start report ∧ report.fired.Nodup) ∧
    ∀ start report, (set.applyReporting registry start).result = .ok report →
      report.called = calledIn (set.apply registry start).events := by
  intro evaluator
  have happly : set.apply registry = applyAllBy evaluator.evaluate evaluator.dispatch set.rules :=
    evaluator.applyAll_eq set.rules
  have hreport : set.applyReporting registry =
      evaluator.reportBy evaluator.dispatch set.rules := by
    rw [applyReporting, Evaluator.applyAllWith_eq, Evaluator.reportBy, ← bind_pure_comp]
    rfl
  refine ⟨happly, hreport, fun perform start => ⟨?_, fun report h => ?_⟩, fun start report h => ?_⟩
  · rw [← evaluator.fired_reportBy perform set.rules, Pass.map_apply]
  · have hitems := Evaluator.itemizes_of_reportBy h
    exact ⟨hitems, hitems.nodup set.distinct⟩
  · rw [hreport] at h
    rw [happly]
    exact Evaluator.called_reportBy h

/-- A costly predicate that is written first is not called where a cheap one decides, and it is
called where nothing else does.  The report lists this one call and the one rule that fires. -/
theorem RuleSet.applyReporting_both_or_one :
    let registry := (((∅ : Registry).registerPredicate "heavy" fun _ => .done (.ok true))
      |>.registerPredicate "cheap" fun _ => .done (.ok false))
      |>.registerAction "mark" fun _ => .record rfl ⟨0, "m"⟩ (.done (.ok ()))
    let costs : CostTable := (∅ : CostTable).insert "heavy" ⟨⟨0x4024000000000000⟩, by decide⟩
    let both : Condition := .all [Condition.call "heavy", Condition.call "cheap"]
    let set : RuleSet := ⟨[⟨"both", "", both, []⟩,
      ⟨"one", "", Condition.call "heavy", [⟨"mark", ∅⟩]⟩], costs, by decide⟩
    let evaluator := set.evaluator registry
    let start := Context.ofTokens ["a"]
    let report : Report := ⟨["one"], ["cheap", "heavy"]⟩
    (set.applyReporting registry start).result = .ok report ∧
      evaluator.Itemizes evaluator.dispatch set.rules start report ∧
      (set.apply registry start).result = .ok ["one"] ∧
      calledIn (set.apply registry start).events = ["cheap", "heavy"] := by
  intro registry costs both set evaluator start report
  have hboth : evaluator.evaluateWith noting both =
      conjunction [evaluator.test noting ⟨⟨"cheap", ∅⟩, false⟩,
        evaluator.test noting ⟨⟨"heavy", ∅⟩, false⟩] := by
    show conjunction (cheapestFirst [_, _]) = _
    rw [cheapestFirst_pair, if_neg (by decide)]
    rfl
  obtain ⟨happly, hreport, hperform, hcalled⟩ := set.applyReporting_itemizes registry
  have hresult : (set.applyReporting registry start).result = .ok report := by
    rw [hreport, Evaluator.reportBy, Evaluator.reporting, applyAllBy, List.foldlM_cons,
      Rule.applyNoting, Rule.applyBy, hboth]
    rfl
  obtain ⟨hplain, hitems⟩ := hperform evaluator.dispatch start
  refine ⟨hresult, (hitems report (hreport ▸ hresult)).1, ?_, (hcalled start report hresult).symm⟩
  rw [happly, hplain, ← hreport, hresult]
  rfl

end TokenRules
