import TokenRules.Proofs.Demand
import TokenRules.Proofs.Keeping
import TokenRules.Proofs.Performing
import TokenRules.Proofs.Recording
import TokenRules.Proofs.Reporting

/-!
# Sessions with a context

A session is a number of operations on one context, in any order, some of which may
fail.  Although an evaluation only reads the context, it may fill what the context keeps,
so what holds of a session is shown in the same way throughout: of the calls of built-in
functions, from there of each operation (`Operation.closed_run`), and from there, step by
step, of the session.  A session keeps its context (`kept_finish`), asks for the
analysis like a single pass (`exists_demand_steps`) and loses no edit
(`edits_steps`), and its answers are those of a context without a history,
`Step.result_eq_fresh`.  Main statement: `context_consistent`.
-/

namespace TokenRules

/-! ### Rules without a history -/

/-- A context of which nothing has been asked and in which nothing has been recorded; an analysis
that was given to it stays. -/
def Context.fresh (context : Context) : Context := { context with inlineSets := ∅, edits := [] }

/-- The names of the rules that fire, or what stops them, if each condition and each action answers
as it does in this context. -/
def RuleSet.firedIn (set : RuleSet) (context : Context) : Except EvalError (List String) :=
  let evaluator := set.evaluator Builtin.registry
  applyAllBy (fun condition => (evaluator.evaluate condition context).result)
    (fun call => (evaluator.dispatch call context).result) set.rules

theorem RuleSet.result_apply (set : RuleSet) (context : Context) :
    (set.apply Builtin.registry context).result = set.firedIn context := by
  let evaluator := set.evaluator Builtin.registry
  have hevaluate (condition : Condition) : (evaluator.evaluate condition).Blind :=
    evaluator.closed_evaluate Pass.closed_blind (fun _ _ => Builtin.blind_predicate) condition
  have hdispatch (call : Call) : (evaluator.dispatch call).Blind :=
    evaluator.closed_dispatch Pass.closed_blind (fun _ _ => Builtin.blind_action) call
  have hrules := (Pass.simulation_answers context).applyAllBy (hevaluate · context)
    (hdispatch · context) set.rules
  rw [← evaluator.applyAll_eq] at hrules
  exact hrules.result_eq

namespace Session

/-! ### Operations -/

/-- What is done with a context, where conditions and rules use the built-in functions. -/
inductive Operation
  | evaluate (costs : CostTable) (condition : Condition)
  | dispatch (costs : CostTable) (call : Call)
  | apply (set : RuleSet)
  | applyReporting (set : RuleSet)
  | analysis
  | inlineSet (words : List String)
  | lookupList (name : String)
  | recordEdit (edit : Edit)
  | takeEdits

/-- What an operation that succeeds gives back. -/
inductive Answer
  | done
  | holds (holds : Bool)
  | fired (names : List String)
  | report (report : Report)
  | analysis (analysis : Analysis)
  | set (set : WordSet)
  | edits (edits : List Edit)

namespace Operation

/-- What the operation does to the context and what comes of it. -/
def run : Operation → Pass EvalError Answer
  | evaluate costs condition =>
    .holds <$> Evaluator.evaluate ⟨costs, Builtin.registry⟩ condition
  | dispatch costs call =>
    (fun _ => .done) <$> Evaluator.dispatch ⟨costs, Builtin.registry⟩ call
  | apply set => .fired <$> set.apply Builtin.registry
  | applyReporting set => .report <$> set.applyReporting Builtin.registry
  | analysis => .analysis <$> Pass.analysis
  | inlineSet words => .set <$> Pass.inlineSet words
  | lookupList name => (fun context => .set (context.lists.lookup name)) <$> Pass.context
  | recordEdit edit => (fun _ => .done) <$> Pass.modify (·.record edit)
  | takeEdits => .edits <$> Pass.drain

end Operation

/-- An operation of a session and the context in which it is done. -/
structure Step where
  operation : Operation
  start : Context

namespace Step

def outcome (step : Step) : Outcome EvalError Answer := step.operation.run step.start

/-- The edits that the step takes away. -/
def taken (step : Step) : List Edit :=
  match step.operation, step.outcome.result with
  | .takeEdits, .ok (.edits edits) => edits
  | _, _ => []

/-- The edits that the step records, itself or by the actions that it calls. -/
def recorded (step : Step) : List Edit :=
  match step.operation with
  | .recordEdit edit => [edit]
  | _ => insertionsBy step.start.tokens step.outcome.effect.actions

end Step

/-- The steps of a session. -/
def steps (start : Context) : List Operation → List Step
  | [] => []
  | operation :: rest =>
    let step : Step := ⟨operation, start⟩
    step :: steps step.outcome.context rest

/-- The context that a session leaves. -/
def finish (start : Context) : List Operation → Context
  | [] => start
  | operation :: rest => finish (Step.outcome ⟨operation, start⟩).context rest

/-! ### Properties of operations -/

namespace Operation

/-- What holds of the calls of built-in functions and of what is done besides holds of every
operation. -/
theorem closed_run {P : ∀ {α : Type}, Pass EvalError α → Prop} (hP : Pass.Closed P)
    (hpredicate : ∀ (predicate : Predicate) (call : Call),
      Builtin.registry.predicate? call.function = some predicate → P (predicate.invoke call))
    (haction : ∀ (action : Action) (call : Call),
      Builtin.registry.action? call.function = some action → P (action.invoke call))
    (hanalysis : P Pass.analysis) (hinlineSet : ∀ words, P (Pass.inlineSet words))
    (hlookup : ∀ name, P (lookupList name).run) (operation : Operation)
    (hrecord : ∀ edit, operation = recordEdit edit → P (recordEdit edit).run)
    (htake : operation = takeEdits → P takeEdits.run) : P operation.run := by
  have hevaluate (costs : CostTable) (condition : Condition) :
      P (Evaluator.evaluate ⟨costs, Builtin.registry⟩ condition) :=
    Evaluator.closed_evaluate ⟨costs, Builtin.registry⟩ hP hpredicate condition
  cases operation with
  | evaluate costs condition => exact hP.map _ (hevaluate costs condition)
  | dispatch costs call =>
    exact hP.map _ (Evaluator.closed_dispatch ⟨costs, Builtin.registry⟩ hP haction call)
  | apply set =>
    exact hP.map _ (Evaluator.closed_applyAll (set.evaluator Builtin.registry) hP haction
      (hevaluate set.costs) set.rules)
  | applyReporting set => exact hP.map _ (set.closed_applyReporting hP hpredicate haction)
  | analysis => exact hP.map _ hanalysis
  | inlineSet words => exact hP.map _ (hinlineSet words)
  | lookupList name => exact hlookup name
  | recordEdit edit => exact hrecord edit rfl
  | takeEdits => exact htake rfl

theorem keeps_run (operation : Operation) : operation.run.Keeps :=
  closed_run Pass.closed_keeps (fun predicate call _ => Evaluator.keeps_predicate predicate call)
    (fun action call _ => Evaluator.keeps_action action call) Pass.keeps_analysis
    (fun words c => .inlineSet c words) (fun _ c => .refl c) operation
    (fun _ _ c => .withEdits c _) (fun _ c => .withEdits c _)

theorem demands_run (operation : Operation) : operation.run.Demands :=
  closed_run Pass.closed_demands
    (fun predicate call _ c => ⟨_, .note rfl ((predicate call.args).demand_run c)⟩)
    (fun action call _ c => ⟨_, .note rfl ((action call.args).demand_run c)⟩)
    (fun c => ⟨true, Pass.demand_analysis c⟩) (fun words c => ⟨false, c.demand_inlineSet words⟩)
    (fun _ c => ⟨false, .refl c⟩) operation (fun _ _ _ => ⟨false, .of_eq rfl rfl rfl⟩)
    (fun _ _ => ⟨false, .of_eq rfl rfl rfl⟩)

theorem inserts_run (operation : Operation)
    (hrecord : ∀ edit, operation ≠ recordEdit edit) (htake : operation ≠ takeEdits) :
    operation.run.Inserts :=
  closed_run Pass.closed_inserts (fun predicate call _ => Builtin.inserts_predicate predicate call)
    (fun _ _ => Builtin.inserts_action)
    (Pass.Quiet.inserts fun c => by rw [Pass.effect_analysis]; exact ⟨rfl, rfl⟩)
    (fun words => Pass.Quiet.inserts fun c => by rw [Pass.effect_inlineSet]; exact ⟨rfl, rfl⟩)
    (fun _ => Pass.Quiet.inserts fun _ => ⟨rfl, rfl⟩) operation
    (fun edit h => absurd h (hrecord edit)) fun h => absurd h htake

theorem blind_run (operation : Operation) (htake : operation ≠ takeEdits) :
    operation.run.Blind := by
  have hlookup (name : String) : (lookupList name).run.Confined := fun _ => rfl
  have hrecord (edit : Edit) : (recordEdit edit).run.Confined := fun _ => rfl
  exact closed_run Pass.closed_blind (fun _ _ => Builtin.blind_predicate)
    (fun _ _ => Builtin.blind_action) Pass.blind_analysis Pass.blind_inlineSet
    (fun name => (hlookup name).blind (fun sight => .ok (.set (sight.lists.lookup name)))
      fun _ => rfl) operation
    (fun edit _ => (hrecord edit).blind (fun _ => .ok .done) fun _ => rfl)
    fun h => absurd h htake

end Operation

/-! ### Steps and sessions -/

/-- What was there and what a step records is what the step takes and what is there afterwards. -/
theorem Step.edits_eq (step : Step) :
    step.taken ++ step.outcome.context.edits = step.start.edits ++ step.recorded := by
  obtain ⟨operation, start⟩ := step
  have hinserts (other : Operation) (hrecord : ∀ edit, other ≠ .recordEdit edit)
      (htake : other ≠ .takeEdits) : (other.run start).context.edits =
        start.edits ++ insertionsBy start.tokens (other.run start).effect.actions :=
    congrArg Sight.edits (other.inserts_run hrecord htake start)
  cases operation with
  | recordEdit | takeEdits => rfl
  | evaluate | dispatch | apply | applyReporting | analysis | inlineSet | lookupList =>
    exact hinserts _ nofun nofun

section Run

variable {start : Context} {operations : List Operation}

theorem kept_finish (start : Context) (operations : List Operation) :
    start.Kept (finish start operations) := by
  induction operations generalizing start with
  | nil => exact .refl start
  | cons operation rest ih => exact (operation.keeps_run start).trans (ih _)

theorem kept_of_mem_steps {step : Step} (h : step ∈ steps start operations) :
    start.Kept step.start := by
  induction operations generalizing start with
  | nil => exact absurd h List.not_mem_nil
  | cons operation rest ih =>
    rcases List.mem_cons.1 h with rfl | h
    · exact .refl start
    · exact (operation.keeps_run start).trans (ih h)

theorem exists_demand_steps (start : Context) (operations : List Operation) :
    ∃ asked, Demand asked start (finish start operations)
      ((steps start operations).flatMap (·.outcome.events)) := by
  induction operations generalizing start with
  | nil => exact ⟨false, .refl start⟩
  | cons operation rest ih =>
    obtain ⟨asked, hasked⟩ := operation.demands_run start
    obtain ⟨others, hothers⟩ := ih (operation.run start).context
    exact ⟨asked || others, hasked.trans hothers⟩

theorem edits_steps (start : Context) (operations : List Operation) :
    (steps start operations).flatMap Step.taken ++ (finish start operations).edits =
      start.edits ++ (steps start operations).flatMap Step.recorded := by
  induction operations generalizing start with
  | nil => exact (List.append_nil _).symm
  | cons operation rest ih =>
    let step : Step := ⟨operation, start⟩
    calc _ = step.taken ++ ((steps step.outcome.context rest).flatMap Step.taken ++
          (finish step.outcome.context rest).edits) := List.append_assoc ..
      _ = step.taken ++ step.outcome.context.edits ++
          (steps step.outcome.context rest).flatMap Step.recorded := by
        rw [ih, List.append_assoc]
      _ = step.start.edits ++ (step.recorded ++
          (steps step.outcome.context rest).flatMap Step.recorded) := by
        rw [step.edits_eq, List.append_assoc]

end Run

/-! ### Answers without a history -/

theorem Step.result_eq_fresh {start : Context} {operations : List Operation} {step : Step}
    (h : step ∈ steps start operations) (htake : step.operation ≠ .takeEdits) :
    step.outcome.result = (step.operation.run start.fresh).result :=
  (step.operation.blind_run htake start.fresh).2 step.start (kept_of_mem_steps h).drained

/-- **A context stays consistent over any session.**  What it looks at stays the same.  The analyzer
is run at most once and not at all if an analysis was given, so an analysis that is kept is the one
given or the one made.  A set that is kept is that of its words.  The edits taken away and then
those that are left are all edits that were recorded, in this order.  And no history shows: whatever
is given back, but for edits, would be given back in a fresh context, and the rules that fire are
those whose conditions would be true there. -/
theorem context_consistent (start : Context) (operations : List Operation) :
    let steps := steps start operations
    let finish := finish start operations
    let runs := (steps.flatMap (·.outcome.events)).filterMap Event.analysis?
    (finish.tokens = start.tokens ∧ finish.index = start.index ∧ finish.lists = start.lists ∧
      finish.analyzer = start.analyzer) ∧
    (runs = [] ∧ finish.memo = start.memo ∨
      start.memo = none ∧ runs = [start.tokens] ∧
        finish.memo = some (start.analyzer.analyze start.tokens)) ∧
    ((∀ entry ∈ finish.inlineSets.entries, entry.2 = .ofList entry.1) ∧
      start.inlineSets.Kept finish.inlineSets) ∧
    steps.flatMap Step.taken ++ finish.edits = start.edits ++ steps.flatMap Step.recorded ∧
    ∀ step ∈ steps,
      (∀ costs condition, step.operation = .evaluate costs condition →
        step.outcome.result =
          (Evaluator.evaluate ⟨costs, Builtin.registry⟩ condition start.fresh).result.map .holds) ∧
      (∀ set, step.operation = .apply set →
        step.outcome.result = (set.firedIn start.fresh).map .fired) ∧
      (∀ set, step.operation = .applyReporting set → ∃ report : Except EvalError Report,
        step.outcome.result = report.map .report ∧
          report.map Report.fired = set.firedIn start.fresh) ∧
      (step.operation ≠ .takeEdits →
        step.outcome.result = (step.operation.run start.fresh).result) := by
  intro steps finish runs
  have hkept : start.Kept finish := kept_finish start operations
  obtain ⟨asked, hdemand⟩ := exists_demand_steps start operations
  refine ⟨?_, hdemand.cases, ⟨finish.inlineSets.sound, hkept.inlineSets⟩,
    edits_steps start operations, fun step hmem => ?_⟩
  · rw [hkept.rest]
    exact ⟨rfl, rfl, rfl, rfl⟩
  refine ⟨fun costs condition h => ?_, fun set h => ?_, fun set h => ?_, Step.result_eq_fresh hmem⟩
  · rw [Step.result_eq_fresh hmem (by rw [h]; nofun), h]
    exact Pass.result_map ..
  · rw [Step.result_eq_fresh hmem (by rw [h]; nofun), h, ← set.result_apply]
    exact Pass.result_map ..
  · rw [Step.result_eq_fresh hmem (by rw [h]; nofun), h, ← set.result_apply,
      ← set.fired_applyReporting]
    exact ⟨_, Pass.result_map .., (Pass.result_map ..).symm⟩

/-- A session in which an edit is taken away between others, an action is unknown, and a feature is
asked for before and after: the analysis is made once, and the answer is the same. -/
theorem context_after_eight :
    let analyzer : Analyzer := ⟨fun tokens => (Analysis.blank tokens.length).addFeature 0 "X", id⟩
    let start := (Context.ofTokens ["a", "b"]).withAnalyzer analyzer
    let condition : Condition :=
      (Condition.call "is_syntactic_feature").withArgument "feature" (.text "X")
    let set : RuleSet :=
      ⟨[⟨"mark", "", condition, [⟨"add_after", (∅ : Arguments).insert "letter" (.text "h")⟩]⟩], ∅,
        by decide⟩
    let operations : List Operation := [.evaluate ∅ condition, .apply set, .takeEdits,
      .dispatch ∅ ⟨"other", ∅⟩, .recordEdit ⟨1, "y"⟩, .analysis, .applyReporting set,
      .evaluate ∅ condition]
    let steps := steps start operations
    steps.flatMap Step.taken = [⟨0, "h"⟩] ∧
      steps.flatMap Step.taken ++ (finish start operations).edits =
        [⟨0, "h"⟩, ⟨1, "y"⟩, ⟨0, "h"⟩] ∧
      (steps.flatMap (·.outcome.events)).filterMap Event.analysis? = [["a", "b"]] ∧
      ∀ step ∈ steps, step.operation = .evaluate ∅ condition →
        step.outcome.result = .ok (.holds true) := by
  intro analyzer start condition set operations steps
  obtain ⟨-, -, -, hedits, hsteps⟩ := context_consistent start operations
  have hrecorded : start.edits ++ steps.flatMap Step.recorded =
      [⟨0, "h"⟩, ⟨1, "y"⟩, ⟨0, "h"⟩] := by decide +kernel
  refine ⟨by decide +kernel, hedits.trans hrecorded, by decide +kernel, fun step hmem h => ?_⟩
  have hholds : (Evaluator.evaluate ⟨∅, Builtin.registry⟩ condition start.fresh).result =
      .ok true := by decide +kernel
  rw [(hsteps step hmem).1 ∅ condition h, hholds]
  rfl

end Session

end TokenRules
