import TokenRules.Builtin
import TokenRules.Proofs.Calls
import TokenRules.Proofs.Positions

/-!
# Analysis on demand

The `readings` of a program are the analyses that it is given when it asks for one;
they depend on the sight at which the program begins, not on what is kept there.
What asking leaves is said once, in `Demand`: the analysis is kept afterwards, and the
analyzer was run if it was not kept before.  A demand is made by a program
(`Program.demand_run`), by a call (`Invocation.demand`) and by a chain of calls
(`Registry.Chain.demand`), each the sum of its parts (`Demand.trans`).

The calls of a whole run are its `Visits`: a chain of calls at each position in turn
(`MadeAt`), up to the first that ends in an error, where a position starts from a
context of its own that is handed the analysis of the position before.  Main statement:
the analyzer is run once if one of these calls asks, not at all otherwise, and all of
them are given the one analysis, `run_analyses`.
-/

namespace TokenRules

/-- The tokens that the analyzer was run on, if it was. -/
def Event.analysis? : Event → Option (List String)
  | .analysis tokens => some tokens
  | _ => none

/-! ### Readings -/

namespace Program

variable {access : Access} {ε α : Type}

/-- The analyses that a program is given when it asks, from the sight at which it begins. -/
def readings : Program access α → Sight → List Analysis
  | .done _, _ => []
  | .look next, sight => (next sight.view).readings sight
  | .analysis next, sight => sight.analysis :: (next sight.analysis).readings sight
  | .inlineSet words next, sight => (next (WordSet.ofList words)).readings sight
  | .record _ edit next, sight => next.readings { sight with edits := sight.edits ++ [edit] }
  | .drain _ next, sight => (next sight.edits).readings { sight with edits := [] }

/-- Whether a program asks for the analysis. -/
def asks (program : Program access α) (sight : Sight) : Bool := !(program.readings sight).isEmpty

theorem eq_of_mem_readings {program : Program access α} {sight : Sight} {analysis : Analysis}
    (h : analysis ∈ program.readings sight) : analysis = sight.analysis := by
  induction program generalizing sight with
  | done result => exact absurd h List.not_mem_nil
  | look next ih => exact ih sight.view h
  | analysis next ih => exact (List.mem_cons.1 h).elim id (ih sight.analysis)
  | inlineSet words next ih => exact ih (WordSet.ofList words) h
  | record mayEdit edit next ih =>
    have hnext : analysis ∈ next.readings { sight with edits := sight.edits ++ [edit] } := h
    have heq := ih hnext
    exact heq
  | drain mayEdit next ih =>
    have hnext : analysis ∈ (next sight.edits).readings sight.drained := h
    have heq := ih sight.edits hnext
    exact heq

end Program

/-- The built-in test of a feature asks for the analysis if its argument is a text. -/
theorem Builtin.asks_isSyntacticFeature (args : Arguments) (sight : Sight) :
    (Builtin.isSyntacticFeature args).asks sight = true ↔
      ∃ feature, args.get? "feature" = some (.text feature) := by
  unfold Builtin.isSyntacticFeature Arguments.text Arguments.text?
  rcases args.get? "feature" with _ | value
  · simp [Program.asks, Program.readings]
  · cases value <;> simp [Argument.asText?, Program.asks, Program.readings]

/-! ### Demands -/

/-- What asking for the analysis leaves: it is kept afterwards, and the analyzer was run on the
tokens if it was not kept before.  Not asking leaves nothing. -/
structure Demand (asked : Bool) (before after : Context) (events : List Event) : Prop where
  tokens : after.tokens = before.tokens
  analysis : after.analysis = before.analysis
  memo : after.memo = if asked then some before.analysis else before.memo
  runs : events.filterMap Event.analysis? =
    if asked && before.memo.isNone then [before.tokens] else []

namespace Demand

variable {asked others : Bool} {first middle last : Context} {events later : List Event}

theorem refl (context : Context) : Demand false context context [] := ⟨rfl, rfl, rfl, rfl⟩

/-- Who asks twice is given an analysis that is kept the second time. -/
theorem trans (h : Demand asked first middle events) (hlater : Demand others middle last later) :
    Demand (asked || others) first last (events ++ later) where
  tokens := hlater.tokens.trans h.tokens
  analysis := hlater.analysis.trans h.analysis
  memo := by
    rw [hlater.memo, h.memo, h.analysis]
    cases asked <;> cases others <;> rfl
  runs := by
    rw [List.filterMap_append, h.runs, hlater.runs, h.memo, h.tokens]
    cases asked <;> cases others <;> cases first.memo <;> rfl

/-- A context that was changed in nothing that concerns the analysis. -/
theorem of_eq (htokens : last.tokens = first.tokens) (hmemo : last.memo = first.memo)
    (hanalyzer : last.analyzer = first.analyzer) : Demand false first last [] where
  tokens := htokens
  analysis := by rw [Context.analysis, Context.analysis, htokens, hmemo, hanalyzer]
  memo := hmemo
  runs := rfl

theorem note {event : Event} (h : event.analysis? = none) (h' : Demand asked first last events) :
    Demand asked first last (event :: events) :=
  { h' with runs := by rw [List.filterMap_cons_none h, h'.runs] }

/-- The analyzer was run at most once, and then its analysis is kept. -/
theorem cases (h : Demand asked first last events) :
    events.filterMap Event.analysis? = [] ∧ last.memo = first.memo ∨
      first.memo = none ∧ events.filterMap Event.analysis? = [first.tokens] ∧
        last.memo = some (first.analyzer.analyze first.tokens) := by
  rw [h.runs, h.memo, Context.analysis]
  cases asked <;> cases first.memo <;> simp

end Demand

/-- The analyzer is run where the analysis is not kept. -/
theorem Pass.demand_analysis {ε : Type} (c : Context) :
    Demand true c (Pass.analysis c : Outcome ε Analysis).context
      (Pass.analysis c : Outcome ε Analysis).events := by
  unfold Pass.analysis
  cases h : c.memo with
  | none => exact ⟨rfl, rfl, rfl, by simp [h, Event.analysis?]⟩
  | some made => exact ⟨rfl, rfl, by simp [h, Context.analysis], by simp [h]⟩

/-- A context keeps what it has of the analysis when it keeps a set of words. -/
theorem Context.demand_inlineSet (c : Context) (words : List String) :
    Demand false c (c.inlineSet words).2 [] := by
  unfold Context.inlineSet
  cases c.inlineSets.lookup? words <;> exact .of_eq rfl rfl rfl

namespace Program

variable {access : Access} {ε α : Type}

/-- A run of a program leaves what the demand of the program leaves. -/
theorem demand_run (program : Program access α) (c : Context) :
    Demand (program.asks c.sight) c (program.run c : Outcome ε α).context
      (program.run c : Outcome ε α).events := by
  induction program generalizing c with
  | done result => exact .refl c
  | look next ih => exact ih c.view c
  | analysis next ih =>
    have hresult : (Pass.analysis c : Outcome ε Analysis).result = .ok c.analysis :=
      congrArg Effect.result (Pass.effect_analysis c)
    rw [run, Pass.bind_of_ok hresult]
    exact (Pass.demand_analysis c).trans (ih c.analysis _)
  | inlineSet words next ih =>
    have hnext := ih (WordSet.ofList words) (c.inlineSet words).2
    rw [Context.sight_inlineSet] at hnext
    have hresult : (Pass.inlineSet words c : Outcome ε WordSet).result =
        .ok (WordSet.ofList words) := congrArg Effect.result (Pass.effect_inlineSet words c)
    rw [run, Pass.bind_of_ok hresult]
    exact (c.demand_inlineSet words).trans hnext
  | record mayEdit edit next ih =>
    have hrecord : Demand false c (c.record edit) [] := .of_eq rfl rfl rfl
    exact hrecord.trans (ih (c.record edit))
  | drain mayEdit next ih =>
    have hdrain : Demand false c c.drained [] := .of_eq rfl rfl rfl
    exact hdrain.trans (ih c.edits c.drained)

end Program

namespace Pass

variable {ε α β : Type}

/-- The pass leaves what asking for the analysis leaves, or nothing, wherever it starts. -/
def Demands (pass : Pass ε α) : Prop :=
  ∀ c : Context, ∃ asked, Demand asked c (pass c).context (pass c).events

theorem demands_bind {pass : Pass ε α} {f : α → Pass ε β} (hpass : pass.Demands)
    (hf : ∀ a, (f a).Demands) : (pass >>= f).Demands := by
  intro c
  obtain ⟨asked, hasked⟩ := hpass c
  cases h : (pass c).result with
  | ok a =>
    obtain ⟨others, hothers⟩ := hf a (pass c).context
    rw [bind_of_ok h]
    exact ⟨asked || others, hasked.trans hothers⟩
  | error e =>
    rw [bind_of_error h]
    exact ⟨asked, hasked⟩

theorem closed_demands : Closed (ε := ε) Demands where
  pure _ c := ⟨false, .refl c⟩
  fail _ c := ⟨false, .refl c⟩
  bind := demands_bind

end Pass

/-! ### Demands of calls -/

namespace Invocation

/-- The analyses that the function called is given. -/
def readings : Invocation → List Analysis
  | .predicate test call start => (test call.args).readings start.sight
  | .action act call start => (act call.args).readings start.sight

/-- Whether the function called asks for the analysis. -/
def asks (invocation : Invocation) : Bool := !invocation.readings.isEmpty

theorem demand (invocation : Invocation) :
    Demand invocation.asks invocation.start invocation.finish invocation.events := by
  cases invocation with
  | predicate test call start => exact .note rfl (Program.demand_run (test call.args) start)
  | action act call start => exact .note rfl (Program.demand_run (act call.args) start)

theorem eq_of_mem_readings {invocation : Invocation} {analysis : Analysis}
    (h : analysis ∈ invocation.readings) : analysis = invocation.start.analysis := by
  cases invocation with
  | predicate | action => exact Program.eq_of_mem_readings h

end Invocation

namespace Registry

variable {registry : Registry} {first last : Context} {calls : List Invocation}

theorem Chain.demand (h : registry.Chain first calls last) :
    Demand (calls.any Invocation.asks) first last (calls.flatMap Invocation.events) := by
  induction h with
  | nil context => exact .refl context
  | @cons invocation calls finish hof _ ih => exact invocation.demand.trans ih

/-- The calls of a chain are all given the analysis of the context in which it starts. -/
theorem Chain.eq_of_mem_readings (h : registry.Chain first calls last) {invocation : Invocation}
    (hmem : invocation ∈ calls) {analysis : Analysis} (hreading : analysis ∈ invocation.readings) :
    analysis = first.analysis := by
  induction h with
  | nil => exact absurd hmem List.not_mem_nil
  | @cons head calls finish hof _ ih =>
    rcases List.mem_cons.1 hmem with rfl | hmem
    · exact Invocation.eq_of_mem_readings hreading
    · exact (ih hmem).trans head.demand.analysis

end Registry

/-! ### Demands of a run -/

namespace Engine

variable {engine : Engine} {tokens : List String} {memo : Option Analysis} {indices : List Nat}
  {calls : List Invocation}

/-- Calls made at a position: a chain that starts in a fresh context, which is handed the analysis
that was kept at the position before, and leads to the context in which the position ends. -/
structure MadeAt (engine : Engine) (tokens : List String) (index : Nat) (memo : Option Analysis)
    (calls : List Invocation) : Prop where
  chain : engine.registry.Chain { engine.context tokens index with memo } calls
    (engine.applyAt tokens index memo).context
  events : (engine.applyAt tokens index memo).events = calls.flatMap Invocation.events

/-- Calls made at positions one after the other, up to the first that ends in an error. -/
inductive Visits (engine : Engine) (tokens : List String) :
    List Nat → Option Analysis → List Invocation → Prop
  | done (memo : Option Analysis) : Visits engine tokens [] memo []
  | stop {index : Nat} {rest : List Nat} {memo : Option Analysis} {calls : List Invocation}
      {e : EvalError} (made : engine.MadeAt tokens index memo calls)
      (failed : (engine.applyAt tokens index memo).result = .error e) :
      Visits engine tokens (index :: rest) memo calls
  | next {index : Nat} {rest : List Nat} {memo : Option Analysis} {calls others : List Invocation}
      {fired : List String} (made : engine.MadeAt tokens index memo calls)
      (passed : (engine.applyAt tokens index memo).result = .ok fired)
      (later : Visits engine tokens rest (engine.applyAt tokens index memo).context.memo others) :
      Visits engine tokens (index :: rest) memo (calls ++ others)

theorem exists_madeAt (engine : Engine) (tokens : List String) (index : Nat)
    (memo : Option Analysis) : ∃ calls, engine.MadeAt tokens index memo calls := by
  obtain ⟨calls, hchain, hevents⟩ := engine.rules.chained_apply engine.registry
    { engine.context tokens index with memo }
  exact ⟨calls, hchain, hevents⟩

theorem events_runAt_cons (engine : Engine) (tokens : List String) (index : Nat) (rest : List Nat)
    (memo : Option Analysis) :
    (engine.runAt tokens (index :: rest) memo).events =
      (engine.applyAt tokens index memo).events ++
        match (engine.applyAt tokens index memo).result with
        | .error _ => []
        | .ok _ =>
          (engine.runAt tokens rest (engine.applyAt tokens index memo).context.memo).events := by
  have hstart : engine.rules.apply engine.registry { engine.context tokens index with memo } =
      engine.applyAt tokens index memo := rfl
  rw [runAt, hstart]
  cases engine.applyAt tokens index memo with
  | mk result context events => cases result <;> simp

/-- A run is a number of visits. -/
theorem exists_visits (engine : Engine) (tokens : List String) (indices : List Nat)
    (memo : Option Analysis) :
    ∃ calls, engine.Visits tokens indices memo calls ∧
      (engine.runAt tokens indices memo).events = calls.flatMap Invocation.events := by
  induction indices generalizing memo with
  | nil => exact ⟨[], .done memo, rfl⟩
  | cons index rest ih =>
    obtain ⟨calls, hmade⟩ := engine.exists_madeAt tokens index memo
    rw [events_runAt_cons, hmade.events]
    cases hresult : (engine.applyAt tokens index memo).result with
    | error e => exact ⟨calls, .stop hmade hresult, List.append_nil _⟩
    | ok fired =>
      obtain ⟨others, hothers, hevents⟩ := ih (engine.applyAt tokens index memo).context.memo
      exact ⟨calls ++ others, .next hmade hresult hothers, by rw [List.flatMap_append, hevents]⟩

/-- A context at a position has the analysis of the tokens, whether it was handed one or not. -/
theorem KeepsAnalysis.analysis_eq (h : engine.KeepsAnalysis tokens memo) (index : Nat) :
    Context.analysis { engine.context tokens index with memo } =
      engine.analyzer.analyze tokens := by
  cases memo with
  | none => rfl
  | some analysis => exact h analysis rfl

theorem KeepsAnalysis.of_madeAt (h : engine.KeepsAnalysis tokens memo) {index : Nat}
    (hmade : engine.MadeAt tokens index memo calls) :
    engine.KeepsAnalysis tokens (engine.applyAt tokens index memo).context.memo := by
  intro analysis hfinish
  rw [hmade.chain.demand.memo] at hfinish
  split at hfinish
  · cases hfinish
    exact h.analysis_eq index
  · exact h analysis hfinish

/-- All visits are given one analysis. -/
theorem Visits.eq_of_mem_readings (h : engine.Visits tokens indices memo calls)
    (hmemo : engine.KeepsAnalysis tokens memo) {invocation : Invocation}
    (hmem : invocation ∈ calls) {analysis : Analysis} (hreading : analysis ∈ invocation.readings) :
    analysis = engine.analyzer.analyze tokens := by
  induction h with
  | done memo => exact absurd hmem List.not_mem_nil
  | stop made => exact (made.chain.eq_of_mem_readings hmem hreading).trans (hmemo.analysis_eq _)
  | next made _ _ ih =>
    rcases List.mem_append.1 hmem with hmem | hmem
    · exact (made.chain.eq_of_mem_readings hmem hreading).trans (hmemo.analysis_eq _)
    · exact ih (hmemo.of_madeAt made) hmem

/-- The analyzer is run if one of the visits asks and no analysis was handed to the first. -/
theorem Visits.runs (h : engine.Visits tokens indices memo calls) :
    (calls.flatMap Invocation.events).filterMap Event.analysis? =
      if calls.any Invocation.asks && memo.isNone then [tokens] else [] := by
  induction h with
  | done memo => rfl
  | stop made => exact made.chain.demand.runs
  | @next index rest memo calls others fired made _ _ ih =>
    have hat : (calls.flatMap Invocation.events).filterMap Event.analysis? =
        if calls.any Invocation.asks && memo.isNone then [tokens] else [] := made.chain.demand.runs
    rw [List.flatMap_append, List.filterMap_append, hat, ih, made.chain.demand.memo,
      List.any_append]
    cases calls.any Invocation.asks <;> cases others.any Invocation.asks <;> cases memo <;> rfl

/-- **The analysis is made on demand, and once.**  The events of a run are those of the calls that
it makes.  If one of these asks for the analysis, the analyzer is run once and on all tokens, and
otherwise it is not run; what the calls are given is always what the analyzer makes of the tokens.
The built-in test of a feature asks for it if its argument is a text. -/
theorem run_analyses (engine : Engine) (sentence : String) :
    (∃ calls : List Invocation,
      engine.Visits (Text.words sentence) (List.range (Text.words sentence).length) none calls ∧
      (engine.run sentence).events = calls.flatMap Invocation.events ∧
      (engine.run sentence).events.filterMap Event.analysis? =
        (if calls.any Invocation.asks then [Text.words sentence] else []) ∧
      ∀ invocation ∈ calls, ∀ analysis ∈ invocation.readings,
        analysis = engine.analyzer.analyze (Text.words sentence)) ∧
    ∀ args sight, (Builtin.isSyntacticFeature args).asks sight = true ↔
      ∃ feature, args.get? "feature" = some (.text feature) := by
  obtain ⟨calls, hvisits, hevents⟩ := engine.exists_visits (Text.words sentence)
    (List.range (Text.words sentence).length) none
  have hrun : (engine.run sentence).events = calls.flatMap Invocation.events := hevents
  have hruns := hvisits.runs
  rw [Option.isNone_none, Bool.and_true] at hruns
  refine ⟨⟨calls, hvisits, hrun, hrun ▸ hruns, fun invocation hmem analysis hreading => ?_⟩,
    Builtin.asks_isSyntacticFeature⟩
  exact hvisits.eq_of_mem_readings (engine.keepsAnalysis_none _) hmem hreading

end Engine

end TokenRules
