import TokenRules.RuleSet

/-!
# Engines

An engine applies a rule set at every token of a sentence and collects the edits. Every position
has a context of its own; only the analysis of the sentence, once made, is handed on.
-/

namespace TokenRules

structure Engine where
  rules : RuleSet
  registry : Registry
  lists : WordLists
  analyzer : Analyzer

/-- What the run over a sentence leaves: all edits in order of position, or the first error. -/
structure Run where
  result : Except EvalError (List Edit)
  events : List Event

namespace Engine

/-- A fresh context with the lists and the analyzer of the engine. -/
def context (engine : Engine) (tokens : List String) (index : Nat) : Context :=
  (((Context.ofTokens tokens).moveTo index).withLists engine.lists).withAnalyzer engine.analyzer

/-- Apply the rules at the positions given, starting from the analysis if there is one. -/
def runAt (engine : Engine) (tokens : List String) : List Nat → Option Analysis → Run
  | [], _ => ⟨.ok [], []⟩
  | index :: rest, memo =>
    let start := { engine.context tokens index with memo }
    let ⟨result, context, events⟩ := engine.rules.apply engine.registry start
    match result with
    | .error e => ⟨.error e, events⟩
    | .ok _ =>
      let after := engine.runAt tokens rest context.memo
      ⟨after.result.map (context.edits ++ ·), events ++ after.events⟩

/-- Apply the rules at every token of a token sequence. -/
def runTokens (engine : Engine) (tokens : List String) : Run :=
  engine.runAt tokens (List.range tokens.length) none

/-- Apply the rules at every word of a sentence. -/
def run (engine : Engine) (sentence : String) : Run := engine.runTokens (Text.words sentence)

end Engine

end TokenRules
