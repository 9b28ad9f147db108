import TokenRules.Engine
import TokenRules.Proofs.Application
import TokenRules.Proofs.Traversal

/-!
# Positions of a sentence on their own

An engine hands the analysis of a sentence from one position to the next, whether
it was made there or not.  `editsAt` applies the rules at one position to a context
of its own, which nothing was handed to.  The analysis that is handed on is the one
that such a context would make (`KeepsAnalysis`), so the two look alike at every
position, and a run is a plain pass over positions: `run_result_eq`.
-/

namespace TokenRules.Engine

variable (engine : Engine) (tokens : List String)

/-- What the rules come to at one position of some tokens, in a context to which nothing but perhaps
an analysis was handed. -/
def applyAt (index : Nat) (memo : Option Analysis) : Outcome EvalError (List String) :=
  engine.rules.apply engine.registry
    { tokens, index, lists := engine.lists, analyzer := engine.analyzer, memo, inlineSets := ∅,
      edits := [] }

/-- The edits that the rules leave at one position in a fresh context, or the error that they end in
there. -/
def editsAt (index : Nat) : Except EvalError (List Edit) :=
  (engine.applyAt tokens index none).result.map fun _ =>
    (engine.applyAt tokens index none).context.edits

/-- The edits of a position are told by the effect of the rules there. -/
theorem editsAt_eq_effect (index : Nat) :
    engine.editsAt tokens index = (engine.applyAt tokens index none).effect.result.map fun _ =>
      (engine.applyAt tokens index none).effect.sight.edits := rfl

theorem result_runAt_cons (index : Nat) (rest : List Nat) (memo : Option Analysis) :
    (engine.runAt tokens (index :: rest) memo).result =
      (engine.applyAt tokens index memo).result.bind fun _ =>
        (engine.runAt tokens rest (engine.applyAt tokens index memo).context.memo).result.map
          ((engine.applyAt tokens index memo).context.edits ++ ·) := by
  have hstart : engine.rules.apply engine.registry { engine.context tokens index with memo } =
      engine.applyAt tokens index memo := rfl
  rw [runAt, hstart]
  cases engine.applyAt tokens index memo with
  | mk result context events => cases result <;> rfl

/-- An analysis, if there is one, is what the analyzer makes of the tokens. -/
def KeepsAnalysis (memo : Option Analysis) : Prop :=
  ∀ analysis ∈ memo, analysis = engine.analyzer.analyze tokens

theorem keepsAnalysis_none : engine.KeepsAnalysis tokens none := fun _ h => (nomatch h)

variable {engine tokens} {memo : Option Analysis}

/-- A context that was handed an analysis looks like one that was not, so the rules treat the two
alike. -/
theorem KeepsAnalysis.effect_applyAt (h : engine.KeepsAnalysis tokens memo) (index : Nat) :
    (engine.applyAt tokens index memo).effect = (engine.applyAt tokens index none).effect := by
  refine engine.rules.determined_apply engine.registry ?_
  cases memo with
  | none => rfl
  | some analysis =>
    obtain rfl := h analysis rfl
    rfl

theorem KeepsAnalysis.editsAt_eq (h : engine.KeepsAnalysis tokens memo) (index : Nat) :
    engine.editsAt tokens index = (engine.applyAt tokens index memo).result.map fun _ =>
      (engine.applyAt tokens index memo).context.edits := by
  rw [editsAt_eq_effect, ← h.effect_applyAt index]
  rfl

/-- Where the rules leave an analysis, it can be handed on. -/
theorem KeepsAnalysis.step (h : engine.KeepsAnalysis tokens memo) (index : Nat) :
    engine.KeepsAnalysis tokens (engine.applyAt tokens index memo).context.memo := by
  intro analysis hmemo
  have hafter : (engine.applyAt tokens index memo).context.analysis = analysis := by
    rw [Context.analysis, hmemo, Option.getD_some]
  have hbefore : (engine.applyAt tokens index memo).context.analysis =
      memo.getD (engine.analyzer.analyze tokens) :=
    congrArg Sight.analysis (engine.rules.confined_apply engine.registry _)
  rw [← hafter, hbefore]
  cases memo with
  | none => rfl
  | some analysis => exact h analysis rfl

/-- **A run goes through its positions in turn.**  Each step has the result of its position on its
own, and goes on with an analysis that can be handed on. -/
theorem runAt_result_eq (h : engine.KeepsAnalysis tokens memo) (indices : List Nat) :
    (engine.runAt tokens indices memo).result =
      (indices.mapM (engine.editsAt tokens)).map List.flatten := by
  induction indices generalizing memo with
  | nil => rfl
  | cons index rest ih =>
    have hat := h.editsAt_eq index
    rw [result_runAt_cons, ih (h.step index)]
    cases hresult : (engine.applyAt tokens index memo).result with
    | error e =>
      rw [hresult] at hat
      rw [mapM_cons_of_error hat]
      rfl
    | ok fired =>
      rw [hresult] at hat
      rw [mapM_cons_of_ok hat]
      cases rest.mapM (engine.editsAt tokens) <;> rfl

theorem run_result (engine : Engine) (sentence : String) :
    (engine.run sentence).result =
      ((List.range (Text.words sentence).length).mapM
        (engine.editsAt (Text.words sentence))).map List.flatten :=
  runAt_result_eq (engine.keepsAnalysis_none _) _

/-- **Handing the analysis on is invisible.**  A run over a sentence has the edits of its positions
one after the other, each from a fresh context; its error is that of the first position that has
one; and a sentence without tokens has no edits. -/
theorem run_result_eq (engine : Engine) (sentence : String) :
    (engine.run sentence).result =
        ((List.range (Text.words sentence).length).mapM
          (engine.editsAt (Text.words sentence))).map List.flatten ∧
    (∀ e, (engine.run sentence).result = .error e ↔
      ∃ index < (Text.words sentence).length,
        engine.editsAt (Text.words sentence) index = .error e ∧
        ∀ earlier < index, ∃ edits, engine.editsAt (Text.words sentence) earlier = .ok edits) ∧
    (Text.words sentence = [] → (engine.run sentence).result = .ok []) := by
  refine ⟨engine.run_result sentence, fun e => ?_, fun h => ?_⟩
  · rw [run_result, map_eq_error_iff, mapM_eq_error_iff]
    constructor
    · rintro ⟨place, index, hindex, he, hbefore⟩
      obtain ⟨hplace, rfl⟩ := List.getElem?_eq_some_iff.1 hindex
      rw [List.length_range] at hplace
      rw [List.getElem_range] at he
      exact ⟨place, hplace, he, fun earlier h =>
        hbefore earlier h earlier (List.getElem?_range (by omega))⟩
    · rintro ⟨index, hindex, he, hbefore⟩
      refine ⟨index, index, List.getElem?_range hindex, he, fun earlier h other hother => ?_⟩
      rw [List.getElem?_range (by omega)] at hother
      cases hother
      exact hbefore earlier h
  · rw [run_result, h]
    rfl

end TokenRules.Engine
