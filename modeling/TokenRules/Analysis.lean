import TokenRules.WordSet

/-!
# Analysis of a sentence

An `Analysis` attaches feature labels to the tokens of a sentence. Where it comes from, and how
tokens are brought to the form that word lists use, is up to an `Analyzer`.
-/

namespace TokenRules

/-- Feature labels per token. -/
structure Analysis where
  features : List WordSet
  deriving Inhabited

namespace Analysis

/-- An analysis of `count` tokens without features. -/
def blank (count : Nat) : Analysis := ⟨List.replicate count ∅⟩

/-- Attach a feature to a token; there is nothing to attach it to out of range. -/
def addFeature (analysis : Analysis) (index : Nat) (feature : String) : Analysis :=
  ⟨analysis.features.modify index (·.insert feature)⟩

def hasFeature (analysis : Analysis) (index : Nat) (feature : String) : Bool :=
  match analysis.features[index]? with
  | some set => set.contains feature
  | none => false

end Analysis

/-- Source of analyses and of the normal form of a token. -/
structure Analyzer where
  analyze : List String → Analysis
  normalize : String → String

/-- The analyzer that finds no features and leaves tokens as they are. -/
def Analyzer.none : Analyzer := ⟨fun tokens => .blank tokens.length, id⟩

end TokenRules
