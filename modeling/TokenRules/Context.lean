import TokenRules.Analysis
import TokenRules.Text.Blank
import TokenRules.Text.Quoted
import TokenRules.WordLists

/-!
# Contexts

A `Context` is one position of a token sequence together with what functions called there may
consult and leave behind: word lists, an analyzer with the analysis once it is made, the sets of
inline word lists, and the edits recorded so far.
-/

namespace TokenRules

/-- Insertion of `text` after the token at `position`. -/
structure Edit where
  position : Nat
  text : String
  deriving DecidableEq

/-- The part of a context that can be read without leaving a mark. -/
structure View where
  tokens : List String
  index : Nat
  lists : WordLists
  normalize : String → String
  edits : List Edit

namespace View

def token? (view : View) : Option String := view.tokens[view.index]?

/-- The current token in the form in which lists hold it. -/
def normalized? (view : View) : Option String := view.token?.map view.normalize

end View

/-- The sets of inline word lists by their exact words, in the order of first use. -/
structure InlineSets where
  entries : List (List String × WordSet)
  sound : ∀ entry ∈ entries, entry.2 = .ofList entry.1

namespace InlineSets

instance : EmptyCollection InlineSets := ⟨⟨[], by simp⟩⟩

def lookup? (sets : InlineSets) (words : List String) : Option WordSet := sets.entries.lookup words

/-- The sets with that of one more list of words. -/
def keep (sets : InlineSets) (words : List String) : InlineSets where
  entries := sets.entries ++ [(words, .ofList words)]
  sound := by
    intro entry hmem
    rcases List.mem_append.1 hmem with hmem | hmem
    · exact sets.sound entry hmem
    · rw [List.mem_singleton.1 hmem]

end InlineSets

structure Context where
  tokens : List String
  index : Nat
  lists : WordLists
  analyzer : Analyzer
  /-- The analysis of the tokens, once it was asked for or if it was given. -/
  memo : Option Analysis
  inlineSets : InlineSets
  edits : List Edit

namespace Context

/-- A context at the first of some tokens, without lists and with the idle analyzer. -/
def ofTokens (tokens : List String) : Context where
  tokens := tokens
  index := 0
  lists := ∅
  analyzer := .none
  memo := none
  inlineSets := ∅
  edits := []

/-- A context at the first word of a sentence. -/
def ofSentence (sentence : String) : Context := ofTokens (Text.words sentence)

/-- The same context at another position. -/
def moveTo (context : Context) (index : Nat) : Context := { context with index }

def withLists (context : Context) (lists : WordLists) : Context := { context with lists }

/-- Another analyzer; an analysis that is there already stays. -/
def withAnalyzer (context : Context) (analyzer : Analyzer) : Context := { context with analyzer }

/-- An analysis made elsewhere, so that none is made here. -/
def withAnalysis (context : Context) (analysis : Analysis) : Context :=
  { context with memo := some analysis }

def view (context : Context) : View where
  tokens := context.tokens
  index := context.index
  lists := context.lists
  normalize := context.analyzer.normalize
  edits := context.edits

/-- The analysis that the context has or would make. -/
def analysis (context : Context) : Analysis :=
  context.memo.getD (context.analyzer.analyze context.tokens)

/-- The context once its analysis is made. -/
def analyzed (context : Context) : Context := { context with memo := some context.analysis }

/-- The set of a list of words and the context that keeps it. -/
def inlineSet (context : Context) (words : List String) : WordSet × Context :=
  match context.inlineSets.lookup? words with
  | some set => (set, context)
  | none => (.ofList words, { context with inlineSets := context.inlineSets.keep words })

/-- Place of the set of a list of words among the sets kept so far. -/
def inlinePlace? (context : Context) (words : List String) : Option Nat :=
  context.inlineSets.entries.findIdx? (·.1 == words)

def record (context : Context) (edit : Edit) : Context :=
  { context with edits := context.edits ++ [edit] }

/-- The context without its edits. -/
def drained (context : Context) : Context := { context with edits := [] }

end Context

end TokenRules
