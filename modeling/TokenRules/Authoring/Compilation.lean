import TokenRules.Authoring.Normalization
import TokenRules.Authoring.RuleDocument
import TokenRules.RuleSet

/-!
# Compilation of rule sets

Rules come as authored specifications or as drafts with conditions built in code, in any mix. A
rule holds where its conditions hold and its exceptions do not.
-/

namespace TokenRules.Authoring

/-- A rule with its conditions and exceptions apart. -/
structure RuleDraft where
  name : String
  description : String
  conditions : Option Condition
  exceptions : Option Condition
  actions : List Call

/-- The conditions of a rule, unless its exceptions hold. -/
def RuleDraft.condition (draft : RuleDraft) : Condition :=
  let conditions := draft.conditions.getD (.all [])
  match draft.exceptions with
  | none => conditions
  | some exceptions => .all [conditions, .not exceptions]

def RuleDraft.rule (draft : RuleDraft) : Rule :=
  ⟨draft.name, draft.description, draft.condition, draft.actions⟩

/-- Why rules and costs do not make a rule set. -/
inductive CompileError
  | badCost (e : CostError)
  | unsupportedNode (rule : String) (block : Block) (steps : List Step) (reason : ShapeError)
      (node : Yaml.Value)
  | invalidArguments (rule : String) (block : Block) (steps : List Step) (reason : Mismatch)
  | duplicateRule (name : String)

/-- The way to a node, from the block it is in. -/
def renderPath (block : Block) (steps : List Step) : String :=
  block.name ++ String.join (steps.map Step.render)

def CompileError.message : CompileError → String
  | .badCost e => e.message
  | .unsupportedNode rule block steps reason node =>
    "unsupported condition node at " ++ renderPath block steps ++ " in rule '" ++ rule ++ "': " ++
      reason.message ++ ": " ++ node.render
  | .invalidArguments rule block steps reason =>
    "invalid arguments at " ++ renderPath block steps ++ ".args in rule '" ++ rule ++ "': " ++
      reason.message
  | .duplicateRule name => s!"duplicate rule name '{name}'"

/-- The failure of a rule in one of whose blocks a node fails. -/
def CompileError.ofNodeError (rule : String) (block : Block) (e : NodeError) :
    Failure CompileError :=
  e.fault.map fun
    | .unsupported reason node => .unsupportedNode rule block e.steps reason node
    | .invalidArguments reason => .invalidArguments rule block e.steps reason

/-- The condition of a block of an authored rule. -/
def RuleSpec.block (spec : RuleSpec) (block : Block) (value : Option Yaml.Value) :
    Except (Failure CompileError) (Option Condition) :=
  (normalizeBlock block value).mapError (CompileError.ofNodeError spec.name block)

/-- An authored rule with its blocks turned into conditions. -/
def RuleSpec.draft (spec : RuleSpec) : Except (Failure CompileError) RuleDraft := do
  let conditions ← spec.block .conditions spec.conditions
  let exceptions ← spec.block .exceptions spec.exceptions
  return ⟨spec.name, spec.description, conditions, exceptions, spec.actions⟩

/-- Where a rule comes from. -/
inductive RuleSource
  | authored (spec : RuleSpec)
  | built (draft : RuleDraft)

def RuleSource.draft : RuleSource → Except (Failure CompileError) RuleDraft
  | .authored spec => spec.draft
  | .built draft => .ok draft

/-- The first name that came before, among those seen already or in the list. -/
def firstRepeated (seen : List String) : List String → Option String
  | [] => none
  | name :: rest => if name ∈ seen then some name else firstRepeated (name :: seen) rest

theorem nodup_of_firstRepeated_eq_none {seen names : List String}
    (h : firstRepeated seen names = none) : names.Nodup ∧ ∀ name ∈ names, name ∉ seen := by
  induction names generalizing seen with
  | nil => simp
  | cons name rest ih =>
    unfold firstRepeated at h
    split at h
    · cases h
    · obtain ⟨hrest, hseen⟩ := ih h
      refine ⟨List.nodup_cons.2 ⟨fun hmem => ?_, hrest⟩, fun other hmem => ?_⟩
      · exact hseen name hmem List.mem_cons_self
      · rcases List.mem_cons.1 hmem with rfl | hmem
        · assumption
        · exact fun hother => hseen other hmem (List.mem_cons_of_mem _ hother)

/-- A rule set from declared costs and rules. Costs are checked first, then the rules in order,
and last that no name comes twice. -/
def compile (costs : List (String × Binary64)) (sources : List RuleSource) :
    Except (Failure CompileError) RuleSet :=
  match CostTable.ofPairs costs with
  | .error e => .error (.reported (.badCost e))
  | .ok costs =>
    match sources.mapM RuleSource.draft with
    | .error failure => .error failure
    | .ok drafts =>
      let rules := drafts.map RuleDraft.rule
      match h : firstRepeated [] (rules.map (·.name)) with
      | some name => .error (.reported (.duplicateRule name))
      | none => .ok ⟨rules, costs, (nodup_of_firstRepeated_eq_none h).1⟩

/-- The rule set of a document. -/
def RuleDocument.compile (document : RuleDocument) : Except (Failure CompileError) RuleSet :=
  Authoring.compile document.functionCosts.entries (document.rules.map .authored)

end TokenRules.Authoring
