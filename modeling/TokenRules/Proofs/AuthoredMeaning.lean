import TokenRules.Proofs.Expansion
import TokenRules.Proofs.Membership

/-!
# Meaning of authored rules

What an authored rule says can be read off its YAML without a condition ever being
built: `holds` goes through an authored condition, `conditionsHold` and
`exceptionsHold` through the blocks of a rule.  A shape says what the node says that
it was recognized from (`holds_of_recognize`), so the condition that a node is turned
into has the truth value of the node (`value_of_normalize`).  Main statement: the
condition of a compiled rule comes to what the blocks of the rule say,
`compile_evaluate_eq_ok`.
-/

namespace TokenRules.Authoring

open Yaml (Value)

/-! ### What authored conditions say -/

/-- The texts among the items of a sequence. -/
def textsIn (value : Value) : List String := (value.asSequence?.getD []).filterMap Value.asText?

/-- The arguments that are given for a call, none if they are left out. -/
def argumentsIn : Option Value → Arguments
  | none => ∅
  | some args => (decodeArguments args).toOption.getD ∅

section Meaning

variable (registry : Registry) (context : Context)

mutual

/-- Whether an authored condition holds in a context.  Tags in front of it do not count. -/
def holds : Value → Bool
  | .tagged _ value => holds value
  | .mapping entries => entriesHold (argumentsIn (Value.lookup? entries "args")) entries
  | _ => false

/-- Whether a mapping holds, by its first entry that has a keyword. -/
def entriesHold (args : Arguments) : List (Value × Value) → Bool
  | [] => false
  | (key, value) :: rest =>
    match key.asText?.bind Keyword.ofName? with
    | some .function => value.asText?.any fun function => registry.affirms context ⟨function, args⟩
    | some .not => !holds value
    | some .all => (itemsHold value).all id
    | some .any => (itemsHold value).any id
    | some .lists => (textsIn value).any context.view.isListed
    | some .words => context.view.isOneOf (textsIn value)
    | none => entriesHold args rest

/-- The truth values of the items of a sequence. -/
def itemsHold : Value → List Bool
  | .tagged _ value => itemsHold value
  | .sequence items => listHolds items
  | _ => []

def listHolds : List Value → List Bool
  | [] => []
  | item :: rest => holds item :: listHolds rest

end

/-- Whether a block of conditions holds.  One that is not given or empty does, and a sequence
does if its items do. -/
def conditionsHold : Option Value → Bool
  | none | some .null | some (.mapping []) | some (.sequence []) => true
  | some (.sequence items) => items.all (holds registry context)
  | some node => holds registry context node

/-- Whether a block of exceptions holds.  One that is not given or empty does not. -/
def exceptionsHold : Option Value → Bool
  | none | some .null | some (.mapping []) | some (.sequence []) => false
  | some node => holds registry context node

/-- Whether what a shape says is so. -/
def Shape.holds : Shape → Bool
  | .call function args => registry.affirms context ⟨function, argumentsIn args⟩
  | .not node => !Authoring.holds registry context node
  | .all nodes => nodes.all (Authoring.holds registry context)
  | .any nodes => nodes.any (Authoring.holds registry context)
  | .lists names => names.any context.view.isListed
  | .words texts => context.view.isOneOf texts

end Meaning

/-! ### Recognized shapes -/

section Recognition

variable {registry : Registry} {context : Context}

theorem holds_untagged : ∀ value : Value,
    holds registry context value.untagged = holds registry context value
  | .tagged _ value => by rw [Value.untagged, holds_untagged value, holds]
  | .null | .bool _ | .int _ | .float _ | .text _ | .sequence _ | .mapping _ => rfl

theorem itemsHold_untagged : ∀ value : Value,
    itemsHold registry context value.untagged = itemsHold registry context value
  | .tagged _ value => by rw [Value.untagged, itemsHold_untagged value, itemsHold]
  | .null | .bool _ | .int _ | .float _ | .text _ | .sequence _ | .mapping _ => rfl

theorem listHolds_eq (items : List Value) :
    listHolds registry context items = items.map (holds registry context) := by
  induction items with
  | nil => rfl
  | cons item rest ih => rw [listHolds, ih, List.map_cons]

theorem holds_of_asMapping? {node : Value} {entries : List (Value × Value)}
    (h : node.asMapping? = some entries) :
    holds registry context node =
      entriesHold registry context (argumentsIn (Value.lookup? entries "args")) entries := by
  rw [← holds_untagged, untagged_of_asMapping? h, holds]

theorem itemsHold_of_asSequence? {value : Value} {items : List Value}
    (h : value.asSequence? = some items) :
    itemsHold registry context value = items.map (holds registry context) := by
  rw [← itemsHold_untagged, untagged_of_asSequence? h, itemsHold, listHolds_eq]

/-- Entries of which the keys read as `args` say nothing. -/
theorem entriesHold_of_args {entries : List (Value × Value)} {args : Arguments}
    (h : ∀ entry ∈ entries, entry.1.asText? = some "args") (rest : List (Value × Value)) :
    entriesHold registry context args (entries ++ rest) =
      entriesHold registry context args rest := by
  induction entries with
  | nil => rfl
  | cons entry entries ih =>
    obtain ⟨hentry, hentries⟩ := List.forall_mem_cons.1 h
    rw [List.cons_append, entriesHold, hentry, Option.bind_some, ← ih hentries]
    rfl

/-- A mapping holds if the entry of its keyword does. -/
theorem entriesHold_of_hasKeyword {entries : List (Value × Value)} {keyword : Keyword}
    {value : Value} (h : Shape.HasKeyword entries keyword value) (args : Arguments) :
    entriesHold registry context args entries =
      entriesHold registry context args [(.text keyword.name, value)] := by
  obtain ⟨before, after, rfl, hothers⟩ := h.exists_split
  rw [entriesHold_of_args fun entry hmem => hothers entry (List.mem_append_left _ hmem)]
  cases keyword <;> rfl

theorem textsIn_of_textsOf {keyword : Keyword} {value : Value} {texts : List String}
    (h : Shape.textsOf keyword value = .ok texts) : textsIn value = texts := by
  obtain ⟨items, hitems, htexts⟩ := Shape.textsOf_eq_ok_iff.1 h
  rw [textsIn, hitems, Option.getD_some]
  exact filterMap_eq_of_mapM_eq_some htexts

theorem argumentsIn_of_findArgs {entries : List (Value × Value)} {args : Option Value}
    (h : Shape.findArgs entries = .ok args) :
    argumentsIn (Value.lookup? entries "args") = argumentsIn args := by
  unfold Shape.findArgs at h
  split at h
  · cases h
    rename_i hlookup
    rw [hlookup]
  · cases h
    rename_i hlookup
    rw [hlookup]
    rfl
  · cases h
    rename_i hlookup
    rw [hlookup]
  · cases h

/-- **A node says what its shape says.** -/
theorem holds_of_recognize {node : Value} {shape : Shape} (h : Shape.recognize node = .ok shape) :
    holds registry context node = shape.holds registry context := by
  obtain ⟨entries, keyword, value, hentries, hkeyword, -, hshape⟩ := Shape.recognize_eq_ok_iff.1 h
  rw [holds_of_asMapping? hentries, entriesHold_of_hasKeyword hkeyword]
  cases keyword with
  | function =>
    obtain ⟨function, args, hfunction, hargs, rfl⟩ := hshape
    show value.asText?.any _ = _
    rw [hfunction, argumentsIn_of_findArgs hargs]
    rfl
  | not =>
    subst hshape
    rfl
  | all =>
    obtain ⟨items, hitems, rfl⟩ := hshape
    show (itemsHold registry context value).all id = _
    rw [itemsHold_of_asSequence? (Shape.itemsOf_eq_ok_iff.1 hitems), List.all_map]
    rfl
  | any =>
    obtain ⟨items, hitems, rfl⟩ := hshape
    show (itemsHold registry context value).any id = _
    rw [itemsHold_of_asSequence? (Shape.itemsOf_eq_ok_iff.1 hitems), List.any_map]
    rfl
  | lists =>
    obtain ⟨names, hnames, rfl⟩ := hshape
    show (textsIn value).any context.view.isListed = _
    rw [textsIn_of_textsOf hnames]
    rfl
  | words =>
    obtain ⟨words, hwords, rfl⟩ := hshape
    show context.view.isOneOf (textsIn value) = _
    rw [textsIn_of_textsOf hwords]
    rfl

end Recognition

/-! ### Conditions from nodes -/

theorem argumentsIn_of_decodeArguments {value : Value} {args : Arguments}
    (h : decodeArguments value = .ok args) : argumentsIn (some value) = args := by
  rw [argumentsIn, h]
  rfl

section Normalization

variable {registry : Registry} (hin : registry.predicate? "in_list" = some Builtin.inList)
  (context : Context)

include hin

theorem truth_inList (name : String) :
    ((Condition.inList name).map (registry.truth context)).value = context.view.isListed name := by
  rw [Condition.inList, Formula.map, Formula.value]
  exact Registry.truth_of_answer (Registry.answer_inList hin context name)

theorem truth_inWords (words : List String) :
    ((Condition.inWords words).map (registry.truth context)).value =
      context.view.isOneOf words := by
  rw [Condition.inWords, Formula.map, Formula.value]
  exact Registry.truth_of_answer (Registry.answer_inWords hin context words)

/-- A shape is turned into a condition that is as true, if its parts are. -/
theorem value_of_expand {shape : Shape} {condition : Condition}
    (hparts : ∀ part ∈ shape.parts, ∀ condition, normalize part = .ok condition →
      (condition.map (registry.truth context)).value = holds registry context part)
    (h : shape.expand = .ok condition) :
    (condition.map (registry.truth context)).value = shape.holds registry context := by
  cases shape with
  | call function args =>
    cases args with
    | none =>
      cases h
      rw [Condition.call, Formula.map, Formula.value]
      exact registry.truth_call context _
    | some args =>
      obtain ⟨decoded, hdecoded, rfl⟩ := map_eq_ok_iff.1 h
      rw [Formula.map, Formula.value, Shape.holds,
        argumentsIn_of_decodeArguments (mapError_eq_ok_iff.1 hdecoded)]
      exact registry.truth_call context _
  | not inner =>
    obtain ⟨condition, hcondition, rfl⟩ := map_eq_ok_iff.1 h
    have hinner := hparts inner List.mem_cons_self condition (mapError_eq_ok_iff.1 hcondition)
    rw [Formula.map, Formula.value, hinner]
    rfl
  | all nodes =>
    obtain ⟨conditions, hconditions, rfl⟩ := map_eq_ok_iff.1 h
    rw [Formula.value_map_all, map_of_eachFrom hconditions hparts, List.all_map]
    rfl
  | any nodes =>
    obtain ⟨conditions, hconditions, rfl⟩ := map_eq_ok_iff.1 h
    rw [Formula.value_map_any, map_of_eachFrom hconditions hparts, List.any_map]
    rfl
  | lists names =>
    cases h
    rw [Formula.value_map_any, List.map_map, List.any_map]
    exact congrArg names.any (funext fun name => truth_inList hin context name)
  | words texts =>
    cases h
    rw [Formula.value_map_any, List.map_singleton, truth_inWords hin context texts]
    exact Bool.or_false _

/-- **A condition is as true as the node that it comes from.** -/
theorem value_of_normalize {node : Value} {condition : Condition}
    (h : normalize node = .ok condition) :
    (condition.map (registry.truth context)).value = holds registry context node := by
  induction node using Shape.node_induction generalizing condition with
  | step node ih =>
    rw [normalize_eq] at h
    cases hshape : Shape.recognize node with
    | error reason =>
      rw [hshape] at h
      cases h
    | ok shape =>
      have hparts : ∀ part ∈ shape.parts, ∀ condition, normalize part = .ok condition →
          (condition.map (registry.truth context)).value = holds registry context part :=
        fun part hpart condition hcondition => ih shape hshape part hpart hcondition
      rw [hshape] at h
      rw [holds_of_recognize hshape]
      exact value_of_expand hin context hparts h

theorem value_of_conditions {block : Option Value} {found : Option Condition}
    (h : normalizeBlock .conditions block = .ok found) :
    ((found.getD (.all [])).map (registry.truth context)).value =
      conditionsHold registry context block := by
  cases block with
  | none =>
    cases h
    rfl
  | some node =>
    cases node with
    | null =>
      cases h
      rfl
    | mapping entries =>
      cases entries with
      | nil =>
        cases h
        rfl
      | cons entry rest =>
        obtain ⟨condition, hcondition, rfl⟩ := map_eq_ok_iff.1 h
        exact value_of_normalize hin context hcondition
    | sequence items =>
      cases items with
      | nil =>
        cases h
        rfl
      | cons item rest =>
        obtain ⟨conditions, hconditions, rfl⟩ := map_eq_ok_iff.1 h
        have hvalues := map_of_eachFrom hconditions fun item _ condition hcondition =>
          value_of_normalize hin context hcondition
        rw [Option.getD_some, Formula.value_map_all, hvalues, List.all_map]
        rfl
    | bool | int | float | text | tagged =>
      obtain ⟨condition, hcondition, rfl⟩ := map_eq_ok_iff.1 h
      exact value_of_normalize hin context hcondition

theorem value_of_exceptions {block : Option Value} {found : Option Condition}
    (h : normalizeBlock .exceptions block = .ok found) :
    (found.any fun condition => (condition.map (registry.truth context)).value) =
      exceptionsHold registry context block := by
  cases block with
  | none =>
    cases h
    rfl
  | some node =>
    cases node with
    | null =>
      cases h
      rfl
    | mapping entries | sequence entries =>
      cases entries with
      | nil =>
        cases h
        rfl
      | cons entry rest =>
        obtain ⟨condition, hcondition, rfl⟩ := map_eq_ok_iff.1 h
        exact value_of_normalize hin context hcondition
    | bool | int | float | text | tagged =>
      obtain ⟨condition, hcondition, rfl⟩ := map_eq_ok_iff.1 h
      exact value_of_normalize hin context hcondition

/-- The condition of a draft is as true as the blocks that it comes from. -/
theorem value_of_draft {spec : RuleSpec} {draft : RuleDraft} (h : spec.draft = .ok draft) :
    (draft.condition.map (registry.truth context)).value =
      (conditionsHold registry context spec.conditions &&
        !exceptionsHold registry context spec.exceptions) := by
  obtain ⟨conditions, exceptions, hconditions, hexceptions, rfl⟩ := RuleSpec.exists_of_draft h
  rw [← value_of_conditions hin context hconditions, ← value_of_exceptions hin context hexceptions]
  cases exceptions with
  | none => exact (Bool.and_true _).symm
  | some exceptions =>
    rw [RuleDraft.condition, Formula.value_map_all]
    simp [Formula.map, Formula.value]

end Normalization

/-- **A compiled rule means what it says.**  Where all predicates that the rule calls answer, its
condition comes to what the blocks of the rule say, under any costs: the conditions hold and the
exceptions do not. -/
theorem compile_evaluate_eq_ok {declared : List (String × Binary64)} {sources : List RuleSource}
    {set : RuleSet} (hset : compile declared sources = .ok set) {place : Nat} {spec : RuleSpec}
    (hspec : sources[place]? = some (.authored spec)) :
    ∃ rule, set.rules[place]? = some rule ∧ ∀ registry context,
      registry.predicate? "in_list" = some Builtin.inList →
      (∀ literal ∈ rule.condition.atoms, ∃ b, registry.answer context literal.call = .ok b) →
      ∀ costs, (Evaluator.evaluate ⟨costs, registry⟩ rule.condition context).result =
        .ok (conditionsHold registry context spec.conditions &&
          !exceptionsHold registry context spec.exceptions) := by
  obtain ⟨draft, hdraft, hrule⟩ := exists_rule_of_compile hset hspec
  refine ⟨draft.rule, hrule, fun registry context hin hanswers costs => ?_⟩
  rw [Condition.evaluate_eq_value_truth hanswers costs, ← value_of_draft hin context hdraft]
  rfl

/-- Conditions in a sequence and exceptions in a mapping, at a word that no list has. -/
theorem compile_evaluate_words_unless_listed :
    let conditions : Value :=
      .sequence [.mapping [(.text "words", .sequence [.text "a", .text "b"])]]
    let exceptions : Value := .mapping [(.text "lists", .sequence [.text "L"])]
    let spec : RuleSpec := ⟨"mark", "", some conditions, some exceptions, []⟩
    let rule : Rule := ⟨"mark", "", .all [.all [.any [Condition.inWords ["a", "b"]]],
      .not (.any [Condition.inList "L"])], []⟩
    let context := Context.ofTokens ["a"]
    compile [] [.authored spec] = .ok ⟨[rule], ∅, by decide⟩ ∧
      ∀ costs, (Evaluator.evaluate ⟨costs, Builtin.registry⟩ rule.condition context).result =
        .ok true := by
  intro conditions exceptions spec rule context
  have hset : compile [] [.authored spec] = .ok ⟨[rule], ∅, by decide⟩ := by cbv
  have hspec : [RuleSource.authored spec][0]? = some (.authored spec) := rfl
  obtain ⟨found, hfound, hmeaning⟩ := compile_evaluate_eq_ok hset hspec
  cases hfound
  have hanswers : ∀ literal ∈ rule.condition.atoms,
      ∃ b, Builtin.registry.answer context literal.call = .ok b := by
    intro literal hmem
    have hliteral : literal = ⟨⟨"in_list",
          (∅ : Arguments).insert "words" (.list (["a", "b"].map .text))⟩, false⟩ ∨
        literal = ⟨⟨"in_list", (∅ : Arguments).insert "list" (.text "L")⟩, false⟩ := by
      simpa [rule, Condition.inWords, Condition.inList, Formula.atoms] using hmem
    rcases hliteral with rfl | rfl
    · exact ⟨_, Registry.answer_inWords Builtin.predicate?_in_list context ["a", "b"]⟩
    · exact ⟨_, Registry.answer_inList Builtin.predicate?_in_list context "L"⟩
  exact ⟨hset, hmeaning Builtin.registry context Builtin.predicate?_in_list hanswers⟩

end TokenRules.Authoring
