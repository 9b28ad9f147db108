import TokenRules.Proofs.FormulaTree
import TokenRules.Proofs.Grammar
import TokenRules.Proofs.Sources
import TokenRules.Proofs.WrittenArguments

/-!
# Conditions as they are written

`Authored` says which values write a condition, by one rule for every kind of condition: calls
with their arguments in any order and perhaps with nulls under other names, and the connectives.
Every condition without negated literals is written somehow (`authored_toYaml`), and each value
that writes a condition is turned into that condition (`normalize_of_authored`).  A rule that is
authored with such values is the rule that is built of the conditions (`compile_authored`).

What is not an argument cannot be written as one.  `Leads` is the way from a condition to one of
its parts; a call at its end that is given something else (`Misgiven`) is reported with that way
if nothing before it is wrong (`compile_of_misgiven`), and in no case is it accepted.  Main
statement: `authoring_round_trips`.
-/

namespace TokenRules

namespace Condition

mutual

/-- A value that writes a condition, where the flags of literals are passed over. -/
def toYaml : Condition → Yaml.Value
  | .atom literal => .mapping [(.text "function", .text literal.call.function), (.text "args",
      .mapping (literal.call.args.entries.map fun entry => (.text entry.1, entry.2.toYaml)))]
  | .not condition => .mapping [(.text "not", toYaml condition)]
  | .all conditions => .mapping [(.text "all", .sequence (toYamls conditions))]
  | .any conditions => .mapping [(.text "any", .sequence (toYamls conditions))]

def toYamls : List Condition → List Yaml.Value
  | [] => []
  | condition :: rest => toYaml condition :: toYamls rest

end

theorem toYamls_eq (conditions : List Condition) : toYamls conditions = conditions.map toYaml := by
  induction conditions with
  | nil => rfl
  | cons condition rest ih => rw [toYamls, ih, List.map_cons]

end Condition

namespace Authoring

open Yaml (Value)

/-! ### Conditions -/

/-- The value writes the condition: literals as calls, the others by their keywords. -/
inductive Authored : Value → Condition → Prop
  | call {node : Value} {function : String} (shape : Shape.Written node (.call function none)) :
      Authored node (.call function)
  | callWith {node : Value} {function : String} {given : List (Value × Value)} {args : Arguments}
      (shape : Shape.Written node (.call function (some (.mapping given))))
      (writes : WritesArguments given args) : Authored node (.atom ⟨⟨function, args⟩, false⟩)
  | not {node inner : Value} {condition : Condition} (shape : Shape.Written node (.not inner))
      (part : Authored inner condition) : Authored node (.not condition)
  | all {node : Value} {nodes : List Value} {conditions : List Condition}
      (shape : Shape.Written node (.all nodes)) (parts : List.Forall₂ Authored nodes conditions) :
      Authored node (.all conditions)
  | any {node : Value} {nodes : List Value} {conditions : List Condition}
      (shape : Shape.Written node (.any nodes)) (parts : List.Forall₂ Authored nodes conditions) :
      Authored node (.any conditions)

theorem forall₂_toYamls {conditions : List Condition}
    (h : ∀ condition ∈ conditions, Authored condition.toYaml condition) :
    List.Forall₂ Authored (Condition.toYamls conditions) conditions := by
  rw [Condition.toYamls_eq, List.forall₂_map_left_iff, List.forall₂_same]
  exact h

/-- **Every condition is written somehow**, unless a literal in it is negated. -/
theorem authored_toYaml {condition : Condition}
    (h : ∀ literal ∈ condition.atoms, literal.negate = false) :
    Authored condition.toYaml condition := by
  induction condition using Formula.ind with
  | atom literal =>
    obtain ⟨⟨function, args⟩, negate⟩ := literal
    obtain rfl : negate = false := h _ List.mem_cons_self
    exact .callWith (.functionArgs ⟨_, rfl, .refl _⟩ rfl) ⟨[], by simp, by simp⟩
  | not condition ih => exact .not (.not ⟨_, rfl, .refl _⟩) (ih h)
  | all conditions ih =>
    refine .all (.all ⟨_, rfl, .refl _⟩ rfl) (forall₂_toYamls fun condition hmem => ?_)
    exact ih condition hmem fun literal hliteral =>
      h literal (Formula.mem_atoms_all.2 ⟨condition, hmem, hliteral⟩)
  | any conditions ih =>
    refine .any (.any ⟨_, rfl, .refl _⟩ rfl) (forall₂_toYamls fun condition hmem => ?_)
    exact ih condition hmem fun literal hliteral =>
      h literal (Formula.mem_atoms_any.2 ⟨condition, hmem, hliteral⟩)

theorem normalize_of_written {node : Value} {shape : Shape} (h : Shape.Written node shape) :
    normalize node = shape.expand := by
  rw [normalize_eq, h.recognize_eq_ok]

theorem eachFrom_of_authored {step : Nat → Step} {nodes : List Value} {conditions : List Condition}
    (h : List.Forall₂ Authored nodes conditions)
    (hmember : ∀ condition ∈ conditions, ∀ {node}, Authored node condition →
      normalize node = .ok condition) : eachFrom step normalize 0 nodes = .ok conditions := by
  refine (eachFrom_eq_ok_iff fun _ _ _ => Iff.rfl).2 ?_
  exact forall₂_imp_of_mem h fun condition hmem _ => hmember condition hmem

/-- **A value is turned into the condition that it writes.** -/
theorem normalize_of_authored {node : Value} {condition : Condition}
    (h : Authored node condition) : normalize node = .ok condition := by
  -- by the condition and not by the value: it tells which rule the value was written by
  induction condition using Formula.ind generalizing node with
  | atom literal =>
    cases h with
    | call shape =>
      rw [normalize_of_written shape]
      rfl
    | callWith shape writes =>
      rw [normalize_of_written shape, Shape.expand, decodeArguments_of_writes writes]
      rfl
  | not condition ih =>
    cases h with
    | not shape part =>
      rw [normalize_of_written shape, Shape.expand, ih part]
      rfl
  | all conditions ih =>
    cases h with
    | all shape parts =>
      rw [normalize_of_written shape, Shape.expand, eachFrom_of_authored parts ih]
      rfl
  | any conditions ih =>
    cases h with
    | any shape parts =>
      rw [normalize_of_written shape, Shape.expand, eachFrom_of_authored parts ih]
      rfl

theorem Authored.exists_written {node : Value} {condition : Condition}
    (h : Authored node condition) : ∃ shape, Shape.Written node shape := by
  cases h with
  | call shape | callWith shape | not shape | all shape | any shape => exact ⟨_, shape⟩

theorem normalizeBlock_of_written {block : Block} {node : Value} {shape : Shape}
    (h : Shape.Written node shape) :
    normalizeBlock block (some node) = (normalize node).map some := by
  obtain ⟨entry, entries, hmapping⟩ := h.exists_entry
  exact normalizeBlock_of_entry hmapping

theorem normalizeBlock_of_authored {block : Block} {value : Option Value}
    {found : Option Condition} (h : Option.Rel Authored value found) :
    normalizeBlock block value = .ok found := by
  cases h with
  | none => rfl
  | some part =>
    obtain ⟨shape, hshape⟩ := part.exists_written
    rw [normalizeBlock_of_written hshape, normalize_of_authored part]
    rfl

/-! ### Rules -/

/-- A source counts by its draft alone. -/
theorem compile_congr {source other : RuleSource} (h : source.draft = other.draft)
    (costs : List (String × Binary64)) (before after : List RuleSource) :
    compile costs (before ++ source :: after) = compile costs (before ++ other :: after) := by
  have hdrafts : (before ++ source :: after).mapM RuleSource.draft =
      (before ++ other :: after).mapM RuleSource.draft := by
    rw [List.mapM_append, List.mapM_append, List.mapM_cons, List.mapM_cons, h]
  unfold compile
  rw [hdrafts]

/-- **An authored rule is the rule that is built of the conditions that it writes.** -/
theorem compile_authored {spec : RuleSpec} {conditions exceptions : Option Condition}
    (hconditions : Option.Rel Authored spec.conditions conditions)
    (hexceptions : Option.Rel Authored spec.exceptions exceptions)
    (costs : List (String × Binary64)) (before after : List RuleSource) :
    compile costs (before ++ .authored spec :: after) =
      compile costs (before ++
        .built ⟨spec.name, spec.description, conditions, exceptions, spec.actions⟩ :: after) := by
  refine compile_congr ?_ costs before after
  rw [RuleSource.draft_authored, normalizeBlock_of_authored hconditions,
    normalizeBlock_of_authored hexceptions]
  rfl

/-! ### What is no argument -/

/-- The steps lead from a condition to one of its parts, past siblings of a certain kind. -/
inductive Leads (passed : Value → Prop) : Value → List Step → Value → Prop
  | here (node : Value) : Leads passed node [] node
  | not {node inner part : Value} {steps : List Step} (shape : Shape.Written node (.not inner))
      (rest : Leads passed inner steps part) : Leads passed node (.not :: steps) part
  | all {node item part : Value} {before after : List Value} {steps : List Step}
      (shape : Shape.Written node (.all (before ++ item :: after)))
      (earlier : ∀ other ∈ before, passed other) (rest : Leads passed item steps part) :
      Leads passed node (.all before.length :: steps) part
  | any {node item part : Value} {before after : List Value} {steps : List Step}
      (shape : Shape.Written node (.any (before ++ item :: after)))
      (earlier : ∀ other ∈ before, passed other) (rest : Leads passed item steps part) :
      Leads passed node (.any before.length :: steps) part

/-- The same in a block of a rule, which may be a sequence of conditions. -/
inductive LeadsIn (passed : Value → Prop) (block : Block) : Value → List Step → Value → Prop
  | node {node part : Value} {steps : List Step} (rest : Leads passed node steps part) :
      LeadsIn passed block node steps part
  | item {item part : Value} {before after : List Value} {steps : List Step}
      (conditional : block = .conditions) (earlier : ∀ other ∈ before, passed other)
      (rest : Leads passed item steps part) :
      LeadsIn passed block (.sequence (before ++ item :: after)) (.item before.length :: steps) part

/-- The value is turned into a condition. -/
def Legal (node : Value) : Prop := ∃ condition, normalize node = .ok condition

/-- The value is a call that is given something unfit for an argument. -/
def Misgiven (node : Value) : Prop :=
  ∃ function given, Shape.Written node (.call function (some (.mapping given))) ∧
    ∃ entry ∈ given, Unfit entry.2

theorem Misgiven.exists_normalize_eq_error {node : Value} (h : Misgiven node) :
    ∃ reason, normalize node = .error ⟨[], .reported (.invalidArguments reason)⟩ := by
  obtain ⟨function, given, shape, entry, hmem, hunfit⟩ := h
  obtain ⟨reason, hreason⟩ := exists_decodeArguments_eq_error hmem hunfit
  refine ⟨reason, ?_⟩
  rw [normalize_of_written shape, Shape.expand, hreason]
  rfl

/-- The error of items in turn is that of the first that is not legal, from one step further out. -/
theorem eachFrom_eq_error {step : Nat → Step} {before after : List Value} {item : Value}
    {e : NodeError} (h : ∀ other ∈ before, Legal other) (hitem : normalize item = .error e)
    (index : Nat) :
    eachFrom step normalize index (before ++ item :: after) =
      .error (e.under (step (index + before.length))) := by
  induction before generalizing index with
  | nil =>
    rw [List.nil_append, eachFrom, hitem]
    rfl
  | cons head rest ih =>
    obtain ⟨⟨condition, hhead⟩, hrest⟩ := List.forall_mem_cons.1 h
    rw [List.cons_append, eachFrom, hhead, ih hrest, List.length_cons, Nat.add_right_comm,
      Nat.add_assoc]
    rfl

/-- An error is seen at the end of the way to it if nothing that is passed is wrong. -/
theorem normalize_of_leads {node part : Value} {steps : List Step} {fault : Failure NodeFault}
    (h : Leads Legal node steps part) (hpart : normalize part = .error ⟨[], fault⟩) :
    normalize node = .error ⟨steps, fault⟩ := by
  induction h with
  | here => exact hpart
  | not shape _ ih =>
    rw [normalize_of_written shape, Shape.expand, ih hpart]
    rfl
  | all shape earlier _ ih | any shape earlier _ ih =>
    rw [normalize_of_written shape, Shape.expand, eachFrom_eq_error earlier (ih hpart) 0,
      Nat.zero_add]
    rfl

/-- The items are legal if all of them are turned into conditions in turn. -/
theorem legal_of_eachFrom {step : Nat → Step} {items : List Value} {conditions : List Condition}
    (h : eachFrom step normalize 0 items = .ok conditions) : ∀ item ∈ items, Legal item := by
  intro item hmem
  have hpairs := (eachFrom_eq_ok_iff fun _ _ _ => Iff.rfl).1 h
  obtain ⟨condition, -, hcondition⟩ := exists_mem_of_forall₂ hpairs hmem
  exact ⟨condition, hcondition⟩

/-- The parts of what is legal are legal. -/
theorem legal_of_leads {passed : Value → Prop} {node part : Value} {steps : List Step}
    (h : Leads passed node steps part) (hlegal : Legal node) : Legal part := by
  induction h with
  | here => exact hlegal
  | not shape _ ih =>
    obtain ⟨condition, hcondition⟩ := hlegal
    rw [normalize_of_written shape] at hcondition
    obtain ⟨inner, hinner, -⟩ := map_eq_ok_iff.1 hcondition
    exact ih ⟨inner, mapError_eq_ok_iff.1 hinner⟩
  | all shape _ _ ih | any shape _ _ ih =>
    obtain ⟨condition, hcondition⟩ := hlegal
    rw [normalize_of_written shape] at hcondition
    obtain ⟨conditions, hconditions, -⟩ := map_eq_ok_iff.1 hcondition
    exact ih (legal_of_eachFrom hconditions _ (List.mem_append_right _ List.mem_cons_self))

/-! ### Where it is reported -/

theorem Leads.exists_written {passed : Value → Prop} {node part : Value} {steps : List Step}
    (h : Leads passed node steps part) (hpart : ∃ shape, Shape.Written part shape) :
    ∃ shape, Shape.Written node shape := by
  cases h with
  | here => exact hpart
  | not shape | all shape | any shape => exact ⟨_, shape⟩

theorem normalizeBlock_sequence {items : List Value} (h : items ≠ []) :
    normalizeBlock .conditions (some (.sequence items)) =
      (eachFrom .item normalize 0 items).map fun conditions => some (.all conditions) := by
  cases items with
  | nil => exact absurd rfl h
  | cons item rest => rw [normalizeBlock, if_pos rfl]

section Blocks

variable {block : Block} {value part : Value} {steps : List Step}

theorem normalizeBlock_of_leadsIn {fault : Failure NodeFault}
    (h : LeadsIn Legal block value steps part) (hshape : ∃ shape, Shape.Written part shape)
    (hpart : normalize part = .error ⟨[], fault⟩) :
    normalizeBlock block (some value) = .error ⟨steps, fault⟩ := by
  cases h with
  | node rest =>
    obtain ⟨shape, hwritten⟩ := rest.exists_written hshape
    rw [normalizeBlock_of_written hwritten, normalize_of_leads rest hpart]
    rfl
  | item conditional earlier rest =>
    subst conditional
    rw [normalizeBlock_sequence (by simp),
      eachFrom_eq_error earlier (normalize_of_leads rest hpart) 0, Nat.zero_add]
    rfl

theorem legal_of_leadsIn {passed : Value → Prop} (h : LeadsIn passed block value steps part)
    (hshape : ∃ shape, Shape.Written part shape) {found : Option Condition}
    (hfound : normalizeBlock block (some value) = .ok found) : Legal part := by
  cases h with
  | node rest =>
    obtain ⟨shape, hwritten⟩ := rest.exists_written hshape
    rw [normalizeBlock_of_written hwritten] at hfound
    obtain ⟨condition, hcondition, -⟩ := map_eq_ok_iff.1 hfound
    exact legal_of_leads rest ⟨condition, hcondition⟩
  | item conditional earlier rest =>
    subst conditional
    rw [normalizeBlock_sequence (by simp)] at hfound
    obtain ⟨conditions, hconditions, -⟩ := map_eq_ok_iff.1 hfound
    exact legal_of_leads rest
      (legal_of_eachFrom hconditions _ (List.mem_append_right _ List.mem_cons_self))

end Blocks

/-- What is given for a block. -/
def RuleSpec.given (spec : RuleSpec) : Block → Option Value
  | .conditions => spec.conditions
  | .exceptions => spec.exceptions

theorem Misgiven.exists_written {node : Value} (h : Misgiven node) :
    ∃ shape, Shape.Written node shape := by
  obtain ⟨function, given, shape, -⟩ := h
  exact ⟨_, shape⟩

section Compile

variable {spec : RuleSpec} {block : Block} {value leaf : Value} {steps : List Step}
  (hgiven : spec.given block = some value) (hleaf : Misgiven leaf)
include hgiven hleaf

/-- **What is no argument is reported with the way to it**, if nothing before it is wrong. -/
theorem compile_of_misgiven {costs : List (String × Binary64)} {before after : List RuleSource}
    (hcosts : ∀ pair ∈ costs, ¬ pair.2.Refused) (hbefore : ∀ source ∈ before, source.Legal)
    (hconditions : block = .exceptions →
      ∃ found, normalizeBlock .conditions spec.conditions = .ok found)
    (hleads : LeadsIn Legal block value steps leaf) :
    ∃ reason, compile costs (before ++ .authored spec :: after) =
      .error (.reported (.invalidArguments spec.name block steps reason)) := by
  obtain ⟨reason, hreason⟩ := hleaf.exists_normalize_eq_error
  have herror := normalizeBlock_of_leadsIn hleads hleaf.exists_written hreason
  rw [← hgiven] at herror
  have hfaulty : (RuleSource.authored spec).Faulty
      (.reported (.invalidArguments spec.name block steps reason)) := by
    cases block with
    | conditions => exact .conditions herror
    | exceptions =>
      obtain ⟨found, hfound⟩ := hconditions rfl
      exact .exceptions hfound herror
  have hlegal : ∀ source ∈ before, ¬ ∃ e, source.Faulty e := fun source hmem =>
    RuleSource.legal_iff.1 (hbefore source hmem)
  exact ⟨reason, compile_of_failsWith
    (.block hcosts ⟨before, after, rfl, ⟨_, hfaulty⟩, hlegal⟩ hfaulty)⟩

/-- What is no argument is not accepted, whatever else is wrong. -/
theorem exists_compile_eq_error {costs : List (String × Binary64)} {sources : List RuleSource}
    (hmem : .authored spec ∈ sources) {passed : Value → Prop}
    (hleads : LeadsIn passed block value steps leaf) : ∃ e, compile costs sources = .error e := by
  cases hcompile : compile costs sources with
  | error e => exact ⟨e, rfl⟩
  | ok set =>
    obtain ⟨rule, -, hrule⟩ := exists_mem_of_forall₂ (declares_of_compile hcompile) hmem
    have hblock : ∃ found, normalizeBlock block (some value) = .ok found := by
      obtain ⟨conditions, exceptions, hblocks, -⟩ := hrule.condition
      cases hblocks with
      | authored hconditions hexceptions =>
        rw [← hgiven]
        cases block with
        | conditions => exact ⟨_, hconditions⟩
        | exceptions => exact ⟨_, hexceptions⟩
    obtain ⟨found, hfound⟩ := hblock
    obtain ⟨condition, hcondition⟩ := legal_of_leadsIn hleads hleaf.exists_written hfound
    obtain ⟨reason, hreason⟩ := hleaf.exists_normalize_eq_error
    cases hcondition.symm.trans hreason

end Compile

/-- The message of an error in arguments names the way to them. -/
theorem message_invalidArguments (rule : String) (block : Block) (steps : List Step)
    (reason : Mismatch) :
    (CompileError.invalidArguments rule block steps reason).message =
      "invalid arguments at " ++ (renderPath block steps ++ ".args") ++ " in rule '" ++ rule ++
        "': " ++ reason.message := by
  have hmessage : (CompileError.invalidArguments rule block steps reason).message =
      "invalid arguments at " ++ renderPath block steps ++ ".args in rule '" ++ rule ++ "': " ++
        reason.message := rfl
  have hsplit : ".args in rule '" = ".args" ++ " in rule '" := by simp
  rw [hmessage, hsplit]
  simp only [String.append_assoc]

/-- **Conditions can be written, and what is written is read again.**  Every condition without
negated literals is written somehow.  Each value that writes a condition is turned into it, so a
rule that is authored with such values for its conditions and its exceptions, among any others,
is the rule that is built of the conditions.  A value with something in it that is no argument
where there should be one is never accepted; and if no cost, no rule and no node before the call
in question is wrong, the error names the way to the arguments of the call. -/
theorem authoring_round_trips :
    (∀ condition : Condition, (∀ literal ∈ condition.atoms, literal.negate = false) →
      ∃ node, Authored node condition) ∧
    (∀ node condition, Authored node condition → normalize node = .ok condition) ∧
    (∀ (spec : RuleSpec) conditions exceptions,
      Option.Rel Authored spec.conditions conditions →
      Option.Rel Authored spec.exceptions exceptions →
      ∀ costs before after, compile costs (before ++ .authored spec :: after) =
        compile costs (before ++
          .built ⟨spec.name, spec.description, conditions, exceptions, spec.actions⟩ :: after)) ∧
    (∀ (spec : RuleSpec) block value steps leaf, spec.given block = some value → Misgiven leaf →
      (LeadsIn (fun _ => True) block value steps leaf →
        ∀ costs sources, .authored spec ∈ sources → ∃ e, compile costs sources = .error e) ∧
      (LeadsIn Legal block value steps leaf →
        (block = .exceptions → ∃ found, normalizeBlock .conditions spec.conditions = .ok found) →
        ∀ costs before after, (∀ pair ∈ costs, ¬ pair.2.Refused) →
          (∀ source ∈ before, RuleSource.Legal source) →
          ∃ reason, compile costs (before ++ .authored spec :: after) =
              .error (.reported (.invalidArguments spec.name block steps reason)) ∧
            (CompileError.invalidArguments spec.name block steps reason).message =
              "invalid arguments at " ++ (renderPath block steps ++ ".args") ++ " in rule '" ++
                spec.name ++ "': " ++ reason.message)) := by
  refine ⟨fun condition h => ⟨_, authored_toYaml h⟩, fun node condition => normalize_of_authored,
    fun spec conditions exceptions hconditions hexceptions costs before after =>
      compile_authored hconditions hexceptions costs before after, ?_⟩
  intro spec block value steps leaf hgiven hleaf
  constructor
  · intro hleads costs sources hmem
    exact exists_compile_eq_error hgiven hleaf hmem hleads
  · intro hleads hconditions costs before after hcosts hbefore
    obtain ⟨reason, hreason⟩ :=
      compile_of_misgiven hgiven hleaf hcosts hbefore hconditions hleads
    exact ⟨reason, hreason, message_invalidArguments spec.name block steps reason⟩

/-- The opposite of a group with one call, whose arguments are written in another order and with a
null among them, as conditions and as exceptions of a rule; and the same exceptions with a null in
the list that the call is given. -/
theorem authoring_of_negated_group :
    let args : Arguments := ((∅ : Arguments).insert "l" (.list [.bool true, .list [.text "x"]]))
      |>.insert "n" (.int 5)
    let condition : Condition := .not (.any [.atom ⟨⟨"f", args⟩, false⟩])
    let node (given : List (Value × Value)) : Value := .mapping [(.text "not", .mapping
      [(.text "any", .sequence
        [.mapping [(.text "args", .mapping given), (.text "function", .text "f")]])])]
    let given : List (Value × Value) := [(.text "n", (Argument.int 5).toYaml), (.text "z", .null),
      (.text "l", .sequence [.bool true, .sequence [.text "x"]])]
    let holed : List (Value × Value) := [(.text "l", .sequence [.bool true, .null])]
    (∃ node, Authored node condition) ∧ normalize (node given) = .ok condition ∧
      compile [] [.authored ⟨"r", "", some (node given), some (node given), []⟩] =
        .ok ⟨[⟨"r", "", .all [condition, .not condition], []⟩], ∅, by decide⟩ ∧
      (∃ e, compile [] [.authored ⟨"r", "", some (node given), some (node holed), []⟩] =
        .error e) ∧
      ∃ reason, compile [] [.authored ⟨"r", "", some (node given), some (node holed), []⟩] =
          .error (.reported (.invalidArguments "r" .exceptions [.not, .any 0] reason)) ∧
        (CompileError.invalidArguments "r" .exceptions [.not, .any 0] reason).message =
          "invalid arguments at exceptions.not.any[0].args in rule 'r': " ++ reason.message := by
  intro args condition node given holed
  have hcall (given : List (Value × Value)) : Shape.Written
      (.mapping [(.text "args", .mapping given), (.text "function", .text "f")])
      (.call "f" (some (.mapping given))) :=
    .functionArgs ⟨_, rfl, .swap _ _ _⟩ rfl
  have hwrites : WritesArguments given args := by
    refine ⟨["z"], ?_, ?_⟩
    · intro name hname
      obtain rfl := List.mem_singleton.1 hname
      decide
    · exact @List.perm_append_comm _ [_, _] [_]
  have hauthored : Authored (node given) condition :=
    .not (.not ⟨_, rfl, .refl _⟩)
      (.any (.any ⟨_, rfl, .refl _⟩ rfl) (.cons (.callWith (hcall given) hwrites) .nil))
  have hleads (passed : Value → Prop) : LeadsIn passed .exceptions (node holed) [.not, .any 0]
      (.mapping [(.text "args", .mapping holed), (.text "function", .text "f")]) :=
    .node (.not (.not ⟨_, rfl, .refl _⟩)
      (@Leads.any _ _ _ _ [] _ _ (.any ⟨_, rfl, .refl _⟩ rfl) (by simp) (.here _)))
  have hmisgiven : Misgiven
      (.mapping [(.text "args", .mapping holed), (.text "function", .text "f")]) :=
    ⟨_, _, hcall holed, _, List.mem_cons_self, .null (by simp)⟩
  obtain ⟨hexists, hnormalize, hcompile, hreject⟩ := authoring_round_trips
  have hbuilt := hcompile ⟨"r", "", some (node given), some (node given), []⟩ (some condition)
    (some condition) (.some hauthored) (.some hauthored) [] [] []
  obtain ⟨hnever, hfirst⟩ := hreject ⟨"r", "", some (node given), some (node holed), []⟩ .exceptions
    (node holed) [.not, .any 0] _ rfl hmisgiven
  obtain ⟨reason, hreason, hmessage⟩ := hfirst (hleads _)
    (fun _ => ⟨some condition, normalizeBlock_of_authored (.some hauthored)⟩) [] [] []
    (by simp) (by simp)
  refine ⟨hexists condition (by simp [condition, Formula.atoms]), hnormalize _ _ hauthored,
    hbuilt.trans rfl, hnever (hleads _) [] _ List.mem_cons_self, reason, hreason, ?_⟩
  have hpath : renderPath .exceptions [.not, .any 0] = "exceptions.not.any[0]" := by decide
  rw [hmessage, hpath]
  simp

end Authoring

end TokenRules
