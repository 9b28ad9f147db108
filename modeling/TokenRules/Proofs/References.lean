import TokenRules.Authoring.EngineConfig
import TokenRules.Builtin
import TokenRules.Proofs.Positions
import TokenRules.Proofs.Reporting

/-!
# References to functions

A rule is `Complete` in a registry that has every function the rule refers to.  The
error of a pass is the error of one of its parts (`Pass.failsOnly_bind`), so a pass
over complete rules never ends in an error about a function that is not registered:
the errors of a test that is looked up are all `Known`, and evaluation calls nothing
but the atoms of the condition, whatever the costs make of their order.

`RuleSet.verify` accepts the rule sets of which all rules are complete, and otherwise
reports what comes first: of the rules the first that is not complete, and in it the
first predicate that is not registered, or the first action if it has all predicates
(`Rule.Reports`).  Main statement: `verify_sound_and_exact`.
-/

namespace TokenRules

/-! ### Errors of a pass -/

/-- The error is not about a function that is not registered. -/
def EvalError.Known : EvalError → Prop
  | .unknownPredicate _ | .unknownAction _ => False
  | .invalidArguments _ _ | .actionFailed _ _ => True

namespace Pass

variable {ε α β : Type} {allowed : ε → Prop}

/-- Every error that the pass ends in is one of those allowed. -/
def FailsOnly (allowed : ε → Prop) (pass : Pass ε α) : Prop :=
  ∀ c e, (pass c).result = .error e → allowed e

theorem failsOnly_pure (a : α) : (pure a : Pass ε α).FailsOnly allowed := fun _ _ h => nomatch h

theorem failsOnly_fail {e : ε} (h : allowed e) : (fail e : Pass ε α).FailsOnly allowed := by
  rintro c _ ⟨⟩
  exact h

theorem failsOnly_bind {pass : Pass ε α} {f : α → Pass ε β} (hpass : pass.FailsOnly allowed)
    (hf : ∀ a, (f a).FailsOnly allowed) : (pass >>= f).FailsOnly allowed := by
  intro c e h
  cases hresult : (pass c).result with
  | ok a =>
    rw [bind_of_ok hresult] at h
    exact hf a _ e h
  | error e' =>
    rw [bind_of_error hresult] at h
    cases h
    exact hpass c e hresult

theorem simulation_failsOnly :
    Simulation (Pass ε) (Pass ε) fun pass _ => pass.FailsOnly allowed where
  pure := failsOnly_pure
  bind := failsOnly_bind

/-- A note is taken without fail. -/
theorem failsOnly_note (event : Context → Event) :
    (note event : Pass ε Unit).FailsOnly allowed := fun _ _ h => nomatch h

end Pass

/-- A program never fails; if anything, it ends in an error that is its result. -/
theorem Program.failsOnly_run {access : Access} {ε α : Type} {allowed : ε → Prop}
    (program : Program access α) : (program.run : Pass ε α).FailsOnly allowed := by
  intro c e h
  have hresult := congrArg Effect.result (program.effect_run (ε := ε) c)
  cases h.symm.trans hresult

/-! ### Errors of rules -/

/-- The registry has every function that the rule refers to. -/
structure Rule.Complete (rule : Rule) (registry : Registry) : Prop where
  predicates : ∀ literal ∈ rule.condition.atoms,
    ∃ predicate, registry.predicate? literal.call.function = some predicate
  actions : ∀ call ∈ rule.actions, ∃ action, registry.action? call.function = some action

namespace Evaluator

variable {evaluator : Evaluator}

theorem known_test {literal : Literal} {predicate : Predicate}
    (h : evaluator.registry.predicate? literal.call.function = some predicate) :
    (evaluator.testSilently literal).FailsOnly EvalError.Known := by
  rw [evaluator.testSilently_eq literal h]
  refine Pass.failsOnly_bind (Pass.failsOnly_bind (Pass.failsOnly_note _) fun _ =>
    Program.failsOnly_run _) fun answer => ?_
  cases answer with
  | ok holds => exact Pass.failsOnly_pure _
  | error e => exact Pass.failsOnly_fail trivial

theorem known_evaluate {condition : Condition}
    (h : ∀ literal ∈ condition.atoms,
      ∃ predicate, evaluator.registry.predicate? literal.call.function = some predicate) :
    (evaluator.evaluate condition).FailsOnly EvalError.Known := by
  refine Pass.simulation_failsOnly.evaluate evaluator.testSilently evaluator.testSilently ?_
  intro literal hmem
  obtain ⟨predicate, hpredicate⟩ := h literal hmem
  exact known_test hpredicate

theorem known_dispatch {call : Call} {action : Action}
    (h : evaluator.registry.action? call.function = some action) :
    (evaluator.dispatch call).FailsOnly EvalError.Known := by
  rw [evaluator.dispatch_eq h]
  refine Pass.failsOnly_bind (Pass.failsOnly_bind (Pass.failsOnly_note _) fun _ =>
    Program.failsOnly_run _) fun result => ?_
  cases result with
  | ok => exact Pass.failsOnly_pure ()
  | error failure =>
    rw [settle]
    split
    · exact Pass.failsOnly_fail trivial
    · exact Pass.failsOnly_pure ()

theorem known_apply {rule : Rule} (h : rule.Complete evaluator.registry) :
    (evaluator.apply rule).FailsOnly EvalError.Known := by
  refine Pass.simulation_failsOnly.apply evaluator evaluator (known_evaluate h.predicates)
    fun call hcall => ?_
  obtain ⟨action, haction⟩ := h.actions call hcall
  exact known_dispatch haction

theorem known_applyAll {rules : List Rule} (h : ∀ rule ∈ rules, rule.Complete evaluator.registry) :
    (evaluator.applyAll rules).FailsOnly EvalError.Known := by
  refine Pass.simulation_failsOnly.applyAll evaluator evaluator
    (fun rule hmem => known_evaluate (h rule hmem).predicates) fun rule hmem call hcall => ?_
  obtain ⟨action, haction⟩ := (h rule hmem).actions call hcall
  exact known_dispatch haction

end Evaluator

theorem RuleSet.known_applyReporting {set : RuleSet} {registry : Registry}
    (h : ∀ rule ∈ set.rules, rule.Complete registry) :
    (set.applyReporting registry).FailsOnly EvalError.Known := by
  intro c e he
  have hfired : (set.apply registry c).result = .error e := by
    rw [← set.fired_applyReporting, Pass.result_map, he]
    rfl
  exact Evaluator.known_applyAll h c e hfired

theorem Engine.known_run {engine : Engine}
    (h : ∀ rule ∈ engine.rules.rules, rule.Complete engine.registry) {sentence : String}
    {e : EvalError} (he : (engine.run sentence).result = .error e) : e.Known := by
  rw [run_result, map_eq_error_iff, mapM_eq_error_iff] at he
  obtain ⟨-, index, -, he, -⟩ := he
  exact Evaluator.known_applyAll h _ e (map_eq_error_iff.1 he)

/-! ### Reports -/

theorem Registry.hasPredicate_iff {registry : Registry} {name : String} :
    registry.hasPredicate name = true ↔ ∃ predicate, registry.predicate? name = some predicate :=
  Option.isSome_iff_exists

theorem Registry.hasAction_iff {registry : Registry} {name : String} :
    registry.hasAction name = true ↔ ∃ action, registry.action? name = some action :=
  Option.isSome_iff_exists

/-- `name` is the first of some names that is not registered. -/
def FirstMissing (registered : String → Prop) (names : List String) (name : String) : Prop :=
  ∃ before after, names = before ++ name :: after ∧ ¬ registered name ∧
    ∀ earlier ∈ before, registered earlier

theorem find?_eq_some_iff_firstMissing {registered : String → Prop} {has : String → Bool}
    (h : ∀ name, has name = true ↔ registered name) {names : List String} {name : String} :
    names.find? (!has ·) = some name ↔ FirstMissing registered names name := by
  simp only [List.find?_eq_some_iff_append, FirstMissing, ← h, Bool.not_not, Bool.not_eq_true,
    Bool.not_eq_true']
  constructor
  · rintro ⟨hname, before, after, heq, hbefore⟩
    exact ⟨before, after, heq, hname, hbefore⟩
  · rintro ⟨before, after, heq, hname, hbefore⟩
    exact ⟨hname, before, after, heq, hbefore⟩

/-- What is reported of a rule that is not complete: the first of its predicates that is not
registered, from left to right, or else the first of its actions. -/
inductive Rule.Reports (rule : Rule) (registry : Registry) : ReferenceError → Prop
  | predicate {function : String}
      (h : FirstMissing (fun name => ∃ predicate, registry.predicate? name = some predicate)
        (rule.condition.atoms.map (·.call.function)) function) :
      Reports rule registry (.unknownPredicate rule.name function)
  | action {function : String}
      (hpredicates : ∀ literal ∈ rule.condition.atoms,
        ∃ predicate, registry.predicate? literal.call.function = some predicate)
      (h : FirstMissing (fun name => ∃ action, registry.action? name = some action)
        (rule.actions.map (·.function)) function) :
      Reports rule registry (.unknownAction rule.name function)

section Reports

variable {rule : Rule} {registry : Registry}

theorem find?_functions_eq_none_iff :
    (Condition.functions rule.condition).find? (!registry.hasPredicate ·) = none ↔
      ∀ literal ∈ rule.condition.atoms,
        ∃ predicate, registry.predicate? literal.call.function = some predicate := by
  simp [Condition.functions, Registry.hasPredicate_iff]

theorem missing?_of_find? {function : String}
    (h : (Condition.functions rule.condition).find? (!registry.hasPredicate ·) = some function) :
    rule.missing? registry = some (.unknownPredicate rule.name function) := by
  rw [Rule.missing?, h]

theorem missing?_of_predicates (h : ∀ literal ∈ rule.condition.atoms,
      ∃ predicate, registry.predicate? literal.call.function = some predicate) :
    rule.missing? registry =
      ((rule.actions.map (·.function)).find? (!registry.hasAction ·)).map
        (.unknownAction rule.name) := by
  rw [Rule.missing?, find?_functions_eq_none_iff.2 h, List.find?_map, Option.map_map]
  rfl

theorem missing?_eq_none_iff : rule.missing? registry = none ↔ rule.Complete registry := by
  have hactions : (rule.actions.map (·.function)).find? (!registry.hasAction ·) = none ↔
      ∀ call ∈ rule.actions, ∃ action, registry.action? call.function = some action := by
    simp [Registry.hasAction_iff]
  constructor
  · intro h
    cases hfind : (Condition.functions rule.condition).find? (!registry.hasPredicate ·) with
    | some function =>
      rw [missing?_of_find? hfind] at h
      cases h
    | none =>
      have hpredicates := find?_functions_eq_none_iff.1 hfind
      rw [missing?_of_predicates hpredicates, Option.map_eq_none_iff] at h
      exact ⟨hpredicates, hactions.1 h⟩
  · rintro ⟨hpredicates, hcalls⟩
    rw [missing?_of_predicates hpredicates, hactions.2 hcalls]
    rfl

theorem missing?_eq_some_iff {e : ReferenceError} :
    rule.missing? registry = some e ↔ rule.Reports registry e := by
  have hpredicate {function : String} :
      (Condition.functions rule.condition).find? (!registry.hasPredicate ·) = some function ↔
        FirstMissing (fun name => ∃ predicate, registry.predicate? name = some predicate)
          (rule.condition.atoms.map (·.call.function)) function :=
    find?_eq_some_iff_firstMissing fun _ => Registry.hasPredicate_iff
  constructor
  · intro h
    cases hfind : (Condition.functions rule.condition).find? (!registry.hasPredicate ·) with
    | some function =>
      rw [missing?_of_find? hfind] at h
      cases h
      exact .predicate (hpredicate.1 hfind)
    | none =>
      have hpredicates := find?_functions_eq_none_iff.1 hfind
      rw [missing?_of_predicates hpredicates, Option.map_eq_some_iff] at h
      obtain ⟨function, hfunction, rfl⟩ := h
      exact .action hpredicates
        ((find?_eq_some_iff_firstMissing fun _ => Registry.hasAction_iff).1 hfunction)
  · intro h
    cases h with
    | predicate h => exact missing?_of_find? (hpredicate.2 h)
    | action hpredicates h =>
      rw [missing?_of_predicates hpredicates,
        (find?_eq_some_iff_firstMissing fun _ => Registry.hasAction_iff).2 h]
      rfl

end Reports

/-! ### Verification -/

namespace RuleSet

variable {set : RuleSet} {registry : Registry}

theorem verify_eq_ok_iff :
    set.verify registry = .ok () ↔ ∀ rule ∈ set.rules, rule.Complete registry := by
  rw [verify]
  cases h : set.rules.findSome? (·.missing? registry) with
  | none =>
    rw [List.findSome?_eq_none_iff] at h
    exact ⟨fun _ rule hmem => missing?_eq_none_iff.1 (h rule hmem), fun _ => rfl⟩
  | some e =>
    obtain ⟨rule, hmem, he⟩ := List.exists_of_findSome?_eq_some h
    refine ⟨fun h => (nomatch h), fun hcomplete => ?_⟩
    rw [missing?_eq_none_iff.2 (hcomplete rule hmem)] at he
    cases he

theorem verify_eq_error_iff {e : ReferenceError} :
    set.verify registry = .error e ↔ ∃ before rule after, set.rules = before ++ rule :: after ∧
      (∀ earlier ∈ before, earlier.Complete registry) ∧ rule.Reports registry e := by
  have hfind : set.verify registry = .error e ↔
      set.rules.findSome? (·.missing? registry) = some e := by
    rw [verify]
    cases set.rules.findSome? (·.missing? registry) <;> simp
  rw [hfind, List.findSome?_eq_some_iff]
  simp only [missing?_eq_some_iff, missing?_eq_none_iff]
  constructor
  · rintro ⟨before, rule, after, heq, hreports, hbefore⟩
    exact ⟨before, rule, after, heq, hbefore, hreports⟩
  · rintro ⟨before, rule, after, heq, hbefore, hreports⟩
    exact ⟨before, rule, after, heq, hreports, hbefore⟩

/-- Whatever is done with the rules of a set, under any costs and with any lists and any analyzer,
does not end in an error about a function that is not registered. -/
structure Resolved (set : RuleSet) (registry : Registry) : Prop where
  evaluate : ∀ costs : CostTable, ∀ rule ∈ set.rules,
    (Evaluator.evaluate ⟨costs, registry⟩ rule.condition).FailsOnly EvalError.Known
  applyRule : ∀ costs : CostTable, ∀ rule ∈ set.rules,
    (Evaluator.apply ⟨costs, registry⟩ rule).FailsOnly EvalError.Known
  apply : ∀ costs : CostTable, ((set.withCosts costs).apply registry).FailsOnly EvalError.Known
  applyReporting : ∀ costs : CostTable,
    ((set.withCosts costs).applyReporting registry).FailsOnly EvalError.Known
  run : ∀ (costs : CostTable) (lists : WordLists) (analyzer : Analyzer) (sentence : String)
    (e : EvalError),
    (Engine.run ⟨set.withCosts costs, registry, lists, analyzer⟩ sentence).result = .error e →
      e.Known

theorem resolved_of_complete (h : ∀ rule ∈ set.rules, rule.Complete registry) :
    set.Resolved registry where
  evaluate _ rule hmem := Evaluator.known_evaluate (h rule hmem).predicates
  applyRule _ rule hmem := Evaluator.known_apply (h rule hmem)
  apply _ := Evaluator.known_applyAll h
  applyReporting _ := known_applyReporting h
  run _ _ _ _ _ := Engine.known_run h

end RuleSet

theorem Authoring.EngineConfig.verify_of_load {config : EngineConfig} {tree : FileTree}
    {registry : Registry} {engine : Engine} (h : config.load tree registry = .ok engine) :
    engine.registry = registry ∧ engine.rules.verify registry = .ok () := by
  unfold load at h
  split at h
  · cases h
  · split at h
    · cases h
    · cases h
      exact ⟨rfl, ‹_›⟩

/-- **Verification is sound and exact.**  The rules of a set that is verified never meet a function
that is not registered, whatever costs they are given, and neither does an engine that was loaded.
Verified are exactly the sets of which every rule finds all predicates of its condition and all of
its actions; of the others the first thing missing in the first rule that lacks one is reported. -/
theorem RuleSet.verify_sound_and_exact (set : RuleSet) (registry : Registry) :
    (set.verify registry = .ok () → set.Resolved registry) ∧
    (∀ (config : Authoring.EngineConfig) (tree : FileTree) (engine : Engine),
      config.load tree registry = .ok engine →
        engine.rules.Resolved registry ∧
        ∀ sentence e, (engine.run sentence).result = .error e → e.Known) ∧
    (set.verify registry = .ok () ↔ ∀ rule ∈ set.rules, rule.Complete registry) ∧
    ∀ e, set.verify registry = .error e ↔
      ∃ before rule after, set.rules = before ++ rule :: after ∧
        (∀ earlier ∈ before, earlier.Complete registry) ∧ rule.Reports registry e := by
  refine ⟨fun h => resolved_of_complete (verify_eq_ok_iff.1 h), fun config tree engine h => ?_,
    verify_eq_ok_iff, fun e => verify_eq_error_iff⟩
  obtain ⟨rfl, hverify⟩ := Authoring.EngineConfig.verify_of_load h
  have hcomplete := verify_eq_ok_iff.1 hverify
  exact ⟨resolved_of_complete hcomplete, fun sentence e => Engine.known_run hcomplete⟩

/-- A file of one rule is loaded with the built-in functions; with no functions at all the test of
words would be the first to be missing. -/
theorem RuleSet.resolved_of_file :
    let text :=
      "rules: [{name: r, conditions: {not: {words: [a]}}, actions: [{function: add_after}]}]"
    let tree : FileTree := ⟨[(["r"], .file text.toUTF8)]⟩
    ∃ engine, Authoring.EngineConfig.load ⟨"r", "lists"⟩ tree Builtin.registry = .ok engine ∧
      (∀ sentence e, (engine.run sentence).result = .error e → e.Known) ∧
      engine.rules.verify Builtin.registry = .ok () ∧ engine.rules.Resolved Builtin.registry ∧
      engine.rules.verify ∅ = .error (.unknownPredicate "r" "in_list") := by
  intro text tree
  have hfile : Authoring.ruleSetOfFile tree (pathNames "r") = Authoring.ruleSetOfText text := by
    have hpath : pathNames "r" = ["r"] := by
      rw [pathNames, String.splitOn, if_neg (by decide), String.splitOnAux, String.splitOnAux]
      decide
    have htext : tree.text? ["r"] = some text := by
      simpa [tree, FileTree.text?, FileTree.entry?, Entry.text?, String.fromUTF8?] using
        ⟨text.isValidUTF8, rfl⟩
    rw [hpath, Authoring.ruleSetOfFile, htext]
  have hset : (Authoring.ruleSetOfText text).toOption.any (fun set =>
      set.verify Builtin.registry = .ok () ∧
        set.verify ∅ = .error (.unknownPredicate "r" "in_list")) = true := by decide +kernel
  cases hrules : Authoring.ruleSetOfText text with
  | error e =>
    rw [hrules] at hset
    cases hset
  | ok rules =>
    rw [hrules] at hset
    obtain ⟨hverify, hmissing⟩ : rules.verify Builtin.registry = .ok () ∧
      rules.verify ∅ = .error (.unknownPredicate "r" "in_list") := of_decide_eq_true hset
    obtain ⟨hsound, hloaded, -⟩ := verify_sound_and_exact rules Builtin.registry
    have hload : Authoring.EngineConfig.load ⟨"r", "lists"⟩ tree Builtin.registry =
        .ok ⟨rules, Builtin.registry, .ofDirectory tree (pathNames "lists"), .none⟩ := by
      rw [Authoring.EngineConfig.load, hfile, hrules]
      simp only [hverify]
    exact ⟨_, hload, (hloaded _ tree _ hload).2, hverify, hsound hverify, hmissing⟩

end TokenRules
