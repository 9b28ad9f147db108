import Mathlib.Data.List.Perm.Basic
import TokenRules.Proofs.Membership
import TokenRules.Proofs.Positions

/-!
# Insertions in order

Rules that do nothing but insert: all of their actions are `add_after` with a letter,
and the predicates of their conditions answer in every context, whatever has been
recorded in it (`Rule.Inserts`).  What such rules record at a position can be read off
their conditions in the context that the position starts from (`insertionsOf`).

A pass `Records` some edits if these are all that it adds to what can be seen.  Of two
passes the edits of the first come before those of the second (`Records.bind`), so the
edits of a call, of a rule and of the rules at a position are put together in turn.  A
run has those of its positions one after the other.  Main statement: `run_insertions`.
-/

namespace TokenRules

/-! ### Passes that record edits -/

namespace Sight

/-- The sight once more edits are recorded. -/
def recorded (sight : Sight) (edits : List Edit) : Sight :=
  { sight with edits := sight.edits ++ edits }

theorem recorded_nil (sight : Sight) : sight.recorded [] = sight :=
  Sight.ext rfl rfl rfl rfl (List.append_nil _) rfl

theorem recorded_recorded (sight : Sight) (edits more : List Edit) :
    (sight.recorded edits).recorded more = sight.recorded (edits ++ more) :=
  Sight.ext rfl rfl rfl rfl (List.append_assoc ..) rfl

theorem drained_recorded (sight : Sight) (edits : List Edit) :
    (sight.recorded edits).drained = sight.drained := rfl

end Sight

namespace Pass

variable {ε α β : Type} {start : Context} {a : α} {b : β} {edits more : List Edit}

/-- From every context that looks like `start` but for the edits in it, the pass ends in `a`, and
what it does to the sight is to put `edits` at the end. -/
def Records (start : Context) (pass : Pass ε α) (a : α) (edits : List Edit) : Prop :=
  ∀ c : Context, c.sight.drained = start.sight.drained →
    (pass c).result = .ok a ∧ (pass c).context.sight = c.sight.recorded edits

theorem records_pure (a : α) : (pure a : Pass ε α).Records start a [] :=
  fun _ _ => ⟨rfl, (Sight.recorded_nil _).symm⟩

theorem records_note (event : Context → Event) : (note event : Pass ε Unit).Records start () [] :=
  fun _ _ => ⟨rfl, (Sight.recorded_nil _).symm⟩

/-- What is recorded by one pass comes before what is recorded by the next. -/
theorem Records.bind {pass : Pass ε α} {f : α → Pass ε β} (hpass : pass.Records start a edits)
    (hf : (f a).Records start b more) : (pass >>= f).Records start b (edits ++ more) := by
  intro c hc
  obtain ⟨hresult, hsight⟩ := hpass c hc
  obtain ⟨hresult', hsight'⟩ := hf (pass c).context (by rw [hsight, Sight.drained_recorded, hc])
  rw [bind_of_ok hresult]
  exact ⟨hresult', by rw [hsight', hsight, Sight.recorded_recorded]⟩

theorem Records.bind_pure {pass : Pass ε α} (h : pass.Records start a edits) (f : α → β) :
    (pass >>= fun a => pure (f a)).Records start (f a) edits := by
  rw [← List.append_nil edits]
  exact h.bind (records_pure (f a))

end Pass

theorem Program.records_run {access : Access} {ε α : Type} {program : Program access α}
    {start : Context} {a : α} {edits : List Edit}
    (h : ∀ sight : Sight, sight.drained = start.sight.drained →
      program.meaning sight = (a, sight.recorded edits)) :
    (program.run : Pass ε α).Records start a edits := by
  intro c hc
  have heffect := program.effect_run (ε := ε) c
  rw [h c.sight hc] at heffect
  exact ⟨congrArg Effect.result heffect, congrArg Effect.sight heffect⟩

/-! ### Rules that insert -/

/-- The text that a call is given as its letter. -/
def Call.letter (call : Call) : String :=
  match call.args.get? "letter" with
  | some (.text letter) => letter
  | _ => ""

theorem Call.letter_eq {call : Call} {letter : String}
    (h : call.args.get? "letter" = some (.text letter)) : call.letter = letter := by
  rw [Call.letter, h]

/-- The call is one of `add_after` and has a letter. -/
structure Call.Inserts (call : Call) (registry : Registry) : Prop where
  action : registry.action? call.function = some Builtin.addAfter
  letter : ∃ letter, call.args.get? "letter" = some (.text letter)

/-- The rule does nothing but insert, under a condition that cannot fail and that does not depend
on what has been recorded. -/
structure Rule.Inserts (rule : Rule) (registry : Registry) : Prop where
  answered : ∀ literal ∈ rule.condition.atoms, ∀ context : Context,
    ∃ b, registry.answer context literal.call = .ok b
  blind : ∀ literal ∈ rule.condition.atoms, ∀ context : Context,
    registry.answer context literal.call = registry.answer context.drained literal.call
  actions : ∀ call ∈ rule.actions, call.Inserts registry

namespace Rule

/-- Whether the condition is true where every leaf has its truth value in the context and groups
are taken as a whole. -/
def holds (rule : Rule) (registry : Registry) (context : Context) : Bool :=
  (rule.condition.map (registry.truth context)).value

/-- The insertions that the actions stand for at a position, in their order. -/
def insertions (rule : Rule) (position : Nat) : List Edit :=
  rule.actions.map fun call => ⟨position, call.letter⟩

theorem Inserts.holds_eq {rule : Rule} {registry : Registry} (h : rule.Inserts registry)
    {c d : Context} (hsight : c.sight.drained = d.sight.drained) :
    rule.holds registry c = rule.holds registry d := by
  rw [holds, holds, Formula.map_congr fun literal hmem => ?_]
  have hanswer : registry.answer c literal.call = registry.answer d literal.call := by
    have hdrained : c.drained.sight = d.drained.sight := hsight
    rw [h.blind literal hmem, h.blind literal hmem d, registry.answer_congr hdrained]
  rw [Registry.truth, Registry.truth, Registry.affirms, Registry.affirms, hanswer]

end Rule

/-- The insertions of those rules that hold in a context, in their order. -/
def insertionsOf (rules : List Rule) (registry : Registry) (context : Context) : List Edit :=
  (rules.filter (·.holds registry context)).flatMap (·.insertions context.index)

/-! ### What is recorded at a position -/

/-- At a token an insertion is recorded. -/
theorem Builtin.meaning_addAfter {call : Call} {letter : String}
    (hletter : call.args.get? "letter" = some (.text letter)) (sight : Sight)
    (hindex : sight.index < sight.tokens.length) :
    (addAfter call.args).meaning sight = (.ok (), sight.recorded [⟨sight.index, letter⟩]) := by
  have htext : call.args.text "letter" = .ok letter := by
    simp [Arguments.text, Arguments.text?, hletter, Argument.asText?]
  have htoken : sight.view.token? = some sight.tokens[sight.index] :=
    List.getElem?_eq_getElem hindex
  simp only [addAfter, htext, Program.meaning, htoken]
  rfl

theorem Builtin.action?_add_after :
    Builtin.registry.action? "add_after" = some Builtin.addAfter := by
  simp [Builtin.registry]

namespace Evaluator

open Pass

variable {registry : Registry} (costs : CostTable) {start : Context}

theorem records_evaluate {rule : Rule} (h : rule.Inserts registry) :
    (evaluate ⟨costs, registry⟩ rule.condition).Records start (rule.holds registry start) [] := by
  intro c hc
  have hanswers := fun literal hmem => h.answered literal hmem c
  rw [Condition.evaluate_eq_value_truth hanswers, ← h.holds_eq hc, Sight.recorded_nil]
  exact ⟨rfl, (quiet_evaluate ⟨costs, registry⟩ rule.condition c).1⟩

variable (hindex : start.index < start.tokens.length)
include hindex

theorem records_dispatch {call : Call} (h : call.Inserts registry) :
    (dispatch ⟨costs, registry⟩ call).Records start () [⟨start.index, call.letter⟩] := by
  have hinvoke : (Builtin.addAfter.invoke call : Pass EvalError _).Records start (.ok ())
      [⟨start.index, call.letter⟩] := by
    obtain ⟨letter, hletter⟩ := h.letter
    refine (records_note _).bind (Program.records_run fun sight hsight => ?_)
    have hat : sight.index = start.index := congrArg Sight.index hsight
    have htokens : sight.tokens = start.tokens := congrArg Sight.tokens hsight
    rw [Builtin.meaning_addAfter hletter sight (by rwa [hat, htokens]), hat,
      Call.letter_eq hletter]
  rw [dispatch_eq ⟨costs, registry⟩ h.action]
  exact hinvoke.bind (records_pure ())

theorem records_dispatchAll {calls : List Call} (h : ∀ call ∈ calls, call.Inserts registry) :
    (dispatchAll ⟨costs, registry⟩ calls).Records start ()
      (calls.map fun call => ⟨start.index, call.letter⟩) := by
  induction calls with
  | nil => exact records_pure ()
  | cons call rest ih =>
    obtain ⟨hcall, hrest⟩ := List.forall_mem_cons.1 h
    exact (records_dispatch costs hindex hcall).bind (ih hrest)

theorem records_apply {rule : Rule} (h : rule.Inserts registry) :
    (apply ⟨costs, registry⟩ rule).Records start (rule.holds registry start)
      (if rule.holds registry start then rule.insertions start.index else []) := by
  refine (records_evaluate costs h).bind ?_
  cases rule.holds registry start with
  | false => exact records_pure false
  | true =>
    exact (records_dispatchAll costs hindex h.actions).bind_pure fun _ => true

theorem records_applyAll {rules : List Rule} (h : ∀ rule ∈ rules, rule.Inserts registry) :
    (applyAll ⟨costs, registry⟩ rules).Records start
      ((rules.filter (·.holds registry start)).map (·.name))
      (insertionsOf rules registry start) := by
  induction rules with
  | nil => exact records_pure []
  | cons rule rest ih =>
    obtain ⟨hrule, hrest⟩ := List.forall_mem_cons.1 h
    have happly := records_apply costs hindex hrule
    rw [insertionsOf, List.filter_cons]
    cases hholds : rule.holds registry start with
    | false =>
      rw [hholds] at happly
      exact happly.bind ((ih hrest).bind_pure fun fired => fired)
    | true =>
      rw [hholds] at happly
      exact happly.bind ((ih hrest).bind_pure fun fired => rule.name :: fired)

end Evaluator

namespace Engine

variable (engine : Engine) (tokens : List String)

/-- The insertions at all positions of some tokens, position by position. -/
def insertions : List Edit :=
  (List.range tokens.length).flatMap fun index =>
    insertionsOf engine.rules.rules engine.registry (engine.context tokens index)

variable {engine tokens}

theorem editsAt_of_inserts (h : ∀ rule ∈ engine.rules.rules, rule.Inserts engine.registry)
    {index : Nat} (hindex : index < tokens.length) :
    engine.editsAt tokens index =
      .ok (insertionsOf engine.rules.rules engine.registry (engine.context tokens index)) := by
  have hrecords : (engine.rules.apply engine.registry).Records (engine.context tokens index) _
      (insertionsOf engine.rules.rules engine.registry (engine.context tokens index)) :=
    Evaluator.records_applyAll engine.rules.costs hindex h
  obtain ⟨hresult, hsight⟩ := hrecords (engine.context tokens index) rfl
  have hat : (engine.applyAt tokens index none).result = .ok _ := hresult
  have hedits : (engine.applyAt tokens index none).context.edits = [] ++ _ :=
    congrArg Sight.edits hsight
  rw [editsAt, hat, hedits]
  rfl

theorem run_of_inserts (h : ∀ rule ∈ engine.rules.rules, rule.Inserts engine.registry)
    (sentence : String) :
    (engine.run sentence).result = .ok (engine.insertions (Text.words sentence)) := by
  rw [run_result, mapM_eq_ok_map fun index hmem => editsAt_of_inserts h (List.mem_range.1 hmem)]
  rfl

/-! ### Places of insertions -/

theorem position_of_mem_insertionsOf {rules : List Rule} {registry : Registry} {context : Context}
    {edit : Edit} (h : edit ∈ insertionsOf rules registry context) :
    edit.position = context.index := by
  obtain ⟨rule, -, hmem⟩ := List.mem_flatMap.1 h
  obtain ⟨call, -, rfl⟩ := List.mem_map.1 hmem
  rfl

theorem position_lt_of_mem_insertions {edit : Edit} (h : edit ∈ engine.insertions tokens) :
    edit.position < tokens.length := by
  obtain ⟨index, hindex, hmem⟩ := List.mem_flatMap.1 h
  rw [position_of_mem_insertionsOf hmem]
  exact List.mem_range.1 hindex

theorem pairwise_insertions (engine : Engine) (tokens : List String) :
    (engine.insertions tokens).Pairwise (·.position ≤ ·.position) := by
  refine List.pairwise_flatMap.2 ⟨fun index _ => ?_, List.pairwise_lt_range.imp ?_⟩
  · refine List.pairwise_of_forall_mem_list fun first hfirst second hsecond => ?_
    exact Nat.le_of_eq ((position_of_mem_insertionsOf hfirst).trans
      (position_of_mem_insertionsOf hsecond).symm)
  · intro index later hlater first hfirst second hsecond
    rw [position_of_mem_insertionsOf hfirst, position_of_mem_insertionsOf hsecond]
    exact Nat.le_of_lt hlater

/-- Rules in another order insert the same at every position, in another order. -/
theorem perm_insertionsOf {rules others : List Rule} (h : rules.Perm others) (registry : Registry)
    (context : Context) :
    (insertionsOf rules registry context).Perm (insertionsOf others registry context) :=
  (h.filter _).flatMap_right _

theorem perm_filter_insertions {set : RuleSet} (h : set.rules.Perm engine.rules.rules)
    (tokens : List String) (p : Edit → Bool) :
    ((Engine.insertions { engine with rules := set } tokens).filter p).Perm
      ((engine.insertions tokens).filter p) := by
  rw [insertions, insertions, List.filter_flatMap, List.filter_flatMap]
  exact List.Perm.flatMap_left _ fun index _ => (perm_insertionsOf h _ _).filter p

/-- **No insertion is lost, made twice or put elsewhere.**  Where the rules do nothing but insert,
every run ends well, and in the insertions of its positions in turn: at each position those of the
rules that hold there, rule by rule and action by action.  So their positions never decrease and
are positions of tokens, and the same rules in another order insert the same at every position. -/
theorem run_insertions (engine : Engine)
    (h : ∀ rule ∈ engine.rules.rules, rule.Inserts engine.registry) :
    (∀ sentence,
      let edits := engine.insertions (Text.words sentence)
      (engine.run sentence).result = .ok edits ∧ edits.Pairwise (·.position ≤ ·.position) ∧
        ∀ edit ∈ edits, edit.position < (Text.words sentence).length) ∧
    ∀ set : RuleSet, set.rules.Perm engine.rules.rules → ∀ sentence,
      let edits := engine.insertions (Text.words sentence)
      ∃ others, (Engine.run { engine with rules := set } sentence).result = .ok others ∧
        others.Pairwise (·.position ≤ ·.position) ∧
        ∀ position, (others.filter (·.position == position)).Perm
          (edits.filter (·.position == position)) := by
  refine ⟨fun sentence => ⟨run_of_inserts h sentence, engine.pairwise_insertions _,
    fun edit hmem => position_lt_of_mem_insertions hmem⟩, fun set hperm sentence => ?_⟩
  have hset : ∀ rule ∈ set.rules, rule.Inserts engine.registry := fun rule hmem =>
    h rule (hperm.subset hmem)
  exact ⟨_, run_of_inserts hset sentence,
    pairwise_insertions _ _, fun position => perm_filter_insertions hperm _ _⟩

/-- Two letters after one word and, by a rule with a negation, one letter after all others. -/
theorem run_two_rules :
    let insert (letter : String) : Call :=
      ⟨"add_after", (∅ : Arguments).insert "letter" (.text letter)⟩
    let first : Rule := ⟨"first", "", Condition.inWords ["a"], [insert "h", insert "v"]⟩
    let other : Rule := ⟨"other", "", .all [.not (Condition.inWords ["a"])], [insert "y"]⟩
    let engine : Engine := ⟨⟨[first, other], ∅, by decide⟩, Builtin.registry, ∅, Analyzer.none⟩
    (∀ rule ∈ engine.rules.rules, rule.Inserts engine.registry) ∧
      (engine.run "a b a").result =
        .ok [⟨0, "h"⟩, ⟨0, "v"⟩, ⟨1, "y"⟩, ⟨2, "h"⟩, ⟨2, "v"⟩] := by
  intro insert first other engine
  have hliteral : ∀ rule ∈ [first, other], ∀ literal ∈ rule.condition.atoms, ∀ context : Context,
      engine.registry.answer context literal.call = .ok (context.view.isOneOf ["a"]) := by
    intro rule hrule literal hmem context
    rcases List.mem_pair.1 hrule with rfl | rfl <;> rw [List.mem_singleton.1 hmem] <;>
      exact Registry.answer_inWords Builtin.predicate?_in_list context ["a"]
  have hcall : ∀ rule ∈ [first, other], ∀ call ∈ rule.actions, ∃ letter, call = insert letter := by
    intro rule hrule call hmem
    rcases List.mem_pair.1 hrule with rfl | rfl
    · rcases List.mem_pair.1 hmem with rfl | rfl <;> exact ⟨_, rfl⟩
    · exact ⟨"y", List.mem_singleton.1 hmem⟩
  have hrules : ∀ rule ∈ engine.rules.rules, rule.Inserts engine.registry := fun rule hrule =>
    { answered := fun literal hmem context => ⟨_, hliteral rule hrule literal hmem context⟩
      blind := fun literal hmem context =>
        (hliteral rule hrule literal hmem context).trans
          (hliteral rule hrule literal hmem context.drained).symm
      actions := fun call hmem => by
        obtain ⟨letter, rfl⟩ := hcall rule hrule call hmem
        exact ⟨Builtin.action?_add_after, letter, by simp [insert]⟩ }
  refine ⟨hrules, ?_⟩
  rw [((run_insertions engine hrules).1 "a b a").1]
  decide +kernel

end Engine

end TokenRules
