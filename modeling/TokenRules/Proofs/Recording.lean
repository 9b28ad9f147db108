import TokenRules.Proofs.Blindness
import TokenRules.Proofs.Insertions

/-!
# Edits recorded by actions

A call of `add_after` records an edit if there is a token at its position and its
argument is a text, and otherwise none (`Call.insertion?`).  So the edits that a pass
over rules records can be read off the actions that it calls, whether it ends well or
not: a pass `Inserts` if what it does to what can be seen is to record these edits.  This
carries over from the parts of a pass to the whole, and the built-in functions do it.
-/

namespace TokenRules

/-- The edit that a call of `add_after` records, which it does if there is a token and a letter. -/
def Call.insertion? (call : Call) (tokens : List String) (index : Nat) : Option Edit :=
  match tokens[index]?, call.args.text "letter" with
  | some _, .ok letter => some ⟨index, letter⟩
  | _, _ => none

/-- The edits that calls of actions record. -/
def insertionsBy (tokens : List String) (actions : List (Call × Nat)) : List Edit :=
  actions.filterMap fun made => made.1.insertion? tokens made.2

/-! ### Passes that insert -/

namespace Pass

variable {ε α β : Type}

/-- The pass changes nothing in sight but that it records the edits that its actions stand for. -/
def Inserts (pass : Pass ε α) : Prop :=
  ∀ c : Context, (pass c).effect.sight =
    c.sight.recorded (insertionsBy c.tokens (pass c).effect.actions)

theorem Quiet.inserts {pass : Pass ε α} (h : pass.Quiet) : pass.Inserts := by
  intro c
  obtain ⟨hsight, hactions⟩ := h c
  rw [hsight, hactions]
  exact (Sight.recorded_nil _).symm

theorem inserts_bind {pass : Pass ε α} {f : α → Pass ε β} (hpass : pass.Inserts)
    (hf : ∀ a, (f a).Inserts) : (pass >>= f).Inserts := by
  intro c
  have hsight : (pass c).context.sight =
      c.sight.recorded (insertionsBy c.tokens (pass c).effect.actions) := hpass c
  have htokens : (pass c).context.tokens = c.tokens := congrArg Sight.tokens hsight
  cases h : (pass c).result with
  | ok a =>
    rw [effect_bind_of_ok h]
    dsimp only
    rw [hf a, hsight, Sight.recorded_recorded, htokens, insertionsBy, insertionsBy, insertionsBy,
      List.filterMap_append]
  | error e =>
    rw [bind_of_error h]
    exact hsight

theorem closed_inserts : Closed (ε := ε) Inserts where
  pure a := (closed_quiet.pure a).inserts
  fail e := (closed_quiet.fail e).inserts
  bind := inserts_bind

end Pass

namespace Builtin

theorem sight_addAfter (call : Call) (sight : Sight) :
    ((addAfter call.args).meaning sight).2 =
      sight.recorded (insertionsBy sight.tokens [(call, sight.index)]) := by
  have htoken : sight.view.token? = sight.tokens[sight.index]? := rfl
  unfold addAfter insertionsBy
  rw [List.filterMap_cons, List.filterMap_nil, Call.insertion?]
  cases call.args.text "letter" with
  | error e =>
    cases sight.tokens[sight.index]? <;> exact (Sight.recorded_nil sight).symm
  | ok letter =>
    simp only [Program.meaning, htoken]
    cases sight.tokens[sight.index]? with
    | none => exact (Sight.recorded_nil sight).symm
    | some token => rfl

theorem inserts_predicate (predicate : Predicate) (call : Call) :
    (predicate.invoke call : Pass EvalError _).Inserts :=
  Pass.Quiet.inserts fun c => by
    rw [effect_invoke]
    exact ⟨rfl, rfl⟩

theorem inserts_action {action : Action} {call : Call}
    (h : registry.action? call.function = some action) :
    (action.invoke call : Pass EvalError _).Inserts := by
  intro c
  rw [eq_of_action? h, Action.invoke, Pass.effect_bind_of_ok rfl, Program.effect_run]
  exact sight_addAfter call c.sight

end Builtin

end TokenRules
