import TokenRules.Proofs.Application

/-!
# Rules in any monad

Rules can be applied wherever there is a way to evaluate a condition and a way to
perform an action: in passes, where actions may then do anything at all, or on outcomes
that are known already.  Two such applications correspond if their ways do
(`Simulation.applyAllBy`), rules in two parts are applied one part after the other
(`applyAllBy_append`), and an evaluator applies rules in this sense by evaluation and
dispatch, `Evaluator.applyAll_eq`.
-/

namespace TokenRules

section Definitions

variable {m : Type → Type} [Monad m]

/-- Perform calls in order. -/
def performAll (perform : Call → m Unit) (calls : List Call) : m Unit :=
  calls.foldlM (fun _ call => perform call) ()

namespace Rule

/-- Perform the actions of a rule if it fires. -/
def respond (rule : Rule) (perform : Call → m Unit) (fires : Bool) : m Unit :=
  if fires then performAll perform rule.actions else pure ()

/-- Evaluate the condition of a rule and perform the actions if it fires. -/
def applyBy (rule : Rule) (evaluate : Condition → m Bool) (perform : Call → m Unit) : m Bool := do
  let fires ← evaluate rule.condition
  rule.respond perform fires
  return fires

/-- Apply one more rule and add its name to the names of those that fired, if it fires. -/
def applyNoting (evaluate : Condition → m Bool) (perform : Call → m Unit) (fired : List String)
    (rule : Rule) : m (List String) := do
  let fires ← rule.applyBy evaluate perform
  return if fires then fired ++ [rule.name] else fired

end Rule

/-- Apply rules in order and list the names of those that fired. -/
def applyAllBy (evaluate : Condition → m Bool) (perform : Call → m Unit) (rules : List Rule) :
    m (List String) :=
  rules.foldlM (Rule.applyNoting evaluate perform) []

end Definitions

/-! ### Related monads -/

namespace Simulation

variable {m n : Type → Type} [Monad m] [Monad n] {R : ∀ {α : Type}, m α → n α → Prop}
  (hR : Simulation m n R)
include hR

theorem foldlM {ι β : Type} {step : β → ι → m β} {other : β → ι → n β} (init : β) (items : List ι)
    (h : ∀ b item, R (step b item) (other b item)) :
    R (items.foldlM step init) (items.foldlM other init) := by
  induction items generalizing init with
  | nil => exact hR.pure init
  | cons item rest ih =>
    rw [List.foldlM_cons, List.foldlM_cons]
    exact hR.bind (h init item) ih

theorem applyAllBy {evaluate : Condition → m Bool} {tell : Condition → n Bool}
    {perform : Call → m Unit} {act : Call → n Unit}
    (hevaluate : ∀ condition, R (evaluate condition) (tell condition))
    (hperform : ∀ call, R (perform call) (act call)) (rules : List Rule) :
    R (applyAllBy evaluate perform rules) (applyAllBy tell act rules) := by
  refine hR.foldlM [] rules fun fired rule => ?_
  refine hR.bind (hR.bind (hevaluate rule.condition) fun fires => ?_) fun fires => hR.pure _
  refine hR.bind ?_ fun _ => hR.pure fires
  cases fires with
  | true => exact hR.foldlM () rule.actions fun _ call => hperform call
  | false => exact hR.pure ()

end Simulation

/-! ### Rules in two parts -/

section Parts

variable {m : Type → Type} [Monad m] [LawfulMonad m] {evaluate : Condition → m Bool}
  {perform : Call → m Unit}

/-- The names of rules that fired before are a part of the result only. -/
theorem foldlM_applyNoting (rules : List Rule) (fired : List String) :
    rules.foldlM (Rule.applyNoting evaluate perform) fired =
      (fired ++ ·) <$> applyAllBy evaluate perform rules := by
  unfold applyAllBy
  induction rules generalizing fired with
  | nil => rw [List.foldlM_nil, List.foldlM_nil, map_pure, List.append_nil]
  | cons rule rest ih =>
    simp only [List.foldlM_cons, Rule.applyNoting, bind_assoc, pure_bind, map_bind]
    refine bind_congr fun fires => ?_
    rw [ih, ih (if fires then _ else _), Functor.map_map]
    congr 1
    funext names
    cases fires <;> simp

/-- **Rules in two parts** are applied one part after the other. -/
theorem applyAllBy_append (rules others : List Rule) :
    applyAllBy evaluate perform (rules ++ others) = do
      let fired ← applyAllBy evaluate perform rules
      let more ← applyAllBy evaluate perform others
      return fired ++ more := by
  rw [applyAllBy, List.foldlM_append]
  refine bind_congr fun fired => ?_
  rw [foldlM_applyNoting, bind_pure_comp]

end Parts

/-! ### Passes as parts of other computations -/

section Lifted

variable {m : Type → Type} [Monad m] [MonadLiftT (Pass EvalError) m]
  [LawfulMonadLiftT (Pass EvalError) m]

theorem liftM_performAll (perform : Call → Pass EvalError Unit) (calls : List Call) :
    (liftM (performAll perform calls) : m Unit) =
      performAll (fun call => liftM (perform call)) calls := by
  induction calls with
  | nil => exact liftM_pure ()
  | cons call rest ih =>
    rw [performAll, performAll, List.foldlM_cons, List.foldlM_cons, liftM_bind]
    exact bind_congr fun _ => ih

theorem Rule.liftM_respond (rule : Rule) (perform : Call → Pass EvalError Unit) (fires : Bool) :
    (liftM (rule.respond perform fires) : m Unit) =
      rule.respond (fun call => liftM (perform call)) fires := by
  cases fires with
  | true => exact liftM_performAll perform rule.actions
  | false => exact liftM_pure ()

end Lifted

/-! ### Evaluators -/

namespace Evaluator

variable (evaluator : Evaluator)

theorem dispatchAll_eq (calls : List Call) :
    evaluator.dispatchAll calls = performAll evaluator.dispatch calls := by
  induction calls with
  | nil => rfl
  | cons call rest ih =>
    rw [dispatchAll, performAll, List.foldlM_cons]
    exact bind_congr fun _ => ih

section Told

variable {m : Type → Type} [Monad m] [LawfulMonad m] [MonadLiftT (Pass EvalError) m]
  [LawfulMonadLiftT (Pass EvalError) m] (called : String → m Unit)

theorem applyWith_eq (rule : Rule) :
    evaluator.applyWith called rule =
      rule.applyBy (evaluator.evaluateWith called) fun call => liftM (evaluator.dispatch call) := by
  refine bind_congr fun fires => ?_
  rw [← rule.liftM_respond]
  cases fires with
  | true =>
    rw [Rule.respond, if_pos rfl, ← dispatchAll_eq]
    rfl
  | false =>
    have hnone : rule.respond evaluator.dispatch false = pure () := rfl
    rw [hnone, liftM_pure, pure_bind]
    rfl

/-- An evaluator applies rules by evaluation and dispatch, whoever is told of the calls. -/
theorem applyAllWith_eq (rules : List Rule) :
    evaluator.applyAllWith called rules =
      applyAllBy (evaluator.evaluateWith called) (fun call => liftM (evaluator.dispatch call))
        rules := by
  induction rules with
  | nil => rfl
  | cons rule rest ih =>
    rw [← List.singleton_append, applyAllBy_append, ← ih, applyAllBy, List.foldlM_cons,
      Rule.applyNoting, ← applyWith_eq]
    simp only [List.foldlM_nil, bind_assoc, pure_bind]
    refine bind_congr fun fires => bind_congr fun fired => ?_
    cases fires <;> rfl

end Told

theorem applyAll_eq (rules : List Rule) :
    evaluator.applyAll rules = applyAllBy evaluator.evaluate evaluator.dispatch rules :=
  evaluator.applyAllWith_eq (fun _ => pure ()) rules

end Evaluator

end TokenRules
