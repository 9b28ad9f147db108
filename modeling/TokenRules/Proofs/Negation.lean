import Mathlib.Logic.Relation
import TokenRules.Proofs.Answers
import TokenRules.Proofs.WrittenOrder

/-!
# Negations moved to the literals

A negation in front of a literal is the flag of the literal, two negations cancel, and a negation
in front of a group goes to the members, where the group becomes one of the other kind.  Each of
these steps (`Condition.Pushes`), taken anywhere in a condition, leaves a condition that evaluation
cannot tell from the one before, `Pushes.same`: it has the same estimate, so it stays where it was
in the order of a group, and its evaluation is the same computation.  Of the tests nothing is used
but the laws of monads and that a flipped literal has the opposite outcome, so predicates may fail
and anything may depend on what was called.

`Condition.nnf` moves all negations at once: it is reached by such steps
(`pushesTo_nnf_and_opposite`), and there is none left to take (`not_pushes_of_positive`).  Main
statement: `nnf_evaluates_alike`.
-/

namespace TokenRules

variable {α : Type}

/-- The literal of the opposite outcome. -/
def Literal.flipped (literal : Literal) : Literal := { literal with negate := !literal.negate }

/-! ### Formulas that evaluate alike -/

/-- A conjunction is the opposite of the disjunction of the opposites. -/
theorem conjunction_eq_not_disjunction {m : Type → Type} [Monad m] [LawfulMonad m]
    (tests : List (m Bool)) :
    conjunction tests = (!·) <$> disjunction (tests.map ((!·) <$> ·)) := by
  rw [disjunction_eq_not_conjunction, List.map_map]
  have htwice : ((fun test : m Bool => (!·) <$> test) ∘ fun test => (!·) <$> test) = id := by
    funext test
    simp
  rw [htwice, List.map_id, Functor.map_map]
  simp

namespace Formula

variable {m : Type → Type} [Monad m] {cost : α → Cost} {test : α → m Bool}

/-- Two formulas are ranked alike and their evaluations are one computation. -/
structure Same (cost : α → Cost) (test : α → m Bool) (formula other : Formula α) : Prop where
  estimate : formula.estimate cost = other.estimate cost
  evaluate : formula.evaluate cost test = other.evaluate cost test

namespace Same

variable {formula other last : Formula α}

theorem refl (formula : Formula α) : Same cost test formula formula := ⟨rfl, rfl⟩

theorem trans (h : Same cost test formula other) (hlast : Same cost test other last) :
    Same cost test formula last :=
  ⟨h.estimate.trans hlast.estimate, h.evaluate.trans hlast.evaluate⟩

theorem not (h : Same cost test formula other) : Same cost test (.not formula) (.not other) where
  estimate := h.estimate
  evaluate := by rw [Formula.evaluate, Formula.evaluate, h.evaluate]

/-- In the place of a member another one can stand that evaluates alike. -/
theorem branches (h : Same cost test formula other) (before after : List (Formula α)) :
    Formula.branches cost test (before ++ formula :: after) =
      Formula.branches cost test (before ++ other :: after) := by
  simp only [branches_eq, List.map_append, List.map_cons, h.estimate, h.evaluate]

theorem estimates (h : Same cost test formula other) (before after : List (Formula α)) :
    Formula.estimates cost (before ++ formula :: after) =
      Formula.estimates cost (before ++ other :: after) := by
  simp only [estimates_eq, List.map_append, List.map_cons, h.estimate]

theorem all (h : Same cost test formula other) (before after : List (Formula α)) :
    Same cost test (.all (before ++ formula :: after)) (.all (before ++ other :: after)) where
  estimate := by rw [Formula.estimate, Formula.estimate, h.estimates]
  evaluate := by rw [Formula.evaluate, Formula.evaluate, h.branches]

theorem any (h : Same cost test formula other) (before after : List (Formula α)) :
    Same cost test (.any (before ++ formula :: after)) (.any (before ++ other :: after)) where
  estimate := by rw [Formula.estimate, Formula.estimate, h.estimates]
  evaluate := by rw [Formula.evaluate, Formula.evaluate, h.branches]

end Same

/-! ### Negations of formulas -/

theorem evaluate_not [LawfulMonad m] (formula : Formula α) :
    (not formula).evaluate cost test = (!·) <$> formula.evaluate cost test := by
  rw [evaluate, bind_pure_comp]

theorem same_not_not [LawfulMonad m] (formula : Formula α) :
    Same cost test (.not (.not formula)) formula where
  estimate := rfl
  evaluate := by simp [evaluate_not]

/-- The members of a group are tried in the same order if all of them are negated. -/
theorem ordered_map_not (cost : α → Cost) (formulas : List (Formula α)) :
    ordered cost (formulas.map not) = (ordered cost formulas).map not :=
  ordered_map fun _ _ => rfl

theorem evaluations_map_not [LawfulMonad m] (formulas : List (Formula α)) :
    cheapestFirst (branches cost test (formulas.map not)) =
      (cheapestFirst (branches cost test formulas)).map ((!·) <$> ·) := by
  rw [cheapestFirst_branches, cheapestFirst_branches, ordered_map_not, List.map_map, List.map_map]
  exact List.map_congr_left fun formula _ => evaluate_not formula

theorem estimates_map_not (cost : α → Cost) (formulas : List (Formula α)) :
    estimates cost (formulas.map not) = estimates cost formulas := by
  rw [estimates_eq, estimates_eq, List.map_map]
  rfl

/-- The opposite of a conjunction is the disjunction of the opposites: the members are tried in the
same order, and the one that decides either of them decides the other. -/
theorem same_not_all [LawfulMonad m] (formulas : List (Formula α)) :
    Same cost test (.not (.all formulas)) (.any (formulas.map not)) where
  estimate := by rw [estimate, estimate, estimate, estimates_map_not]
  evaluate := by
    rw [evaluate_not, evaluate, evaluate, evaluations_map_not, conjunction_eq_not_disjunction]
    simp

theorem same_not_any [LawfulMonad m] (formulas : List (Formula α)) :
    Same cost test (.not (.any formulas)) (.all (formulas.map not)) where
  estimate := by rw [estimate, estimate, estimate, estimates_map_not]
  evaluate := by
    rw [evaluate_not, evaluate, evaluate, evaluations_map_not, disjunction_eq_not_conjunction]
    simp

/-! ### Formulas without negations -/

/-- There is no negation in the formula, its atoms apart. -/
inductive Positive : Formula α → Prop
  | atom (a : α) : Positive (.atom a)
  | all {formulas : List (Formula α)} (h : ∀ formula ∈ formulas, Positive formula) :
      Positive (.all formulas)
  | any {formulas : List (Formula α)} (h : ∀ formula ∈ formulas, Positive formula) :
      Positive (.any formulas)

end Formula

namespace Condition

/-! ### Steps of a negation -/

/-- Somewhere in the condition a negation comes one step nearer to the literals. -/
inductive Pushes : Condition → Condition → Prop
  | literal (literal : Literal) : Pushes (.not (.atom literal)) (.atom literal.flipped)
  | twice (condition : Condition) : Pushes (.not (.not condition)) condition
  | overAll (conditions : List Condition) :
      Pushes (.not (.all conditions)) (.any (conditions.map .not))
  | overAny (conditions : List Condition) :
      Pushes (.not (.any conditions)) (.all (conditions.map .not))
  | not {condition other : Condition} (h : Pushes condition other) :
      Pushes (.not condition) (.not other)
  | all {condition other : Condition} (before after : List Condition) (h : Pushes condition other) :
      Pushes (.all (before ++ condition :: after)) (.all (before ++ other :: after))
  | any {condition other : Condition} (before after : List Condition) (h : Pushes condition other) :
      Pushes (.any (before ++ condition :: after)) (.any (before ++ other :: after))

/-- Some such steps, one after the other. -/
abbrev PushesTo : Condition → Condition → Prop := Relation.ReflTransGen Pushes

section Same

variable {m : Type → Type} [Monad m] [LawfulMonad m] {cost : Literal → Cost}
  {test : Literal → m Bool} (hcost : ∀ literal : Literal, cost literal.flipped = cost literal)
  (htest : ∀ literal : Literal, test literal.flipped = (!·) <$> test literal)
include hcost htest

/-- **One step cannot be told.** -/
theorem Pushes.same {condition other : Condition} (h : Pushes condition other) :
    Formula.Same cost test condition other := by
  induction h with
  | literal literal =>
    refine ⟨(hcost literal).symm, ?_⟩
    rw [Formula.evaluate_not, Formula.evaluate, Formula.evaluate, htest]
  | twice condition => exact Formula.same_not_not condition
  | overAll conditions => exact Formula.same_not_all conditions
  | overAny conditions => exact Formula.same_not_any conditions
  | not _ ih => exact ih.not
  | all before after _ ih => exact ih.all before after
  | any before after _ ih => exact ih.any before after

/-- Nor can any number of steps. -/
theorem same_of_pushesTo {condition other : Condition} (h : PushesTo condition other) :
    Formula.Same cost test condition other := by
  induction h with
  | refl => exact .refl condition
  | tail _ hstep ih => exact ih.trans (hstep.same hcost htest)

end Same

/-! ### All steps at once -/

mutual

/-- The condition with its negations moved to the literals. -/
def nnf : Condition → Condition
  | .atom literal => .atom literal
  | .not condition => opposite condition
  | .all conditions => .all (nnfs conditions)
  | .any conditions => .any (nnfs conditions)

/-- The opposite of the condition, with the negations moved to the literals. -/
def opposite : Condition → Condition
  | .atom literal => .atom literal.flipped
  | .not condition => nnf condition
  | .all conditions => .any (opposites conditions)
  | .any conditions => .all (opposites conditions)

def nnfs : List Condition → List Condition
  | [] => []
  | condition :: rest => nnf condition :: nnfs rest

def opposites : List Condition → List Condition
  | [] => []
  | condition :: rest => opposite condition :: opposites rest

end

theorem nnfs_eq (conditions : List Condition) : nnfs conditions = conditions.map nnf := by
  induction conditions with
  | nil => rfl
  | cons condition rest ih => rw [nnfs, ih, List.map_cons]

theorem opposites_eq (conditions : List Condition) :
    opposites conditions = conditions.map opposite := by
  induction conditions with
  | nil => rfl
  | cons condition rest ih => rw [opposites, ih, List.map_cons]

/-- The steps of the members, one member after the other, are steps of the group. -/
theorem pushesTo_members {group : List Condition → Condition}
    (hgroup : ∀ {condition other} before after, Pushes condition other →
      Pushes (group (before ++ condition :: after)) (group (before ++ other :: after)))
    {f g : Condition → Condition} {conditions : List Condition}
    (h : ∀ condition ∈ conditions, PushesTo (f condition) (g condition)) (before : List Condition) :
    PushesTo (group (before ++ conditions.map f)) (group (before ++ conditions.map g)) := by
  induction conditions generalizing before with
  | nil => exact .refl
  | cons condition rest ih =>
    obtain ⟨hhead, hrest⟩ := List.forall_mem_cons.1 h
    have hfirst : PushesTo (group (before ++ f condition :: rest.map f))
        (group (before ++ g condition :: rest.map f)) :=
      hhead.lift (fun member => group (before ++ member :: rest.map f)) fun _ _ =>
        hgroup before (rest.map f)
    have hothers := ih hrest (before ++ [g condition])
    rw [List.append_assoc, List.append_assoc] at hothers
    exact hfirst.trans hothers

/-- The condition and its opposite are reached by steps from it and from its negation. -/
theorem pushesTo_nnf_and_opposite (condition : Condition) :
    PushesTo condition condition.nnf ∧ PushesTo (.not condition) condition.opposite := by
  induction condition using Formula.ind with
  | atom literal => exact ⟨.refl, .single (.literal literal)⟩
  | not condition ih => exact ⟨ih.2, .head (.twice condition) ih.1⟩
  | all conditions ih =>
    rw [nnf, opposite, nnfs_eq, opposites_eq]
    constructor
    · have h := pushesTo_members .all (f := id) (fun condition hmem => (ih condition hmem).1) []
      rwa [List.map_id] at h
    · exact .head (.overAll conditions)
        (pushesTo_members .any (fun condition hmem => (ih condition hmem).2) [])
  | any conditions ih =>
    rw [nnf, opposite, nnfs_eq, opposites_eq]
    constructor
    · have h := pushesTo_members .any (f := id) (fun condition hmem => (ih condition hmem).1) []
      rwa [List.map_id] at h
    · exact .head (.overAny conditions)
        (pushesTo_members .all (fun condition hmem => (ih condition hmem).2) [])

theorem positive_nnf_and_opposite (condition : Condition) :
    condition.nnf.Positive ∧ condition.opposite.Positive := by
  induction condition using Formula.ind with
  | atom literal => exact ⟨.atom _, .atom _⟩
  | not condition ih => exact ⟨ih.2, ih.1⟩
  | all conditions ih =>
    rw [nnf, opposite, nnfs_eq, opposites_eq]
    exact ⟨.all (List.forall_mem_map.2 fun condition hmem => (ih condition hmem).1),
      .any (List.forall_mem_map.2 fun condition hmem => (ih condition hmem).2)⟩
  | any conditions ih =>
    rw [nnf, opposite, nnfs_eq, opposites_eq]
    exact ⟨.any (List.forall_mem_map.2 fun condition hmem => (ih condition hmem).1),
      .all (List.forall_mem_map.2 fun condition hmem => (ih condition hmem).2)⟩

/-- Where there is no negation, none can be moved. -/
theorem not_pushes_of_positive {condition other : Condition} (h : condition.Positive) :
    ¬ Pushes condition other := by
  intro hstep
  induction hstep with
  | literal | twice | overAll | overAny | not => cases h
  | all before after _ ih | any before after _ ih =>
    cases h with
    | _ hmembers => exact ih (hmembers _ (by simp))

end Condition

/-! ### Conditions -/

namespace Evaluator

variable (evaluator : Evaluator)

/-- A literal and the flipped one call the same predicate, and one holds if the other does not. -/
theorem testSilently_flipped (literal : Literal) :
    evaluator.testSilently literal.flipped = (!·) <$> evaluator.testSilently literal := by
  obtain ⟨call, negate⟩ := literal
  cases h : evaluator.registry.predicate? call.function with
  | none =>
    rw [testSilently, testSilently, test, test, Literal.flipped, h]
    rfl
  | some predicate =>
    rw [evaluator.testSilently_eq ⟨call, negate⟩ h,
      evaluator.testSilently_eq (Literal.flipped ⟨call, negate⟩) h, map_bind]
    refine bind_congr fun answer => ?_
    cases answer with
    | ok holds => cases holds <;> cases negate <;> rfl
    | error e => rfl

theorem same_of_pushesTo {condition other : Condition} (h : condition.PushesTo other) :
    Formula.Same (fun literal => evaluator.costs.cost literal.call.function)
      evaluator.testSilently condition other :=
  Condition.same_of_pushesTo (fun _ => rfl) evaluator.testSilently_flipped h

theorem evaluate_not (condition : Condition) :
    evaluator.evaluate (.not condition) = (!·) <$> evaluator.evaluate condition :=
  Formula.evaluate_not condition

/-- To flip the flag of a literal is as good as a negation in front. -/
theorem evaluate_negated (condition : Condition) :
    evaluator.evaluate condition.negated = (!·) <$> evaluator.evaluate condition := by
  cases condition with
  | atom literal => exact evaluator.testSilently_flipped literal
  | not condition => exact evaluator.evaluate_not _
  | all conditions => exact evaluator.evaluate_not _
  | any conditions => exact evaluator.evaluate_not _

/-- **Negations can be moved to the literals and no one can tell.**  The moved condition is reached
by steps of negations and has none left to take; each condition on the way to it, and it itself,
has the same estimate, and its evaluation is the same pass: from every context it has the same
result or the same error, calls the same predicates with the same arguments in the same order, and
leaves the same context.  Both ways to negate a condition evaluate alike, and any two negations in
a row are none. -/
theorem nnf_evaluates_alike (condition : Condition) :
    (condition.PushesTo condition.nnf ∧ ∀ other, ¬ condition.nnf.Pushes other) ∧
    (∀ other, condition.PushesTo other →
      evaluator.costs.estimate other = evaluator.costs.estimate condition ∧
      evaluator.evaluate other = evaluator.evaluate condition) ∧
    evaluator.costs.estimate condition.nnf = evaluator.costs.estimate condition ∧
    evaluator.evaluate condition.nnf = evaluator.evaluate condition ∧
    evaluator.evaluate condition.negated = evaluator.evaluate (.not condition) ∧
    ∀ first ∈ [Condition.negated, .not], ∀ second ∈ [Condition.negated, .not],
      evaluator.evaluate (first (second condition)) = evaluator.evaluate condition := by
  have hnnf : condition.PushesTo condition.nnf := condition.pushesTo_nnf_and_opposite.1
  have hpositive : condition.nnf.Positive := condition.positive_nnf_and_opposite.1
  have hsame (other : Condition) (h : condition.PushesTo other) :
      evaluator.costs.estimate other = evaluator.costs.estimate condition ∧
      evaluator.evaluate other = evaluator.evaluate condition :=
    ⟨(evaluator.same_of_pushesTo h).estimate.symm, (evaluator.same_of_pushesTo h).evaluate.symm⟩
  refine ⟨⟨hnnf, fun other => Condition.not_pushes_of_positive hpositive⟩, hsame, (hsame _ hnnf).1,
    (hsame _ hnnf).2, ?_, ?_⟩
  · rw [evaluator.evaluate_negated, evaluator.evaluate_not]
  · intro first hfirst second hsecond
    have hnot (negation : Condition → Condition) (hmem : negation ∈ [Condition.negated, .not])
        (other : Condition) :
        evaluator.evaluate (negation other) = (!·) <$> evaluator.evaluate other := by
      rcases List.mem_pair.1 hmem with rfl | rfl
      · exact evaluator.evaluate_negated other
      · exact evaluator.evaluate_not other
    rw [hnot first hfirst, hnot second hsecond, Functor.map_map]
    simp

/-- The negation of a group goes to the members, of which the second is tried first and the first
is not registered. -/
theorem nnf_of_negated_group :
    let costs : CostTable := (∅ : CostTable).insert "ghost" ⟨⟨0x4014000000000000⟩, by decide⟩
    let registry := (∅ : Registry).registerPredicate "no" fun _ => .done (.ok false)
    let evaluator : Evaluator := ⟨costs, registry⟩
    let condition : Condition := .not (.all [Condition.call "ghost", .not (Condition.call "no")])
    let halfway : Condition :=
      .any [.not (Condition.call "ghost"), .not (.not (Condition.call "no"))]
    let moved : Condition := .any [.atom ⟨⟨"ghost", ∅⟩, true⟩, Condition.call "no"]
    condition.PushesTo moved ∧ (∀ other, ¬ moved.Pushes other) ∧
      evaluator.evaluate halfway = evaluator.evaluate condition ∧
      evaluator.costs.estimate moved = evaluator.costs.estimate condition ∧
      evaluator.evaluate moved = evaluator.evaluate condition ∧
      evaluator.evaluate (.not condition.negated) = evaluator.evaluate condition ∧
      (evaluator.evaluate moved (Context.ofTokens [])).result =
        .error (.unknownPredicate "ghost") := by
  intro costs registry evaluator condition halfway moved
  obtain ⟨⟨hreached, hlast⟩, hsteps, hestimate, hevaluate, -, htwice⟩ :=
    evaluator.nnf_evaluates_alike condition
  have hhalfway : condition.PushesTo halfway := .single (.overAll _)
  have hresult : (evaluator.evaluate moved (Context.ofTokens [])).result =
      .error (.unknownPredicate "ghost") := by
    rw [Evaluator.result_evaluate, Formula.evaluate]
    show disjunction (cheapestFirst [_, _]) = _
    rw [cheapestFirst_pair, if_neg (by decide)]
    rfl
  exact ⟨hreached, hlast, (hsteps halfway hhalfway).2, hestimate, hevaluate,
    htwice .not (by simp) Condition.negated (by simp), hresult⟩

end Evaluator

end TokenRules
