import TokenRules.Proofs.Determination
import TokenRules.Proofs.Estimates
import TokenRules.Proofs.Lookups

/-!
# The leaf that is tried first

At every level of a formula the branch of least estimate goes first, and of several the leftmost.
Where no group is empty, an estimate is the cost of some atom, so what these choices lead to is the
first of the cheapest atoms of the whole formula (`exists_atoms_presort_eq_cons`).  An evaluation
tries it before all others, whatever the outcomes are (`exists_head?_tried`).

For a condition the atoms are its leaves with their places.  Those that an evaluation tries
(`leafTrace`) are those of which it looks up the predicates (`lookups_eq`).  Main statement:
`evaluate_tries_cheapest_first`.
-/

namespace TokenRules

variable {ι ε α β : Type}

/-- An item between others is the first of the cheapest of them all. -/
structure FirstCheapest (cost : ι → Cost) (before : List ι) (item : ι) (after : List ι) :
    Prop where
  before : ∀ other ∈ before, ¬ cost other ≤ cost item
  after : ∀ other ∈ after, cost item ≤ cost other

theorem FirstCheapest.le {cost : ι → Cost} {before after : List ι} {item other : ι}
    (h : FirstCheapest cost before item after) (hmem : other ∈ before ++ item :: after) :
    cost item ≤ cost other := by
  rcases List.mem_append.1 hmem with hbefore | hmem
  · exact Nat.le_of_lt (Nat.lt_of_not_le (h.before other hbefore))
  · rcases List.mem_cons.1 hmem with rfl | hafter
    · exact Nat.le_refl _
    · exact h.after other hafter

theorem FirstCheapest.map {κ : Type} {cost : ι → Cost} {f : κ → ι} {before after : List κ}
    {item : κ} (h : FirstCheapest (cost ∘ f) before item after) :
    FirstCheapest cost (before.map f) (f item) (after.map f) where
  before := List.forall_mem_map.2 h.before
  after := List.forall_mem_map.2 h.after

namespace Formula

variable {cost : α → Cost}

/-! ### The first of a group -/

theorem exists_ordered_eq_cons (cost : α → Cost) {formulas : List (Formula α)}
    (h : formulas ≠ []) :
    ∃ before first after rest, formulas = before ++ first :: after ∧
      ordered cost formulas = first :: rest ∧ FirstCheapest (estimate cost) before first after := by
  induction formulas with
  | nil => exact absurd rfl h
  | cons head tail ih =>
    obtain ⟨cheaper, others, hordered, htail, hcheaper⟩ :=
      List.mergeSort_cons (estimate_trans cost) (estimate_total cost) head tail
    rw [← ordered_eq_mergeSort] at hordered htail
    cases cheaper with
    | nil =>
      have hsorted := pairwise_ordered cost (head :: tail)
      rw [hordered] at hsorted
      refine ⟨[], head, tail, others, rfl, hordered, nofun, fun other hother => ?_⟩
      have hmem : other ∈ others := by
        rw [List.nil_append] at htail
        rw [← htail]
        exact mem_ordered.2 hother
      exact (List.pairwise_cons.1 hsorted).1 other hmem
    | cons next cheaper =>
      have hnext : next ∈ ordered cost tail := htail ▸ List.mem_cons_self
      obtain ⟨before, first, after, rest, rfl, hrest, hbefore, hafter⟩ :=
        ih (List.ne_nil_of_mem (mem_ordered.1 hnext))
      obtain ⟨rfl, -⟩ := List.cons_eq_cons.1 (hrest.symm.trans htail)
      refine ⟨head :: before, first, after, _, rfl, hordered, ?_, hafter⟩
      refine List.forall_mem_cons.2 ⟨?_, hbefore⟩
      simpa using hcheaper first List.mem_cons_self

/-! ### The first atom -/

/-- Without empty groups the tips are the atoms. -/
theorem Filled.tips_eq {formula : Formula α} (h : formula.Filled) :
    formula.tips = formula.atoms.map some := by
  induction h with
  | atom a => rfl
  | not _ ih => exact ih
  | @all formulas hne _ ih | @any formulas hne _ ih =>
    rw [tips, atoms, atomsList_eq, tipsList_eq, if_neg (by simpa using hne), List.map_flatMap]
    exact List.flatMap_congr ih

/-- Without empty groups an estimate is the cost of a cheapest atom. -/
theorem Filled.isLeastOf_estimate {formula : Formula α} (h : formula.Filled) (cost : α → Cost) :
    (formula.estimate cost).IsLeastOf (formula.atoms.map cost) := by
  have hleast := formula.isLeastOf_estimate cost
  rwa [h.tips_eq, List.map_map] at hleast

/-- The first of the cheapest atoms of the cheapest of some formulas, and of the first of these, is
the first of the cheapest atoms of all. -/
theorem FirstCheapest.flatMap {fronts backs : List (Formula α)} {formula : Formula α}
    {before after : List α} {a : α} (hfronts : ∀ front ∈ fronts, front.Filled)
    (hbacks : ∀ back ∈ backs, back.Filled) (hformula : formula.Filled)
    (hatoms : formula.atoms = before ++ a :: after)
    (houter : FirstCheapest (estimate cost) fronts formula backs)
    (hinner : FirstCheapest cost before a after) :
    FirstCheapest cost (fronts.flatMap atoms ++ before) a (after ++ backs.flatMap atoms) := by
  have hcost : cost a ≤ formula.estimate cost := by
    obtain ⟨_, hmem, hrank⟩ := (hformula.isLeastOf_estimate cost).attained
    obtain ⟨other, hother, rfl⟩ := List.mem_map.1 hmem
    exact Nat.le_trans (hinner.le (hatoms ▸ hother)) (Nat.le_of_eq hrank)
  constructor
  · intro other hmem hle
    rcases List.mem_append.1 hmem with hmem | hmem
    · obtain ⟨front, hfront, hother⟩ := List.mem_flatMap.1 hmem
      have hestimate := ((hfronts front hfront).isLeastOf_estimate cost).le _
        (List.mem_map_of_mem hother)
      exact houter.before front hfront (Nat.le_trans hestimate (Nat.le_trans hle hcost))
    · exact hinner.before other hmem hle
  · intro other hmem
    rcases List.mem_append.1 hmem with hmem | hmem
    · exact hinner.after other hmem
    · obtain ⟨back, hback, hother⟩ := List.mem_flatMap.1 hmem
      have hestimate := ((hbacks back hback).isLeastOf_estimate cost).le _
        (List.mem_map_of_mem hother)
      exact Nat.le_trans hcost (Nat.le_trans (houter.after back hback) hestimate)

/-- **The first atom of the sorted formula is the first of the cheapest atoms** of the formula as it
is written. -/
theorem exists_atoms_presort_eq_cons (cost : α → Cost) {formula : Formula α} (h : formula.Filled) :
    ∃ before first after rest, formula.atoms = before ++ first :: after ∧
      (formula.presort cost).atoms = first :: rest ∧ FirstCheapest cost before first after := by
  induction h with
  | atom a => exact ⟨[], a, [], [], rfl, rfl, nofun, nofun⟩
  | not _ ih => exact ih
  | @all formulas hne hfilled ih | @any formulas hne hfilled ih =>
    obtain ⟨fronts, formula, backs, others, rfl, hordered, houter⟩ :=
      exists_ordered_eq_cons cost hne
    obtain ⟨before, first, after, rest, hatoms, hsorted, hinner⟩ := ih formula (by simp)
    refine ⟨fronts.flatMap atoms ++ before, first, after ++ backs.flatMap atoms,
      rest ++ (others.map (presort cost)).flatMap atoms, ?_, ?_, ?_⟩
    · rw [atoms, atomsList_eq, List.flatMap_append, List.flatMap_cons, hatoms]
      simp
    · rw [presort, presortList_eq, ordered_map_presort, hordered, atoms, atomsList_eq,
        List.map_cons, List.flatMap_cons, hsorted, List.cons_append]
    · exact FirstCheapest.flatMap (fun front hfront => hfilled front (by simp [hfront]))
        (fun back hback => hfilled back (by simp [hback])) (hfilled formula (by simp)) hatoms
        houter hinner

end Formula

/-! ### The first item tried -/

theorem Trace.head?_tried_bind {trace : Trace ι ε α} {item : ι} (h : trace.tried.head? = some item)
    (f : α → Trace ι ε β) : (trace >>= f).tried.head? = some item := by
  cases hresult : trace.result with
  | ok a => rw [bind_of_ok hresult, List.head?_append, h, Option.some_or]
  | error e => rw [bind_of_error hresult, h]

/-- A trace of which the first item fails ends with it. -/
theorem Trace.Ends.of_head {outcome : ι → Except ε Bool} {trace : Trace ι ε α}
    (h : trace.Ends outcome) {item : ι} {e : ε} (hhead : trace.tried.head? = some item)
    (hitem : outcome item = .error e) : trace.tried = [item] ∧ trace.result = .error e := by
  obtain ⟨rest, htried⟩ := List.head?_eq_some_iff.1 hhead
  have hfails : ¬ ∃ b, outcome item = .ok b := by simp [hitem]
  cases hresult : trace.result with
  | ok a => exact absurd (h.of_ok a hresult item (by simp [htried])) hfails
  | error e' =>
    obtain ⟨before, last, hsplit, hlast, hbefore⟩ := h.of_error e' hresult
    cases before with
    | nil =>
      obtain ⟨rfl, rfl⟩ := List.cons_eq_cons.1 (htried.symm.trans hsplit)
      cases hlast.symm.trans hitem
      exact ⟨htried, rfl⟩
    | cons first before =>
      obtain ⟨rfl, -⟩ := List.cons_eq_cons.1 (htried.symm.trans hsplit)
      exact absurd (hbefore item List.mem_cons_self) hfails

/-- Evaluation from left to right tries the leftmost atom first, whatever the outcomes are. -/
theorem Formula.Filled.exists_head?_tried (outcome : α → Except ε Bool) {formula : Formula α}
    (h : formula.Filled) :
    ∃ first rest, formula.atoms = first :: rest ∧
      (formula.trace outcome).tried.head? = some first := by
  unfold trace
  induction h with
  | atom a => exact ⟨a, [], rfl, rfl⟩
  | not _ ih =>
    obtain ⟨first, rest, hatoms, hfirst⟩ := ih
    exact ⟨first, rest, hatoms, Trace.head?_tried_bind hfirst _⟩
  | @all formulas hne _ ih | @any formulas hne _ ih =>
    obtain ⟨head, tail, rfl⟩ := List.exists_cons_of_ne_nil hne
    obtain ⟨first, rest, hatoms, hfirst⟩ := ih head List.mem_cons_self
    refine ⟨first, rest ++ tail.flatMap atoms, ?_, Trace.head?_tried_bind hfirst _⟩
    rw [atoms, atomsList_eq, List.flatMap_cons, hatoms, List.cons_append]

/-! ### Look-ups of the leaves tried -/

/-- From any context that looks like `context` the watched pass comes to what the trace comes to and
leaves no trace in sight, and what it looks up, always in a context that looks like this one, are
the calls of the items tried. -/
def Watched.Tries (context : Context) (call : ι → Call) (watched : Watched ε α)
    (trace : Trace ι ε α) : Prop :=
  ∀ c : Context, c.sight = context.sight →
    (watched c).result = trace.result ∧ (watched c).context.sight = context.sight ∧
      (watched c).lookups.map Lookup.seen =
        trace.tried.map fun item => (call item, context.sight)

theorem Watched.simulation_tries (context : Context) (call : ι → Call) :
    Simulation (Watched ε) (Trace ι ε) (Tries context call) where
  pure _ _ hc := ⟨rfl, hc, rfl⟩
  bind := by
    intro α β watched trace f g hwatched hf c hc
    obtain ⟨hresult, hsight, hlookups⟩ := hwatched c hc
    cases htrace : trace.result with
    | ok a =>
      obtain ⟨hresult', hsight', hlookups'⟩ := hf a _ hsight
      rw [bind_of_ok (hresult.trans htrace), Trace.bind_of_ok htrace]
      refine ⟨hresult', hsight', ?_⟩
      rw [List.map_append, hlookups, hlookups', List.map_append]
    | error e =>
      rw [bind_of_error (hresult.trans htrace), Trace.bind_of_error htrace]
      exact ⟨rfl, hsight, hlookups⟩

namespace Evaluator

variable (evaluator : Evaluator) (condition : Condition) (context : Context)

/-- The declared cost of the predicate of a literal, zero if there is none. -/
def leafCost (literal : Literal) : Cost := evaluator.costs.cost literal.call.function

/-- The evaluation of a condition as a trace: the leaves that it tries in a context, each with its
place, in order, and what it comes to. -/
def leafTrace : Trace (Literal × Nat) EvalError Bool :=
  condition.numbered.evaluate (evaluator.leafCost ∘ Prod.fst)
    fun leaf => ⟨[leaf], evaluator.outcome context leaf.1⟩

theorem tries_watchTest (leaf : Literal × Nat) :
    (evaluator.watchTest leaf.1).Tries context (·.1.call)
      (⟨[leaf], evaluator.outcome context leaf.1⟩ : Trace (Literal × Nat) EvalError Bool) := by
  intro c hc
  obtain ⟨hresult, hsight, -⟩ := evaluator.follows_test context leaf.1 c hc
  refine ⟨hresult, hsight, ?_⟩
  show [(leaf.1.call, c.sight)] = [(leaf.1.call, context.sight)]
  rw [hc]

/-- What an evaluation looks up are the predicates of the leaves that it tries, always in a context
that looks like the one in which it starts. -/
theorem lookups_eq :
    (evaluator.lookups condition context).map Lookup.seen =
      (evaluator.leafTrace condition context).tried.map fun leaf =>
        (leaf.1.call, context.sight) := by
  have htries : Watched.Tries context (·.1.call)
      (condition.numbered.evaluate (evaluator.leafCost ∘ Prod.fst)
        (evaluator.watchTest ∘ Prod.fst))
      (evaluator.leafTrace condition context) :=
    (Watched.simulation_tries context fun leaf : Literal × Nat => leaf.1.call).evaluate _ _
      fun leaf _ => evaluator.tries_watchTest context leaf
  rw [Formula.evaluate_numbered] at htries
  exact (htries context rfl).2.2

theorem follows_leafTrace :
    (evaluator.evaluate condition).Follows context (evaluator.registry.called ∘ Prod.fst)
      (evaluator.leafTrace condition context) := by
  have hfollows : Pass.Follows context (evaluator.registry.called ∘ Prod.fst)
      (condition.numbered.evaluate (evaluator.leafCost ∘ Prod.fst)
        (evaluator.testSilently ∘ Prod.fst))
      (evaluator.leafTrace condition context) :=
    (Pass.simulation_follows context (evaluator.registry.called ∘ Prod.fst)).evaluate _ _
      fun leaf _ => evaluator.follows_test context leaf.1
  rwa [Formula.evaluate_numbered] at hfollows

theorem leafTrace_eq :
    evaluator.leafTrace condition context =
      (evaluator.sortedLeaves condition).trace fun leaf => evaluator.outcome context leaf.1 :=
  Formula.evaluate_eq_presort _ _ _

variable {condition}

/-- The first leaf tried is the first of the cheapest leaves, and its place is the number of leaves
before it. -/
theorem exists_head?_leafTrace (h : condition.Filled) :
    ∃ before literal after, condition.atoms = before ++ literal :: after ∧
      FirstCheapest evaluator.leafCost before literal after ∧
      (evaluator.leafTrace condition context).tried.head? = some (literal, before.length) := by
  obtain ⟨before, leaf, after, rest, hatoms, hsorted, hcheapest⟩ :=
    Formula.exists_atoms_presort_eq_cons (evaluator.leafCost ∘ Prod.fst) h.numbered
  rw [Formula.numbered, Formula.atoms_numberedFrom, List.zipIdx_eq_append_iff] at hatoms
  obtain ⟨fronts, backs, hsplit, rfl, hleaf⟩ := hatoms
  obtain ⟨literal, backs, rfl⟩ : ∃ literal rest, backs = literal :: rest := by
    cases backs with
    | nil => cases hleaf
    | cons literal rest => exact ⟨literal, rest, rfl⟩
  obtain ⟨rfl, rfl⟩ := List.cons_eq_cons.1 hleaf
  have hcheapest := hcheapest.map
  rw [List.zipIdx_map_fst, List.zipIdx_map_fst] at hcheapest
  refine ⟨fronts, literal, backs, hsplit, hcheapest, ?_⟩
  obtain ⟨first, others, hfirst, hhead⟩ := (evaluator.filled_sortedLeaves h).exists_head?_tried
    fun leaf => evaluator.outcome context leaf.1
  obtain ⟨rfl, -⟩ := List.cons_eq_cons.1 (hfirst.symm.trans hsorted)
  rw [leafTrace_eq, hhead, Nat.zero_add]

/-- **The first leaf tried is the cheapest of the whole condition.**  Where no group is empty, the
first leaf of which an evaluation looks up the predicate costs no more than any leaf at any depth
and less than those that are written before it.  Its predicate is the first one called, or if it is
not registered the one that the error names, and then no predicate is called at all.

The leaves tried are those of the look-ups, and to watch an evaluation for look-ups changes
nothing. -/
theorem evaluate_tries_cheapest_first (hfilled : condition.Filled) :
    let left := evaluator.evaluate condition context
    let tried := (evaluator.leafTrace condition context).tried
    ((evaluator.watch condition context).toOutcome = left ∧
      (evaluator.lookups condition context).map Lookup.seen =
        tried.map fun leaf => (leaf.1.call, context.sight)) ∧
    ∃ before literal after, condition.atoms = before ++ literal :: after ∧
      (∀ other ∈ before, ¬ evaluator.costs.cost other.call.function ≤
        evaluator.costs.cost literal.call.function) ∧
      (∀ other ∈ after, evaluator.costs.cost literal.call.function ≤
        evaluator.costs.cost other.call.function) ∧
      tried.head? = some (literal, before.length) ∧
      ((evaluator.registry.predicate? literal.call.function).isSome →
        (left.events.filterMap Event.predicate?).head? = some literal.call) ∧
      (evaluator.registry.predicate? literal.call.function = none →
        left.result = .error (.unknownPredicate literal.call.function) ∧
          left.events.filterMap Event.predicate? = []) := by
  intro left tried
  obtain ⟨before, literal, after, hatoms, ⟨hbefore, hafter⟩, hhead⟩ :=
    evaluator.exists_head?_leafTrace context hfilled
  obtain ⟨hresult, -, hcalls⟩ := evaluator.follows_leafTrace condition context context rfl
  refine ⟨⟨evaluator.watch_outcome condition context, evaluator.lookups_eq condition context⟩,
    before, literal, after, hatoms, hbefore, hafter, hhead, fun hsome => ?_, fun hnone => ?_⟩
  · obtain ⟨rest, htried⟩ := List.head?_eq_some_iff.1 hhead
    rw [hcalls, htried, List.flatMap_cons, Function.comp, Registry.called, if_pos hsome]
    rfl
  · have houtcome : evaluator.outcome context literal =
        .error (.unknownPredicate literal.call.function) := by
      rw [outcome, Registry.answer, hnone]
      rfl
    have hends : (evaluator.leafTrace condition context).Ends fun leaf =>
        evaluator.outcome context leaf.1 := by
      rw [leafTrace_eq]
      exact Formula.ends_trace _ _
    obtain ⟨htried, herror⟩ := hends.of_head hhead houtcome
    refine ⟨hresult.trans herror, ?_⟩
    rw [hcalls, htried, List.flatMap_singleton, Function.comp, Registry.called, hnone]
    rfl

/-- The cheapest leaf stands behind two others and in a negated group, and it is written twice.  Its
predicate is not registered. -/
theorem cheapest_of_negated_group :
    let costs : CostTable := (∅ : CostTable).insert "mid" ⟨⟨0x4014000000000000⟩, by decide⟩
      |>.insert "heavy" ⟨.infinity false, by decide⟩
      |>.insert "cheap" ⟨⟨0x3FF0000000000000⟩, by decide⟩
    let registry := (∅ : Registry).registerPredicate "mid" fun _ => .done (.ok false)
    let condition : Condition := .all [Condition.call "heavy", .not (.any [Condition.call "mid",
      Condition.call "cheap", Condition.call "cheap"])]
    let evaluator : Evaluator := ⟨costs, registry⟩
    let context := Context.ofTokens []
    condition.Filled ∧
      (evaluator.leafTrace condition context).tried.head? = some (⟨⟨"cheap", ∅⟩, false⟩, 2) ∧
      (evaluator.evaluate condition context).result = .error (.unknownPredicate "cheap") := by
  intro costs registry condition evaluator context
  have hinner : Formula.Filled (.any [Condition.call "mid", Condition.call "cheap",
      Condition.call "cheap"]) := by
    refine .any (List.cons_ne_nil _ _) fun formula hmem => ?_
    simp only [List.mem_cons, List.not_mem_nil, or_false] at hmem
    rcases hmem with rfl | rfl | rfl <;> exact .atom _
  have hfilled : condition.Filled := by
    refine .all (List.cons_ne_nil _ _) fun formula hmem => ?_
    rcases List.mem_pair.1 hmem with rfl | rfl
    · exact .atom _
    · exact .not hinner
  obtain ⟨-, before, literal, after, hatoms, hbefore, hafter, hhead, -, hnone⟩ :=
    evaluator.evaluate_tries_cheapest_first context hfilled
  have hatoms : [⟨⟨"heavy", ∅⟩, false⟩, ⟨⟨"mid", ∅⟩, false⟩, ⟨⟨"cheap", ∅⟩, false⟩,
      ⟨⟨"cheap", ∅⟩, false⟩] = before ++ literal :: after := hatoms
  -- of the four places only the third one fits
  rcases before with _ | ⟨_, _ | ⟨_, _ | ⟨_, _ | ⟨_, before⟩⟩⟩⟩
  · cases hatoms
    exact absurd (hafter ⟨⟨"cheap", ∅⟩, false⟩ (by simp)) (by decide)
  · cases hatoms
    exact absurd (hafter ⟨⟨"cheap", ∅⟩, false⟩ (by simp)) (by decide)
  · cases hatoms
    exact ⟨hfilled, hhead, (hnone rfl).1⟩
  · cases hatoms
    exact absurd (Nat.le_refl _) (hbefore ⟨⟨"cheap", ∅⟩, false⟩ (by simp))
  · simp at hatoms

end Evaluator

end TokenRules
