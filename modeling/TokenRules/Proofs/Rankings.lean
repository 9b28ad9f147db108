import TokenRules.Evaluator
import TokenRules.NameMap.Lemmas
import TokenRules.Proofs.Estimates

/-!
# Costs up to their ranking

What costs are good for is to be compared, and they are compared as estimates of branches.  An
estimate is a least cost of tips, so two ways to cost the atoms that rank the tips of a formula
alike (`Formula.SameRanking`) put the members of all its groups in one order, ties included
(`ordered_eq_of_sameRanking`), and make one evaluation of it, whatever the tests do
(`evaluate_eq_of_sameRanking`).  Main statement: `evaluate_eq_of_ranking`.
-/

namespace TokenRules

namespace Formula

variable {α : Type} {cost other : α → Cost}

/-- Two ways to cost atoms rank some tips alike. -/
def SameRanking (cost other : α → Cost) (tips : List (Option α)) : Prop :=
  ∀ tip ∈ tips, ∀ against ∈ tips,
    (tipCost cost tip ≤ tipCost cost against ↔ tipCost other tip ≤ tipCost other against)

theorem SameRanking.mono {tips others : List (Option α)} (h : SameRanking cost other tips)
    (hsub : others ⊆ tips) : SameRanking cost other others := fun _ htip _ hagainst =>
  h _ (hsub htip) _ (hsub hagainst)

/-- The tips of a member are tips of the group. -/
theorem tips_subset_of_mem {formulas : List (Formula α)} {formula : Formula α}
    (h : formula ∈ formulas) : formula.tips ⊆ tipsList formulas := fun _ htip => by
  rw [tipsList_eq]
  exact List.mem_flatMap.2 ⟨formula, h, htip⟩

theorem tipsList_subset (formulas : List (Formula α)) :
    tipsList formulas ⊆ if formulas.isEmpty then [none] else tipsList formulas := by
  cases formulas with
  | nil => exact List.nil_subset _
  | cons => exact List.Subset.refl _

/-- Members whose tips are ranked alike are tried in one order. -/
theorem ordered_eq_of_sameRanking {formulas : List (Formula α)}
    (h : SameRanking cost other (tipsList formulas)) :
    ordered cost formulas = ordered other formulas := by
  have hle : ∀ a ∈ formulas, ∀ b ∈ formulas,
      (a.estimate cost ≤ b.estimate cost ↔ a.estimate other ≤ b.estimate other) := by
    intro a ha b hb
    rw [estimate_le_iff, estimate_le_iff]
    refine exists_congr fun tip => and_congr_right fun htip => ?_
    refine forall₂_congr fun against hagainst => ?_
    exact h tip (tips_subset_of_mem ha htip) against (tips_subset_of_mem hb hagainst)
  have hsorted := List.map_mergeSort (f := id) (l := formulas)
    (r := fun a b => decide (a.estimate cost ≤ b.estimate cost))
    (s := fun a b => decide (a.estimate other ≤ b.estimate other))
    fun a ha b hb => decide_eq_decide.2 (hle a ha b hb)
  rw [List.map_id, List.map_id] at hsorted
  rw [ordered_eq_mergeSort, ordered_eq_mergeSort, hsorted]

/-- **Ways to cost atoms that rank the tips of a formula alike make one evaluation of it**, whatever
the tests do. -/
theorem evaluate_eq_of_sameRanking {m : Type → Type} [Monad m] (test : α → m Bool)
    {formula : Formula α} (h : SameRanking cost other formula.tips) :
    formula.evaluate cost test = formula.evaluate other test := by
  induction formula with
  | atom a => rfl
  | not formula ih => rw [evaluate, evaluate, ih h]
  | all formulas ih | any formulas ih =>
    rw [tips] at h
    have hmembers := h.mono (tipsList_subset formulas)
    rw [evaluate, evaluate, cheapestFirst_branches, cheapestFirst_branches,
      ← ordered_eq_of_sameRanking hmembers]
    refine congrArg _ (List.map_congr_left fun formula hmem => ?_)
    have hformula : formula ∈ formulas := mem_ordered.1 hmem
    exact ih formula hformula (hmembers.mono (tips_subset_of_mem hformula))

end Formula

/-! ### Cost tables -/

namespace CostTable

variable {costs others : CostTable} {functions : List String}

/-- The costs of some predicates in two tables side by side, and beside them zero, which predicates
without a cost and groups without members cost in either. -/
def sideBySide (costs others : CostTable) (functions : List String) : List (Cost × Cost) :=
  (.zero, .zero) :: functions.map fun function => (costs.cost function, others.cost function)

/-- Two tables rank some predicates alike, and zero among them. -/
def RankAlike (costs others : CostTable) (functions : List String) : Prop :=
  ∀ a ∈ sideBySide costs others functions, ∀ b ∈ sideBySide costs others functions,
    (a.1 ≤ b.1 ↔ a.2 ≤ b.2)

instance : Decidable (RankAlike costs others functions) :=
  inferInstanceAs (Decidable (∀ a ∈ sideBySide costs others functions, ∀ b ∈ _, _))

/-- The table with every declared cost replaced. -/
def rescale (costs : CostTable) (scale : Cost → Cost) : CostTable where
  entries := costs.entries.map fun entry => (entry.1, scale entry.2)
  ascending := List.pairwise_map.2 costs.ascending

theorem get?_rescale (costs : CostTable) (scale : Cost → Cost) (function : String) :
    (costs.rescale scale).get? function = (costs.get? function).map scale := by
  rw [NameMap.get?, NameMap.get?, rescale, List.find?_map, Option.map_map, Option.map_map]
  rfl

theorem RankAlike.of_eq (h : ∀ function ∈ functions, others.cost function = costs.cost function) :
    RankAlike costs others functions := by
  have hsame : ∀ a ∈ sideBySide costs others functions, a.2 = a.1 :=
    List.forall_mem_cons.2 ⟨rfl, List.forall_mem_map.2 h⟩
  intro a ha b hb
  rw [hsame a ha, hsame b hb]

/-- Costs that are replaced without a change of their ranking, zero staying zero, rank as
before. -/
theorem RankAlike.rescale {scale : Cost → Cost} (hzero : scale .zero = .zero)
    (h : ∀ a ∈ Cost.zero :: functions.map costs.cost, ∀ b ∈ Cost.zero :: functions.map costs.cost,
      (a ≤ b ↔ scale a ≤ scale b)) :
    RankAlike costs (costs.rescale scale) functions := by
  have hcost : ∀ function, (costs.rescale scale).cost function = scale (costs.cost function) := by
    intro function
    rw [cost, cost, get?_rescale]
    cases costs.get? function with
    | none => exact hzero.symm
    | some _ => rfl
  have hscaled : ∀ a ∈ sideBySide costs (costs.rescale scale) functions,
      a.1 ∈ Cost.zero :: functions.map costs.cost ∧ a.2 = scale a.1 := by
    refine List.forall_mem_cons.2 ⟨⟨List.mem_cons_self, hzero.symm⟩, ?_⟩
    exact List.forall_mem_map.2 fun function hmem =>
      ⟨List.mem_cons_of_mem _ (List.mem_map_of_mem hmem), hcost function⟩
  intro a ha b hb
  obtain ⟨hamem, hascaled⟩ := hscaled a ha
  obtain ⟨hbmem, hbscaled⟩ := hscaled b hb
  rw [hascaled, hbscaled]
  exact h _ hamem _ hbmem

theorem cost_foldl_insert {added : List (String × Cost)} {function : String}
    (h : ∀ entry ∈ added, entry.1 ≠ function) :
    cost (added.foldl (fun costs entry => costs.insert entry.1 entry.2) costs) function =
      costs.cost function := by
  have hnone : added.reverse.find? (·.1 == function) = none :=
    List.find?_eq_none.2 fun entry hmem => by simpa using h entry (List.mem_reverse.1 hmem)
  rw [cost, NameMap.get?_foldl_insert, hnone]
  rfl

end CostTable

namespace Evaluator

theorem evaluate_eq_of_rankAlike {costs others : CostTable} {condition : Condition}
    (h : costs.RankAlike others condition.functions) (registry : Registry) :
    evaluate ⟨costs, registry⟩ condition = evaluate ⟨others, registry⟩ condition := by
  have hbeside : ∀ tip ∈ Formula.tips condition,
      (Formula.tipCost (fun literal => costs.cost literal.call.function) tip,
        Formula.tipCost (fun literal => others.cost literal.call.function) tip) ∈
          costs.sideBySide others condition.functions := by
    rintro (_ | literal) htip
    · exact List.mem_cons_self
    · refine List.mem_cons_of_mem _ (List.mem_map.2 ⟨literal.call.function, ?_, rfl⟩)
      exact List.mem_map_of_mem (Formula.mem_atoms_of_mem_tips htip)
  exact Formula.evaluate_eq_of_sameRanking _ fun tip htip against hagainst =>
    h _ (hbeside tip htip) _ (hbeside against hagainst)

/-- **Only the ranking of costs matters.**  Two cost tables that rank the predicates of a condition
alike, and zero among them, make one and the same pass of its evaluation: in every context it calls
the same predicates with the same arguments in the same order, has the same result or the same
error, and leaves the same context.  So it is with costs for predicates that do not occur, and with
all costs replaced, such as multiplied by one factor, in a way that keeps their ranking. -/
theorem evaluate_eq_of_ranking (condition : Condition) :
    (∀ costs others : CostTable, costs.RankAlike others condition.functions → ∀ registry,
      evaluate ⟨costs, registry⟩ condition = evaluate ⟨others, registry⟩ condition) ∧
    (∀ (costs : CostTable) (added : List (String × Cost)),
      (∀ entry ∈ added, entry.1 ∉ condition.functions) → ∀ registry,
        evaluate ⟨costs, registry⟩ condition =
          evaluate ⟨added.foldl (fun costs entry => costs.insert entry.1 entry.2) costs, registry⟩
            condition) ∧
    (∀ (costs : CostTable) (scale : Cost → Cost), scale .zero = .zero →
      (∀ a ∈ Cost.zero :: condition.functions.map costs.cost,
        ∀ b ∈ Cost.zero :: condition.functions.map costs.cost, (a ≤ b ↔ scale a ≤ scale b)) →
      ∀ registry,
        evaluate ⟨costs, registry⟩ condition =
          evaluate ⟨costs.rescale scale, registry⟩ condition) := by
  refine ⟨fun _ _ h registry => evaluate_eq_of_rankAlike h registry,
    fun costs added hadded registry => ?_, fun costs scale hzero hscale registry => ?_⟩
  · refine evaluate_eq_of_rankAlike (.of_eq fun function hmem => ?_) registry
    exact CostTable.cost_foldl_insert fun entry hentry heq => hadded entry hentry (heq ▸ hmem)
  · exact evaluate_eq_of_rankAlike (.rescale hzero hscale) registry

/-- Costs 1, 2 and -0 rank like 5, infinity and none, also beside a group without members. -/
theorem evaluate_of_costs_ranked_alike :
    let costs : CostTable := ((∅ : CostTable).insert "a" ⟨⟨0x3FF0000000000000⟩, by decide⟩
      |>.insert "b" ⟨⟨0x4000000000000000⟩, by decide⟩).insert "c" ⟨⟨0x8000000000000000⟩, by decide⟩
    let others : CostTable := (∅ : CostTable).insert "a" ⟨⟨0x4014000000000000⟩, by decide⟩
      |>.insert "b" ⟨.infinity false, by decide⟩
    let condition : Condition := .any [Condition.call "b", .all [],
      .all [Condition.call "a", .not (Condition.call "c")]]
    costs.RankAlike others condition.functions ∧
      ∀ registry, evaluate ⟨costs, registry⟩ condition = evaluate ⟨others, registry⟩ condition := by
  intro costs others condition
  have hranked : costs.RankAlike others condition.functions := by decide
  exact ⟨hranked, (evaluate_eq_of_ranking condition).1 costs others hranked⟩

end Evaluator

end TokenRules
