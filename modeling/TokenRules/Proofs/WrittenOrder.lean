import Mathlib.Data.List.Perm.Basic
import TokenRules.Proofs.Simulation

/-!
# Formulas in the order of their costs

Sorting while a formula is evaluated against sorting beforehand.  `presort` puts the members of
every group in ascending order of their estimates, once and at all depths; `evaluateAsWritten`
evaluates from left to right and sorts nothing.  An estimate does not notice the order of a group
(`estimate_presort`), so the members of a group and the sorted members come in one order
(`ordered_map`), and evaluation by cost is evaluation of the sorted formula as it is written,
`evaluate_eq_presort`.  To sort twice changes nothing (`presort_presort`), and where no atom costs
anything, nothing is sorted at all (`presort_of_free`).
-/

namespace TokenRules

/-! ### Least costs -/

namespace Cost

theorem rank_min (a b : Cost) : (Cost.min a b).rank = Min.min a.rank b.rank := by
  have hle : a ≤ b ↔ a.rank ≤ b.rank := Iff.rfl
  rw [Cost.min, Nat.min_def]
  by_cases h : a.rank ≤ b.rank
  · rw [if_pos (hle.2 h), if_pos h]
  · rw [if_neg fun hab => h (hle.1 hab), if_neg h]

theorem rank_least (costs : List Cost) :
    (least costs).rank = (costs.map rank).min?.getD 0 := by
  cases costs with
  | nil => rfl
  | cons cost rest =>
    have hfold : (rest.map rank).foldl Min.min cost.rank = (rest.foldl min cost).rank := by
      rw [List.foldl_map]
      exact List.foldl_hom rank fun a b => (rank_min a b).symm
    rw [List.map_cons, List.min?_cons', hfold]
    rfl

/-- The least cost hangs on which ranks there are, not on their order. -/
theorem rank_least_of_perm {costs others : List Cost}
    (h : (costs.map rank).Perm (others.map rank)) : (least costs).rank = (least others).rank := by
  rw [rank_least, rank_least]
  cases hmin : (others.map rank).min? with
  | none =>
    have hothers : others.map rank = [] := List.min?_eq_none_iff.1 hmin
    rw [hothers] at h
    rw [h.eq_nil]
    rfl
  | some least =>
    obtain ⟨hmem, hle⟩ := List.min?_eq_some_iff.1 hmin
    have hcosts : (costs.map rank).min? = some least :=
      List.min?_eq_some_iff.2 ⟨h.mem_iff.2 hmem, fun rank hrank => hle rank (h.mem_iff.1 hrank)⟩
    rw [hcosts]

end Cost

namespace Formula

variable {α : Type} {cost : α → Cost}

/-! ### Order of a group -/

theorem ordered_eq_mergeSort (cost : α → Cost) (formulas : List (Formula α)) :
    ordered cost formulas =
      formulas.mergeSort fun a b => decide (a.estimate cost ≤ b.estimate cost) := by
  have hpairs := List.map_mergeSort (l := formulas)
    (r := fun a b => decide (a.estimate cost ≤ b.estimate cost))
    (s := fun a b : Cost × Formula α => decide (a.1 ≤ b.1))
    (f := fun formula => (formula.estimate cost, formula)) fun _ _ _ _ => rfl
  rw [ordered, cheapestFirst, ← hpairs, List.map_map]
  exact List.map_id _

theorem ordered_perm (cost : α → Cost) (formulas : List (Formula α)) :
    (ordered cost formulas).Perm formulas := by
  rw [ordered_eq_mergeSort]
  exact List.mergeSort_perm _ _

/-- Members in ascending order of their estimates stay where they are. -/
theorem ordered_of_pairwise {formulas : List (Formula α)}
    (h : formulas.Pairwise fun a b => a.estimate cost ≤ b.estimate cost) :
    ordered cost formulas = formulas := by
  rw [ordered_eq_mergeSort]
  exact List.mergeSort_of_pairwise (h.imp decide_eq_true)

theorem estimate_trans (cost : α → Cost) (a b c : Formula α) :
    decide (a.estimate cost ≤ b.estimate cost) = true →
      decide (b.estimate cost ≤ c.estimate cost) = true →
        decide (a.estimate cost ≤ c.estimate cost) = true := fun hab hbc =>
  decide_eq_true (Nat.le_trans (of_decide_eq_true hab) (of_decide_eq_true hbc))

theorem estimate_total (cost : α → Cost) (a b : Formula α) :
    (decide (a.estimate cost ≤ b.estimate cost) ||
      decide (b.estimate cost ≤ a.estimate cost)) = true := by
  rw [Bool.or_eq_true]
  exact (Nat.le_total (a.estimate cost).rank (b.estimate cost).rank).imp decide_eq_true
    decide_eq_true

theorem pairwise_ordered (cost : α → Cost) (formulas : List (Formula α)) :
    (ordered cost formulas).Pairwise fun a b => a.estimate cost ≤ b.estimate cost := by
  rw [ordered_eq_mergeSort]
  exact (List.pairwise_mergeSort (estimate_trans cost) (estimate_total cost) formulas).imp
    of_decide_eq_true

@[simp] theorem ordered_ordered (cost : α → Cost) (formulas : List (Formula α)) :
    ordered cost (ordered cost formulas) = ordered cost formulas :=
  ordered_of_pairwise (pairwise_ordered cost formulas)

/-- What keeps the estimates of the members keeps their order. -/
theorem ordered_map {f : Formula α → Formula α} {formulas : List (Formula α)}
    (h : ∀ formula ∈ formulas, ((f formula).estimate cost).rank = (formula.estimate cost).rank) :
    ordered cost (formulas.map f) = (ordered cost formulas).map f := by
  rw [ordered_eq_mergeSort, ordered_eq_mergeSort]
  refine (List.map_mergeSort fun a ha b hb => ?_).symm
  have hle : (f a).estimate cost ≤ (f b).estimate cost ↔ a.estimate cost ≤ b.estimate cost := by
    show ((f a).estimate cost).rank ≤ ((f b).estimate cost).rank ↔ _
    rw [h a ha, h b hb]
    exact Iff.rfl
  exact (decide_eq_decide.2 hle).symm

/-! ### Evaluation from left to right -/

section AsWritten

variable {m : Type → Type} [Monad m]

mutual

/-- Evaluate a formula with the members of each group from left to right, whatever they cost. -/
def evaluateAsWritten (test : α → m Bool) : Formula α → m Bool
  | .atom a => test a
  | .not formula => do return !(← formula.evaluateAsWritten test)
  | .all formulas => conjunction (evaluationsAsWritten test formulas)
  | .any formulas => disjunction (evaluationsAsWritten test formulas)

def evaluationsAsWritten (test : α → m Bool) : List (Formula α) → List (m Bool)
  | [] => []
  | formula :: rest => formula.evaluateAsWritten test :: evaluationsAsWritten test rest

end

@[simp] theorem evaluationsAsWritten_eq (test : α → m Bool) (formulas : List (Formula α)) :
    evaluationsAsWritten test formulas = formulas.map (evaluateAsWritten test) := by
  induction formulas with
  | nil => rfl
  | cons head rest ih => rw [evaluationsAsWritten, ih, List.map_cons]

end AsWritten

/-- Evaluations from left to right correspond if the tests of atoms do. -/
theorem evaluateAsWritten_of_simulation {m n : Type → Type} [Monad m] [Monad n]
    {R : ∀ {α : Type}, m α → n α → Prop} (hR : Simulation m n R) (test : α → m Bool)
    (other : α → n Bool) {formula : Formula α} (h : ∀ a ∈ formula.atoms, R (test a) (other a)) :
    R (formula.evaluateAsWritten test) (formula.evaluateAsWritten other) := by
  induction formula with
  | atom a => exact h a List.mem_cons_self
  | not formula ih => exact hR.bind (ih h) fun holds => hR.pure (!holds)
  | all formulas ih =>
    rw [evaluateAsWritten, evaluateAsWritten, evaluationsAsWritten_eq, evaluationsAsWritten_eq]
    exact hR.conjunction fun formula hmem =>
      ih formula hmem fun a ha => h a (mem_atoms_all.2 ⟨formula, hmem, ha⟩)
  | any formulas ih =>
    rw [evaluateAsWritten, evaluateAsWritten, evaluationsAsWritten_eq, evaluationsAsWritten_eq]
    exact hR.disjunction fun formula hmem =>
      ih formula hmem fun a ha => h a (mem_atoms_any.2 ⟨formula, hmem, ha⟩)

/-! ### Formulas sorted beforehand -/

mutual

/-- Put the members of every group in ascending order of their estimated costs, those of equal cost
in the order given. -/
def presort (cost : α → Cost) : Formula α → Formula α
  | .atom a => .atom a
  | .not formula => .not (formula.presort cost)
  | .all formulas => .all (ordered cost (presortList cost formulas))
  | .any formulas => .any (ordered cost (presortList cost formulas))

def presortList (cost : α → Cost) : List (Formula α) → List (Formula α)
  | [] => []
  | formula :: rest => formula.presort cost :: presortList cost rest

end

@[simp] theorem presortList_eq (cost : α → Cost) (formulas : List (Formula α)) :
    presortList cost formulas = formulas.map (presort cost) := by
  induction formulas with
  | nil => rfl
  | cons head rest ih => rw [presortList, ih, List.map_cons]

/-- An estimate does not notice the order of a group. -/
theorem estimate_presort (cost : α → Cost) (formula : Formula α) :
    ((formula.presort cost).estimate cost).rank = (formula.estimate cost).rank := by
  induction formula with
  | atom a => rfl
  | not formula ih => exact ih
  | all formulas ih | any formulas ih =>
    have hsorted := (ordered_perm cost (formulas.map (presort cost))).map
      fun formula => (formula.estimate cost).rank
    have hranks : (formulas.map (presort cost)).map (fun formula => (formula.estimate cost).rank) =
        formulas.map fun formula => (formula.estimate cost).rank := by
      rw [List.map_map]
      exact List.map_congr_left ih
    rw [presort, estimate, estimate, estimates_eq, estimates_eq, presortList_eq]
    refine Cost.rank_least_of_perm ?_
    rw [List.map_map, List.map_map]
    exact hranks ▸ hsorted

theorem ordered_map_presort (cost : α → Cost) (formulas : List (Formula α)) :
    ordered cost (formulas.map (presort cost)) = (ordered cost formulas).map (presort cost) :=
  ordered_map fun formula _ => estimate_presort cost formula

/-- **Evaluation by cost is evaluation of the sorted formula as it is written**, in any monad. -/
theorem evaluate_eq_presort {m : Type → Type} [Monad m] (cost : α → Cost) (test : α → m Bool)
    (formula : Formula α) :
    formula.evaluate cost test = (formula.presort cost).evaluateAsWritten test := by
  induction formula with
  | atom a => rfl
  | not formula ih => rw [presort, evaluate, evaluateAsWritten, ih]
  | all formulas ih | any formulas ih =>
    rw [presort, evaluate, evaluateAsWritten, cheapestFirst_branches, evaluationsAsWritten_eq,
      presortList_eq, ordered_map_presort, List.map_map]
    exact congrArg _ (List.map_congr_left fun formula hmem => ih formula (mem_ordered.1 hmem))

@[simp] theorem presort_presort (cost : α → Cost) (formula : Formula α) :
    (formula.presort cost).presort cost = formula.presort cost := by
  induction formula with
  | atom a => rfl
  | not formula ih => rw [presort, presort, ih]
  | all formulas ih | any formulas ih =>
    have hmembers : (formulas.map (presort cost)).map (presort cost) =
        formulas.map (presort cost) := by
      rw [List.map_map]
      exact List.map_congr_left ih
    rw [presort, presort, presortList_eq, presortList_eq, ordered_map_presort, ordered_ordered,
      ← ordered_map_presort, hmembers]

theorem rank_estimate_of_free (h : ∀ a, (cost a).rank = 0) (formula : Formula α) :
    (formula.estimate cost).rank = 0 := by
  induction formula with
  | atom a => exact h a
  | not formula ih => exact ih
  | all formulas ih | any formulas ih =>
    rw [estimate, estimates_eq, Cost.rank_least, List.map_map]
    cases hmin : (formulas.map (Cost.rank ∘ estimate cost)).min? with
    | none => rfl
    | some least =>
      obtain ⟨formula, hmem, rfl⟩ := List.mem_map.1 (List.min?_eq_some_iff.1 hmin).1
      exact ih formula hmem

/-- Where no atom costs anything, a formula is sorted as it is written. -/
theorem presort_of_free (h : ∀ a, (cost a).rank = 0) (formula : Formula α) :
    formula.presort cost = formula := by
  induction formula with
  | atom a => rfl
  | not formula ih => rw [presort, ih]
  | all formulas ih | any formulas ih =>
    have hle : ∀ a b : Formula α, a.estimate cost ≤ b.estimate cost := fun a b =>
      Nat.le_of_eq ((rank_estimate_of_free h a).trans (rank_estimate_of_free h b).symm)
    rw [presort, presortList_eq, List.map_congr_left ih, List.map_id',
      ordered_of_pairwise (List.pairwise_of_forall hle)]

/-- Sorting moves the atoms about and leaves none out. -/
theorem atoms_presort_perm (cost : α → Cost) (formula : Formula α) :
    (formula.presort cost).atoms.Perm formula.atoms := by
  induction formula with
  | atom a => exact .refl _
  | not formula ih => exact ih
  | all formulas ih | any formulas ih =>
    rw [presort, atoms, atoms, atomsList_eq, atomsList_eq, presortList_eq]
    refine ((ordered_perm cost _).flatMap_right atoms).trans ?_
    rw [List.flatMap_map]
    exact List.Perm.flatMap_left formulas ih

end Formula

end TokenRules
