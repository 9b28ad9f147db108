import Mathlib.Data.List.ReduceOption
import TokenRules.Proofs.WrittenOrder

/-!
# What an estimate is taken from

The estimate of a formula is a least cost over the whole of its tree: `tips` lists, from left to
right and at all depths, the atoms and the groups without members, which cost nothing
(`isLeastOf_estimate`).  So the question which of two formulas is tried first is a question about
the costs of their tips only, `estimate_le_iff`.
-/

namespace TokenRules

/-! ### Least costs of lists -/

namespace Cost

/-- The cost ranks with one cost of a list, and none of the list ranks below it. -/
structure IsLeastOf (cost : Cost) (costs : List Cost) : Prop where
  attained : ∃ other ∈ costs, other.rank = cost.rank
  le : ∀ other ∈ costs, cost ≤ other

theorem isLeastOf_least {costs : List Cost} (h : costs ≠ []) : (least costs).IsLeastOf costs := by
  have hrank := rank_least costs
  cases hmin : (costs.map rank).min? with
  | none => exact absurd (List.map_eq_nil_iff.1 (List.min?_eq_none_iff.1 hmin)) h
  | some lowest =>
    obtain ⟨hmem, hle⟩ := List.min?_eq_some_iff.1 hmin
    rw [hmin, Option.getD_some] at hrank
    constructor
    · obtain ⟨other, hother, heq⟩ := List.mem_map.1 hmem
      exact ⟨other, hother, heq.trans hrank.symm⟩
    · intro other hother
      exact Nat.le_trans (Nat.le_of_eq hrank) (hle _ (List.mem_map_of_mem hother))

section IsLeastOf

variable {cost other : Cost} {costs others : List Cost}

/-- Which of two least costs is the lower one is a question about the costs that they are taken
from. -/
theorem IsLeastOf.le_iff (h : cost.IsLeastOf costs) (hother : other.IsLeastOf others) :
    cost ≤ other ↔ ∃ a ∈ costs, ∀ b ∈ others, a ≤ b := by
  constructor
  · intro hle
    obtain ⟨a, ha, hrank⟩ := h.attained
    exact ⟨a, ha, fun b hb =>
      Nat.le_trans (Nat.le_of_eq hrank) (Nat.le_trans hle (hother.le b hb))⟩
  · rintro ⟨a, ha, hle⟩
    obtain ⟨b, hb, hrank⟩ := hother.attained
    exact Nat.le_trans (h.le a ha) (Nat.le_trans (hle b hb) (Nat.le_of_eq hrank))

/-- The least of least costs is least of all. -/
theorem IsLeastOf.flatMap {ι : Type} {items : List ι} {lowest : ι → Cost} {below : ι → List Cost}
    (h : cost.IsLeastOf (items.map lowest))
    (hitems : ∀ item ∈ items, (lowest item).IsLeastOf (below item)) :
    cost.IsLeastOf (items.flatMap below) := by
  constructor
  · obtain ⟨_, hmem, hrank⟩ := h.attained
    obtain ⟨item, hitem, rfl⟩ := List.mem_map.1 hmem
    obtain ⟨a, ha, heq⟩ := (hitems item hitem).attained
    exact ⟨a, List.mem_flatMap.2 ⟨item, hitem, ha⟩, heq.trans hrank⟩
  · intro a ha
    obtain ⟨item, hitem, hbelow⟩ := List.mem_flatMap.1 ha
    exact Nat.le_trans (h.le _ (List.mem_map_of_mem hitem)) ((hitems item hitem).le a hbelow)

end IsLeastOf

end Cost

namespace Formula

variable {α : Type}

/-! ### Tips -/

mutual

/-- Where a formula ends, from left to right: its atoms, and `none` for every group without
members. -/
def tips : Formula α → List (Option α)
  | .atom a => [some a]
  | .not formula => formula.tips
  | .all formulas => if formulas.isEmpty then [none] else tipsList formulas
  | .any formulas => if formulas.isEmpty then [none] else tipsList formulas

def tipsList : List (Formula α) → List (Option α)
  | [] => []
  | formula :: rest => formula.tips ++ tipsList rest

end

@[simp] theorem tipsList_eq (formulas : List (Formula α)) :
    tipsList formulas = formulas.flatMap tips := by
  induction formulas with
  | nil => rfl
  | cons head rest ih => rw [tipsList, ih, List.flatMap_cons]

/-- What a tip costs: an empty group costs nothing. -/
def tipCost (cost : α → Cost) (tip : Option α) : Cost := tip.elim .zero cost

/-- The tips that are atoms are the atoms of the formula. -/
theorem reduceOption_tips (formula : Formula α) : formula.tips.reduceOption = formula.atoms := by
  induction formula with
  | atom a => rfl
  | not formula ih => exact ih
  | all formulas ih | any formulas ih =>
    rw [tips, atoms, atomsList_eq, tipsList_eq]
    cases formulas with
    | nil => rfl
    | cons head rest =>
      rw [if_neg (by simp), List.reduceOption, List.filterMap_flatMap]
      exact List.flatMap_congr ih

theorem mem_atoms_of_mem_tips {formula : Formula α} {a : α} (h : some a ∈ formula.tips) :
    a ∈ formula.atoms := by
  rw [← reduceOption_tips]
  exact List.reduceOption_mem_iff.2 h

/-! ### Estimates -/

variable {cost : α → Cost}

/-- **An estimate is a least cost over the whole tree.** -/
theorem isLeastOf_estimate (cost : α → Cost) (formula : Formula α) :
    (formula.estimate cost).IsLeastOf (formula.tips.map (tipCost cost)) := by
  induction formula with
  | atom a => exact ⟨⟨cost a, List.mem_cons_self, rfl⟩, fun _ h =>
      Nat.le_of_eq (congrArg Cost.rank (List.mem_singleton.1 h).symm)⟩
  | not formula ih => exact ih
  | all formulas ih | any formulas ih =>
    rw [estimate, estimates_eq, tips, tipsList_eq]
    cases formulas with
    | nil => exact ⟨⟨.zero, List.mem_cons_self, rfl⟩, fun _ h =>
        Nat.le_of_eq (congrArg Cost.rank (List.mem_singleton.1 h).symm)⟩
    | cons head rest =>
      rw [if_neg (by simp), List.map_flatMap]
      exact (Cost.isLeastOf_least (List.cons_ne_nil _ _)).flatMap ih

/-- Of two formulas, which is tried first is decided by the costs of their tips. -/
theorem estimate_le_iff {formula other : Formula α} :
    formula.estimate cost ≤ other.estimate cost ↔
      ∃ tip ∈ formula.tips, ∀ against ∈ other.tips, tipCost cost tip ≤ tipCost cost against := by
  rw [(isLeastOf_estimate cost formula).le_iff (isLeastOf_estimate cost other)]
  constructor
  · rintro ⟨_, hmem, hle⟩
    obtain ⟨tip, htip, rfl⟩ := List.mem_map.1 hmem
    exact ⟨tip, htip, List.forall_mem_map.1 hle⟩
  · rintro ⟨tip, htip, hle⟩
    exact ⟨_, List.mem_map_of_mem htip, List.forall_mem_map.2 hle⟩

end Formula

end TokenRules
