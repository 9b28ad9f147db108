import TokenRules.Proofs.FormulaTree

/-!
# Evaluations side by side

One formula evaluated in two monads, with tests that correspond: if a relation
between the two monads carries over from the parts of a computation to the whole
(`Simulation`), the evaluations correspond as well (`Simulation.evaluate`).  The
order in which the members of a group are tried is the same on both sides, since
it depends on their costs only (`cheapestFirst_branches`).
-/

namespace TokenRules

variable {α β ι : Type}

/-! ### Order -/

theorem mem_cheapestFirst {items : List (Cost × β)} {b : β} :
    b ∈ cheapestFirst items ↔ ∃ cost, (cost, b) ∈ items := by
  simp [cheapestFirst]

/-- Of two branches the second is tried first only if it is cheaper. -/
theorem cheapestFirst_pair (first second : Cost × β) :
    cheapestFirst [first, second] =
      if first.1 ≤ second.1 then [first.2, second.2] else [second.2, first.2] := by
  have hmerge : [first, second].mergeSort (fun a b => decide (a.1 ≤ b.1)) =
      [first].merge [second] fun a b => decide (a.1 ≤ b.1) := by
    rw [List.mergeSort]
    simp
  rw [cheapestFirst, hmerge]
  split <;> rename_i h <;> simp [h]

/-- The order depends on the costs only. -/
theorem map_cheapestFirst {γ : Type} (f : β → γ) (items : List (Cost × β)) :
    (cheapestFirst items).map f = cheapestFirst (items.map fun item => (item.1, f item.2)) := by
  unfold cheapestFirst
  rw [← List.map_mergeSort (r := fun a b => decide (a.1 ≤ b.1)) fun _ _ _ _ => rfl, List.map_map,
    List.map_map]
  rfl

namespace Formula

/-- The members of a group in the order in which they are tried. -/
def ordered (cost : α → Cost) (formulas : List (Formula α)) : List (Formula α) :=
  cheapestFirst (formulas.map fun formula => (formula.estimate cost, formula))

@[simp] theorem mem_ordered {cost : α → Cost} {formulas : List (Formula α)} {formula : Formula α} :
    formula ∈ ordered cost formulas ↔ formula ∈ formulas := by
  simp [ordered, mem_cheapestFirst]

theorem cheapestFirst_branches {m : Type → Type} [Monad m] (cost : α → Cost) (test : α → m Bool)
    (formulas : List (Formula α)) :
    cheapestFirst (branches cost test formulas) =
      (ordered cost formulas).map (evaluate cost test) := by
  rw [ordered, map_cheapestFirst, branches_eq, List.map_map]
  rfl

end Formula

/-! ### Related monads -/

/-- A relation between computations that carries over from the parts to the whole. -/
structure Simulation (m n : Type → Type) [Monad m] [Monad n]
    (R : ∀ {α : Type}, m α → n α → Prop) : Prop where
  pure : ∀ {α : Type} (a : α), R (pure a : m α) (pure a : n α)
  bind : ∀ {α β : Type} {x : m α} {y : n α} {f : α → m β} {g : α → n β},
    R x y → (∀ a, R (f a) (g a)) → R (x >>= f) (y >>= g)

namespace Simulation

variable {m n : Type → Type} [Monad m] [Monad n] {R : ∀ {α : Type}, m α → n α → Prop}
  (hR : Simulation m n R)
include hR

theorem conjunction {test : ι → m Bool} {other : ι → n Bool} {items : List ι}
    (h : ∀ item ∈ items, R (test item) (other item)) :
    R (conjunction (items.map test)) (conjunction (items.map other)) := by
  induction items with
  | nil => exact hR.pure true
  | cons item rest ih =>
    obtain ⟨hitem, hrest⟩ := List.forall_mem_cons.1 h
    refine hR.bind hitem fun holds => ?_
    cases holds with
    | true => exact ih hrest
    | false => exact hR.pure false

theorem disjunction {test : ι → m Bool} {other : ι → n Bool} {items : List ι}
    (h : ∀ item ∈ items, R (test item) (other item)) :
    R (disjunction (items.map test)) (disjunction (items.map other)) := by
  induction items with
  | nil => exact hR.pure false
  | cons item rest ih =>
    obtain ⟨hitem, hrest⟩ := List.forall_mem_cons.1 h
    refine hR.bind hitem fun holds => ?_
    cases holds with
    | true => exact hR.pure true
    | false => exact ih hrest

/-- **Evaluations correspond if the tests of atoms do.** -/
theorem evaluate {cost : α → Cost} (test : α → m Bool) (other : α → n Bool) {formula : Formula α}
    (h : ∀ a ∈ formula.atoms, R (test a) (other a)) :
    R (formula.evaluate cost test) (formula.evaluate cost other) := by
  induction formula with
  | atom a => exact h a List.mem_cons_self
  | not formula ih => exact hR.bind (ih h) fun holds => hR.pure (!holds)
  | all formulas ih =>
    rw [Formula.evaluate, Formula.evaluate, Formula.cheapestFirst_branches,
      Formula.cheapestFirst_branches]
    refine hR.conjunction fun formula hmem => ?_
    have hformula : formula ∈ formulas := Formula.mem_ordered.1 hmem
    exact ih formula hformula fun a ha => h a (Formula.mem_atoms_all.2 ⟨formula, hformula, ha⟩)
  | any formulas ih =>
    rw [Formula.evaluate, Formula.evaluate, Formula.cheapestFirst_branches,
      Formula.cheapestFirst_branches]
    refine hR.disjunction fun formula hmem => ?_
    have hformula : formula ∈ formulas := Formula.mem_ordered.1 hmem
    exact ih formula hformula fun a ha => h a (Formula.mem_atoms_any.2 ⟨formula, hformula, ha⟩)

end Simulation

end TokenRules
