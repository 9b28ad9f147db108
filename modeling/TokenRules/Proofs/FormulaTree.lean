import Mathlib.Data.List.Basic
import TokenRules.Formula.Evaluation

/-!
# Formulas as trees

`Formula` is a tree with lists of subtrees, and its functions come in pairs, one
for a formula and one for a list.  This file gives the functions on lists in
terms of `List.map` and `List.flatMap`, and the induction on formulas that goes
with them: in the group cases the claim holds of every member.

`numbered` puts each atom beside its place from left to right, so that two
occurrences of one atom can be told apart (`atoms_numberedFrom`,
`map_fst_numberedFrom`).  Evaluation does not look at more than the costs and the
tests of the atoms (`evaluate_map`), so it does not notice the numbers.
-/

namespace TokenRules.Formula

variable {α β γ : Type}

/-- Induction on formulas, where the members of a group are taken as a list. -/
@[induction_eliminator]
theorem ind {motive : Formula α → Prop} (atom : ∀ a, motive (.atom a))
    (not : ∀ formula, motive formula → motive (.not formula))
    (all : ∀ formulas, (∀ formula ∈ formulas, motive formula) → motive (.all formulas))
    (any : ∀ formulas, (∀ formula ∈ formulas, motive formula) → motive (.any formulas))
    (formula : Formula α) : motive formula := by
  refine @Formula.rec α motive (fun formulas => ∀ formula ∈ formulas, motive formula) atom not all
    any ?_ ?_ formula
  · intro formula h
    cases h
  · intro head rest hhead hrest formula h
    rcases List.mem_cons.1 h with rfl | h
    · exact hhead
    · exact hrest formula h

/-! ### The functions on lists -/

@[simp] theorem mapList_eq (f : α → β) (formulas : List (Formula α)) :
    mapList f formulas = formulas.map (map f) := by
  induction formulas with
  | nil => rfl
  | cons head rest ih => rw [mapList, ih, List.map_cons]

@[simp] theorem atomsList_eq (formulas : List (Formula α)) :
    atomsList formulas = formulas.flatMap atoms := by
  induction formulas with
  | nil => rfl
  | cons head rest ih => rw [atomsList, ih, List.flatMap_cons]

@[simp] theorem values_eq (formulas : List (Formula Bool)) :
    values formulas = formulas.map value := by
  induction formulas with
  | nil => rfl
  | cons head rest ih => rw [values, ih, List.map_cons]

@[simp] theorem estimates_eq (cost : α → Cost) (formulas : List (Formula α)) :
    estimates cost formulas = formulas.map (estimate cost) := by
  induction formulas with
  | nil => rfl
  | cons head rest ih => rw [estimates, ih, List.map_cons]

@[simp] theorem branches_eq {m : Type → Type} [Monad m] (cost : α → Cost) (test : α → m Bool)
    (formulas : List (Formula α)) :
    branches cost test formulas =
      formulas.map fun formula => (formula.estimate cost, formula.evaluate cost test) := by
  induction formulas with
  | nil => rfl
  | cons head rest ih => rw [branches, ih, List.map_cons]

theorem mem_atoms_all {formulas : List (Formula α)} {a : α} :
    a ∈ (all formulas).atoms ↔ ∃ formula ∈ formulas, a ∈ formula.atoms := by
  rw [atoms, atomsList_eq, List.mem_flatMap]

theorem mem_atoms_any {formulas : List (Formula α)} {a : α} :
    a ∈ (any formulas).atoms ↔ ∃ formula ∈ formulas, a ∈ formula.atoms := mem_atoms_all

/-- Only the atoms that occur are replaced. -/
theorem map_congr {f g : α → β} {formula : Formula α} (h : ∀ a ∈ formula.atoms, f a = g a) :
    formula.map f = formula.map g := by
  induction formula with
  | atom a => exact congrArg atom (h a List.mem_cons_self)
  | not formula ih => exact congrArg not (ih h)
  | all formulas ih | any formulas ih =>
    simp only [map, mapList_eq]
    refine congrArg _ (List.map_congr_left fun formula hmem => ?_)
    exact ih formula hmem fun a ha => h a (mem_atoms_all.2 ⟨formula, hmem, ha⟩)

/-! ### Values -/

theorem value_all (formulas : List (Formula Bool)) : (all formulas).value = formulas.all value := by
  rw [value, values_eq, List.all_map]
  rfl

theorem value_any (formulas : List (Formula Bool)) : (any formulas).value = formulas.any value := by
  rw [value, values_eq, List.any_map]
  rfl

/-- A conjunction over truth values of atoms is that of the truth values of its members. -/
theorem value_map_all (truth : α → Bool) (formulas : List (Formula α)) :
    ((all formulas).map truth).value =
      (formulas.map fun formula => (formula.map truth).value).all id := by
  rw [map, mapList_eq, value_all, List.all_map, List.all_map]
  rfl

theorem value_map_any (truth : α → Bool) (formulas : List (Formula α)) :
    ((any formulas).map truth).value =
      (formulas.map fun formula => (formula.map truth).value).any id := by
  rw [map, mapList_eq, value_any, List.any_map, List.any_map]
  rfl

/-! ### Places of atoms -/

mutual

/-- Each atom beside its place, counted from left to right. -/
def numberedFrom (start : Nat) : Formula α → Formula (α × Nat)
  | .atom a => .atom (a, start)
  | .not formula => .not (formula.numberedFrom start)
  | .all formulas => .all (numberedListFrom start formulas)
  | .any formulas => .any (numberedListFrom start formulas)

def numberedListFrom (start : Nat) : List (Formula α) → List (Formula (α × Nat))
  | [] => []
  | formula :: rest =>
    formula.numberedFrom start :: numberedListFrom (start + formula.atoms.length) rest

end

/-- Each atom beside its place, where the leftmost atom is at place 0. -/
def numbered (formula : Formula α) : Formula (α × Nat) := formula.numberedFrom 0

theorem atoms_numberedFrom (formula : Formula α) (start : Nat) :
    (formula.numberedFrom start).atoms = formula.atoms.zipIdx start := by
  induction formula generalizing start with
  | atom a => rfl
  | not formula ih => rw [numberedFrom, atoms, atoms, ih]
  | all formulas ih | any formulas ih =>
    simp only [numberedFrom, atoms, atomsList_eq]
    induction formulas generalizing start with
    | nil => rfl
    | cons head rest ihRest =>
      rw [numberedListFrom, List.flatMap_cons, List.flatMap_cons, ih head List.mem_cons_self,
        ihRest fun formula h => ih formula (List.mem_cons_of_mem _ h), List.zipIdx_append]

theorem map_fst_numberedFrom (formula : Formula α) (start : Nat) :
    (formula.numberedFrom start).map Prod.fst = formula := by
  induction formula generalizing start with
  | atom a => rfl
  | not formula ih => rw [numberedFrom, map, ih]
  | all formulas ih | any formulas ih =>
    simp only [numberedFrom, map, mapList_eq]
    congr 1
    induction formulas generalizing start with
    | nil => rfl
    | cons head rest ihRest =>
      rw [numberedListFrom, List.map_cons, ih head List.mem_cons_self,
        ihRest fun formula h => ih formula (List.mem_cons_of_mem _ h)]

theorem mem_atoms_numbered {formula : Formula α} {a : α} {place : Nat} :
    (a, place) ∈ formula.numbered.atoms ↔ formula.atoms[place]? = some a := by
  rw [numbered, atoms_numberedFrom, List.mem_zipIdx_iff_getElem?]

@[simp] theorem map_fst_numbered (formula : Formula α) : formula.numbered.map Prod.fst = formula :=
  map_fst_numberedFrom formula 0

/-! ### Evaluation under a map -/

theorem estimate_map (cost : β → Cost) (f : α → β) (formula : Formula α) :
    (formula.map f).estimate cost = formula.estimate (cost ∘ f) := by
  induction formula with
  | atom a => rfl
  | not formula ih => rw [map, estimate, estimate, ih]
  | all formulas ih | any formulas ih =>
    simp only [map, estimate, mapList_eq, estimates_eq, List.map_map]
    exact congrArg _ (List.map_congr_left ih)

/-- Evaluation looks at the costs and the tests of atoms and at nothing else of them. -/
theorem evaluate_map {m : Type → Type} [Monad m] (cost : β → Cost) (test : β → m Bool) (f : α → β)
    (formula : Formula α) :
    (formula.map f).evaluate cost test = formula.evaluate (cost ∘ f) (test ∘ f) := by
  induction formula with
  | atom a => rfl
  | not formula ih => rw [map, evaluate, evaluate, ih]
  | all formulas ih | any formulas ih =>
    simp only [map, evaluate, mapList_eq, branches_eq, List.map_map]
    refine congrArg _ (congrArg _ (List.map_congr_left fun formula h => ?_))
    exact Prod.ext (estimate_map cost f formula) (ih formula h)

/-- Evaluation does not notice the places. -/
theorem evaluate_numbered {m : Type → Type} [Monad m] (cost : α → Cost) (test : α → m Bool)
    (formula : Formula α) :
    formula.numbered.evaluate (cost ∘ Prod.fst) (test ∘ Prod.fst) = formula.evaluate cost test := by
  rw [← evaluate_map, map_fst_numbered]

end TokenRules.Formula
