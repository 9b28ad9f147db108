import TokenRules.Proofs.Estimates

/-!
# Estimates in plain numbers

A `Cost` carries the proof that it is one, so nothing can go wrong with it.  What is known of a
float is less: it may be a NaN, which compares with nothing (`Binary64.compare?`), and of two zeros
a minimum may be either (`Binary64.IsMinimum`).  Here estimates are made and formulas are sorted
with floats as they are (`numberEstimate`, `lightestFirst`).  Where every atom has a number that is
a cost this is no different: a number that stands for a cost is no NaN and ranks like the cost
(`Cost.ShownBy`), minima of such numbers stand for least costs (`shownBy_numberEstimate`), and
comparison always finds an order, that of the costs (`compare?_estimates`).
-/

namespace TokenRules

variable {α β : Type}

namespace Binary64

/-- IEEE 754 comparison: a NaN does not compare with anything. -/
def compare? (x y : Binary64) : Option Ordering :=
  if x.below y then some .lt
  else if y.below x then some .gt
  else if x.agrees y then some .eq
  else none

/-- Whether a sort leaves `x` before `y`: it is not greater, or the two do not compare. -/
def stays (x y : Binary64) : Bool := ((x.compare? y).getD .eq).isLE

/-- A minimum after IEEE 754: of two numbers that are no NaNs it is one that is not above the other.
Which of two equal numbers it is, as of two zeros of opposite signs, is left open. -/
def IsMinimum (lesser : Binary64 → Binary64 → Binary64) : Prop :=
  ∀ x y, x.isNaN = false → y.isNaN = false →
    lesser x y = x ∧ y.below x = false ∨ lesser x y = y ∧ x.below y = false

/-- A number that is no NaN equals one of some numbers, and none of these is below it. -/
structure IsLeastOf (x : Binary64) (numbers : List Binary64) : Prop where
  isNaN : x.isNaN = false
  attained : ∃ y ∈ numbers, x.agrees y = true
  below : ∀ y ∈ numbers, y.below x = false

/-- The minimum that is the first of two numbers if they are equal. -/
def lesser (x y : Binary64) : Binary64 := if y.below x then y else x

/-- The least of some numbers, zero if there are none. -/
def reduce (lesser : Binary64 → Binary64 → Binary64) : List Binary64 → Binary64
  | [] => .zero
  | x :: rest => rest.foldl lesser x

section Order

variable {x y : Binary64} (hx : x.isNaN = false) (hy : y.isNaN = false)
include hx hy

theorem below_eq : x.below y = decide (x.place < y.place) := by
  rw [below, hx, hy]
  rfl

theorem agrees_eq : x.agrees y = (x.place == y.place) := by
  rw [agrees, hx, hy]
  rfl

/-- Numbers that are no NaNs compare as their places do. -/
theorem compare?_eq : x.compare? y = some (compare x.place y.place) := by
  rw [compare?, below_eq hx hy, below_eq hy hx, agrees_eq hx hy]
  rcases Int.lt_trichotomy x.place y.place with hlt | heq | hgt
  · rw [if_pos (decide_eq_true hlt), Int.compare_eq_lt.2 hlt]
  · rw [if_neg (by simp [heq]), if_neg (by simp [heq]), if_pos (by simp [heq]),
      Int.compare_eq_eq.2 heq]
  · rw [if_neg (by simp; omega), if_pos (decide_eq_true hgt), Int.compare_eq_gt.2 hgt]

end Order

theorem isMinimum_lesser : IsMinimum lesser := by
  intro x y hx hy
  rw [lesser, below_eq hy hx, below_eq hx hy]
  by_cases h : y.place < x.place
  · rw [if_pos (decide_eq_true h)]
    exact .inr ⟨rfl, decide_eq_false (by omega)⟩
  · rw [if_neg (by simpa using h)]
    exact .inl ⟨rfl, decide_eq_false h⟩

end Binary64

/-! ### Numbers that stand for costs -/

namespace Cost

/-- The number stands for the cost: it is no NaN, and it ranks among numbers like the cost among
costs. -/
structure ShownBy (cost : Cost) (x : Binary64) : Prop where
  isNaN : x.isNaN = false
  place : x.place = cost.rank

theorem shownBy_number (cost : Cost) : cost.ShownBy cost.number where
  isNaN := cost.valid.1
  place := (Int.toNat_of_nonneg cost.valid.2).symm

section ShownBy

variable {cost other : Cost} {x y : Binary64} (hx : cost.ShownBy x) (hy : other.ShownBy y)
include hx

theorem ShownBy.not_negative : x.below .zero = false := by
  have hzero : Binary64.zero.place = 0 := by decide
  rw [Binary64.below_eq hx.isNaN (by decide), hx.place, hzero]
  exact decide_eq_false (by omega)

theorem ShownBy.congr (h : other.rank = cost.rank) : other.ShownBy x :=
  ⟨hx.isNaN, hx.place.trans (congrArg _ h.symm)⟩

include hy

theorem ShownBy.compare?_eq : x.compare? y = some (compare cost.rank other.rank) := by
  rw [Binary64.compare?_eq hx.isNaN hy.isNaN, hx.place, hy.place]
  refine congrArg some ?_
  rcases Nat.lt_trichotomy cost.rank other.rank with hlt | heq | hgt
  · rw [Nat.compare_eq_lt.2 hlt, Int.compare_eq_lt.2 (Int.ofNat_lt.2 hlt)]
  · rw [Nat.compare_eq_eq.2 heq, heq, Int.compare_eq_eq.2 rfl]
  · rw [Nat.compare_eq_gt.2 hgt, Int.compare_eq_gt.2 (Int.ofNat_lt.2 hgt)]

theorem ShownBy.below_eq : x.below y = decide (cost.rank < other.rank) := by
  rw [Binary64.below_eq hx.isNaN hy.isNaN, hx.place, hy.place]
  exact decide_eq_decide.2 Int.ofNat_lt

theorem ShownBy.stays_eq : x.stays y = decide (cost ≤ other) := by
  rw [Binary64.stays, hx.compare?_eq hy, Option.getD_some]
  have hle : cost ≤ other ↔ cost.rank ≤ other.rank := Iff.rfl
  rw [Bool.eq_iff_iff, Nat.isLE_compare, decide_eq_true_iff, hle]

theorem ShownBy.agrees_eq : x.agrees y = decide (cost.rank = other.rank) := by
  rw [Binary64.agrees_eq hx.isNaN hy.isNaN, hx.place, hy.place, Bool.eq_iff_iff, beq_iff_eq,
    decide_eq_true_iff]
  exact Int.ofNat_inj

theorem ShownBy.min {lesser : Binary64 → Binary64 → Binary64} (h : Binary64.IsMinimum lesser) :
    (Cost.min cost other).ShownBy (lesser x y) := by
  rcases h x y hx.isNaN hy.isNaN with ⟨heq, hbelow⟩ | ⟨heq, hbelow⟩
  · rw [hy.below_eq hx] at hbelow
    rw [heq]
    exact hx.congr ((rank_min cost other).trans
      (Nat.min_eq_left (Nat.le_of_not_lt (of_decide_eq_false hbelow))))
  · rw [hx.below_eq hy] at hbelow
    rw [heq]
    exact hy.congr ((rank_min cost other).trans
      (Nat.min_eq_right (Nat.le_of_not_lt (of_decide_eq_false hbelow))))

end ShownBy

theorem ShownBy.isLeastOf {cost : Cost} {x : Binary64} (hx : cost.ShownBy x) {items : List β}
    {costOf : β → Cost} {numberOf : β → Binary64}
    (hitems : ∀ item, (costOf item).ShownBy (numberOf item))
    (h : cost.IsLeastOf (items.map costOf)) : x.IsLeastOf (items.map numberOf) where
  isNaN := hx.isNaN
  attained := by
    obtain ⟨_, hmem, hrank⟩ := h.attained
    obtain ⟨item, hitem, rfl⟩ := List.mem_map.1 hmem
    refine ⟨numberOf item, List.mem_map_of_mem hitem, ?_⟩
    rw [hx.agrees_eq (hitems item)]
    exact decide_eq_true hrank.symm
  below := List.forall_mem_map.2 fun item hitem => by
    rw [(hitems item).below_eq hx]
    exact decide_eq_false (Nat.not_lt.2 (h.le _ (List.mem_map_of_mem hitem)))

/-- The least of numbers that stand for costs stands for the least of these. -/
theorem shownBy_reduce {lesser : Binary64 → Binary64 → Binary64} (h : Binary64.IsMinimum lesser)
    {costs : List Cost} {numbers : List Binary64} (hnumbers : List.Forall₂ ShownBy costs numbers) :
    (least costs).ShownBy (Binary64.reduce lesser numbers) := by
  cases hnumbers with
  | nil => exact shownBy_number .zero
  | @cons cost x costs numbers hx hrest =>
    show (costs.foldl Cost.min cost).ShownBy (numbers.foldl lesser x)
    induction hrest generalizing cost x with
    | nil => exact hx
    | cons hy _ ih => exact ih (hx.min hy h)

end Cost

/-! ### Stable sorting -/

/-- A comparison that puts any two items in an order, in which they may be equal. -/
structure TotalPreorder (le : β → β → Bool) : Prop where
  refl : ∀ a, le a a = true
  trans : ∀ a b c, le a b = true → le b c = true → le a c = true
  total : ∀ a b, le a b = true ∨ le b a = true

/-- A list holds the items of another one in ascending order, and what is equal in the order of that
list. -/
structure StableSort (le : β → β → Bool) (items sorted : List β) : Prop where
  perm : sorted.Perm items
  ascending : sorted.Pairwise fun a b => le a b = true
  ties : ∀ a, sorted.filter (fun b => le a b && le b a) = items.filter fun b => le a b && le b a

theorem TotalPreorder.or_eq_true {le : β → β → Bool} (h : TotalPreorder le) (a b : β) :
    (le a b || le b a) = true := Bool.or_eq_true_iff.2 (h.total a b)

theorem TotalPreorder.stableSort_mergeSort {le : β → β → Bool} (h : TotalPreorder le)
    (items : List β) : StableSort le items (items.mergeSort le) where
  perm := List.mergeSort_perm items le
  ascending := List.pairwise_mergeSort h.trans h.or_eq_true items
  ties a := by
    let tied : β → Bool := fun b => le a b && le b a
    have hsorted : (items.filter tied).Pairwise fun b c => le b c = true :=
      List.pairwise_filter.2 (List.pairwise_of_forall fun b c hb hc =>
        h.trans b a c (Bool.and_eq_true_iff.1 hb).2 (Bool.and_eq_true_iff.1 hc).1)
    have hkept : (items.filter tied).Sublist (items.mergeSort le) :=
      List.sublist_mergeSort h.trans h.or_eq_true hsorted List.filter_sublist
    have hfiltered := hkept.filter tied
    rw [List.filter_filter, List.filter_congr fun b _ => Bool.and_self (tied b)] at hfiltered
    have hlength := ((List.mergeSort_perm items le).filter tied).length_eq
    exact (hfiltered.eq_of_length hlength.symm).symm

/-! ### Estimates and sorting -/

namespace Formula

mutual

/-- The estimate of a formula in plain numbers, where `number` tells the number of an atom and
`lesser` the minimum of two numbers. -/
def numberEstimate (lesser : Binary64 → Binary64 → Binary64) (number : α → Binary64) :
    Formula α → Binary64
  | .atom a => number a
  | .not formula => formula.numberEstimate lesser number
  | .all formulas => Binary64.reduce lesser (numberEstimates lesser number formulas)
  | .any formulas => Binary64.reduce lesser (numberEstimates lesser number formulas)

def numberEstimates (lesser : Binary64 → Binary64 → Binary64) (number : α → Binary64) :
    List (Formula α) → List Binary64
  | [] => []
  | formula :: rest =>
    formula.numberEstimate lesser number :: numberEstimates lesser number rest

end

@[simp] theorem numberEstimates_eq (lesser : Binary64 → Binary64 → Binary64)
    (number : α → Binary64) (formulas : List (Formula α)) :
    numberEstimates lesser number formulas = formulas.map (numberEstimate lesser number) := by
  induction formulas with
  | nil => rfl
  | cons head rest ih => rw [numberEstimates, ih, List.map_cons]

/-- The number of a tip: an empty group counts as zero. -/
def tipNumber (number : α → Binary64) (tip : Option α) : Binary64 := tip.elim .zero number

/-- Items in ascending order of plain numbers, items that are equal or do not compare in the order
given. -/
def lightestFirst (items : List (Binary64 × β)) : List β :=
  (items.mergeSort fun a b => a.1.stays b.1).map (·.2)

theorem lightestFirst_eq_mergeSort (number : β → Binary64) (items : List β) :
    lightestFirst (items.map fun item => (number item, item)) =
      items.mergeSort fun a b => (number a).stays (number b) := by
  have hpairs := List.map_mergeSort (l := items)
    (r := fun a b => (number a).stays (number b))
    (s := fun a b : Binary64 × β => a.1.stays b.1)
    (f := fun item => (number item, item)) fun _ _ _ _ => rfl
  rw [lightestFirst, ← hpairs, List.map_map]
  exact List.map_id _

section Numbers

variable {lesser : Binary64 → Binary64 → Binary64} (hlesser : Binary64.IsMinimum lesser)
  {cost : α → Cost} {number : α → Binary64} (hnumber : ∀ a, (cost a).ShownBy (number a))
include hlesser hnumber

/-- **An estimate in plain numbers stands for the estimate**, if the numbers stand for costs. -/
theorem shownBy_numberEstimate (formula : Formula α) :
    (formula.estimate cost).ShownBy (formula.numberEstimate lesser number) := by
  induction formula with
  | atom a => exact hnumber a
  | not formula ih => exact ih
  | all formulas ih | any formulas ih =>
    rw [estimate, numberEstimate, estimates_eq, numberEstimates_eq]
    refine Cost.shownBy_reduce hlesser ?_
    rw [List.forall₂_map_left_iff, List.forall₂_map_right_iff]
    exact List.forall₂_same.2 ih

/-- An estimate in plain numbers is the least number over the whole tree. -/
theorem isLeastOf_numberEstimate (formula : Formula α) :
    (formula.numberEstimate lesser number).IsLeastOf (formula.tips.map (tipNumber number)) := by
  have htip : ∀ tip, (tipCost cost tip).ShownBy (tipNumber number tip)
    | none => Cost.shownBy_number .zero
    | some a => hnumber a
  exact (shownBy_numberEstimate hlesser hnumber formula).isLeastOf htip
    (isLeastOf_estimate cost formula)

/-- Any two estimates compare. -/
theorem compare?_estimates (formula other : Formula α) :
    (formula.numberEstimate lesser number).compare? (other.numberEstimate lesser number) =
      some (compare (formula.estimate cost).rank (other.estimate cost).rank) :=
  (shownBy_numberEstimate hlesser hnumber formula).compare?_eq
    (shownBy_numberEstimate hlesser hnumber other)

theorem stays_estimates (formula other : Formula α) :
    (formula.numberEstimate lesser number).stays (other.numberEstimate lesser number) =
      decide (formula.estimate cost ≤ other.estimate cost) :=
  (shownBy_numberEstimate hlesser hnumber formula).stays_eq
    (shownBy_numberEstimate hlesser hnumber other)

theorem totalPreorder_stays_estimates :
    TotalPreorder fun formula other : Formula α =>
      (formula.numberEstimate lesser number).stays (other.numberEstimate lesser number) := by
  simp only [stays_estimates hlesser hnumber]
  exact ⟨fun formula => decide_eq_true (Nat.le_refl (formula.estimate cost).rank),
    estimate_trans cost, fun a b => Bool.or_eq_true_iff.1 (estimate_total cost a b)⟩

/-- Formulas sorted by estimates in plain numbers are in the order of their estimates. -/
theorem lightestFirst_eq_ordered (formulas : List (Formula α)) :
    lightestFirst (formulas.map fun formula => (formula.numberEstimate lesser number, formula)) =
      ordered cost formulas := by
  rw [lightestFirst_eq_mergeSort, ordered_eq_mergeSort]
  simp only [stays_estimates hlesser hnumber]

end Numbers

end Formula

end TokenRules
