import Mathlib.Data.List.Dedup
import Mathlib.Data.List.Induction
import TokenRules.NameMap.Lemmas
import TokenRules.Proofs.PlainNumbers
import TokenRules.Proofs.Sources

/-!
# Histories of a cost table

A table is filled by attempts to declare a cost, of which some are rejected.  An attempt either
declares its number or leaves no trace (`attempt_of_refused`, `exists_attempt_of_not_refused`), so
what a table holds after any history is told by the pairs that were `accepted`: of each name the
last one (`number_cost_attemptAll`).  Estimates in plain numbers from such a table are never NaNs
and never negative, any two compare, and sorting by them is stable sorting by a total preorder.
Main statement: `costs_after_history`.
-/

namespace TokenRules

instance (number : Binary64) : Decidable number.Refused :=
  inferInstanceAs (Decidable (_ = true ∨ _ = true))

namespace CostTable

/-! ### Attempts -/

/-- An attempt to declare a cost in a table that is kept: what it answers, and the table from then
on. -/
def attempt (costs : CostTable) (pair : String × Binary64) : Except CostError Unit × CostTable :=
  match costs.declare pair.1 pair.2 with
  | .ok declared => (.ok (), declared)
  | .error e => (.error e, costs)

/-- The table after some attempts, whatever became of them. -/
def attemptAll (costs : CostTable) (pairs : List (String × Binary64)) : CostTable :=
  pairs.foldl (fun costs pair => (costs.attempt pair).2) costs

/-- The attempts of a history that are not rejected. -/
def accepted (pairs : List (String × Binary64)) : List (String × Binary64) :=
  pairs.filter fun pair => ¬ pair.2.Refused

/-- The number that a history declares last for a predicate, zero if it declares none. -/
def numberOf (pairs : List (String × Binary64)) (function : String) : Binary64 :=
  (((accepted pairs).filter (·.1 == function)).getLast?.map (·.2)).getD .zero

theorem attempt_of_refused (costs : CostTable) {pair : String × Binary64} (h : pair.2.Refused) :
    costs.attempt pair = (.error ⟨pair.1, pair.2⟩, costs) := by
  rw [attempt, declare_of_refused h]

theorem exists_attempt_of_not_refused (costs : CostTable) {pair : String × Binary64}
    (h : ¬ pair.2.Refused) :
    ∃ cost : Cost, cost.number = pair.2 ∧
      costs.attempt pair = (.ok (), costs.insert pair.1 cost) := by
  cases hcost : Cost.ofNumber? pair.2 with
  | none => exact absurd (Cost.ofNumber?_eq_none_iff.1 hcost) h
  | some cost =>
    obtain ⟨_, hsome⟩ := Option.dite_none_right_eq_some.1 hcost
    exact ⟨cost, congrArg Cost.number (Option.some.inj hsome).symm, by rw [attempt, declare, hcost]⟩

theorem attemptAll_append (costs : CostTable) (pairs more : List (String × Binary64)) :
    costs.attemptAll (pairs ++ more) = (costs.attemptAll pairs).attemptAll more :=
  List.foldl_append

theorem attemptAll_concat (costs : CostTable) (pairs : List (String × Binary64))
    (pair : String × Binary64) :
    costs.attemptAll (pairs ++ [pair]) = ((costs.attemptAll pairs).attempt pair).2 :=
  List.foldl_concat ..

theorem accepted_concat_of_refused (pairs : List (String × Binary64)) {pair : String × Binary64}
    (h : pair.2.Refused) : accepted (pairs ++ [pair]) = accepted pairs := by
  simp [accepted, h]

theorem accepted_concat_of_not_refused (pairs : List (String × Binary64))
    {pair : String × Binary64} (h : ¬ pair.2.Refused) :
    accepted (pairs ++ [pair]) = accepted pairs ++ [pair] := by
  simp [accepted, h]

/-- A table holds of each name what was accepted last. -/
theorem map_number_get?_attemptAll (pairs : List (String × Binary64)) (function : String) :
    (((∅ : CostTable).attemptAll pairs).get? function).map (·.number) =
      ((accepted pairs).filter (·.1 == function)).getLast?.map (·.2) := by
  induction pairs using List.reverseRecOn with
  | nil => rfl
  | append_singleton pairs pair ih =>
    rw [attemptAll_concat]
    by_cases h : pair.2.Refused
    · rw [attempt_of_refused _ h, accepted_concat_of_refused pairs h]
      exact ih
    · obtain ⟨cost, hcost, hattempt⟩ :=
        ((∅ : CostTable).attemptAll pairs).exists_attempt_of_not_refused h
      rw [hattempt, accepted_concat_of_not_refused pairs h, List.filter_append, NameMap.get?_insert]
      by_cases hname : function = pair.1
      · rw [if_pos hname, List.filter_cons_of_pos (by simpa using hname.symm), List.filter_nil,
          List.getLast?_concat]
        exact congrArg some hcost
      · rw [if_neg hname, List.filter_cons_of_neg (by simpa using Ne.symm hname), List.filter_nil,
          List.append_nil]
        exact ih

theorem number_cost_attemptAll (pairs : List (String × Binary64)) (function : String) :
    (((∅ : CostTable).attemptAll pairs).cost function).number = numberOf pairs function := by
  rw [numberOf, ← map_number_get?_attemptAll, cost]
  cases NameMap.get? ((∅ : CostTable).attemptAll pairs) function <;> rfl

theorem mem_names_attemptAll_iff {pairs : List (String × Binary64)} {name : String} :
    name ∈ ((∅ : CostTable).attemptAll pairs).names ↔ name ∈ (accepted pairs).map (·.1) := by
  have hget := congrArg Option.isSome (map_number_get?_attemptAll pairs name)
  rw [Option.isSome_map, Option.isSome_map, Bool.eq_iff_iff, List.getLast?_isSome] at hget
  rw [NameMap.mem_names_iff, hget]
  simp [List.filter_eq_nil_iff]

/-- A table has as many names as there are among the pairs accepted. -/
theorem size_attemptAll (pairs : List (String × Binary64)) :
    ((∅ : CostTable).attemptAll pairs).size = ((accepted pairs).map (·.1)).dedup.length := by
  have hperm : ((∅ : CostTable).attemptAll pairs).names.Perm
      ((accepted pairs).map (·.1)).dedup :=
    (List.perm_ext_iff_of_nodup (NameMap.nodup_names _) (List.nodup_dedup _)).2 fun name => by
      rw [mem_names_attemptAll_iff, List.mem_dedup]
  rw [← hperm.length_eq, NameMap.names, List.length_map]
  rfl

/-- Attempts that are rejected might as well not be made. -/
theorem attemptAll_accepted (costs : CostTable) (pairs : List (String × Binary64)) :
    costs.attemptAll (accepted pairs) = costs.attemptAll pairs := by
  induction pairs using List.reverseRecOn with
  | nil => rfl
  | append_singleton pairs pair ih =>
    rw [attemptAll_concat]
    by_cases h : pair.2.Refused
    · rw [attempt_of_refused _ h, accepted_concat_of_refused pairs h]
      exact ih
    · rw [accepted_concat_of_not_refused pairs h, attemptAll_concat, ih]

/-! ### Tables from pairs -/

theorem foldlM_declare_eq_ok_iff {costs declared : CostTable} {pairs : List (String × Binary64)} :
    pairs.foldlM (fun costs pair => costs.declare pair.1 pair.2) costs = .ok declared ↔
      (∀ pair ∈ pairs, ¬ pair.2.Refused) ∧ declared = costs.attemptAll pairs := by
  induction pairs generalizing costs with
  | nil => exact ⟨fun h => ⟨nofun, (Except.ok.inj h).symm⟩, fun h => congrArg Except.ok h.2.symm⟩
  | cons pair rest ih =>
    rw [List.foldlM_cons, List.forall_mem_cons, attemptAll, List.foldl_cons, attempt]
    cases hdeclare : costs.declare pair.1 pair.2 with
    | ok after =>
      have hpair : ¬ pair.2.Refused := fun h => by
        rw [declare_of_refused h] at hdeclare
        cases hdeclare
      rw [and_iff_right hpair]
      exact ih
    | error e =>
      have hpair : pair.2.Refused := by
        refine Decidable.not_not.1 fun h => ?_
        obtain ⟨after, hafter⟩ := costs.exists_declare_of_not_refused pair.1 h
        rw [hafter] at hdeclare
        cases hdeclare
      exact ⟨fun h => (nomatch h), fun h => absurd hpair h.1.1⟩

/-- Pairs make a table if none is rejected, and then the one that attempts would lead to. -/
theorem ofPairs_eq_ok_iff {pairs : List (String × Binary64)} {declared : CostTable} :
    ofPairs pairs = .ok declared ↔
      (∀ pair ∈ pairs, ¬ pair.2.Refused) ∧ declared = (∅ : CostTable).attemptAll pairs :=
  foldlM_declare_eq_ok_iff

/-- A history that starts from a table made of pairs is one that starts with these. -/
theorem attemptAll_of_ofPairs {pairs more : List (String × Binary64)} {declared : CostTable}
    (h : ofPairs pairs = .ok declared) :
    declared.attemptAll more = (∅ : CostTable).attemptAll (pairs ++ more) := by
  rw [(ofPairs_eq_ok_iff.1 h).2, attemptAll_append]

/-- Every history leads to a table that can be made from pairs. -/
theorem ofPairs_accepted (pairs : List (String × Binary64)) :
    ofPairs (accepted pairs) = .ok ((∅ : CostTable).attemptAll pairs) := by
  rw [ofPairs_eq_ok_iff, attemptAll_accepted]
  exact ⟨fun pair hpair => by simpa using (List.mem_filter.1 hpair).2, rfl⟩

/-! ### Estimates after a history -/

/-- The number that a table declares for the predicate of a literal. -/
def literalNumber (costs : CostTable) (literal : Literal) : Binary64 :=
  (costs.cost literal.call.function).number

/-- The estimate of a condition in plain numbers, where `lesser` is the minimum of two numbers. -/
def numberEstimate (lesser : Binary64 → Binary64 → Binary64) (costs : CostTable)
    (condition : Condition) : Binary64 :=
  Formula.numberEstimate lesser costs.literalNumber condition

theorem shownBy_literalNumber (costs : CostTable) (literal : Literal) :
    (costs.cost literal.call.function).ShownBy (costs.literalNumber literal) :=
  Cost.shownBy_number _

theorem literalNumber_attemptAll (pairs : List (String × Binary64)) :
    ((∅ : CostTable).attemptAll pairs).literalNumber =
      fun literal => numberOf pairs literal.call.function :=
  funext fun literal => number_cost_attemptAll pairs literal.call.function

/-- **What a table is after any history of attempts, and what estimates are from it.**  A rejected
attempt changes nothing, each name has the number accepted last, and pairs make a table if none is
rejected.  An estimate is a number that is no NaN and not negative, the least of the numbers
declared for the literals of the condition and of a zero for each empty group; and so conditions can
always be sorted by their estimates, which is how evaluation does it.

A minimum of two equal numbers, such as of two zeros, may be either of them. -/
theorem costs_after_history {lesser : Binary64 → Binary64 → Binary64}
    (hlesser : Binary64.IsMinimum lesser) (pairs : List (String × Binary64)) :
    let costs := (∅ : CostTable).attemptAll pairs
    let estimate := costs.numberEstimate lesser
    let stays := fun condition other : Condition => (estimate condition).stays (estimate other)
    ((∀ pair : String × Binary64, pair.2.Refused →
        costs.attempt pair = (.error ⟨pair.1, pair.2⟩, costs)) ∧
      (∀ pair : String × Binary64, ¬ pair.2.Refused → ∃ cost : Cost, cost.number = pair.2 ∧
        costs.attempt pair = (.ok (), costs.insert pair.1 cost)) ∧
      ofPairs (accepted pairs) = .ok costs) ∧
    ((∀ function, (costs.cost function).number = numberOf pairs function) ∧
      costs.size = ((accepted pairs).map (·.1)).dedup.length) ∧
    ((∀ table, ofPairs pairs = .ok table ↔ (∀ pair ∈ pairs, ¬ pair.2.Refused) ∧ table = costs) ∧
      (∀ e, ofPairs pairs = .error e ↔
        IsFirst (fun pair => pair.2.Refused) pairs (e.function, e.number)) ∧
      (∀ table more, ofPairs pairs = .ok table →
        table.attemptAll more = (∅ : CostTable).attemptAll (pairs ++ more))) ∧
    (∀ condition, (costs.estimate condition).ShownBy (estimate condition) ∧
      (estimate condition).below .zero = false ∧
      (estimate condition).IsLeastOf (condition.tips.map
        (Formula.tipNumber fun literal => numberOf pairs literal.call.function))) ∧
    ((∀ condition other, ∃ order, (estimate condition).compare? (estimate other) = some order) ∧
      TotalPreorder stays ∧
      ∀ conditions,
        let sorted := Formula.lightestFirst
          (conditions.map fun condition => (estimate condition, condition))
        StableSort stays conditions sorted ∧
          sorted =
            Formula.ordered (fun literal => costs.cost literal.call.function) conditions) := by
  intro costs estimate stays
  have hshown := costs.shownBy_literalNumber
  have hpreorder : TotalPreorder stays := Formula.totalPreorder_stays_estimates hlesser hshown
  refine ⟨⟨fun _ h => costs.attempt_of_refused h, fun _ h => costs.exists_attempt_of_not_refused h,
      ofPairs_accepted pairs⟩,
    ⟨number_cost_attemptAll pairs, size_attemptAll pairs⟩,
    ⟨fun _ => ofPairs_eq_ok_iff, fun _ => ofPairs_eq_error_iff, fun _ _ => attemptAll_of_ofPairs⟩,
    fun condition => ?_, fun condition other => ?_, hpreorder, fun conditions => ?_⟩
  · have hestimate := Formula.shownBy_numberEstimate hlesser hshown condition
    rw [← literalNumber_attemptAll]
    exact ⟨hestimate, hestimate.not_negative,
      Formula.isLeastOf_numberEstimate hlesser hshown condition⟩
  · exact ⟨_, Formula.compare?_estimates hlesser hshown condition other⟩
  · refine ⟨?_, Formula.lightestFirst_eq_ordered hlesser hshown conditions⟩
    rw [Formula.lightestFirst_eq_mergeSort]
    exact hpreorder.stableSort_mergeSort conditions

/-- Five for "a", a negative number, a negative zero for "a", a NaN and infinity: three attempts are
accepted, two names have a number, and an estimate may be a negative zero, which is not below
zero. -/
theorem costs_after_five_attempts :
    let history : List (String × Binary64) := [("a", ⟨0x4014000000000000⟩),
      ("b", ⟨0xBFF0000000000000⟩), ("a", ⟨0x8000000000000000⟩), ("b", .nan), ("c", .infinity false)]
    let costs := (∅ : CostTable).attemptAll history
    let condition : Condition := .all [Condition.call "c", .not (Condition.call "a")]
    Binary64.IsMinimum Binary64.lesser ∧
      costs.attempt ("b", .nan) = (.error ⟨"b", .nan⟩, costs) ∧ costs.size = 2 ∧
      (costs.cost "a").number = ⟨0x8000000000000000⟩ ∧ (costs.cost "b").number = .zero ∧
      ofPairs history = .error ⟨"b", ⟨0xBFF0000000000000⟩⟩ ∧
      costs.numberEstimate Binary64.lesser condition = ⟨0x8000000000000000⟩ ∧
      (costs.numberEstimate Binary64.lesser condition).below .zero = false := by
  intro history costs condition
  obtain ⟨⟨hrejected, -, -⟩, ⟨hcost, hsize⟩, ⟨-, hfirst, -⟩, hestimate, -⟩ :=
    costs_after_history Binary64.isMinimum_lesser history
  refine ⟨Binary64.isMinimum_lesser, hrejected _ (by decide), hsize.trans (by decide),
    (hcost "a").trans (by decide), (hcost "b").trans (by decide), (hfirst _).2 ?_, by decide,
    (hestimate condition).2.1⟩
  exact ⟨[("a", ⟨0x4014000000000000⟩)], _, rfl, by decide, by decide⟩

end CostTable

end TokenRules
