import TokenRules.Proofs.CostHistories

/-!
# The order of declared costs

The costs of a document have distinct names, so a table that is made from them has every number
under its own name, in whatever order they are declared (`number_get?_of_ofPairs`), and whether
there is a table at all is told by the numbers alone.  A rule set is compiled from the table and the
sources (`compile_eq_of_perm`), and its passes are told by the cost of each name
(`RuleSet.apply_eq_of_costs`).  Main statement: `compile_of_orders`.
-/

namespace TokenRules

/-! ### Tables -/

theorem Cost.number_injective : Function.Injective number := by
  rintro ⟨number, _⟩ ⟨_, _⟩ rfl
  rfl

namespace CostTable

variable {pairs others : List (String × Binary64)} {function : String} {number : Binary64}

/-- Under distinct names there is at most one number for each. -/
theorem getLast?_filter_eq_some_iff (h : (pairs.map Prod.fst).Nodup) :
    (pairs.filter (·.1 == function)).getLast?.map (·.2) = some number ↔
      (function, number) ∈ pairs := by
  rw [Option.map_eq_some_iff]
  constructor
  · rintro ⟨⟨name, _⟩, hlast, rfl⟩
    obtain ⟨hmem, hname⟩ := List.mem_filter.1 (List.mem_of_getLast? hlast)
    obtain rfl : name = function := by simpa using hname
    exact hmem
  · intro hmem
    have hfilter : (function, number) ∈ pairs.filter (·.1 == function) :=
      List.mem_filter.2 ⟨hmem, beq_self_eq_true function⟩
    obtain ⟨last, hlast⟩ := Option.isSome_iff_exists.1
      (List.getLast?_isSome.2 (List.ne_nil_of_mem hfilter))
    obtain ⟨hlastMem, hname⟩ := List.mem_filter.1 (List.mem_of_getLast? hlast)
    have hsame : last = (function, number) :=
      List.inj_on_of_nodup_map h hlastMem hmem (by simpa using hname)
    exact ⟨last, hlast, by rw [hsame]⟩

/-- A table made of pairs with distinct names has each number under its name. -/
theorem number_get?_of_ofPairs {costs : CostTable} (hnodup : (pairs.map Prod.fst).Nodup)
    (h : ofPairs pairs = .ok costs) :
    (costs.get? function).map (·.number) = some number ↔ (function, number) ∈ pairs := by
  obtain ⟨hgood, rfl⟩ := ofPairs_eq_ok_iff.1 h
  have haccepted : accepted pairs = pairs :=
    List.filter_eq_self.2 fun pair hpair => decide_eq_true (hgood pair hpair)
  rw [map_number_get?_attemptAll, haccepted, getLast?_filter_eq_some_iff hnodup]

/-- **The order in which costs are declared does not matter**, where all of them are costs and each
has a name of its own. -/
theorem ofPairs_eq_of_perm (hperm : pairs.Perm others) (hnodup : (others.map Prod.fst).Nodup)
    (hgood : ∀ pair ∈ others, ¬ pair.2.Refused) : ofPairs pairs = ofPairs others := by
  have hnodup' := (hperm.map Prod.fst).nodup_iff.2 hnodup
  obtain ⟨costs, hcosts⟩ := Authoring.exists_ofPairs_iff.2 fun pair hpair =>
    hgood pair (hperm.mem_iff.1 hpair)
  obtain ⟨declared, hdeclared⟩ := Authoring.exists_ofPairs_iff.2 hgood
  rw [hcosts, hdeclared]
  refine congrArg Except.ok (NameMap.ext_get? fun function => ?_)
  refine Option.map_injective Cost.number_injective (Option.ext fun number => ?_)
  rw [number_get?_of_ofPairs hnodup' hcosts, number_get?_of_ofPairs hnodup hdeclared, hperm.mem_iff]

end CostTable

/-! ### Passes -/

/-- Actions are run without a look at the costs. -/
theorem Evaluator.dispatchAll_of_costs (costs others : CostTable) (registry : Registry)
    (calls : List Call) :
    dispatchAll ⟨costs, registry⟩ calls = dispatchAll ⟨others, registry⟩ calls := by
  induction calls with
  | nil => rfl
  | cons call rest ih =>
    rw [dispatchAll, dispatchAll, ih]
    rfl

section Passes

variable {costs others : CostTable} (h : ∀ function, costs.cost function = others.cost function)
include h

variable {m : Type → Type} [Monad m] [MonadLiftT (Pass EvalError) m]

theorem Evaluator.evaluateWith_eq_of_costs (registry : Registry) (called : String → m Unit)
    (condition : Condition) : evaluateWith ⟨costs, registry⟩ called condition =
      evaluateWith ⟨others, registry⟩ called condition := by
  simp only [evaluateWith, h]
  rfl

theorem Evaluator.applyAllWith_eq_of_costs (registry : Registry) (called : String → m Unit)
    (rules : List Rule) : applyAllWith ⟨costs, registry⟩ called rules =
      applyAllWith ⟨others, registry⟩ called rules := by
  induction rules with
  | nil => rfl
  | cons rule rest ih =>
    rw [applyAllWith, applyAllWith, ih, applyWith, applyWith,
      evaluateWith_eq_of_costs h registry called rule.condition,
      dispatchAll_of_costs costs others]

end Passes

namespace RuleSet

variable {set other : RuleSet} (hrules : set.rules = other.rules)
  (h : ∀ function, set.costs.cost function = other.costs.cost function)
include hrules h

/-- Rule sets with the same rules, of which every name costs the same, are applied alike. -/
theorem apply_eq_of_costs (registry : Registry) : set.apply registry = other.apply registry := by
  rw [apply, apply, hrules]
  exact Evaluator.applyAllWith_eq_of_costs h registry _ other.rules

theorem applyReporting_eq_of_costs (registry : Registry) :
    set.applyReporting registry = other.applyReporting registry := by
  have hpass := Evaluator.applyAllWith_eq_of_costs (m := StateT (List String) (Pass EvalError)) h
    registry (fun name => modify (· ++ [name])) other.rules
  rw [applyReporting, applyReporting, hrules, evaluator, evaluator, hpass]

end RuleSet

/-! ### Rule sets -/

namespace Authoring

variable {costs others : List (String × Binary64)} {sources : List RuleSource}

theorem RuleSource.Faulty.ne_badCost {source : RuleSource} {failure : Failure CompileError}
    (h : source.Faulty failure) (bad : CostError) : failure ≠ .reported (.badCost bad) := by
  cases h with
  | @conditions spec e | @exceptions spec _ e =>
    obtain ⟨steps, fault⟩ := e
    rcases fault with ⟨_ | _⟩ | _ <;> nofun

theorem refused_of_badCost {bad : CostError}
    (h : compile costs sources = .error (.reported (.badCost bad))) :
    (bad.function, bad.number) ∈ costs ∧ bad.number.Refused := by
  have hfails := failsWith_of_compile h
  clear h
  cases hfails with
  | cost h =>
    obtain ⟨before, after, rfl, hrefused, -⟩ := h
    exact ⟨by simp, hrefused⟩
  | block _ _ he => exact absurd rfl (he.ne_badCost bad)

/-- A cost is reported whenever one is bad, whatever is wrong with the sources, and only then. -/
theorem exists_badCost_iff :
    (∃ bad, compile costs sources = .error (.reported (.badCost bad))) ↔
      ∃ pair ∈ costs, pair.2.Refused := by
  constructor
  · rintro ⟨bad, hbad⟩
    exact ⟨_, refused_of_badCost hbad⟩
  · intro hrefused
    obtain ⟨⟨function, number⟩, hfirst⟩ := exists_isFirst_iff.2 hrefused
    exact ⟨_, compile_of_failsWith (.cost hfirst)⟩

theorem compile_eq_of_perm (hperm : costs.Perm others) (hnodup : (others.map Prod.fst).Nodup)
    (hgood : ∀ pair ∈ others, ¬ pair.2.Refused) :
    compile costs sources = compile others sources := by
  unfold compile
  rw [CostTable.ofPairs_eq_of_perm hperm hnodup hgood]

/-- A rule set has the table that is made of the costs. -/
theorem ofPairs_of_compile {set : RuleSet} (h : compile costs sources = .ok set) :
    CostTable.ofPairs costs = .ok set.costs := by
  unfold compile at h
  split at h
  · cases h
  · rename_i table htable
    split at h
    · cases h
    · dsimp only at h
      split at h
      · cases h
      · cases h
        exact htable

/-- A rule set has every cost of a document, in whatever order it was declared. -/
theorem number_get?_of_compile {document : NameMap Binary64} {set : RuleSet}
    (hperm : costs.Perm document.entries) (h : compile costs sources = .ok set)
    (function : String) :
    (set.costs.get? function).map (·.number) = document.get? function := by
  have hnodup : (costs.map Prod.fst).Nodup :=
    (hperm.map Prod.fst).nodup_iff.2 document.nodup_names
  refine Option.ext fun number => ?_
  rw [CostTable.number_get?_of_ofPairs hnodup (ofPairs_of_compile h), hperm.mem_iff,
    NameMap.get?_eq_some_iff]

/-- **The order in which the costs of a document are gone through does not matter.**  Each name has
one cost there.  Some order makes a rule set if and only if any other does, with the same rules and
the costs of the document under their names, so that passes under either are the same; if a cost is
bad, every order reports a bad one, whatever is wrong with the rules; and if none is, all orders
fail alike. -/
theorem compile_of_orders (document : RuleDocument) {costs others : List (String × Binary64)}
    (hcosts : costs.Perm document.functionCosts.entries)
    (hothers : others.Perm document.functionCosts.entries) :
    let sources := document.rules.map RuleSource.authored
    ((∃ set, compile costs sources = .ok set) ↔ ∃ set, compile others sources = .ok set) ∧
    (∀ set other, compile costs sources = .ok set → compile others sources = .ok other →
      set.rules = other.rules ∧
      (∀ function,
        (set.costs.get? function).map (·.number) = document.functionCosts.get? function ∧
        set.costs.cost function = other.costs.cost function) ∧
      ∀ registry, set.apply registry = other.apply registry ∧
        set.applyReporting registry = other.applyReporting registry ∧
        ∀ condition, (set.evaluator registry).evaluate condition =
          (other.evaluator registry).evaluate condition) ∧
    (((∃ bad, compile costs sources = .error (.reported (.badCost bad))) ↔
        ∃ pair ∈ document.functionCosts.entries, pair.2.Refused) ∧
      ∀ bad, compile costs sources = .error (.reported (.badCost bad)) →
        document.functionCosts.get? bad.function = some bad.number ∧ bad.number.Refused) ∧
    ((∀ pair ∈ document.functionCosts.entries, ¬ pair.2.Refused) →
      ∀ failure, compile costs sources = .error failure ↔
        compile others sources = .error failure) := by
  intro sources
  have hsame : (∀ pair ∈ document.functionCosts.entries, ¬ pair.2.Refused) →
      compile costs sources = compile others sources := fun hgood =>
    compile_eq_of_perm (hcosts.trans hothers.symm)
      ((hothers.map Prod.fst).nodup_iff.2 document.functionCosts.nodup_names)
      fun pair hpair => hgood pair (hothers.mem_iff.1 hpair)
  have hgood : ∀ {order : List (String × Binary64)} {set : RuleSet},
      order.Perm document.functionCosts.entries → compile order sources = .ok set →
      ∀ pair ∈ document.functionCosts.entries, ¬ pair.2.Refused := fun hperm h pair hpair =>
    exists_ofPairs_iff.1 ⟨_, ofPairs_of_compile h⟩ pair (hperm.mem_iff.2 hpair)
  refine ⟨⟨fun ⟨set, h⟩ => ⟨set, hsame (hgood hcosts h) ▸ h⟩,
      fun ⟨set, h⟩ => ⟨set, (hsame (hgood hothers h)).trans h⟩⟩,
    fun set other h hother => ?_, ⟨?_, fun bad hbad => ?_⟩, fun hall failure => by rw [hsame hall]⟩
  · have hset : set = other := Except.ok.inj (h.symm.trans ((hsame (hgood hcosts h)).trans hother))
    have hrules : set.rules = other.rules := congrArg RuleSet.rules hset
    have hcost : ∀ function, set.costs.cost function = other.costs.cost function := by
      intro function
      have hget : set.costs.get? function = other.costs.get? function := by
        refine Option.map_injective Cost.number_injective ?_
        exact (number_get?_of_compile hcosts h function).trans
          (number_get?_of_compile hothers hother function).symm
      rw [CostTable.cost, CostTable.cost, hget]
    exact ⟨hrules, fun function => ⟨number_get?_of_compile hcosts h function, hcost function⟩,
      fun registry => ⟨RuleSet.apply_eq_of_costs hrules hcost registry,
        RuleSet.applyReporting_eq_of_costs hrules hcost registry,
        Evaluator.evaluateWith_eq_of_costs hcost registry _⟩⟩
  · rw [exists_badCost_iff]
    simp only [hcosts.mem_iff]
  · obtain ⟨hmem, hbad⟩ := refused_of_badCost hbad
    exact ⟨NameMap.get?_eq_some_iff.2 (hcosts.mem_iff.1 hmem), hbad⟩

/-- Two costs in both orders, with two rules, of the same name or not, and then with a negative
cost. -/
theorem compile_of_two_orders :
    let costs := (∅ : NameMap Binary64).insert "a" ⟨0x4014000000000000⟩ |>.insert "b" .zero
    let rules (second : String) : List RuleSpec :=
      [⟨"r", "", none, none, []⟩, ⟨second, "", none, none, []⟩]
    let turned : List (String × Binary64) := [("b", .zero), ("a", ⟨0x4014000000000000⟩)]
    let bad := costs.insert "c" ⟨0xBFF0000000000000⟩
    (turned.Perm costs.entries ∧ bad.entries.reverse.Perm bad.entries) ∧
    (∃ set, compile turned ((rules "s").map .authored) = .ok set ∧
      (set.costs.get? "a").map (·.number) = some ⟨0x4014000000000000⟩) ∧
    compile turned ((rules "r").map .authored) = .error (.reported (.duplicateRule "r")) ∧
    ∃ e, compile bad.entries.reverse ((rules "r").map .authored) =
      .error (.reported (.badCost e)) := by
  intro costs rules turned bad
  have hturned : turned.Perm costs.entries := by decide
  have hbad : bad.entries.reverse.Perm bad.entries := List.reverse_perm _
  have hcompiled : ∃ set, compile costs.entries ((rules "s").map .authored) = .ok set :=
    exists_eq_ok_of_isOk (by decide +kernel)
  obtain ⟨hsuccess, hagree, -, -⟩ := compile_of_orders ⟨costs, rules "s"⟩ hturned (.refl _)
  obtain ⟨-, -, -, herror⟩ := compile_of_orders ⟨costs, rules "r"⟩ hturned (.refl _)
  obtain ⟨-, -, ⟨hreport, -⟩, -⟩ := compile_of_orders ⟨bad, rules "r"⟩ hbad (.refl _)
  obtain ⟨set, hset⟩ := hsuccess.2 hcompiled
  obtain ⟨other, hother⟩ := hcompiled
  have hcost := ((hagree set other hset hother).2.1 "a").1
  have hrefused : ∃ pair ∈ bad.entries, pair.2.Refused :=
    ⟨("c", ⟨0xBFF0000000000000⟩), by decide, by decide⟩
  exact ⟨⟨hturned, hbad⟩, ⟨set, hset, hcost.trans rfl⟩, (herror (by decide) _).2 rfl,
    hreport.2 hrefused⟩

end Authoring

end TokenRules
