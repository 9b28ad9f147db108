import Mathlib.Data.List.Nodup
import TokenRules.Proofs.Reporting
import TokenRules.Proofs.Traces

/-!
# When the answer is determined

Where every atom has a truth value, evaluation from left to right asks the atoms `asked`: of a
group those of the members up to the first that decides it.  The value of the formula is determined
by these (`value_eq_of_asked`).  If no group is empty and no atom occurs twice, it is not determined
by fewer: until the last of them is asked there are truth values for the others that make the
formula true and such that make it false, `undetermined_asked`.

For a condition the atoms are its leaves, each with its place, so that no two are the same.  An
evaluation can note the leaves as it comes to them (`evaluateNoting`); these are the ones asked of
the leaves sorted by cost (`run_evaluateNoting`).  Main statement:
`evaluate_stops_when_determined`.
-/

namespace TokenRules

variable {α β ε : Type}

namespace Formula

/-! ### Formulas without empty groups -/

/-- Every group has a member. -/
inductive Filled : Formula α → Prop
  | atom (a : α) : Filled (.atom a)
  | not {formula : Formula α} (h : Filled formula) : Filled (.not formula)
  | all {formulas : List (Formula α)} (hne : formulas ≠ [])
      (h : ∀ formula ∈ formulas, Filled formula) : Filled (.all formulas)
  | any {formulas : List (Formula α)} (hne : formulas ≠ [])
      (h : ∀ formula ∈ formulas, Filled formula) : Filled (.any formulas)

theorem Filled.of_map {f : α → β} {formula : Formula α} (h : (formula.map f).Filled) :
    formula.Filled := by
  induction formula with
  | atom a => exact .atom a
  | not formula ih =>
    cases h with
    | not h => exact .not (ih h)
  | all formulas ih | any formulas ih =>
    rw [map, mapList_eq] at h
    rcases h with _ | _ | ⟨hne, hmembers⟩ | ⟨hne, hmembers⟩
    constructor
    · exact fun heq => hne (by rw [heq]; rfl)
    · exact fun formula hmem => ih formula hmem (hmembers _ (List.mem_map_of_mem hmem))

theorem Filled.numbered {formula : Formula α} (h : formula.Filled) : formula.numbered.Filled :=
  of_map (f := Prod.fst) (by rwa [map_fst_numbered])

theorem ordered_ne_nil {cost : α → Cost} {formulas : List (Formula α)} (h : formulas ≠ []) :
    ordered cost formulas ≠ [] := by
  intro hnil
  have hperm := ordered_perm cost formulas
  rw [hnil] at hperm
  exact h hperm.nil_eq.symm

theorem Filled.presort {formula : Formula α} (h : formula.Filled) (cost : α → Cost) :
    (formula.presort cost).Filled := by
  induction h with
  | atom a => exact .atom a
  | not _ ih => exact .not ih
  | @all formulas hne _ ih | @any formulas hne _ ih =>
    rw [Formula.presort, presortList_eq, ordered_map_presort]
    constructor
    · exact fun h => ordered_ne_nil hne (List.map_eq_nil_iff.1 h)
    · intro formula hmem
      obtain ⟨member, hmember, rfl⟩ := List.mem_map.1 hmem
      exact ih member (mem_ordered.1 hmember)

/-! ### The atoms asked -/

mutual

/-- The atoms whose truth values an evaluation from left to right asks for. -/
def asked (truth : α → Bool) : Formula α → List α
  | .atom a => [a]
  | .not formula => formula.asked truth
  | .all formulas => askedUntil truth false formulas
  | .any formulas => askedUntil truth true formulas

/-- The atoms asked of the members of a group, up to the first member with the deciding value. -/
def askedUntil (truth : α → Bool) (decider : Bool) : List (Formula α) → List α
  | [] => []
  | formula :: rest =>
    formula.asked truth ++
      if (formula.map truth).value = decider then [] else askedUntil truth decider rest

end

/-- Whether some member of a group has the deciding value. -/
def decides (truth : α → Bool) (decider : Bool) (formulas : List (Formula α)) : Bool :=
  formulas.any fun formula => (formula.map truth).value == decider

theorem decides_cons (truth : α → Bool) (decider : Bool) (head : Formula α)
    (rest : List (Formula α)) :
    decides truth decider (head :: rest) =
      ((head.map truth).value == decider || decides truth decider rest) := rfl

theorem decides_congr {truth other : α → Bool} {formulas : List (Formula α)} (decider : Bool)
    (h : ∀ a ∈ formulas.flatMap atoms, truth a = other a) :
    decides truth decider formulas = decides other decider formulas := by
  induction formulas with
  | nil => rfl
  | cons head rest ih =>
    rw [List.flatMap_cons, List.forall_mem_append] at h
    rw [decides_cons, decides_cons, map_congr h.1, ih h.2]

theorem value_map_all_eq_not_decides (truth : α → Bool) (formulas : List (Formula α)) :
    ((all formulas).map truth).value = !decides truth false formulas := by
  rw [value_map_all, List.all_map, decides, List.not_any_eq_all_not]
  refine congrArg formulas.all (funext fun formula => ?_)
  cases h : (formula.map truth).value <;> simp [h]

theorem value_map_any_eq_decides (truth : α → Bool) (formulas : List (Formula α)) :
    ((any formulas).map truth).value = decides truth true formulas := by
  rw [value_map_any, List.any_map, decides]
  refine congrArg formulas.any (funext fun formula => ?_)
  cases h : (formula.map truth).value <;> simp [h]

theorem conjunction_traces {truth : α → Bool} {test : Formula α → Trace α ε Bool}
    {formulas : List (Formula α)} (h : ∀ formula ∈ formulas,
      test formula = ⟨formula.asked truth, .ok (formula.map truth).value⟩) :
    conjunction (formulas.map test) =
      ⟨askedUntil truth false formulas, .ok (!decides truth false formulas)⟩ := by
  induction formulas with
  | nil => rfl
  | cons head rest ih =>
    obtain ⟨hhead, hrest⟩ := List.forall_mem_cons.1 h
    rw [List.map_cons, conjunction, hhead, Trace.bind_of_ok rfl, askedUntil, decides_cons]
    cases (head.map truth).value with
    | true =>
      rw [if_pos rfl, ih hrest]
      rfl
    | false => rfl

theorem disjunction_traces {truth : α → Bool} {test : Formula α → Trace α ε Bool}
    {formulas : List (Formula α)} (h : ∀ formula ∈ formulas,
      test formula = ⟨formula.asked truth, .ok (formula.map truth).value⟩) :
    disjunction (formulas.map test) =
      ⟨askedUntil truth true formulas, .ok (decides truth true formulas)⟩ := by
  induction formulas with
  | nil => rfl
  | cons head rest ih =>
    obtain ⟨hhead, hrest⟩ := List.forall_mem_cons.1 h
    rw [List.map_cons, disjunction, hhead, Trace.bind_of_ok rfl, askedUntil, decides_cons]
    cases (head.map truth).value with
    | true => rfl
    | false =>
      rw [if_neg Bool.false_ne_true, ih hrest]
      rfl

/-- The atoms asked and the value are those of the trace. -/
theorem trace_eq {outcome : α → Except ε Bool} {truth : α → Bool} {formula : Formula α}
    (h : ∀ a ∈ formula.atoms, outcome a = .ok (truth a)) :
    formula.trace outcome = ⟨formula.asked truth, .ok (formula.map truth).value⟩ := by
  unfold trace
  induction formula with
  | atom a => rw [evaluateAsWritten, h a List.mem_cons_self, asked, map, value]
  | not formula ih =>
    rw [evaluateAsWritten, ih h, Trace.bind_of_ok rfl, map, value]
    exact congrArg (Trace.mk · _) (List.append_nil _)
  | all formulas ih =>
    rw [evaluateAsWritten, evaluationsAsWritten_eq, value_map_all_eq_not_decides]
    exact conjunction_traces fun formula hmem =>
      ih formula hmem fun a ha => h a (mem_atoms_all.2 ⟨formula, hmem, ha⟩)
  | any formulas ih =>
    rw [evaluateAsWritten, evaluationsAsWritten_eq, value_map_any_eq_decides]
    exact disjunction_traces fun formula hmem =>
      ih formula hmem fun a ha => h a (mem_atoms_any.2 ⟨formula, hmem, ha⟩)

theorem asked_sublist (truth : α → Bool) (formula : Formula α) :
    (formula.asked truth).Sublist formula.atoms := by
  have htried := tried_trace_sublist (fun a => .ok (truth a) : α → Except Unit Bool) formula
  rw [trace_eq fun _ _ => rfl] at htried
  exact htried

/-! ### What the atoms asked determine -/

theorem decides_eq_of_asked {truth fill : α → Bool} {decider : Bool} {formulas : List (Formula α)}
    (hmember : ∀ formula ∈ formulas, (∀ a ∈ formula.asked truth, fill a = truth a) →
      (formula.map fill).value = (formula.map truth).value)
    (h : ∀ a ∈ askedUntil truth decider formulas, fill a = truth a) :
    decides fill decider formulas = decides truth decider formulas := by
  induction formulas with
  | nil => rfl
  | cons head rest ih =>
    obtain ⟨hhead, hrest⟩ := List.forall_mem_cons.1 hmember
    rw [askedUntil] at h
    have hvalue := hhead fun a ha => h a (List.mem_append_left _ ha)
    rw [decides_cons, decides_cons, hvalue]
    by_cases hdecides : (head.map truth).value = decider
    · simp [hdecides]
    · rw [if_neg hdecides] at h
      rw [ih hrest fun a ha => h a (List.mem_append_right _ ha)]

/-- **The atoms asked determine the value.** -/
theorem value_eq_of_asked {truth fill : α → Bool} {formula : Formula α}
    (h : ∀ a ∈ formula.asked truth, fill a = truth a) :
    (formula.map fill).value = (formula.map truth).value := by
  induction formula with
  | atom a => exact h a List.mem_cons_self
  | not formula ih => exact congrArg (!·) (ih h)
  | all formulas ih =>
    rw [value_map_all_eq_not_decides, value_map_all_eq_not_decides, decides_eq_of_asked ih h]
  | any formulas ih =>
    rw [value_map_any_eq_decides, value_map_any_eq_decides, decides_eq_of_asked ih h]

/-! ### What fewer atoms leave open -/

/-- Truth values for some atoms beside those for all others. -/
theorem exists_patch (items : List α) (inside outside : α → Bool) :
    ∃ fill : α → Bool, (∀ a ∈ items, fill a = inside a) ∧ ∀ a ∉ items, fill a = outside a := by
  classical
  exact ⟨fun a => if a ∈ items then inside a else outside a, fun a ha => if_pos ha,
    fun a ha => if_neg ha⟩

/-- The truth values of the atoms given leave it open which value the formula has. -/
def Undetermined (truth : α → Bool) (given : List α) (formula : Formula α) : Prop :=
  ∀ b, ∃ fill : α → Bool, (∀ a ∈ given, fill a = truth a) ∧ (formula.map fill).value = b

theorem Filled.asked_ne_nil {formula : Formula α} (h : formula.Filled) (truth : α → Bool) :
    formula.asked truth ≠ [] := by
  induction h with
  | atom a => exact List.cons_ne_nil a []
  | not _ ih => exact ih
  | @all formulas hne _ ih | @any formulas hne _ ih =>
    obtain ⟨head, rest, rfl⟩ := List.exists_cons_of_ne_nil hne
    exact List.append_ne_nil_of_left_ne_nil (ih head List.mem_cons_self) _

theorem undetermined_askedUntil {truth : α → Bool} {decider : Bool} {formulas : List (Formula α)}
    (hfilled : ∀ formula ∈ formulas, formula.Filled) (hatoms : (formulas.flatMap atoms).Nodup)
    (hmember : ∀ formula ∈ formulas, formula.atoms.Nodup → ∀ {j},
      j < (formula.asked truth).length → formula.Undetermined truth ((formula.asked truth).take j))
    {j : Nat} (hj : j < (askedUntil truth decider formulas).length) (b : Bool) :
    ∃ fill : α → Bool, (∀ a ∈ (askedUntil truth decider formulas).take j, fill a = truth a) ∧
      decides fill decider formulas = b := by
  induction formulas generalizing j b with
  | nil => exact absurd hj (Nat.not_lt_zero j)
  | cons head rest ih =>
    rw [List.flatMap_cons, List.nodup_append] at hatoms
    obtain ⟨hheadAtoms, hrestAtoms, hdisjoint⟩ := hatoms
    obtain ⟨-, hrestFilled⟩ := List.forall_mem_cons.1 hfilled
    obtain ⟨hhead, hrest⟩ := List.forall_mem_cons.1 hmember
    have ih := @ih hrestFilled hrestAtoms hrest
    -- truth values of the atoms of the head do not touch the members behind it
    have hbehind : ∀ {fill outside : α → Bool}, (∀ a ∉ head.atoms, fill a = outside a) →
        decides fill decider rest = decides outside decider rest := by
      intro fill outside hfill
      refine decides_congr decider fun a ha => hfill a fun hatom => ?_
      exact hdisjoint a hatom a ha rfl
    by_cases hlt : j < (head.asked truth).length
    · -- the head is still open, and the members behind it may all be such that they do not decide
      have hquiet : ∃ outside : α → Bool, decides outside decider rest = false := by
        cases rest with
        | nil => exact ⟨truth, rfl⟩
        | cons next others =>
          have hnext := (hrestFilled next List.mem_cons_self).asked_ne_nil truth
          have hpos : 0 < (askedUntil truth decider (next :: others)).length :=
            List.length_pos_of_ne_nil (List.append_ne_nil_of_left_ne_nil hnext _)
          obtain ⟨outside, -, houtside⟩ := ih hpos false
          exact ⟨outside, houtside⟩
      obtain ⟨outside, houtside⟩ := hquiet
      obtain ⟨inside, hagrees, hvalue⟩ := hhead hheadAtoms hlt (b == decider)
      obtain ⟨fill, hin, hout⟩ := exists_patch head.atoms inside outside
      rw [askedUntil, List.take_append_of_le_length (Nat.le_of_lt hlt)]
      refine ⟨fill, fun a ha => ?_, ?_⟩
      · have hatom : a ∈ head.atoms := (head.asked_sublist truth).mem (List.mem_of_mem_take ha)
        rw [hin a hatom, hagrees a ha]
      · rw [decides_cons, map_congr hin, hvalue, hbehind hout, houtside]
        cases b <;> cases decider <;> rfl
    · -- the head was asked to the end, and it did not decide
      have hopen : (head.map truth).value ≠ decider := by
        intro hdecides
        rw [askedUntil, if_pos hdecides, List.append_nil] at hj
        exact hlt hj
      rw [askedUntil, if_neg hopen] at hj ⊢
      rw [List.length_append] at hj
      obtain ⟨outside, hagrees, hvalue⟩ :=
        @ih (j - (head.asked truth).length) (by omega) b
      obtain ⟨fill, hin, hout⟩ := exists_patch head.atoms truth outside
      rw [List.take_append, List.take_of_length_le (Nat.le_of_not_lt hlt)]
      refine ⟨fill, fun a ha => ?_, ?_⟩
      · by_cases hatom : a ∈ head.atoms
        · exact hin a hatom
        · have hrestAsked := (List.mem_append.1 ha).resolve_left fun hasked =>
            hatom ((head.asked_sublist truth).mem hasked)
          rw [hout a hatom, hagrees a hrestAsked]
      · rw [decides_cons, map_congr hin, beq_eq_false_iff_ne.2 hopen, hbehind hout, hvalue]
        rfl

/-- **The value is open until the last atom is asked**, if no group is empty and no atom occurs
twice. -/
theorem undetermined_asked {formula : Formula α} (hfilled : formula.Filled)
    (hatoms : formula.atoms.Nodup) {truth : α → Bool} {j : Nat}
    (hj : j < (formula.asked truth).length) :
    formula.Undetermined truth ((formula.asked truth).take j) := by
  induction hfilled generalizing j with
  | atom a =>
    intro b
    have hzero : j = 0 := Nat.lt_one_iff.1 hj
    subst hzero
    exact ⟨fun _ => b, fun _ hmem => absurd hmem List.not_mem_nil, rfl⟩
  | not _ ih =>
    intro b
    obtain ⟨fill, hagrees, hvalue⟩ := ih hatoms hj (!b)
    refine ⟨fill, hagrees, ?_⟩
    rw [map, value, hvalue, Bool.not_not]
  | all _ hfilled ih =>
    intro b
    rw [atoms, atomsList_eq] at hatoms
    obtain ⟨fill, hagrees, hdecides⟩ := undetermined_askedUntil hfilled hatoms ih hj (!b)
    refine ⟨fill, hagrees, ?_⟩
    rw [value_map_all_eq_not_decides, hdecides, Bool.not_not]
  | any _ hfilled ih =>
    intro b
    rw [atoms, atomsList_eq] at hatoms
    obtain ⟨fill, hagrees, hdecides⟩ := undetermined_askedUntil hfilled hatoms ih hj b
    refine ⟨fill, hagrees, ?_⟩
    rw [value_map_any_eq_decides, hdecides]

/-- Sorting does not change the value. -/
theorem value_map_presort (cost : α → Cost) (truth : α → Bool) (formula : Formula α) :
    ((formula.presort cost).map truth).value = (formula.map truth).value := by
  let outcome : α → Except Unit Bool := fun a => .ok (truth a)
  have hsorted : (formula.presort cost).evaluate cost outcome = formula.evaluate cost outcome := by
    rw [evaluate_eq_presort, evaluate_eq_presort, presort_presort]
  rw [evaluate_eq_ok cost fun _ _ => rfl, evaluate_eq_ok cost fun _ _ => rfl] at hsorted
  exact Except.ok.inj hsorted

theorem nodup_atoms_numbered (formula : Formula α) : formula.numbered.atoms.Nodup := by
  rw [numbered, atoms_numberedFrom]
  refine List.Nodup.of_map Prod.snd ?_
  rw [List.zipIdx_map_snd]
  exact List.nodup_range'

end Formula

/-! ### Passes that note items -/

/-- The pass follows a trace, and to a list that it carries along it adds the items tried. -/
def Notes {ι : Type} (context : Context) (calls : ι → List Call)
    (noting : StateT (List ι) (Pass ε) α) (trace : Trace ι ε α) : Prop :=
  ∀ items, (noting.run items).Follows context calls
    ⟨trace.tried, trace.result.map (·, items ++ trace.tried)⟩

theorem simulation_notes {ι : Type} (context : Context) (calls : ι → List Call) :
    Simulation (StateT (List ι) (Pass ε)) (Trace ι ε) (Notes context calls) where
  pure a items := by
    have hpure := (Pass.simulation_follows (ε := ε) context calls).pure (a, items)
    have hitems : (pure (a, items) : Trace ι ε _) = ⟨[], .ok (a, items ++ [])⟩ := by
      rw [List.append_nil]
      rfl
    rw [StateT.run_pure]
    exact hitems ▸ hpure
  bind := by
    intro α β noting trace f g hnoting hf items
    let after : α × List ι → Trace ι ε (β × List ι) := fun next =>
      ⟨(g next.1).tried, (g next.1).result.map (·, next.2 ++ (g next.1).tried)⟩
    have hbind := (Pass.simulation_follows context calls).bind (g := after) (hnoting items)
      fun next => hf next.1 next.2
    rw [StateT.run_bind]
    cases h : trace.result with
    | ok a =>
      rw [h, Trace.bind_of_ok rfl] at hbind
      rw [Trace.bind_of_ok h, ← List.append_assoc]
      exact hbind
    | error e =>
      rw [h, Trace.bind_of_error rfl] at hbind
      rw [Trace.bind_of_error h]
      exact hbind

namespace Evaluator

variable (evaluator : Evaluator)

/-- Note a leaf and test its literal. -/
def testNoting (leaf : Literal × Nat) : StateT (List (Literal × Nat)) (Pass EvalError) Bool := do
  modify (· ++ [leaf])
  liftM (evaluator.testSilently leaf.1)

/-- Evaluate a condition and note the leaves as they are invoked, each with its place. -/
def evaluateNoting (condition : Condition) :
    StateT (List (Literal × Nat)) (Pass EvalError) Bool :=
  condition.numbered.evaluate (fun leaf => evaluator.costs.cost leaf.1.call.function)
    evaluator.testNoting

/-- To note leaves changes nothing. -/
theorem forgets_evaluateNoting (condition : Condition) :
    Forgets (evaluator.evaluateNoting condition) (evaluator.evaluate condition) := by
  have htest : ∀ leaf : Literal × Nat,
      Forgets (evaluator.testNoting leaf) (evaluator.testSilently leaf.1) := fun leaf =>
    simulation_forgets.bind (forgets_modify _) fun _ => forgets_lift _
  have hplain := Formula.evaluate_numbered
    (fun literal => evaluator.costs.cost literal.call.function) evaluator.testSilently condition
  rw [evaluate, evaluateWith, ← hplain]
  exact simulation_forgets.evaluate _ _ fun leaf _ => htest leaf

theorem notes_testNoting (context : Context) (leaf : Literal × Nat) :
    Notes context (evaluator.registry.called ∘ Prod.fst) (evaluator.testNoting leaf)
      ⟨[leaf], evaluator.outcome context leaf.1⟩ := by
  intro items
  have hrun : (evaluator.testNoting leaf).run items =
      evaluator.testSilently leaf.1 >>= fun holds => pure (holds, items ++ [leaf]) := by
    rw [testNoting, StateT.run_bind]
    exact pure_bind _ _
  have hfollows := Pass.simulation_follows (ε := EvalError) context
    (evaluator.registry.called ∘ Prod.fst (β := Nat))
  have htest : (evaluator.testSilently leaf.1).Follows context
      (evaluator.registry.called ∘ Prod.fst)
      (⟨[leaf], evaluator.outcome context leaf.1⟩ : Trace (Literal × Nat) EvalError Bool) :=
    evaluator.follows_test context leaf.1
  have hnoting := hfollows.bind htest fun holds : Bool => hfollows.pure (holds, items ++ [leaf])
  rw [hrun]
  cases h : evaluator.outcome context leaf.1 with
  | ok holds =>
    rw [h, Trace.bind_of_ok rfl] at hnoting
    exact hnoting
  | error e =>
    rw [h, Trace.bind_of_error rfl] at hnoting
    exact hnoting

/-- A literal that is answered has the outcome told by its truth value. -/
theorem outcome_eq_ok_truth {context : Context} {literal : Literal}
    (h : ∃ b, evaluator.registry.answer context literal.call = .ok b) :
    evaluator.outcome context literal = .ok (evaluator.registry.truth context literal) := by
  obtain ⟨b, hb⟩ := h
  rw [outcome, Registry.truth, Registry.affirms, hb]
  rfl

theorem called_of_answer {registry : Registry} {context : Context} {literal : Literal}
    (h : ∃ b, registry.answer context literal.call = .ok b) :
    registry.called literal = [literal.call] := by
  obtain ⟨b, hb⟩ := h
  unfold Registry.answer at hb
  cases hpredicate : registry.predicate? literal.call.function with
  | none =>
    rw [hpredicate] at hb
    cases hb
  | some predicate => rw [Registry.called, hpredicate]; rfl

end Evaluator

/-- The value of a condition for truth values of its leaves, each with its place, groups taken as a
whole. -/
def Condition.valueUnder (condition : Condition) (assignment : Literal × Nat → Bool) : Bool :=
  (condition.numbered.map assignment).value

namespace Evaluator

/-! ### Leaves by cost -/

section SortedLeaves

variable (evaluator : Evaluator) (condition : Condition)

/-- The leaves of a condition, each with its place, the groups in the order in which they are
evaluated. -/
def sortedLeaves : Formula (Literal × Nat) :=
  condition.numbered.presort fun leaf => evaluator.costs.cost leaf.1.call.function

theorem atoms_sortedLeaves_perm :
    (evaluator.sortedLeaves condition).atoms.Perm condition.numbered.atoms :=
  Formula.atoms_presort_perm _ condition.numbered

theorem nodup_atoms_sortedLeaves : (evaluator.sortedLeaves condition).atoms.Nodup :=
  (evaluator.atoms_sortedLeaves_perm condition).nodup_iff.2
    (Formula.nodup_atoms_numbered condition)

theorem length_atoms_sortedLeaves :
    (evaluator.sortedLeaves condition).atoms.length = condition.atoms.length := by
  rw [(evaluator.atoms_sortedLeaves_perm condition).length_eq, Formula.numbered,
    Formula.atoms_numberedFrom, List.length_zipIdx]

variable {condition}

theorem getElem?_of_mem_sortedLeaves {leaf : Literal × Nat}
    (h : leaf ∈ (evaluator.sortedLeaves condition).atoms) :
    condition.atoms[leaf.2]? = some leaf.1 :=
  Formula.mem_atoms_numbered.1 ((evaluator.atoms_sortedLeaves_perm condition).mem_iff.1 h)

theorem filled_sortedLeaves (h : condition.Filled) : (evaluator.sortedLeaves condition).Filled :=
  h.numbered.presort _

theorem valueUnder_eq (assignment : Literal × Nat → Bool) :
    condition.valueUnder assignment = ((evaluator.sortedLeaves condition).map assignment).value :=
  (Formula.value_map_presort _ assignment condition.numbered).symm

/-- Where all leaves are answered, an evaluation notes the leaves that it asks, and it invokes these
and no others. -/
theorem run_evaluateNoting {context : Context} (hanswers : ∀ literal ∈ condition.atoms,
      ∃ b, evaluator.registry.answer context literal.call = .ok b) :
    let truth : Literal × Nat → Bool := fun leaf => evaluator.registry.truth context leaf.1
    let asked := (evaluator.sortedLeaves condition).asked truth
    let left := (evaluator.evaluateNoting condition).run [] context
    left.result = .ok (condition.valueUnder truth, asked) ∧
      left.events.filterMap Event.predicate? = asked.map (·.1.call) := by
  intro truth asked left
  let sorted := evaluator.sortedLeaves condition
  let outcome : Literal × Nat → Except EvalError Bool := fun leaf =>
    evaluator.outcome context leaf.1
  have hanswered : ∀ leaf ∈ sorted.atoms,
      ∃ b, evaluator.registry.answer context leaf.1.call = .ok b := fun leaf hmem =>
    hanswers leaf.1 (List.mem_of_getElem? (evaluator.getElem?_of_mem_sortedLeaves hmem))
  have htrace : sorted.trace outcome = ⟨asked, .ok (sorted.map truth).value⟩ :=
    Formula.trace_eq fun leaf hmem => evaluator.outcome_eq_ok_truth (hanswered leaf hmem)
  have hsorted : evaluator.evaluateNoting condition =
      sorted.evaluateAsWritten evaluator.testNoting := Formula.evaluate_eq_presort _ _ _
  have hnotes : Notes context (evaluator.registry.called ∘ Prod.fst)
      (sorted.evaluateAsWritten evaluator.testNoting) (sorted.trace outcome) :=
    Formula.evaluateAsWritten_of_simulation (simulation_notes context _) _ _
      fun leaf _ => evaluator.notes_testNoting context leaf
  obtain ⟨hresult, -, hcalls⟩ := hnotes [] context rfl
  rw [← hsorted, htrace] at hresult hcalls
  have hcalled : ∀ leaf ∈ asked,
      (evaluator.registry.called ∘ Prod.fst) leaf = [leaf.1.call] := fun leaf hmem =>
    called_of_answer (hanswered leaf ((sorted.asked_sublist truth).mem hmem))
  constructor
  · rw [evaluator.valueUnder_eq]
    exact hresult
  · rw [hcalls, List.flatMap_congr hcalled, List.map_eq_flatMap]

end SortedLeaves

/-! ### Evaluation -/

/-- **Evaluation stops when the answer is determined**, not earlier and not later.  Where no group
is empty and all leaves are answered, the evaluation invokes some of the leaves, none of them twice,
and ends in a truth value.  Before each of these leaves is invoked there are two assignments of
truth values to leaves that agree with the answers given so far and lead to different values; and
every assignment that agrees with all the answers leads to the value that the evaluation ends in. -/
theorem evaluate_stops_when_determined (evaluator : Evaluator) {condition : Condition}
    {context : Context} (hfilled : condition.Filled)
    (hanswers : ∀ literal ∈ condition.atoms,
      ∃ b, evaluator.registry.answer context literal.call = .ok b) :
    let truth : Literal × Nat → Bool := fun leaf => evaluator.registry.truth context leaf.1
    Prod.fst <$> (evaluator.evaluateNoting condition).run [] = evaluator.evaluate condition ∧
    ∃ leaves b,
      ((evaluator.evaluateNoting condition).run [] context).result = .ok (b, leaves) ∧
      (evaluator.evaluate condition context).result = .ok b ∧
      (evaluator.evaluate condition context).events.filterMap Event.predicate? =
        leaves.map (·.1.call) ∧
      (∀ leaf ∈ leaves, condition.atoms[leaf.2]? = some leaf.1) ∧
      leaves.Nodup ∧ leaves.length ≤ condition.atoms.length ∧
      (∀ j < leaves.length, ∃ assignment other : Literal × Nat → Bool,
        (∀ leaf ∈ leaves.take j, assignment leaf = truth leaf ∧ other leaf = truth leaf) ∧
        condition.valueUnder assignment ≠ condition.valueUnder other) ∧
      ∀ assignment : Literal × Nat → Bool, (∀ leaf ∈ leaves, assignment leaf = truth leaf) →
        condition.valueUnder assignment = b := by
  intro truth
  have hasked := (evaluator.sortedLeaves condition).asked_sublist truth
  obtain ⟨hresult, hcalls⟩ := evaluator.run_evaluateNoting hanswers
  have hplain := evaluator.forgets_evaluateNoting condition []
  refine ⟨hplain, (evaluator.sortedLeaves condition).asked truth, condition.valueUnder truth,
    hresult, ?_, ?_, ?_, ?_, ?_, ?_, ?_⟩
  · rw [← hplain, Pass.result_map, hresult]
    rfl
  · rw [← hplain, ← bind_pure_comp, Pass.calls_bind_of_silent _ fun _ _ => rfl]
    exact hcalls
  · exact fun leaf hmem => evaluator.getElem?_of_mem_sortedLeaves (hasked.mem hmem)
  · exact (evaluator.nodup_atoms_sortedLeaves condition).sublist hasked
  · exact evaluator.length_atoms_sortedLeaves condition ▸ hasked.length_le
  · intro j hj
    have hopen := Formula.undetermined_asked (evaluator.filled_sortedLeaves hfilled)
      (evaluator.nodup_atoms_sortedLeaves condition) hj
    obtain ⟨assignment, hagrees, htrue⟩ := hopen true
    obtain ⟨other, hagrees', hfalse⟩ := hopen false
    refine ⟨assignment, other, fun leaf hmem => ⟨hagrees leaf hmem, hagrees' leaf hmem⟩, ?_⟩
    rw [evaluator.valueUnder_eq, evaluator.valueUnder_eq, htrue, hfalse]
    exact Bool.noConfusion
  · intro assignment hagrees
    rw [evaluator.valueUnder_eq, evaluator.valueUnder_eq]
    exact Formula.value_eq_of_asked hagrees

/-- A conjunction that its first leaf decides, or a negation: the second leaf is not invoked. -/
theorem leaves_of_any_all :
    let registry := ((∅ : Registry).registerPredicate "yes" fun _ => .done (.ok true))
      |>.registerPredicate "no" fun _ => .done (.ok false)
    let condition : Condition :=
      .any [.all [Condition.call "no", Condition.call "yes"], .not (Condition.call "yes")]
    let evaluator : Evaluator := ⟨∅, registry⟩
    let context := Context.ofTokens []
    let leaves : List (Literal × Nat) := [(⟨⟨"no", ∅⟩, false⟩, 0), (⟨⟨"yes", ∅⟩, false⟩, 2)]
    ((evaluator.evaluateNoting condition).run [] context).result = .ok (false, leaves) ∧
      (∀ j < 2, ∃ assignment other : Literal × Nat → Bool,
        (∀ leaf ∈ leaves.take j, assignment leaf = registry.truth context leaf.1 ∧
          other leaf = registry.truth context leaf.1) ∧
        condition.valueUnder assignment ≠ condition.valueUnder other) ∧
      ∀ assignment : Literal × Nat → Bool,
        (∀ leaf ∈ leaves, assignment leaf = registry.truth context leaf.1) →
          condition.valueUnder assignment = false := by
  intro registry condition evaluator context leaves
  have hrun : ((evaluator.evaluateNoting condition).run [] context).result =
      .ok (false, leaves) := by
    rw [evaluateNoting, Formula.evaluate_eq_presort, Formula.presort_of_free fun _ => rfl]
    rfl
  have hpair : Formula.Filled (.all [Condition.call "no", Condition.call "yes"]) := by
    refine .all (List.cons_ne_nil _ _) fun formula hmem => ?_
    rcases List.mem_pair.1 hmem with rfl | rfl <;> exact .atom _
  have hfilled : condition.Filled := by
    refine .any (List.cons_ne_nil _ _) fun formula hmem => ?_
    rcases List.mem_pair.1 hmem with rfl | rfl
    · exact hpair
    · exact .not (.atom _)
  have hanswers : ∀ literal ∈ condition.atoms,
      ∃ b, evaluator.registry.answer context literal.call = .ok b := by
    intro literal hmem
    have hliteral : literal ∈ [⟨⟨"no", ∅⟩, false⟩, ⟨⟨"yes", ∅⟩, false⟩, ⟨⟨"yes", ∅⟩, false⟩] := hmem
    simp only [List.mem_cons, List.not_mem_nil, or_false] at hliteral
    rcases hliteral with rfl | rfl | rfl
    · exact ⟨false, rfl⟩
    · exact ⟨true, rfl⟩
    · exact ⟨true, rfl⟩
  obtain ⟨-, noted, b, hresult, -, -, -, -, -, hopen, hdetermined⟩ :=
    evaluator.evaluate_stops_when_determined hfilled hanswers
  cases hrun.symm.trans hresult
  exact ⟨hrun, hopen, hdetermined⟩

end Evaluator

end TokenRules
