import TokenRules.Proofs.Sight
import TokenRules.Proofs.Simulation

/-!
# Evaluation that stops early

`Formula.evaluate` sorts the branches of a group by cost and stops at the first
that decides.  With outcomes in place of tests, that is in `Except ε`, an
evaluation that ends in a truth value ends in the value of the formula, whatever
the atoms that failed are taken for (`value_of_evaluate_eq_ok`), and it does end
in one if no atom fails (`evaluate_eq_ok`).  Of the order only this is used: the
branches that are tried are the branches of the group (`mem_cheapest_branches`).

Tests that run as passes come to the same: if they are determined and quiet, an
evaluation by them has the result of the evaluation of their outcomes at the
context where it starts (`result_evaluate`).
-/

namespace TokenRules

variable {α β ε : Type}

/-! ### Groups in any monad -/

/-- A disjunction is the opposite of the conjunction of the opposites. -/
theorem disjunction_eq_not_conjunction {m : Type → Type} [Monad m] [LawfulMonad m]
    (tests : List (m Bool)) :
    disjunction tests = (!·) <$> conjunction (tests.map ((!·) <$> ·)) := by
  induction tests with
  | nil => simp [disjunction, conjunction]
  | cons test rest ih =>
    rw [disjunction, List.map_cons, conjunction, ih, map_bind, bind_map_left]
    refine bind_congr fun holds => ?_
    cases holds <;> simp

/-! ### Groups of outcomes -/

theorem conjunction_eq_true_iff {outcomes : List (Except ε Bool)} :
    conjunction outcomes = .ok true ↔ ∀ outcome ∈ outcomes, outcome = .ok true := by
  induction outcomes with
  | nil => exact ⟨fun _ _ h => absurd h List.not_mem_nil, fun _ => rfl⟩
  | cons outcome rest ih =>
    rw [List.forall_mem_cons, ← ih]
    rcases outcome with e | _ | _
    · exact ⟨fun h => (nomatch h), fun h => (nomatch h.1)⟩
    · exact ⟨fun h => (nomatch h), fun h => (nomatch h.1)⟩
    · exact ⟨fun h => ⟨rfl, h⟩, fun h => h.2⟩

theorem false_mem_of_conjunction {outcomes : List (Except ε Bool)}
    (h : conjunction outcomes = .ok false) : .ok false ∈ outcomes := by
  induction outcomes with
  | nil => cases h
  | cons outcome rest ih =>
    rcases outcome with e | _ | _
    · cases h
    · exact List.mem_cons_self
    · exact List.mem_cons_of_mem _ (ih h)

theorem exists_conjunction_eq_ok {outcomes : List (Except ε Bool)}
    (h : ∀ outcome ∈ outcomes, ∃ b, outcome = .ok b) : ∃ b, conjunction outcomes = .ok b := by
  induction outcomes with
  | nil => exact ⟨true, rfl⟩
  | cons outcome rest ih =>
    obtain ⟨⟨b, rfl⟩, hrest⟩ := List.forall_mem_cons.1 h
    cases b with
    | false => exact ⟨false, rfl⟩
    | true => exact ih hrest

theorem map_not_eq_ok_iff {outcome : Except ε Bool} {b : Bool} :
    (!·) <$> outcome = .ok b ↔ outcome = .ok !b := by
  rcases outcome with e | c
  · exact ⟨fun h => (nomatch h), fun h => (nomatch h)⟩
  · cases b <;> cases c <;> simp [Functor.map, Except.map]

theorem disjunction_eq_false_iff {outcomes : List (Except ε Bool)} :
    disjunction outcomes = .ok false ↔ ∀ outcome ∈ outcomes, outcome = .ok false := by
  rw [disjunction_eq_not_conjunction, map_not_eq_ok_iff, Bool.not_false, conjunction_eq_true_iff,
    List.forall_mem_map]
  exact forall₂_congr fun _ _ => map_not_eq_ok_iff

theorem true_mem_of_disjunction {outcomes : List (Except ε Bool)}
    (h : disjunction outcomes = .ok true) : .ok true ∈ outcomes := by
  rw [disjunction_eq_not_conjunction, map_not_eq_ok_iff] at h
  obtain ⟨outcome, hmem, heq⟩ := List.mem_map.1 (false_mem_of_conjunction h)
  rwa [map_not_eq_ok_iff.1 heq] at hmem

theorem exists_disjunction_eq_ok {outcomes : List (Except ε Bool)}
    (h : ∀ outcome ∈ outcomes, ∃ b, outcome = .ok b) : ∃ b, disjunction outcomes = .ok b := by
  have hopposites : ∀ opposite ∈ outcomes.map ((!·) <$> ·), ∃ b, opposite = .ok b := by
    intro opposite hopposite
    obtain ⟨outcome, hmem, rfl⟩ := List.mem_map.1 hopposite
    obtain ⟨b, rfl⟩ := h outcome hmem
    exact ⟨!b, rfl⟩
  obtain ⟨b, hb⟩ := exists_conjunction_eq_ok hopposites
  exact ⟨!b, by rw [disjunction_eq_not_conjunction, hb]; rfl⟩

/-! ### Formulas over outcomes -/

namespace Formula

/-- The branches of a group that are tried are those of its members. -/
theorem mem_cheapest_branches {m : Type → Type} [Monad m] {cost : α → Cost} {test : α → m Bool}
    {formulas : List (Formula α)} {evaluation : m Bool} :
    evaluation ∈ cheapestFirst (branches cost test formulas) ↔
      ∃ formula ∈ formulas, formula.evaluate cost test = evaluation := by
  simp only [cheapestFirst_branches, List.mem_map, mem_ordered]

/-- **A truth value that evaluation ends in is the value of the formula**, whatever truth values
stand for the atoms that fail. -/
theorem value_of_evaluate_eq_ok {cost : α → Cost} {outcome : α → Except ε Bool} {truth : α → Bool}
    {formula : Formula α} {b : Bool}
    (htruth : ∀ a ∈ formula.atoms, ∀ b, outcome a = .ok b → truth a = b)
    (heval : formula.evaluate cost outcome = .ok b) : (formula.map truth).value = b := by
  induction formula generalizing b with
  | atom a => exact htruth a List.mem_cons_self b heval
  | not formula ih =>
    rw [evaluate, bind_pure_comp, map_not_eq_ok_iff] at heval
    rw [map, value, ih htruth heval, Bool.not_not]
  | all formulas ih =>
    have hmember : ∀ formula ∈ formulas, ∀ b, formula.evaluate cost outcome = .ok b →
        (formula.map truth).value = b := fun formula hmem b =>
      ih formula hmem fun a ha => htruth a (mem_atoms_all.2 ⟨formula, hmem, ha⟩)
    rw [map, mapList_eq, value_all, List.all_map]
    rw [evaluate] at heval
    cases b with
    | true =>
      rw [conjunction_eq_true_iff] at heval
      exact List.all_eq_true.2 fun formula hmem =>
        hmember formula hmem true (heval _ (mem_cheapest_branches.2 ⟨formula, hmem, rfl⟩))
    | false =>
      obtain ⟨formula, hmem, hfalse⟩ := mem_cheapest_branches.1 (false_mem_of_conjunction heval)
      exact List.all_eq_false.2 ⟨formula, hmem, by simp [hmember formula hmem false hfalse]⟩
  | any formulas ih =>
    have hmember : ∀ formula ∈ formulas, ∀ b, formula.evaluate cost outcome = .ok b →
        (formula.map truth).value = b := fun formula hmem b =>
      ih formula hmem fun a ha => htruth a (mem_atoms_any.2 ⟨formula, hmem, ha⟩)
    rw [map, mapList_eq, value_any, List.any_map]
    rw [evaluate] at heval
    cases b with
    | true =>
      obtain ⟨formula, hmem, htrue⟩ := mem_cheapest_branches.1 (true_mem_of_disjunction heval)
      exact List.any_eq_true.2 ⟨formula, hmem, hmember formula hmem true htrue⟩
    | false =>
      rw [disjunction_eq_false_iff] at heval
      exact List.any_eq_false.2 fun formula hmem => by
        simp [hmember formula hmem false (heval _ (mem_cheapest_branches.2 ⟨formula, hmem, rfl⟩))]

theorem exists_evaluate_eq_ok (cost : α → Cost) {outcome : α → Except ε Bool} {formula : Formula α}
    (h : ∀ a ∈ formula.atoms, ∃ b, outcome a = .ok b) :
    ∃ b, formula.evaluate cost outcome = .ok b := by
  induction formula with
  | atom a => exact h a List.mem_cons_self
  | not formula ih =>
    obtain ⟨b, hb⟩ := ih h
    exact ⟨!b, by rw [evaluate, hb]; rfl⟩
  | all formulas ih =>
    refine exists_conjunction_eq_ok fun evaluation hevaluation => ?_
    obtain ⟨formula, hmem, rfl⟩ := mem_cheapest_branches.1 hevaluation
    exact ih formula hmem fun a ha => h a (mem_atoms_all.2 ⟨formula, hmem, ha⟩)
  | any formulas ih =>
    refine exists_disjunction_eq_ok fun evaluation hevaluation => ?_
    obtain ⟨formula, hmem, rfl⟩ := mem_cheapest_branches.1 hevaluation
    exact ih formula hmem fun a ha => h a (mem_atoms_any.2 ⟨formula, hmem, ha⟩)

/-- Where no atom fails, evaluation ends in the value of the formula. -/
theorem evaluate_eq_ok (cost : α → Cost) {outcome : α → Except ε Bool} {truth : α → Bool}
    {formula : Formula α} (h : ∀ a ∈ formula.atoms, outcome a = .ok (truth a)) :
    formula.evaluate cost outcome = .ok (formula.map truth).value := by
  obtain ⟨b, hb⟩ := exists_evaluate_eq_ok cost fun a ha => ⟨truth a, h a ha⟩
  have htruth : ∀ a ∈ formula.atoms, ∀ b, outcome a = .ok b → truth a = b := by
    intro a ha b hb
    rw [h a ha] at hb
    exact Except.ok.inj hb
  rw [hb, value_of_evaluate_eq_ok htruth hb]

end Formula

/-! ### Tests that run as passes -/

/-- A property that carries over from the parts of a pass to the whole, as a relation. -/
theorem Pass.Closed.simulation {P : ∀ {α : Type}, Pass ε α → Prop} (hP : Pass.Closed P) :
    Simulation (Pass ε) (Pass ε) fun pass _ => P pass where
  pure := hP.pure
  bind := hP.bind

theorem Pass.simulation_alike : Simulation (Pass ε) (Pass ε) Pass.Alike where
  pure := Pass.closed_determined.pure
  bind := Pass.alike_bind

/-- From any context that looks like `context`, the pass comes to `outcome` and leaves no trace in
sight. -/
def Pass.ComesTo (context : Context) (pass : Pass ε α) (outcome : Except ε α) : Prop :=
  pass.Quiet ∧ ∀ c : Context, c.sight = context.sight → (pass c).result = outcome

theorem Pass.simulation_comesTo (context : Context) :
    Simulation (Pass ε) (Except ε) (Pass.ComesTo context) where
  pure a := ⟨Pass.closed_quiet.pure a, fun _ _ => rfl⟩
  bind := by
    rintro α β pass outcome f g ⟨hquiet, hresult⟩ hf
    refine ⟨Pass.quiet_bind hquiet fun a => (hf a).1, fun c hc => ?_⟩
    have hsight : (pass c).context.sight = context.sight := (hquiet c).1.trans hc
    cases outcome with
    | error e => rw [Pass.bind_of_error (hresult c hc)]; rfl
    | ok a =>
      rw [Pass.bind_of_ok (hresult c hc)]
      exact (hf a).2 _ hsight

namespace Formula

variable {cost : α → Cost} {test : α → Pass ε Bool}

theorem closed_evaluate {P : ∀ {α : Type}, Pass ε α → Prop} (hP : Pass.Closed P)
    (h : ∀ a, P (test a)) (formula : Formula α) : P (formula.evaluate cost test) :=
  hP.simulation.evaluate test test fun a _ => h a

/-- **Evaluation by tests comes to the evaluation of their outcomes** at the context where it
starts. -/
theorem result_evaluate (hdetermined : ∀ a, (test a).Determined) (hquiet : ∀ a, (test a).Quiet)
    (formula : Formula α) (c : Context) :
    (formula.evaluate cost test c).result = formula.evaluate cost fun a => (test a c).result := by
  have htest : ∀ a, Pass.ComesTo c (test a) (test a c).result := fun a =>
    ⟨hquiet a, fun d hd => congrArg Effect.result (hdetermined a hd)⟩
  exact ((Pass.simulation_comesTo c).evaluate test _ fun a _ => htest a).2 c rfl

end Formula

end TokenRules
