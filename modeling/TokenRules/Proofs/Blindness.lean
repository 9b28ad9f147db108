import TokenRules.Proofs.Membership

/-!
# Answers that do not depend on edits

A program is `Blind` if its result does not depend on the edits of its context, which
it may read.  A pass `Answers` in some way from a start if it changes nothing but edits
and if it has this result in every context that looks like the start but for the edits;
this carries over from the parts of a pass to the whole (`Pass.simulation_answers`).  The
built-in functions are blind, so the answers of conditions and rules that use no other
functions are the same at any time.
-/

namespace TokenRules

namespace Pass

variable {ε α β : Type}

/-- The pass changes nothing in sight but the edits, and it has this result in every context that
looks like `start` but for the edits. -/
def Answers (start : Context) (pass : Pass ε α) (result : Except ε α) : Prop :=
  pass.Confined ∧
    ∀ c : Context, c.sight.drained = start.sight.drained → (pass c).result = result

theorem Answers.result_eq {start : Context} {pass : Pass ε α} {result : Except ε α}
    (h : pass.Answers start result) : (pass start).result = result := h.2 start rfl

theorem simulation_answers (start : Context) :
    Simulation (Pass ε) (Except ε) (Answers start) where
  pure a := ⟨closed_confined.pure a, fun _ _ => rfl⟩
  bind := by
    rintro α β pass result f g ⟨hconfined, hresult⟩ hf
    refine ⟨confined_bind hconfined fun a => (hf a).1, fun c hc => ?_⟩
    cases result with
    | error e =>
      rw [bind_of_error (hresult c hc)]
      rfl
    | ok a =>
      rw [bind_of_ok (hresult c hc)]
      exact (hf a).2 _ ((hconfined c).trans hc)

/-- The result of the pass does not depend on edits. -/
def Blind (pass : Pass ε α) : Prop := ∀ start, pass.Answers start (pass start).result

/-- The result can be read off what is seen besides the edits. -/
theorem Confined.blind {pass : Pass ε α} (hconfined : pass.Confined) (read : Sight → Except ε α)
    (h : ∀ c : Context, (pass c).result = read c.sight.drained) : pass.Blind := fun start =>
  ⟨hconfined, fun c hc => by rw [h, h, hc]⟩

theorem blind_of_answers {pass : Pass ε α} {result : Context → Except ε α}
    (h : ∀ start, pass.Answers start (result start)) : pass.Blind := fun start => by
  rw [(h start).result_eq]
  exact h start

theorem closed_blind : Closed (ε := ε) Blind where
  pure a := blind_of_answers fun start => (simulation_answers start).pure a
  fail e := fun _ => ⟨closed_confined.fail e, fun _ _ => rfl⟩
  bind hpass hf := blind_of_answers fun start =>
    (simulation_answers start).bind (hpass start) fun a => hf a start

end Pass

namespace Program

variable {access : Access} {ε α : Type}

/-- The result of the program does not depend on edits. -/
def Blind (program : Program access α) : Prop :=
  ∀ sight : Sight, (program.meaning sight).1 = (program.meaning sight.drained).1

theorem Blind.run {program : Program access α} (h : program.Blind) :
    (program.run : Pass ε α).Blind :=
  program.confined_run.blind (fun sight => .ok (program.meaning sight).1) fun c =>
    (congrArg Effect.result (program.effect_run c)).trans (congrArg Except.ok (h c.sight))

end Program

namespace Pass

variable {ε : Type}

theorem blind_note (event : Context → Event) : (note event : Pass ε Unit).Blind :=
  fun _ => ⟨fun _ => rfl, fun _ _ => rfl⟩

theorem blind_analysis : (analysis : Pass ε Analysis).Blind := by
  have hconfined : (analysis : Pass ε Analysis).Confined := fun c =>
    congrArg (Sight.drained ∘ Effect.sight) (effect_analysis (ε := ε) c)
  exact hconfined.blind (fun sight => .ok sight.analysis) fun c =>
    congrArg Effect.result (effect_analysis c)

theorem blind_inlineSet (words : List String) : (inlineSet words : Pass ε WordSet).Blind := by
  have hconfined : (inlineSet words : Pass ε WordSet).Confined := fun c =>
    congrArg (Sight.drained ∘ Effect.sight) (effect_inlineSet (ε := ε) words c)
  exact hconfined.blind (fun _ => .ok (.ofList words)) fun c =>
    congrArg Effect.result (effect_inlineSet words c)

end Pass

/-! ### Built-in functions -/

namespace Builtin

theorem blind_inList (args : Arguments) : (inList args).Blind := by
  intro sight
  cases hlist : args.text? "list" with
  | error e => simp only [inList, hlist, Program.meaning]
  | ok list =>
    cases hwords : args.texts? "words" with
    | error e => simp only [inList, hlist, hwords, Program.meaning]
    | ok words =>
      rw [meaning_inList hlist hwords, meaning_inList hlist hwords]
      rfl

theorem blind_isSyntacticFeature (args : Arguments) : (isSyntacticFeature args).Blind := by
  intro sight
  unfold isSyntacticFeature
  cases args.text "feature" <;> rfl

theorem blind_addAfter (args : Arguments) : (addAfter args).Blind := by
  intro sight
  unfold addAfter
  cases args.text "letter" with
  | error e => rfl
  | ok letter =>
    have hview : sight.drained.view.token? = sight.view.token? := rfl
    simp only [Program.meaning, hview]
    cases sight.view.token? <;> rfl

theorem eq_of_predicate? {name : String} {predicate : Predicate}
    (h : registry.predicate? name = some predicate) :
    predicate = inList ∨ predicate = isSyntacticFeature := by
  simp only [registry, Registry.predicate?_registerAction,
    Registry.predicate?_registerPredicate] at h
  split at h
  · exact .inr (Option.some.inj h).symm
  · split at h
    · exact .inl (Option.some.inj h).symm
    · cases h

theorem eq_of_action? {name : String} {action : Action} (h : registry.action? name = some action) :
    action = addAfter := by
  simp only [registry, Registry.action?_registerAction] at h
  split at h
  · exact (Option.some.inj h).symm
  · cases h

theorem blind_predicate {predicate : Predicate} {call : Call}
    (h : registry.predicate? call.function = some predicate) :
    (predicate.invoke call : Pass EvalError _).Blind := by
  refine Pass.closed_blind.bind (Pass.blind_note _) fun _ => Program.Blind.run ?_
  rcases eq_of_predicate? h with rfl | rfl
  · exact blind_inList call.args
  · exact blind_isSyntacticFeature call.args

theorem blind_action {action : Action} {call : Call}
    (h : registry.action? call.function = some action) :
    (action.invoke call : Pass EvalError _).Blind := by
  refine Pass.closed_blind.bind (Pass.blind_note _) fun _ => Program.Blind.run ?_
  rw [eq_of_action? h]
  exact blind_addAfter call.args

end Builtin

end TokenRules
