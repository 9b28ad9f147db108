import TokenRules.Pass

/-!
# What can be seen of a context

A context keeps an analysis and sets of inline lists for speed.  Its `sight` is
the context without the question which of these are kept already: the analysis is
the one that it has or would make, and a set of words is the same either way
(`fst_inlineSet`).  Programs are functions of the sight (`Program.meaning`), and a
run of a program does to a context what its meaning does to the sight
(`effect_run`); a program that only reads leaves the sight as it is
(`meaning_reads`).

The `effect` of an outcome is its result, the sight that it leaves and the
actions that it called; which predicates were called and when the analyzer ran is
left out.  A pass is `Determined` if its effect depends on the sight only,
`Confined` if it changes nothing in sight but the edits, and `Quiet` if it changes
nothing in sight and calls no action.  All three are `Closed`: they carry over from
the parts of a pass to the whole.  Two passes are `Alike` if they have one effect on
contexts that look alike.
-/

namespace TokenRules

/-- A context apart from what it keeps for speed. -/
@[ext] structure Sight where
  tokens : List String
  index : Nat
  lists : WordLists
  analyzer : Analyzer
  edits : List Edit
  analysis : Analysis

def Sight.view (sight : Sight) : View where
  tokens := sight.tokens
  index := sight.index
  lists := sight.lists
  normalize := sight.analyzer.normalize
  edits := sight.edits

/-- The sight without its edits. -/
def Sight.drained (sight : Sight) : Sight := { sight with edits := [] }

/-- A set that is kept is that of the words it is kept under. -/
theorem InlineSets.eq_ofList (sets : InlineSets) {words : List String} {set : WordSet}
    (h : sets.lookup? words = some set) : set = .ofList words := by
  obtain ⟨before, after, hentries, -⟩ := List.lookup_eq_some_iff.1 h
  exact sets.sound (words, set) (by simp [hentries])

namespace Context

/-- What can be seen of a context, whatever it keeps. -/
def sight (context : Context) : Sight where
  tokens := context.tokens
  index := context.index
  lists := context.lists
  analyzer := context.analyzer
  edits := context.edits
  analysis := context.analysis

/-- A set that is kept is the one that would be made. -/
theorem fst_inlineSet (context : Context) (words : List String) :
    (context.inlineSet words).1 = .ofList words := by
  unfold inlineSet
  cases h : context.inlineSets.lookup? words with
  | some set => exact context.inlineSets.eq_ofList h
  | none => rfl

@[simp] theorem sight_inlineSet (context : Context) (words : List String) :
    (context.inlineSet words).2.sight = context.sight := by
  unfold inlineSet
  cases context.inlineSets.lookup? words <;> rfl

end Context

/-! ### Effects -/

/-- The action called and where, if one was. -/
def Event.action? : Event → Option (Call × Nat)
  | .action call index => some (call, index)
  | _ => none

/-- What a pass leaves apart from the caches of the context and the calls of predicates. -/
@[ext] structure Effect (ε α : Type) where
  result : Except ε α
  sight : Sight
  actions : List (Call × Nat)

def Outcome.effect {ε α : Type} (outcome : Outcome ε α) : Effect ε α where
  result := outcome.result
  sight := outcome.context.sight
  actions := outcome.events.filterMap Event.action?

namespace Pass

variable {ε α β : Type}

theorem bind_of_ok {pass : Pass ε α} {context : Context} {a : α}
    (h : (pass context).result = .ok a) (f : α → Pass ε β) :
    (pass >>= f) context =
      ⟨(f a (pass context).context).result, (f a (pass context).context).context,
        (pass context).events ++ (f a (pass context).context).events⟩ := by
  cases hpass : pass context with
  | mk result after events =>
    obtain rfl : result = .ok a := by rw [hpass] at h; exact h
    show Pass.bind pass f context = _
    simp only [Pass.bind, hpass]

theorem bind_of_error {pass : Pass ε α} {context : Context} {e : ε}
    (h : (pass context).result = .error e) (f : α → Pass ε β) :
    (pass >>= f) context = ⟨.error e, (pass context).context, (pass context).events⟩ := by
  cases hpass : pass context with
  | mk result after events =>
    obtain rfl : result = .error e := by rw [hpass] at h; exact h
    show Pass.bind pass f context = _
    simp only [Pass.bind, hpass]

theorem effect_bind_of_ok {pass : Pass ε α} {context : Context} {a : α}
    (h : (pass context).result = .ok a) (f : α → Pass ε β) :
    ((pass >>= f) context).effect =
      { (f a (pass context).context).effect with
        actions :=
          (pass context).effect.actions ++ (f a (pass context).context).effect.actions } := by
  rw [bind_of_ok h]
  exact Effect.ext rfl rfl (List.filterMap_append ..)

/-- Where a pass is known by its effect, what comes after it starts from a context of which the
sight is known. -/
theorem exists_effect_bind {pass : Pass ε α} {context : Context} {a : α} {sight : Sight}
    {actions : List (Call × Nat)} (h : (pass context).effect = ⟨.ok a, sight, actions⟩)
    (f : α → Pass ε β) :
    ∃ after : Context, after.sight = sight ∧ ((pass >>= f) context).effect =
      { (f a after).effect with actions := actions ++ (f a after).effect.actions } := by
  refine ⟨(pass context).context, congrArg Effect.sight h, ?_⟩
  rw [effect_bind_of_ok (congrArg Effect.result h), h]

theorem map_apply (f : α → β) (pass : Pass ε α) (context : Context) :
    (f <$> pass) context =
      ⟨(pass context).result.map f, (pass context).context, (pass context).events⟩ := by
  rw [← bind_pure_comp]
  cases h : (pass context).result with
  | ok a =>
    rw [bind_of_ok h]
    exact congrArg (Outcome.mk _ _) (List.append_nil _)
  | error e =>
    rw [bind_of_error h]
    rfl

theorem result_map (f : α → β) (pass : Pass ε α) (context : Context) :
    ((f <$> pass) context).result = (pass context).result.map f :=
  congrArg Outcome.result (map_apply f pass context)

/-- A property that a pass has if its parts do. -/
structure Closed (P : ∀ {α : Type}, Pass ε α → Prop) : Prop where
  pure : ∀ {α : Type} (a : α), P (pure a)
  fail : ∀ {α : Type} (e : ε), P (fail e : Pass ε α)
  bind : ∀ {α β : Type} {pass : Pass ε α} {f : α → Pass ε β},
    P pass → (∀ a, P (f a)) → P (pass >>= f)

theorem Closed.map {P : ∀ {α : Type}, Pass ε α → Prop} (hP : Closed P) (f : α → β) {pass : Pass ε α}
    (h : P pass) : P (f <$> pass) := by
  rw [← bind_pure_comp]
  exact hP.bind h fun a => hP.pure (f a)

/-! ### Passes that depend on the sight only -/

/-- Two passes come to the same on contexts that look alike. -/
def Alike (pass other : Pass ε α) : Prop :=
  ∀ ⦃c d : Context⦄, c.sight = d.sight → (pass c).effect = (other d).effect

theorem alike_bind {pass other : Pass ε α} {f g : α → Pass ε β} (hpass : pass.Alike other)
    (hf : ∀ a, (f a).Alike (g a)) : (pass >>= f).Alike (other >>= g) := by
  intro c d h
  have hresult : (pass c).result = (other d).result := congrArg Effect.result (hpass h)
  have hsight : (pass c).context.sight = (other d).context.sight :=
    congrArg Effect.sight (hpass h)
  have hactions : (pass c).effect.actions = (other d).effect.actions :=
    congrArg Effect.actions (hpass h)
  cases hd : (other d).result with
  | ok a =>
    rw [effect_bind_of_ok hd, effect_bind_of_ok (hresult.trans hd), hpass h, hf a hsight]
  | error e =>
    rw [bind_of_error hd, bind_of_error (hresult.trans hd)]
    exact Effect.ext rfl hsight hactions

/-- What the pass comes to depends on the sight of its context only. -/
def Determined (pass : Pass ε α) : Prop := pass.Alike pass

theorem closed_determined : Closed (ε := ε) Determined where
  pure _ _ _ h := Effect.ext rfl h rfl
  fail _ _ _ h := Effect.ext rfl h rfl
  bind := alike_bind

/-! ### Passes that change the edits only -/

/-- The pass changes nothing in sight but the edits. -/
def Confined (pass : Pass ε α) : Prop :=
  ∀ c : Context, (pass c).context.sight.drained = c.sight.drained

theorem confined_bind {pass : Pass ε α} {f : α → Pass ε β} (hpass : pass.Confined)
    (hf : ∀ a, (f a).Confined) : (pass >>= f).Confined := by
  intro c
  cases h : (pass c).result with
  | ok a =>
    rw [bind_of_ok h]
    exact (hf a _).trans (hpass c)
  | error e =>
    rw [bind_of_error h]
    exact hpass c

theorem closed_confined : Closed (ε := ε) Confined where
  pure _ _ := rfl
  fail _ _ := rfl
  bind := confined_bind

/-! ### Passes that leave no trace in sight -/

/-- The pass changes nothing in sight and calls no action. -/
def Quiet (pass : Pass ε α) : Prop :=
  ∀ c : Context, (pass c).effect.sight = c.sight ∧ (pass c).effect.actions = []

theorem Quiet.confined {pass : Pass ε α} (h : pass.Quiet) : pass.Confined := fun c =>
  congrArg Sight.drained (h c).1

theorem quiet_bind {pass : Pass ε α} {f : α → Pass ε β} (hpass : pass.Quiet)
    (hf : ∀ a, (f a).Quiet) : (pass >>= f).Quiet := by
  intro c
  obtain ⟨hsight, hactions⟩ := hpass c
  cases h : (pass c).result with
  | ok a =>
    obtain ⟨hsight', hactions'⟩ := hf a (pass c).context
    rw [effect_bind_of_ok h]
    exact ⟨hsight'.trans hsight, by rw [hactions, hactions', List.append_nil]⟩
  | error e =>
    rw [bind_of_error h]
    exact ⟨hsight, hactions⟩

theorem closed_quiet : Closed (ε := ε) Quiet where
  pure _ _ := ⟨rfl, rfl⟩
  fail _ _ := ⟨rfl, rfl⟩
  bind := quiet_bind

end Pass

/-! ### Programs -/

namespace Program

variable {access : Access} {ε α : Type}

/-- What a program comes to at a sight: its result and the sight that it leaves. -/
def meaning : Program access α → Sight → α × Sight
  | .done result, sight => (result, sight)
  | .look next, sight => (next sight.view).meaning sight
  | .analysis next, sight => (next sight.analysis).meaning sight
  | .inlineSet words next, sight => (next (WordSet.ofList words)).meaning sight
  | .record _ edit next, sight => next.meaning { sight with edits := sight.edits ++ [edit] }
  | .drain _ next, sight => (next sight.edits).meaning { sight with edits := [] }

end Program

namespace Pass

variable {ε α : Type}

theorem effect_context (c : Context) :
    (context c : Outcome ε Context).effect = ⟨.ok c, c.sight, []⟩ := rfl

/-- An analysis is the same whether it is kept or made. -/
theorem effect_analysis (c : Context) :
    (analysis c : Outcome ε Analysis).effect = ⟨.ok c.sight.analysis, c.sight, []⟩ := by
  have hanalysis : c.sight.analysis = c.memo.getD (c.analyzer.analyze c.tokens) := rfl
  unfold analysis
  cases h : c.memo with
  | some made => rw [hanalysis, h]; rfl
  | none => rfl

theorem effect_inlineSet (words : List String) (c : Context) :
    (inlineSet words c : Outcome ε WordSet).effect = ⟨.ok (WordSet.ofList words), c.sight, []⟩ :=
  Effect.ext (congrArg Except.ok (c.fst_inlineSet words)) (c.sight_inlineSet words) rfl

theorem effect_modify (f : Context → Context) (c : Context) :
    (modify f c : Outcome ε Unit).effect = ⟨.ok (), (f c).sight, []⟩ := rfl

theorem effect_drain (c : Context) :
    (drain c : Outcome ε (List Edit)).effect = ⟨.ok c.edits, c.drained.sight, []⟩ := rfl

end Pass

namespace Program

variable {access : Access} {ε α : Type}

/-- **A run is its meaning.**  It ends in the result of the program, and it does to the sight of
the context what the program means. -/
theorem effect_run (program : Program access α) (c : Context) :
    (program.run c : Outcome ε α).effect =
      ⟨.ok (program.meaning c.sight).1, (program.meaning c.sight).2, []⟩ := by
  induction program generalizing c with
  | done result => rfl
  | look next ih =>
    obtain ⟨after, hsight, heffect⟩ :=
      Pass.exists_effect_bind (Pass.effect_context (ε := ε) c) fun context =>
        (next context.view).run
    rw [run, heffect, ih, hsight]
    rfl
  | analysis next ih =>
    obtain ⟨after, hsight, heffect⟩ :=
      Pass.exists_effect_bind (Pass.effect_analysis (ε := ε) c) fun made => (next made).run
    rw [run, heffect, ih, hsight]
    rfl
  | inlineSet words next ih =>
    obtain ⟨after, hsight, heffect⟩ :=
      Pass.exists_effect_bind (Pass.effect_inlineSet (ε := ε) words c) fun set => (next set).run
    rw [run, heffect, ih, hsight]
    rfl
  | record mayEdit edit next ih =>
    obtain ⟨after, hsight, heffect⟩ :=
      Pass.exists_effect_bind (Pass.effect_modify (ε := ε) (·.record edit) c) fun _ => next.run
    rw [run, heffect, ih, hsight]
    rfl
  | drain mayEdit next ih =>
    obtain ⟨after, hsight, heffect⟩ :=
      Pass.exists_effect_bind (Pass.effect_drain (ε := ε) c) fun edits => (next edits).run
    rw [run, heffect, ih, hsight]
    rfl

/-- A program that may only read leaves the sight as it is. -/
theorem meaning_reads (program : Program .reads α) (sight : Sight) :
    (program.meaning sight).2 = sight := by
  induction program with
  | done result => rfl
  | look next ih => exact ih sight.view
  | analysis next ih => exact ih sight.analysis
  | inlineSet words next ih => exact ih (WordSet.ofList words)
  | record mayEdit | drain mayEdit => cases mayEdit

/-- A program changes nothing in sight but the edits. -/
theorem meaning_drained (program : Program access α) (sight : Sight) :
    (program.meaning sight).2.drained = sight.drained := by
  induction program generalizing sight with
  | done result => rfl
  | look next ih => exact ih sight.view sight
  | analysis next ih => exact ih sight.analysis sight
  | inlineSet words next ih => exact ih (WordSet.ofList words) sight
  | record mayEdit edit next ih => exact ih _
  | drain mayEdit next ih => exact ih sight.edits _

theorem determined_run (program : Program access α) : (program.run : Pass ε α).Determined := by
  intro c d h
  rw [effect_run, effect_run, h]

theorem confined_run (program : Program access α) : (program.run : Pass ε α).Confined := fun c =>
  (congrArg Sight.drained (congrArg Effect.sight (program.effect_run c))).trans
    (program.meaning_drained c.sight)

end Program

end TokenRules
