import TokenRules.Proofs.Application

/-!
# What a context keeps

A pass may fill what a context keeps for speed, and it may change the edits.  A context
is `Kept` in another one if nothing else differs: an analysis is there only as the one
that the context had or would make, and to the sets of words some may be added, none
twice.  A pass `Keeps` its context if it leaves one that the context is kept in.  This
carries over from the parts of a pass to the whole, and all programs do it, so the
evaluation of a condition does (`keeps_evaluate`).  A condition does not even change the
edits: it has only `Consulted` the context, `consulted_evaluate`.
-/

namespace TokenRules

/-- The first sets are the beginning of the others, which have no list of words twice if the first
have none twice. -/
structure InlineSets.Kept (sets others : InlineSets) : Prop where
  entries : sets.entries <+: others.entries
  distinct : (sets.entries.map Prod.fst).Nodup → (others.entries.map Prod.fst).Nodup

namespace InlineSets.Kept

theorem refl (sets : InlineSets) : sets.Kept sets := ⟨List.prefix_rfl, id⟩

theorem trans {sets others last : InlineSets} (h : sets.Kept others) (hlast : others.Kept last) :
    sets.Kept last :=
  ⟨h.entries.trans hlast.entries, hlast.distinct ∘ h.distinct⟩

theorem keep {sets : InlineSets} {words : List String} (h : sets.lookup? words = none) :
    sets.Kept (sets.keep words) where
  entries := List.prefix_append _ _
  distinct := by
    intro hdistinct
    have hnew : words ∉ sets.entries.map Prod.fst := by
      intro hmem
      obtain ⟨entry, hentry, rfl⟩ := List.mem_map.1 hmem
      have hne := List.lookup_eq_none_iff.1 h entry hentry
      simp at hne
    rw [InlineSets.keep, List.map_append]
    refine List.nodup_append.2 ⟨hdistinct, List.pairwise_singleton _ words,
      fun key hkey other hother => ?_⟩
    rw [List.mem_singleton.1 hother]
    exact ne_of_mem_of_not_mem hkey hnew

end InlineSets.Kept

namespace Context

/-- The second context differs from the first at most in what it keeps and in the edits, and it
keeps what the first one kept. -/
structure Kept (before after : Context) : Prop where
  rest : after =
    { before with memo := after.memo, inlineSets := after.inlineSets, edits := after.edits }
  memo : after.memo = before.memo ∨ after.memo = some before.analysis
  inlineSets : before.inlineSets.Kept after.inlineSets

/-- Nothing happened to the context but that it was looked at. -/
structure Consulted (before after : Context) : Prop extends before.Kept after where
  edits : after.edits = before.edits

namespace Kept

variable {first middle last : Context}

theorem refl (context : Context) : context.Kept context := ⟨rfl, .inl rfl, .refl _⟩

theorem analysis (h : first.Kept last) : last.analysis = first.analysis := by
  rw [h.rest, Context.analysis]
  rcases h.memo with hmemo | hmemo
  · rw [hmemo]
    rfl
  · rw [hmemo, Option.getD_some]

theorem drained (h : first.Kept last) : last.sight.drained = first.sight.drained := by
  have hanalysis := h.analysis
  rw [h.rest] at hanalysis ⊢
  exact Sight.ext rfl rfl rfl rfl rfl hanalysis

theorem trans (h : first.Kept middle) (hlast : middle.Kept last) : first.Kept last where
  rest := by rw [hlast.rest, h.rest]
  memo := by
    rcases hlast.memo with hmemo | hmemo
    · rw [hmemo]
      exact h.memo
    · exact .inr (hmemo.trans (congrArg some h.analysis))
  inlineSets := h.inlineSets.trans hlast.inlineSets

theorem inlineSet (context : Context) (words : List String) :
    context.Kept (context.inlineSet words).2 := by
  unfold Context.inlineSet
  cases h : context.inlineSets.lookup? words with
  | some set => exact .refl context
  | none => exact ⟨rfl, .inl rfl, .keep h⟩

theorem analyzed (context : Context) : context.Kept context.analyzed :=
  ⟨rfl, .inr rfl, .refl _⟩

theorem withEdits (context : Context) (edits : List Edit) :
    context.Kept { context with edits } :=
  ⟨rfl, .inl rfl, .refl _⟩

end Kept

end Context

namespace Pass

variable {ε α β : Type}

/-- The pass leaves a context that its own is kept in. -/
def Keeps (pass : Pass ε α) : Prop := ∀ c : Context, c.Kept (pass c).context

theorem keeps_bind {pass : Pass ε α} {f : α → Pass ε β} (hpass : pass.Keeps)
    (hf : ∀ a, (f a).Keeps) : (pass >>= f).Keeps := by
  intro c
  cases h : (pass c).result with
  | ok a =>
    rw [bind_of_ok h]
    exact (hpass c).trans (hf a _)
  | error e =>
    rw [bind_of_error h]
    exact hpass c

theorem closed_keeps : Closed (ε := ε) Keeps where
  pure _ c := .refl c
  fail _ c := .refl c
  bind := keeps_bind

theorem keeps_analysis : (analysis : Pass ε Analysis).Keeps := by
  intro c
  unfold analysis
  cases c.memo with
  | some made => exact .refl c
  | none => exact .analyzed c

end Pass

theorem Program.keeps_run {access : Access} {ε α : Type} (program : Program access α) :
    (program.run : Pass ε α).Keeps := by
  induction program with
  | done result => exact Pass.closed_keeps.pure result
  | look next ih => exact Pass.keeps_bind (fun c => .refl c) fun context => ih context.view
  | analysis next ih => exact Pass.keeps_bind Pass.keeps_analysis ih
  | inlineSet words next ih => exact Pass.keeps_bind (fun c => .inlineSet c words) ih
  | record mayEdit edit next ih =>
    exact Pass.keeps_bind (fun c => .withEdits c _) fun _ => ih
  | drain mayEdit next ih => exact Pass.keeps_bind (fun c => .withEdits c _) ih

namespace Evaluator

theorem keeps_predicate {ε : Type} (predicate : Predicate) (call : Call) :
    (predicate.invoke call : Pass ε (Except ArgumentError Bool)).Keeps :=
  Pass.keeps_bind (fun c => .refl c) fun _ => Program.keeps_run _

theorem keeps_action {ε : Type} (action : Action) (call : Call) :
    (action.invoke call : Pass ε (Except ActionFailure Unit)).Keeps :=
  Pass.keeps_bind (fun c => .refl c) fun _ => Program.keeps_run _

theorem keeps_evaluate (evaluator : Evaluator) (condition : Condition) :
    (evaluator.evaluate condition).Keeps :=
  evaluator.closed_evaluate Pass.closed_keeps
    (fun predicate call _ => keeps_predicate predicate call) condition

/-- **A condition only consults the context**, whether it has a truth value or fails. -/
theorem consulted_evaluate (evaluator : Evaluator) (condition : Condition) (c : Context) :
    c.Consulted (evaluator.evaluate condition c).context :=
  { evaluator.keeps_evaluate condition c with
    edits := congrArg Sight.edits (evaluator.quiet_evaluate condition c).1 }

end Evaluator

end TokenRules
