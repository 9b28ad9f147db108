import TokenRules.Condition
import TokenRules.Program

/-!
# Passes over a context

A `Pass` runs on a context and leaves a result, the context as it then is, and the events in
between. A failure keeps what was done before it: the context and the events are those up to the
failure, and nothing after it happens.
-/

namespace TokenRules

/-- What happened during a pass, in the order in which it began. -/
inductive Event
  /-- A predicate was called at a position. -/
  | predicate (call : Call) (index : Nat)
  /-- An action was called at a position. -/
  | action (call : Call) (index : Nat)
  /-- The analyzer was run on a token sequence. -/
  | analysis (tokens : List String)

namespace Event

/-- The predicate called, if one was. -/
def predicate? : Event → Option Call
  | .predicate call _ => some call
  | _ => none

def isAnalysis : Event → Bool
  | .analysis _ => true
  | _ => false

end Event

/-- What a pass leaves. -/
structure Outcome (ε α : Type) where
  result : Except ε α
  context : Context
  events : List Event

/-- A computation on a context that may fail. -/
def Pass (ε α : Type) : Type := Context → Outcome ε α

namespace Pass

variable {ε α β γ : Type}

/-- Continue from the outcome of a pass that succeeded. -/
def bind (pass : Pass ε α) (f : α → Pass ε β) : Pass ε β := fun context =>
  match pass context with
  | ⟨.ok a, context, events⟩ =>
    let after := f a context
    { after with events := events ++ after.events }
  | ⟨.error e, context, events⟩ => ⟨.error e, context, events⟩

instance : Monad (Pass ε) where
  pure a := fun context => ⟨.ok a, context, []⟩
  bind := bind

theorem bind_returning (pass : Pass ε α) : pass.bind pure = pass := by
  funext context
  unfold Pass.bind
  split <;> rename_i h <;> simp [h, pure]

theorem returning_bind (a : α) (f : α → Pass ε β) : (pure a : Pass ε α).bind f = f a := by
  funext context
  simp [Pass.bind, pure]

theorem bind_bind (pass : Pass ε α) (f : α → Pass ε β) (g : β → Pass ε γ) :
    (pass.bind f).bind g = pass.bind fun a => (f a).bind g := by
  funext context
  simp only [Pass.bind]
  rcases pass context with ⟨_ | a, context, events⟩
  · rfl
  · dsimp only
    rcases f a context with ⟨_ | b, context, events⟩
    · rfl
    · simp

instance : LawfulMonad (Pass ε) := .mk' _ bind_returning returning_bind bind_bind

/-- Fail without doing anything. -/
def fail (e : ε) : Pass ε α := fun context => ⟨.error e, context, []⟩

/-- The context at this point. -/
def context : Pass ε Context := fun context => ⟨.ok context, context, []⟩

/-- Change the context. -/
def modify (f : Context → Context) : Pass ε Unit := fun context => ⟨.ok (), f context, []⟩

/-- Note an event that depends on the context. -/
def note (event : Context → Event) : Pass ε Unit := fun context =>
  ⟨.ok (), context, [event context]⟩

/-- The analysis of the tokens, made now unless the context has it. -/
def analysis : Pass ε Analysis := fun context =>
  match context.memo with
  | some analysis => ⟨.ok analysis, context, []⟩
  | none => ⟨.ok context.analysis, context.analyzed, [.analysis context.tokens]⟩

/-- The set of an inline list. -/
def inlineSet (words : List String) : Pass ε WordSet := fun context =>
  let (set, context) := context.inlineSet words
  ⟨.ok set, context, []⟩

/-- The recorded edits, which are taken away. -/
def drain : Pass ε (List Edit) := fun context => ⟨.ok context.edits, context.drained, []⟩

end Pass

/-- Run a program on a context. -/
def Program.run {access : Access} {ε α : Type} : Program access α → Pass ε α
  | .done result => pure result
  | .look next => Pass.context >>= fun context => (next context.view).run
  | .analysis next => Pass.analysis >>= fun analysis => (next analysis).run
  | .inlineSet words next => Pass.inlineSet words >>= fun set => (next set).run
  | .record _ edit next => Pass.modify (·.record edit) >>= fun _ => next.run
  | .drain _ next => Pass.drain >>= fun edits => (next edits).run

/-- A sequence of programs runs as a sequence of passes. -/
theorem Program.run_bind {access : Access} {ε α β : Type} (program : Program access α)
    (f : α → Program access β) :
    (program >>= f).run (ε := ε) = program.run >>= fun a => (f a).run := by
  induction program with
  | done result => exact (pure_bind _ _).symm
  | look next ih =>
    exact (bind_congr fun context : Context => ih context.view).trans (bind_assoc _ _ _).symm
  | analysis next ih => exact (bind_congr ih).trans (bind_assoc _ _ _).symm
  | inlineSet words next ih => exact (bind_congr ih).trans (bind_assoc _ _ _).symm
  | record mayEdit edit next ih => exact (bind_congr fun _ => ih).trans (bind_assoc _ _ _).symm
  | drain mayEdit next ih => exact (bind_congr ih).trans (bind_assoc _ _ _).symm

end TokenRules
