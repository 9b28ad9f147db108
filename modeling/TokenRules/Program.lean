import TokenRules.Context

/-!
# Programs of predicates and actions

What a predicate or an action does with the context it is called in, as data: it may read the
context's view, ask for the analysis or the set of an inline list, and, if it may edit, record
edits or take the recorded ones away. There is no other way to look at a context, so nothing that
the context keeps for speed can show in a result.
-/

namespace TokenRules

/-- What a program may do besides reading. -/
inductive Access
  | reads
  | edits
  deriving DecidableEq

/-- A program that ends in a result of type `α`. -/
inductive Program (access : Access) (α : Type)
  | done (result : α)
  | look (next : View → Program access α)
  | analysis (next : Analysis → Program access α)
  | inlineSet (words : List String) (next : WordSet → Program access α)
  | record (mayEdit : access = .edits) (edit : Edit) (next : Program access α)
  | drain (mayEdit : access = .edits) (next : List Edit → Program access α)

namespace Program

variable {access : Access} {α β γ : Type}

/-- One program after the other. -/
def bind : Program access α → (α → Program access β) → Program access β
  | .done result, f => f result
  | .look next, f => .look fun view => (next view).bind f
  | .analysis next, f => .analysis fun analysis => (next analysis).bind f
  | .inlineSet words next, f => .inlineSet words fun set => (next set).bind f
  | .record mayEdit edit next, f => .record mayEdit edit (next.bind f)
  | .drain mayEdit next, f => .drain mayEdit fun edits => (next edits).bind f

instance : Monad (Program access) where
  pure := done
  bind := bind

theorem bind_done (program : Program access α) : program.bind .done = program := by
  induction program with
  | done result => rfl
  | look next ih => exact congrArg look (funext ih)
  | analysis next ih => exact congrArg analysis (funext ih)
  | inlineSet words next ih => exact congrArg (inlineSet words) (funext ih)
  | record mayEdit edit next ih => exact congrArg (record mayEdit edit) ih
  | drain mayEdit next ih => exact congrArg (drain mayEdit) (funext ih)

theorem bind_bind (program : Program access α) (f : α → Program access β)
    (g : β → Program access γ) :
    (program.bind f).bind g = program.bind fun a => (f a).bind g := by
  induction program with
  | done result => rfl
  | look next ih => exact congrArg look (funext ih)
  | analysis next ih => exact congrArg analysis (funext ih)
  | inlineSet words next ih => exact congrArg (inlineSet words) (funext ih)
  | record mayEdit edit next ih => exact congrArg (record mayEdit edit) ih
  | drain mayEdit next ih => exact congrArg (drain mayEdit) (funext ih)

instance : LawfulMonad (Program access) := .mk' _ bind_done (fun _ _ => rfl) bind_bind

end Program

end TokenRules
