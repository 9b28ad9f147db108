import TokenRules.Registry

/-!
# Built-in predicates and actions

Two predicates that look at the current token, `in_list` and `is_syntactic_feature`, and one
action, `add_after`.
-/

namespace TokenRules.Builtin

/-- Whether the normal form of the current token is in the list that `list` names or, if no list
is named, among the inline `words`. Both arguments are checked before the token is looked at. -/
def inList : Predicate := fun args =>
  match args.text? "list", args.texts? "words" with
  | .error e, _ => .done (.error e)
  | .ok _, .error e => .done (.error e)
  | .ok list, .ok words => .look fun view =>
    match view.normalized? with
    | none => .done (.ok false)
    | some token =>
      match list.filter (· != "") with
      | some name => .done (.ok ((view.lists.lookup name).contains token))
      | none =>
        match words.getD [] with
        | [] => .done (.ok false)
        | words => .inlineSet words fun set => .done (.ok (set.contains token))

/-- Whether the analysis gives the current token the feature that `feature` names. -/
def isSyntacticFeature : Predicate := fun args =>
  match args.text "feature" with
  | .error e => .done (.error e)
  | .ok feature => .look fun view => .analysis fun analysis =>
    .done (.ok (analysis.hasFeature view.index feature))

/-- Record the insertion of `letter` after the current token. -/
def addAfter : Action := fun args =>
  match args.text "letter" with
  | .error e => .done (.error (.ofArgumentError e))
  | .ok letter => .look fun view =>
    match view.token? with
    | none => .done (.error ⟨"no token at position " ++ toString view.index, false⟩)
    | some _ => .record rfl ⟨view.index, letter⟩ (.done (.ok ()))

/-- The registry of the built-in functions. -/
def registry : Registry :=
  (((∅ : Registry).registerPredicate "in_list" inList).registerPredicate
    "is_syntactic_feature" isSyntacticFeature).registerAction "add_after" addAfter

end TokenRules.Builtin
