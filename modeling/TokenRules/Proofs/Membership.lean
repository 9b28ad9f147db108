import TokenRules.Builtin
import TokenRules.Proofs.Answers
import TokenRules.WordSet.Lemmas

/-!
# Membership of the current token

The two questions that `in_list` answers, as functions of the view: whether the
current token is in the list of a name (`View.isListed`), and whether it is one of
some words (`View.isOneOf`).  `meaning_inList` says which one is asked, and
`answer_inList` and `answer_inWords` what the conditions `Condition.inList` and
`Condition.inWords` come to in every context.
-/

namespace TokenRules

namespace View

/-- Whether there is a current token that, in normal form, is in the list called `name`.  The empty
name is the name of no list. -/
def isListed (view : View) (name : String) : Bool :=
  name != "" && view.normalized?.any (view.lists.lookup name).contains

/-- Whether there is a current token that, in normal form, is one of `words`. -/
def isOneOf (view : View) (words : List String) : Bool := view.normalized?.any words.contains

theorem isListed_iff {view : View} {name : String} :
    view.isListed name = true ↔ name ≠ "" ∧
      ∃ token, view.token? = some token ∧ view.normalize token ∈ view.lists.lookup name := by
  rw [isListed, normalized?, Bool.and_eq_true, bne_iff_ne, Option.any_map]
  simp [Option.any_eq_true]

theorem isOneOf_iff {view : View} {words : List String} :
    view.isOneOf words = true ↔
      ∃ token, view.token? = some token ∧ view.normalize token ∈ words := by
  rw [isOneOf, normalized?, Option.any_map]
  simp [Option.any_eq_true]

theorem isOneOf_nil (view : View) : view.isOneOf [] = false := by
  rw [isOneOf]
  cases view.normalized? <;> rfl

end View

theorem WordSet.contains_ofList (words : List String) :
    (ofList words).contains = words.contains := by
  funext word
  rw [Bool.eq_iff_iff, contains_iff, mem_ofList, List.contains_iff_mem]

/-! ### Arguments of membership tests -/

namespace Arguments

theorem text?_insert_text (args : Arguments) (name value : String) :
    text? (args.insert name (.text value)) name = .ok (some value) := by
  simp [text?, Argument.asText?]

theorem text?_eq_none {args : Arguments} {name : String} (h : args.get? name = none) :
    args.text? name = .ok none := by
  rw [text?, h]

theorem texts?_eq_none {args : Arguments} {name : String} (h : args.get? name = none) :
    args.texts? name = .ok none := by
  rw [texts?, h]

theorem mapM_asText?_map_text (values : List String) :
    (values.map Argument.text).mapM Argument.asText? = some values := by
  induction values with
  | nil => rfl
  | cons value rest ih => simp [ih, Argument.asText?]

theorem texts?_insert_list (args : Arguments) (name : String) (values : List String) :
    texts? (args.insert name (.list (values.map .text))) name = .ok (some values) := by
  have htexts : (Argument.list (values.map .text)).asTexts? = some values :=
    mapM_asText?_map_text values
  rw [texts?, NameMap.get?_insert, if_pos rfl]
  simp only [htexts]

end Arguments

/-! ### The built-in predicate -/

/-- A named list counts before inline words; of no words at all the token is none. -/
theorem Builtin.meaning_inList {args : Arguments} {list : Option String}
    {words : Option (List String)} (hlist : args.text? "list" = .ok list)
    (hwords : args.texts? "words" = .ok words) (sight : Sight) :
    ((Builtin.inList args).meaning sight).1 =
      .ok (match list.filter (· != "") with
        | some name => sight.view.isListed name
        | none => sight.view.isOneOf (words.getD [])) := by
  simp only [Builtin.inList, hlist, hwords, Program.meaning]
  cases htoken : sight.view.normalized? with
  | none =>
    cases list.filter (· != "") <;> simp [View.isListed, View.isOneOf, htoken, Program.meaning]
  | some token =>
    cases hname : list.filter (· != "") with
    | some name =>
      have hne : (name != "") = true := (Option.filter_eq_some_iff.1 hname).2
      simp [View.isListed, htoken, hne, Program.meaning]
    | none =>
      cases words.getD [] with
      | nil => simp [View.isOneOf, htoken, Program.meaning]
      | cons word rest =>
        simp [View.isOneOf, htoken, Program.meaning, WordSet.contains_ofList]

theorem Builtin.predicate?_in_list :
    Builtin.registry.predicate? "in_list" = some Builtin.inList := by
  simp [Builtin.registry]

namespace Registry

variable {registry : Registry} (h : registry.predicate? "in_list" = some Builtin.inList)

include h

theorem answer_inList (context : Context) (name : String) :
    registry.answer context ⟨"in_list", (∅ : Arguments).insert "list" (.text name)⟩ =
      .ok (context.view.isListed name) := by
  rw [answer_of_predicate? h, Builtin.meaning_inList (Arguments.text?_insert_text ∅ "list" name)
    (Arguments.texts?_eq_none (by simp))]
  cases hname : name != "" with
  | true =>
    rw [Option.filter_some, if_pos hname]
    rfl
  | false =>
    rw [Option.filter_some, if_neg (by simp [hname]), View.isListed, hname, Bool.false_and]
    exact congrArg Except.ok (View.isOneOf_nil _)

theorem answer_inWords (context : Context) (words : List String) :
    registry.answer context
        ⟨"in_list", (∅ : Arguments).insert "words" (.list (words.map .text))⟩ =
      .ok (context.view.isOneOf words) := by
  rw [answer_of_predicate? h, Builtin.meaning_inList (Arguments.text?_eq_none (by simp))
    (Arguments.texts?_insert_list ∅ "words" words)]
  rfl

end Registry

end TokenRules
