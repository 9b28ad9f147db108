import TokenRules.Engine

/-!
# Inspection texts

Short texts that show the state of contexts, registries and engines. Names and tokens are quoted.
-/

namespace TokenRules

/-- Items between brackets. -/
def bracketed (items : List String) : String := "[" ++ String.intercalate ", " items ++ "]"

/-- A name with fields in braces; `more` stands after them if not all fields are shown. -/
def fieldsText (name : String) (fields : List (String × String)) (more : Bool) : String :=
  let shown := fields.map fun field => field.1 ++ ": " ++ field.2
  name ++ " \x7b " ++ String.intercalate ", " (shown ++ if more then [".."] else []) ++ " \x7d"

def Edit.inspect (edit : Edit) : String :=
  fieldsText "InsertAfter"
    [("position", toString edit.position), ("text", Text.quoted edit.text)] false

def Context.inspect (context : Context) : String :=
  fieldsText "Context"
    [("tokens", bracketed (context.tokens.map Text.quoted)),
      ("index", toString context.index),
      ("lists", toString context.lists.size),
      ("analyzed", if context.memo.isSome then "true" else "false"),
      ("edits", bracketed (context.edits.map Edit.inspect))] true

def Registry.inspect (registry : Registry) : String :=
  fieldsText "Registry"
    [("predicates", bracketed (registry.predicates.names.map Text.quoted)),
      ("actions", bracketed (registry.actions.names.map Text.quoted))] false

def Engine.inspect (engine : Engine) : String :=
  fieldsText "Engine"
    [("rules", toString engine.rules.rules.length), ("registry", engine.registry.inspect),
      ("lists", toString engine.lists.size)] true

end TokenRules
