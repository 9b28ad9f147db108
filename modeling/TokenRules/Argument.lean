import TokenRules.NameMap
import TokenRules.Number.Layout

/-!
# Keyword arguments

Predicates and actions are called with `Arguments`, a finite map from names to values. A function
reads the arguments it knows by kind; reading one of another kind is an `ArgumentError`.
-/

namespace TokenRules

/-- Value of a keyword argument. -/
inductive Argument
  | bool (value : Bool)
  | int (value : Int64)
  | float (value : Binary64)
  | text (value : String)
  | list (items : List Argument)
  deriving Inhabited

namespace Argument

mutual

/-- The value as it is shown: texts stand between quotes as they are, lists between brackets. -/
def render : Argument → String
  | .bool value => if value then "true" else "false"
  | .int value => toString value.toInt
  | .float value => Layout.plain.text value
  | .text value => "\"" ++ value ++ "\""
  | .list items => "[" ++ String.intercalate ", " (renderItems items) ++ "]"

def renderItems : List Argument → List String
  | [] => []
  | item :: rest => item.render :: renderItems rest

end

mutual

/-- Equality of values, where floats are compared as numbers. -/
def agrees : Argument → Argument → Bool
  | .bool x, .bool y => x == y
  | .int x, .int y => x == y
  | .float x, .float y => x.agrees y
  | .text x, .text y => x == y
  | .list xs, .list ys => itemsAgree xs ys
  | _, _ => false

def itemsAgree : List Argument → List Argument → Bool
  | [], [] => true
  | x :: xs, y :: ys => x.agrees y && itemsAgree xs ys
  | _, _ => false

end

def asText? : Argument → Option String
  | .text value => some value
  | _ => none

def asList? : Argument → Option (List Argument)
  | .list items => some items
  | _ => none

/-- The texts of a list that holds nothing else. -/
def asTexts? (value : Argument) : Option (List String) :=
  value.asList?.bind (·.mapM asText?)

end Argument

/-- Why a function could not use an argument. -/
inductive ArgumentError
  | missing (name : String)
  | notText (name : String)
  | notTexts (name : String)
  deriving DecidableEq

def ArgumentError.message : ArgumentError → String
  | .missing name => s!"missing required argument '{name}'"
  | .notText name => s!"argument '{name}' must be a string"
  | .notTexts name => s!"argument '{name}' must be a list of strings"

/-- Keyword arguments of one call. -/
abbrev Arguments := NameMap Argument

namespace Arguments

/-- The arguments in the order of their names. -/
def render (args : Arguments) : String :=
  String.intercalate ", " (args.entries.map fun entry => entry.1 ++ "=" ++ entry.2.render)

/-- Equality of arguments, where floats are compared as numbers. -/
def agrees (args others : Arguments) : Bool :=
  args.names == others.names &&
    Argument.itemsAgree (args.entries.map (·.2)) (others.entries.map (·.2))

/-- The text given for `name`, if anything is. -/
def text? (args : Arguments) (name : String) : Except ArgumentError (Option String) :=
  match args.get? name with
  | none => .ok none
  | some value =>
    match value.asText? with
    | some text => .ok (some text)
    | none => .error (.notText name)

/-- The text given for `name`, which has to be there. -/
def text (args : Arguments) (name : String) : Except ArgumentError String :=
  match args.text? name with
  | .ok (some text) => .ok text
  | .ok none => .error (.missing name)
  | .error e => .error e

/-- The list of texts given for `name`, if anything is. -/
def texts? (args : Arguments) (name : String) : Except ArgumentError (Option (List String)) :=
  match args.get? name with
  | none => .ok none
  | some value =>
    match value.asTexts? with
    | some texts => .ok (some texts)
    | none => .error (.notTexts name)

end Arguments

end TokenRules
