import TokenRules.Argument
import TokenRules.Text.Quoted
import TokenRules.Yaml.Value

/-!
# Decoding YAML values

How a YAML value is read where a certain kind of value is expected. Tags are looked through, except
inside the values of arguments, where none is allowed.
-/

namespace TokenRules.Authoring

open Yaml (Value)

/-- What a value was expected to be. -/
inductive Expected
  | text
  | number
  | sequence
  | mapping
  | fieldName
  /-- A mapping with the fields of a record. -/
  | record (name : String)
  | path
  deriving DecidableEq

def Expected.name : Expected → String
  | .text => "a string"
  | .number => "f64"
  | .sequence => "a sequence"
  | .mapping => "a map"
  | .fieldName => "field identifier"
  | .record name => "struct " ++ name
  | .path => "path string"

/-- Why a value cannot be decoded. -/
inductive Mismatch
  | invalidType (found : Value) (expected : Expected)
  | missingField (name : String)
  | duplicateField (name : String)
  | unknownField (name : String) (known : List String)
  /-- A value is no argument. -/
  | notArgument
  /-- A value has a tag where an argument is expected. -/
  | taggedArgument

/-- A value as it is named in messages. -/
def foundName (value : Value) : String :=
  match value.untagged with
  | .null => "unit value"
  | .bool b => if b then "boolean \x60true\x60" else "boolean \x60false\x60"
  | .int n => "integer \x60" ++ toString n.val ++ "\x60"
  | .float x => "floating point \x60" ++ Layout.marked.text x ++ "\x60"
  | .text s => "string " ++ Text.quoted s
  | .sequence _ => "sequence"
  | .mapping _ => "map"
  | .tagged _ _ => "enum"

def Mismatch.message : Mismatch → String
  | .invalidType found expected =>
    "invalid type: " ++ foundName found ++ ", expected " ++ expected.name
  | .missingField name => "missing field \x60" ++ name ++ "\x60"
  | .duplicateField name => "duplicate field \x60" ++ name ++ "\x60"
  | .unknownField name known =>
    "unknown field \x60" ++ name ++ "\x60, expected " ++
      String.intercalate " or " (known.map fun field => "\x60" ++ field ++ "\x60")
  | .notArgument => "data did not match any variant of untagged enum Value"
  | .taggedArgument => "untagged and internally tagged enums do not support enum input"

/-- Result of decoding. -/
abbrev Decoded := Except Mismatch

def decodeTextAs (expected : Expected) (value : Value) : Decoded String :=
  match value.asText? with
  | some text => .ok text
  | none => .error (.invalidType value expected)

def decodeText (value : Value) : Decoded String := decodeTextAs .text value

/-- A number; integers are rounded to the nearest one. -/
def decodeNumber (value : Value) : Decoded Binary64 :=
  match value.untagged with
  | .int n => .ok (.ofInt n.val)
  | .float x => .ok x
  | _ => .error (.invalidType value .number)

/-- The items of a sequence; a null has none. -/
def decodeSequence (value : Value) : Decoded (List Value) :=
  match value.untagged with
  | .sequence items => .ok items
  | .null => .ok []
  | _ => .error (.invalidType value .sequence)

/-- The entries of a mapping; a null has none. -/
def decodeMapping (expected : Expected) (value : Value) : Decoded (List (Value × Value)) :=
  match value.untagged with
  | .mapping entries => .ok entries
  | .null => .ok []
  | _ => .error (.invalidType value expected)

mutual

/-- Whether a value has no tag on it or anywhere in it. -/
def isUntagged : Value → Bool
  | .tagged _ _ => false
  | .sequence items => itemsUntagged items
  | .mapping entries => entriesUntagged entries
  | _ => true

def itemsUntagged : List Value → Bool
  | [] => true
  | item :: rest => isUntagged item && itemsUntagged rest

def entriesUntagged : List (Value × Value) → Bool
  | [] => true
  | (key, value) :: rest => isUntagged key && isUntagged value && entriesUntagged rest

end

/-- The argument that an integer is: a float if it has no place among the signed ones. -/
def argumentOfInt (n : Int) : Argument :=
  if n < 0x8000000000000000 then .int (Int64.ofInt n) else .float (.ofInt n)

mutual

/-- The argument that a value is, if it is one. -/
def argument? : Value → Option Argument
  | .bool b => some (.bool b)
  | .int n => some (argumentOfInt n.val)
  | .float x => some (.float x)
  | .text s => some (.text s)
  | .sequence items => (arguments? items).map .list
  | .null | .mapping _ | .tagged _ _ => none

def arguments? : List Value → Option (List Argument)
  | [] => some []
  | value :: rest =>
    match argument? value, arguments? rest with
    | some argument, some others => some (argument :: others)
    | _, _ => none

end

/-- The value of an argument; a null means that the argument is not given. -/
def decodeArgument (value : Value) : Decoded (Option Argument) :=
  match value with
  | .null => .ok none
  | value =>
    if isUntagged value then
      match argument? value with
      | some argument => .ok (some argument)
      | none => .error .notArgument
    else .error .taggedArgument

/-- The entries of a mapping from texts, each value read by `decode`. -/
def decodeEntries {α : Type} (decode : Value → Decoded α) :
    List (Value × Value) → Decoded (List (String × α))
  | [] => .ok []
  | (key, value) :: rest => do
    let name ← decodeText key
    let value ← decode value
    return (name, value) :: (← decodeEntries decode rest)

/-- Arguments from a mapping. Of several values for one name the last counts, and a name whose
value is null is left out. -/
def decodeArguments (value : Value) : Decoded Arguments := do
  let entries ← decodeEntries decodeArgument (← decodeMapping .mapping value)
  let last := NameMap.ofList entries
  return .ofList (last.entries.filterMap fun entry => entry.2.map (entry.1, ·))

end TokenRules.Authoring
