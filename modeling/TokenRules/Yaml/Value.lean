import TokenRules.Number.Layout

/-!
# YAML values

The values that YAML documents denote: scalars of five kinds, sequences, mappings with keys of any
kind in the order written, and values with a tag of their own.
-/

namespace TokenRules.Yaml

/-- An integer that 64 bits hold, with a sign or without. -/
structure Integer where
  val : Int
  bounds : -0x8000000000000000 ≤ val ∧ val < 0x10000000000000000
  deriving DecidableEq

/-- An integer, if 64 bits hold it. -/
def Integer.ofInt? (n : Int) : Option Integer :=
  if h : -0x8000000000000000 ≤ n ∧ n < 0x10000000000000000 then some ⟨n, h⟩ else none

inductive Value
  | null
  | bool (value : Bool)
  | int (value : Integer)
  | float (value : Binary64)
  | text (value : String)
  | sequence (items : List Value)
  | mapping (entries : List (Value × Value))
  | tagged (tag : String) (value : Value)
  deriving Inhabited

namespace Value

/-- The value without its tags. -/
def untagged : Value → Value
  | .tagged _ value => value.untagged
  | value => value

def isNull : Value → Bool
  | .null => true
  | _ => false

/-- The text, if the value is one under its tags. -/
def asText? (value : Value) : Option String :=
  match value.untagged with
  | .text s => some s
  | _ => none

/-- The items, if the value is a sequence under its tags. -/
def asSequence? (value : Value) : Option (List Value) :=
  match value.untagged with
  | .sequence items => some items
  | _ => none

/-- The entries, if the value is a mapping under its tags. -/
def asMapping? (value : Value) : Option (List (Value × Value)) :=
  match value.untagged with
  | .mapping entries => some entries
  | _ => none

mutual

/-- Equality of values, as far as keys are concerned: mappings are equal in any order of their
entries, floats are compared as numbers with all NaNs taken for one. -/
def agrees : Value → Value → Bool
  | .null, .null => true
  | .bool x, .bool y => x == y
  | .int x, .int y => x == y
  | .float x, .float y => x.agreesOrNaN y
  | .text x, .text y => x == y
  | .sequence xs, .sequence ys => itemsAgree xs ys
  | .mapping xs, .mapping ys => xs.length == ys.length && entriesIn xs ys
  | .tagged s x, .tagged t y => s == t && x.agrees y
  | _, _ => false

def itemsAgree : List Value → List Value → Bool
  | [], [] => true
  | x :: xs, y :: ys => x.agrees y && itemsAgree xs ys
  | _, _ => false

/-- Whether each entry agrees with some entry of another mapping. -/
def entriesIn : List (Value × Value) → List (Value × Value) → Bool
  | [], _ => true
  | (key, value) :: rest, others =>
    others.any (fun other => key.agrees other.1 && value.agrees other.2) && entriesIn rest others

end

/-- Whether a key agrees with one of a mapping's keys. -/
def hasKey (entries : List (Value × Value)) (key : Value) : Bool :=
  entries.any (·.1.agrees key)

/-- Put an entry at the end, or in place of the value under the same key. -/
def insertEntry (entries : List (Value × Value)) (key value : Value) : List (Value × Value) :=
  if hasKey entries key then
    entries.map fun entry => if entry.1.agrees key then (entry.1, value) else entry
  else entries ++ [(key, value)]

/-- The mapping with the entries of a list, of which the last one of a key counts. -/
def ofEntries (entries : List (Value × Value)) : Value :=
  .mapping (entries.foldl (fun entries entry => insertEntry entries entry.1 entry.2) [])

/-- The value under an untagged text key. -/
def lookup? (entries : List (Value × Value)) (name : String) : Option Value :=
  (entries.find? fun entry => match entry.1 with
    | .text key => key == name
    | _ => false).map (·.2)

theorem lookup?_eq_none_iff {entries : List (Value × Value)} {name : String} :
    lookup? entries name = none ↔ ∀ entry ∈ entries, entry.1 ≠ .text name := by
  rw [lookup?, Option.map_eq_none_iff, List.find?_eq_none]
  refine forall₂_congr fun entry _ => ?_
  cases entry.1 <;> simp

theorem mem_of_lookup? {entries : List (Value × Value)} {name : String} {value : Value}
    (h : lookup? entries name = some value) : (.text name, value) ∈ entries := by
  obtain ⟨⟨key, value⟩, hfind, rfl⟩ := Option.map_eq_some_iff.1 h
  have hkey := List.find?_some hfind
  cases key with
  | text key =>
    obtain rfl : key = name := by simpa using hkey
    exact List.mem_of_find?_eq_some hfind
  | _ => cases hkey

/-- The name of a tag without the mark in front; a lone mark is a name itself. -/
def tagName (tag : String) : String :=
  match tag.toList with
  | '!' :: c :: rest => String.ofList (c :: rest)
  | _ => tag

mutual

/-- The value as it is shown: collections in brackets and braces, texts as they are. -/
def render : Value → String
  | .null => "null"
  | .bool value => if value then "true" else "false"
  | .int value => toString value.val
  | .float value => Layout.scientific.text value
  | .text value => value
  | .sequence items => "[" ++ String.intercalate ", " (renderItems items) ++ "]"
  | .mapping entries => "\x7b" ++ String.intercalate ", " (renderEntries entries) ++ "\x7d"
  | .tagged tag value => "!" ++ tag ++ " " ++ value.render

def renderItems : List Value → List String
  | [] => []
  | item :: rest => item.render :: renderItems rest

def renderEntries : List (Value × Value) → List String
  | [] => []
  | (key, value) :: rest => (key.render ++ ": " ++ value.render) :: renderEntries rest

end

end Value

end TokenRules.Yaml
